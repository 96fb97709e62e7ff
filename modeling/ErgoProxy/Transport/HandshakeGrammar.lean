import ErgoProxy.Transport.HandshakeWalks
import ErgoProxy.Transport.ReaderGrammars

/-!
# Which bytes are handshakes

The handshakes that can be read, and the specification that each of them stands for, as a grammar
that is stated without the readers: a timestamp, the agent, the version, the name, a declared
address, and the announced number of features. An address of a strange length is passed over.

Measuring accepts exactly the inputs that begin with a handshake. Parsing forgives what is wrong
with the features: it keeps those before the first one that is not complete, and a missing
count counts as none.
-/

namespace ErgoProxy.Handshake

open ExactReaders Cursor Vlq

/-- What the octets of an address and a port stand for. -/
inductive Locates (ip : Bytes) (port : UInt16) : Option SocketAddr → Prop where
  | v4 (octets : Vector UInt8 4) (same : ip = octets.toList) : Locates ip port (some (.v4 octets port))
  | v6 (octets : Vector UInt8 16) (same : ip = octets.toList) :
      Locates ip port (some (.v6 octets port 0 0))
  | strange (notV4 : ip.length ≠ 4) (notV6 : ip.length ≠ 16) : Locates ip port none

/-- An address: its length with four for the port, the octets, and the port modulo 2^16. -/
def AddressBytes (address : Option SocketAddr) (used : Bytes) : Prop :=
  ∃ (length : UInt8) (ip groups : Bytes) (port : UInt64), ip.length = length.toNat - 4 ∧
    QuantityBytes port groups ∧ Locates ip port.toUInt16 address ∧ used = length :: (ip ++ groups)

/-- A declared address: a flag, and the address if it is not zero. -/
def DeclaredBytes (address : Option SocketAddr) (used : Bytes) : Prop :=
  used = [0] ∧ address = none ∨
    ∃ flag declared, flag ≠ 0 ∧ AddressBytes address declared ∧ used = flag :: declared

/-- What precedes the features: a timestamp, the agent, the version, the name and the declared
address. -/
def HeadBytes (spec : PeerSpec) (used : Bytes) : Prop :=
  ∃ timestamp groups declared, QuantityBytes timestamp groups ∧
    (asBytes spec.agent).length ≤ 255 ∧ (asBytes spec.name).length ≤ 255 ∧
    DeclaredBytes spec.address declared ∧
    used = groups ++ (writeShortString [] spec.agent ++
      ([spec.version.major, spec.version.minor, spec.version.patch] ++
        (writeShortString [] spec.name ++ declared)))

/-- A feature: its identifier, the length of its body, and the body. -/
def FeatureBytes (feature : Feature) (used : Bytes) : Prop :=
  ∃ count, CountBytes feature.body.length count ∧ used = feature.id :: (count ++ feature.body)

/-- A handshake: what precedes the features, their number, and the features. -/
def HandshakeBytes (spec : PeerSpec) (used : Bytes) : Prop :=
  ∃ head items, HeadBytes spec head ∧ spec.features.length ≤ 255 ∧
    Repeated FeatureBytes spec.features items ∧
    used = head ++ (UInt8.ofNat spec.features.length :: items)

/-- Features of which at most so many are taken: as many as are wanted, or those before the first
that is not complete. -/
def Forgiven (count : Nat) (features : List Feature) (data : Bytes) : Prop :=
  ∃ items tail, data = items ++ tail ∧ Repeated FeatureBytes features items ∧
    (features.length = count ∨ features.length < count ∧
      ∀ feature used more, tail = used ++ more → ¬ FeatureBytes feature used)

/-- What follows the head of a handshake that is parsed: nothing, or a count and features. -/
def ForgivenBytes (features : List Feature) (data : Bytes) : Prop :=
  data = [] ∧ features = [] ∨
    ∃ (count : UInt8) (rest : Bytes), data = count :: rest ∧ Forgiven count.toNat features rest

/-- The octets and the port are taken for what they stand for. -/
theorem recognises_located (bytes : Bytes) (port : UInt16) :
    Recognises ((if four : bytes.length = 4 then
        pure (some (SocketAddr.new (.v4 ⟨bytes.toArray, by simpa using four⟩) port))
      else if sixteen : bytes.length = 16 then
        pure (some (SocketAddr.new (.v6 ⟨bytes.toArray, by simpa using sixteen⟩) port))
      else pure none : ByteReader (Option SocketAddr)))
      fun address used => Locates bytes port address ∧ used = [] := by
  by_cases four : bytes.length = 4
  · rw [dif_pos four]
    refine recognises_congr (recognises_pure _) fun address used => and_congr_left fun _ => ?_
    constructor
    · rintro rfl
      exact .v4 _ (by simp)
    · intro located
      cases located with
      | v4 octets same =>
        subst same
        simp [SocketAddr.new, ← Vector.toList_toArray]
      | v6 octets same => simp [same] at four
      | strange notV4 notV6 => exact (notV4 four).elim
  · rw [dif_neg four]
    by_cases sixteen : bytes.length = 16
    · rw [dif_pos sixteen]
      refine recognises_congr (recognises_pure _) fun address used => and_congr_left fun _ => ?_
      constructor
      · rintro rfl
        exact .v6 _ (by simp)
      · intro located
        cases located with
        | v4 octets same => simp [same] at four
        | v6 octets same =>
          subst same
          simp [SocketAddr.new, ← Vector.toList_toArray]
        | strange notV4 notV6 => exact (notV6 sixteen).elim
    · rw [dif_neg sixteen]
      refine recognises_congr (recognises_pure _) fun address used => and_congr_left fun _ => ?_
      constructor
      · rintro rfl
        exact .strange four sixteen
      · intro located
        cases located with
        | v4 octets same => simp [same] at four
        | v6 octets same => simp [same] at sixteen
        | strange => rfl

/-- Addresses are recognised. -/
theorem recognises_parseAddress : Recognises parseAddress AddressBytes := by
  refine recognises_congr (recognises_bind recognises_readByte fun addrLen =>
    recognises_bind (recognises_readExact (addrLen.toNat - 4)) fun bytes =>
      recognises_bind recognises_readVlq fun port => recognises_located bytes port.toUInt16) ?_
  intro address used
  constructor
  · rintro ⟨addrLen, _, _, rfl, ⟨_, ip, _, ⟨rfl, counted⟩, ⟨port, groups, _, quantity,
      ⟨located, rfl⟩, rfl⟩, rfl⟩, rfl⟩
    refine ⟨addrLen, ip, groups, port, counted, quantity, located, ?_⟩
    rw [List.append_nil]
    rfl
  · rintro ⟨addrLen, ip, groups, port, counted, quantity, located, rfl⟩
    exact ⟨addrLen, [addrLen], _, rfl, ⟨ip, ip, _, ⟨rfl, counted⟩, ⟨port, groups, [], quantity,
      ⟨located, rfl⟩, (List.append_nil _).symm⟩, rfl⟩, rfl⟩

/-- Declared addresses are recognised. -/
theorem recognises_readDeclared : Recognises readDeclared DeclaredBytes := by
  have branch (flag : UInt8) : Recognises (if flag ≠ 0 then parseAddress else pure none)
      fun address used => if flag ≠ 0 then AddressBytes address used else
        address = none ∧ used = [] := by
    split
    · exact recognises_parseAddress
    · exact recognises_pure none
  refine recognises_congr (recognises_bind recognises_readByte branch) fun address used => ?_
  constructor
  · rintro ⟨flag, _, declared, rfl, chosen, rfl⟩
    by_cases set : flag ≠ 0
    · rw [if_pos set] at chosen
      exact Or.inr ⟨flag, declared, set, chosen, rfl⟩
    · rw [if_neg set] at chosen
      obtain ⟨rfl, rfl⟩ := chosen
      obtain rfl := not_not.mp set
      exact Or.inl ⟨rfl, rfl⟩
  · rintro (⟨rfl, rfl⟩ | ⟨flag, declared, set, spelled, rfl⟩)
    · exact ⟨0, [0], [], rfl, by simp, rfl⟩
    · exact ⟨flag, [flag], declared, rfl, (if_pos set).mpr spelled, rfl⟩

/-- Features are recognised. -/
theorem recognises_readFeature : Recognises readFeature FeatureBytes := by
  refine recognises_congr (recognises_bind recognises_readByte fun id =>
    recognises_bind recognises_readVlqLength fun length =>
      recognises_bind (recognises_readExact length) fun body =>
        recognises_pure (Feature.mk id body)) ?_
  rintro ⟨id, body⟩ used
  constructor
  · rintro ⟨_, _, _, rfl, ⟨_, count, _, counts, ⟨_, _, _, ⟨rfl, rfl⟩, ⟨⟨⟩, rfl⟩, rfl⟩, rfl⟩, rfl⟩
    refine ⟨count, counts, ?_⟩
    rw [List.append_nil]
    rfl
  · rintro ⟨count, counts, rfl⟩
    exact ⟨id, [id], _, rfl, ⟨body.length, count, _, counts,
      ⟨body, body, [], ⟨rfl, rfl⟩, ⟨rfl, rfl⟩, (List.append_nil _).symm⟩, rfl⟩, rfl⟩

/-- The three bytes of a version. -/
theorem version_bytes (ver : Vector UInt8 3) (version : Version) :
    version = .ofBytes ver ↔ ver.toList = [version.major, version.minor, version.patch] := by
  obtain ⟨major, minor, patch⟩ := version
  obtain ⟨⟨bytes⟩, size⟩ := ver
  obtain ⟨first, second, third, rfl⟩ := List.length_eq_three.mp size
  simp [Version.ofBytes, eq_comm]

/-- What precedes the features is recognised. -/
theorem recognises_head : Recognises (readVlq >>= fun _ => entryHead)
    fun complete used => ∃ spec, HeadBytes spec used ∧
      complete = fun features => { spec with features := features } := by
  refine recognises_congr (recognises_bind recognises_readVlq fun _ =>
    recognises_bind recognises_readShortString fun agent =>
      recognises_bind (recognises_readArray 3) fun ver =>
        recognises_bind recognises_readShortString fun name =>
          recognises_bind recognises_readDeclared fun address => recognises_pure fun features =>
            PeerSpec.mk agent (.ofBytes ver) name address features) ?_
  intro complete used
  constructor
  · rintro ⟨timestamp, groups, _, quantity, ⟨agent, _, _, ⟨agentShort, rfl⟩, ⟨ver, _, _, rfl,
      ⟨name, _, _, ⟨nameShort, rfl⟩, ⟨address, declared, _, spelled, ⟨rfl, rfl⟩, rfl⟩, rfl⟩, rfl⟩,
      rfl⟩, rfl⟩
    refine ⟨⟨agent, .ofBytes ver, name, address, []⟩, ⟨timestamp, groups, declared, quantity,
      agentShort, nameShort, spelled, ?_⟩, rfl⟩
    rw [List.append_nil, ← (version_bytes ver _).mp rfl]
  · rintro ⟨⟨agent, version, name, address, features⟩, ⟨timestamp, groups, declared, quantity,
      agentShort, nameShort, spelled, rfl⟩, rfl⟩
    have bytes := (version_bytes #v[version.major, version.minor, version.patch] version).mpr rfl
    refine ⟨timestamp, groups, _, quantity, ⟨agent, _, _, ⟨agentShort, rfl⟩,
      ⟨#v[version.major, version.minor, version.patch], _, _, rfl, ⟨name, _, _, ⟨nameShort, rfl⟩,
        ⟨address, declared, [], spelled, ⟨?_, rfl⟩, (List.append_nil _).symm⟩, rfl⟩, rfl⟩, rfl⟩, rfl⟩
    rw [← bytes]

/-- The announced features are recognised. -/
theorem recognises_readFeatures : Recognises readFeatures fun features used =>
    features.length ≤ 255 ∧ ∃ items, Repeated FeatureBytes features items ∧
      used = UInt8.ofNat features.length :: items := by
  refine recognises_congr (recognises_bind recognises_readByte fun count =>
    recognises_times recognises_readFeature count.toNat) ?_
  intro features used
  constructor
  · rintro ⟨count, _, items, rfl, ⟨counted, repeated⟩, rfl⟩
    have small := count.toNat_lt
    refine ⟨by omega, items, repeated, ?_⟩
    rw [counted, UInt8.ofNat_toNat]
    rfl
  · rintro ⟨small, items, repeated, rfl⟩
    exact ⟨UInt8.ofNat features.length, [UInt8.ofNat features.length], items, rfl,
      ⟨(UInt8.toNat_ofNat_of_lt' (Nat.lt_succ_of_le small)).symm, repeated⟩, rfl⟩

/-- The strict walk recognises handshakes. -/
theorem recognises_strictWalk : Recognises strictWalk HandshakeBytes := by
  have parts : strictWalk = (readVlq >>= fun _ => entryHead) >>= fun complete =>
      readFeatures >>= fun features => pure (complete features) := by
    rw [bind_assoc]
    rfl
  rw [parts]
  refine recognises_congr (recognises_bind recognises_head fun complete =>
    recognises_bind recognises_readFeatures fun features =>
      recognises_pure (complete features)) ?_
  intro spec used
  constructor
  · rintro ⟨_, head, _, ⟨known, spelled, rfl⟩, ⟨features, _, _, ⟨small, items, repeated, rfl⟩,
      ⟨rfl, rfl⟩, rfl⟩, rfl⟩
    refine ⟨head, items, spelled, small, repeated, ?_⟩
    rw [List.append_nil]
  · rintro ⟨head, items, spelled, small, repeated, rfl⟩
    exact ⟨_, head, _, ⟨spec, spelled, rfl⟩, ⟨spec.features, _, [], ⟨small, items, repeated, rfl⟩,
      ⟨rfl, rfl⟩, (List.append_nil _).symm⟩, rfl⟩

/-- The feature loop reads one feature and goes on, or ends. -/
theorem parseFeatureLoop_succ (count : Nat) (data : Bytes) :
    ∃ rest, parseFeatureLoop (count + 1) data = match readFeature data with
      | .ok feature after =>
        (parseFeatureLoop count >>= fun features => pure (feature :: features)) after
      | .error _ _ => .ok [] rest := by
  cases idRead : readByte data with
  | error problem rest =>
    refine ⟨rest, ?_⟩
    rw [readFeature, bind_of_error idRead]
    simp only [parseFeatureLoop, idRead]
  | ok id afterId =>
    cases lengthRead : readVlqLength afterId with
    | error problem rest =>
      refine ⟨rest, ?_⟩
      rw [readFeature, bind_of_ok idRead, bind_of_error lengthRead]
      simp only [parseFeatureLoop, idRead, lengthRead]
    | ok length afterLength =>
      cases bodyRead : readExact length afterLength with
      | error problem rest =>
        refine ⟨rest, ?_⟩
        rw [readFeature, bind_of_ok idRead, bind_of_ok lengthRead, bind_of_error bodyRead]
        simp only [parseFeatureLoop, idRead, lengthRead, bodyRead]
      | ok body afterBody =>
        refine ⟨[], ?_⟩
        rw [readFeature, bind_of_ok idRead, bind_of_ok lengthRead, bind_of_ok bodyRead]
        simp only [parseFeatureLoop, idRead, lengthRead, bodyRead]
        rfl

/-- The feature loop takes the forgiven features. Induct on the count; the reader of one feature
decides whether the first one is complete. -/
theorem parseFeatureLoop_forgiven (count : Nat) (data : Bytes) (features : List Feature) :
    (∃ rest, parseFeatureLoop count data = .ok features rest) ↔ Forgiven count features data := by
  induction count generalizing data features with
  | zero =>
    constructor
    · rintro ⟨_, ⟨⟩⟩
      exact ⟨[], data, rfl, rfl, Or.inl rfl⟩
    · rintro ⟨items, tail, rfl, repeated, counted | ⟨fewer, _⟩⟩
      · obtain rfl := List.length_eq_zero_iff.mp counted
        exact ⟨_, rfl⟩
      · exact (Nat.not_lt_zero _ fewer).elim
  | succ count inductionHypothesis =>
    obtain ⟨rest, step⟩ := parseFeatureLoop_succ count data
    rw [step]
    cases read : readFeature data with
    | error problem after =>
      have incomplete : ∀ feature used more, data = used ++ more → ¬ FeatureBytes feature used := by
        intro feature used more same spelled
        cases read.symm.trans ((recognises_readFeature data feature more).mpr ⟨used, same, spelled⟩)
      constructor
      · rintro ⟨_, ⟨⟩⟩
        exact ⟨[], data, rfl, rfl, Or.inr ⟨Nat.succ_pos count, incomplete⟩⟩
      · rintro ⟨items, tail, same, repeated, _⟩
        cases features with
        | nil => exact ⟨rest, rfl⟩
        | cons first others =>
          obtain ⟨front, back, spelled, _, rfl⟩ := repeated
          rw [List.append_assoc] at same
          exact (incomplete first front _ same spelled).elim
    | ok feature after =>
      obtain ⟨used, rfl, spelled⟩ := (recognises_readFeature data feature after).mp read
      constructor
      · rintro ⟨last, done⟩
        obtain ⟨others, middle, rest, collected⟩ := (bind_ok _ _ _ _ _).mp done
        cases collected
        obtain ⟨items, tail, rfl, repeated, ends⟩ := (inductionHypothesis _ _).mp ⟨_, rest⟩
        refine ⟨used ++ items, tail, (List.append_assoc _ _ _).symm,
          ⟨used, items, spelled, repeated, rfl⟩, ?_⟩
        rw [List.length_cons]
        exact ends.imp (congrArg (· + 1)) (And.imp_left Nat.succ_lt_succ)
      · rintro ⟨items, tail, same, repeated, ends⟩
        cases features with
        | nil =>
          rcases ends with counted | ⟨_, incomplete⟩
          · cases counted
          · obtain rfl : items = [] := repeated
            exact (incomplete feature used after same.symm spelled).elim
        | cons first others =>
          obtain ⟨front, back, firstSpelled, backRepeated, rfl⟩ := repeated
          rw [List.append_assoc] at same
          -- The first feature is the one that was read.
          have again := (recognises_readFeature _ first (back ++ tail)).mpr
            ⟨front, same, firstSpelled⟩
          cases read.symm.trans again
          obtain ⟨last, done⟩ := (inductionHypothesis (back ++ tail) others).mpr
            ⟨back, tail, rfl, backRepeated, ends.imp Nat.succ.inj
              (And.imp_left Nat.lt_of_succ_lt_succ)⟩
          exact ⟨last, (bind_ok _ _ _ _ _).mpr ⟨others, last, done, rfl⟩⟩

/-- The parser of features forgives as well a missing count. -/
theorem parseFeatures_forgiven (data : Bytes) (features : List Feature) :
    (∃ rest, parseFeatures data = .ok features rest) ↔ ForgivenBytes features data := by
  cases data with
  | nil =>
    constructor
    · rintro ⟨_, ⟨⟩⟩
      exact Or.inl ⟨rfl, rfl⟩
    · rintro (⟨_, rfl⟩ | ⟨_, _, ⟨⟩, _⟩)
      exact ⟨_, rfl⟩
  | cons count rest =>
    refine (parseFeatureLoop_forgiven count.toNat rest features).trans ?_
    constructor
    · intro forgiven
      exact Or.inr ⟨count, rest, rfl, forgiven⟩
    · rintro (⟨⟨⟩, _⟩ | ⟨_, _, ⟨⟩, forgiven⟩)
      exact forgiven

/-- Measuring succeeds exactly on the inputs that begin with a handshake, with its length.
Parsing succeeds exactly on those that begin with the head of a handshake; it returns what the
head says and as many of the announced features as are complete. -/
theorem handshakes_spelled (data : Bytes) :
    (∀ size, measureSize data = .ok size ↔
      ∃ spec used tail, data = used ++ tail ∧ used.length = size ∧ HandshakeBytes spec used) ∧
    ∀ spec, parse data = .ok spec ↔
      ∃ head tail, data = head ++ tail ∧ HeadBytes spec head ∧ ForgivenBytes spec.features tail := by
  constructor
  · intro size
    simp only [measureSize_ok, recognises_strictWalk data]
    constructor
    · rintro ⟨spec, tail, ⟨used, rfl, spelled⟩, rfl⟩
      refine ⟨spec, used, tail, rfl, ?_, spelled⟩
      rw [List.length_append, Nat.add_sub_cancel]
    · rintro ⟨spec, used, tail, rfl, rfl, spelled⟩
      refine ⟨spec, tail, ⟨used, rfl, spelled⟩, ?_⟩
      rw [List.length_append, Nat.add_sub_cancel]
  · intro spec
    have parts : parseWalk = (readVlq >>= fun _ => entryHead) >>= fun complete =>
        parseFeatures >>= fun features => pure (complete features) := by
      rw [parseWalk_eq, parsePeerEntry_eq, bind_assoc]
    rw [parse, onSlice_ok, parts]
    constructor
    · rintro ⟨rest, walked⟩
      obtain ⟨complete, middle, headRead, featured⟩ := (bind_ok _ _ _ _ _).mp walked
      obtain ⟨features, last, featuresRead, finished⟩ := (bind_ok _ _ _ _ _).mp featured
      obtain ⟨head, rfl, known, spelled, rfl⟩ := (recognises_head _ _ _).mp headRead
      cases finished
      exact ⟨head, middle, rfl, spelled, (parseFeatures_forgiven middle features).mp ⟨_, featuresRead⟩⟩
    · rintro ⟨head, tail, rfl, spelled, forgiven⟩
      have headRead := (recognises_head (head ++ tail) _ tail).mpr ⟨head, rfl, spec, spelled, rfl⟩
      obtain ⟨rest, featuresRead⟩ := (parseFeatures_forgiven tail spec.features).mpr forgiven
      refine ⟨rest, (bind_ok _ _ _ _ _).mpr ⟨_, tail, headRead, ?_⟩⟩
      exact (bind_ok _ _ _ _ _).mpr ⟨spec.features, rest, featuresRead, rfl⟩

end ErgoProxy.Handshake
