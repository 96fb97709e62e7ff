import ErgoProxy.Transport.HandshakeReading

/-!
# Admission of peers

A peer is to be admitted if its version is at least 4.0.100 and its handshake carries
a session feature that starts with the network's magic. The source looks at the first
session feature only, and only if that has four bytes. A handshake without a session
feature, or with one that is too short, is therefore admitted to either network, and
a session feature behind a foreign one is not seen. The condition under which the
verdict is the intended one is stated exactly; connections follow the verdict.
-/

namespace ErgoProxy.Handshake

open ExactReaders

/-- The handshake carries a session feature of the network. -/
def Carries (spec : PeerSpec) (network : Network) : Prop :=
  ∃ feature ∈ spec.features, feature.id = featureSession ∧ network.magic.toList <+: feature.body

instance (spec : PeerSpec) (network : Network) : Decidable (Carries spec network) :=
  inferInstanceAs (Decidable (∃ feature ∈ spec.features, feature.id = featureSession ∧
    network.magic.toList <+: feature.body))

/-- The intended rule of admission. -/
def Admissible (spec : PeerSpec) (network : Network) : Prop :=
  Version.eip37Min ≤ spec.version ∧ Carries spec network

instance (spec : PeerSpec) (network : Network) : Decidable (Admissible spec network) :=
  inferInstanceAs (Decidable (Version.eip37Min ≤ spec.version ∧ Carries spec network))

/-- The first session feature of a handshake. -/
def firstSession (spec : PeerSpec) : Option Feature :=
  spec.features.find? fun feature => feature.id = featureSession

/-- The first session feature decides as all of them do: there is one; if it is too short for a
magic, another one has it; if it has another magic, no other one has the network's. -/
def FirstDecides (spec : PeerSpec) (network : Network) : Prop :=
  ∃ session, firstSession spec = some session ∧
    (session.body.length < 4 → Carries spec network) ∧
    (4 ≤ session.body.length → Carries spec network → network.magic.toList <+: session.body)

/-- A body starts with the magic exactly if its first four bytes are the magic. -/
theorem magic_front (network : Network) (body : Bytes) :
    network.magic.toList <+: body ↔ body.take 4 = network.magic.toList := by
  have four : network.magic.toList.length = 4 := Vector.length_toList
  rw [List.prefix_iff_eq_take, four]
  exact eq_comm

/-- The verdict of the source: the version is high enough, and the first session feature, if
there is one of at least four bytes, starts with the magic. -/
theorem validatePeer_ok (spec : PeerSpec) (network : Network) :
    validatePeer spec network = .ok () ↔
      Version.eip37Min ≤ spec.version ∧ ∀ session, firstSession spec = some session →
        4 ≤ session.body.length → network.magic.toList <+: session.body := by
  rw [← Version.not_lt_iff, validatePeer]
  by_cases old : spec.version < Version.eip37Min
  · simp [old]
  · rw [if_neg old, firstSession]
    cases found : spec.features.find? fun feature => feature.id = featureSession with
    | none => simp [old]
    | some session =>
      simp only [Option.some.injEq, forall_eq', magic_front, old, not_false_eq_true, true_and]
      by_cases foreign : 4 ≤ session.body.length ∧ session.body.take 4 ≠ network.magic.toList
      · simp [foreign]
      · rw [if_neg foreign]
        simp only [true_iff]
        intro long
        by_contra different
        exact foreign ⟨long, different⟩

/-- A session feature that matches is the first one or stands behind it. -/
theorem carries_first {spec : PeerSpec} {network : Network} (carried : Carries spec network) :
    ∃ session, firstSession spec = some session := by
  obtain ⟨feature, member, isSession, _⟩ := carried
  have some : (firstSession spec).isSome :=
    List.find?_isSome.mpr ⟨feature, member, decide_eq_true isSession⟩
  exact Option.isSome_iff_exists.mp some

/-- The first session feature is carried. -/
theorem first_carried {spec : PeerSpec} {network : Network} {session : Feature}
    (found : firstSession spec = some session) (starts : network.magic.toList <+: session.body) :
    Carries spec network := by
  unfold firstSession at found
  have isSession := List.find?_some found
  exact ⟨session, List.mem_of_find?_eq_some found, of_decide_eq_true isSession, starts⟩

/-- The verdict is the intended one exactly if the version is too low or the first session
feature decides. -/
theorem verdict_intended (spec : PeerSpec) (network : Network) :
    (validatePeer spec network = .ok () ↔ Admissible spec network) ↔
      spec.version < Version.eip37Min ∨ FirstDecides spec network := by
  rw [validatePeer_ok, Admissible]
  by_cases old : spec.version < Version.eip37Min
  · have low : ¬ Version.eip37Min ≤ spec.version := by
      intro high
      exact (Version.not_lt_iff _ _).mpr high old
    simp [low, old]
  · have high := (Version.not_lt_iff _ _).mp old
    simp only [high, true_and, old, false_or]
    constructor
    · intro same
      cases found : firstSession spec with
      | none =>
        obtain ⟨session, some⟩ := carries_first (same.mp fun session impossible => by
          rw [found] at impossible
          cases impossible)
        rw [found] at some
        cases some
      | some session =>
        refine ⟨session, found, ?_, ?_⟩
        · intro short
          refine same.mp fun other again long => ?_
          obtain rfl := Option.some.inj (found.symm.trans again)
          omega
        · intro long carried
          exact same.mpr carried session found long
    · rintro ⟨session, found, short, long⟩
      constructor
      · intro accepted
        by_cases enough : 4 ≤ session.body.length
        · exact first_carried found (accepted session found enough)
        · exact short (Nat.lt_of_not_le enough)
      · intro carried other again enough
        obtain rfl := Option.some.inj (found.symm.trans again)
        exact long enough carried

end ErgoProxy.Handshake

namespace ErgoProxy.Connection

open ExactReaders Handshake BufReader

variable (config : HandshakeConfig) (surroundings : Surroundings)

/-- A handshake is received exactly if it is read in time and valid. -/
theorem receiveHandshake_ok (reader after : BufReader) (spec : PeerSpec) :
    receiveHandshake config surroundings reader = .ok spec after ↔
      surroundings.timedOut = false ∧ readHandshake reader = .ok spec after ∧
        validatePeer spec config.network = .ok () := by
  unfold receiveHandshake
  cases timed : surroundings.timedOut with
  | true =>
    simp only [if_true, Bool.true_eq_false, false_and, iff_false]
    rintro ⟨⟩
  | false =>
    simp only [Bool.false_eq_true, if_false, true_and]
    rw [bind_ok]
    constructor
    · rintro ⟨read, middle, done, judged⟩
      cases verdict : validatePeer read config.network with
      | error text =>
        rw [verdict] at judged
        cases judged
      | ok =>
        rw [verdict] at judged
        cases judged
        exact ⟨done, verdict⟩
    · rintro ⟨done, verdict⟩
      refine ⟨spec, after, done, ?_⟩
      rw [verdict]
      rfl

/-- An accepted connection is one whose handshake was received and whose own was written. -/
theorem inbound_ok (reader : BufReader) :
    (∃ connection, inbound config surroundings reader = .ok connection) ↔
      surroundings.writeOutcome = .ok () ∧
        ∃ spec after, receiveHandshake config surroundings reader = .ok spec after := by
  unfold inbound
  cases received : receiveHandshake config surroundings reader with
  | error problem after => simp
  | ok spec after =>
    cases surroundings.writeOutcome with
    | error problem =>
      constructor
      · rintro ⟨connection, ⟨⟩⟩
      · rintro ⟨⟨⟩, _⟩
    | ok => exact ⟨fun _ => ⟨rfl, spec, after, rfl⟩, fun _ => ⟨_, rfl⟩⟩

/-- An opened connection is one whose own handshake was written and whose peer's was received. -/
theorem outbound_ok (reader : BufReader) :
    (∃ connection, outbound config surroundings reader = .ok connection) ↔
      surroundings.writeOutcome = .ok () ∧
        ∃ spec after, receiveHandshake config surroundings reader = .ok spec after := by
  unfold outbound
  cases surroundings.writeOutcome with
  | error problem =>
    constructor
    · rintro ⟨connection, ⟨⟩⟩
    · rintro ⟨⟨⟩, _⟩
  | ok =>
    cases received : receiveHandshake config surroundings reader with
    | error problem after =>
      constructor
      · rintro ⟨connection, ⟨⟩⟩
      · rintro ⟨_, spec, last, ⟨⟩⟩
    | ok spec after => exact ⟨fun _ => ⟨rfl, spec, after, rfl⟩, fun _ => ⟨_, rfl⟩⟩

/-- The peer whose handshake one refill shows gets a connection, in either direction, exactly
if it is valid, in time and our own handshake is written. -/
theorem connected_iff {reader middle : BufReader} {data : Bytes} {spec : PeerSpec} {size : Nat}
    (filled : fillBuf reader = .ok data middle) (parsed : parse data = .ok spec)
    (measured : measureSize data = .ok size) :
    surroundings.writeOutcome = .ok () ∧
        (∃ received after, receiveHandshake config surroundings reader = .ok received after) ↔
      validatePeer spec config.network = .ok () ∧ surroundings.timedOut = false ∧
        surroundings.writeOutcome = .ok () := by
  have read : readHandshake reader = .ok spec (middle.consume size) :=
    (readHandshake_ok _ _ _).mpr ⟨data, middle, size, filled, parsed, measured, rfl⟩
  simp only [receiveHandshake_ok, read, EStateM.Result.ok.injEq]
  constructor
  · rintro ⟨written, received, after, timely, ⟨rfl, rfl⟩, valid⟩
    exact ⟨valid, timely, written⟩
  · rintro ⟨valid, timely, written⟩
    exact ⟨written, spec, _, timely, ⟨rfl, rfl⟩, valid⟩

/-- Admission: for every handshake that can be parsed and measured, the verdict is the intended
rule exactly if the version is too low or the first session feature decides; then a connection
of either direction over these bytes is established exactly for admissible peers, in time and
with our handshake written, and refused in every other case. -/
theorem admission_exact {data : Bytes} {spec : PeerSpec} {size : Nat}
    (parsed : parse data = .ok spec) (measured : measureSize data = .ok size) (network : Network) :
    ((validatePeer spec network = .ok () ↔ Admissible spec network) ↔
      spec.version < Version.eip37Min ∨ FirstDecides spec network) ∧
    (spec.version < Version.eip37Min ∨ FirstDecides spec network →
      ∀ config surroundings reader middle, config.network = network →
        fillBuf reader = .ok data middle →
        ((∃ connection, inbound config surroundings reader = .ok connection) ↔
          Admissible spec network ∧ surroundings.timedOut = false ∧
            surroundings.writeOutcome = .ok ()) ∧
        ((∃ connection, outbound config surroundings reader = .ok connection) ↔
          Admissible spec network ∧ surroundings.timedOut = false ∧
            surroundings.writeOutcome = .ok ())) := by
  refine ⟨verdict_intended spec network, ?_⟩
  rintro decides config surroundings reader middle rfl filled
  have verdict := (verdict_intended spec config.network).mpr decides
  rw [inbound_ok, outbound_ok, connected_iff config surroundings filled parsed measured, verdict]
  exact ⟨Iff.rfl, Iff.rfl⟩

/-- A handshake of version 4.0.100 with one session feature, of the test network. -/
def sessionHandshake : Bytes := [0, 0, 4, 0, 100, 0, 0, 1, 3, 4, 2, 3, 2, 3]

/-- It is admitted to the test network and refused by the main network. -/
theorem admission_exact_session :
    ∃ spec, parse sessionHandshake = .ok spec ∧ validatePeer spec .testnet = .ok () ∧
      validatePeer spec .mainnet ≠ .ok () := by
  have parsed : parse sessionHandshake = .ok ⟨"", ⟨4, 0, 100⟩, "", none, [⟨3, [2, 3, 2, 3]⟩]⟩ := by
    decide
  have measured : measureSize sessionHandshake = .ok 14 := by decide
  have test := (admission_exact parsed measured .testnet).1.mpr
    (Or.inr ⟨_, rfl, by decide, by decide⟩)
  have main := (admission_exact parsed measured .mainnet).1.mpr
    (Or.inr ⟨_, rfl, by decide, by decide⟩)
  exact ⟨_, parsed, test.mpr (by decide), fun accepted => absurd (main.mp accepted) (by decide)⟩

/-- A handshake with two session features, the first of the test network and the second of the
main network. -/
def twoSessions : Bytes := [0, 0, 4, 0, 100, 0, 0, 2, 3, 4, 2, 3, 2, 3, 3, 4, 1, 0, 2, 4]

/-- A peer without any session feature is admitted, and a session feature of the
network behind a foreign one is not seen. -/
theorem session_unchecked :
    (∃ spec, parse shortestHandshake = .ok spec ∧ measureSize shortestHandshake = .ok 8 ∧
      validatePeer spec .mainnet = .ok () ∧ ¬ Admissible spec .mainnet) ∧
    (∃ spec, parse twoSessions = .ok spec ∧ measureSize twoSessions = .ok 20 ∧
      validatePeer spec .mainnet ≠ .ok () ∧ Admissible spec .mainnet) :=
  ⟨⟨⟨"", ⟨4, 0, 100⟩, "", none, []⟩, by decide, by decide, by decide, by decide⟩,
    ⟨⟨"", ⟨4, 0, 100⟩, "", none, [⟨3, [2, 3, 2, 3]⟩, ⟨3, [1, 0, 2, 4]⟩]⟩, by decide, by decide,
      by decide, by decide⟩⟩

end ErgoProxy.Connection
