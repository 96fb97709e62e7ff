import ErgoProxy.Transport.Handshake

/-!
# One grammar behind the handshake walkers

The strict walk reads every announced feature completely and returns the
specification. It is an exact reader. `measureSize` is the strict walk with its
value discarded, and `parse` and `parsePeerEntry` return the strict walk's value
whenever there is one; they differ from it only on inputs that the strict walk
refuses. All agreement statements follow from these three facts.
-/

namespace ErgoProxy.Handshake

open ExactReaders Cursor Vlq

/-- A presence byte and, if it is not zero, a declared address. -/
def readDeclared : ByteReader (Option SocketAddr) := do
  let hasAddr ← readByte
  if hasAddr ≠ 0 then parseAddress else pure none

/-- The fields between the timestamp and the features; the value completes them with
a feature list. -/
def entryHead : ByteReader (List Feature → PeerSpec) := do
  let agent ← readShortString
  let ver ← readArray 3
  let name ← readShortString
  let address ← readDeclared
  pure fun features => { agent, version := .ofBytes ver, name, address, features }

/-- One complete feature. -/
def readFeature : ByteReader Feature := do
  let id ← readByte
  let length ← readVlqLength
  let body ← readExact length
  pure ⟨id, body⟩

/-- The feature count and that many complete features. -/
def readFeatures : ByteReader (List Feature) := do
  let count ← readByte
  times readFeature count.toNat

/-- The strict walk over an entry without timestamp. -/
def entryWalk : ByteReader PeerSpec := do
  let complete ← entryHead
  let features ← readFeatures
  pure (complete features)

/-- The strict walk over a handshake. -/
def strictWalk : ByteReader PeerSpec := do
  let _timestamp ← readVlq
  entryWalk

/-- The walk that stops behind the feature count and returns it. -/
def countWalk : ByteReader UInt8 := do
  let _timestamp ← readVlq
  let _ ← entryHead
  readByte

/-- The feature count that a handshake announces. -/
def featureCount (data : Bytes) : Except IoError UInt8 := onSlice countWalk data

/-- A parsed handshake is an entry behind a timestamp. -/
theorem parseWalk_eq : parseWalk = readVlq >>= fun _ => parsePeerEntry := rfl

/-- The lenient entry parser in terms of the common head. -/
theorem parsePeerEntry_eq : parsePeerEntry =
    entryHead >>= fun complete => parseFeatures >>= fun features => pure (complete features) := by
  simp only [parsePeerEntry, entryHead, readDeclared, bind_assoc, pure_bind, if_bind]

/-- Skipping an address is parsing it and discarding the outcome. -/
theorem measureAddress_eq : measureAddress = parseAddress >>= fun _ => pure () := by
  have discarded (bytes : Bytes) (port : UInt16) : ((if four : bytes.length = 4 then
        pure (some (SocketAddr.new (.v4 ⟨bytes.toArray, by simpa using four⟩) port))
      else if sixteen : bytes.length = 16 then
        pure (some (SocketAddr.new (.v6 ⟨bytes.toArray, by simpa using sixteen⟩) port))
      else pure none : ByteReader (Option SocketAddr)) >>= fun _ => pure ()) = pure () := by
    split
    · rfl
    · split <;> rfl
  simp only [measureAddress, parseAddress, bind_assoc, discarded]

/-- Skipping features is reading them and discarding the outcome. -/
theorem measureFeatureLoop_eq (count : Nat) :
    measureFeatureLoop count = times readFeature count >>= fun _ => pure () := by
  induction count with
  | zero => rfl
  | succ count inductionHypothesis =>
    simp only [measureFeatureLoop, times, readFeature, inductionHypothesis, bind_assoc, pure_bind]

/-- Measuring is the strict walk with its value discarded. -/
theorem measureWalk_eq : measureWalk = strictWalk >>= fun _ => pure () := by
  simp only [measureWalk, strictWalk, entryWalk, entryHead, readDeclared, readFeatures, bind_assoc,
    pure_bind, measureFeatureLoop_eq, measureAddress_eq, if_bind]

/-- Parsing an address is exact. -/
theorem exact_parseAddress : Exact parseAddress := by
  apply exact_bind exact_readByte
  intro addrLen
  apply exact_bind (exact_readExact _)
  intro bytes
  apply exact_bind exact_readVlq
  intro port
  split
  · exact exact_pure _
  · split <;> exact exact_pure _

/-- Reading an optional address is exact. -/
theorem exact_readDeclared : Exact readDeclared := by
  apply exact_bind exact_readByte
  intro hasAddr
  split
  · exact exact_parseAddress
  · exact exact_pure _

/-- The head of an entry is exact. -/
theorem exact_entryHead : Exact entryHead :=
  exact_bind exact_readShortString fun _ => exact_bind (exact_readArray 3) fun _ =>
    exact_bind exact_readShortString fun _ => exact_bind exact_readDeclared fun _ => exact_pure _

/-- Reading a feature is exact. -/
theorem exact_readFeature : Exact readFeature :=
  exact_bind exact_readByte fun _ => exact_bind exact_readVlqLength fun length =>
    exact_bind (exact_readExact length) fun _ => exact_pure _

/-- The strict walk is exact. -/
theorem exact_strictWalk : Exact strictWalk :=
  exact_bind exact_readVlq fun _ => exact_bind exact_entryHead fun _ =>
    exact_bind (exact_bind exact_readByte fun count => exact_times exact_readFeature count.toNat)
      fun _ => exact_pure _

/-- Measuring succeeds exactly where the strict walk does, at the same place. -/
theorem measureWalk_ok (data rest : Bytes) :
    measureWalk data = .ok () rest ↔ ∃ spec, strictWalk data = .ok spec rest := by
  rw [measureWalk_eq, bind_ok]
  constructor
  · rintro ⟨spec, middle, walked, finished⟩
    cases finished
    exact ⟨spec, walked⟩
  · rintro ⟨spec, walked⟩
    exact ⟨spec, rest, walked, rfl⟩

/-- The measured size is the distance that the strict walk travels. -/
theorem measureSize_ok (data : Bytes) (size : Nat) :
    measureSize data = .ok size ↔
      ∃ spec rest, strictWalk data = .ok spec rest ∧ size = data.length - rest.length := by
  rw [measureSize, positionAfter_ok]
  constructor
  · rintro ⟨_, rest, measured, travelled⟩
    obtain ⟨spec, walked⟩ := (measureWalk_ok data rest).mp measured
    exact ⟨spec, rest, walked, travelled⟩
  · rintro ⟨spec, rest, walked, travelled⟩
    exact ⟨(), rest, (measureWalk_ok data rest).mpr ⟨spec, walked⟩, travelled⟩

/-- A consumed handshake is measured at its own length, whatever follows it. -/
theorem consumed_measured {used : Bytes} {spec : PeerSpec}
    (consumed : Consumes strictWalk used spec) (tail : Bytes) :
    measureSize (used ++ tail) = .ok used.length := by
  refine (measureSize_ok _ _).mpr ⟨spec, tail, consumed tail, ?_⟩
  rw [List.length_append, Nat.add_sub_cancel]

/-- On complete features the lenient loop reads what the strict one reads. Induct on
the count; an incomplete feature is refused by the strict loop. -/
theorem parseFeatureLoop_ok {count : Nat} {data rest : Bytes} {features : List Feature}
    (read : times readFeature count data = .ok features rest) :
    parseFeatureLoop count data = .ok features rest := by
  induction count generalizing data features with
  | zero => exact read
  | succ count inductionHypothesis =>
    obtain ⟨feature, afterFeature, featureRead, others⟩ := (bind_ok _ _ _ _ _).mp read
    obtain ⟨id, afterId, idRead, lengthAndBody⟩ := (bind_ok _ _ _ _ _).mp featureRead
    obtain ⟨length, afterLength, lengthRead, bodyOnly⟩ := (bind_ok _ _ _ _ _).mp lengthAndBody
    obtain ⟨body, afterBody, bodyRead, finished⟩ := (bind_ok _ _ _ _ _).mp bodyOnly
    cases finished
    obtain ⟨tail, afterTail, tailRead, collected⟩ := (bind_ok _ _ _ _ _).mp others
    cases collected
    simp only [parseFeatureLoop, idRead, lengthRead, bodyRead]
    rw [bind_of_ok (inductionHypothesis tailRead)]
    rfl

/-- Complete features are what the lenient parser returns. -/
theorem parseFeatures_ok {data rest : Bytes} {features : List Feature}
    (read : readFeatures data = .ok features rest) : parseFeatures data = .ok features rest := by
  obtain ⟨count, afterCount, countRead, counted⟩ := (bind_ok _ _ _ _ _).mp read
  simp only [parseFeatures, countRead]
  exact parseFeatureLoop_ok counted

/-- Where the strict entry walk succeeds, the lenient one agrees with it. -/
theorem parsePeerEntry_ok {data rest : Bytes} {spec : PeerSpec}
    (walked : entryWalk data = .ok spec rest) : parsePeerEntry data = .ok spec rest := by
  obtain ⟨complete, afterHead, headRead, featured⟩ := (bind_ok _ _ _ _ _).mp walked
  obtain ⟨features, afterFeatures, featuresRead, finished⟩ := (bind_ok _ _ _ _ _).mp featured
  rw [parsePeerEntry_eq, bind_of_ok headRead, bind_of_ok (parseFeatures_ok featuresRead)]
  exact finished

/-- Where the strict walk succeeds, `parse` returns its value. -/
theorem parse_ok {data rest : Bytes} {spec : PeerSpec} (walked : strictWalk data = .ok spec rest) :
    parse data = .ok spec := by
  obtain ⟨timestamp, afterTimestamp, timestampRead, entry⟩ := (bind_ok _ _ _ _ _).mp walked
  refine (onSlice_ok parseWalk data spec).mpr ⟨rest, ?_⟩
  rw [parseWalk_eq, bind_of_ok timestampRead]
  exact parsePeerEntry_ok entry

/-- The head completes a specification with the features it is given. -/
theorem entryHead_features {data rest : Bytes} {complete : List Feature → PeerSpec}
    (read : entryHead data = .ok complete rest) (features : List Feature) :
    (complete features).features = features := by
  obtain ⟨agent, afterAgent, _, versioned⟩ := (bind_ok _ _ _ _ _).mp read
  obtain ⟨ver, afterVersion, _, named⟩ := (bind_ok _ _ _ _ _).mp versioned
  obtain ⟨name, afterName, _, addressed⟩ := (bind_ok _ _ _ _ _).mp named
  obtain ⟨address, afterAddress, _, finished⟩ := (bind_ok _ _ _ _ _).mp addressed
  cases finished
  rfl

/-- The strict walk returns as many features as the handshake announces. -/
theorem strictWalk_count {data rest : Bytes} {spec : PeerSpec}
    (walked : strictWalk data = .ok spec rest) :
    ∃ count, featureCount data = .ok count ∧ spec.features.length = count.toNat := by
  obtain ⟨timestamp, afterTimestamp, timestampRead, entry⟩ := (bind_ok _ _ _ _ _).mp walked
  obtain ⟨complete, afterHead, headRead, featured⟩ := (bind_ok _ _ _ _ _).mp entry
  obtain ⟨features, afterFeatures, featuresRead, finished⟩ := (bind_ok _ _ _ _ _).mp featured
  obtain ⟨count, afterCount, countRead, counted⟩ := (bind_ok _ _ _ _ _).mp featuresRead
  cases finished
  refine ⟨count, ?_, ?_⟩
  · refine (onSlice_ok countWalk data count).mpr ⟨afterCount, ?_⟩
    rw [countWalk, bind_of_ok timestampRead, bind_of_ok headRead]
    exact countRead
  · rw [entryHead_features headRead]
    exact times_length counted

section Measured

variable {data : Bytes} {size : Nat}

/-- A measured handshake is a strict walk that stops at the measured offset. -/
theorem measured_walk (measured : measureSize data = .ok size) :
    size ≤ data.length ∧ ∃ spec, strictWalk data = .ok spec (data.drop size) := by
  obtain ⟨spec, rest, walked, rfl⟩ := (measureSize_ok data size).mp measured
  obtain ⟨_, _, beyond⟩ := exact_distance exact_strictWalk walked
  refine ⟨Nat.sub_le _ _, spec, ?_⟩
  rw [← beyond]
  exact walked

/-- Any input that agrees on the measured bytes has the same strict walk. -/
theorem walk_agrees {other : Bytes} {spec : PeerSpec} (inside : size ≤ data.length)
    (walked : strictWalk data = .ok spec (data.drop size))
    (same : other.take size = data.take size) :
    strictWalk other = .ok spec (other.drop size) := by
  have travelled : data.length - (data.drop size).length = size := by
    rw [List.length_drop]
    omega
  rw [← travelled] at same
  have reread := exact_agrees exact_strictWalk walked same
  rwa [travelled] at reread

/-- A strict walk to an offset inside the input measures that offset. -/
theorem walk_measured {spec : PeerSpec} (inside : size ≤ data.length)
    (walked : strictWalk data = .ok spec (data.drop size)) : measureSize data = .ok size := by
  refine (measureSize_ok data size).mpr ⟨spec, data.drop size, walked, ?_⟩
  rw [List.length_drop]
  omega

/-- No strict initial part of the measured bytes can be measured. -/
theorem measured_prefix_refused {short : Bytes} (measured : measureSize data = .ok size)
    (initial : short <+: data.take size) (strict : short ≠ data.take size) :
    ∃ problem, measureSize short = .error problem := by
  obtain ⟨inside, spec, walked⟩ := measured_walk measured
  have travelled : data.length - (data.drop size).length = size := by
    rw [List.length_drop]
    omega
  obtain ⟨_, consumed, _⟩ := exact_distance exact_strictWalk walked
  rw [travelled] at consumed
  cases outcome : measureSize short with
  | error problem => exact ⟨problem, rfl⟩
  | ok shortSize =>
    obtain ⟨read, rest, accepted, _⟩ := (measureSize_ok short shortSize).mp outcome
    exact absurd accepted (strict_prefix_refused exact_strictWalk consumed initial strict read rest)

end Measured

end ErgoProxy.Handshake
