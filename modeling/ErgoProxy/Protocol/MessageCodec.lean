import ErgoProxy.Protocol.Messages

/-!
# Round trips and sizes of message bodies

Every message is read back from its own frame, provided its counts and lengths are
within the parsers' limit and it does not disguise a typed message as an unknown one;
a truncated body is never accepted as that of a shorter message. Conversely, encoding a
parsed message never needs more bytes than the frame it came from: accepted
lengths may be padded and bodies may carry trailing bytes, but the encoder writes
the shortest lengths and nothing else.
-/

namespace ErgoProxy.ProtocolMessage

open ExactReaders Cursor Vlq

/-- An inventory body in three parts. -/
theorem encodeInvBody_parts (modifierType : UInt8) (ids : List ModifierId) :
    encodeInvBody modifierType ids =
      [modifierType] ++ (writeVlq [] (UInt64.ofNat ids.length) ++ ids.flatMap Vector.toList) := by
  rw [encodeInvBody, write_append, List.append_assoc]

/-- A modifier in three parts. -/
theorem encodeModifier_parts (id : ModifierId) (data : Bytes) :
    encodeModifier (id, data) = id.toList ++ (writeVlq [] (UInt64.ofNat data.length) ++ data) := by
  rw [encodeModifier, write_append, List.append_assoc]

/-- A response body in three parts. -/
theorem encodeModifierResponseBody_parts (modifierType : UInt8)
    (modifiers : List (ModifierId × Bytes)) :
    encodeModifierResponseBody modifierType modifiers =
      [modifierType] ++ (writeVlq [] (UInt64.ofNat modifiers.length) ++
        modifiers.flatMap encodeModifier) := by
  rw [encodeModifierResponseBody, write_append, List.append_assoc]

/-- Walk a type, a count and as many items: the common form of the bodies that list items. -/
def listWalk {α : Type} (item : ByteReader α) : ByteReader (UInt8 × List α) := do
  let typeByte ← readByte
  let count ← readVlqLength
  let items ← times item count
  pure (typeByte, items)

/-- The bytes of a type, a count and the items. -/
def listBytes {α : Type} (segment : α → Bytes) (listed : UInt8 × List α) : Bytes :=
  [listed.1] ++ (writeVlq [] (UInt64.ofNat listed.2.length) ++ listed.2.flatMap segment)

section Lists

variable {α : Type} {item : ByteReader α} {segment : α → Bytes}

/-- Items that are read back one by one are read back as a list. -/
theorem consumes_listWalk (typeByte : UInt8) {items : List α} (few : items.length ≤ 262144)
    (consumes : ∀ value ∈ items, Consumes item (segment value) value) :
    Consumes (listWalk item) (listBytes segment (typeByte, items)) (typeByte, items) :=
  consumes_bind (consumes_readByte typeByte)
    (consumes_bind (consumes_readVlqLength few)
      (consumes_map (consumes_times segment items consumes) fun read => (typeByte, read)))

/-- A walk that pays for each item pays for the list. -/
theorem pays_listWalk (pays : Pays item segment) : Pays (listWalk item) (listBytes segment) := by
  intro data listed rest done
  obtain ⟨typeByte, afterType, typeRead, counted⟩ := (bind_ok _ _ _ _ _).mp done
  obtain ⟨count, afterCount, countRead, followed⟩ := (bind_ok _ _ _ _ _).mp counted
  obtain ⟨items, afterItems, itemsRead, finished⟩ := (bind_ok _ _ _ _ _).mp followed
  cases finished
  have typePaid := pays_readByte data typeByte afterType typeRead
  have countPaid := pays_readVlqLength afterType count afterCount countRead
  have itemsPaid := pays_times pays count afterCount items rest itemsRead
  simp only [listBytes, List.length_append, times_length itemsRead] at *
  omega

/-- What the walk returns depends on what it consumed alone if this holds of each item. -/
theorem exact_listWalk (exactItem : Exact item) : Exact (listWalk item) := by
  apply exact_bind exact_readByte
  intro typeByte
  apply exact_bind exact_readVlqLength
  intro count
  exact exact_bind (exact_times exactItem count) fun _ => exact_pure _

end Lists

/-- An inventory body is read back. -/
theorem consumes_parseInvWalk (modifierType : UInt8) {ids : List ModifierId}
    (few : ids.length ≤ 262144) :
    Consumes parseInvWalk (encodeInvBody modifierType ids) (modifierType, ids) := by
  rw [encodeInvBody_parts]
  exact consumes_listWalk modifierType few fun id _ => consumes_readArray id

/-- A modifier is read back. -/
theorem consumes_readModifier (id : ModifierId) {data : Bytes} (short : data.length ≤ 262144) :
    Consumes readModifier (encodeModifier (id, data)) (id, data) := by
  rw [encodeModifier_parts]
  exact consumes_bind (consumes_readArray id)
    (consumes_bind (consumes_readVlqLength short)
      (consumes_map (consumes_readExact data) fun read => (id, read)))

/-- A response body is read back. -/
theorem consumes_parseModifierResponseWalk (modifierType : UInt8)
    {modifiers : List (ModifierId × Bytes)} (few : modifiers.length ≤ 262144)
    (short : ∀ modifier ∈ modifiers, modifier.2.length ≤ 262144) :
    Consumes parseModifierResponseWalk (encodeModifierResponseBody modifierType modifiers)
      (modifierType, modifiers) := by
  rw [encodeModifierResponseBody_parts]
  exact consumes_listWalk modifierType few
    fun modifier member => consumes_readModifier modifier.1 (short modifier member)

/-- What one walk consumes covers the encoding of what it returns. -/
theorem pays_parseInvWalk :
    Pays parseInvWalk (fun parsed => encodeInvBody parsed.1 parsed.2) := by
  simp only [encodeInvBody_parts]
  exact pays_listWalk (pays_readArray 32)

/-- What reading a modifier consumes covers its encoding. -/
theorem pays_readModifier : Pays readModifier encodeModifier := by
  intro data parsed rest done
  obtain ⟨id, afterId, idRead, counted⟩ := (bind_ok _ _ _ _ _).mp done
  obtain ⟨dataLen, afterLen, lenRead, filled⟩ := (bind_ok _ _ _ _ _).mp counted
  obtain ⟨modData, afterData, dataRead, finished⟩ := (bind_ok _ _ _ _ _).mp filled
  cases finished
  have idPaid := pays_readArray 32 data id afterId idRead
  have lenPaid := pays_readVlqLength afterId dataLen afterLen lenRead
  have dataPaid := pays_readExact dataLen afterLen modData rest dataRead
  simp only [encodeModifier_parts, List.length_append, readExact_length dataRead] at *
  omega

/-- What a response walk consumes covers the encoding of what it returns. -/
theorem pays_parseModifierResponseWalk : Pays parseModifierResponseWalk
    (fun parsed => encodeModifierResponseBody parsed.1 parsed.2) := by
  simp only [encodeModifierResponseBody_parts]
  exact pays_listWalk pays_readModifier

/-- The codes that have a typed form. -/
def typedCodes : List UInt8 :=
  [MessageCode.getPeers, MessageCode.peers, MessageCode.inv, MessageCode.modifierRequest,
    MessageCode.modifierResponse, MessageCode.syncInfo]

/-- An unknown message does not carry the code of a typed one. -/
def Regular : ProtocolMessage → Prop
  | unknown code _ => code ∉ typedCodes
  | _ => True

/-- A parsed body's encoding is no longer than the body. -/
theorem onSlice_shrinks {α : Type} {reader : ByteReader α} {segment : α → Bytes}
    (pays : Pays reader segment) {data : Bytes} {value : α}
    (parsed : onSlice reader data = .ok value) : (segment value).length ≤ data.length := by
  obtain ⟨rest, done⟩ := (onSlice_ok reader data value).mp parsed
  have paid := pays data value rest done
  omega

/-- A segment read in full is what the slice parser returns. -/
theorem onSlice_consumed {α : Type} {reader : ByteReader α} {used : Bytes} {value : α}
    (consumed : Consumes reader used value) : onSlice reader used = .ok value := by
  have done := consumed []
  rw [List.append_nil] at done
  exact (onSlice_ok reader used value).mpr ⟨[], done⟩

/-- A frame parser that continues after its body parser succeeds only if both do. -/
theorem parsed_body {α : Type} {body : Except IoError α}
    {next : α → Except IoError ProtocolMessage} {message : ProtocolMessage}
    (parsed : (body >>= next) = .ok message) :
    ∃ contents, body = .ok contents ∧ next contents = .ok message := by
  cases body with
  | error problem => cases parsed
  | ok contents => exact ⟨contents, rfl, parsed⟩

/-- A parsed message is regular, and its own frame has no longer body than the frame
it came from. -/
theorem fromFrame_shrinks {frame : Frame} {message : ProtocolMessage}
    (parsed : fromFrame frame = .ok message) :
    message.Regular ∧ message.toFrame.body.length ≤ frame.body.length := by
  unfold fromFrame at parsed
  split at parsed
  case isTrue => cases parsed; exact ⟨trivial, Nat.zero_le _⟩
  split at parsed
  case isTrue => cases parsed; exact ⟨trivial, Nat.le_refl _⟩
  split at parsed
  case isTrue =>
    obtain ⟨contents, body, done⟩ := parsed_body parsed
    cases done
    exact ⟨trivial, onSlice_shrinks pays_parseInvWalk body⟩
  split at parsed
  case isTrue =>
    obtain ⟨contents, body, done⟩ := parsed_body parsed
    cases done
    exact ⟨trivial, onSlice_shrinks pays_parseInvWalk body⟩
  split at parsed
  case isTrue =>
    obtain ⟨contents, body, done⟩ := parsed_body parsed
    cases done
    exact ⟨trivial, onSlice_shrinks pays_parseModifierResponseWalk body⟩
  split at parsed
  case isTrue => cases parsed; exact ⟨trivial, Nat.le_refl _⟩
  case isFalse =>
    cases parsed
    exact ⟨by simp_all [Regular, typedCodes], Nat.le_refl _⟩

/-- The length of an inventory body. -/
theorem encodeInvBody_length (modifierType : UInt8) (ids : List ModifierId) :
    (encodeInvBody modifierType ids).length =
      1 + (writeVlq [] (UInt64.ofNat ids.length)).length + 32 * ids.length := by
  have blocks : (ids.flatMap Vector.toList).length = 32 * ids.length := by
    simp [List.length_flatMap, Nat.mul_comm]
  rw [encodeInvBody_parts]
  simp only [List.length_append, List.length_singleton, blocks]
  omega

/-- A modifier's encoding is longer than its bytes and never empty. -/
theorem encodeModifier_length (modifier : ModifierId × Bytes) :
    modifier.2.length + 33 ≤ (encodeModifier modifier).length := by
  obtain ⟨id, data⟩ := modifier
  have written := (write_length (UInt64.ofNat data.length)).1
  rw [encodeModifier_parts]
  simp only [List.length_append, Vector.length_toList]
  omega

/-- One modifier's encoding is part of the encoding of all. -/
theorem encodeModifier_le {modifier : ModifierId × Bytes} {modifiers : List (ModifierId × Bytes)}
    (member : modifier ∈ modifiers) :
    (encodeModifier modifier).length ≤ (modifiers.flatMap encodeModifier).length := by
  obtain ⟨before, after, rfl⟩ := List.append_of_mem member
  simp only [List.flatMap_append, List.flatMap_cons, List.length_append]
  omega

/-- There are no more modifiers than bytes in their encoding. -/
theorem modifiers_le_encoding (modifiers : List (ModifierId × Bytes)) :
    modifiers.length ≤ (modifiers.flatMap encodeModifier).length := by
  induction modifiers with
  | nil => exact Nat.le_refl 0
  | cons modifier modifiers inductionHypothesis =>
    have first := encodeModifier_length modifier
    rw [List.flatMap_cons, List.length_append, List.length_cons]
    omega

/-- Every count and every length of the message is within the parsers' limit. -/
def Bounded : ProtocolMessage → Prop
  | inv _ ids => ids.length ≤ 262144
  | modifierRequest _ ids => ids.length ≤ 262144
  | modifierResponse _ modifiers =>
    modifiers.length ≤ 262144 ∧ ∀ modifier ∈ modifiers, modifier.2.length ≤ 262144
  | _ => True

/-- The message's body announces how many items it lists. -/
def Listing : ProtocolMessage → Prop
  | inv _ _ | modifierRequest _ _ | modifierResponse _ _ => True
  | _ => False

/-- A message whose body is admissible is within the limits: each item takes at least
one byte of the body, and each modifier at least its own bytes. -/
theorem bounded_of_small {message : ProtocolMessage}
    (small : message.toFrame.body.length ≤ 262144) : message.Bounded := by
  have listed : ∀ modifierType ids, (encodeInvBody modifierType ids).length ≤ 262144 →
      ids.length ≤ 262144 := by
    intro modifierType ids fits
    rw [encodeInvBody_length] at fits
    omega
  cases message with
  | inv modifierType ids => exact listed modifierType ids small
  | modifierRequest modifierType ids => exact listed modifierType ids small
  | modifierResponse modifierType modifiers =>
    have whole : (modifiers.flatMap encodeModifier).length ≤ 262144 := by
      simp only [toFrame, encodeModifierResponseBody_parts, List.length_append] at small
      omega
    refine ⟨Nat.le_trans (modifiers_le_encoding modifiers) whole, fun modifier member => ?_⟩
    have single := encodeModifier_le member
    have own := encodeModifier_length modifier
    omega
  | getPeers | peers _ | syncInfo _ | unknown _ _ => trivial

/-- A regular message within the limits is read back from its own frame. -/
theorem fromFrame_bounded {message : ProtocolMessage} (regular : message.Regular)
    (bounded : message.Bounded) : fromFrame message.toFrame = .ok message := by
  cases message with
  | getPeers => rfl
  | peers body => rfl
  | inv modifierType ids =>
    change (parseInvBody (encodeInvBody modifierType ids) >>= fun parsed =>
      .ok (inv parsed.1 parsed.2)) = _
    rw [parseInvBody, onSlice_consumed (consumes_parseInvWalk modifierType bounded)]
    rfl
  | modifierRequest modifierType ids =>
    change (parseInvBody (encodeInvBody modifierType ids) >>= fun parsed =>
      .ok (modifierRequest parsed.1 parsed.2)) = _
    rw [parseInvBody, onSlice_consumed (consumes_parseInvWalk modifierType bounded)]
    rfl
  | modifierResponse modifierType modifiers =>
    change (parseModifierResponseBody (encodeModifierResponseBody modifierType modifiers) >>=
      fun parsed => .ok (modifierResponse parsed.1 parsed.2)) = _
    rw [parseModifierResponseBody, onSlice_consumed
      (consumes_parseModifierResponseWalk modifierType bounded.1 bounded.2)]
    rfl
  | syncInfo body => rfl
  | unknown code body =>
    simp only [Regular, typedCodes, List.mem_cons, List.not_mem_nil, or_false, not_or] at regular
    obtain ⟨notGetPeers, notPeers, notInv, notRequest, notResponse, notSync⟩ := regular
    simp only [fromFrame, toFrame, notGetPeers, notPeers, notInv, notRequest, notResponse, notSync,
      if_false]

/-- A regular message whose body is admissible is read back from its own frame. -/
theorem fromFrame_toFrame {message : ProtocolMessage} (regular : message.Regular)
    (small : message.toFrame.body.length ≤ 262144) :
    fromFrame message.toFrame = .ok message :=
  fromFrame_bounded regular (bounded_of_small small)

/-- What an inventory walk returns depends on what it consumed alone. -/
theorem exact_parseInvWalk : Exact parseInvWalk := exact_listWalk (exact_readArray 32)

/-- What reading a modifier returns depends on what it consumed alone. -/
theorem exact_readModifier : Exact readModifier := by
  apply exact_bind (exact_readArray 32)
  intro id
  apply exact_bind exact_readVlqLength
  intro dataLen
  exact exact_bind (exact_readExact dataLen) fun _ => exact_pure _

/-- What a response walk returns depends on what it consumed alone. -/
theorem exact_parseModifierResponseWalk : Exact parseModifierResponseWalk :=
  exact_listWalk exact_readModifier

/-- A frame parser fails if its body parser does, and an exact body parser fails on every
strict initial part of a segment it reads to the end. -/
theorem truncated_refused {α : Type} {reader : ByteReader α} (exact : Exact reader)
    {used short : Bytes} {value : α} (consumed : Consumes reader used value)
    (initial : short <+: used) (strict : short ≠ used) (next : α → Except IoError ProtocolMessage) :
    ∃ problem, (onSlice reader short >>= next) = .error problem := by
  cases outcome : onSlice reader short with
  | error problem => exact ⟨problem, rfl⟩
  | ok read =>
    obtain ⟨rest, done⟩ := (onSlice_ok reader short read).mp outcome
    exact absurd done (strict_prefix_refused exact consumed initial strict read rest)

/-- Every regular message within the limits is read back from its own frame, and if it
lists items, no frame with its code and a truncated body is accepted. -/
theorem roundtrip_untruncated {message : ProtocolMessage} (regular : message.Regular)
    (bounded : message.Bounded) :
    fromFrame message.toFrame = .ok message ∧
      (message.Listing → ∀ short : Bytes, short <+: message.toFrame.body →
        short ≠ message.toFrame.body →
          ∃ problem, fromFrame { code := message.toFrame.code, body := short } = .error problem) := by
  refine ⟨fromFrame_bounded regular bounded, ?_⟩
  intro listing short initial strict
  cases message with
  | inv modifierType ids =>
    exact truncated_refused exact_parseInvWalk (consumes_parseInvWalk modifierType bounded)
      initial strict _
  | modifierRequest modifierType ids =>
    exact truncated_refused exact_parseInvWalk (consumes_parseInvWalk modifierType bounded)
      initial strict _
  | modifierResponse modifierType modifiers =>
    exact truncated_refused exact_parseModifierResponseWalk
      (consumes_parseModifierResponseWalk modifierType bounded.1 bounded.2) initial strict _
  | getPeers | peers _ | syncInfo _ | unknown _ _ => exact listing.elim

/-- A response with one modifier of three bytes. -/
def smallResponse : ProtocolMessage :=
  modifierResponse 2 [(Vector.replicate 32 7, [1, 2, 3])]

theorem roundtrip_untruncated_response :
    (smallResponse.Regular ∧ smallResponse.Bounded ∧ smallResponse.Listing) ∧
      fromFrame smallResponse.toFrame = .ok smallResponse ∧
      ∃ problem, fromFrame { code := 33, body := smallResponse.toFrame.body.dropLast } =
        .error problem := by
  have bounded : smallResponse.Bounded := by
    refine ⟨by decide, ?_⟩
    decide
  obtain ⟨back, refused⟩ := roundtrip_untruncated (show smallResponse.Regular from trivial) bounded
  refine ⟨⟨trivial, bounded, trivial⟩, back, ?_⟩
  refine refused trivial _ (List.dropLast_prefix _) ?_
  intro same
  have shorter := congrArg List.length same
  rw [List.length_dropLast] at shorter
  have filled : smallResponse.toFrame.body.length ≠ 0 := by
    simp [smallResponse, toFrame, encodeModifierResponseBody_parts]
  omega

end ErgoProxy.ProtocolMessage
