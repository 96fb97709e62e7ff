import ErgoProxy.Protocol.MessageCodec
import ErgoProxy.Transport.ReaderGrammars

/-!
# Which frames are messages

The frames that `from_frame` accepts, and the message that each of them stands for, as a
grammar: a relation between frames and messages that is stated without the parser. Counts and
lengths may be written in more than one way, bytes behind the announced items are ignored, and
so is the whole body of a request for peers. Everything else is refused.
-/

namespace ErgoProxy.ProtocolMessage

open ExactReaders Cursor Vlq

/-- The items of an inventory or of a request: a type, their number, and 32 bytes for each. -/
def InvBody (value : UInt8 × List ModifierId) (used : Bytes) : Prop :=
  ∃ count, CountBytes value.2.length count ∧
    used = value.1 :: (count ++ value.2.flatMap Vector.toList)

/-- A modifier: 32 bytes, the length of its data, and the data. -/
def ModifierBytes (modifier : ModifierId × Bytes) (used : Bytes) : Prop :=
  ∃ count, CountBytes modifier.2.length count ∧ used = modifier.1.toList ++ (count ++ modifier.2)

/-- The items of a response: a type, their number, and one modifier after the other. -/
def ResponseBody (value : UInt8 × List (ModifierId × Bytes)) (used : Bytes) : Prop :=
  ∃ count items, CountBytes value.2.length count ∧ Repeated ModifierBytes value.2 items ∧
    used = value.1 :: (count ++ items)

/-- The frame stands for the message. -/
inductive Spells : Frame → ProtocolMessage → Prop where
  | getPeers (body : Bytes) : Spells ⟨MessageCode.getPeers, body⟩ .getPeers
  | peers (body : Bytes) : Spells ⟨MessageCode.peers, body⟩ (.peers body)
  | inv (modifierType : UInt8) (ids : List ModifierId) (used tail : Bytes)
      (items : InvBody (modifierType, ids) used) :
      Spells ⟨MessageCode.inv, used ++ tail⟩ (.inv modifierType ids)
  | modifierRequest (modifierType : UInt8) (ids : List ModifierId) (used tail : Bytes)
      (items : InvBody (modifierType, ids) used) :
      Spells ⟨MessageCode.modifierRequest, used ++ tail⟩ (.modifierRequest modifierType ids)
  | modifierResponse (modifierType : UInt8) (modifiers : List (ModifierId × Bytes))
      (used tail : Bytes) (items : ResponseBody (modifierType, modifiers) used) :
      Spells ⟨MessageCode.modifierResponse, used ++ tail⟩ (.modifierResponse modifierType modifiers)
  | syncInfo (body : Bytes) : Spells ⟨MessageCode.syncInfo, body⟩ (.syncInfo body)
  | unknown (code : UInt8) (body : Bytes) (other : code ∉ typedCodes) :
      Spells ⟨code, body⟩ (.unknown code body)

/-- A walk over a list recognises a type, a count and one segment for each item. -/
theorem recognises_listWalk {α : Type} {item : ByteReader α} {language : α → Bytes → Prop}
    (recognises : Recognises item language) :
    Recognises (listWalk item) fun listed used => ∃ count items,
      CountBytes listed.2.length count ∧ Repeated language listed.2 items ∧
        used = listed.1 :: (count ++ items) := by
  refine recognises_congr (recognises_bind recognises_readByte fun typeByte =>
    recognises_bind recognises_readVlqLength fun count =>
      recognises_bind (recognises_times recognises count) fun values =>
        recognises_pure (typeByte, values)) ?_
  rintro ⟨typeByte, values⟩ used
  constructor
  · rintro ⟨_, _, _, rfl, ⟨_, count, _, counts, ⟨_, items, _, ⟨rfl, repeated⟩, ⟨⟨⟩, rfl⟩, rfl⟩, rfl⟩,
      rfl⟩
    refine ⟨count, items, counts, repeated, ?_⟩
    rw [List.append_nil]
    rfl
  · rintro ⟨count, items, counts, repeated, rfl⟩
    exact ⟨typeByte, [typeByte], _, rfl, ⟨values.length, count, _, counts,
      ⟨values, items, [], ⟨rfl, repeated⟩, ⟨rfl, rfl⟩, (List.append_nil _).symm⟩, rfl⟩, rfl⟩

/-- The walk over an inventory recognises its items. -/
theorem recognises_parseInvWalk : Recognises parseInvWalk InvBody := by
  refine recognises_congr (recognises_listWalk (recognises_readArray 32)) ?_
  rintro ⟨modifierType, ids⟩ used
  simp only [repeated_segments]
  constructor
  · rintro ⟨count, _, counts, rfl, rfl⟩
    exact ⟨count, counts, rfl⟩
  · rintro ⟨count, counts, rfl⟩
    exact ⟨count, _, counts, rfl, rfl⟩

/-- The walk over one modifier recognises it. -/
theorem recognises_readModifier : Recognises readModifier ModifierBytes := by
  refine recognises_congr (recognises_bind (recognises_readArray 32) fun id =>
    recognises_bind recognises_readVlqLength fun dataLen =>
      recognises_bind (recognises_readExact dataLen) fun modData =>
        recognises_pure (id, modData)) ?_
  rintro ⟨id, data⟩ used
  constructor
  · rintro ⟨_, _, _, rfl, ⟨_, count, _, counts, ⟨_, _, _, ⟨rfl, rfl⟩, ⟨⟨⟩, rfl⟩, rfl⟩, rfl⟩, rfl⟩
    refine ⟨count, counts, ?_⟩
    rw [List.append_nil]
  · rintro ⟨count, counts, rfl⟩
    exact ⟨id, id.toList, _, rfl, ⟨data.length, count, _, counts,
      ⟨data, data, [], ⟨rfl, rfl⟩, ⟨rfl, rfl⟩, (List.append_nil _).symm⟩, rfl⟩, rfl⟩

/-- The walk over a response recognises its items. -/
theorem recognises_parseModifierResponseWalk : Recognises parseModifierResponseWalk ResponseBody :=
  recognises_listWalk recognises_readModifier

/-- What is accepted is spelled. -/
theorem fromFrame_spelled {frame : Frame} {message : ProtocolMessage}
    (accepted : fromFrame frame = .ok message) : Spells frame message := by
  obtain ⟨code, body⟩ := frame
  unfold fromFrame at accepted
  dsimp only at accepted
  split at accepted
  case isTrue same => subst same; cases accepted; exact .getPeers body
  split at accepted
  case isTrue same => subst same; cases accepted; exact .peers body
  split at accepted
  case isTrue same =>
    subst same
    obtain ⟨⟨modifierType, ids⟩, parsed, done⟩ := parsed_body accepted
    cases done
    obtain ⟨used, tail, rfl, items⟩ := (recognises_onSlice recognises_parseInvWalk _ _).mp parsed
    exact .inv modifierType ids used tail items
  split at accepted
  case isTrue same =>
    subst same
    obtain ⟨⟨modifierType, ids⟩, parsed, done⟩ := parsed_body accepted
    cases done
    obtain ⟨used, tail, rfl, items⟩ := (recognises_onSlice recognises_parseInvWalk _ _).mp parsed
    exact .modifierRequest modifierType ids used tail items
  split at accepted
  case isTrue same =>
    subst same
    obtain ⟨⟨modifierType, modifiers⟩, parsed, done⟩ := parsed_body accepted
    cases done
    obtain ⟨used, tail, rfl, items⟩ :=
      (recognises_onSlice recognises_parseModifierResponseWalk _ _).mp parsed
    exact .modifierResponse modifierType modifiers used tail items
  split at accepted
  case isTrue same => subst same; cases accepted; exact .syncInfo body
  case isFalse =>
    cases accepted
    exact .unknown code body (by simp_all [typedCodes])

/-- What is spelled is accepted. -/
theorem spelled_fromFrame {frame : Frame} {message : ProtocolMessage}
    (spelled : Spells frame message) : fromFrame frame = .ok message := by
  cases spelled with
  | getPeers | peers | syncInfo => rfl
  | inv modifierType ids used tail items =>
    have parsed := (recognises_onSlice recognises_parseInvWalk _ _).mpr ⟨used, tail, rfl, items⟩
    change (parseInvBody (used ++ tail) >>= fun parsed => .ok (inv parsed.1 parsed.2)) = _
    rw [parseInvBody, parsed]
    rfl
  | modifierRequest modifierType ids used tail items =>
    have parsed := (recognises_onSlice recognises_parseInvWalk _ _).mpr ⟨used, tail, rfl, items⟩
    change (parseInvBody (used ++ tail) >>= fun parsed =>
      .ok (modifierRequest parsed.1 parsed.2)) = _
    rw [parseInvBody, parsed]
    rfl
  | modifierResponse modifierType modifiers used tail items =>
    have parsed := (recognises_onSlice recognises_parseModifierResponseWalk _ _).mpr
      ⟨used, tail, rfl, items⟩
    change (parseModifierResponseBody (used ++ tail) >>= fun parsed =>
      .ok (modifierResponse parsed.1 parsed.2)) = _
    rw [parseModifierResponseBody, parsed]
    rfl
  | unknown code body other =>
    simp only [typedCodes, List.mem_cons, List.not_mem_nil, or_false, not_or] at other
    obtain ⟨notGetPeers, notPeers, notInv, notRequest, notResponse, notSync⟩ := other
    simp only [fromFrame, notGetPeers, notPeers, notInv, notRequest, notResponse, notSync, if_false]

/-- A message that some frame stands for is regular and within the limits. -/
theorem spelled_regular {frame : Frame} {message : ProtocolMessage}
    (spelled : Spells frame message) : message.Regular ∧ message.Bounded := by
  cases spelled with
  | getPeers | peers | syncInfo => exact ⟨trivial, trivial⟩
  | inv modifierType ids used tail items | modifierRequest modifierType ids used tail items =>
    obtain ⟨count, counts, _⟩ := items
    exact ⟨trivial, counts.capped⟩
  | modifierResponse modifierType modifiers used tail items =>
    obtain ⟨count, _, counts, repeated, _⟩ := items
    refine ⟨trivial, counts.capped, fun modifier member => ?_⟩
    obtain ⟨_, _, lengths, _⟩ := repeated_member repeated member
    exact lengths.capped
  | unknown code body other => exact ⟨other, trivial⟩

/-- A frame is accepted as a message exactly if it stands for this message in the grammar. If any
frame stands for a message, the one that is sent does, and none of the others has a shorter body.
The frame that is sent stands for its message exactly if no typed message is disguised as an unknown
one and the counts and lengths are within the limits. -/
theorem frames_spelled (frame : Frame) (message : ProtocolMessage) :
    (fromFrame frame = .ok message ↔ Spells frame message) ∧
      (Spells frame message → Spells message.toFrame message ∧
        message.toFrame.body.length ≤ frame.body.length) ∧
      (Spells message.toFrame message ↔ message.Regular ∧ message.Bounded) := by
  have own : Spells message.toFrame message ↔ message.Regular ∧ message.Bounded :=
    ⟨spelled_regular, fun legible => fromFrame_spelled (fromFrame_bounded legible.1 legible.2)⟩
  refine ⟨⟨fromFrame_spelled, spelled_fromFrame⟩, fun spelled => ?_, own⟩
  exact ⟨own.mpr (spelled_regular spelled), (fromFrame_shrinks (spelled_fromFrame spelled)).2⟩

/-- A count may be written with a superfluous group, and bytes may follow the items; what is sent
has neither. -/
theorem frames_spelled_padded :
    fromFrame ⟨MessageCode.inv, [2, 0x80, 0x00, 7]⟩ = .ok (.inv 2 []) ∧
      Spells (ProtocolMessage.inv 2 []).toFrame (.inv 2 []) ∧
      (ProtocolMessage.inv 2 []).toFrame.body.length ≤ 4 := by
  have spelled : Spells ⟨MessageCode.inv, [2, 0x80, 0x00] ++ [7]⟩ (.inv 2 []) :=
    .inv 2 [] [2, 0x80, 0x00] [7]
      ⟨[0x80, 0x00], ⟨by simp [Terminated], by decide, by decide, by decide⟩, rfl⟩
  exact ⟨(frames_spelled _ _).1.mpr spelled, (frames_spelled _ _).2.1 spelled⟩

end ErgoProxy.ProtocolMessage
