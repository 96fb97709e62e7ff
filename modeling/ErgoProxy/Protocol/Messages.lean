import ErgoProxy.Transport.Frame
import ErgoProxy.Transport.Vlq

/-!
# Typed protocol messages

Six message codes have a typed form; every other code is kept as an unknown
message with its body. Inventories and modifier requests share one body: a type
byte, a count and that many identifiers. Modifier responses carry for each
identifier a length and that many bytes. Bytes beyond the announced items are
ignored by the parsers.
-/

namespace ErgoProxy

/-- A typed protocol message. -/
inductive ProtocolMessage where
  | getPeers
  | peers (body : Bytes)
  | inv (modifierType : UInt8) (ids : List ModifierId)
  | modifierRequest (modifierType : UInt8) (ids : List ModifierId)
  | modifierResponse (modifierType : UInt8) (modifiers : List (ModifierId × Bytes))
  | syncInfo (body : Bytes)
  | unknown (code : UInt8) (body : Bytes)
  deriving DecidableEq

namespace MessageCode

def getPeers : UInt8 := 1
def peers : UInt8 := 2
def modifierRequest : UInt8 := 22
def modifierResponse : UInt8 := 33
def inv : UInt8 := 55
def syncInfo : UInt8 := 65

end MessageCode

namespace ProtocolMessage

open ExactReaders Cursor Vlq

/-- Walk an inventory body: type, count, identifiers. -/
def parseInvWalk : ByteReader (UInt8 × List ModifierId) := do
  let typeByte ← readByte
  let count ← readVlqLength
  let ids ← times (readArray 32) count
  pure (typeByte, ids)

/-- Parse an inventory or request body. -/
def parseInvBody (data : Bytes) : Except IoError (UInt8 × List ModifierId) :=
  onSlice parseInvWalk data

/-- Encode an inventory or request body. -/
def encodeInvBody (modifierType : UInt8) (ids : List ModifierId) : Bytes :=
  writeVlq [modifierType] (UInt64.ofNat ids.length) ++ ids.flatMap Vector.toList

/-- Read one modifier: its identifier, its length and its bytes. -/
def readModifier : ByteReader (ModifierId × Bytes) := do
  let id ← readArray 32
  let dataLen ← readVlqLength
  let modData ← readExact dataLen
  pure (id, modData)

/-- Walk a response body: type, count, modifiers. -/
def parseModifierResponseWalk : ByteReader (UInt8 × List (ModifierId × Bytes)) := do
  let typeByte ← readByte
  let count ← readVlqLength
  let modifiers ← times readModifier count
  pure (typeByte, modifiers)

/-- Parse a response body. -/
def parseModifierResponseBody (data : Bytes) :
    Except IoError (UInt8 × List (ModifierId × Bytes)) :=
  onSlice parseModifierResponseWalk data

/-- Encode one modifier. -/
def encodeModifier (modifier : ModifierId × Bytes) : Bytes :=
  writeVlq modifier.1.toList (UInt64.ofNat modifier.2.length) ++ modifier.2

/-- Encode a response body. -/
def encodeModifierResponseBody (modifierType : UInt8)
    (modifiers : List (ModifierId × Bytes)) : Bytes :=
  writeVlq [modifierType] (UInt64.ofNat modifiers.length) ++ modifiers.flatMap encodeModifier

/-- Parse a frame into a typed message. -/
def fromFrame (frame : Frame) : Except IoError ProtocolMessage :=
  if frame.code = MessageCode.getPeers then .ok getPeers
  else if frame.code = MessageCode.peers then .ok (peers frame.body)
  else if frame.code = MessageCode.inv then do
    let (modifierType, ids) ← parseInvBody frame.body
    .ok (inv modifierType ids)
  else if frame.code = MessageCode.modifierRequest then do
    let (modifierType, ids) ← parseInvBody frame.body
    .ok (modifierRequest modifierType ids)
  else if frame.code = MessageCode.modifierResponse then do
    let (modifierType, modifiers) ← parseModifierResponseBody frame.body
    .ok (modifierResponse modifierType modifiers)
  else if frame.code = MessageCode.syncInfo then .ok (syncInfo frame.body)
  else .ok (unknown frame.code frame.body)

/-- Serialize a typed message into a frame. -/
def toFrame : ProtocolMessage → Frame
  | getPeers => { code := MessageCode.getPeers, body := [] }
  | peers body => { code := MessageCode.peers, body }
  | inv modifierType ids => { code := MessageCode.inv, body := encodeInvBody modifierType ids }
  | modifierRequest modifierType ids =>
    { code := MessageCode.modifierRequest, body := encodeInvBody modifierType ids }
  | modifierResponse modifierType modifiers =>
    { code := MessageCode.modifierResponse,
      body := encodeModifierResponseBody modifierType modifiers }
  | syncInfo body => { code := MessageCode.syncInfo, body }
  | unknown code body => { code, body }

end ProtocolMessage

end ErgoProxy
