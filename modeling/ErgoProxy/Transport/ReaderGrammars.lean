import ErgoProxy.Foundation.Grammars
import ErgoProxy.Transport.Vlq

/-!
# What the cursor's readers recognise

The languages of the readers from which the codecs are built. Bytes, arrays and strings have one
spelling each; quantities and lengths have several.
-/

namespace ErgoProxy.Cursor

open ExactReaders

/-- One byte is read as it stands. -/
theorem recognises_readByte : Recognises readByte fun byte used => used = [byte] := by
  intro data byte rest
  constructor
  · intro done
    exact ⟨[byte], readByte_front data byte rest done, rfl⟩
  · rintro ⟨_, rfl, rfl⟩
    rfl

/-- An array is read as it stands. -/
theorem recognises_readArray (count : Nat) :
    Recognises (readArray count) fun array used => used = array.toList := by
  intro data array rest
  constructor
  · intro done
    exact ⟨array.toList, readArray_front data array rest done, rfl⟩
  · rintro ⟨_, rfl, rfl⟩
    exact consumes_readArray array rest

/-- A buffer is filled with as many bytes as it holds. -/
theorem recognises_readExact (count : Nat) :
    Recognises (readExact count) fun bytes used => used = bytes ∧ bytes.length = count := by
  intro data bytes rest
  rw [readExact_ok]
  constructor
  · rintro ⟨rfl, counted⟩
    exact ⟨bytes, rfl, rfl, counted⟩
  · rintro ⟨_, rfl, rfl, counted⟩
    exact ⟨rfl, counted⟩

/-- A slice is accepted exactly if it begins with a segment of the language. -/
theorem recognises_onSlice {α : Type} {reader : ByteReader α} {language : α → Bytes → Prop}
    (recognises : Recognises reader language) (data : Bytes) (value : α) :
    onSlice reader data = .ok value ↔ ∃ used tail, data = used ++ tail ∧ language value used := by
  rw [onSlice_ok]
  constructor
  · rintro ⟨tail, done⟩
    obtain ⟨used, same, spelled⟩ := (recognises data value tail).mp done
    exact ⟨used, tail, same, spelled⟩
  · rintro ⟨used, tail, same, spelled⟩
    exact ⟨tail, (recognises data value tail).mpr ⟨used, same, spelled⟩⟩

end ErgoProxy.Cursor

namespace ErgoProxy.Vlq

open Cursor ExactReaders

/-- The bytes stand for a quantity: a complete sequence of at most ten groups, whose value is
taken modulo 2^64. -/
structure QuantityBytes (value : UInt64) (bytes : Bytes) : Prop where
  complete : Terminated bytes
  short : bytes.length ≤ 10
  value : value.toNat = groupsValue bytes % 2 ^ 64

/-- The bytes stand for a count: a complete sequence of at most ten groups, whose value is
taken modulo 2^64 and is at most 256 KiB. -/
structure CountBytes (count : Nat) (bytes : Bytes) : Prop where
  complete : Terminated bytes
  short : bytes.length ≤ 10
  value : count = groupsValue bytes % 2 ^ 64
  capped : count ≤ 262144

/-- Quantities are recognised by their groups. -/
theorem recognises_readVlq : Recognises readVlq QuantityBytes := by
  intro data value rest
  rw [read_exact]
  constructor
  · rintro ⟨used, rfl, complete, short, total⟩
    exact ⟨used, rfl, complete, short, total⟩
  · rintro ⟨used, rfl, complete, short, total⟩
    exact ⟨used, rfl, complete, short, total⟩

/-- Lengths are recognised by their groups. -/
theorem recognises_readVlqLength : Recognises readVlqLength CountBytes := by
  intro data count rest
  simp only [readVlqLength_ok, read_exact]
  constructor
  · rintro ⟨value, ⟨used, rfl, complete, short, total⟩, capped, rfl⟩
    exact ⟨used, rfl, complete, short, total, capped⟩
  · rintro ⟨used, rfl, complete, short, total, capped⟩
    have small : count < 2 ^ 64 := by omega
    have same : (UInt64.ofNat count).toNat = count := by
      rw [UInt64.toNat_ofNat']
      exact Nat.mod_eq_of_lt small
    exact ⟨UInt64.ofNat count, ⟨used, rfl, complete, short, same.trans total⟩, same.le.trans capped,
      same.symm⟩

/-- Bytes decode to a string exactly if they are its UTF-8 bytes. -/
theorem fromUtf8_some (bytes : Bytes) (text : String) :
    String.fromUTF8? ⟨bytes.toArray⟩ = some text ↔ bytes = asBytes text := by
  constructor
  · intro decoded
    unfold String.fromUTF8? at decoded
    split at decoded
    · cases decoded
      change bytes = bytes.toArray.toList
      rw [List.toList_toArray]
    · cases decoded
  · rintro rfl
    exact fromUtf8_asBytes text

/-- Nothing is read for the decoding of bytes. -/
theorem recognises_decoded (bytes : Bytes) :
    Recognises (match String.fromUTF8? ⟨bytes.toArray⟩ with
      | some text => pure text
      | none => throw (.fromUtf8 bytes) : ByteReader String)
      fun text used => bytes = asBytes text ∧ used = [] := by
  simp only [← fromUtf8_some]
  cases decoded : String.fromUTF8? ⟨bytes.toArray⟩ with
  | none =>
    intro data text rest
    exact ⟨nofun, by rintro ⟨_, _, ⟨⟩, _⟩⟩
  | some text =>
    refine recognises_congr (recognises_pure text) fun value used => ?_
    simp [eq_comm]

/-- A string is recognised by its short form. -/
theorem recognises_readShortString : Recognises readShortString fun text used =>
    (asBytes text).length ≤ 255 ∧ used = writeShortString [] text := by
  refine recognises_congr (recognises_bind recognises_readByte fun len =>
    recognises_bind (recognises_readExact len.toNat) recognises_decoded) ?_
  intro text used
  constructor
  · rintro ⟨len, _, _, rfl, ⟨_, _, _, ⟨rfl, counted⟩, ⟨rfl, rfl⟩, rfl⟩, rfl⟩
    have small := len.toNat_lt
    refine ⟨by omega, ?_⟩
    rw [writeShortString, counted, UInt8.ofNat_toNat, List.append_nil]
    rfl
  · rintro ⟨short, rfl⟩
    refine ⟨UInt8.ofNat (asBytes text).length, [UInt8.ofNat (asBytes text).length], asBytes text,
      rfl, ⟨asBytes text, asBytes text, [], ⟨rfl, ?_⟩, ⟨rfl, rfl⟩, (List.append_nil _).symm⟩, rfl⟩
    exact (UInt8.toNat_ofNat_of_lt' (Nat.lt_succ_of_le short)).symm

end ErgoProxy.Vlq
