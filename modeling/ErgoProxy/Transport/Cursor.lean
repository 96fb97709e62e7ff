import ErgoProxy.Types
import ErgoProxy.Foundation.ExactReaders

/-!
# Cursors over byte slices

A cursor is represented by the bytes it has not read yet; its position is the
distance from the start of the slice. Filling a buffer either returns as many
bytes as the buffer holds or fails at the end of input. All three buffer shapes
that the codecs use are exact readers.
-/

namespace ErgoProxy.Cursor

open ExactReaders

/-- Readers over the unread bytes of a cursor. -/
abbrev ByteReader (α : Type) : Type := Reader IoError UInt8 α

/-- Fill a buffer whose size is known only at run time. -/
def readExact (count : Nat) : ByteReader Bytes := takeExactly IoError.shortRead count

/-- Fill a one-byte buffer and return its byte. -/
def readByte : ByteReader UInt8
  | [] => .error IoError.shortRead []
  | byte :: rest => .ok byte rest

/-- Fill a fixed-size array. -/
def readArray (count : Nat) : ByteReader (Vector UInt8 count) := fun data =>
  if short : data.length < count then .error IoError.shortRead []
  else .ok ⟨(data.take count).toArray, by simp; omega⟩ (data.drop count)

/-- Run a reader on a fresh cursor and keep its outcome only. -/
def onSlice {α : Type} (reader : ByteReader α) (data : Bytes) : Except IoError α :=
  match reader data with
  | .ok value _ => .ok value
  | .error problem _ => .error problem

/-- Run a reader on a fresh cursor and keep the cursor's final position. -/
def positionAfter {α : Type} (reader : ByteReader α) (data : Bytes) : Except IoError Nat :=
  match reader data with
  | .ok _ rest => .ok (data.length - rest.length)
  | .error problem _ => .error problem

/-- A slice read succeeds exactly when the cursor read does. -/
theorem onSlice_ok {α : Type} (reader : ByteReader α) (data : Bytes) (value : α) :
    onSlice reader data = .ok value ↔ ∃ rest, reader data = .ok value rest := by
  unfold onSlice
  cases reader data <;> simp

/-- The final position is the length of what was read. -/
theorem positionAfter_ok {α : Type} (reader : ByteReader α) (data : Bytes) (position : Nat) :
    positionAfter reader data = .ok position ↔
      ∃ value rest, reader data = .ok value rest ∧ position = data.length - rest.length := by
  unfold positionAfter
  cases reader data with
  | ok value rest => simp [eq_comm]
  | error problem rest => simp

/-- Filling a run-time buffer is exact. -/
theorem exact_readExact (count : Nat) : Exact (readExact count) :=
  exact_takeExactly IoError.shortRead count

/-- A segment of the buffer's size is read as it stands. -/
theorem consumes_readExact (bytes : Bytes) : Consumes (readExact bytes.length) bytes bytes :=
  consumes_takeExactly IoError.shortRead bytes

/-- A buffer is filled exactly from the bytes of its size at the front. -/
theorem readExact_ok (count : Nat) (data bytes rest : Bytes) :
    readExact count data = .ok bytes rest ↔ data = bytes ++ rest ∧ bytes.length = count :=
  takeExactly_ok IoError.shortRead count data bytes rest

/-- A filled buffer has the requested size. -/
theorem readExact_length {count : Nat} {data bytes rest : Bytes}
    (done : readExact count data = .ok bytes rest) : bytes.length = count :=
  ((readExact_ok count data bytes rest).mp done).2

/-- One byte is read as it stands. -/
theorem consumes_readByte (byte : UInt8) : Consumes readByte [byte] byte := by
  intro tail
  rfl

/-- A byte that was read stood at the front. -/
theorem readByte_front (data : Bytes) (byte : UInt8) (rest : Bytes)
    (done : readByte data = .ok byte rest) : data = byte :: rest := by
  cases data with
  | nil => cases done
  | cons first data =>
    cases done
    rfl

/-- Reading one byte is exact. -/
theorem exact_readByte : Exact readByte := by
  intro data byte rest done
  exact ⟨[byte], readByte_front data byte rest done, consumes_readByte byte⟩

/-- An array is read from its own bytes. -/
theorem consumes_readArray {count : Nat} (array : Vector UInt8 count) :
    Consumes (readArray count) array.toList array := by
  intro tail
  have length : array.toList.length = count := Vector.length_toList
  have enough : ¬ (array.toList ++ tail).length < count := by
    rw [List.length_append, length]
    omega
  have taken : (array.toList ++ tail).take count = array.toList :=
    List.take_left' length
  have dropped : (array.toList ++ tail).drop count = tail :=
    List.drop_left' length
  simp only [readArray, dif_neg enough, dropped, EStateM.Result.ok.injEq, and_true]
  apply Vector.toList_inj.mp
  simp only [taken, Vector.toList_mk]

/-- An array that was read stood at the front. -/
theorem readArray_front {count : Nat} (data : Bytes) (array : Vector UInt8 count) (rest : Bytes)
    (done : readArray count data = .ok array rest) : data = array.toList ++ rest := by
  unfold readArray at done
  split at done
  case isTrue => cases done
  case isFalse =>
    cases done
    exact (List.take_append_drop count data).symm

/-- Filling an array is exact. -/
theorem exact_readArray (count : Nat) : Exact (readArray count) := by
  intro data array rest done
  exact ⟨array.toList, readArray_front data array rest done, consumes_readArray array⟩

/-- A byte is paid for. -/
theorem pays_readByte : Pays readByte (fun byte => [byte]) := pays_of_front readByte_front

/-- A run-time buffer is paid for. -/
theorem pays_readExact (count : Nat) : Pays (readExact count) (fun bytes => bytes) :=
  pays_of_front fun data bytes rest done => ((readExact_ok count data bytes rest).mp done).1

/-- An array is paid for. -/
theorem pays_readArray (count : Nat) : Pays (readArray count) Vector.toList :=
  pays_of_front readArray_front

end ErgoProxy.Cursor
