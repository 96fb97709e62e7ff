import ErgoProxy.Transport.Cursor

/-!
# Variable-length quantities

A 64-bit value is written in groups of seven bits, least significant group first;
every byte but the last carries the continuation bit. Reading accumulates the
groups by shift and OR in 64-bit arithmetic and gives up once the shift would pass
63. Lengths are additionally capped at 256 KiB, short strings carry one length
byte, and signed values are folded into unsigned ones by ZigZag.

The reader's entire behaviour is one equation over natural numbers: which byte
segments it accepts, and the value it returns for them. The group in which the
shift is 63 keeps a single bit, so the value is the positional sum modulo 2^64.
-/

namespace ErgoProxy.Vlq

open ExactReaders Cursor

/-- Append the groups of a value, setting the continuation bit on all but the last. -/
def writeVlq (buf : Bytes) (value : UInt64) : Bytes :=
  let byte := (value &&& 0x7f).toUInt8
  let shifted := value >>> 7
  if shifted = 0 then buf ++ [byte] else writeVlq (buf ++ [byte ||| 0x80]) shifted
termination_by value.toNat
decreasing_by
  have positive : shifted.toNat ≠ 0 := by
    intro zero
    exact ‹¬ shifted = 0› (UInt64.toNat_inj.mp (by simpa using zero))
  simp only [shifted, UInt64.toNat_shiftRight, UInt64.reduceToNat, Nat.reduceMod,
    Nat.shiftRight_eq_div_pow] at positive ⊢
  omega

/-- The read loop with its accumulator and shift. -/
def readVlqLoop (result : UInt64) (shift : Nat) : ByteReader UInt64
  | [] => .error IoError.shortRead []
  | byte :: rest =>
    let result := result ||| ((byte &&& 0x7f).toUInt64 <<< UInt64.ofNat shift)
    if byte &&& 0x80 = 0 then .ok result rest
    else if 63 < shift + 7 then .error (.custom .invalidData "VLQ overflow") rest
    else readVlqLoop result (shift + 7) rest

/-- Decode a quantity from the front of the cursor. -/
def readVlq : ByteReader UInt64 := readVlqLoop 0 0

/-- The protocol bound on lengths: 256 KiB. -/
def maxVlqLength : UInt64 := 256 * 1024

/-- Decode a quantity that stands for a length. -/
def readVlqLength : ByteReader Nat := do
  let val ← readVlq
  if maxVlqLength < val then
    throw (.custom .invalidData s!"VLQ length too large: {val} (max {maxVlqLength})")
  pure val.toNat

/-- Fold a signed 32-bit value into an unsigned one. -/
def zigzagEncode (value : Int32) : UInt32 := ((value <<< 1) ^^^ (value >>> 31)).toUInt32

/-- Unfold an unsigned 32-bit value into a signed one. -/
def zigzagDecode (value : UInt32) : Int32 := (value >>> 1).toInt32 ^^^ (-(value &&& 1).toInt32)

/-- Fold a signed 64-bit value into an unsigned one. -/
def zigzagEncodeI64 (value : Int64) : UInt64 := ((value <<< 1) ^^^ (value >>> 63)).toUInt64

/-- Unfold an unsigned 64-bit value into a signed one. -/
def zigzagDecodeI64 (value : UInt64) : Int64 := (value >>> 1).toInt64 ^^^ (-(value &&& 1).toInt64)

/-- The UTF-8 bytes of a string. -/
def asBytes (text : String) : Bytes := text.toUTF8.data.toList

/-- Append the byte length, narrowed to one byte, and the UTF-8 bytes. -/
def writeShortString (buf : Bytes) (text : String) : Bytes :=
  buf ++ [UInt8.ofNat (asBytes text).length] ++ asBytes text

/-- Read one length byte and that many bytes, which must be UTF-8. -/
def readShortString : ByteReader String := do
  let len ← readByte
  let bytes ← readExact len.toNat
  match String.fromUTF8? ⟨bytes.toArray⟩ with
  | some text => pure text
  | none => throw (.fromUtf8 bytes)

/-- The positional value of a byte sequence, seven bits a byte, unbounded. -/
def groupsValue : Bytes → Nat
  | [] => 0
  | byte :: rest => byte.toNat % 128 + 128 * groupsValue rest

/-- A complete group sequence: the continuation bit is set on all but the last
byte, and there is a last byte. -/
def Terminated : Bytes → Prop
  | [] => False
  | byte :: rest => if byte.toNat < 128 then rest = [] else Terminated rest

/-- The value of a sequence fits in seven bits a byte. -/
theorem groups_value_bound (bytes : Bytes) : groupsValue bytes < 2 ^ (7 * bytes.length) := by
  induction bytes with
  | nil => decide
  | cons byte rest inductionHypothesis =>
    have widened : 2 ^ (7 * (rest.length + 1)) = 128 * 2 ^ (7 * rest.length) := by
      rw [Nat.mul_add, Nat.pow_add]
      omega
    simp only [groupsValue, List.length_cons, widened]
    omega

/-- The continuation test reads the eighth bit. -/
theorem continuation_clear (byte : UInt8) : byte &&& 0x80 = 0 ↔ byte.toNat < 128 := by
  have exhaustive : ∀ bits : Fin 256, UInt8.ofFin bits &&& 0x80 = 0 ↔ bits.val < 128 := by
    decide +kernel
  exact exhaustive byte.toFin

/-- Masking with seven ones reduces modulo 128. -/
theorem payload_value (byte : UInt8) : (byte &&& 0x7f).toNat = byte.toNat % 128 := by
  rw [UInt8.toNat_and]
  exact Nat.and_two_pow_sub_one_eq_mod byte.toNat 7

/-- One accumulation adds the group at its position, modulo 2^64. The bits
already gathered lie below the shift, so OR is addition; bits that the shift moves
past the width are lost, which is what the modulus removes. -/
theorem accumulate_value (result : UInt64) (shift : Nat) (byte : UInt8)
    (gathered : result.toNat < 2 ^ shift) (inRange : shift ≤ 63) :
    (result ||| ((byte &&& 0x7f).toUInt64 <<< UInt64.ofNat shift)).toNat =
      (result.toNat + 2 ^ shift * (byte.toNat % 128)) % 2 ^ 64 := by
  have whole : 2 ^ 64 = 2 ^ shift * 2 ^ (64 - shift) := by
    rw [← Nat.pow_add]
    congr 1
    omega
  have shiftValue : (UInt64.ofNat shift).toNat % 64 = shift := by
    rw [UInt64.toNat_ofNat']
    omega
  have placed : ((byte &&& 0x7f).toUInt64 <<< UInt64.ofNat shift).toNat =
      2 ^ shift * ((byte.toNat % 128) % 2 ^ (64 - shift)) := by
    rw [UInt64.toNat_shiftLeft, shiftValue, UInt8.toNat_toUInt64, payload_value,
      Nat.shiftLeft_eq, Nat.mul_comm, whole, Nat.mul_mod_mul_left]
  calc (result ||| ((byte &&& 0x7f).toUInt64 <<< UInt64.ofNat shift)).toNat
      = result.toNat ||| 2 ^ shift * ((byte.toNat % 128) % 2 ^ (64 - shift)) := by
        rw [UInt64.toNat_or, placed]
    _ = result.toNat + 2 ^ shift * ((byte.toNat % 128) % 2 ^ (64 - shift)) := by
        rw [Nat.or_comm, ← Nat.two_pow_add_eq_or_of_lt gathered, Nat.add_comm]
    _ = (result.toNat + 2 ^ shift * (byte.toNat % 128)) % 2 ^ 64 := by
        rw [whole, Nat.mod_mul, Nat.add_mul_mod_self_left, Nat.mod_eq_of_lt gathered,
          Nat.add_mul_div_left _ _ (Nat.two_pow_pos shift), Nat.div_eq_of_lt gathered,
          Nat.zero_add]

/-- A complete sequence has a byte. -/
theorem terminated_length {bytes : Bytes} (complete : Terminated bytes) : 1 ≤ bytes.length := by
  cases bytes with
  | nil => exact complete.elim
  | cons byte rest => simp

/-- A final byte is a complete sequence by itself, and no longer one starts with it. -/
theorem terminated_final {byte : UInt8} (final : byte.toNat < 128) (data rest : Bytes)
    (holds : Bytes → Prop) :
    (∃ used, byte :: data = used ++ rest ∧ Terminated used ∧ holds used) ↔
      data = rest ∧ holds [byte] := by
  constructor
  · rintro ⟨used, split, complete, held⟩
    cases used with
    | nil => exact complete.elim
    | cons first others =>
      obtain ⟨rfl, rfl⟩ := List.cons.inj split
      simp only [Terminated, if_pos final] at complete
      subst complete
      exact ⟨rfl, held⟩
  · rintro ⟨rfl, held⟩
    exact ⟨[byte], rfl, by simp [Terminated, final], held⟩

/-- A continued byte is completed by a complete sequence behind it. -/
theorem terminated_continued {byte : UInt8} (continued : ¬ byte.toNat < 128) (data rest : Bytes)
    (holds : Bytes → Prop) :
    (∃ used, byte :: data = used ++ rest ∧ Terminated used ∧ holds used) ↔
      ∃ used, data = used ++ rest ∧ Terminated used ∧ holds (byte :: used) := by
  constructor
  · rintro ⟨used, split, complete, held⟩
    cases used with
    | nil => exact complete.elim
    | cons first others =>
      obtain ⟨rfl, rfl⟩ := List.cons.inj split
      simp only [Terminated, if_neg continued] at complete
      exact ⟨others, rfl, complete, held⟩
  · rintro ⟨used, rfl, complete, held⟩
    exact ⟨byte :: used, rfl, by simpa [Terminated, continued] using complete, held⟩

/-- One more group keeps the gathered bits below the next position. -/
theorem accumulated_bound {result shift : Nat} (byte : UInt8) (gathered : result < 2 ^ shift) :
    result + 2 ^ shift * (byte.toNat % 128) < 2 ^ (shift + 7) := by
  have position : 2 ^ (shift + 7) = 2 ^ shift * 128 := Nat.pow_add 2 shift 7
  have payload : byte.toNat % 128 + 1 ≤ 128 := Nat.mod_lt _ (by decide)
  have scaled := Nat.mul_le_mul_left (2 ^ shift) payload
  rw [Nat.mul_add] at scaled
  omega

/-- The loop in full: it accepts exactly the complete group sequences whose last
group still starts at or below bit 63, consumes precisely that sequence, and
returns the accumulated positional sum modulo 2^64.

Induct over the input. A final byte closes the sequence. A continued byte keeps
the gathered bits below the next shift, because that shift is at most 63, and the
tail contributes at the next position. -/
theorem loop_exact (data : Bytes) (result : UInt64) (shift : Nat)
    (gathered : result.toNat < 2 ^ shift) (inRange : shift ≤ 63) (value : UInt64)
    (rest : Bytes) :
    readVlqLoop result shift data = .ok value rest ↔
      ∃ used, data = used ++ rest ∧ Terminated used ∧ shift + 7 * used.length ≤ 70 ∧
        value.toNat = (result.toNat + 2 ^ shift * groupsValue used) % 2 ^ 64 := by
  induction data generalizing result shift with
  | nil =>
    simp only [readVlqLoop, reduceCtorEq, false_iff]
    rintro ⟨used, split, complete, -⟩
    obtain ⟨rfl, -⟩ := List.append_eq_nil_iff.mp split.symm
    exact complete
  | cons byte data inductionHypothesis =>
    have added := accumulate_value result shift byte gathered inRange
    simp only [readVlqLoop]
    by_cases final : byte.toNat < 128
    · have positional : groupsValue [byte] = byte.toNat % 128 := by simp [groupsValue]
      have inWidth : shift + 7 * [byte].length ≤ 70 := by
        rw [List.length_singleton]
        omega
      rw [if_pos ((continuation_clear byte).mpr final), EStateM.Result.ok.injEq,
        terminated_final final, positional, ← added, UInt64.toNat_inj]
      exact ⟨fun ⟨same, ended⟩ => ⟨ended, inWidth, same.symm⟩,
        fun ⟨ended, _, same⟩ => ⟨same.symm, ended⟩⟩
    · rw [if_neg (fun clear => final ((continuation_clear byte).mp clear)),
        terminated_continued final]
      by_cases overflow : 63 < shift + 7
      · simp only [if_pos overflow, reduceCtorEq, false_iff]
        rintro ⟨used, _, complete, bounded, -⟩
        have another := terminated_length complete
        rw [List.length_cons] at bounded
        omega
      · have small := accumulated_bound byte gathered
        have fits : 2 ^ (shift + 7) ≤ 2 ^ 64 := Nat.pow_le_pow_right (by decide) (by omega)
        rw [Nat.mod_eq_of_lt (Nat.lt_of_lt_of_le small fits)] at added
        have positional (used : Bytes) :
            result.toNat + 2 ^ shift * groupsValue (byte :: used) =
              result.toNat + 2 ^ shift * (byte.toNat % 128) +
                2 ^ (shift + 7) * groupsValue used := by
          rw [groupsValue, Nat.pow_add, Nat.mul_add, Nat.mul_assoc, Nat.add_assoc]
        have counted (used : Bytes) :
            shift + 7 * (byte :: used).length ≤ 70 ↔ shift + 7 + 7 * used.length ≤ 70 := by
          rw [List.length_cons]
          omega
        rw [if_neg overflow, inductionHypothesis _ (shift + 7) (added ▸ small) (by omega)]
        simp only [added, positional, counted]

/-- Reading accepts exactly the complete group sequences of at most ten bytes and
returns their positional value modulo 2^64. -/
theorem read_exact (data : Bytes) (value : UInt64) (rest : Bytes) :
    readVlq data = .ok value rest ↔
      ∃ used, data = used ++ rest ∧ Terminated used ∧ used.length ≤ 10 ∧
        value.toNat = groupsValue used % 2 ^ 64 := by
  rw [readVlq, loop_exact data 0 0 (by decide) (by decide)]
  have width (used : Bytes) : 0 + 7 * used.length ≤ 70 ↔ used.length ≤ 10 := by omega
  have total (used : Bytes) :
      UInt64.toNat 0 + 2 ^ 0 * groupsValue used = groupsValue used := by simp
  simp only [width, total]

/-- Reading a quantity is exact. -/
theorem exact_readVlq : Exact readVlq := by
  intro data value rest done
  obtain ⟨used, split, complete, short, total⟩ := (read_exact data value rest).mp done
  refine ⟨used, split, ?_⟩
  intro tail
  exact (read_exact (used ++ tail) value tail).mpr ⟨used, rfl, complete, short, total⟩

/-- Reading a length is exact. -/
theorem exact_readVlqLength : Exact readVlqLength := by
  apply exact_bind exact_readVlq
  intro value
  split
  · exact exact_bind (exact_throw _) fun _ => exact_pure _
  · exact exact_pure _

/-- Reading a short string is exact. -/
theorem exact_readShortString : Exact readShortString := by
  apply exact_bind exact_readByte
  intro len
  apply exact_bind (exact_readExact len.toNat)
  intro bytes
  split
  · exact exact_pure _
  · exact exact_throw _

/-- Shifting by one group divides by 128. -/
theorem shifted_value (value : UInt64) : (value >>> 7).toNat = value.toNat / 128 := by
  rw [UInt64.toNat_shiftRight]
  exact Nat.shiftRight_eq_div_pow value.toNat 7

/-- The low group of a value, as a byte. -/
theorem low_group (value : UInt64) :
    ((value &&& 0x7f).toUInt8).toNat = value.toNat % 128 := by
  have masked : (value &&& 0x7f).toNat = value.toNat % 128 := by
    rw [UInt64.toNat_and]
    exact Nat.and_two_pow_sub_one_eq_mod value.toNat 7
  rw [UInt64.toNat_toUInt8, masked]
  omega

/-- Setting the continuation bit of a group adds 128. -/
theorem continued_group (value : UInt64) :
    ((value &&& 0x7f).toUInt8 ||| 0x80).toNat = value.toNat % 128 + 128 := by
  have small : ((value &&& 0x7f).toUInt8).toNat < 2 ^ 7 := by
    rw [low_group]
    exact Nat.mod_lt _ (by decide)
  rw [UInt8.toNat_or, Nat.or_comm]
  have disjoint := Nat.two_pow_add_eq_or_of_lt small 1
  rw [low_group] at disjoint ⊢
  change 2 ^ 7 * 1 ||| value.toNat % 128 = _
  rw [← disjoint, Nat.add_comm]

/-- The loop stops exactly when no bits remain above the low group. -/
theorem last_group (value : UInt64) : value >>> 7 = 0 ↔ value.toNat < 128 := by
  rw [← UInt64.toNat_inj, shifted_value]
  change value.toNat / 128 = 0 ↔ _
  omega

/-- Writing appends to whatever the buffer already holds. -/
theorem write_append (buf : Bytes) (value : UInt64) :
    writeVlq buf value = buf ++ writeVlq [] value := by
  induction bits : value.toNat using Nat.strongRecOn generalizing buf value with
  | ind bound inductionHypothesis =>
    have unfolded (start : Bytes) : writeVlq start value =
        if value >>> 7 = 0 then start ++ [(value &&& 0x7f).toUInt8]
        else writeVlq (start ++ [(value &&& 0x7f).toUInt8 ||| 0x80]) (value >>> 7) := by
      rw [writeVlq]
    rw [unfolded buf, unfolded []]
    by_cases final : value >>> 7 = 0
    · simp only [if_pos final, List.nil_append]
    · have smaller : (value >>> 7).toNat < bound := by
        have big : ¬ value.toNat < 128 := fun small => final ((last_group value).mpr small)
        rw [shifted_value]
        omega
      simp only [if_neg final]
      rw [inductionHypothesis _ smaller _ _ rfl,
        inductionHypothesis _ smaller ([] ++ [(value &&& 0x7f).toUInt8 ||| 0x80]) _ rfl]
      simp only [List.nil_append, List.append_assoc]

/-- A value below 128 is its own single byte. -/
theorem write_final {value : UInt64} (small : value.toNat < 128) :
    writeVlq [] value = [(value &&& 0x7f).toUInt8] := by
  rw [writeVlq]
  simp only [if_pos ((last_group value).mpr small), List.nil_append]

/-- A larger value writes its low group with the continuation bit, then the rest. -/
theorem write_continued {value : UInt64} (large : ¬ value.toNat < 128) :
    writeVlq [] value = ((value &&& 0x7f).toUInt8 ||| 0x80) :: writeVlq [] (value >>> 7) := by
  rw [writeVlq]
  simp only [if_neg (fun final => large ((last_group value).mp final)), List.nil_append]
  rw [write_append]
  rfl

/-- The written bytes are a complete group sequence whose positional value is the
value itself, of at most as many bytes as any number of groups that can hold it. -/
theorem write_exact (value : UInt64) :
    Terminated (writeVlq [] value) ∧ groupsValue (writeVlq [] value) = value.toNat ∧
      ∀ count, 1 ≤ count → value.toNat < 2 ^ (7 * count) →
        (writeVlq [] value).length ≤ count := by
  induction bits : value.toNat using Nat.strongRecOn generalizing value with
  | ind bound inductionHypothesis =>
    subst bits
    by_cases small : value.toNat < 128
    · have byteValue := low_group value
      rw [write_final small]
      refine ⟨?_, ?_, ?_⟩
      · simp only [Terminated, byteValue, if_pos (show value.toNat % 128 < 128 by omega)]
      · simp only [groupsValue, byteValue]
        omega
      · intro count positive _
        exact positive
    · have byteValue := continued_group value
      have tailValue := shifted_value value
      obtain ⟨complete, total, short⟩ :=
        inductionHypothesis (value >>> 7).toNat (by omega) (value >>> 7) rfl
      rw [write_continued small]
      refine ⟨?_, ?_, ?_⟩
      · simp only [Terminated, byteValue]
        rw [if_neg (by omega)]
        exact complete
      · simp only [groupsValue, byteValue, total]
        omega
      · intro count positive bounded
        obtain ⟨fewer, rfl⟩ : ∃ fewer, count = fewer + 1 := ⟨count - 1, by omega⟩
        have widened : 2 ^ (7 * (fewer + 1)) = 2 ^ (7 * fewer) * 128 := Nat.pow_add 2 (7 * fewer) 7
        have another : 1 ≤ fewer := by
          rcases Nat.eq_zero_or_pos fewer with rfl | more
          · simp at bounded
            omega
          · exact more
        have tail := short fewer another (by omega)
        simp only [List.length_cons]
        omega

/-- Between one and ten bytes are written. -/
theorem write_length (value : UInt64) :
    1 ≤ (writeVlq [] value).length ∧ (writeVlq [] value).length ≤ 10 := by
  obtain ⟨complete, -, short⟩ := write_exact value
  refine ⟨terminated_length complete, short 10 (by decide) ?_⟩
  have bounded := value.toNat_lt
  omega

/-- A single item is counted in one byte. -/
theorem write_one : (writeVlq [] (UInt64.ofNat 1)).length = 1 := by
  rw [write_final (by decide)]
  rfl

/-- What was written is read back, whatever follows it. -/
theorem consumes_readVlq (value : UInt64) : Consumes readVlq (writeVlq [] value) value := by
  intro tail
  obtain ⟨complete, total, -⟩ := write_exact value
  refine (read_exact _ value tail).mpr ⟨_, rfl, complete, (write_length value).2, ?_⟩
  rw [total, Nat.mod_eq_of_lt value.toNat_lt]

/-- No accepted sequence for a value is shorter than the written one. -/
theorem write_minimal {used rest : Bytes} {value : UInt64}
    (done : readVlq (used ++ rest) = .ok value rest) :
    (writeVlq [] value).length ≤ used.length := by
  obtain ⟨accepted, split, complete, -, total⟩ := (read_exact _ value rest).mp done
  obtain rfl : used = accepted := List.append_cancel_right split
  obtain ⟨-, -, short⟩ := write_exact value
  apply short _ (terminated_length complete)
  rw [total]
  exact Nat.lt_of_le_of_lt (Nat.mod_le _ _) (groups_value_bound used)

/-- A length is read exactly when a quantity of at most 256 KiB is. -/
theorem readVlqLength_ok (data : Bytes) (count : Nat) (rest : Bytes) :
    readVlqLength data = .ok count rest ↔
      ∃ value, readVlq data = .ok value rest ∧ value.toNat ≤ 262144 ∧ count = value.toNat := by
  have cap (value : UInt64) : maxVlqLength < value ↔ 262144 < value.toNat := by
    rw [UInt64.lt_iff_toNat_lt]
    rfl
  unfold readVlqLength
  rw [bind_ok]
  constructor
  · rintro ⟨value, middle, done, bounded⟩
    by_cases large : maxVlqLength < value
    · rw [if_pos large] at bounded
      cases bounded
    · rw [if_neg large] at bounded
      obtain ⟨rfl, rfl⟩ : value.toNat = count ∧ middle = rest := by
        simpa only [EStateM.Result.ok.injEq] using
          (show EStateM.Result.ok value.toNat middle = .ok count rest from bounded)
      exact ⟨value, done, Nat.le_of_not_lt (fun above => large ((cap value).mpr above)), rfl⟩
  · rintro ⟨value, done, bounded, rfl⟩
    refine ⟨value, rest, done, ?_⟩
    rw [if_neg (fun large => Nat.not_lt_of_le bounded ((cap value).mp large))]
    rfl

/-- A written length within the cap is read back. -/
theorem consumes_readVlqLength {count : Nat} (bounded : count ≤ 262144) :
    Consumes readVlqLength (writeVlq [] (UInt64.ofNat count)) count := by
  intro tail
  have same : (UInt64.ofNat count).toNat = count := by
    rw [UInt64.toNat_ofNat']
    omega
  exact (readVlqLength_ok _ count tail).mpr
    ⟨UInt64.ofNat count, consumes_readVlq _ tail, by omega, same.symm⟩

/-- Decoding the UTF-8 bytes of a string gives the string. -/
theorem fromUtf8_asBytes (text : String) :
    String.fromUTF8? ⟨(asBytes text).toArray⟩ = some text := by
  have same : (⟨(asBytes text).toArray⟩ : ByteArray) = text.toUTF8 := by
    simp only [asBytes, Array.toArray_toList]
  have valid : text.toUTF8.IsValidUTF8 := text.isValidUTF8
  rw [same, String.fromUTF8?, dif_pos valid]
  rfl

/-- A length is paid for by its shortest form. -/
theorem pays_readVlqLength :
    Pays readVlqLength (fun count => writeVlq [] (UInt64.ofNat count)) := by
  intro data count rest done
  obtain ⟨value, read, _, rfl⟩ := (readVlqLength_ok data count rest).mp done
  obtain ⟨used, rfl, _⟩ := exact_readVlq data value rest read
  have minimal := write_minimal read
  simp only [UInt64.ofNat_toNat, List.length_append]
  omega

/-- A string of at most 255 bytes is read back from its short form. -/
theorem consumes_readShortString {text : String} (short : (asBytes text).length ≤ 255) :
    Consumes readShortString (writeShortString [] text) text := by
  have len : (UInt8.ofNat (asBytes text).length).toNat = (asBytes text).length := by
    rw [UInt8.toNat_ofNat']
    omega
  intro tail
  have readLen : readByte (writeShortString [] text ++ tail) =
      .ok (UInt8.ofNat (asBytes text).length) (asBytes text ++ tail) := by
    simp [writeShortString, readByte]
  have readBytes : readExact (UInt8.ofNat (asBytes text).length).toNat (asBytes text ++ tail) =
      .ok (asBytes text) tail := by
    rw [len]
    exact consumes_readExact (asBytes text) tail
  unfold readShortString
  rw [bind_of_ok readLen, bind_of_ok readBytes, fromUtf8_asBytes]
  rfl

/-- Writing a string appends to whatever the buffer already holds. -/
theorem writeShortString_append (buf : Bytes) (text : String) :
    writeShortString buf text = buf ++ writeShortString [] text := by
  simp [writeShortString]

end ErgoProxy.Vlq
