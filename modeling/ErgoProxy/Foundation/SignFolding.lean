import Mathlib.Data.Int.Order.Basic

/-!
# Folding signed words into unsigned ones

Signed words are numbered 0, -1, 1, -2, 2, … so that small magnitudes get small
unsigned words. Folding shifts the word left and inverts it if it was negative;
unfolding shifts right and inverts if the lowest bit was set. Both are defined on
words of any positive width by shifts, exclusive or and negation, and are equal to
the integer functions they stand for. They are inverse to each other.
-/

namespace SignFolding

variable {width : Nat}

/-- Shift left by one; invert if the sign was set. -/
def fold (word : BitVec width) : BitVec width := (word <<< 1) ^^^ word.sshiftRight (width - 1)

/-- Shift right by one; invert if the lowest bit was set. -/
def unfold (word : BitVec width) : BitVec width := (word >>> 1) ^^^ -(word &&& 1#(width))

/-- The number that stands for an integer. -/
def number (value : Int) : Int := if 0 ≤ value then 2 * value else -2 * value - 1

/-- The sign bit, shifted through the whole word, is either nothing or everything. -/
theorem sign_spread (word : BitVec (width + 1)) :
    word.sshiftRight width = if word.msb then BitVec.allOnes (width + 1) else 0#(width + 1) := by
  by_cases negative : word.msb = true
  · have high := BitVec.msb_eq_true_iff_two_mul_ge.mp negative
    rw [if_pos negative, BitVec.sshiftRight_eq_of_msb_true negative]
    have nothing : (~~~word) >>> width = 0#(width + 1) := by
      apply BitVec.eq_of_toNat_eq
      rw [BitVec.toNat_ushiftRight, BitVec.toNat_not, Nat.shiftRight_eq_div_pow]
      exact Nat.div_eq_of_lt (by omega)
    rw [nothing]
    exact BitVec.not_zero
  · have positive : word.msb = false := by simpa using negative
    have low := BitVec.msb_eq_false_iff_two_mul_lt.mp positive
    rw [if_neg negative, BitVec.sshiftRight_eq_of_msb_false positive]
    apply BitVec.eq_of_toNat_eq
    rw [BitVec.toNat_ushiftRight, Nat.shiftRight_eq_div_pow]
    exact Nat.div_eq_of_lt (by omega)

/-- Folding a word gives the number of its signed value, without loss. -/
theorem fold_number (word : BitVec (width + 1)) :
    ((fold word).toNat : Int) = number word.toInt := by
  have below := word.isLt
  have doubled : (word <<< 1).toNat = 2 * word.toNat % 2 ^ (width + 1) := by
    rw [BitVec.toNat_shiftLeft, Nat.shiftLeft_eq, Nat.mul_comm, Nat.pow_one]
  have signed := BitVec.toInt_eq_msb_cond word
  rw [fold, Nat.add_sub_cancel, sign_spread, number]
  by_cases negative : word.msb = true
  · have high := BitVec.msb_eq_true_iff_two_mul_ge.mp negative
    have reduced : 2 * word.toNat % 2 ^ (width + 1) = 2 * word.toNat - 2 ^ (width + 1) := by
      rw [Nat.mod_eq_sub_mod high, Nat.mod_eq_of_lt (by omega)]
    rw [if_pos negative] at signed
    rw [if_pos negative, BitVec.xor_allOnes, BitVec.toNat_not, doubled, if_neg (by omega), reduced]
    omega
  · have low := BitVec.msb_eq_false_iff_two_mul_lt.mp (by simpa using negative)
    rw [if_neg negative] at signed
    rw [if_neg negative, BitVec.xor_zero, doubled, Nat.mod_eq_of_lt low, if_pos (by omega)]
    omega

/-- Unfolding a word gives the signed value whose number it is: half of an even number, and
the complement of half of an odd one. -/
theorem unfold_signed (word : BitVec (width + 1)) :
    (unfold word).toInt =
      if word.toNat % 2 = 0 then (word.toNat : Int) / 2 else -((word.toNat : Int) / 2) - 1 := by
  have below := word.isLt
  have halved : (word >>> 1).toNat = word.toNat / 2 := by
    rw [BitVec.toNat_ushiftRight, Nat.shiftRight_eq_div_pow, Nat.pow_one]
  have one : (1#(width + 1)).toNat = 1 := by
    rw [BitVec.toNat_ofNat]
    exact Nat.mod_eq_of_lt (by omega)
  have lowest : (word &&& 1#(width + 1)).toNat = word.toNat % 2 := by
    rw [BitVec.toNat_and, one]
    exact Nat.and_two_pow_sub_one_eq_mod word.toNat 1
  by_cases even : word.toNat % 2 = 0
  · have cleared : word &&& 1#(width + 1) = 0#(width + 1) := by
      apply BitVec.eq_of_toNat_eq
      rw [lowest, even]
      rfl
    rw [unfold, cleared, BitVec.neg_zero, BitVec.xor_zero, BitVec.toInt_eq_toNat_cond, halved,
      if_pos (by omega), if_pos even]
    omega
  · have odd : word &&& 1#(width + 1) = 1#(width + 1) := by
      apply BitVec.eq_of_toNat_eq
      rw [lowest, one]
      omega
    have inverted : (~~~(word >>> 1)).toNat = 2 ^ (width + 1) - 1 - word.toNat / 2 := by
      rw [BitVec.toNat_not, halved]
    rw [unfold, odd, BitVec.neg_one_eq_allOnes, BitVec.xor_allOnes, BitVec.toInt_eq_toNat_cond,
      inverted, if_neg (by omega), if_neg even]
    omega

/-- Unfolding undoes folding. -/
theorem unfold_fold (word : BitVec (width + 1)) : unfold (fold word) = word := by
  have numbered := fold_number word
  rw [← BitVec.toInt_inj, unfold_signed]
  unfold number at numbered
  split at numbered <;> split <;> omega

/-- Folding undoes unfolding. -/
theorem fold_unfold (word : BitVec (width + 1)) : fold (unfold word) = word := by
  have numbered := fold_number (unfold word)
  rw [unfold_signed, number] at numbered
  apply BitVec.eq_of_toNat_eq
  split at numbered <;> split at numbered <;> omega

end SignFolding
