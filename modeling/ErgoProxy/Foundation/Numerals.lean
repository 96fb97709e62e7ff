import Mathlib.Data.Nat.Digits.Defs

/-!
# Bounded decimal numerals

Digits are read from left to right, and reading stops at the first character that is no digit
and at the first digit that makes the number too large. The number never gets smaller on the
way, so the bound on all intermediate numbers is the bound on the last one.
-/

namespace Numerals

universe u
variable {ε : Type u}

/-- Continue a number with digits, as long as it stays below the bound. -/
def readDigits (invalid tooLarge : ε) (bound : Nat) : Nat → List Char → Except ε Nat
  | number, [] => .ok number
  | number, digit :: rest =>
    if digit.isDigit then
      if 10 * number + (digit.toNat - '0'.toNat) < bound then
        readDigits invalid tooLarge bound (10 * number + (digit.toNat - '0'.toNat)) rest
      else .error tooLarge
    else .error invalid

/-- More digits never make a number smaller. -/
theorem le_ofDigitChars (digits : List Char) (number : Nat) :
    number ≤ Nat.ofDigitChars 10 digits number := by
  induction digits generalizing number with
  | nil => exact Nat.le_refl number
  | cons digit digits inductionHypothesis =>
    rw [Nat.ofDigitChars_cons]
    calc number
      _ ≤ 10 * number + (digit.toNat - '0'.toNat) := by omega
      _ ≤ _ := inductionHypothesis _

/-- Reading succeeds exactly on digits whose number is below the bound. -/
theorem readDigits_ok (invalid tooLarge : ε) {bound : Nat} (digits : List Char) {number : Nat}
    (small : number < bound) (value : Nat) :
    readDigits invalid tooLarge bound number digits = .ok value ↔
      (∀ digit ∈ digits, digit.isDigit = true) ∧ Nat.ofDigitChars 10 digits number = value ∧
        value < bound := by
  induction digits generalizing number with
  | nil =>
    simp only [readDigits, Except.ok.injEq, Nat.ofDigitChars_nil, List.not_mem_nil, false_implies,
      implies_true, true_and]
    exact ⟨fun same => ⟨same, same ▸ small⟩, And.left⟩
  | cons digit digits inductionHypothesis =>
    rw [readDigits, Nat.ofDigitChars_cons, List.forall_mem_cons]
    by_cases valid : digit.isDigit = true
    · rw [if_pos valid]
      by_cases next : 10 * number + (digit.toNat - '0'.toNat) < bound
      · rw [if_pos next, inductionHypothesis next]
        simp only [valid, true_and]
      · rw [if_neg next]
        refine ⟨nofun, ?_⟩
        rintro ⟨_, rfl, fits⟩
        exact (next (Nat.lt_of_le_of_lt (le_ofDigitChars digits _) fits)).elim
    · rw [if_neg valid]
      refine ⟨nofun, ?_⟩
      rintro ⟨⟨isDigit, _⟩, _⟩
      exact (valid isDigit).elim

end Numerals
