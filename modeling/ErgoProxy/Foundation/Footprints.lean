import Mathlib.Data.Set.Basic

/-!
# Operations confined to a footprint

A state consists of cells, each with a value of its own type, and of totals that
operations only add to. An operation finds the cells, returns an output, leaves new
cells and adds amounts to the totals; it cannot look at the totals. It is confined to
a footprint if it changes no cell outside and if everything it does is determined by
the cells inside.

Operations confined to disjoint footprints commute: each finds its own cells as if the
other had not run, and the amounts added by both are the same in either order.
-/

namespace Footprints

universe u v w x y
variable {Cell : Type u} {Value : Cell → Type v} {Index : Type w} {Amount : Type x}
  {Output : Type y}

/-- What an operation returns, leaves and adds. -/
structure Outcome (Cell : Type u) (Value : Cell → Type v) (Index : Type w) (Amount : Type x)
    (Output : Type y) where
  output : Output
  cells : (cell : Cell) → Value cell
  added : Index → Amount

/-- An operation on the cells that it finds. -/
abbrev Operation (Cell : Type u) (Value : Cell → Type v) (Index : Type w) (Amount : Type x)
    (Output : Type y) :=
  ((cell : Cell) → Value cell) → Outcome Cell Value Index Amount Output

/-- The operation changes cells of the footprint only, and what it does depends on them only. -/
structure Confined (operation : Operation Cell Value Index Amount Output) (footprint : Set Cell) :
    Prop where
  outside : ∀ cells cell, cell ∉ footprint → (operation cells).cells cell = cells cell
  output : ∀ {cells others}, (∀ cell ∈ footprint, cells cell = others cell) →
    (operation cells).output = (operation others).output
  inside : ∀ {cells others}, (∀ cell ∈ footprint, cells cell = others cell) →
    ∀ cell ∈ footprint, (operation cells).cells cell = (operation others).cells cell
  added : ∀ {cells others}, (∀ cell ∈ footprint, cells cell = others cell) →
    (operation cells).added = (operation others).added

/-- One operation after another. -/
def follow (first second : Operation Cell Value Index Amount Output)
    (cells : (cell : Cell) → Value cell) : Outcome Cell Value Index Amount Output :=
  second (first cells).cells

section Disjoint

variable {first second : Operation Cell Value Index Amount Output} {here there : Set Cell}
  (firstConfined : Confined first here) (secondConfined : Confined second there)
  (disjoint : ∀ cell ∈ here, cell ∉ there)

include firstConfined disjoint

/-- An operation confined elsewhere is not noticed. -/
theorem unnoticed (cells : (cell : Cell) → Value cell) :
    ∀ cell ∈ there, (first cells).cells cell = cells cell := by
  intro cell member
  exact firstConfined.outside cells cell fun also => disjoint cell also member

include secondConfined

/-- An operation returns the same after one that is confined elsewhere. -/
theorem follow_output (cells : (cell : Cell) → Value cell) :
    (follow first second cells).output = (second cells).output :=
  secondConfined.output (unnoticed firstConfined disjoint cells)

/-- An operation adds the same after one that is confined elsewhere. -/
theorem follow_added (cells : (cell : Cell) → Value cell) :
    (follow first second cells).added = (second cells).added :=
  secondConfined.added (unnoticed firstConfined disjoint cells)

/-- Operations confined to disjoint footprints leave the same cells in either order: a cell of
one footprint is decided by its operation, and any other cell is left alone by both. -/
theorem follow_cells (cells : (cell : Cell) → Value cell) :
    (follow first second cells).cells = (follow second first cells).cells := by
  have apart : ∀ cell ∈ there, cell ∉ here := fun cell member also => disjoint cell also member
  funext cell
  by_cases inHere : cell ∈ here
  · calc (follow first second cells).cells cell
        = (first cells).cells cell := secondConfined.outside _ cell (disjoint cell inHere)
      _ = (follow second first cells).cells cell :=
        (firstConfined.inside (unnoticed secondConfined apart cells) cell inHere).symm
  · calc (follow first second cells).cells cell
        = (second cells).cells cell := by
          by_cases inThere : cell ∈ there
          · exact secondConfined.inside (unnoticed firstConfined disjoint cells) cell inThere
          · rw [follow, secondConfined.outside _ cell inThere,
              secondConfined.outside _ cell inThere, firstConfined.outside _ cell inHere]
      _ = (follow second first cells).cells cell :=
        (firstConfined.outside _ cell inHere).symm

end Disjoint

end Footprints
