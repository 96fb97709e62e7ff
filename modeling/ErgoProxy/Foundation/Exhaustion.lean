import ErgoProxy.Foundation.FiniteMaps
import ErgoProxy.Foundation.Runs
import Mathlib.Algebra.BigOperators.Group.Finset.Basic
import Mathlib.Order.OrderIsoNat

/-!
# Work that runs out

A transition relation whose steps all lower a measure in a well-founded order has no endless
sequence of steps, and from every state a run to a state without steps. The measure of a
state that holds a finite map is often a sum over the map's values, which a single insertion
changes in one place.
-/

namespace Exhaustion

open FiniteMaps Runs

universe u v w

section Totals

variable {K : Type u} {V : Type v} [DecidableEq K]

/-- What a key contributes to the total. -/
def share (weigh : V → Nat) (map : FiniteMap K V) (key : K) : Nat :=
  (map.lookup key).elim 0 weigh

/-- The total weight of the values of a map. -/
def total (weigh : V → Nat) (map : FiniteMap K V) : Nat :=
  ∑ key ∈ map.keys, share weigh map key

/-- Keys outside the map may be added to the sum. -/
theorem total_superset (weigh : V → Nat) (map : FiniteMap K V) {keys : Finset K}
    (covered : map.keys ⊆ keys) : total weigh map = ∑ key ∈ keys, share weigh map key := by
  refine Finset.sum_subset covered ?_
  intro key _ outside
  have missing : map.lookup key = none :=
    Finmap.lookup_eq_none.mpr fun member => outside (Finmap.mem_keys.mpr member)
  rw [share, missing, Option.elim_none]

/-- An insertion replaces the contribution of one key. -/
theorem total_insert (weigh : V → Nat) (map : FiniteMap K V) (key : K) (value : V) :
    total weigh (map.insert key value) + share weigh map key =
      total weigh map + weigh value := by
  have member : key ∈ insert key map.keys := Finset.mem_insert_self key _
  have covered : (map.insert key value).keys ⊆ insert key map.keys := by
    intro other inside
    rw [Finmap.mem_keys, Finmap.mem_insert] at inside
    rcases inside with rfl | inside
    · exact Finset.mem_insert_self _ _
    · exact Finset.mem_insert_of_mem (Finmap.mem_keys.mpr inside)
  have others : ∑ other ∈ (insert key map.keys).erase key, share weigh (map.insert key value) other =
      ∑ other ∈ (insert key map.keys).erase key, share weigh map other := by
    refine Finset.sum_congr rfl ?_
    intro other inside
    rw [share, lookup_insert_eq, if_neg (Finset.ne_of_mem_erase inside), share]
  have written : share weigh (map.insert key value) key = weigh value := by
    rw [share, lookup_insert_eq, if_pos rfl, Option.elim_some]
  rw [total_superset weigh _ covered, total_superset weigh map (Finset.subset_insert _ _),
    ← Finset.add_sum_erase _ _ member, ← Finset.add_sum_erase _ (share weigh map) member, others,
    written]
  omega

end Totals

variable {State : Type u} {Label : Type v} {Measure : Type w} [Preorder Measure]
  [WellFoundedLT Measure] {step : State → Label → State → Prop}

/-- There is no endless sequence of steps. -/
theorem never_endless (measure : State → Measure)
    (decreases : ∀ before label after, step before label after → measure after < measure before)
    (states : Nat → State) (labels : Nat → Label) :
    ∃ index, ¬ step (states index) (labels index) (states (index + 1)) := by
  by_contra endless
  have always : ∀ index, step (states index) (labels index) (states (index + 1)) := fun index =>
    not_not.mp fun missing => endless ⟨index, missing⟩
  exact not_strictAnti_of_wellFoundedLT (fun index => measure (states index))
    (strictAnti_nat_of_succ_lt fun index => decreases _ _ _ (always index))

/-- From every state a run leads to a state without steps. -/
theorem run_exhausted (measure : State → Measure)
    (decreases : ∀ before label after, step before label after → measure after < measure before)
    (state : State) :
    ∃ labels rest, Run state step labels rest ∧ ∀ label after, ¬ step rest label after := by
  generalize reached : measure state = value
  induction value using WellFoundedLT.induction generalizing state with
  | ind value inductionHypothesis =>
    by_cases ended : ∀ label after, ¬ step state label after
    · exact ⟨[], state, .start, ended⟩
    · obtain ⟨label, after, taken⟩ : ∃ label after, step state label after := by
        by_contra none
        exact ended fun label after taken => none ⟨label, after, taken⟩
      subst reached
      obtain ⟨labels, rest, run, stuck⟩ :=
        inductionHypothesis _ (decreases _ _ _ taken) after rfl
      exact ⟨labels ++ [label], rest, continued (.extend .start taken) run, stuck⟩

end Exhaustion
