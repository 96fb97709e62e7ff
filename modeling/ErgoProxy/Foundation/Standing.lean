import ErgoProxy.Foundation.Runs

/-!
# Values that stand until they are revoked

Some entries of a history mark a value and later entries may revoke it. The standing
value is that of the newest marking entry, unless an entry since then revoked it. A
revocation may depend on the history before it.

A table that is written by marks and cleared by revocations holds the standing value
in every run; it suffices to check one step.
-/

namespace Standing

open Runs

universe u v w
variable {State : Type u} {Label : Type v} {Value : Type w}

/-- The value marked last, unless it has been revoked since. -/
def standing (mark : Label → Option Value) (revokes : List Label → Label → Value → Bool) :
    List Label → Option Value
  | [] => none
  | entry :: earlier =>
    match mark entry with
    | some value => some value
    | none => (standing mark revokes earlier).filter fun value => !revokes earlier entry value

variable {mark : Label → Option Value} {revokes : List Label → Label → Value → Bool}

/-- A standing value was marked by some entry, and no entry since has marked another
value or revoked it. -/
theorem standing_since {history : List Label} {value : Value}
    (stands : standing mark revokes history = some value) :
    ∃ since entry earlier, history = since ++ entry :: earlier ∧ mark entry = some value ∧
      (∀ newer ∈ since, mark newer = none) ∧
      ∀ later newer between, since = later ++ newer :: between →
        revokes (between ++ entry :: earlier) newer value = false := by
  induction history with
  | nil => cases stands
  | cons newest history inductionHypothesis =>
    rw [standing] at stands
    cases marked : mark newest with
    | some written =>
      rw [marked] at stands
      cases stands
      refine ⟨[], newest, history, rfl, marked, by rintro _ ⟨⟩, ?_⟩
      intro later newer between split
      cases later <;> cases split
    | none =>
      rw [marked] at stands
      obtain ⟨stood, kept⟩ := Option.filter_eq_some_iff.mp stands
      obtain ⟨since, entry, earlier, rfl, written, unmarked, unrevoked⟩ := inductionHypothesis stood
      refine ⟨newest :: since, entry, earlier, rfl, written, ?_, ?_⟩
      · intro newer member
        rcases List.mem_cons.mp member with rfl | older
        · exact marked
        · exact unmarked newer older
      · intro later newer between split
        cases later with
        | nil =>
          cases split
          simpa using kept
        | cons first later =>
          cases split
          exact unrevoked later newer between rfl

/-- A table that starts empty, takes every marked value and otherwise loses exactly what
is revoked holds the standing value. -/
theorem table_standing {initial : State} {step : State → Label → State → Prop}
    (table : State → Option Value) (atStart : table initial = none)
    (written : ∀ {history before label after}, Run initial step history before →
      step before label after → ∀ value, mark label = some value → table after = some value)
    (cleared : ∀ {history before label after}, Run initial step history before →
      step before label after → mark label = none →
      table after = (table before).filter fun value => !revokes history label value)
    {history : List Label} {state : State} (run : Run initial step history state) :
    table state = standing mark revokes history := by
  refine invariant (fun earlier reached => table reached = standing mark revokes earlier)
    atStart ?_ run
  intro earlier before label after earlierRun held taken
  rw [standing]
  cases marked : mark label with
  | some value => exact written earlierRun taken value marked
  | none => exact (cleared earlierRun taken marked).trans (by rw [held])

end Standing
