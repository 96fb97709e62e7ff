import Mathlib.Data.List.Basic

/-!
# Finite runs of a labelled transition relation

A run starts at one fixed state and takes finitely many steps. Its history lists
the labels newest first, so the most recent step is the head of the list and an
induction on the run follows the history's own constructors.

The relation is arbitrary: nondeterminism, several steps with one label and
states without successors are all permitted. Restricting the relation restricts
the runs, which is how a condition on every step of a run is expressed.
-/

namespace Runs

universe u v
variable {State : Type u} {Label : Type v}

/-- A finite execution together with its labels, newest first. -/
inductive Run (initial : State) (step : State → Label → State → Prop) :
    List Label → State → Prop where
  | start : Run initial step [] initial
  | extend {history : List Label} {before after : State} {label : Label}
      (earlier : Run initial step history before) (taken : step before label after) :
      Run initial step (label :: history) after

variable {initial : State} {step : State → Label → State → Prop}

/-- A property of histories and states that holds at the start and survives each
step of a run holds wherever a run arrives. The step may use that its source was
itself reached, so established invariants are available while proving new ones. -/
theorem invariant (holds : List Label → State → Prop) (atStart : holds [] initial)
    (preserved : ∀ history before label after, Run initial step history before →
      holds history before → step before label after → holds (label :: history) after)
    {history : List Label} {state : State} (run : Run initial step history state) :
    holds history state := by
  induction run with
  | start => exact atStart
  | extend earlier taken inductionHypothesis =>
    exact preserved _ _ _ _ earlier inductionHypothesis taken

/-- A run can be continued by a run from where it arrived. -/
theorem continued {history labels : List Label} {middle state : State}
    (run : Run initial step history middle) (more : Run middle step labels state) :
    Run initial step (labels ++ history) state := by
  induction more with
  | start => exact run
  | extend _ taken inductionHypothesis => exact .extend inductionHypothesis taken

/-- A run can be divided wherever its history can. -/
theorem divided {later earlier : List Label} {state : State}
    (run : Run initial step (later ++ earlier) state) :
    ∃ middle, Run initial step earlier middle ∧ Run middle step later state := by
  induction later generalizing state with
  | nil => exact ⟨state, run, .start⟩
  | cons newest later inductionHypothesis =>
    cases run with
    | extend reached taken =>
      obtain ⟨middle, first, rest⟩ := inductionHypothesis reached
      exact ⟨middle, first, .extend rest taken⟩

/-- Every label of a history is a step that the run took from a state it had reached. -/
theorem visited {later : List Label} {label : Label} {earlier : List Label} {state : State}
    (run : Run initial step (later ++ label :: earlier) state) :
    ∃ before after, Run initial step earlier before ∧ step before label after := by
  induction later generalizing state with
  | nil =>
    cases run with
    | extend reached taken => exact ⟨_, _, reached, taken⟩
  | cons newer later inductionHypothesis =>
    cases run with
    | extend reached _ => exact inductionHypothesis reached

/-- A run whose labels are all admitted by another relation is a run of that relation. -/
theorem admitted {other : State → Label → State → Prop} {history : List Label} {state : State}
    (run : Run initial step history state)
    (admits : ∀ before label after, label ∈ history → step before label after →
      other before label after) : Run initial other history state := by
  induction run with
  | start => exact .start
  | extend _ taken inductionHypothesis =>
    refine .extend (inductionHypothesis fun before label after member => ?_)
      (admits _ _ _ List.mem_cons_self taken)
    exact admits before label after (List.mem_cons_of_mem _ member)

/-- Weakening the relation keeps every run. -/
theorem weaken {wider : State → Label → State → Prop}
    (included : ∀ before label after, step before label after → wider before label after)
    {history : List Label} {state : State} (run : Run initial step history state) :
    Run initial wider history state :=
  admitted run fun before label after _ => included before label after

/-- Relabelling the steps relabels the history. -/
theorem relabelled {Other : Type v} {other : State → Other → State → Prop} (rename : Label → Other)
    (included : ∀ before label after, step before label after → other before (rename label) after)
    {history : List Label} {state : State} (run : Run initial step history state) :
    Run initial other (history.map rename) state := by
  induction run with
  | start => exact .start
  | extend _ taken inductionHypothesis =>
    exact .extend inductionHypothesis (included _ _ _ taken)

/-- What is seen of a step: a step of another relation, or nothing. -/
def Shown {View : Type u} {Other : Type v} (other : View → Other → View → Prop) (before : View) :
    Option Other → View → Prop
  | none, after => after = before
  | some visible, after => other before visible after

/-- A run shows a run of what can be seen of its states. -/
theorem projected {View : Type u} {Other : Type v} {other : View → Other → View → Prop}
    (view : State → View) (seen : Label → Option Other)
    (shown : ∀ before label after, step before label after →
      Shown other (view before) (seen label) (view after))
    {history : List Label} {state : State} (run : Run initial step history state) :
    Run (view initial) other (history.filterMap seen) (view state) := by
  induction run with
  | start => exact .start
  | @extend history before after label earlier taken inductionHypothesis =>
    have showing := shown before label after taken
    rw [List.filterMap_cons]
    cases found : seen label with
    | none =>
      rw [found] at showing
      rw [showing]
      exact inductionHypothesis
    | some visible =>
      rw [found] at showing
      exact .extend inductionHypothesis showing

/-- Delete the labels that are to be dropped after the history before them. -/
def purge (dropped : List Label → Label → Bool) : List Label → List Label
  | [] => []
  | label :: earlier =>
    if dropped earlier label then purge dropped earlier else label :: purge dropped earlier

/-- If the dropped steps of a run change nothing, what is left of its history is a run to the
same state. -/
theorem purged {dropped : List Label → Label → Bool} {history : List Label} {state : State}
    (run : Run initial step history state)
    (idle : ∀ earlier before label after, Run initial step earlier before →
      step before label after → dropped earlier label → after = before) :
    Run initial step (purge dropped history) state := by
  induction run with
  | start => exact .start
  | @extend earlier before after label reached taken inductionHypothesis =>
    rw [purge]
    split
    case isTrue drops =>
      rw [idle earlier before label after reached taken drops]
      exact inductionHypothesis
    case isFalse => exact .extend inductionHypothesis taken

/-- If a step is determined by the input in its label, two runs with the same inputs are the
same run. -/
theorem determined {Input : Type v} (input : Label → Input)
    (deterministic : ∀ before label after other otherAfter, step before label after →
      step before other otherAfter → input label = input other → label = other ∧ after = otherAfter)
    {history other : List Label} {state otherState : State} (run : Run initial step history state)
    (again : Run initial step other otherState) (same : history.map input = other.map input) :
    history = other ∧ state = otherState := by
  induction run generalizing other otherState with
  | start =>
    obtain rfl : other = [] := List.map_eq_nil_iff.mp same.symm
    cases again
    exact ⟨rfl, rfl⟩
  | extend earlier taken inductionHypothesis =>
    cases again with
    | start => cases same
    | extend otherEarlier otherTaken =>
      obtain ⟨sameInput, sameEarlier⟩ := List.cons.inj same
      obtain ⟨rfl, rfl⟩ := inductionHypothesis otherEarlier sameEarlier
      obtain ⟨rfl, rfl⟩ := deterministic _ _ _ _ _ taken otherTaken sameInput
      exact ⟨rfl, rfl⟩

end Runs
