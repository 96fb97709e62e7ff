import ErgoProxy.Foundation.Runs

/-!
# Traces and ledgers

A trace is a run whose labels carry the states around each step, so that whatever a step
did can be read off the trace afterwards. Every run has one. A phase that cannot be entered again
divides a trace into the steps before it is left and those after.

A ledger follows a list that is held in the state. If every step moves entries into it at
the end and out of it at the front, what was held and what went in over a whole run is what
came out, in order, followed by what is still held: nothing is lost, repeated or reordered.
-/

namespace Runs

universe u v w
variable {State : Type u} {Label : Type v} {Item : Type w}

/-- A step together with the states between which it is taken. -/
structure Transition (State : Type u) (Label : Type v) where
  before : State
  label : Label
  after : State

/-- The relation whose labels are the transitions. -/
def Traced (step : State → Label → State → Prop) (before : State)
    (transition : Transition State Label) (after : State) : Prop :=
  transition.before = before ∧ transition.after = after ∧ step before transition.label after

variable {initial state : State} {step : State → Label → State → Prop}

/-- Every run has a trace. -/
theorem traced {history : List Label} (run : Run initial step history state) :
    ∃ trace, Run initial (Traced step) trace state ∧
      trace.map Transition.label = history := by
  induction run with
  | start => exact ⟨[], .start, rfl⟩
  | @extend history before after label earlier taken inductionHypothesis =>
    obtain ⟨trace, run, labels⟩ := inductionHypothesis
    exact ⟨⟨before, label, after⟩ :: trace, .extend run ⟨rfl, rfl, taken⟩, by simp [labels]⟩

/-- The labels of a trace are a run. -/
theorem untraced {trace : List (Transition State Label)}
    (run : Run initial (Traced step) trace state) :
    Run initial step (trace.map Transition.label) state := by
  induction run with
  | start => exact .start
  | extend _ taken inductionHypothesis => exact .extend inductionHypothesis taken.2.2

/-- A trace leads to the states around each of its transitions and on from there. -/
theorem divided_at {later earlier : List (Transition State Label)}
    {transition : Transition State Label}
    (run : Run initial (Traced step) (later ++ transition :: earlier) state) :
    Run initial (Traced step) earlier transition.before ∧
      step transition.before transition.label transition.after ∧
      Run transition.after (Traced step) later state := by
  obtain ⟨middle, first, rest⟩ := divided run
  cases first with
  | extend reached traced =>
    obtain ⟨rfl, rfl, taken⟩ := traced
    exact ⟨reached, taken, rest⟩

/-- A phase that is never entered again once it has been left divides a trace in two. Induct on the
run; as long as the phase lasts the second part is empty. -/
theorem divided_once {trace : List (Transition State Label)}
    (run : Run initial (Traced step) trace state) (phase : State → Prop)
    (left : ∀ transition ∈ trace, ¬ phase transition.before → ¬ phase transition.after) :
    ∃ later earlier, trace = later ++ earlier ∧
      (∀ transition ∈ earlier, phase transition.before) ∧
      ∀ transition ∈ later, ¬ phase transition.before := by
  have divides : ∃ later earlier, trace = later ++ earlier ∧
      (∀ transition ∈ earlier, phase transition.before) ∧
      (∀ transition ∈ later, ¬ phase transition.before) ∧ (phase state → later = []) := by
    induction run with
    | start => exact ⟨[], [], rfl, by simp, by simp, fun _ => rfl⟩
    | @extend trace before after transition reached taken inductionHypothesis =>
      obtain ⟨later, earlier, rfl, during, since, lasting⟩ := inductionHypothesis
        fun transition member => left transition (List.mem_cons_of_mem _ member)
      obtain ⟨rfl, rfl, _⟩ := taken
      by_cases now : phase transition.before
      · obtain rfl := lasting now
        refine ⟨[], transition :: earlier, rfl, ?_, by simp, fun _ => rfl⟩
        exact List.forall_mem_cons.mpr ⟨now, during⟩
      · refine ⟨transition :: later, earlier, rfl, during,
          List.forall_mem_cons.mpr ⟨now, since⟩, fun again => ?_⟩
        exact (left transition List.mem_cons_self now again).elim
  obtain ⟨later, earlier, whole, during, since, _⟩ := divides
  exact ⟨later, earlier, whole, during, since⟩

/-- What the labels of a history contribute, oldest first. -/
def collect (extract : Label → List Item) : List Label → List Item
  | [] => []
  | label :: earlier => collect extract earlier ++ extract label

@[simp] theorem collect_nil (extract : Label → List Item) : collect extract [] = [] := rfl

@[simp] theorem collect_cons (extract : Label → List Item) (label : Label)
    (earlier : List Label) :
    collect extract (label :: earlier) = collect extract earlier ++ extract label := rfl

/-- An item was contributed by one of the labels. -/
theorem mem_collect {extract : Label → List Item} {history : List Label} {item : Item} :
    item ∈ collect extract history ↔ ∃ label ∈ history, item ∈ extract label := by
  induction history with
  | nil => simp
  | cons label earlier inductionHypothesis => simp [inductionHypothesis, or_comm]

/-- Contributions are mapped one by one. -/
theorem map_collect {Other : Type w} (change : Item → Other) (extract : Label → List Item)
    (history : List Label) :
    (collect extract history).map change =
      collect (fun label => (extract label).map change) history := by
  induction history with
  | nil => rfl
  | cons label earlier inductionHypothesis => simp [inductionHypothesis]

/-- Contributions are filtered one by one. -/
theorem filter_collect (keep : Item → Bool) (extract : Label → List Item)
    (history : List Label) :
    (collect extract history).filter keep =
      collect (fun label => (extract label).filter keep) history := by
  induction history with
  | nil => rfl
  | cons label earlier inductionHypothesis => simp [inductionHypothesis]

/-- What two histories contribute, the earlier one first. -/
theorem collect_append (extract : Label → List Item) (later earlier : List Label) :
    collect extract (later ++ earlier) = collect extract earlier ++ collect extract later := by
  induction later with
  | nil => exact (List.append_nil _).symm
  | cons label later inductionHypothesis =>
    rw [List.cons_append, collect_cons, collect_cons, inductionHypothesis, List.append_assoc]

/-- Steps that append what they take in and take what they put out from the front keep the
books over a whole run. -/
theorem ledger (held : State → List Item) {taken given : Label → List Item}
    (balanced : ∀ before label after, step before label after →
      held before ++ taken label = given label ++ held after)
    {history : List Label} (run : Run initial step history state) :
    held initial ++ collect taken history = collect given history ++ held state := by
  induction run with
  | start => exact List.append_nil _
  | @extend history before after label earlier stepped inductionHypothesis =>
    rw [collect_cons, collect_cons, ← List.append_assoc, inductionHypothesis, List.append_assoc,
      balanced before label after stepped, List.append_assoc]

end Runs
