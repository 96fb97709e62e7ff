import Mathlib.Data.List.Basic

/-!
# Readers that consume exactly what they need

A reader takes symbols from the front of a finite input and either returns a
value with the remaining input or fails. `Consumes` states that a particular
segment is read completely, whatever follows it. `Exact` states that every
successful read is of that kind: its outcome depends on the consumed segment
alone and never on symbols beyond it.

Exact readers are closed under sequencing and repetition. On every input that
agrees on the consumed segment they return the same value and stop at the same
place; no strictly shorter segment is ever accepted in its stead.
-/

namespace ExactReaders

universe u
variable {ε σ S α β : Type u}

/-- A fallible reader over a finite input. A failure keeps the input it left. -/
abbrev Reader (ε σ α : Type u) : Type u := EStateM ε (List σ) α

/-- The segment is read to its end and yields the value, whatever follows. -/
def Consumes (reader : Reader ε σ α) (used : List σ) (value : α) : Prop :=
  ∀ tail, reader (used ++ tail) = .ok value tail

/-- Every success is determined by the segment it consumed. -/
def Exact (reader : Reader ε σ α) : Prop :=
  ∀ data value rest, reader data = .ok value rest →
    ∃ used, data = used ++ rest ∧ Consumes reader used value

/-- A sequence succeeds exactly when its parts succeed one after the other. -/
theorem bind_ok (first : EStateM ε S α) (next : α → EStateM ε S β) (data rest : S)
    (value : β) :
    (first >>= next) data = .ok value rest ↔
      ∃ read middle, first data = .ok read middle ∧ next read middle = .ok value rest := by
  change EStateM.bind first next data = _ ↔ _
  unfold EStateM.bind
  cases outcome : first data with
  | ok read middle => simp
  | error problem middle => simp

/-- After a successful first part the sequence continues with the second. -/
theorem bind_of_ok {first : EStateM ε S α} {data middle : S} {read : α}
    (done : first data = .ok read middle) (next : α → EStateM ε S β) :
    (first >>= next) data = next read middle := by
  change EStateM.bind first next data = _
  simp only [EStateM.bind, done]

/-- A failing first part is the failure of the sequence. -/
theorem bind_of_error {first : EStateM ε S α} {data middle : S} {problem : ε}
    (failed : first data = .error problem middle) (next : α → EStateM ε S β) :
    (first >>= next) data = .error problem middle := by
  change EStateM.bind first next data = _
  simp only [EStateM.bind, failed]

/-- What follows a conditional follows each of its branches. -/
theorem if_bind (condition : Prop) [Decidable condition] (first second : EStateM ε S α)
    (next : α → EStateM ε S β) :
    (if condition then first else second) >>= next =
      if condition then first >>= next else second >>= next := by
  split <;> rfl

/-- Returning a value reads nothing. -/
theorem consumes_pure (value : α) : Consumes (pure value : Reader ε σ α) [] value := by
  intro tail
  rfl

/-- Segments read one after the other form one segment. -/
theorem consumes_bind {first : Reader ε σ α} {next : α → Reader ε σ β}
    {used more : List σ} {read : α} {value : β}
    (initial : Consumes first used read) (following : Consumes (next read) more value) :
    Consumes (first >>= next) (used ++ more) value := by
  intro tail
  rw [List.append_assoc, bind_of_ok (initial (more ++ tail))]
  exact following tail

/-- Converting the value at the end reads nothing more. -/
theorem consumes_map {first : Reader ε σ α} {used : List σ} {read : α}
    (initial : Consumes first used read) (result : α → β) :
    Consumes (first >>= fun value => pure (result value)) used (result read) := by
  have converted : Consumes (first >>= fun value => pure (result value)) (used ++ [])
      (result read) := consumes_bind initial (consumes_pure (result read))
  rwa [List.append_nil] at converted

/-- Returning a value is exact. -/
theorem exact_pure (value : α) : Exact (pure value : Reader ε σ α) := by
  intro data read rest done
  obtain ⟨rfl, rfl⟩ : value = read ∧ data = rest := by
    simpa only [EStateM.Result.ok.injEq] using (show EStateM.Result.ok value data = .ok read rest
      from done)
  exact ⟨[], rfl, consumes_pure value⟩

/-- A reader that never succeeds is exact. -/
theorem exact_throw (problem : ε) : Exact (throw problem : Reader ε σ α) := by
  intro data read rest done
  cases done

/-- Sequencing preserves exactness. -/
theorem exact_bind {first : Reader ε σ α} {next : α → Reader ε σ β}
    (initial : Exact first) (following : ∀ read, Exact (next read)) :
    Exact (first >>= next) := by
  intro data value rest done
  obtain ⟨read, middle, before, after⟩ := (bind_ok first next data rest value).mp done
  obtain ⟨used, split, usedExact⟩ := initial data read middle before
  obtain ⟨more, splitRest, moreExact⟩ := following read middle value rest after
  refine ⟨used ++ more, ?_, consumes_bind usedExact moreExact⟩
  rw [split, splitRest, List.append_assoc]

/-- A successful exact read splits its input into the consumed segment and the
remaining input; the segment's length is the distance travelled. -/
theorem exact_distance {reader : Reader ε σ α} (exact : Exact reader)
    {data rest : List σ} {value : α} (done : reader data = .ok value rest) :
    rest.length ≤ data.length ∧ Consumes reader (data.take (data.length - rest.length)) value ∧
      rest = data.drop (data.length - rest.length) := by
  obtain ⟨used, rfl, consumed⟩ := exact data value rest done
  have travelled : (used ++ rest).length - rest.length = used.length := by
    rw [List.length_append]
    omega
  refine ⟨by simp, ?_, ?_⟩
  · rw [travelled, List.take_left]
    exact consumed
  · rw [travelled, List.drop_left]

/-- An input that agrees on the consumed segment yields the same value and the
input beyond that segment. -/
theorem exact_agrees {reader : Reader ε σ α} (exact : Exact reader)
    {data rest other : List σ} {value : α} (done : reader data = .ok value rest)
    (same : other.take (data.length - rest.length) = data.take (data.length - rest.length)) :
    reader other = .ok value (other.drop (data.length - rest.length)) := by
  obtain ⟨_, consumed, _⟩ := exact_distance exact done
  have reread := consumed (other.drop (data.length - rest.length))
  rwa [← same, List.take_append_drop] at reread

/-- No strict initial part of a consumed segment is accepted. Otherwise exactness
would let the same reader stop early on the whole segment as well. -/
theorem strict_prefix_refused {reader : Reader ε σ α} (exact : Exact reader)
    {used short : List σ} {value : α} (consumed : Consumes reader used value)
    (initial : short <+: used) (strict : short ≠ used) (read : α) (rest : List σ) :
    reader short ≠ .ok read rest := by
  intro accepted
  obtain ⟨missing, rfl⟩ := initial
  obtain ⟨early, rfl, earlyConsumed⟩ := exact short read rest accepted
  have whole : reader (early ++ (rest ++ missing)) = .ok value [] := by
    simpa only [List.append_assoc, List.append_nil] using consumed []
  rw [earlyConsumed (rest ++ missing)] at whole
  have nothing : rest ++ missing = [] := by
    injection whole
  have complete : missing = [] := (List.append_eq_nil_iff.mp nothing).2
  exact strict (by rw [complete, List.append_nil])

/-- Read a fixed number of symbols, or fail after exhausting the input. -/
def takeExactly (shortage : ε) (count : Nat) : Reader ε σ (List σ) := fun data =>
  if data.length < count then .error shortage [] else .ok (data.take count) (data.drop count)

/-- A segment of the requested length is read as it stands. -/
theorem consumes_takeExactly (shortage : ε) (used : List σ) :
    Consumes (takeExactly shortage used.length) used used := by
  intro tail
  have enough : ¬ (used ++ tail).length < used.length := by
    rw [List.length_append]
    omega
  simp only [takeExactly, if_neg enough, List.take_left, List.drop_left]

/-- Exactly the segments of the requested length are read. -/
theorem takeExactly_ok (shortage : ε) (count : Nat) (data used rest : List σ) :
    takeExactly shortage count data = .ok used rest ↔
      data = used ++ rest ∧ used.length = count := by
  constructor
  · intro done
    unfold takeExactly at done
    split at done
    case isTrue => cases done
    case isFalse enough =>
      cases done
      refine ⟨(List.take_append_drop count data).symm, ?_⟩
      rw [List.length_take]
      omega
  · rintro ⟨rfl, rfl⟩
    exact consumes_takeExactly shortage used rest

/-- Reading a fixed number of symbols is exact. -/
theorem exact_takeExactly (shortage : ε) (count : Nat) :
    Exact (takeExactly shortage count : Reader ε σ (List σ)) := by
  intro data value rest done
  obtain ⟨split, rfl⟩ := (takeExactly_ok shortage count data value rest).mp done
  exact ⟨value, split, consumes_takeExactly shortage value⟩

/-- Run a reader a fixed number of times and collect its values in order. -/
def times (reader : Reader ε σ α) : Nat → Reader ε σ (List α)
  | 0 => pure []
  | count + 1 => do
    let first ← reader
    let others ← times reader count
    pure (first :: others)

/-- Repetition preserves exactness. -/
theorem exact_times {reader : Reader ε σ α} (exact : Exact reader) (count : Nat) :
    Exact (times reader count) := by
  induction count with
  | zero => exact exact_pure []
  | succ count inductionHypothesis =>
    exact exact_bind exact fun _ => exact_bind inductionHypothesis fun _ => exact_pure _

/-- Concatenated segments are read back as the list of their values. -/
theorem consumes_times {reader : Reader ε σ α} (segment : α → List σ) (values : List α)
    (each : ∀ value ∈ values, Consumes reader (segment value) value) :
    Consumes (times reader values.length) (values.flatMap segment) values := by
  induction values with
  | nil => exact consumes_pure []
  | cons value values inductionHypothesis =>
    have others : ∀ other ∈ values, Consumes reader (segment other) other := by
      intro other member
      exact each other (List.mem_cons_of_mem _ member)
    exact consumes_bind (each value List.mem_cons_self)
      (consumes_map (inductionHypothesis others) (fun read => value :: read))

/-- Repetition returns as many values as requested. -/
theorem times_length {reader : Reader ε σ α} {count : Nat} {data rest : List σ} {values : List α}
    (done : times reader count data = .ok values rest) : values.length = count := by
  induction count generalizing data values with
  | zero =>
    cases done
    rfl
  | succ count inductionHypothesis =>
    obtain ⟨first, middle, _, others⟩ := (bind_ok _ _ _ _ _).mp done
    obtain ⟨read, last, repeated, finished⟩ := (bind_ok _ _ _ _ _).mp others
    cases finished
    rw [List.length_cons, inductionHypothesis repeated]

/-- Every success consumes at least as many symbols as the segment of its value has. -/
def Pays (reader : Reader ε σ α) (segment : α → List σ) : Prop :=
  ∀ data value rest, reader data = .ok value rest →
    (segment value).length + rest.length ≤ data.length

/-- A reader that returns what stood at the front pays for it. -/
theorem pays_of_front {reader : Reader ε σ α} {segment : α → List σ}
    (front : ∀ data value rest, reader data = .ok value rest → data = segment value ++ rest) :
    Pays reader segment := by
  intro data value rest done
  have counted := congrArg List.length (front data value rest done)
  rw [List.length_append] at counted
  exact Nat.le_of_eq counted.symm

/-- Repetition pays for all segments. -/
theorem pays_times {reader : Reader ε σ α} {segment : α → List σ} (pays : Pays reader segment)
    (count : Nat) : Pays (times reader count) (fun values => values.flatMap segment) := by
  induction count with
  | zero =>
    rintro data values rest ⟨⟩
    simp
  | succ count inductionHypothesis =>
    intro data values rest done
    obtain ⟨first, middle, read, others⟩ := (bind_ok _ _ _ _ _).mp done
    obtain ⟨tail, last, repeated, finished⟩ := (bind_ok _ _ _ _ _).mp others
    cases finished
    have firstPaid := pays data first middle read
    have tailPaid := inductionHypothesis middle tail rest repeated
    simp only [List.flatMap_cons, List.length_append] at tailPaid ⊢
    omega

end ExactReaders
