import ErgoProxy.Foundation.ExactReaders

/-!
# Languages of readers

A language says which segments stand for a value; several segments may stand for the same one.
A reader recognises a language if it succeeds exactly on the inputs that begin with a segment
of it, and returns a value that the segment stands for. Recognition is a statement in both
directions, so a language obtained from the parts of a reader describes everything that the
reader accepts and nothing else.
-/

namespace ExactReaders

universe u
variable {ε σ α β : Type u}

/-- The reader accepts the segments of the language, whatever follows, and nothing else. -/
def Recognises (reader : Reader ε σ α) (language : α → List σ → Prop) : Prop :=
  ∀ data value rest, reader data = .ok value rest ↔
    ∃ used, data = used ++ rest ∧ language value used

/-- A segment of one language and then a segment of a language that its value chooses. -/
def Sequence (first : α → List σ → Prop) (next : α → β → List σ → Prop) (value : β)
    (used : List σ) : Prop :=
  ∃ read front back, first read front ∧ next read value back ∧ used = front ++ back

/-- One segment for each value, in order. -/
def Repeated (language : α → List σ → Prop) : List α → List σ → Prop
  | [], used => used = []
  | value :: values, used =>
    ∃ front back, language value front ∧ Repeated language values back ∧ used = front ++ back

/-- Each of the values has a segment. -/
theorem repeated_member {language : α → List σ → Prop} {values : List α} {used : List σ}
    (repeated : Repeated language values used) {value : α} (member : value ∈ values) :
    ∃ segment, language value segment := by
  induction values generalizing used with
  | nil => cases member
  | cons first others inductionHypothesis =>
    obtain ⟨front, back, begins, repeated, _⟩ := repeated
    rcases List.mem_cons.mp member with rfl | later
    · exact ⟨front, begins⟩
    · exact inductionHypothesis repeated later

/-- Languages with the same segments are recognised by the same readers. -/
theorem recognises_congr {reader : Reader ε σ α} {language other : α → List σ → Prop}
    (recognises : Recognises reader language)
    (same : ∀ value used, language value used ↔ other value used) : Recognises reader other := by
  intro data value rest
  simp only [recognises data value rest, same]

/-- Nothing is read for a value that is known. -/
theorem recognises_pure (known : α) :
    Recognises (pure known : Reader ε σ α) fun value used => value = known ∧ used = [] := by
  intro data value rest
  constructor
  · rintro ⟨⟩
    exact ⟨[], rfl, rfl, rfl⟩
  · rintro ⟨_, rfl, rfl, rfl⟩
    rfl

/-- Readers in sequence recognise the sequence of their languages. -/
theorem recognises_bind {reader : Reader ε σ α} {next : α → Reader ε σ β}
    {language : α → List σ → Prop} {following : α → β → List σ → Prop}
    (recognises : Recognises reader language)
    (others : ∀ read, Recognises (next read) (following read)) :
    Recognises (reader >>= next) (Sequence language following) := by
  intro data value rest
  rw [bind_ok]
  constructor
  · rintro ⟨read, middle, first, second⟩
    obtain ⟨front, rfl, begins⟩ := (recognises data read middle).mp first
    obtain ⟨back, rfl, follows⟩ := (others read middle value rest).mp second
    exact ⟨front ++ back, (List.append_assoc _ _ _).symm, read, front, back, begins, follows, rfl⟩
  · rintro ⟨_, rfl, read, front, back, begins, follows, rfl⟩
    refine ⟨read, back ++ rest, (recognises _ _ _).mpr ⟨front, ?_, begins⟩,
      (others read _ _ _).mpr ⟨back, rfl, follows⟩⟩
    exact List.append_assoc _ _ _

/-- A repeated reader recognises one segment for each of its values. -/
theorem recognises_times {reader : Reader ε σ α} {language : α → List σ → Prop}
    (recognises : Recognises reader language) (count : Nat) :
    Recognises (times reader count) fun values used =>
      values.length = count ∧ Repeated language values used := by
  induction count with
  | zero =>
    refine recognises_congr (recognises_pure []) fun values used => ?_
    cases values with
    | nil => simp [Repeated]
    | cons => simp
  | succ count inductionHypothesis =>
    refine recognises_congr (recognises_bind recognises fun first =>
      recognises_bind inductionHypothesis fun others => recognises_pure (first :: others)) ?_
    intro values used
    constructor
    · rintro ⟨first, front, _, begins, ⟨others, back, _, ⟨counted, repeated⟩, ⟨rfl, rfl⟩, rfl⟩, rfl⟩
      refine ⟨congrArg (· + 1) counted, front, back, begins, repeated, ?_⟩
      rw [List.append_nil]
    · rintro ⟨counted, repeated⟩
      cases values with
      | nil => cases counted
      | cons first others =>
        obtain ⟨front, back, begins, repeated, rfl⟩ := repeated
        exact ⟨first, front, back, begins, ⟨others, back, [],
          ⟨Nat.succ.inj counted, repeated⟩, ⟨rfl, rfl⟩, (List.append_nil _).symm⟩, rfl⟩

/-- If every value has one segment, the repeated segments are the concatenated ones. -/
theorem repeated_segments (segment : α → List σ) (values : List α) (used : List σ) :
    Repeated (fun value used => used = segment value) values used ↔
      used = values.flatMap segment := by
  induction values generalizing used with
  | nil => exact Iff.rfl
  | cons value values inductionHypothesis =>
    constructor
    · rintro ⟨_, back, rfl, repeated, rfl⟩
      rw [(inductionHypothesis back).mp repeated, List.flatMap_cons]
    · rintro rfl
      exact ⟨_, _, rfl, (inductionHypothesis _).mpr rfl, List.flatMap_cons⟩

end ExactReaders
