import ErgoProxy.Transport.Connection
import ErgoProxy.Transport.HandshakeWalks

/-!
# Reading a handshake from what one refill shows

`readHandshake` sees the bytes of a single refill. If it succeeds, the measured
handshake lies inside these bytes, so any longer view of the same stream gives the
same specification and the same size. If the refill shows only a part of the
handshake, measuring fails and so does the read: success depends on whether the
first chunk holds the whole handshake, although the stream does.
-/

namespace ErgoProxy.Connection

open ExactReaders Handshake BufReader

/-- Measuring fails on no bytes at all. -/
theorem measured_nonempty {data : Bytes} {size : Nat} (measured : measureSize data = .ok size) :
    data ≠ [] := by
  rintro rfl
  cases measured

/-- The read succeeds exactly when the bytes of the refill can be parsed and measured;
it consumes the measured size. -/
theorem readHandshake_ok (reader after : BufReader) (spec : PeerSpec) :
    readHandshake reader = .ok spec after ↔
      ∃ seen middle size, fillBuf reader = .ok seen middle ∧ parse seen = .ok spec ∧
        measureSize seen = .ok size ∧ after = middle.consume size := by
  unfold readHandshake
  rw [bind_ok]
  constructor
  · rintro ⟨seen, middle, filled, done⟩
    by_cases nothing : seen = []
    · rw [if_pos nothing] at done
      cases done
    · rw [if_neg nothing] at done
      cases parsed : parse seen with
      | error problem => rw [parsed] at done; cases done
      | ok found =>
        cases measured : measureSize seen with
        | error problem => rw [parsed, measured] at done; cases done
        | ok size =>
          rw [parsed, measured] at done
          cases done
          exact ⟨seen, middle, size, filled, parsed, measured, rfl⟩
  · rintro ⟨seen, middle, size, filled, parsed, measured, rfl⟩
    refine ⟨seen, middle, filled, ?_⟩
    rw [if_neg (measured_nonempty measured), parsed, measured]
    rfl

/-- On what a refill shows, success means a strict walk. -/
theorem readHandshake_walk {reader after : BufReader} {spec : PeerSpec}
    (read : readHandshake reader = .ok spec after) :
    ∃ seen middle size, fillBuf reader = .ok seen middle ∧ size ≤ seen.length ∧
      strictWalk seen = .ok spec (seen.drop size) ∧ after = middle.consume size := by
  obtain ⟨seen, middle, size, filled, parsed, measured, rfl⟩ :=
    (readHandshake_ok reader after spec).mp read
  obtain ⟨inside, walkedSpec, walked⟩ := measured_walk measured
  obtain rfl : walkedSpec = spec := Except.ok.inj ((parse_ok walked).symm.trans parsed)
  exact ⟨seen, middle, size, filled, inside, walked, rfl⟩

/-- A strict walk over what a refill shows makes the read succeed. -/
theorem walk_readHandshake {reader middle : BufReader} {seen : Bytes} {spec : PeerSpec}
    {size : Nat} (filled : fillBuf reader = .ok seen middle) (inside : size ≤ seen.length)
    (walked : strictWalk seen = .ok spec (seen.drop size)) :
    readHandshake reader = .ok spec (middle.consume size) :=
  (readHandshake_ok _ _ _).mpr
    ⟨seen, middle, size, filled, parse_ok walked, walk_measured inside walked, rfl⟩

/-- The walkers agree on every input that can be measured: the size lies inside the
input, `parse` returns as many features as announced, the entry parser behind the
timestamp returns the same specification and stops at the measured offset, inputs
that agree on the measured bytes are treated alike, and no strict initial part of
these bytes can be measured.

Hence a handshake read that succeeds on an initial part of a stream succeeds on the
whole stream, with the same specification and the same consumed size. -/
theorem walkers_agree :
    (∀ data size, measureSize data = .ok size →
      size ≤ data.length ∧ ∃ spec, parse data = .ok spec ∧
        (∃ count, featureCount data = .ok count ∧ spec.features.length = count.toNat) ∧
        (∃ timestamp behind, Vlq.readVlq data = .ok timestamp behind ∧
          parsePeerEntry behind = .ok spec (data.drop size)) ∧
        (∀ other, size ≤ other.length → other.take size = data.take size →
          measureSize other = .ok size ∧ parse other = .ok spec) ∧
        ∀ short, short <+: data.take size → short ≠ data.take size →
          ∃ problem, measureSize short = .error problem) ∧
      ∀ reader middle after seen stream spec, fillBuf reader = .ok seen middle → seen <+: stream →
        readHandshake reader = .ok spec after →
        ∃ size, size ≤ seen.length ∧ after = middle.consume size ∧
          ∀ other otherMiddle, fillBuf other = .ok stream otherMiddle →
            readHandshake other = .ok spec (otherMiddle.consume size) := by
  constructor
  · intro data size measured
    obtain ⟨inside, spec, walked⟩ := measured_walk measured
    refine ⟨inside, spec, parse_ok walked, strictWalk_count walked, ?_, ?_, ?_⟩
    · obtain ⟨timestamp, behind, timestampRead, entry⟩ := (bind_ok _ _ _ _ _).mp walked
      exact ⟨timestamp, behind, timestampRead, parsePeerEntry_ok entry⟩
    · intro other long same
      have otherWalked := walk_agrees inside walked same
      exact ⟨walk_measured long otherWalked, parse_ok otherWalked⟩
    · intro short initial strict
      exact measured_prefix_refused measured initial strict
  · intro reader middle after seen stream spec filled initial read
    obtain ⟨shown, shownMiddle, size, shownFilled, inside, walked, rfl⟩ := readHandshake_walk read
    cases filled.symm.trans shownFilled
    obtain ⟨missing, rfl⟩ := initial
    have same : (seen ++ missing).take size = seen.take size :=
      List.take_append_of_le_length inside
    have long : size ≤ (seen ++ missing).length := by
      rw [List.length_append]
      omega
    exact ⟨size, inside, rfl, fun other otherMiddle otherFilled =>
      walk_readHandshake otherFilled long (walk_agrees inside walked same)⟩

/-- A handshake with a declared address and two features. -/
def addressedHandshake : Bytes :=
  [0, 0, 4, 0, 100, 0, 1, 8, 1, 1, 1, 1, 0xc6, 0x46, 2, 16, 4, 0, 1, 0, 0, 64, 1, 1]

/-- What it says: version 4.0.100, address 1.1.1.1:9030, and the two features. -/
def addressedSpec : PeerSpec :=
  ⟨"", ⟨4, 0, 100⟩, "", some (.v4 (.replicate 4 1) 9030), [⟨16, [0, 1, 0, 0]⟩, ⟨64, [1]⟩]⟩

/-- The walkers agree on this handshake with and without a byte behind it, and a read that sees the
handshake alone is repeated by one that sees that byte too, and leaves it. -/
theorem walkers_agree_addressed :
    parse (addressedHandshake ++ [7]) = .ok addressedSpec ∧
      parse addressedHandshake = .ok addressedSpec ∧
      readHandshake ⟨[], [.ok (addressedHandshake ++ [7])]⟩ = .ok addressedSpec ⟨[7], []⟩ := by
  have measured : measureSize (addressedHandshake ++ [7]) = .ok 24 := by decide
  have said : parse (addressedHandshake ++ [7]) = .ok addressedSpec := by decide
  obtain ⟨_, spec, parsed, _, _, agree, _⟩ := walkers_agree.1 _ _ measured
  obtain rfl : spec = addressedSpec := Except.ok.inj (parsed.symm.trans said)
  obtain ⟨alone, aloneParsed⟩ := agree addressedHandshake (by decide) rfl
  have first : readHandshake ⟨[], [.ok addressedHandshake]⟩ = .ok addressedSpec ⟨[], []⟩ :=
    (readHandshake_ok _ _ _).mpr ⟨addressedHandshake, ⟨addressedHandshake, []⟩, 24, rfl, aloneParsed,
      alone, rfl⟩
  obtain ⟨size, inside, consumed, again⟩ := walkers_agree.2 _ ⟨addressedHandshake, []⟩ _ _
    (addressedHandshake ++ [7]) _ rfl (List.prefix_append _ _) first
  obtain rfl : size = 24 := by
    have nothing := List.drop_eq_nil_iff.mp (congrArg BufReader.buffer consumed).symm
    exact Nat.le_antisymm inside nothing
  exact ⟨parsed, aloneParsed, again _ ⟨addressedHandshake ++ [7], []⟩ rfl⟩

/-- The shortest handshake: timestamp zero, empty names, version 4.0.100, no address
and no features. -/
def shortestHandshake : Bytes := [0, 0, 4, 0, 100, 0, 0, 0]

/-- The reader of a socket that delivers the given chunks and then ends. -/
def chunked (chunks : List Bytes) : BufReader := ⟨[], chunks.map .ok⟩

/-- The read returns the specification and leaves the reader just behind the
handshake of the given size. -/
def ReadsTo (data : Bytes) (size : Nat) (chunks : List Bytes) (spec : PeerSpec) : Prop :=
  ∃ after, readHandshake (chunked chunks) = .ok spec after ∧ after.contents = data.drop size

/-- The first refill shows the first chunk, up to the buffer's size, and loses nothing. -/
theorem chunked_filled {first : Bytes} (nonempty : first ≠ []) (later : List Bytes) :
    ∃ middle, fillBuf (chunked (first :: later)) = .ok (first.take capacity) middle ∧
      middle.buffer = first.take capacity ∧
      middle.contents = (chunked (first :: later)).contents :=
  ⟨_, rfl, rfl, contents_refilled nonempty (later.map .ok)⟩

/-- All bytes of nonempty chunks can be read. -/
theorem chunked_contents {chunks : List Bytes} (nonempty : ∀ chunk ∈ chunks, chunk ≠ []) :
    (chunked chunks).contents = chunks.flatten := by
  rw [chunked, contents, List.nil_append, arriving_chunks nonempty]

section Segments

variable {data : Bytes} {size : Nat} {spec : PeerSpec} {chunks : List Bytes}

/-- The first refill agrees with the stream on every initial part that it shows. -/
theorem refill_agrees {count : Nat} {first : Bytes} {later : List Bytes}
    (whole : (first :: later).flatten = data) (shown : count ≤ (first.take capacity).length) :
    count ≤ data.length ∧ data.take count = (first.take capacity).take count := by
  have inFirst : count ≤ first.length := Nat.le_trans shown (List.length_take_le' capacity first)
  have inBuffer : count ≤ capacity := Nat.le_trans shown (List.length_take_le capacity first)
  rw [← whole, List.flatten_cons, List.length_append, List.take_append_of_le_length inFirst,
    List.take_take, Nat.min_eq_left inBuffer]
  exact ⟨Nat.le_add_right_of_le inFirst, rfl⟩

/-- A read that succeeds has seen the whole handshake in the first chunk. -/
theorem readsTo_first {read : PeerSpec} (measured : measureSize data = .ok size)
    (whole : chunks.flatten = data) (reads : ReadsTo data size chunks read) :
    size ≤ (chunks.headD []).length := by
  obtain ⟨after, done, _⟩ := reads
  obtain ⟨seen, middle, seenSize, filled, inside, walked, _⟩ := readHandshake_walk done
  cases chunks with
  | nil =>
    cases filled
    cases walked
  | cons first later =>
    cases filled
    obtain ⟨long, same⟩ := refill_agrees whole inside
    have remeasured := walk_measured long (walk_agrees inside walked same)
    obtain rfl : seenSize = size := Except.ok.inj (remeasured.symm.trans measured)
    exact Nat.le_trans inside (List.length_take_le' capacity first)

/-- A handshake that fits into the buffer and into the first chunk is read. -/
theorem first_readsTo (measured : measureSize data = .ok size) (parsed : parse data = .ok spec)
    (small : size ≤ capacity) (nonempty : ∀ chunk ∈ chunks, chunk ≠ [])
    (whole : chunks.flatten = data) (inFirst : size ≤ (chunks.headD []).length) :
    ReadsTo data size chunks spec := by
  obtain ⟨inside, walkedSpec, walked⟩ := measured_walk measured
  obtain rfl : walkedSpec = spec := Except.ok.inj ((parse_ok walked).symm.trans parsed)
  cases chunks with
  | nil => exact absurd whole.symm (measured_nonempty measured)
  | cons first later =>
    have shown : size ≤ (first.take capacity).length := by
      rw [List.length_take]
      exact Nat.le_min_of_le_of_le small inFirst
    obtain ⟨_, same⟩ := refill_agrees whole shown
    obtain ⟨middle, filled, buffered, kept⟩ :=
      chunked_filled (nonempty first List.mem_cons_self) later
    refine ⟨middle.consume size, walk_readHandshake filled shown
      (walk_agrees inside walked same.symm), ?_⟩
    rw [contents_consume (by rw [buffered]; exact shown), kept, chunked_contents nonempty, whole]

end Segments

/-- For a stream that begins with a handshake of at most the buffer's size, and any two
ways of cutting it into nonempty chunks: both reads return the same specification and
stop just behind the handshake exactly if both first chunks hold all of it. -/
theorem handshake_segmentation {data : Bytes} {size : Nat} {spec : PeerSpec}
    {left right : List Bytes} (measured : measureSize data = .ok size)
    (parsed : parse data = .ok spec) (small : size ≤ capacity)
    (leftNonempty : ∀ chunk ∈ left, chunk ≠ []) (rightNonempty : ∀ chunk ∈ right, chunk ≠ [])
    (leftWhole : left.flatten = data) (rightWhole : right.flatten = data) :
    (∃ read, ReadsTo data size left read ∧ ReadsTo data size right read) ↔
      size ≤ (left.headD []).length ∧ size ≤ (right.headD []).length := by
  constructor
  · rintro ⟨read, leftReads, rightReads⟩
    exact ⟨readsTo_first measured leftWhole leftReads, readsTo_first measured rightWhole rightReads⟩
  · rintro ⟨leftFirst, rightFirst⟩
    exact ⟨spec, first_readsTo measured parsed small leftNonempty leftWhole leftFirst,
      first_readsTo measured parsed small rightNonempty rightWhole rightFirst⟩

/-- The shortest handshake, delivered whole or with a byte behind it. -/
theorem handshake_segmentation_shortest : ∃ read,
    ReadsTo (shortestHandshake ++ [7]) 8 [shortestHandshake ++ [7]] read ∧
      ReadsTo (shortestHandshake ++ [7]) 8 [shortestHandshake, [7]] read := by
  have measured : measureSize (shortestHandshake ++ [7]) = .ok 8 := by decide
  have parsed : parse (shortestHandshake ++ [7]) = .ok ⟨"", ⟨4, 0, 100⟩, "", none, []⟩ := by decide
  exact (handshake_segmentation measured parsed (by decide) (by decide) (by decide) rfl rfl).mpr
    (by decide)

/-- The read depends on the segmentation: a first chunk of one byte makes it fail. -/
theorem handshake_split_refused :
    ¬ ∀ data size spec left right, measureSize data = .ok size → parse data = .ok spec →
      size ≤ capacity → (∀ chunk ∈ left, chunk ≠ []) → (∀ chunk ∈ right, chunk ≠ []) →
      left.flatten = data → right.flatten = data →
      ∃ read, ReadsTo data size left read ∧ ReadsTo data size right read := by
  intro independent
  have measured : measureSize shortestHandshake = .ok 8 := by decide
  have parsed : parse shortestHandshake = .ok ⟨"", ⟨4, 0, 100⟩, "", none, []⟩ := by decide
  obtain ⟨read, _, reads⟩ := independent shortestHandshake 8 _ [shortestHandshake]
    [[0], [0, 4, 0, 100, 0, 0, 0]] measured parsed (by decide) (by decide) (by decide) rfl rfl
  have first := readsTo_first measured rfl reads
  exact absurd first (by decide)

end ErgoProxy.Connection
