import ErgoProxy.Transport.Connection

/-!
# Slices and streams of frames

The two decoders of the source are compared on every input. The slice decoder never
evaluates a slice or an index out of range: written with partial slicing, where such
an evaluation has no value, it has the value of the total one on every input. The
stream decoder accepts what the slice decoder accepts of the stream's contents and
stops right behind the frame, so that a sequence of written frames is read back one
by one and nothing behind it is touched.
-/

namespace ErgoProxy.Frame

open Cursor ExactReaders

/-- A subslice as it is evaluated: bounds that are out of order or out of range have no
value. -/
def evaluateSlice (data : Bytes) (start stop : Nat) : Option Bytes :=
  if start ≤ stop ∧ stop ≤ data.length then some ((data.drop start).take (stop - start)) else none

/-- A subslice in range is evaluated to its bytes. -/
theorem evaluateSlice_inRange {data : Bytes} {start stop : Nat}
    (inRange : start ≤ stop ∧ stop ≤ data.length) :
    evaluateSlice data start stop = some (slice data start stop inRange) := if_pos inRange

section Codec

variable (blake2b256 : Bytes → Vector UInt8 32)

/-- The text of `decode` once more, with partial slices: where `decode` takes a slice or an index
with a proof that it is in range, it is evaluated in place here, and no value at all stands for a
panic. The comments name the slices of the source. -/
def evaluateDecode (magic : Vector UInt8 4) (data : Bytes) : Option (Except IoError Frame) :=
  if data.length < headerSize then
    some (.error (.custom .invalidData
      s!"Frame too short: {data.length} bytes (need at least {headerSize})"))
  else do
    let front ← evaluateSlice data 0 4 -- data[0..4]
    if front ≠ magic.toList then
      some (.error (.custom .invalidData s!"Bad magic: {front} (expected {magic.toList})"))
    else
      let code ← data[4]?
      -- the four indices of `body_len`
      let first ← data[5]?
      let second ← data[6]?
      let third ← data[7]?
      let fourth ← data[8]?
      let bodyLen := fromBeBytes first second third fourth
      if maxBodySize < bodyLen then
        some (.error (.custom .invalidData s!"Body too large: {bodyLen} bytes (max {maxBodySize})"))
      else
        let expectedTotal := headerSize + bodyLen.toNat
        if data.length < expectedTotal then
          some (.error (.custom .invalidData
            s!"Frame truncated: have {data.length} bytes, need {expectedTotal}"))
        else
          let sum ← evaluateSlice data 9 13 -- data[9..13]
          let body ← evaluateSlice data headerSize expectedTotal -- data[HEADER_SIZE..expected_total]
          if checksum blake2b256 body ≠ sum then
            some (.error (.custom .invalidData "Checksum mismatch"))
          else some (.ok { code, body })

/-- No slice and no index of the decoder is out of range: the bound of each follows from the
length checks before it. -/
theorem decode_evaluates (magic : Vector UInt8 4) (data : Bytes) :
    evaluateDecode blake2b256 magic data = some (decode blake2b256 magic data) := by
  by_cases short : data.length < headerSize
  · rw [evaluateDecode, decode, if_pos short, dif_pos short]
  · have header : 13 ≤ data.length := Nat.le_of_not_lt short
    have front : 0 ≤ 4 ∧ 4 ≤ data.length := ⟨by omega, by omega⟩
    rw [evaluateDecode, decode, if_neg short, dif_neg short, evaluateSlice_inRange front,
      Option.bind_eq_bind, Option.bind_some]
    by_cases sameMagic : slice data 0 4 front = magic.toList
    · rw [if_neg (not_not.mpr sameMagic), if_neg (not_not.mpr sameMagic),
        List.getElem?_eq_getElem (show 4 < data.length by omega),
        List.getElem?_eq_getElem (show 5 < data.length by omega),
        List.getElem?_eq_getElem (show 6 < data.length by omega),
        List.getElem?_eq_getElem (show 7 < data.length by omega),
        List.getElem?_eq_getElem (show 8 < data.length by omega),
        Option.bind_eq_bind, Option.bind_some, Option.bind_some, Option.bind_some,
        Option.bind_some, Option.bind_some]
      by_cases large : maxBodySize < fromBeBytes data[5] data[6] data[7] data[8]
      · simp only [if_pos large]
      · simp only [if_neg large]
        by_cases truncated : data.length <
            headerSize + (fromBeBytes data[5] data[6] data[7] data[8]).toNat
        · simp only [if_pos truncated, dif_pos truncated]
        · have checked : 9 ≤ 13 ∧ 13 ≤ data.length := ⟨by omega, header⟩
          simp only [if_neg truncated, dif_neg truncated, evaluateSlice_inRange checked,
            evaluateSlice_inRange ⟨Nat.le_add_right _ _, Nat.le_of_not_lt truncated⟩,
            Option.bind_some]
          exact (apply_ite some _ _ _).symm
    · rw [if_pos sameMagic, if_pos sameMagic]

/-- An encoding is the header and the body. -/
theorem encode_length (magic : Vector UInt8 4) (frame : Frame) :
    (encode blake2b256 magic frame).length = 13 + frame.body.length := by
  obtain ⟨m₀, m₁, m₂, m₃, l₀, l₁, l₂, l₃, s₀, s₁, s₂, s₃, _, _, _, encoded⟩ :=
    encode_header blake2b256 magic frame
  rw [encoded]
  simp only [List.length_cons]
  omega

/-- The slice codec: decoding yields a frame exactly if its body is admissible and the data
begins with its encoding. It undoes encoding, is undone by it, and never leaves the range of
its data. -/
theorem slice_codec (magic : Vector UInt8 4) (data : Bytes) (frame : Frame) :
    (decode blake2b256 magic data = .ok frame ↔
      frame.body.length ≤ 262144 ∧ encode blake2b256 magic frame <+: data) ∧
    (frame.body.length ≤ 262144 →
      decode blake2b256 magic (encode blake2b256 magic frame) = .ok frame) ∧
    (decode blake2b256 magic data = .ok frame →
      encode blake2b256 magic frame = data.take (13 + frame.body.length)) ∧
    evaluateDecode blake2b256 magic data = some (decode blake2b256 magic data) := by
  refine ⟨?_, ?_, ?_, decode_evaluates blake2b256 magic data⟩
  · rw [decode_exact, maxBodySize_value]
    simp only [List.IsPrefix, @eq_comm _ data]
  · intro small
    exact (decode_exact blake2b256 magic _ frame).mpr ⟨small, [], (List.append_nil _).symm⟩
  · intro decoded
    obtain ⟨_, tail, rfl⟩ := (decode_exact blake2b256 magic data frame).mp decoded
    rw [← encode_length blake2b256 magic frame, List.take_left]

variable {R : Type} {fill : (count : Nat) → EStateM IoError R (Vector UInt8 count)}
  {contents : R → Bytes}

/-- A body that was read is the front of the contents, and the rest is left. -/
theorem body_front (filling : Filling fill contents) {bodyLen : UInt32} {body : Bytes}
    {reader after : R} (read : readBody fill bodyLen reader = .ok body after) :
    contents reader = body ++ contents after := by
  unfold readBody at read
  split at read
  case isTrue =>
    obtain ⟨filled, last, done, finished⟩ := (bind_ok _ _ _ _ _).mp read
    cases finished
    exact filled_front filling done
  case isFalse =>
    cases read
    rfl

/-- A frame that was read is what the slice decoder finds in the contents, and what is left is
what lies behind it. -/
theorem readFrame_decoded (filling : Filling fill contents) {magic : Vector UInt8 4}
    {frame : Frame} {reader after : R}
    (read : readFrame blake2b256 fill magic reader = .ok frame after) :
    decode blake2b256 magic (contents reader) = .ok frame ∧
      contents reader = encode blake2b256 magic frame ++ contents after := by
  obtain ⟨header, middle, filled, _⟩ := (bind_ok _ _ _ _ _).mp read
  obtain ⟨sameMagic, bounded, body, bodyRead, checked, rfl⟩ :=
    (readFrame_ok blake2b256 filled).mp read
  have long : headerSize ≤ header.toList.length := header.length_toList.ge
  obtain ⟨m₀, m₁, m₂, m₃, code, l₀, l₁, l₂, l₃, s₀, s₁, s₂, s₃, rest, bytes⟩ := header_bytes long
  obtain rfl : rest = [] := by
    have counted := congrArg List.length bytes
    rw [header.length_toList] at counted
    simp only [List.length_cons] at counted
    exact List.eq_nil_of_length_eq_zero (by omega)
  obtain rfl : header = #v[m₀, m₁, m₂, m₃, code, l₀, l₁, l₂, l₃, s₀, s₁, s₂, s₃] :=
    Vector.toList_inj.mp bytes
  have length : body.length = (fromBeBytes l₀ l₁ l₂ l₃).toNat := readBody_length bodyRead
  have front : contents reader = [m₀, m₁, m₂, m₃, code, l₀, l₁, l₂, l₃, s₀, s₁, s₂, s₃] ++
      (body ++ contents after) := by
    rw [filled_front filling filled, body_front filling bodyRead]
    rfl
  have decoded : decode blake2b256 magic (contents reader) = .ok ⟨code, body⟩ := by
    rw [front]
    refine (decode_header blake2b256 magic _ _ _ _ _ _ _ _ _ _ _ _ _ (body ++ contents after) _).mpr
      ⟨sameMagic, bounded, ?_, ?_, checked⟩
    · rw [List.length_append, length]
      omega
    · rw [← length, List.take_left]
  refine ⟨decoded, ?_⟩
  obtain ⟨_, tail, split⟩ := (decode_exact blake2b256 magic _ _).mp decoded
  have sameLength : ([m₀, m₁, m₂, m₃, code, l₀, l₁, l₂, l₃, s₀, s₁, s₂, s₃] ++ body).length =
      (encode blake2b256 magic ⟨code, body⟩).length := by
    rw [encode_length, List.length_append]
    rfl
  rw [split, ← List.append_assoc] at front
  obtain ⟨_, behind⟩ := List.append_inj front sameLength.symm
  rw [split, behind]
  rfl

/-- Read a number of frames, one after the other. -/
def readFrames (fill : (count : Nat) → EStateM IoError R (Vector UInt8 count))
    (magic : Vector UInt8 4) : Nat → EStateM IoError R (List Frame)
  | 0 => pure []
  | count + 1 => do
    let frame ← readFrame blake2b256 fill magic
    let frames ← readFrames fill magic count
    pure (frame :: frames)

/-- Write frames to a writer, one after the other. -/
def writeFrames (sent : Bytes) (magic : Vector UInt8 4) (frames : List Frame) : Bytes :=
  frames.foldl (fun sent frame => writeFrame blake2b256 sent magic frame) sent

/-- Written frames are their encodings in order. -/
theorem writeFrames_encodings (sent : Bytes) (magic : Vector UInt8 4) (frames : List Frame) :
    writeFrames blake2b256 sent magic frames =
      sent ++ frames.flatMap (encode blake2b256 magic) := by
  induction frames generalizing sent with
  | nil => exact (List.append_nil sent).symm
  | cons frame frames inductionHypothesis =>
    rw [writeFrames, List.foldl_cons]
    change writeFrames blake2b256 _ magic frames = _
    rw [inductionHypothesis, writeFrame, List.flatMap_cons, List.append_assoc]

/-- The encodings of admissible frames are read back in order, and what lies behind them is
left. Induct over the frames: each read stops where the next encoding starts. -/
theorem readFrames_encodings (filling : Filling fill contents) (magic : Vector UInt8 4)
    (frames : List Frame) (small : ∀ frame ∈ frames, frame.body.length ≤ 262144) (tail : Bytes)
    (reader : R) (buffered : contents reader = frames.flatMap (encode blake2b256 magic) ++ tail) :
    ∃ after, readFrames blake2b256 fill magic frames.length reader = .ok frames after ∧
      contents after = tail := by
  induction frames generalizing reader with
  | nil => exact ⟨reader, rfl, buffered⟩
  | cons frame frames inductionHypothesis =>
    rw [List.flatMap_cons, List.append_assoc] at buffered
    obtain ⟨middle, first, left⟩ :=
      readFrame_encoded blake2b256 filling (small frame List.mem_cons_self) buffered
    obtain ⟨after, others, behind⟩ := inductionHypothesis
      (fun other member => small other (List.mem_cons_of_mem _ member)) middle left
    refine ⟨after, ?_, behind⟩
    rw [List.length_cons, readFrames, bind_of_ok first, bind_of_ok others]
    rfl

/-- The stream codec: over any reader that fills buffers from its contents, a frame is read
exactly if the slice decoder finds it in the contents, and then precisely the header and the
body are consumed. Frames with admissible bodies that were written one after the other are
read back as that list, and what follows them is left unread. -/
theorem stream_codec (filling : Filling fill contents) (magic : Vector UInt8 4) :
    (∀ reader frame, (∃ after, readFrame blake2b256 fill magic reader = .ok frame after) ↔
      decode blake2b256 magic (contents reader) = .ok frame) ∧
    (∀ reader frame after, readFrame blake2b256 fill magic reader = .ok frame after →
      13 + frame.body.length ≤ (contents reader).length ∧
        contents after = (contents reader).drop (13 + frame.body.length)) ∧
    ∀ frames tail reader, (∀ frame ∈ frames, frame.body.length ≤ 262144) →
      contents reader = writeFrames blake2b256 [] magic frames ++ tail →
        ∃ after, readFrames blake2b256 fill magic frames.length reader = .ok frames after ∧
          contents after = tail := by
  refine ⟨?_, ?_, ?_⟩
  · intro reader frame
    constructor
    · rintro ⟨after, read⟩
      exact (readFrame_decoded blake2b256 filling read).1
    · intro decoded
      obtain ⟨small, tail, buffered⟩ := (decode_exact blake2b256 magic _ frame).mp decoded
      obtain ⟨after, read, _⟩ := readFrame_encoded blake2b256 filling small buffered
      exact ⟨after, read⟩
  · intro reader frame after read
    obtain ⟨_, split⟩ := readFrame_decoded blake2b256 filling read
    rw [split, ← encode_length blake2b256 magic frame, List.drop_left, List.length_append]
    exact ⟨Nat.le_add_right _ _, rfl⟩
  · intro frames tail reader small buffered
    rw [writeFrames_encodings, List.nil_append] at buffered
    exact readFrames_encodings blake2b256 filling magic frames small tail reader buffered

/-- Two empty frames arrive through a buffered reader in one chunk, with one byte behind
them. -/
theorem stream_codec_two :
    ∃ after, readFrames (fun _ => emptyDigest) BufReader.readExact #v[1, 0, 2, 4] 2
        ⟨[], [.ok (writeFrames (fun _ => emptyDigest) [] #v[1, 0, 2, 4]
          [⟨1, []⟩, ⟨2, []⟩] ++ [7])]⟩ =
      .ok [⟨1, []⟩, ⟨2, []⟩] after ∧ after.contents = [7] :=
  (stream_codec (fun _ => emptyDigest) BufReader.filling #v[1, 0, 2, 4]).2.2
    [⟨1, []⟩, ⟨2, []⟩] [7] _ (by simp) rfl

/-- A decoded frame is shorter than the data it was decoded from. -/
theorem decode_shortens {magic : Vector UInt8 4} {stream : Bytes} {frame : Frame}
    (decoded : decode blake2b256 magic stream = .ok frame) :
    (stream.drop (headerSize + frame.body.length)).length < stream.length := by
  obtain ⟨_, tail, rfl⟩ := (decode_exact blake2b256 magic stream frame).mp decoded
  rw [List.length_drop, List.length_append, encode_length, headerSize]
  omega

/-- The frames of a byte stream, up to the first place at which none can be decoded. -/
def streamFrames (magic : Vector UInt8 4) (stream : Bytes) : List Frame :=
  match _ : decode blake2b256 magic stream with
  | .error _ => []
  | .ok frame => frame :: streamFrames magic (stream.drop (headerSize + frame.body.length))
termination_by stream.length
decreasing_by exact decode_shortens blake2b256 ‹_›

/-- The frames of a stream have admissible bodies. -/
theorem streamFrames_bounded {magic : Vector UInt8 4} {stream : Bytes} {frame : Frame}
    (member : frame ∈ streamFrames blake2b256 magic stream) :
    frame.body.length ≤ maxBodySize.toNat := by
  fun_induction streamFrames blake2b256 magic stream with
  | case1 => cases member
  | case2 stream first decoded inductionHypothesis =>
    rcases List.mem_cons.mp member with rfl | later
    · exact ((decode_exact blake2b256 magic stream frame).mp decoded).1
    · exact inductionHypothesis later

/-- Where no frame can be decoded the stream has none. -/
theorem streamFrames_stuck {magic : Vector UInt8 4} {stream : Bytes}
    (stuck : ∀ frame, decode blake2b256 magic stream ≠ .ok frame) :
    streamFrames blake2b256 magic stream = [] := by
  rw [streamFrames]
  split
  case h_1 => rfl
  case h_2 frame decoded => exact (stuck frame decoded).elim

/-- An empty stream has no frames. -/
theorem streamFrames_nil (magic : Vector UInt8 4) : streamFrames blake2b256 magic [] = [] :=
  streamFrames_stuck blake2b256 fun _ decoded =>
    Nat.not_lt_zero _ (decode_shortens blake2b256 decoded)

/-- An encoded frame is the first frame of the stream. -/
theorem streamFrames_encoded (magic : Vector UInt8 4) {frame : Frame}
    (small : frame.body.length ≤ maxBodySize.toNat) (tail : Bytes) :
    streamFrames blake2b256 magic (encode blake2b256 magic frame ++ tail) =
      frame :: streamFrames blake2b256 magic tail := by
  have front : decode blake2b256 magic (encode blake2b256 magic frame ++ tail) = .ok frame :=
    (decode_exact blake2b256 magic _ frame).mpr ⟨small, tail, rfl⟩
  have length : headerSize + frame.body.length = (encode blake2b256 magic frame).length :=
    (encode_length blake2b256 magic frame).symm
  rw [streamFrames]
  split
  case h_1 problem failed => cases failed.symm.trans front
  case h_2 other decoded =>
    cases decoded.symm.trans front
    rw [length, List.drop_left]

/-- A frame that is read is the first one of the stream, and the others are left. -/
theorem streamFrames_read (filling : Filling fill contents) {magic : Vector UInt8 4}
    {frame : Frame} {reader after : R}
    (read : readFrame blake2b256 fill magic reader = .ok frame after) :
    streamFrames blake2b256 magic (contents reader) =
      frame :: streamFrames blake2b256 magic (contents after) := by
  obtain ⟨decoded, front⟩ := readFrame_decoded blake2b256 filling read
  obtain ⟨small, _⟩ := (decode_exact blake2b256 magic _ frame).mp decoded
  rw [front, streamFrames_encoded blake2b256 magic small]

/-- Where no frame can be read the stream has none. -/
theorem streamFrames_failed (filling : Filling fill contents) {magic : Vector UInt8 4}
    {problem : IoError} {reader after : R}
    (failed : readFrame blake2b256 fill magic reader = .error problem after) :
    streamFrames blake2b256 magic (contents reader) = [] := by
  apply streamFrames_stuck
  intro frame decoded
  obtain ⟨small, tail, front⟩ := (decode_exact blake2b256 magic _ frame).mp decoded
  obtain ⟨_, read, _⟩ := readFrame_encoded blake2b256 filling small front
  cases failed.symm.trans read

/-- Encoded frames are the first frames of the stream, in order. -/
theorem streamFrames_encodings (magic : Vector UInt8 4) {frames : List Frame}
    (small : ∀ frame ∈ frames, frame.body.length ≤ maxBodySize.toNat) (tail : Bytes) :
    streamFrames blake2b256 magic (frames.flatMap (encode blake2b256 magic) ++ tail) =
      frames ++ streamFrames blake2b256 magic tail := by
  induction frames with
  | nil => rfl
  | cons frame frames inductionHypothesis =>
    rw [List.flatMap_cons, List.append_assoc,
      streamFrames_encoded blake2b256 magic (small frame List.mem_cons_self),
      inductionHypothesis fun other member => small other (List.mem_cons_of_mem _ member)]
    rfl

/-- An encoding that was cut off holds no frame: its frame would be the one that was encoded. -/
theorem streamFrames_cut (magic : Vector UInt8 4) {frame : Frame}
    (small : frame.body.length ≤ maxBodySize.toNat) {part : Bytes}
    (initial : part <+: encode blake2b256 magic frame)
    (strict : part ≠ encode blake2b256 magic frame) :
    streamFrames blake2b256 magic part = [] := by
  apply streamFrames_stuck
  intro other decoded
  obtain ⟨missing, whole⟩ := initial
  obtain ⟨bounded, tail, split⟩ := (decode_exact blake2b256 magic part other).mp decoded
  have first : decode blake2b256 magic (encode blake2b256 magic frame) = .ok other :=
    (decode_exact blake2b256 magic _ other).mpr
      ⟨bounded, tail ++ missing, by rw [← whole, split, List.append_assoc]⟩
  have same : decode blake2b256 magic (encode blake2b256 magic frame) = .ok frame :=
    (decode_exact blake2b256 magic _ frame).mpr ⟨small, [], (List.append_nil _).symm⟩
  cases first.symm.trans same
  have counted := congrArg List.length whole
  rw [split, List.length_append, List.length_append] at counted
  have nothing : missing = [] := List.eq_nil_of_length_eq_zero (by omega)
  rw [nothing, List.append_nil] at whole
  exact strict whole

/-- A stream that was cut off holds the frames whose encodings are complete. -/
theorem streamFrames_prefix (magic : Vector UInt8 4) {frames : List Frame}
    (small : ∀ frame ∈ frames, frame.body.length ≤ maxBodySize.toNat) {stream : Bytes}
    (initial : stream <+: frames.flatMap (encode blake2b256 magic)) :
    streamFrames blake2b256 magic stream <+: frames := by
  induction frames generalizing stream with
  | nil =>
    obtain rfl := List.prefix_nil.mp initial
    exact ⟨[], by rw [List.append_nil, streamFrames_nil]⟩
  | cons frame frames inductionHypothesis =>
    have bounded := small frame List.mem_cons_self
    rw [List.flatMap_cons] at initial
    by_cases complete : encode blake2b256 magic frame <+: stream
    · obtain ⟨more, rfl⟩ := complete
      rw [streamFrames_encoded blake2b256 magic bounded]
      exact (List.prefix_cons_inj frame).mpr
        (inductionHypothesis (fun other member => small other (List.mem_cons_of_mem _ member))
          ((List.prefix_append_right_inj _).mp initial))
    · have cut : stream <+: encode blake2b256 magic frame :=
        (List.prefix_or_prefix_of_prefix initial (List.prefix_append _ _)).resolve_right complete
      rw [streamFrames_cut blake2b256 magic bounded cut
        fun whole => complete (whole ▸ List.prefix_refl _)]
      exact List.nil_prefix

end Codec

end ErgoProxy.Frame
