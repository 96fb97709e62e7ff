import ErgoProxy.Transport.FrameCodec
import ErgoProxy.Transport.Handshake

/-!
# Connections over a buffered reader

A socket delivers its bytes in chunks, one for each successful read; a read of no
bytes is the end of the stream, and a read may also fail. The buffered reader
refills its buffer of 8192 bytes by one read, and only when the buffer is empty.
Frames are read by refilling as often as necessary, while `readHandshake` parses
whatever one refill has made visible and leaves the excess in the buffer.

Timers and writes are decided by the network. Their outcomes are arguments of
`inbound` and `outbound`, as the clock and the random number of `build` are.
-/

namespace ErgoProxy

open Handshake

/-- A buffered reader: the unread buffer and the outcomes of the socket's next reads. -/
structure BufReader where
  buffer : Bytes
  incoming : List (Except IoError Bytes)

namespace BufReader

/-- The size of the internal buffer. -/
def capacity : Nat := 8192

/-- The buffered bytes, after one read from the socket if there are none. A chunk
larger than the buffer is read in part. -/
def fillBuf : EStateM IoError BufReader Bytes
  | ⟨byte :: buffer, incoming⟩ => .ok (byte :: buffer) ⟨byte :: buffer, incoming⟩
  | ⟨[], []⟩ => .ok [] ⟨[], []⟩
  | ⟨[], .error problem :: later⟩ => .error problem ⟨[], later⟩
  | ⟨[], .ok chunk :: later⟩ =>
    .ok (chunk.take capacity) ⟨chunk.take capacity,
      if capacity < chunk.length then .ok (chunk.drop capacity) :: later else later⟩

/-- Drop bytes from the front of the buffer. -/
def consume (count : Nat) (reader : BufReader) : BufReader :=
  { reader with buffer := reader.buffer.drop count }

/-- The end of the stream inside a requested number of bytes. -/
def earlyEof : IoError := .custom .unexpectedEof "early eof"

/-- Gather a number of bytes, refilling whenever the buffer is empty. -/
def gather (count : Nat) : EStateM IoError BufReader Bytes := fun reader =>
  if count = 0 then .ok [] reader
  else
    match fillBuf reader with
    | .error problem after => .error problem after
    | .ok [] after => .error earlyEof after
    | .ok (byte :: available) after =>
      let taken := (byte :: available).take count
      match gather (count - taken.length) (after.consume taken.length) with
      | .error problem last => .error problem last
      | .ok rest last => .ok (taken ++ rest) last
termination_by count
decreasing_by
  simp only [List.length_take, List.length_cons]
  omega

/-- The bytes that the socket still delivers before it ends or fails. -/
def arriving : List (Except IoError Bytes) → Bytes
  | .ok (byte :: chunk) :: later => byte :: chunk ++ arriving later
  | _ => []

/-- All bytes that can still be read, in order. -/
def contents (reader : BufReader) : Bytes := reader.buffer ++ arriving reader.incoming

/-- A nonempty chunk arrives before the later ones. -/
theorem arriving_chunk {chunk : Bytes} (nonempty : chunk ≠ [])
    (later : List (Except IoError Bytes)) :
    arriving (.ok chunk :: later) = chunk ++ arriving later := by
  cases chunk with
  | nil => exact absurd rfl nonempty
  | cons byte chunk => rfl

/-- Bytes that arrive in nonempty chunks arrive in order and completely. -/
theorem arriving_chunks {chunks : List Bytes} (nonempty : ∀ chunk ∈ chunks, chunk ≠ []) :
    arriving (chunks.map .ok) = chunks.flatten := by
  induction chunks with
  | nil => rfl
  | cons chunk chunks inductionHypothesis =>
    rw [List.map_cons, arriving_chunk (nonempty chunk List.mem_cons_self), List.flatten_cons,
      inductionHypothesis fun other member => nonempty other (List.mem_cons_of_mem _ member)]

/-- A refill from a nonempty chunk keeps all bytes. -/
theorem contents_refilled {chunk : Bytes} (nonempty : chunk ≠ [])
    (later : List (Except IoError Bytes)) :
    contents ⟨chunk.take capacity,
        if capacity < chunk.length then .ok (chunk.drop capacity) :: later else later⟩ =
      contents ⟨[], .ok chunk :: later⟩ := by
  rw [contents, contents, arriving_chunk nonempty, List.nil_append]
  split
  case isTrue large =>
    have remaining : chunk.drop capacity ≠ [] := by
      intro nothing
      rw [List.drop_eq_nil_iff] at nothing
      omega
    rw [arriving_chunk remaining, ← List.append_assoc, List.take_append_drop]
  case isFalse small =>
    rw [List.take_of_length_le (Nat.le_of_not_lt small)]

/-- A refill shows unread bytes and loses none, or there are none left. -/
theorem fillBuf_cases (reader : BufReader) :
    (∃ byte available after, fillBuf reader = .ok (byte :: available) after ∧
        after.buffer = byte :: available ∧ after.contents = reader.contents) ∨
      reader.contents = [] ∧ ((∃ after, fillBuf reader = .ok [] after) ∨
        ∃ problem after, fillBuf reader = .error problem after) := by
  obtain ⟨buffer, incoming⟩ := reader
  cases buffer with
  | cons byte buffer => exact Or.inl ⟨byte, buffer, _, rfl, rfl, rfl⟩
  | nil =>
    cases incoming with
    | nil => exact Or.inr ⟨rfl, Or.inl ⟨_, rfl⟩⟩
    | cons outcome later =>
      cases outcome with
      | error problem => exact Or.inr ⟨rfl, Or.inr ⟨problem, _, rfl⟩⟩
      | ok chunk =>
        cases chunk with
        | nil => exact Or.inr ⟨rfl, Or.inl ⟨_, rfl⟩⟩
        | cons byte chunk =>
          exact Or.inl ⟨byte, chunk.take 8191, _, rfl, rfl,
            contents_refilled (List.cons_ne_nil byte chunk) later⟩

/-- Consuming buffered bytes drops them from the contents. -/
theorem contents_consume {reader : BufReader} {count : Nat}
    (buffered : count ≤ reader.buffer.length) :
    (reader.consume count).contents = reader.contents.drop count := by
  rw [contents, contents, consume, List.drop_append_of_le_length buffered]

/-- One round of gathering: some bytes are taken from the front of the contents, and
gathering continues with the rest. -/
theorem gather_round {count : Nat} {reader : BufReader} (positive : count ≠ 0)
    (unread : reader.contents ≠ []) :
    ∃ taken middle, 0 < taken ∧ taken ≤ count ∧ taken ≤ reader.contents.length ∧
      middle.contents = reader.contents.drop taken ∧
      gather count reader = match gather (count - taken) middle with
        | .error problem last => .error problem last
        | .ok rest last => .ok (reader.contents.take taken ++ rest) last := by
  rcases fillBuf_cases reader with ⟨byte, available, after, filled, buffered, kept⟩ | ⟨nothing, _⟩
  · have length : ((byte :: available).take count).length ≤ (byte :: available).length :=
      List.length_take_le' _ _
    have visible : reader.contents = (byte :: available) ++ arriving after.incoming := by
      rw [← kept, contents, buffered]
    have front : reader.contents.take ((byte :: available).take count).length =
        (byte :: available).take count := by
      rw [visible, List.take_append_of_le_length length, List.length_take, List.take_eq_take_min]
      simp
    refine ⟨((byte :: available).take count).length,
      after.consume ((byte :: available).take count).length, ?_, List.length_take_le _ _, ?_, ?_, ?_⟩
    · rw [List.length_take, List.length_cons]
      omega
    · rw [visible, List.length_append]
      omega
    · rw [← kept]
      exact contents_consume (by rw [buffered]; exact length)
    · rw [gather, if_neg positive, filled, front]
  · exact absurd nothing unread

/-- Bytes that are left are gathered in order. -/
theorem gather_enough {count : Nat} {reader : BufReader}
    (enough : count ≤ reader.contents.length) :
    ∃ after, gather count reader = .ok (reader.contents.take count) after ∧
      after.contents = reader.contents.drop count := by
  induction count using Nat.strongRecOn generalizing reader with
  | ind count inductionHypothesis =>
    by_cases nothing : count = 0
    · subst nothing
      exact ⟨reader, by rw [gather, if_pos rfl]; rfl, rfl⟩
    · have unread : reader.contents ≠ [] := by
        intro empty
        rw [empty] at enough
        exact nothing (Nat.le_zero.mp enough)
      obtain ⟨taken, middle, positive, within, present, left, round⟩ := gather_round nothing unread
      have remaining : count - taken ≤ middle.contents.length := by
        rw [left, List.length_drop]
        omega
      obtain ⟨after, gathered, last⟩ := inductionHypothesis (count - taken) (by omega) remaining
      have whole : taken + (count - taken) = count := by omega
      refine ⟨after, ?_, ?_⟩
      · rw [round, gathered, left]
        simp only [← List.take_add, whole]
      · rw [last, left, List.drop_drop, whole]

/-- Gathering more bytes than are left fails. -/
theorem gather_short {count : Nat} {reader : BufReader}
    (short : reader.contents.length < count) :
    ∃ problem after, gather count reader = .error problem after := by
  induction count using Nat.strongRecOn generalizing reader with
  | ind count inductionHypothesis =>
    have positive : count ≠ 0 := by omega
    by_cases unread : reader.contents = []
    · rcases fillBuf_cases reader with ⟨byte, available, after, _, buffered, kept⟩ |
        ⟨_, ⟨after, ended⟩ | ⟨problem, after, failed⟩⟩
      · rw [unread, contents, buffered] at kept
        simp at kept
      · exact ⟨earlyEof, after, by rw [gather, if_neg positive, ended]⟩
      · exact ⟨problem, after, by rw [gather, if_neg positive, failed]⟩
    · obtain ⟨taken, middle, some, within, present, left, round⟩ := gather_round positive unread
      have remaining : middle.contents.length < count - taken := by
        rw [left, List.length_drop]
        omega
      obtain ⟨problem, after, failed⟩ := inductionHypothesis (count - taken) (by omega) remaining
      exact ⟨problem, after, by rw [round, failed]⟩

/-- Gathering returns as many bytes as requested. -/
theorem gather_length {count : Nat} {reader after : BufReader} {bytes : Bytes}
    (done : gather count reader = .ok bytes after) : bytes.length = count := by
  by_cases enough : count ≤ reader.contents.length
  · obtain ⟨last, gathered, _⟩ := gather_enough enough
    rw [gathered] at done
    cases done
    exact List.length_take_of_le enough
  · obtain ⟨problem, last, failed⟩ := gather_short (Nat.lt_of_not_le enough)
    cases failed.symm.trans done

/-- Fill a buffer of a given size. -/
def readExact (count : Nat) : EStateM IoError BufReader (Vector UInt8 count) := fun reader =>
  match done : gather count reader with
  | .error problem after => .error problem after
  | .ok bytes after => .ok ⟨bytes.toArray, by simpa using gather_length done⟩ after

/-- Buffers are filled from the contents in order and without loss. -/
theorem filling : Frame.Filling readExact contents where
  enough := by
    intro count reader enough
    obtain ⟨after, gathered, left⟩ := gather_enough enough
    unfold readExact
    split
    case h_1 problem last failed => cases gathered.symm.trans failed
    case h_2 bytes last done =>
      cases gathered.symm.trans done
      exact ⟨_, after, rfl, rfl, left⟩
  short := by
    intro count reader short
    obtain ⟨problem, after, failed⟩ := gather_short short
    unfold readExact
    split
    case h_1 other last refused => exact ⟨other, last, rfl⟩
    case h_2 bytes last done => cases failed.symm.trans done

end BufReader

/-- A connection with completed handshake: the reader, what has been written, the
network's magic and the peer's specification. -/
structure Connection where
  reader : BufReader
  written : Bytes
  magic : Vector UInt8 4
  peerSpec : PeerSpec

/-- What the surroundings decide during a handshake: the clock and the random number
for our own handshake, whether the timer fires before the peer's has been read, and
the outcome of writing ours. -/
structure Surroundings where
  now : UInt64
  sessionId : UInt64
  timedOut : Bool
  writeOutcome : Except IoError Unit

namespace Connection

/-- Read a handshake from a buffered reader: parse what one refill shows and consume
the measured size. -/
def readHandshake : EStateM IoError BufReader PeerSpec := do
  let buf ← BufReader.fillBuf
  if buf = [] then
    throw (.custom .connectionReset "Empty handshake")
  else
    let spec ← MonadExcept.ofExcept (parse buf)
    let consumed ← MonadExcept.ofExcept (measureSize buf)
    modify (BufReader.consume consumed)
    pure spec

/-- Read and validate the peer's handshake, within the time limit. -/
def receiveHandshake (config : HandshakeConfig) (surroundings : Surroundings) :
    EStateM IoError BufReader PeerSpec := do
  if surroundings.timedOut then
    throw (.custom .timedOut "Handshake timeout")
  else
    let spec ← readHandshake
    match validatePeer spec config.network with
    | .error text => throw (.custom .invalidData text)
    | .ok () => pure spec

/-- Accept a connection: receive the peer's handshake first, then send ours. -/
def inbound (config : HandshakeConfig) (surroundings : Surroundings) (reader : BufReader) :
    Except IoError Connection :=
  match receiveHandshake config surroundings reader with
  | .error problem _ => .error problem
  | .ok peerSpec reader => do
    surroundings.writeOutcome
    .ok { reader, written := build config surroundings.now surroundings.sessionId,
          magic := config.network.magic, peerSpec }

/-- Open a connection: send our handshake first, then receive the peer's. -/
def outbound (config : HandshakeConfig) (surroundings : Surroundings) (reader : BufReader) :
    Except IoError Connection := do
  surroundings.writeOutcome
  match receiveHandshake config surroundings reader with
  | .error problem _ => .error problem
  | .ok peerSpec reader =>
    .ok { reader, written := build config surroundings.now surroundings.sessionId,
          magic := config.network.magic, peerSpec }

end Connection

end ErgoProxy
