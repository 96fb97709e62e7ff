import ErgoProxy.Protocol.Peer
import ErgoProxy.Transport.Connection

/-!
# The task that serves one peer

`run_peer` registers the peer, reports it, offers a queue for outgoing frames, reads
frames until the stream fails, and then undoes what it did. Between two of its
atomic actions other tasks may run, so it is a machine over program points: a step
performs at most one action on what is shared with the other tasks. Whether the
receiver of the event channel still exists is an argument of the step; an event
sent to a dropped receiver is lost and ends the reader loop.

A task comes to its end by itself once the stream does: every step lowers
`remaining`, since every frame takes its header from the bytes that still arrive.
-/

namespace ErgoProxy

open Handshake

/-- An action of a peer's task on what it shares with other tasks. -/
inductive TaskEffect where
  | registerPeer (peerId : PeerId) (direction : Direction) (mode : ProxyMode)
  | event (event : ProtocolEvent)
  | insertSender (peerId : PeerId)
  | spawnWriter (peerId : PeerId)
  | removeSender (peerId : PeerId)
  | abortWriter (peerId : PeerId)
  deriving DecidableEq

/-- Program points, in the order in which they are passed. -/
inductive PeerPoint where
  | registering
  | connecting
  | inserting
  | spawning
  | reading
  | removing
  | aborting
  | disconnecting
  | finished
  deriving DecidableEq

/-- A peer's task: its arguments, the reading half of its connection and its point. -/
structure PeerTask where
  peerId : PeerId
  direction : Direction
  mode : ProxyMode
  spec : PeerSpec
  magic : Vector UInt8 4
  reader : BufReader
  point : PeerPoint

namespace PeerTask

/-- The task of a connection, before its first action. -/
def start (peerId : PeerId) (conn : Connection) (direction : Direction) (mode : ProxyMode) :
    PeerTask where
  peerId := peerId
  direction := direction
  mode := mode
  spec := conn.peerSpec
  magic := conn.magic
  reader := conn.reader
  point := .registering

/-- Send an event, which arrives if the channel's receiver exists. -/
def send (listening : Bool) (event : ProtocolEvent) : List TaskEffect :=
  if listening then [.event event] else []

section Steps

variable (blake2b256 : Bytes → Vector UInt8 32)

/-- One round of the reader loop: a frame that cannot be parsed is skipped; a failed
read and a dropped receiver end the loop. -/
def readRound (listening : Bool) (task : PeerTask) : List TaskEffect × PeerTask :=
  match Frame.readFrame blake2b256 BufReader.readExact task.magic task.reader with
  | .error _ reader => ([], { task with reader, point := .removing })
  | .ok frame reader =>
    match ProtocolMessage.fromFrame frame with
    | .error _ => ([], { task with reader })
    | .ok message =>
      (send listening (.message task.peerId message),
        { task with reader, point := if listening then .reading else .removing })

/-- The next action of a task, unless it has finished. -/
def step (listening : Bool) (task : PeerTask) : Option (List TaskEffect × PeerTask) :=
  match task.point with
  | .registering => some ([.registerPeer task.peerId task.direction task.mode],
      { task with point := .connecting })
  | .connecting => some (send listening (.peerConnected task.peerId task.spec task.direction),
      { task with point := .inserting })
  | .inserting => some ([.insertSender task.peerId], { task with point := .spawning })
  | .spawning => some ([.spawnWriter task.peerId], { task with point := .reading })
  | .reading => some (readRound blake2b256 listening task)
  | .removing => some ([.removeSender task.peerId], { task with point := .aborting })
  | .aborting => some ([.abortWriter task.peerId], { task with point := .disconnecting })
  | .disconnecting => some (send listening (.peerDisconnected task.peerId "connection closed"),
      { task with point := .finished })
  | .finished => none

section Rounds

variable (listening : Bool) {task : PeerTask} {frame : Frame} {reader : BufReader}

/-- A round whose frame can be parsed sends one event. -/
theorem readRound_reported {message : ProtocolMessage}
    (read : Frame.readFrame blake2b256 BufReader.readExact task.magic task.reader =
      .ok frame reader) (parsed : ProtocolMessage.fromFrame frame = .ok message) :
    readRound blake2b256 listening task = (send listening (.message task.peerId message),
      { task with reader, point := if listening then .reading else .removing }) := by
  simp only [readRound, read, parsed]

/-- A round whose frame cannot be parsed only moves the reader. -/
theorem readRound_skipped {problem : IoError}
    (read : Frame.readFrame blake2b256 BufReader.readExact task.magic task.reader =
      .ok frame reader) (parsed : ProtocolMessage.fromFrame frame = .error problem) :
    readRound blake2b256 listening task = ([], { task with reader }) := by
  simp only [readRound, read, parsed]

/-- A round whose read fails leaves the loop. -/
theorem readRound_failed {problem : IoError}
    (read : Frame.readFrame blake2b256 BufReader.readExact task.magic task.reader =
      .error problem reader) :
    readRound blake2b256 listening task = ([], { task with reader, point := .removing }) := by
  simp only [readRound, read]

end Rounds

/-- Every step of a task while the receiver of the event channel exists, with the point
at which it is taken. The points follow one another; only the reader loop stays where it
is, for every frame that it reads. -/
inductive Move (task : PeerTask) : List TaskEffect → PeerTask → Prop where
  | register (here : task.point = .registering) :
      Move task [.registerPeer task.peerId task.direction task.mode]
        { task with point := .connecting }
  | connect (here : task.point = .connecting) :
      Move task [.event (.peerConnected task.peerId task.spec task.direction)]
        { task with point := .inserting }
  | insert (here : task.point = .inserting) :
      Move task [.insertSender task.peerId] { task with point := .spawning }
  | spawn (here : task.point = .spawning) :
      Move task [.spawnWriter task.peerId] { task with point := .reading }
  | report (reader : BufReader) (message : ProtocolMessage) (here : task.point = .reading) :
      Move task [.event (.message task.peerId message)] { task with reader }
  | skip (reader : BufReader) (here : task.point = .reading) : Move task [] { task with reader }
  | leave (reader : BufReader) (here : task.point = .reading) :
      Move task [] { task with reader, point := .removing }
  | remove (here : task.point = .removing) :
      Move task [.removeSender task.peerId] { task with point := .aborting }
  | abort (here : task.point = .aborting) :
      Move task [.abortWriter task.peerId] { task with point := .disconnecting }
  | disconnect (here : task.point = .disconnecting) :
      Move task [.event (.peerDisconnected task.peerId "connection closed")]
        { task with point := .finished }

/-- Steps are moves. -/
theorem step_move {task next : PeerTask} {effects : List TaskEffect}
    (stepped : step blake2b256 true task = some (effects, next)) : task.Move effects next := by
  unfold step at stepped
  split at stepped
  case h_5 loops =>
    unfold readRound at stepped
    split at stepped
    · cases stepped
      exact .leave _ loops
    · split at stepped
      · cases stepped
        exact .skip _ loops
      · cases stepped
        rw [if_pos rfl, ← loops]
        exact .report _ _ loops
  case h_9 => cases stepped
  case h_1 here => cases stepped; exact .register here
  case h_2 here => cases stepped; exact .connect here
  case h_3 here => cases stepped; exact .insert here
  case h_4 here => cases stepped; exact .spawn here
  case h_6 here => cases stepped; exact .remove here
  case h_7 here => cases stepped; exact .abort here
  case h_8 here => cases stepped; exact .disconnect here

/-- A task comes to its cleanup from the reader loop, when a read has failed. -/
theorem step_removing {task next : PeerTask} {effects : List TaskEffect}
    (stepped : step blake2b256 true task = some (effects, next)) (now : next.point = .removing) :
    task.point = .reading ∧ effects = [] ∧ ∃ problem reader,
      Frame.readFrame blake2b256 BufReader.readExact task.magic task.reader =
        .error problem reader := by
  have loops : task.point = .reading := by
    cases step_move blake2b256 stepped with
    | leave _ here => exact here
    | report _ _ here | skip _ here => exact here
    | _ => cases now
  rw [step, loops] at stepped
  cases read : Frame.readFrame blake2b256 BufReader.readExact task.magic task.reader with
  | error problem reader =>
    rw [Option.some.injEq, readRound_failed blake2b256 true read] at stepped
    cases stepped
    exact ⟨loops, rfl, problem, reader, rfl⟩
  | ok frame reader =>
    cases parsed : ProtocolMessage.fromFrame frame with
    | error problem =>
      rw [Option.some.injEq, readRound_skipped blake2b256 true read parsed] at stepped
      cases stepped
      cases loops.symm.trans now
    | ok message =>
      rw [Option.some.injEq, readRound_reported blake2b256 true read parsed] at stepped
      cases stepped
      cases now

/-- A bound on the number of steps that are left. -/
def remaining (task : PeerTask) : Nat :=
  match task.point with
  | .registering => 8 + task.reader.contents.length
  | .connecting => 7 + task.reader.contents.length
  | .inserting => 6 + task.reader.contents.length
  | .spawning => 5 + task.reader.contents.length
  | .reading => 4 + task.reader.contents.length
  | .removing => 3
  | .aborting => 2
  | .disconnecting => 1
  | .finished => 0

/-- A round of the reader loop takes bytes from the stream or leaves the loop. -/
theorem readRound_decreases (listening : Bool) {task : PeerTask} (loops : task.point = .reading) :
    (readRound blake2b256 listening task).2.remaining < task.remaining := by
  have before : task.remaining = 4 + task.reader.contents.length := by
    rw [remaining, loops]
  rw [before]
  cases read : Frame.readFrame blake2b256 BufReader.readExact task.magic task.reader with
  | error problem reader =>
    rw [readRound_failed blake2b256 listening read]
    simp only [remaining]
    omega
  | ok frame reader =>
    have progress := Frame.readFrame_progress blake2b256 BufReader.filling read
    cases parsed : ProtocolMessage.fromFrame frame with
    | error problem =>
      rw [readRound_skipped blake2b256 listening read parsed]
      simp only [remaining, loops]
      omega
    | ok message =>
      rw [readRound_reported blake2b256 listening read parsed]
      cases listening with
      | false =>
        simp only [remaining, Bool.false_eq_true, if_false]
        omega
      | true =>
        simp only [remaining, if_true]
        omega

/-- Every step lowers the bound. -/
theorem step_decreases {listening : Bool} {task next : PeerTask} {effects : List TaskEffect}
    (stepped : step blake2b256 listening task = some (effects, next)) :
    next.remaining < task.remaining := by
  unfold step at stepped
  split at stepped
  case h_5 loops =>
    have decreases := readRound_decreases blake2b256 listening loops
    rw [Option.some.inj stepped] at decreases
    exact decreases
  case h_9 => cases stepped
  all_goals
    rename_i here
    cases stepped
    simp only [remaining, here]
    omega

/-- All actions of a task from a given point to its end, in order. The receiver of the
event channel exists at some of the steps. -/
def execute (listening : Nat → Bool) (task : PeerTask) : List TaskEffect :=
  match _stepped : step blake2b256 (listening 0) task with
  | none => []
  | some (effects, next) => effects ++ execute (fun count => listening (count + 1)) next
termination_by task.remaining
decreasing_by exact step_decreases blake2b256 _stepped

/-- A step contributes its actions, then the rest of the task follows. -/
theorem execute_step {listening : Nat → Bool} {task next : PeerTask} {effects : List TaskEffect}
    (stepped : step blake2b256 (listening 0) task = some (effects, next)) :
    execute blake2b256 listening task =
      effects ++ execute blake2b256 (fun count => listening (count + 1)) next := by
  rw [execute]
  split
  case h_1 ended => cases ended.symm.trans stepped
  case h_2 same => cases same.symm.trans stepped; rfl

/-- A finished task does nothing more. -/
theorem execute_finished (listening : Nat → Bool) {task : PeerTask}
    (ended : task.point = .finished) : execute blake2b256 listening task = [] := by
  have stopped : step blake2b256 (listening 0) task = none := by rw [step, ended]
  rw [execute]
  split
  case h_1 => rfl
  case h_2 stepped => cases stopped.symm.trans stepped

end Steps

end PeerTask

end ErgoProxy
