import ErgoProxy.Protocol.PeerStates
import ErgoProxy.Runtime.Membership

/-!
# The tasks follow the lifecycle

The program does not use `PeerStateMachine`: `run_peer` sends its events itself. The machine
is the specification of what it may send. Read as calls of the machine, the events about a
peer and the progress of its connection are a sequence that the machine admits with its
assertions checked, at every moment of every run; the machine returns the events that were
sent and stands in the state of the connection.
-/

namespace ErgoProxy.Runtime

open Handshake PeerStateMachine Runs

/-- The direction of the connections that come from here. -/
def Origin.direction : Origin → Direction
  | .listener _ => .inbound
  | .manager => .outbound

/-- The state of the lifecycle at a program point: the peer is announced when the task has
sent the event. -/
def pointState : PeerPoint → PeerState
  | .registering | .connecting => .handshaking
  | .inserting | .spawning | .reading | .removing | .aborting | .disconnecting => .active
  | .finished => .disconnected

/-- The state of the lifecycle of a connection. -/
def Stage.state : Stage → PeerState
  | .handshaking => .handshaking
  | .running task => pointState task.point
  | .closed => .failed

/-- The call that returns an event. -/
def eventCall : ProtocolEvent → Call
  | .peerConnected _ spec _ => .setActive spec
  | .peerDisconnected _ reason => .setDisconnected reason
  | .message _ message => .messageEvent message

/-- The calls that stand for what has become of a connection and for the events about it. -/
def callsMade (stage : Stage) (events : List ProtocolEvent) : List Call :=
  match stage with
  | .closed => failure "handshake"
  | _ => .setHandshaking :: events.map eventCall

variable {config : Config} {blake2b256 : Bytes → Vector UInt8 32} {sys : System}
  {history : List Label} {peer : PeerId} {origin : Origin}

/-- A task admitted by its origin has that origin's direction. -/
theorem admitted_direction {task : PeerTask} (admitted : Admitted config origin task) :
    task.direction = origin.direction := by
  cases origin with
  | listener index =>
    obtain ⟨_, _, inbound, _⟩ := admitted.given
    exact inbound
  | manager => exact admitted.given.1

/-- In every run, the machine admits what has become of a connection and the events about it,
read as its calls. It returns these events, and it stands in the state of the connection, with
the peer's handshake once that is announced. -/
theorem connections_follow_machine (run : SystemRun config blake2b256 history sys) {stage : Stage}
    (here : sys.conns.lookup peer = some ⟨origin, stage⟩) :
    ∃ machine, (PeerStateMachine.new peer origin.direction).calls true
        (callsMade stage (about peer (sent history))) = some (about peer (sent history), machine) ∧
      machine.state = stage.state ∧
      ∀ task, stage = .running task → pointState task.point ≠ .handshaking →
        machine.spec = some task.spec := by
  have emitted := run_sent run peer
  simp only [SentSoFar, here] at emitted
  cases stage with
  | handshaking =>
    rw [emitted]
    exact ⟨_, rfl, rfl, by rintro _ ⟨⟩⟩
  | closed =>
    rw [emitted]
    exact ⟨_, rfl, rfl, by rintro _ ⟨⟩⟩
  | running task =>
    have direction := admitted_direction (run_admitted run here)
    have owner := System.run_identified run _ _ _ here
    simp only [Emitted] at emitted
    rw [direction, owner] at emitted
    cases point : task.point with
    | registering | connecting =>
      rw [point] at emitted
      rw [emitted]
      refine ⟨_, rfl, by rw [Stage.state, point]; rfl, ?_⟩
      rintro _ ⟨⟩ announced
      rw [point] at announced
      exact (announced rfl).elim
    | inserting | spawning =>
      rw [point] at emitted
      rw [emitted]
      refine ⟨_, rfl, by rw [Stage.state, point]; rfl, ?_⟩
      rintro _ ⟨⟩ _
      rfl
    | reading | removing | aborting | disconnecting =>
      rw [point] at emitted
      obtain ⟨messages, events⟩ := emitted
      have made : callsMade (.running task) (about peer (sent history)) =
          .setHandshaking :: .setActive task.spec :: (messages.map .messageEvent ++ []) := by
        simp [callsMade, events, eventCall]
      refine ⟨⟨peer, origin.direction, .active, some task.spec⟩, ?_,
        by rw [Stage.state, point]; rfl, by rintro _ ⟨⟩ _; rfl⟩
      rw [made, calls_announced, events]
      simp [calls]
    | finished =>
      rw [point] at emitted
      obtain ⟨messages, events⟩ := emitted
      have made : callsMade (.running task) (about peer (sent history)) =
          .setHandshaking :: .setActive task.spec ::
            (messages.map .messageEvent ++ [.setDisconnected "connection closed"]) := by
        simp [callsMade, events, eventCall]
      refine ⟨⟨peer, origin.direction, .disconnected, some task.spec⟩, ?_,
        by rw [Stage.state, point]; rfl, by rintro _ ⟨⟩ _; rfl⟩
      rw [made, calls_announced, events]
      rfl

/-- The first peer of a proxy has asked for peers: the machine is active. -/
theorem connections_follow_machine_request :
    ∃ history sys origin stage machine,
      SystemRun soloConfig (fun _ => Frame.emptyDigest) history sys ∧
      sys.conns.lookup ⟨1⟩ = some ⟨origin, stage⟩ ∧
      (PeerStateMachine.new ⟨1⟩ origin.direction).calls true
        (callsMade stage (about ⟨1⟩ (sent history))) =
          some ([.peerConnected ⟨1⟩ shortestSpec .inbound, .message ⟨1⟩ .getPeers], machine) ∧
      machine.state = .active := by
  obtain ⟨_, run, served⟩ := first_served (fun _ => Frame.emptyDigest) solo_listener Nat.one_pos
    [ProtocolMessage.getPeers.toFrame]
  obtain ⟨sys, requested, served⟩ := served_requests served
  have reached := continued run requested
  obtain ⟨origin, task, here, _, reading, _⟩ := served.reading
  obtain ⟨machine, made, state, _⟩ := connections_follow_machine reached here
  refine ⟨_, sys, origin, _, machine, reached, here, made, ?_⟩
  rw [state, Stage.state, reading]
  rfl

end ErgoProxy.Runtime
