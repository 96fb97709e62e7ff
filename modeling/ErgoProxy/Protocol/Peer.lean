import ErgoProxy.Protocol.Messages
import ErgoProxy.Transport.Handshake

/-!
# Events and the lifecycle of a peer

A connection produces one event when its handshake has completed, one for every
message and one when it ends.

`PeerStateMachine` is the lifecycle as a class of its own: each of its methods
asserts the state in which it may be called and moves on to the next one. The
assertions are debug assertions. A build that checks them stops at a call out of
order; in a build that does not, every call is carried out.
-/

namespace ErgoProxy

open Handshake

/-- Events produced by the protocol layer. -/
inductive ProtocolEvent where
  | peerConnected (peerId : PeerId) (spec : PeerSpec) (direction : Direction)
  | peerDisconnected (peerId : PeerId) (reason : String)
  | message (peerId : PeerId) (message : ProtocolMessage)
  deriving DecidableEq

/-- Peer connection states. -/
inductive PeerState where
  | connecting
  | handshaking
  | active
  | disconnected
  | failed
  deriving DecidableEq

/-- State machine of a single peer's lifecycle. -/
structure PeerStateMachine where
  peerId : PeerId
  direction : Direction
  state : PeerState
  spec : Option PeerSpec

namespace PeerStateMachine

/-- A peer that is being connected. -/
def new (peerId : PeerId) (direction : Direction) : PeerStateMachine :=
  ⟨peerId, direction, .connecting, none⟩

/-- A debug assertion on the state, which panics in builds that check it. -/
def assertState (checked : Bool) (machine : PeerStateMachine) (expected : PeerState) : Option Unit :=
  if checked = true ∧ machine.state ≠ expected then none else some ()

/-- Transition to the handshake. -/
def setHandshaking (checked : Bool) (machine : PeerStateMachine) : Option PeerStateMachine := do
  machine.assertState checked .connecting
  some { machine with state := .handshaking }

/-- Transition to the active state, with the event that announces the peer. -/
def setActive (checked : Bool) (machine : PeerStateMachine) (spec : PeerSpec) :
    Option (ProtocolEvent × PeerStateMachine) := do
  machine.assertState checked .handshaking
  some (.peerConnected machine.peerId spec machine.direction,
    { machine with spec := some spec, state := .active })

/-- Transition to the disconnected state, with the event that says so. -/
def setDisconnected (checked : Bool) (machine : PeerStateMachine) (reason : String) :
    Option (ProtocolEvent × PeerStateMachine) := do
  machine.assertState checked .active
  some (.peerDisconnected machine.peerId reason, { machine with state := .disconnected })

/-- Transition to the failed state; the reason is not kept. -/
def setFailed (checked : Bool) (machine : PeerStateMachine) (_reason : String) :
    Option PeerStateMachine := do
  machine.assertState checked .handshaking
  some { machine with state := .failed }

/-- Wrap a parsed message into an event. -/
def messageEvent (checked : Bool) (machine : PeerStateMachine) (message : ProtocolMessage) :
    Option ProtocolEvent := do
  machine.assertState checked .active
  some (.message machine.peerId message)

/-- A call of one of the methods. -/
inductive Call where
  | setHandshaking
  | setActive (spec : PeerSpec)
  | setDisconnected (reason : String)
  | setFailed (reason : String)
  | messageEvent (message : ProtocolMessage)

/-- Carry out a call and collect the event that it returns. -/
def call (checked : Bool) (machine : PeerStateMachine) :
    Call → Option (List ProtocolEvent × PeerStateMachine)
  | .setHandshaking => (machine.setHandshaking checked).map fun next => ([], next)
  | .setActive spec => (machine.setActive checked spec).map fun (event, next) => ([event], next)
  | .setDisconnected reason =>
    (machine.setDisconnected checked reason).map fun (event, next) => ([event], next)
  | .setFailed reason => (machine.setFailed checked reason).map fun next => ([], next)
  | .messageEvent message =>
    (machine.messageEvent checked message).map fun event => ([event], machine)

/-- Carry out calls one after the other. -/
def calls (checked : Bool) : PeerStateMachine → List Call →
    Option (List ProtocolEvent × PeerStateMachine)
  | machine, [] => some ([], machine)
  | machine, first :: rest => do
    let (events, next) ← machine.call checked first
    let (later, last) ← calls checked next rest
    some (events ++ later, last)

end PeerStateMachine

end ErgoProxy
