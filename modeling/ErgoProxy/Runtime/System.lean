import ErgoProxy.Routing.Router
import ErgoProxy.Runtime.PeerTask

/-!
# The running proxy

All tasks of the program and what they share: the router, the event channel, the map of
senders with its lock, and one write queue for each peer. Listeners and the outbound
manager spawn a task for every connection, which shakes hands and then serves its peer;
a writer drains each write queue; the event loop and the keepalive task send frames while
they hold the lock of the sender map.

A step is one action of one task between two points at which it can be suspended, and
steps of different tasks interleave in any order. An action that has to wait is not a
step: a full channel or queue and a held lock disable it. The router's lock is only held
inside single actions and needs no state of its own. The event channel never closes, as
the main task keeps one of its senders.

What the other side of a connection does is chosen with the handshake: the reader of a
connection carries the outcomes of all later reads, a finite list, so that every stream ends. A
remote that stops reading keeps its writer from taking further steps.
-/

namespace ErgoProxy.Runtime

open FiniteMaps Routing Runs

/-- How many events the event channel holds. -/
def eventCapacity : Nat := 256

/-- How many frames a write queue holds. -/
def writeCapacity : Nat := 64

/-- Where a writer task stands. It owns the receiving half of its queue, which is dropped
when it ends. -/
inductive WriterPoint where
  | unspawned
  | waiting
  | writing (frame : Frame)
  | ended
  deriving DecidableEq

/-- A peer's write queue and its writer. -/
structure WriteQueue where
  frames : List Frame
  writer : WriterPoint
  deriving DecidableEq

namespace WriteQueue

/-- A send to the queue waits: it has a receiver and no room. -/
def Full (queue : WriteQueue) : Prop :=
  queue.writer ≠ .ended ∧ writeCapacity ≤ queue.frames.length

instance (queue : WriteQueue) : Decidable queue.Full :=
  inferInstanceAs (Decidable (_ ∧ _))

/-- A send that does not wait: without a receiver the frame is lost. -/
def push (queue : WriteQueue) (frame : Frame) : WriteQueue :=
  if queue.writer = .ended then queue else { queue with frames := queue.frames ++ [frame] }

/-- One action of the writer: it takes a frame, has written it, fails to write it, or finds
the queue empty after its last sender is gone. -/
inductive WriterStep (connected : Prop) : WriteQueue → WriteQueue → Prop where
  | take (frame : Frame) (frames : List Frame) :
      WriterStep connected ⟨frame :: frames, .waiting⟩ ⟨frames, .writing frame⟩
  | written (frame : Frame) (frames : List Frame) :
      WriterStep connected ⟨frames, .writing frame⟩ ⟨frames, .waiting⟩
  | failed (frame : Frame) (frames : List Frame) :
      WriterStep connected ⟨frames, .writing frame⟩ ⟨[], .ended⟩
  | drained (unconnected : ¬ connected) : WriterStep connected ⟨[], .waiting⟩ ⟨[], .ended⟩

end WriteQueue

/-- Who spawned the task of a connection. -/
inductive Origin where
  | listener (index : Nat)
  | manager
  deriving DecidableEq

/-- How far the task of a connection has come. -/
inductive Stage where
  | handshaking
  | running (task : PeerTask)
  | closed

/-- The task of a connection. -/
structure ConnectionTask where
  origin : Origin
  stage : Stage

/-- The two tasks that send frames. -/
inductive Loop where
  | events
  | keepalive
  deriving DecidableEq

/-- Where such a task stands: it waits for an event or a tick, has received an event, waits
for the lock, holds the lock with actions still to execute, or holds the lock and offers a
frame to a write queue. -/
inductive LoopPoint where
  | idle
  | handling (event : ProtocolEvent)
  | locking (todo : List Action)
  | sending (todo : List Action)
  | offering (target : PeerId) (frame : Frame) (todo : List Action)

/-- The task holds the lock of the sender map. -/
def LoopPoint.holds : LoopPoint → Bool
  | .sending _ | .offering _ _ _ => true
  | _ => false

/-- A listener's configuration. -/
structure Listener where
  mode : ProxyMode
  maxInbound : Nat

/-- The part of the configuration that the tasks read. -/
structure Config where
  agentName : String
  peerName : String
  version : Version
  network : Network
  listeners : List Listener

/-- The handshake that we send in a given mode. -/
def Config.makeHandshakeConfig (config : Config) (mode : ProxyMode) :
    Handshake.HandshakeConfig where
  agentName := config.agentName
  peerName := config.peerName
  version := config.version
  network := config.network
  mode := mode
  declaredAddress := none

/-- What comes of a handshake: the peer's task, or nothing. -/
def Config.handshaken (config : Config) (origin : Origin) (peerId : PeerId)
    (surroundings : Surroundings) (reader : BufReader) : Stage :=
  match origin with
  | .listener index =>
    match config.listeners[index]? with
    | none => .closed
    | some listener =>
      match Connection.inbound (config.makeHandshakeConfig listener.mode) surroundings reader with
      | .error _ => .closed
      | .ok conn => .running (.start peerId conn .inbound listener.mode)
  | .manager =>
    match Connection.outbound (config.makeHandshakeConfig .full) surroundings reader with
    | .error _ => .closed
    | .ok conn =>
      if Handshake.isProxy conn.peerSpec then .closed
      else .running (.start peerId conn .outbound .full)

/-- The state of the program. Tasks of connections are kept when they have ended. -/
structure System where
  router : Router
  channel : List ProtocolEvent
  senders : Finset PeerId
  queues : FiniteMap PeerId WriteQueue
  conns : FiniteMap PeerId ConnectionTask
  counter : UInt64
  loops : Loop → LoopPoint

namespace System

/-- The program has just started. -/
def new : System := ⟨.new, [], ∅, ∅, ∅, 1, fun _ => .idle⟩

/-- Nobody holds the lock of the sender map. -/
def Unlocked (sys : System) : Prop := ∀ loop, (sys.loops loop).holds = false

instance (sys : System) : Decidable sys.Unlocked :=
  if free : (sys.loops .events).holds = false ∧ (sys.loops .keepalive).holds = false then
    isTrue (by intro loop; cases loop; exacts [free.1, free.2])
  else
    isFalse fun unlocked => free ⟨unlocked .events, unlocked .keepalive⟩

/-- Change a peer's write queue. -/
def changeQueue (sys : System) (peerId : PeerId) (change : WriteQueue → WriteQueue) : System :=
  { sys with queues :=
      match sys.queues.lookup peerId with
      | none => sys.queues
      | some queue => sys.queues.insert peerId (change queue) }

/-- One of the two sending tasks moves on. -/
def moveLoop (sys : System) (loop : Loop) (point : LoopPoint) : System :=
  { sys with loops := Function.update sys.loops loop point }

/-- The task of a connection moves on. -/
def moveTask (sys : System) (peerId : PeerId) (origin : Origin) (stage : Stage) : System :=
  { sys with conns := sys.conns.insert peerId ⟨origin, stage⟩ }

/-- A connection gets the next number and a task, which begins with the handshake. -/
def spawnTask (sys : System) (origin : Origin) : System :=
  { sys.moveTask ⟨sys.counter⟩ origin .handshaking with counter := sys.counter + 1 }

/-- Perform an action of a peer's task, unless it has to wait. -/
def perform (sys : System) : TaskEffect → Option System
  | .registerPeer peerId direction mode =>
    some { sys with router := sys.router.registerPeer peerId direction mode }
  | .event event =>
    if sys.channel.length < eventCapacity then some { sys with channel := sys.channel ++ [event] }
    else none
  | .insertSender peerId =>
    if sys.Unlocked then
      some { sys with
        senders := insert peerId sys.senders
        queues := sys.queues.insert peerId ⟨[], .unspawned⟩ }
    else none
  | .spawnWriter peerId => some (sys.changeQueue peerId fun queue => { queue with writer := .waiting })
  | .removeSender peerId =>
    if sys.Unlocked then some { sys with senders := sys.senders.erase peerId } else none
  | .abortWriter peerId => some (sys.changeQueue peerId fun _ => ⟨[], .ended⟩)

end System

/-- What a step of the program was. -/
inductive Label where
  | accept (listener : Nat) (peerId : PeerId)
  | dial (peerId : PeerId)
  | handshake (peerId : PeerId)
  | task (peerId : PeerId) (effects : List TaskEffect)
  | writer (peerId : PeerId)
  | tick
  | receive (event : ProtocolEvent)
  | handle (event : ProtocolEvent) (actions : List Action)
  | lock (loop : Loop)
  | execute (loop : Loop) (action : Action)
  | deliver (loop : Loop)
  | release (loop : Loop)

/-- One step of the program. A listener compares the number of registered inbound peers with
its maximum when it accepts a connection; a rejected connection changes nothing. The number
of a new peer is taken from the counter and has not been used before. When and where the
outbound manager dials is left open. -/
inductive Step (config : Config) (blake2b256 : Bytes → Vector UInt8 32) :
    System → Label → System → Prop where
  | accept (sys : System) (index : Nat) (listener : Listener)
      (configured : config.listeners[index]? = some listener)
      (visit : Traversal sys.router.peers)
      (below : (sys.router.inboundPeers visit).length < listener.maxInbound)
      (fresh : sys.conns.lookup ⟨sys.counter⟩ = none) :
      Step config blake2b256 sys (.accept index ⟨sys.counter⟩) (sys.spawnTask (.listener index))
  | dial (sys : System) (fresh : sys.conns.lookup ⟨sys.counter⟩ = none) :
      Step config blake2b256 sys (.dial ⟨sys.counter⟩) (sys.spawnTask .manager)
  | handshake (sys : System) (peerId : PeerId) (origin : Origin)
      (here : sys.conns.lookup peerId = some ⟨origin, .handshaking⟩)
      (surroundings : Surroundings) (reader : BufReader) :
      Step config blake2b256 sys (.handshake peerId)
        (sys.moveTask peerId origin (config.handshaken origin peerId surroundings reader))
  | task (sys performed : System) (peerId : PeerId) (origin : Origin) (task next : PeerTask)
      (effects : List TaskEffect) (here : sys.conns.lookup peerId = some ⟨origin, .running task⟩)
      (stepped : task.step blake2b256 true = some (effects, next))
      (unblocked : effects.foldlM System.perform sys = some performed) :
      Step config blake2b256 sys (.task peerId effects)
        (performed.moveTask peerId origin (.running next))
  | writer (sys : System) (peerId : PeerId) (queue next : WriteQueue)
      (here : sys.queues.lookup peerId = some queue)
      (moved : WriteQueue.WriterStep (peerId ∈ sys.senders) queue next) :
      Step config blake2b256 sys (.writer peerId)
        { sys with queues := sys.queues.insert peerId next }
  | tick (sys : System) (visit : Traversal sys.router.peers)
      (here : sys.loops .keepalive = .idle) :
      Step config blake2b256 sys .tick
        (sys.moveLoop .keepalive
          (.locking ((sys.router.outboundPeers visit).map fun peer => .send peer .getPeers)))
  | receive (sys : System) (event : ProtocolEvent) (later : List ProtocolEvent)
      (here : sys.loops .events = .idle) (arrived : sys.channel = event :: later) :
      Step config blake2b256 sys (.receive event)
        { sys.moveLoop .events (.handling event) with channel := later }
  | handle (sys : System) (event : ProtocolEvent) (visit : Traversal sys.router.peers)
      (clock : Nat → Instant) (here : sys.loops .events = .handling event) :
      Step config blake2b256 sys (.handle event (sys.router.handleEvent visit clock event).1)
        { sys.moveLoop .events (.locking (sys.router.handleEvent visit clock event).1) with
          router := (sys.router.handleEvent visit clock event).2 }
  | lock (sys : System) (loop : Loop) (todo : List Action)
      (here : sys.loops loop = .locking todo) (free : sys.Unlocked) :
      Step config blake2b256 sys (.lock loop) (sys.moveLoop loop (.sending todo))
  | execute (sys : System) (loop : Loop) (action : Action) (todo : List Action)
      (here : sys.loops loop = .sending (action :: todo)) :
      Step config blake2b256 sys (.execute loop action)
        (sys.moveLoop loop
          (if action.target ∈ sys.senders then .offering action.target action.message.toFrame todo
          else .sending todo))
  | deliver (sys : System) (loop : Loop) (target : PeerId) (frame : Frame) (todo : List Action)
      (queue : WriteQueue) (here : sys.loops loop = .offering target frame todo)
      (found : sys.queues.lookup target = some queue) (ready : ¬ queue.Full) :
      Step config blake2b256 sys (.deliver loop)
        { sys.moveLoop loop (.sending todo) with
          queues := sys.queues.insert target (queue.push frame) }
  | release (sys : System) (loop : Loop) (here : sys.loops loop = .sending []) :
      Step config blake2b256 sys (.release loop) (sys.moveLoop loop .idle)

/-- A run of the program. -/
abbrev SystemRun (config : Config) (blake2b256 : Bytes → Vector UInt8 32) :
    List Label → System → Prop :=
  Run System.new (Step config blake2b256)

end ErgoProxy.Runtime
