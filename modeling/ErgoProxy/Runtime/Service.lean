import ErgoProxy.Runtime.SystemSteps
import ErgoProxy.Transport.HandshakeReading

/-!
# How a peer comes to be served

The program can always make progress for a well-behaved peer: a connection whose handshake
arrives is registered, its task reports it and enters its sender as soon as the channel has
room and the lock is free, and each request for peers is answered into the peer's write
queue as long as that has room. The results state which steps lead there and what they leave
alone, so that they can be chained from any state.
-/

namespace ErgoProxy.Runtime

open FiniteMaps Routing Runs

variable {config : Config} {blake2b256 : Bytes → Vector UInt8 32} {sys : System} {peer : PeerId}

/-- What a peer says that sends the shortest handshake. -/
def shortestSpec : Handshake.PeerSpec := ⟨"", ⟨4, 0, 100⟩, "", none, []⟩

/-- The handshake arrives in time and ours is written. -/
def promptly : Surroundings := ⟨1700000000001, 7, false, .ok ()⟩

/-- The reads of a peer that sends the shortest handshake in one piece. -/
def shortestReader (later : List (Except IoError Bytes)) : BufReader :=
  ⟨[], .ok Connection.shortestHandshake :: later⟩

/-- The connection of a peer that sent the shortest handshake. -/
def shortestConnection (handshake : Handshake.HandshakeConfig)
    (later : List (Except IoError Bytes)) : Connection where
  reader := ⟨[], later⟩
  written := Handshake.build handshake promptly.now promptly.sessionId
  magic := handshake.network.magic
  peerSpec := shortestSpec

/-- An accepted peer that sends the shortest handshake gets a task. -/
theorem listener_handshaken {index : Nat} {listener : Listener}
    (configured : config.listeners[index]? = some listener) (peer : PeerId)
    (later : List (Except IoError Bytes)) :
    config.handshaken (.listener index) peer promptly (shortestReader later) =
      .running (.start peer (shortestConnection (config.makeHandshakeConfig listener.mode) later)
        .inbound listener.mode) := by
  have shaken (handshake : Handshake.HandshakeConfig) :
      Connection.inbound handshake promptly (shortestReader later) =
        .ok (shortestConnection handshake later) := rfl
  simp only [Config.handshaken, configured, shaken]

/-- A dialed peer that sends the shortest handshake is no proxy and gets a task. -/
theorem manager_handshaken (peer : PeerId) (later : List (Except IoError Bytes)) :
    config.handshaken .manager peer promptly (shortestReader later) =
      .running (.start peer (shortestConnection (config.makeHandshakeConfig .full) later)
        .outbound .full) := by
  have shaken (handshake : Handshake.HandshakeConfig) :
      Connection.outbound handshake promptly (shortestReader later) =
        .ok (shortestConnection handshake later) := rfl
  simp only [Config.handshaken, shaken]
  rfl

/-- The peer's task has registered it, and nothing else has changed. -/
structure Entered (sys after : System) (peer : PeerId) (origin : Origin) (serving : PeerTask) :
    Prop where
  task : after.conns.lookup peer = some ⟨origin, .running serving⟩
  others : ∀ other, other ≠ peer → after.conns.lookup other = sys.conns.lookup other
  router : after.router = sys.router.registerPeer peer serving.direction serving.mode
  channel : after.channel = sys.channel
  senders : after.senders = sys.senders
  queues : after.queues = sys.queues
  counter : after.counter = sys.counter
  loops : after.loops = sys.loops

/-- A task that is about to register its peer can do so, whatever the others do. -/
theorem registering_enters (blake2b256 : Bytes → Vector UInt8 32) {origin : Origin}
    {task : PeerTask} (here : sys.conns.lookup peer = some ⟨origin, .running task⟩)
    (own : task.peerId = peer) (point : task.point = .registering) :
    ∃ after, Step config blake2b256 sys
        (.task peer [.registerPeer peer task.direction task.mode]) after ∧
      Entered sys after peer origin { task with point := .connecting } := by
  subst own
  refine ⟨_, .task sys _ task.peerId origin task _ _ here (by rw [PeerTask.step, point]) rfl, ?_⟩
  refine ⟨?_, ?_, rfl, rfl, rfl, rfl, rfl, rfl⟩
  · rw [System.conns_moveTask, if_pos rfl]
  · intro other different
    rw [System.conns_moveTask, if_neg different]

/-- A peer whose handshake succeeds can be registered at once, whatever the others do. -/
theorem handshaking_enters (blake2b256 : Bytes → Vector UInt8 32) {origin : Origin}
    {conn : Connection} {direction : Direction} {mode : ProxyMode} {surroundings : Surroundings}
    {reader : BufReader} (here : sys.conns.lookup peer = some ⟨origin, .handshaking⟩)
    (shaken : config.handshaken origin peer surroundings reader =
      .running (.start peer conn direction mode)) :
    ∃ after, Run sys (Step config blake2b256)
        [.task peer [.registerPeer peer direction mode], .handshake peer] after ∧
      Entered sys after peer origin
        { PeerTask.start peer conn direction mode with point := .connecting } := by
  have first : Step config blake2b256 sys _ _ := .handshake sys peer origin here surroundings reader
  rw [shaken] at first
  obtain ⟨after, second, entered⟩ := registering_enters blake2b256
    ((System.conns_moveTask sys peer peer origin
      (.running (.start peer conn direction mode))).trans (if_pos rfl)) rfl rfl
  refine ⟨after, .extend (.extend .start first) second, { entered with others := ?_ }⟩
  intro other different
  rw [entered.others other different, System.conns_moveTask, if_neg different]

/-- A peer is served: its task is in the reader loop with the given frames still to come, its
sender is in the map, and the keepalive task is idle. The rest is what the steps below change:
the router, its write queue, the channel and the event loop. -/
structure Served (blake2b256 : Bytes → Vector UInt8 32) (sys : System) (peer : PeerId)
    (router : Router) (frames : List Frame) (queue : WriteQueue) (channel : List ProtocolEvent)
    (point : LoopPoint) : Prop where
  reading : ∃ origin task, sys.conns.lookup peer = some ⟨origin, .running task⟩ ∧
    task.peerId = peer ∧ task.point = .reading ∧
    task.reader.contents = frames.flatMap (Frame.encode blake2b256 task.magic)
  routing : sys.router = router
  registered : peer ∈ router.peers
  sender : peer ∈ sys.senders
  queued : sys.queues.lookup peer = some queue
  pending : sys.channel = channel
  events : sys.loops .events = point
  keepalive : sys.loops .keepalive = .idle

section Tasks

variable {origin : Origin} {task : PeerTask}
  (here : sys.conns.lookup peer = some ⟨origin, .running task⟩)
include here

/-- A task reports its peer when the channel has room. -/
theorem step_connect (point : task.point = .connecting) (room : sys.channel.length < eventCapacity) :
    Step config blake2b256 sys
      (.task peer [.event (.peerConnected task.peerId task.spec task.direction)])
      (System.moveTask
        { sys with channel := sys.channel ++ [.peerConnected task.peerId task.spec task.direction] }
        peer origin (.running { task with point := .inserting })) :=
  .task sys _ peer origin task _ _ here (by rw [PeerTask.step, point]; rfl)
    (by simp [System.perform, room])

/-- A task enters its sender when the lock is free. -/
theorem step_insert (point : task.point = .inserting) (free : sys.Unlocked) :
    Step config blake2b256 sys (.task peer [.insertSender task.peerId])
      (System.moveTask
        { sys with
          senders := insert task.peerId sys.senders
          queues := sys.queues.insert task.peerId ⟨[], .unspawned⟩ }
        peer origin (.running { task with point := .spawning })) :=
  .task sys _ peer origin task _ _ here (by rw [PeerTask.step, point])
    (by simp [System.perform, free])

/-- A task spawns its writer at any time. -/
theorem step_spawn (point : task.point = .spawning) :
    Step config blake2b256 sys (.task peer [.spawnWriter task.peerId])
      (System.moveTask
        (sys.changeQueue task.peerId fun queue => { queue with writer := .waiting })
        peer origin (.running { task with point := .reading })) :=
  .task sys _ peer origin task _ _ here (by rw [PeerTask.step, point]) rfl

/-- The steps that take a registered peer to its reader loop. -/
def connectingLabels (peer : PeerId) (spec : Handshake.PeerSpec) (direction : Direction) :
    List Label :=
  [.task peer [.spawnWriter peer], .task peer [.insertSender peer],
    .task peer [.event (.peerConnected peer spec direction)]]

/-- A registered peer comes to be served if the channel has room and the sending tasks are
idle. -/
theorem connecting_served {frames : List Frame} (own : task.peerId = peer)
    (connecting : task.point = .connecting)
    (arriving : task.reader.contents = frames.flatMap (Frame.encode blake2b256 task.magic))
    (registered : peer ∈ sys.router.peers) (room : sys.channel.length < eventCapacity)
    (idle : ∀ loop, sys.loops loop = .idle) :
    ∃ after, Run sys (Step config blake2b256)
        (connectingLabels peer task.spec task.direction) after ∧
      Served blake2b256 after peer sys.router frames ⟨[], .waiting⟩
        (sys.channel ++ [.peerConnected peer task.spec task.direction]) .idle := by
  subst own
  have found (before : System) (stage : Stage) :
      (before.moveTask task.peerId origin stage).conns.lookup task.peerId = some ⟨origin, stage⟩ :=
    (System.conns_moveTask before _ _ _ _).trans (if_pos rfl)
  have reported : Run sys (Step config blake2b256) _ _ :=
    .extend .start (step_connect here connecting room)
  have inserted := Run.extend reported
    (step_insert (found _ _) rfl fun loop => congrArg LoopPoint.holds (idle loop))
  have spawned := Run.extend inserted (step_spawn (found _ _) rfl)
  refine ⟨_, spawned, ?_⟩
  refine ⟨⟨origin, _, found _ _, rfl, rfl, arriving⟩, rfl, registered, ?_, ?_, rfl,
    idle .events, idle .keepalive⟩
  · exact Finset.mem_insert_self _ _
  · refine (System.lookup_changeQueue _ _ _ _).trans ?_
    rw [if_pos rfl]
    simp [System.moveTask]

end Tasks

/-- Encoded frames arrive one by one. -/
theorem frames_arrive (magic : Vector UInt8 4) (frames : List Frame) :
    (BufReader.mk [] ((frames.map (Frame.encode blake2b256 magic)).map .ok)).contents =
      frames.flatMap (Frame.encode blake2b256 magic) := by
  refine BufReader.arriving_chunks ?_
  intro chunk member
  obtain ⟨frame, _, rfl⟩ := List.mem_map.mp member
  obtain ⟨_, _, _, _, _, _, _, _, _, _, _, _, _, _, _, encoded⟩ :=
    Frame.encode_header blake2b256 magic frame
  rw [encoded]
  exact List.cons_ne_nil _ _

/-- The steps that take a new connection to its reader loop. -/
def arrivalLabels (spawn : Label) (peer : PeerId) (direction : Direction) (mode : ProxyMode) :
    List Label :=
  connectingLabels peer shortestSpec direction ++
    [.task peer [.registerPeer peer direction mode], .handshake peer, spawn]

/-- A peer that sends the shortest handshake, and then some frames, comes to be served. -/
theorem handshaking_served {origin : Origin} {handshake : Handshake.HandshakeConfig}
    {direction : Direction} {mode : ProxyMode}
    (here : sys.conns.lookup peer = some ⟨origin, .handshaking⟩)
    (shaken : ∀ later, config.handshaken origin peer promptly (shortestReader later) =
      .running (.start peer (shortestConnection handshake later) direction mode))
    (room : sys.channel.length < eventCapacity) (idle : ∀ loop, sys.loops loop = .idle)
    (frames : List Frame) :
    ∃ after, Run sys (Step config blake2b256) (connectingLabels peer shortestSpec direction ++
        [.task peer [.registerPeer peer direction mode], .handshake peer]) after ∧
      Served blake2b256 after peer (sys.router.registerPeer peer direction mode) frames
        ⟨[], .waiting⟩ (sys.channel ++ [.peerConnected peer shortestSpec direction]) .idle := by
  obtain ⟨middle, entering, entered⟩ := handshaking_enters blake2b256 here
    (shaken ((frames.map (Frame.encode blake2b256 handshake.network.magic)).map .ok))
  obtain ⟨after, connecting, served⟩ := connecting_served entered.task rfl rfl
    (frames_arrive _ frames) (by rw [entered.router]; exact Finmap.mem_insert.mpr (.inl rfl))
    (by rw [entered.channel]; exact room) (by rw [entered.loops]; exact idle)
  refine ⟨after, continued entering connecting, ?_⟩
  rw [entered.router, entered.channel] at served
  exact served

/-- A new peer that sends the shortest handshake, and then some frames, comes to be served. -/
theorem spawned_served {spawn : Label} {origin : Origin} {handshake : Handshake.HandshakeConfig}
    {direction : Direction} {mode : ProxyMode}
    (spawned : Step config blake2b256 sys spawn (sys.spawnTask origin))
    (shaken : ∀ later, config.handshaken origin ⟨sys.counter⟩ promptly (shortestReader later) =
      .running (.start ⟨sys.counter⟩ (shortestConnection handshake later) direction mode))
    (room : sys.channel.length < eventCapacity) (idle : ∀ loop, sys.loops loop = .idle)
    (frames : List Frame) :
    ∃ after, Run sys (Step config blake2b256)
        (arrivalLabels spawn ⟨sys.counter⟩ direction mode) after ∧
      Served blake2b256 after ⟨sys.counter⟩
        (sys.router.registerPeer ⟨sys.counter⟩ direction mode) frames ⟨[], .waiting⟩
        (sys.channel ++ [.peerConnected ⟨sys.counter⟩ shortestSpec direction]) .idle := by
  have here : (sys.spawnTask origin).conns.lookup ⟨sys.counter⟩ = some ⟨origin, .handshaking⟩ :=
    (System.conns_moveTask sys _ _ _ _).trans (if_pos rfl)
  obtain ⟨after, arriving, served⟩ := handshaking_served here shaken room idle frames
  have whole := continued (.extend .start spawned) arriving
  exact ⟨after, whole, served⟩

/-- The connection that a step moves on, if any. -/
def Label.connection : Label → Option PeerId
  | .accept _ peerId | .dial peerId | .handshake peerId | .task peerId _ => some peerId
  | _ => none

/-- A step that does not move a connection leaves it where it stands. -/
theorem step_untouched {label : Label} {after : System}
    (taken : Step config blake2b256 sys label after) (other : label.connection ≠ some peer) :
    after.conns.lookup peer = sys.conns.lookup peer := by
  have elsewhere {before : System} {moved : PeerId} {origin : Origin} {stage : Stage}
      (different : some moved ≠ some peer) :
      (before.moveTask moved origin stage).conns.lookup peer = before.conns.lookup peer :=
    (System.conns_moveTask before _ _ _ _).trans
      (if_neg fun same => different (congrArg some same.symm))
  cases taken with
  | accept | dial | handshake => exact elsewhere other
  | task performed peerId origin task next effects here stepped unblocked =>
    rw [elsewhere other, (System.acted_arguments (System.task_acted stepped unblocked)).2.2.2.2]
  | writer | tick | receive | handle | lock | execute | deliver | release => rfl

/-- A run that does not move a connection leaves it where it stands. -/
theorem run_untouched {labels : List Label} {after : System}
    (run : Run sys (Step config blake2b256) labels after)
    (others : ∀ label ∈ labels, label.connection ≠ some peer) :
    after.conns.lookup peer = sys.conns.lookup peer := by
  induction run with
  | start => rfl
  | extend earlier taken inductionHypothesis =>
    rw [← inductionHypothesis fun label member => others label (List.mem_cons_of_mem _ member)]
    exact step_untouched taken (others _ List.mem_cons_self)

/-- What of a served peer is its own: its task in the reader loop, its sender and its queue. -/
structure Attended (blake2b256 : Bytes → Vector UInt8 32) (sys : System) (peer : PeerId)
    (frames : List Frame) (queue : WriteQueue) : Prop where
  reading : ∃ origin task, sys.conns.lookup peer = some ⟨origin, .running task⟩ ∧
    task.peerId = peer ∧ task.point = .reading ∧
    task.reader.contents = frames.flatMap (Frame.encode blake2b256 task.magic)
  sender : peer ∈ sys.senders
  queued : sys.queues.lookup peer = some queue

/-- The step is none of the peer's task or writer and puts nothing into a queue. -/
def Label.spares (peer : PeerId) : Label → Bool
  | .accept _ other | .dial other | .handshake other | .task other _ | .writer other => other ≠ peer
  | .deliver _ => false
  | _ => true

/-- A step that spares a peer does not move its connection. -/
theorem spares_connection {label : Label} (spares : label.spares peer = true) :
    label.connection ≠ some peer := by
  cases label with
  | accept _ other | dial other | handshake other | task other =>
    exact fun same => of_decide_eq_true spares (Option.some.inj same)
  | _ => exact (Option.some_ne_none peer).symm

/-- A step that spares a peer leaves it attended as it is. -/
theorem step_attended {label : Label} {after : System} {frames : List Frame} {queue : WriteQueue}
    (identified : sys.Identified) (taken : Step config blake2b256 sys label after)
    (spares : label.spares peer = true) (attended : Attended blake2b256 sys peer frames queue) :
    Attended blake2b256 after peer frames queue := by
  have reading := attended.reading
  rw [← step_untouched taken (spares_connection spares)] at reading
  cases taken with
  | task performed peerId origin task next effects here stepped unblocked =>
    have acted := System.task_acted stepped unblocked
    have other : peer ≠ task.peerId := by
      rw [identified _ _ _ here]
      exact (of_decide_eq_true spares).symm
    exact ⟨reading, (System.acted_senders acted other).mpr attended.sender,
      (System.acted_queues acted other).trans attended.queued⟩
  | writer other queue next here moved =>
    refine ⟨reading, attended.sender, (lookup_insert_eq _ _ _ _).trans ?_⟩
    rw [if_neg (of_decide_eq_true spares).symm]
    exact attended.queued
  | deliver => cases spares
  | accept | dial | handshake | tick | receive | handle | lock | execute | release =>
    exact ⟨reading, attended.sender, attended.queued⟩

/-- A run that spares a peer leaves it attended as it is. -/
theorem run_attended {labels : List Label} {after : System} {frames : List Frame}
    {queue : WriteQueue} (identified : sys.Identified)
    (run : Run sys (Step config blake2b256) labels after)
    (spares : ∀ label ∈ labels, label.spares peer = true)
    (attended : Attended blake2b256 sys peer frames queue) :
    Attended blake2b256 after peer frames queue := by
  have kept : after.Identified ∧ Attended blake2b256 after peer frames queue := by
    induction run with
    | start => exact ⟨identified, attended⟩
    | extend earlier taken inductionHypothesis =>
      obtain ⟨known, before⟩ := inductionHypothesis
        fun label member => spares label (List.mem_cons_of_mem _ member)
      exact ⟨System.step_identified taken known,
        step_attended known taken (spares _ List.mem_cons_self) before⟩
  exact kept.2

section Serving

variable {router : Router} {frames : List Frame} {queue : WriteQueue} {channel : List ProtocolEvent}
  {point : LoopPoint}

/-- A served peer is attended. -/
theorem served_attended (served : Served blake2b256 sys peer router frames queue channel point) :
    Attended blake2b256 sys peer frames queue :=
  ⟨served.reading, served.sender, served.queued⟩

/-- An attended peer that is registered is served beside another one. -/
theorem attended_served {other : PeerId} {otherFrames : List Frame} {otherQueue : WriteQueue}
    (attended : Attended blake2b256 sys peer frames queue) (registered : peer ∈ router.peers)
    (beside : Served blake2b256 sys other router otherFrames otherQueue channel point) :
    Served blake2b256 sys peer router frames queue channel point :=
  { beside with
    reading := attended.reading
    registered
    sender := attended.sender
    queued := attended.queued }

/-- The event loop moves on while the peer is served. -/
theorem served_moved (served : Served blake2b256 sys peer router frames queue channel point)
    (next : LoopPoint) : Served blake2b256 (sys.moveLoop .events next) peer router frames queue
      channel next :=
  { served with
    events := by rw [System.loops_moveLoop, if_pos rfl]
    keepalive := by
      rw [System.loops_moveLoop, if_neg (by decide)]
      exact served.keepalive }

/-- A served peer's next frame is reported if the channel has room. -/
theorem served_reads {frame : Frame} {message : ProtocolMessage}
    (served : Served blake2b256 sys peer router (frame :: frames) queue channel point)
    (small : frame.body.length ≤ Frame.maxBodySize.toNat)
    (parsed : ProtocolMessage.fromFrame frame = .ok message)
    (room : channel.length < eventCapacity) :
    ∃ after, Step config blake2b256 sys (.task peer [.event (.message peer message)]) after ∧
      Served blake2b256 after peer router frames queue (channel ++ [.message peer message]) point := by
  obtain ⟨origin, task, here, rfl, reading, arriving⟩ := served.reading
  obtain ⟨reader, read, rest⟩ :=
    Frame.readFrame_encoded blake2b256 BufReader.filling small arriving
  have stepped : task.step blake2b256 true = some ([.event (.message task.peerId message)],
      { task with reader, point := .reading }) := by
    rw [PeerTask.step, reading]
    exact congrArg some (PeerTask.readRound_reported blake2b256 true read parsed)
  refine ⟨_, .task sys { sys with channel := sys.channel ++ [.message task.peerId message] }
    task.peerId origin task _ _ here stepped ?_, ?_⟩
  · simp [System.perform, served.pending, room]
  · refine { served with
      reading := ⟨origin, { task with reader, point := .reading }, ?_, rfl, rfl, rest⟩
      pending := ?_ }
    · exact (System.conns_moveTask _ _ _ _ _).trans (if_pos rfl)
    · exact congrArg (· ++ _) served.pending

/-- A served peer that has closed its sending side leaves the reader loop. -/
theorem served_leaves (served : Served blake2b256 sys peer router [] queue channel point) :
    ∃ origin task, task.point = .removing ∧ Step config blake2b256 sys (.task peer [])
      (sys.moveTask peer origin (.running task)) := by
  obtain ⟨origin, task, here, rfl, reading, arriving⟩ := served.reading
  obtain ⟨problem, reader, failed⟩ :=
    Frame.readFrame_ended blake2b256 BufReader.filling task.magic arriving
  refine ⟨origin, { task with reader, point := .removing }, rfl, ?_⟩
  refine .task sys sys task.peerId origin task _ _ here ?_ rfl
  rw [PeerTask.step, reading]
  exact congrArg some (PeerTask.readRound_failed blake2b256 true failed)

/-- The idle event loop receives the first event. -/
theorem served_receives {event : ProtocolEvent}
    (served : Served blake2b256 sys peer router frames queue (event :: channel) .idle) :
    ∃ after, Step config blake2b256 sys (.receive event) after ∧
      Served blake2b256 after peer router frames queue channel (.handling event) :=
  ⟨_, .receive sys event channel served.events served.pending,
    { served_moved served (.handling event) with pending := rfl }⟩

/-- The router handles the event in hand. -/
theorem served_handles {event : ProtocolEvent} {actions : List Action} {next : Router}
    (served : Served blake2b256 sys peer router frames queue channel (.handling event))
    (visit : Traversal router.peers) (clock : Nat → Instant)
    (outcome : router.handleEvent visit clock event = (actions, next))
    (registered : peer ∈ next.peers) :
    ∃ after, Step config blake2b256 sys (.handle event actions) after ∧
      Served blake2b256 after peer next frames queue channel (.locking actions) := by
  obtain rfl := served.routing
  have taken : Step config blake2b256 sys _ _ := .handle sys event visit clock served.events
  rw [outcome] at taken
  exact ⟨_, taken, { served_moved served (.locking actions) with routing := rfl, registered }⟩

/-- Handling a connection causes no action. -/
theorem served_handles_connection {other : PeerId} {spec : Handshake.PeerSpec}
    {direction : Direction}
    (served : Served blake2b256 sys peer router frames queue channel
      (.handling (.peerConnected other spec direction))) :
    ∃ after, Step config blake2b256 sys (.handle (.peerConnected other spec direction) []) after ∧
      Served blake2b256 after peer router frames queue channel (.locking []) := by
  obtain ⟨visit⟩ := traversal_exists router.peers
  exact served_handles served visit (fun _ => 0) rfl served.registered

/-- A served peer that asks for peers is answered. -/
theorem served_handles_request
    (served : Served blake2b256 sys peer router frames queue channel
      (.handling (.message peer .getPeers))) :
    ∃ after, Step config blake2b256 sys
        (.handle (.message peer .getPeers) [.send peer (.peers [])]) after ∧
      Served blake2b256 after peer router frames queue channel
        (.locking [.send peer (.peers [])]) := by
  obtain ⟨visit⟩ := traversal_exists router.peers
  obtain ⟨entry, found⟩ := Finmap.mem_iff.mp served.registered
  refine served_handles served visit (fun _ => 0) ?_ served.registered
  simp only [Router.handleEvent, Router.routeMessage, found]

/-- The event loop takes the lock, which the keepalive task does not hold. -/
theorem served_locks {todo : List Action}
    (served : Served blake2b256 sys peer router frames queue channel (.locking todo)) :
    ∃ after, Step config blake2b256 sys (.lock .events) after ∧
      Served blake2b256 after peer router frames queue channel (.sending todo) := by
  refine ⟨_, .lock sys .events todo served.events ?_, served_moved served _⟩
  intro loop
  cases loop with
  | events => rw [served.events]; rfl
  | keepalive => rw [served.keepalive]; rfl

/-- A frame for a served peer is offered to its write queue. -/
theorem served_offers {message : ProtocolMessage} {todo : List Action}
    (served : Served blake2b256 sys peer router frames queue channel
      (.sending (.send peer message :: todo))) :
    ∃ after, Step config blake2b256 sys (.execute .events (.send peer message)) after ∧
      Served blake2b256 after peer router frames queue channel (.offering peer message.toFrame todo) := by
  have taken : Step config blake2b256 sys _ _ :=
    .execute sys .events (.send peer message) todo served.events
  rw [if_pos served.sender] at taken
  exact ⟨_, taken, served_moved served _⟩

/-- An offered frame is delivered if the queue has room. -/
theorem served_delivers {frame : Frame} {todo : List Action}
    (served : Served blake2b256 sys peer router frames queue channel (.offering peer frame todo))
    (ready : ¬ queue.Full) :
    ∃ after, Step config blake2b256 sys (.deliver .events) after ∧
      Served blake2b256 after peer router frames (queue.push frame) channel (.sending todo) :=
  ⟨_, .deliver sys .events peer frame todo queue served.events served.queued ready,
    { served_moved served (.sending todo) with
      queued := (lookup_insert_eq sys.queues peer peer _).trans (if_pos rfl) }⟩

/-- The event loop gives the lock back. -/
theorem served_releases
    (served : Served blake2b256 sys peer router frames queue channel (.sending [])) :
    ∃ after, Step config blake2b256 sys (.release .events) after ∧
      Served blake2b256 after peer router frames queue channel .idle :=
  ⟨_, .release sys .events served.events, served_moved served .idle⟩

/-- What it takes until a queue has an action that the event loop has at hand. -/
def sendingLabels (action : Action) : List Label :=
  [.release .events, .deliver .events, .execute .events action, .lock .events]

/-- The only action at hand enters the peer's queue, which has room. -/
theorem served_sends {message : ProtocolMessage}
    (served : Served blake2b256 sys peer router frames queue channel
      (.locking [.send peer message])) (ready : ¬ queue.Full) :
    ∃ after, Run sys (Step config blake2b256) (sendingLabels (.send peer message)) after ∧
      Served blake2b256 after peer router frames (queue.push message.toFrame) channel .idle := by
  obtain ⟨_, locked, served⟩ := served_locks served
  obtain ⟨_, offered, served⟩ := served_offers served
  obtain ⟨_, delivered, served⟩ := served_delivers served ready
  obtain ⟨after, released, served⟩ := served_releases served
  exact ⟨after, .extend (.extend (.extend (.extend .start locked) offered) delivered) released,
    served⟩

/-- The writer of a served peer takes the first frame. -/
theorem served_writes {frame : Frame} {rest : List Frame}
    (served : Served blake2b256 sys peer router frames ⟨frame :: rest, .waiting⟩ channel point) :
    ∃ after, Step config blake2b256 sys (.writer peer) after ∧
      Served blake2b256 after peer router frames ⟨rest, .writing frame⟩ channel point :=
  ⟨_, .writer sys peer _ _ served.queued (.take frame rest),
    { served with queued := (lookup_insert_eq sys.queues peer peer _).trans (if_pos rfl) }⟩

/-- The writer of a served peer has written its frame. -/
theorem served_written {frame : Frame} {rest : List Frame}
    (served : Served blake2b256 sys peer router frames ⟨rest, .writing frame⟩ channel point) :
    ∃ after, Step config blake2b256 sys (.writer peer) after ∧
      Served blake2b256 after peer router frames ⟨rest, .waiting⟩ channel point :=
  ⟨_, .writer sys peer _ _ served.queued (.written frame rest),
    { served with queued := (lookup_insert_eq sys.queues peer peer _).trans (if_pos rfl) }⟩

/-- What the event loop does with a connection that it finds in the channel. -/
def connectedLabels (peer : PeerId) (spec : Handshake.PeerSpec) (direction : Direction) :
    List Label :=
  [.release .events, .lock .events, .handle (.peerConnected peer spec direction) [],
    .receive (.peerConnected peer spec direction)]

/-- The event loop takes note of a connection and is idle again. -/
theorem served_notes {other : PeerId} {spec : Handshake.PeerSpec} {direction : Direction}
    (served : Served blake2b256 sys peer router frames queue
      (.peerConnected other spec direction :: channel) .idle) :
    ∃ after, Run sys (Step config blake2b256) (connectedLabels other spec direction) after ∧
      Served blake2b256 after peer router frames queue channel .idle := by
  obtain ⟨_, received, served⟩ := served_receives served
  obtain ⟨_, handled, served⟩ := served_handles_connection served
  obtain ⟨_, locked, served⟩ := served_locks served
  obtain ⟨after, released, served⟩ := served_releases served
  exact ⟨after, .extend (.extend (.extend (.extend .start received) handled) locked) released,
    served⟩

/-- What it takes until the event loop is about to answer a request for peers. -/
def requestedLabels (peer : PeerId) : List Label :=
  [.lock .events, .handle (.message peer .getPeers) [.send peer (.peers [])],
    .receive (.message peer .getPeers), .task peer [.event (.message peer .getPeers)]]

/-- A served peer asks for peers, and the event loop is about to answer. -/
theorem served_requests
    (served : Served blake2b256 sys peer router (ProtocolMessage.getPeers.toFrame :: frames) queue []
      .idle) :
    ∃ after, Run sys (Step config blake2b256) (requestedLabels peer) after ∧
      Served blake2b256 after peer router frames queue [] (.sending [.send peer (.peers [])]) := by
  obtain ⟨_, read, served⟩ := served_reads served (Nat.zero_le _) rfl (by decide)
  obtain ⟨_, received, served⟩ := served_receives served
  obtain ⟨_, handled, served⟩ := served_handles_request served
  obtain ⟨after, locked, served⟩ := served_locks served
  exact ⟨after, .extend (.extend (.extend (.extend .start read) received) handled) locked, served⟩

/-- What it takes until an answer to a request for peers is offered to the peer. -/
def askedLabels (peer : PeerId) : List Label :=
  [.execute .events (.send peer (.peers [])), .lock .events,
    .handle (.message peer .getPeers) [.send peer (.peers [])], .receive (.message peer .getPeers),
    .task peer [.event (.message peer .getPeers)]]

/-- A served peer asks for peers, and the answer is offered to it. -/
theorem served_asks
    (served : Served blake2b256 sys peer router (ProtocolMessage.getPeers.toFrame :: frames) queue []
      .idle) :
    ∃ after, Run sys (Step config blake2b256) (askedLabels peer) after ∧
      Served blake2b256 after peer router frames queue []
        (.offering peer (ProtocolMessage.peers []).toFrame []) := by
  obtain ⟨_, requested, served⟩ := served_requests served
  obtain ⟨after, offered, served⟩ := served_offers served
  exact ⟨after, .extend requested offered, served⟩

/-- A served peer asks for peers, and the answer enters its queue, which has room. -/
theorem served_round
    (served : Served blake2b256 sys peer router (ProtocolMessage.getPeers.toFrame :: frames) queue []
      .idle) (ready : ¬ queue.Full) :
    ∃ after, Run sys (Step config blake2b256)
        (.release .events :: .deliver .events :: askedLabels peer) after ∧
      Served blake2b256 after peer router frames (queue.push (ProtocolMessage.peers []).toFrame) []
        .idle := by
  obtain ⟨_, asked, served⟩ := served_asks served
  obtain ⟨_, delivered, served⟩ := served_delivers served ready
  obtain ⟨after, released, served⟩ := served_releases served
  exact ⟨after, .extend (.extend asked delivered) released, served⟩

/-- A served peer sends a message, and the router wants it passed on to another served peer, whose
queue has room: the event loop receives and handles the message and puts it into that queue. -/
theorem served_relays {source : PeerId} {message sent : ProtocolMessage} {sourceFrames : List Frame}
    {sourceQueue : WriteQueue} {next : Router} (identified : sys.Identified)
    (speaks : Served blake2b256 sys source router (message.toFrame :: sourceFrames) sourceQueue []
      .idle) (attended : Attended blake2b256 sys peer frames queue) (other : source ≠ peer)
    (small : message.toFrame.body.length ≤ Frame.maxBodySize.toNat)
    (parsed : ProtocolMessage.fromFrame message.toFrame = .ok message)
    (visit : Traversal router.peers) (clock : Nat → Instant)
    (outcome : router.handleEvent visit clock (.message source message) = ([.send peer sent], next))
    (registered : peer ∈ router.peers) (kept : peer ∈ next.peers) (ready : ¬ queue.Full) :
    ∃ heard handled after, Run sys (Step config blake2b256)
        [.receive (.message source message), .task source [.event (.message source message)]] heard ∧
      Served blake2b256 heard peer router frames queue [] (.handling (.message source message)) ∧
      Step config blake2b256 heard (.handle (.message source message) [.send peer sent]) handled ∧
      Run handled (Step config blake2b256) (sendingLabels (.send peer sent)) after ∧
      Served blake2b256 after peer next frames (queue.push sent.toFrame) [] .idle := by
  obtain ⟨_, read, speaks⟩ := served_reads speaks small parsed (by decide)
  have attended := step_attended identified read (decide_eq_true other) attended
  obtain ⟨heard, received, hears⟩ := served_receives (attended_served attended registered speaks)
  obtain ⟨handled, handles, handling⟩ := served_handles hears visit clock outcome kept
  obtain ⟨after, sends, served⟩ := served_sends handling ready
  exact ⟨heard, handled, after, .extend (.extend .start read) received, hears, handles, sends, served⟩

/-- Any number of requests for peers can be answered into a queue with enough room, without
a step of the writer. -/
theorem served_fills (count : Nat)
    (served : Served blake2b256 sys peer router
      (List.replicate count ProtocolMessage.getPeers.toFrame ++ frames) queue [] .idle)
    (receiving : queue.writer ≠ .ended) (room : queue.frames.length + count ≤ writeCapacity) :
    ∃ labels after filled, Run sys (Step config blake2b256) labels after ∧
      Served blake2b256 after peer router frames filled [] .idle ∧
      filled.frames.length = queue.frames.length + count ∧ filled.writer = queue.writer := by
  induction count generalizing sys queue with
  | zero => exact ⟨[], sys, queue, .start, served, rfl, rfl⟩
  | succ count inductionHypothesis =>
    have ready : ¬ queue.Full := fun full => by
      have filled := full.2
      omega
    obtain ⟨_, round, served⟩ := served_round served ready
    have pushed : queue.push (ProtocolMessage.peers []).toFrame =
        { queue with frames := queue.frames ++ [(ProtocolMessage.peers []).toFrame] } :=
      if_neg receiving
    rw [pushed] at served
    obtain ⟨labels, after, filled, rest, served, length, writer⟩ := inductionHypothesis served
      receiving (by simp only [List.length_append, List.length_singleton]; omega)
    refine ⟨_, after, filled, continued round rest, served, ?_, writer⟩
    simp only [length, List.length_append, List.length_singleton]
    omega

/-- The arrival of another peer does not disturb a served one. -/
theorem served_entered {after : System} {other : PeerId} {origin : Origin} {task : PeerTask}
    (served : Served blake2b256 sys peer router frames queue channel point)
    (entered : Entered sys after other origin task) (different : peer ≠ other) :
    Served blake2b256 after peer (router.registerPeer other task.direction task.mode) frames queue
      channel point where
  reading := by
    rw [entered.others peer different]
    exact served.reading
  routing := by rw [entered.router, served.routing]
  registered := Finmap.mem_insert.mpr (.inr served.registered)
  sender := entered.senders ▸ served.sender
  queued := entered.queues ▸ served.queued
  pending := entered.channel.trans served.pending
  events := entered.loops ▸ served.events
  keepalive := entered.loops ▸ served.keepalive

end Serving

/-- Nobody is registered when the program starts, so a listener that admits peers accepts
the first connection. -/
theorem first_accepted {index : Nat} {listener : Listener}
    (configured : config.listeners[index]? = some listener) (space : 0 < listener.maxInbound) :
    Step config blake2b256 System.new (.accept index ⟨1⟩)
      (System.new.spawnTask (.listener index)) :=
  .accept System.new index listener configured ⟨[], rfl⟩ space rfl

/-- A proxy that has just started comes to serve its first peer, whatever that sends after
its handshake. -/
theorem first_served (blake2b256 : Bytes → Vector UInt8 32) {index : Nat} {listener : Listener}
    (configured : config.listeners[index]? = some listener) (space : 0 < listener.maxInbound)
    (frames : List Frame) :
    ∃ sys, SystemRun config blake2b256 (connectedLabels ⟨1⟩ shortestSpec .inbound ++
        arrivalLabels (.accept index ⟨1⟩) ⟨1⟩ .inbound listener.mode) sys ∧
      Served blake2b256 sys ⟨1⟩ (Router.new.registerPeer ⟨1⟩ .inbound listener.mode) frames
        ⟨[], .waiting⟩ [] .idle := by
  obtain ⟨_, arrived, served⟩ := spawned_served (first_accepted configured space)
    (listener_handshaken configured _) (by decide) (fun _ => rfl) frames
  obtain ⟨sys, noted, served⟩ := served_notes served
  exact ⟨sys, continued arrived noted, served⟩

/-- What it takes until a dialed peer and an accepted one are served. -/
def pairLabels (index : Nat) (mode : ProxyMode) : List Label :=
  connectedLabels ⟨2⟩ shortestSpec .inbound ++ (connectingLabels ⟨2⟩ shortestSpec .inbound ++
    [.task ⟨2⟩ [.registerPeer ⟨2⟩ .inbound mode], .handshake ⟨2⟩] ++
    (connectedLabels ⟨1⟩ shortestSpec .outbound ++ (connectingLabels ⟨1⟩ shortestSpec .outbound ++
      [.task ⟨1⟩ [.registerPeer ⟨1⟩ .outbound .full], .handshake ⟨1⟩] ++
      [.accept index ⟨2⟩, .dial ⟨1⟩])))

/-- The router that knows a dialed peer and an accepted one. -/
def pairRouter (mode : ProxyMode) : Router :=
  (Router.new.registerPeer ⟨1⟩ .outbound .full).registerPeer ⟨2⟩ .inbound mode

/-- A proxy that has just started comes to serve a peer that it has dialed and one that it has
accepted, whatever the latter sends after its handshake. -/
theorem pair_served (blake2b256 : Bytes → Vector UInt8 32) {index : Nat} {listener : Listener}
    (configured : config.listeners[index]? = some listener) (space : 0 < listener.maxInbound)
    (frames : List Frame) :
    ∃ sys, SystemRun config blake2b256 (pairLabels index listener.mode) sys ∧
      Attended blake2b256 sys ⟨1⟩ [] ⟨[], .waiting⟩ ∧
      Served blake2b256 sys ⟨2⟩ (pairRouter listener.mode) frames ⟨[], .waiting⟩ [] .idle := by
  have dialed : Step config blake2b256 System.new (.dial ⟨1⟩) _ := .dial _ rfl
  have accepted : Step config blake2b256 (System.new.spawnTask .manager) (.accept index ⟨2⟩) _ :=
    .accept _ index listener configured ⟨[], rfl⟩ space rfl
  have spawned : SystemRun config blake2b256 _ _ := .extend (.extend .start dialed) accepted
  have first : ((System.new.spawnTask .manager).spawnTask (.listener index)).conns.lookup ⟨1⟩ =
      some ⟨.manager, .handshaking⟩ := rfl
  obtain ⟨_, firstArrives, firstServed⟩ := handshaking_served first (manager_handshaken _)
    (Nat.zero_lt_succ 255) (fun _ => rfl) []
  obtain ⟨middle, firstNoted, firstServed⟩ := served_notes firstServed
  have reached := continued (continued spawned firstArrives) firstNoted
  have second : middle.conns.lookup ⟨2⟩ = some ⟨.listener index, .handshaking⟩ := by
    rw [run_untouched firstNoted (by simp [connectedLabels, Label.connection]),
      run_untouched firstArrives (by simp [connectingLabels, Label.connection])]
    rfl
  have idle : ∀ loop, middle.loops loop = .idle := by
    intro loop
    cases loop with
    | events => exact firstServed.events
    | keepalive => exact firstServed.keepalive
  obtain ⟨_, secondArrives, secondServed⟩ := handshaking_served second
    (listener_handshaken configured _) (by rw [firstServed.pending]; decide) idle frames
  rw [firstServed.pending, firstServed.routing] at secondServed
  obtain ⟨sys, secondNoted, secondServed⟩ := served_notes secondServed
  refine ⟨sys, continued (continued reached secondArrives) secondNoted, ?_, secondServed⟩
  refine run_attended (System.run_identified reached) (continued secondArrives secondNoted) ?_
    (served_attended firstServed)
  simp [connectedLabels, connectingLabels, Label.spares]

/-- A proxy with one listener, which admits one peer. -/
def soloConfig : Config := ⟨"ergo-proxy", "solo", ⟨6, 0, 1⟩, .testnet, [⟨.full, 1⟩]⟩

theorem solo_listener : soloConfig.listeners[0]? = some ⟨.full, 1⟩ := rfl

end ErgoProxy.Runtime
