import ErgoProxy.Runtime.EventOrder
import ErgoProxy.Transport.FrameStreams

/-!
# What becomes of a byte stream

The reader of a connection carries arbitrary bytes in arbitrary chunks, and may fail at any
place. The frames of such a stream are those that the slice decoder finds one behind the
other. The task of the connection reports exactly the messages of these frames, whatever the
chunks are, and however its steps are interleaved with those of the other tasks: the events
that it has sent and the events that it will send are the same list at every moment.
-/

namespace ErgoProxy.Session

open ErgoProxy.Frame

/-- The messages of the frames that can be parsed. -/
def parsed (frames : List Frame) : List ProtocolMessage :=
  frames.filterMap fun frame => (ProtocolMessage.fromFrame frame).toOption

/-- The events of a peer's frames are its messages. -/
theorem messages_parsed (peerId : PeerId) (frames : List Frame) :
    messages peerId frames = (parsed frames).map (.message peerId) := by
  rw [messages, parsed, List.map_filterMap]
  congr 1
  funext frame
  cases ProtocolMessage.fromFrame frame <;> rfl

section Tasks

variable (blake2b256 : Bytes → Vector UInt8 32) {task : PeerTask} {listening : Nat → Bool}

/-- The reader loop on any stream: one event for each frame of the stream that can be parsed,
then the disconnect. Induct over the frames of the stream: a read that succeeds returns the
first of them, and one that fails finds none. -/
theorem reading_stream (alive : ∀ count, listening count = true) (loops : task.point = .reading) :
    events (task.execute blake2b256 listening) =
      messages task.peerId (streamFrames blake2b256 task.magic task.reader.contents) ++
        [.peerDisconnected task.peerId "connection closed"] := by
  generalize found : streamFrames blake2b256 task.magic task.reader.contents = frames
  rw [round_events blake2b256 alive loops]
  induction frames generalizing task listening with
  | nil =>
    cases read : readFrame blake2b256 BufReader.readExact task.magic task.reader with
    | ok frame reader => cases found.symm.trans (streamFrames_read blake2b256 BufReader.filling read)
    | error problem reader =>
      rw [PeerTask.readRound_failed blake2b256 true read]
      exact removing_events blake2b256 (fun count => alive (count + 1)) rfl
  | cons frame frames inductionHypothesis =>
    cases read : readFrame blake2b256 BufReader.readExact task.magic task.reader with
    | error problem reader =>
      cases found.symm.trans (streamFrames_failed blake2b256 BufReader.filling read)
    | ok first reader =>
      obtain ⟨rfl, rest⟩ := List.cons.inj
        ((streamFrames_read blake2b256 BufReader.filling read).symm.trans found)
      have aliveLater : ∀ count, listening (count + 1) = true := fun count => alive (count + 1)
      cases outcome : ProtocolMessage.fromFrame first with
      | error problem =>
        have skipped : messages task.peerId (first :: frames) = messages task.peerId frames := by
          simp [messages, outcome]
        have stillLoops : { task with reader }.point = .reading := loops
        rw [PeerTask.readRound_skipped blake2b256 true read outcome, skipped,
          round_events blake2b256 aliveLater stillLoops,
          inductionHypothesis aliveLater stillLoops rest]
        rfl
      | ok message =>
        have reported : messages task.peerId (first :: frames) =
            .message task.peerId message :: messages task.peerId frames := by
          simp [messages, outcome]
        rw [PeerTask.readRound_reported blake2b256 true read outcome, reported,
          round_events blake2b256 aliveLater rfl, inductionHypothesis aliveLater rfl rest]
        rfl

/-- A task that has just been started reports the connection, the messages of its stream and
the disconnect. -/
theorem registering_stream (alive : ∀ count, listening count = true)
    (early : task.point = .registering) :
    events (task.execute blake2b256 listening) =
      Runtime.lifecycle task.peerId task.spec task.direction
        (parsed (streamFrames blake2b256 task.magic task.reader.contents)) := by
  have registering : task.step blake2b256 (listening 0) =
      some ([.registerPeer task.peerId task.direction task.mode],
        { task with point := .connecting }) := by
    rw [PeerTask.step, early]
  rw [step_events blake2b256 registering, step_events blake2b256 rfl, step_events blake2b256 rfl,
    step_events blake2b256 rfl, reading_stream blake2b256 (fun count => alive _) rfl, alive,
    messages_parsed]
  rfl

end Tasks

/-- The task of any connection, whose stream may hold any bytes in any chunks and break off
anywhere, reports the connection, the messages of the frames that can be decoded one behind
the other and parsed, and the disconnect. If the other side has sent admissible frames and the
stream breaks off somewhere inside them, these are the messages of the first frames. -/
theorem session_stream (blake2b256 : Bytes → Vector UInt8 32) {listening : Nat → Bool}
    (alive : ∀ count, listening count = true) (peerId : PeerId) (conn : Connection)
    (direction : Direction) (mode : ProxyMode) :
    events ((PeerTask.start peerId conn direction mode).execute blake2b256 listening) =
      Runtime.lifecycle peerId conn.peerSpec direction
        (parsed (streamFrames blake2b256 conn.magic conn.reader.contents)) ∧
    ∀ frames : List Frame, (∀ frame ∈ frames, frame.body.length ≤ maxBodySize.toNat) →
      conn.reader.contents <+: frames.flatMap (encode blake2b256 conn.magic) →
      ∃ arrived, arrived <+: frames ∧
        events ((PeerTask.start peerId conn direction mode).execute blake2b256 listening) =
          Runtime.lifecycle peerId conn.peerSpec direction (parsed arrived) := by
  have whole := registering_stream blake2b256 alive
    (show (PeerTask.start peerId conn direction mode).point = .registering from rfl)
  refine ⟨whole, fun frames small cut => ⟨_, ?_, whole⟩⟩
  exact streamFrames_prefix blake2b256 conn.magic small cut

/-- A request for peers arrives in two chunks, and the connection is reset inside the next
frame. -/
def brokenConnection : Connection where
  reader := ⟨[], [.ok [1, 0, 2, 4, 1, 0, 0, 0, 0, 0x0e], .ok [0x57, 0x51, 0xc0, 1, 0],
    .error IoError.shortRead]⟩
  written := []
  magic := Network.mainnet.magic
  peerSpec := Runtime.shortestSpec

/-- The request is reported, and then the disconnect. -/
theorem session_stream_broken :
    events ((PeerTask.start ⟨1⟩ brokenConnection .inbound .full).execute
        (fun _ => emptyDigest) fun _ => true) =
      Runtime.lifecycle ⟨1⟩ Runtime.shortestSpec .inbound [.getPeers] := by
  have small : (Frame.mk 1 []).body.length ≤ maxBodySize.toNat := by decide
  have cut : streamFrames (fun _ => emptyDigest) Network.mainnet.magic [1, 0] = [] :=
    streamFrames_cut (fun _ => emptyDigest) Network.mainnet.magic small ⟨_, rfl⟩ (by decide)
  have frames : streamFrames (fun _ => emptyDigest) brokenConnection.magic
      brokenConnection.reader.contents = [⟨1, []⟩] :=
    (streamFrames_encoded (fun _ => emptyDigest) Network.mainnet.magic small [1, 0]).trans (by rw [cut])
  rw [(session_stream (fun _ => emptyDigest) (fun _ => rfl) ⟨1⟩ brokenConnection .inbound .full).1,
    frames]
  rfl

end ErgoProxy.Session

namespace ErgoProxy.Runtime

open ErgoProxy.Frame Runs Session

variable {config : Config} {blake2b256 : Bytes → Vector UInt8 32} {sys after start : System}
  {label : Label} {labels earlier : List Label} {peer : PeerId}

/-- What a task has still to send. -/
def outstanding (blake2b256 : Bytes → Vector UInt8 32) (task : PeerTask) : List ProtocolEvent :=
  events (task.execute blake2b256 fun _ => true)

/-- Events sent by consecutive steps. -/
theorem sent_append (later earlier : List Label) :
    sent (later ++ earlier) = sent earlier ++ sent later := by
  induction later with
  | nil => exact (List.append_nil _).symm
  | cons label later inductionHypothesis =>
    cases label with
    | task peerId effects =>
      change sent (later ++ earlier) ++ events effects = sent earlier ++ (sent later ++ events effects)
      rw [inductionHypothesis, List.append_assoc]
    | _ => exact inductionHypothesis

/-- A step of a task is its own next step. -/
theorem task_stepped {origin : Origin} {task : PeerTask} {effects : List TaskEffect}
    (taken : Step config blake2b256 sys (.task peer effects) after)
    (here : sys.conns.lookup peer = some ⟨origin, .running task⟩) :
    ∃ next, task.step blake2b256 true = some (effects, next) ∧
      after.conns.lookup peer = some ⟨origin, .running next⟩ := by
  cases taken with
  | task performed _ _ _ next _ found stepped unblocked =>
    cases here.symm.trans found
    exact ⟨next, stepped, (System.conns_moveTask _ _ _ _ _).trans (if_pos rfl)⟩

/-- What a step sends about a peer is taken from what its task has still to send. -/
theorem step_outstanding (identified : sys.Identified)
    (taken : Step config blake2b256 sys label after) {origin : Origin} {task : PeerTask}
    (here : sys.conns.lookup peer = some ⟨origin, .running task⟩) :
    ∃ next, after.conns.lookup peer = some ⟨origin, .running next⟩ ∧
      outstanding blake2b256 task =
        about peer (sent [label]) ++ outstanding blake2b256 next := by
  cases System.step_staged identified taken peer with
  | kept other same =>
    refine ⟨task, same.trans here, ?_⟩
    rw [sent_other identified taken other]
    rfl
  | spawned _ _ fresh => cases fresh.symm.trans here
  | handshaken _ _ _ before => cases before.symm.trans here
  | acted _ _ _ effects _ before acted own =>
    subst own
    cases here.symm.trans before
    obtain ⟨next, stepped, now⟩ := task_stepped taken here
    refine ⟨next, now, ?_⟩
    have owned : about peer (events effects) = events effects := by
      apply List.filter_eq_self.mpr
      intro event member
      rw [acted_about acted event member, identified _ _ _ here]
      exact decide_eq_true rfl
    rw [outstanding, step_events blake2b256 stepped]
    exact congrArg (fun sent => sent ++ outstanding blake2b256 next) owned.symm

/-- Along a run, what a task has sent and what it has still to send make up the same list. -/
theorem run_outstanding (run : SystemRun config blake2b256 earlier start)
    (more : Run start (Step config blake2b256) labels sys) {origin : Origin} {task : PeerTask}
    (here : start.conns.lookup peer = some ⟨origin, .running task⟩) :
    ∃ now, sys.conns.lookup peer = some ⟨origin, .running now⟩ ∧
      outstanding blake2b256 task = about peer (sent labels) ++ outstanding blake2b256 now := by
  refine invariant (fun passed reached => ∃ now,
    reached.conns.lookup peer = some ⟨origin, .running now⟩ ∧ outstanding blake2b256 task =
      about peer (sent passed) ++ outstanding blake2b256 now) ⟨task, here, rfl⟩ ?_ more
  rintro passed before label after reached ⟨now, found, whole⟩ taken
  obtain ⟨next, later, split⟩ :=
    step_outstanding (System.run_identified (continued run reached)) taken found
  have appended : about peer (sent (label :: passed)) =
      about peer (sent passed) ++ about peer (sent [label]) := by
    rw [← List.singleton_append, sent_append, about, List.filter_append]
    rfl
  refine ⟨next, later, ?_⟩
  rw [whole, split, appended, List.append_assoc]

/-- What has been handled about a peer is an initial part of the lifecycle with the messages of
its byte stream. -/
theorem handled_stream (run : SystemRun config blake2b256 earlier start)
    (more : Run start (Step config blake2b256) labels sys) {origin : Origin} {task : PeerTask}
    (here : start.conns.lookup peer = some ⟨origin, .running task⟩)
    (early : task.point = .registering) :
    about peer (handled (labels ++ earlier)) <+: lifecycle peer task.spec task.direction
      (parsed (streamFrames blake2b256 task.magic task.reader.contents)) := by
  have unsent := registering_unsent run here early
  obtain ⟨now, _, whole⟩ := run_outstanding run more here
  have beginning : about peer (sent (labels ++ earlier)) = about peer (sent labels) := by
    rw [sent_append, about, List.filter_append]
    change about peer (sent earlier) ++ about peer (sent labels) = _
    rw [unsent, List.nil_append]
  have initial : about peer (handled (labels ++ earlier)) <+: outstanding blake2b256 task := by
    rw [whole, ← beginning, about_fifo (continued run more), List.append_assoc]
    exact List.prefix_append _ _
  rw [outstanding, registering_stream blake2b256 (fun _ => rfl) early,
    System.run_identified run _ _ _ here] at initial
  exact initial

/-- When the disconnect of a peer has been handled, what has been handled about it is the whole
lifecycle with the messages of its byte stream. -/
theorem departed_stream (run : SystemRun config blake2b256 earlier start)
    (more : Run start (Step config blake2b256) labels sys) {origin : Origin} {task : PeerTask}
    (here : start.conns.lookup peer = some ⟨origin, .running task⟩)
    (early : task.point = .registering) (departed : Departed (labels ++ earlier) peer) :
    about peer (handled (labels ++ earlier)) = lifecycle peer task.spec task.direction
      (parsed (streamFrames blake2b256 task.magic task.reader.contents)) := by
  have initial := handled_stream run more here early
  obtain ⟨reason, member⟩ := departed
  have mentioned : .peerDisconnected peer reason ∈ about peer (handled (labels ++ earlier)) :=
    List.mem_filter.mpr ⟨member, by simp [eventPeer]⟩
  obtain rfl : reason = "connection closed" := by
    have included := initial.subset mentioned
    simpa [lifecycle] using included
  exact prefix_closed initial (by simp) mentioned

/-- However the steps of all tasks are interleaved, once a peer's handshake has succeeded the
events about it that the router handles are an initial part of the lifecycle with exactly the
messages of the peer's byte stream, and when its disconnect has been handled they are all of
it: no message is lost, repeated, reordered or made up between the socket and the router. -/
theorem stream_handled (run : SystemRun config blake2b256 earlier start)
    (more : Run start (Step config blake2b256) labels sys) {origin : Origin} {task : PeerTask}
    (here : start.conns.lookup peer = some ⟨origin, .running task⟩)
    (early : task.point = .registering) :
    about peer (handled (labels ++ earlier)) <+: lifecycle peer task.spec task.direction
        (parsed (streamFrames blake2b256 task.magic task.reader.contents)) ∧
      (Departed (labels ++ earlier) peer →
        about peer (handled (labels ++ earlier)) = lifecycle peer task.spec task.direction
          (parsed (streamFrames blake2b256 task.magic task.reader.contents))) :=
  ⟨handled_stream run more here early, departed_stream run more here early⟩

/-- The task of a peer that has sent the shortest handshake and a request for peers. -/
def askingTask : PeerTask :=
  .start ⟨1⟩ (shortestConnection (soloConfig.makeHandshakeConfig .full)
    (([ProtocolMessage.getPeers.toFrame].map
      (encode (fun _ => emptyDigest) soloConfig.network.magic)).map .ok)) .inbound .full

/-- The first peer of a proxy asks for peers. What has been handled about it when the answer is
about to be sent is the beginning of its lifecycle. -/
theorem stream_handled_request :
    ∃ earlier labels start sys,
      SystemRun soloConfig (fun _ => emptyDigest) earlier start ∧
      Run start (Step soloConfig fun _ => emptyDigest) labels sys ∧
      start.conns.lookup ⟨1⟩ = some ⟨.listener 0, .running askingTask⟩ ∧
      handled (labels ++ earlier) =
        [.peerConnected ⟨1⟩ shortestSpec .inbound, .message ⟨1⟩ .getPeers] ∧
      about ⟨1⟩ (handled (labels ++ earlier)) <+: lifecycle ⟨1⟩ shortestSpec .inbound
        (parsed (streamFrames (fun _ => emptyDigest) askingTask.magic
          askingTask.reader.contents)) := by
  have accepted : SystemRun soloConfig (fun _ => emptyDigest) [.accept 0 ⟨1⟩] _ :=
    .extend .start (first_accepted solo_listener Nat.one_pos)
  have shaken : Step soloConfig (fun _ => emptyDigest) _ (.handshake ⟨1⟩) _ :=
    .handshake (System.new.spawnTask (.listener 0)) ⟨1⟩ (.listener 0) rfl promptly (shortestReader
      (([ProtocolMessage.getPeers.toFrame].map
        (encode (fun _ => emptyDigest) soloConfig.network.magic)).map .ok))
  rw [listener_handshaken solo_listener] at shaken
  have run := Run.extend accepted shaken
  have here : ((System.new.spawnTask (.listener 0)).moveTask ⟨1⟩ (.listener 0)
      (.running askingTask)).conns.lookup ⟨1⟩ = some ⟨.listener 0, .running askingTask⟩ :=
    (System.conns_moveTask _ _ _ _ _).trans (if_pos rfl)
  obtain ⟨_, registered, entered⟩ :=
    @registering_enters soloConfig _ _ (fun _ => emptyDigest) _ _ here rfl rfl
  obtain ⟨_, connecting, served⟩ := connecting_served entered.task rfl rfl
    (frames_arrive _ [ProtocolMessage.getPeers.toFrame])
    (by rw [entered.router]; exact Finmap.mem_insert.mpr (.inl rfl))
    (by rw [entered.channel]; decide) (by rw [entered.loops]; exact fun _ => rfl)
  rw [entered.channel] at served
  obtain ⟨_, noted, served⟩ := served_notes served
  obtain ⟨sys, requested, _⟩ := served_requests served
  have more := continued (continued (continued (.extend .start registered) connecting) noted) requested
  exact ⟨_, _, _, sys, run, more, here, rfl, (stream_handled run more here rfl).1⟩

end ErgoProxy.Runtime
