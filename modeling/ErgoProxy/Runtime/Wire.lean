import ErgoProxy.Routing.Relay
import ErgoProxy.Runtime.Membership
import ErgoProxy.Runtime.Streams
import ErgoProxy.Runtime.Traffic

/-!
# From the write queues to the wire

The writer of a peer takes the frames of the queue one by one and writes their encodings. A
write can fail in the middle of a frame, and the abort of the writer can break it off there.
So the bytes that are handed to the socket are the encodings of the frames that were written and a
part of one more. Whatever the part is, only frames that the queue took can be decoded from them, in
order and without a gap; and each of them reads back as the message that the router emitted.

A write is complete when the socket has the bytes. They may still be on their way then, and a
connection that breaks may lose some of them, so what has arrived at the other side is some beginning
of these bytes. What is said of each message that can be read from them holds of every beginning.

Together with what is known about byte streams this covers the whole way through the program:
what can be read on one side was emitted for what another side has sent.
-/

namespace ErgoProxy.Runtime

open ErgoProxy.Frame FiniteMaps Routing Runs Session

/-- The frame that a writer is writing. -/
def WriterPoint.current : WriterPoint → List Frame
  | .writing frame => [frame]
  | _ => []

/-- The frame that the writer of a peer is writing. -/
def System.current (sys : System) (peer : PeerId) : List Frame :=
  match sys.queues.lookup peer with
  | none => []
  | some queue => queue.writer.current

/-- The frames that a peer's queue has taken and its writer has not written. -/
def System.backlog (sys : System) (peer : PeerId) : List Frame :=
  match sys.queues.lookup peer with
  | none => []
  | some queue => queue.writer.current ++ queue.frames

/-- The frames that a step puts into a peer's queue. -/
def accepted (peer : PeerId) (step : Transition System Label) : List Frame :=
  ((settled peer step).filter fun settlement => settlement.fate = .accepted).map Settlement.frame

/-- The frame that a step of the peer's writer has written, if it has not failed. -/
def written (peer : PeerId) (step : Transition System Label) : List Frame :=
  match step.label with
  | .writer other =>
    if other = peer ∧ step.after.writerEnded peer = false then step.before.current peer else []
  | _ => []

/-- The frame at which a step ends the writer. -/
def interrupted (peer : PeerId) (step : Transition System Label) : List Frame :=
  if step.before.writerEnded peer = false ∧ step.after.writerEnded peer = true then
    step.before.current peer
  else []

/-- The bytes that may have been handed to the socket of a peer: those of all frames that were
written completely, and some of the bytes of the frame whose writing has begun or was broken off. -/
def Transmitted (blake2b256 : Bytes → Vector UInt8 32) (magic : Vector UInt8 4)
    (trace : List (Transition System Label)) (sys : System) (peer : PeerId) (bytes : Bytes) :
    Prop :=
  ∃ part, bytes = (collect (written peer) trace).flatMap (encode blake2b256 magic) ++ part ∧
    part <+: (collect (interrupted peer) trace ++ sys.current peer).flatMap
      (encode blake2b256 magic)

variable {config : Config} {blake2b256 : Bytes → Vector UInt8 32} {sys after : System}
  {label : Label} {trace : List (Transition System Label)} {peer : PeerId}

/-- What a step does to a peer's backlog: an ended writer stays ended; a step after which the
writer has ended puts nothing into the queue and writes nothing; any other step appends what
it puts in and writes from the front. -/
structure Flow (sys : System) (label : Label) (after : System) (peer : PeerId) : Prop where
  ended : sys.writerEnded peer = true → after.writerEnded peer = true
  silent : after.writerEnded peer = true →
    accepted peer ⟨sys, label, after⟩ = [] ∧ written peer ⟨sys, label, after⟩ = []
  balanced : after.writerEnded peer = false →
    sys.backlog peer ++ accepted peer ⟨sys, label, after⟩ =
      written peer ⟨sys, label, after⟩ ++ after.backlog peer

/-- A step that leaves the queue as it is. -/
theorem flow_kept (same : after.queues.lookup peer = sys.queues.lookup peer)
    (nothing : accepted peer ⟨sys, label, after⟩ = [])
    (unwritten : written peer ⟨sys, label, after⟩ = []) : Flow sys label after peer where
  ended before := by
    rw [System.writerEnded, same]
    exact before
  silent _ := ⟨nothing, unwritten⟩
  balanced _ := by
    rw [nothing, unwritten, List.append_nil, List.nil_append, System.backlog, System.backlog, same]

section Found

variable {queue : WriteQueue} (found : sys.queues.lookup peer = some queue)
include found

/-- The frame in writing, in terms of the queue. -/
theorem current_found : sys.current peer = queue.writer.current := by
  rw [System.current, found]

/-- The backlog, in terms of the queue. -/
theorem backlog_found : sys.backlog peer = queue.writer.current ++ queue.frames := by
  rw [System.backlog, found]

end Found

/-- A queue in a state in which the writer has not ended. -/
theorem receiving_found {queue : WriteQueue} (found : sys.queues.lookup peer = some queue)
    (receiving : queue.writer ≠ .ended) : sys.writerEnded peer = false := by
  rw [writerEnded_found found, decide_eq_false receiving]

/-- The flow through a step of the peer's writer. -/
theorem flow_writer {queue next : WriteQueue} {connected : Prop}
    (found : sys.queues.lookup peer = some queue) (now : after.queues.lookup peer = some next)
    (moved : WriteQueue.WriterStep connected queue next) : Flow sys (.writer peer) after peer where
  ended before := by
    rw [writerEnded_found found, decide_eq_true_iff] at before
    cases moved <;> cases before
  silent closed := ⟨rfl, by simp [written, closed]⟩
  balanced receiving := by
    have complete : written peer ⟨sys, .writer peer, after⟩ = queue.writer.current := by
      simp [written, receiving, current_found found]
    rw [complete, backlog_found found, backlog_found now]
    rw [writerEnded_found now, decide_eq_false_iff_not] at receiving
    cases moved with
    | take | written => exact List.append_nil _
    | failed | drained => exact (receiving rfl).elim

/-- The flow through a delivery to the peer. -/
theorem flow_delivered {loop : Loop} {frame : Frame} {todo : List Action} {queue : WriteQueue}
    (here : sys.loops loop = .offering peer frame todo)
    (found : sys.queues.lookup peer = some queue)
    (now : after.queues.lookup peer = some (queue.push frame)) :
    Flow sys (.deliver loop) after peer := by
  by_cases closed : queue.writer = .ended
  · have same : queue.push frame = queue := if_pos closed
    refine flow_kept (by rw [now, found, same]) ?_ rfl
    rw [accepted, settled_deliver here, if_pos rfl, writerEnded_found found, decide_eq_true closed]
    rfl
  · have pushed : queue.push frame = { queue with frames := queue.frames ++ [frame] } := if_neg closed
    rw [pushed] at now
    have taken : accepted peer ⟨sys, .deliver loop, after⟩ = [frame] := by
      rw [accepted, settled_deliver here, if_pos rfl, writerEnded_found found,
        decide_eq_false closed]
      rfl
    refine ⟨?_, ?_, fun _ => ?_⟩
    · rw [receiving_found found closed]
      exact Bool.noConfusion
    · rw [receiving_found now closed]
      exact Bool.noConfusion
    · rw [taken, backlog_found found, backlog_found now, List.append_assoc]
      rfl

/-- The flow through a step of the peer's task. -/
theorem flow_acted {task next : PeerTask} {effects : List TaskEffect}
    (acted : System.Acted sys task effects next after)
    (shows : (queuePhase (some task.point)).Shows (sys.queues.lookup task.peerId)) :
    Flow sys (.task task.peerId effects) after task.peerId := by
  cases acted with
  | inserted here =>
    rw [here] at shows
    have missing : sys.queues.lookup task.peerId = none := shows
    have found : (sys.queues.insert task.peerId ⟨[], .unspawned⟩).lookup task.peerId =
        some ⟨[], .unspawned⟩ := (lookup_insert_eq _ _ _ _).trans (if_pos rfl)
    refine ⟨?_, fun _ => ⟨rfl, rfl⟩, fun _ => ?_⟩
    · simp [System.writerEnded, missing]
    · rw [System.backlog, missing, backlog_found found]
      rfl
  | spawned here =>
    rw [here] at shows
    obtain ⟨queue, found, unspawned, _⟩ := shows
    refine ⟨?_, fun _ => ⟨rfl, rfl⟩, fun _ => ?_⟩
    · rw [writerEnded_found found, unspawned]
      exact Bool.noConfusion
    · rw [backlog_found found, backlog_found ((System.lookup_changeQueue _ _ _ _).trans
        (by rw [if_pos rfl, found]; rfl)), unspawned]
      exact List.append_nil _
  | aborted here =>
    rw [here] at shows
    obtain ⟨queue, found, _⟩ := shows
    have closed : (sys.changeQueue task.peerId fun _ => ⟨[], .ended⟩).writerEnded task.peerId = true :=
      writerEnded_found ((System.lookup_changeQueue _ _ _ _).trans (by rw [if_pos rfl, found]; rfl))
    refine ⟨fun _ => closed, fun _ => ⟨rfl, rfl⟩, ?_⟩
    rw [closed]
    exact Bool.noConfusion
  | registered | connected | reported | skipped | left | removed | disconnected =>
    exact flow_kept rfl rfl rfl

/-- The flow through any step. -/
theorem step_flow {history : List Label} (run : SystemRun config blake2b256 history sys)
    (taken : Step config blake2b256 sys label after) (peer : PeerId) : Flow sys label after peer := by
  cases taken with
  | task performed peerId origin task next effects here stepped unblocked =>
    have acted := System.task_acted stepped unblocked
    obtain rfl := System.run_identified run _ _ _ here
    by_cases own : peer = task.peerId
    · subst own
      have shows := run_queues run task.peerId
      rw [System.pointOf_running here] at shows
      have flow := flow_acted acted shows
      exact ⟨flow.ended, flow.silent, flow.balanced⟩
    · exact flow_kept (System.acted_queues acted own) rfl rfl
  | writer peerId queue next here moved =>
    by_cases own : peer = peerId
    · subst own
      exact flow_writer here ((lookup_insert_eq _ _ _ _).trans (if_pos rfl)) moved
    · refine flow_kept ((lookup_insert_eq _ _ _ _).trans (if_neg own)) rfl ?_
      exact if_neg fun same => own same.1.symm
  | execute loop action todo here =>
    refine flow_kept rfl ?_ rfl
    simp only [accepted, settled]
    split <;> rfl
  | deliver loop target frame todo queue here found ready =>
    by_cases own : peer = target
    · subst own
      exact flow_delivered here found ((lookup_insert_eq _ _ _ _).trans (if_pos rfl))
    · refine flow_kept ((lookup_insert_eq _ _ _ _).trans (if_neg own)) ?_ rfl
      rw [accepted, settled_deliver here, if_neg fun same => own same.symm]
      rfl
  | accept | dial | handshake | tick | receive | handle | lock | release =>
    exact flow_kept rfl rfl rfl

/-- What has become of the frames that a peer's queue has taken. Until the writer ends, they
are written or still in the backlog; then some are written, the next one may have been broken
off, and the others are lost. -/
structure Account (trace : List (Transition System Label)) (sys : System) (peer : PeerId) :
    Prop where
  receiving : sys.writerEnded peer = false → collect (interrupted peer) trace = [] ∧
    collect (accepted peer) trace = collect (written peer) trace ++ sys.backlog peer
  closed : sys.writerEnded peer = true →
    collect (written peer) trace ++ collect (interrupted peer) trace <+:
      collect (accepted peer) trace

/-- The frame in writing is the first of the backlog. -/
theorem current_backlog (sys : System) (peer : PeerId) : sys.current peer <+: sys.backlog peer := by
  unfold System.current System.backlog
  split
  · exact List.nil_prefix
  · exact List.prefix_append _ _

/-- One step keeps the account. -/
theorem step_account (flow : Flow sys label after peer) (account : Account trace sys peer) :
    Account (⟨sys, label, after⟩ :: trace) after peer where
  receiving now := by
    have before : sys.writerEnded peer = false := by
      by_contra closed
      rw [flow.ended (Bool.eq_true_of_not_eq_false closed)] at now
      cases now
    obtain ⟨unbroken, whole⟩ := account.receiving before
    constructor
    · simp [unbroken, interrupted, now]
    · rw [collect_cons, collect_cons, whole, List.append_assoc, flow.balanced now,
        List.append_assoc]
  closed now := by
    obtain ⟨nothing, unwritten⟩ := flow.silent now
    rw [collect_cons, collect_cons, collect_cons, nothing, unwritten, List.append_nil,
      List.append_nil]
    cases before : sys.writerEnded peer with
    | true => simpa [interrupted, before] using account.closed before
    | false =>
      obtain ⟨unbroken, whole⟩ := account.receiving before
      rw [unbroken, whole, interrupted, if_pos ⟨before, now⟩]
      exact (List.prefix_append_right_inj _).mpr (current_backlog sys peer)

/-- In every run the account of every peer is kept. -/
theorem run_account (run : TracedRun config blake2b256 trace sys) (peer : PeerId) :
    Account trace sys peer := by
  refine invariant (fun earlier reached => Account earlier reached peer) ?_ ?_ run
  · exact ⟨fun _ => ⟨rfl, rfl⟩, fun _ => List.nil_prefix⟩
  · rintro earlier before ⟨_, label, after⟩ _ earlierRun account ⟨rfl, rfl, taken⟩
    exact step_account (step_flow (untraced earlierRun) taken peer) account

/-- The frames that were written, and the one whose writing has begun or was broken off, are the
first ones that the queue took. -/
theorem attempted_accepted (run : TracedRun config blake2b256 trace sys) (peer : PeerId) :
    collect (written peer) trace ++ (collect (interrupted peer) trace ++ sys.current peer) <+:
      collect (accepted peer) trace := by
  have account := run_account run peer
  cases ended : sys.writerEnded peer with
  | false =>
    obtain ⟨unbroken, whole⟩ := account.receiving ended
    rw [unbroken, whole, List.nil_append]
    exact (List.prefix_append_right_inj _).mpr (current_backlog sys peer)
  | true =>
    have idle : sys.current peer = [] := by
      unfold System.current
      split
      · rfl
      · rename_i queue found
        rw [writerEnded_found found, decide_eq_true_iff] at ended
        rw [ended]
        rfl
    rw [idle, List.append_nil]
    exact account.closed ended

/-- The bytes on the wire are the beginning of the encodings of the frames that the queue
took. -/
theorem transmitted_accepted (run : TracedRun config blake2b256 trace sys) {peer : PeerId}
    {magic : Vector UInt8 4} {bytes : Bytes}
    (transmitted : Transmitted blake2b256 magic trace sys peer bytes) :
    bytes <+: (collect (accepted peer) trace).flatMap (encode blake2b256 magic) := by
  obtain ⟨part, rfl, begun⟩ := transmitted
  obtain ⟨rest, whole⟩ := attempted_accepted run peer
  generalize collect (interrupted peer) trace ++ sys.current peer = attempted at begun whole
  rw [← whole, List.append_assoc, List.flatMap_append, List.flatMap_append]
  exact (List.prefix_append_right_inj _).mpr (begun.trans (List.prefix_append _ _))

/-- The task of a peer that its handshake has started. -/
def Started (trace : List (Transition System Label)) (peer : PeerId) (task : PeerTask) : Prop :=
  ∃ step ∈ trace, step.label = .handshake peer ∧
    ∃ origin, step.after.conns.lookup peer = some ⟨origin, .running task⟩

/-- A task that runs was started by a handshake, in the same direction. -/
theorem running_started (run : TracedRun config blake2b256 trace sys) {origin : Origin}
    {task : PeerTask} (here : sys.conns.lookup peer = some ⟨origin, .running task⟩) :
    ∃ first, Started trace peer first ∧ first.direction = task.direction := by
  have established : ∀ task, sys.conns.lookup peer = some ⟨origin, .running task⟩ →
      ∃ first, Started trace peer first ∧ first.direction = task.direction := by
    refine invariant (fun passed reached => ∀ task,
      reached.conns.lookup peer = some ⟨origin, .running task⟩ →
        ∃ first, Started passed peer first ∧ first.direction = task.direction)
      (by rintro _ ⟨⟩) ?_ run
    rintro passed _ ⟨before, label, after⟩ _ _ known ⟨rfl, rfl, taken⟩ task running
    have kept {direction : Direction} :
        (∃ first, Started passed peer first ∧ first.direction = direction) →
          ∃ first, Started (⟨before, label, after⟩ :: passed) peer first ∧
            first.direction = direction := by
      rintro ⟨first, ⟨step, member, shaken⟩, same⟩
      exact ⟨first, ⟨step, List.mem_cons_of_mem _ member, shaken⟩, same⟩
    rcases step_running taken running with ⟨rfl, _⟩ | ran | ⟨earlier, _, _, ran, acted⟩
    · exact ⟨task, ⟨_, List.mem_cons_self, rfl, origin, running⟩, rfl⟩
    · exact kept (known task ran)
    · obtain ⟨-, direction, -⟩ := System.acted_arguments acted
      rw [direction]
      exact kept (known earlier ran)
  exact established task here

/-- A task was started at a point of the run, and then it is about to register its peer. -/
theorem started_registering (run : TracedRun config blake2b256 trace sys) {task : PeerTask}
    (started : Started trace peer task) :
    ∃ earlier labels start origin, SystemRun config blake2b256 earlier start ∧
      Run start (Step config blake2b256) labels sys ∧
      trace.map Transition.label = labels ++ earlier ∧
      start.conns.lookup peer = some ⟨origin, .running task⟩ ∧ task.point = .registering := by
  obtain ⟨⟨before, label, after⟩, member, shaken, origin, here⟩ := started
  obtain ⟨later, earlier, rfl⟩ := List.append_of_mem member
  obtain ⟨reached, taken, rest⟩ := divided_at run
  dsimp only at shaken here taken rest
  subst shaken
  have point : task.point = .registering := by
    cases System.step_staged (System.run_identified (untraced reached)) taken peer with
    | kept _ same =>
      cases taken with
      | handshake _ _ waiting => cases waiting.symm.trans (same.symm.trans here)
    | spawned _ _ _ now => cases now.symm.trans here
    | handshaken _ stage _ _ now started =>
      cases now.symm.trans here
      exact (started task rfl).2.1
    | acted _ _ _ _ _ _ _ own => cases own
  exact ⟨_, _, _, origin, .extend (untraced reached) taken, untraced rest, List.map_append, here,
    point⟩

/-- What is handled about a peer is part of what its stream tells. -/
theorem started_handled (run : TracedRun config blake2b256 trace sys) {task : PeerTask}
    (started : Started trace peer task) :
    about peer (handled (trace.map Transition.label)) <+:
      lifecycle peer task.spec task.direction
        (parsed (streamFrames blake2b256 task.magic task.reader.contents)) := by
  obtain ⟨_, _, _, _, reached, more, split, here, point⟩ := started_registering run started
  rw [split]
  exact handled_stream reached more here point

/-- A message that is handled was sent by its peer. -/
theorem message_sent (run : TracedRun config blake2b256 trace sys) {source : PeerId}
    {message : ProtocolMessage}
    (member : .message source message ∈ handled (trace.map Transition.label)) :
    ∃ task, Started trace source task ∧
      message ∈ parsed (streamFrames blake2b256 task.magic task.reader.contents) := by
  have mentioned : .message source message ∈ about source (handled (trace.map Transition.label)) :=
    List.mem_filter.mpr ⟨member, by simp [eventPeer]⟩
  obtain ⟨origin, now, here⟩ : ∃ origin task,
      sys.conns.lookup source = some ⟨origin, .running task⟩ := by
    have emitted := run_sent (untraced run) source
    rw [SentSoFar, about_fifo (untraced run)] at emitted
    split at emitted
    · exact ⟨_, _, by assumption⟩
    · rw [List.append_eq_nil_iff] at emitted
      rw [emitted.1] at mentioned
      cases mentioned
  obtain ⟨task, started, _⟩ := running_started run here
  refine ⟨task, started, ?_⟩
  have included := (started_handled run started).subset mentioned
  simpa [lifecycle] using included

/-- An event that the router has handled is among the handled ones. -/
theorem mem_handled {event : ProtocolEvent} {actions : List Action} {history : List Label}
    (member : .handle event actions ∈ history) : event ∈ handled history := by
  induction history with
  | nil => cases member
  | cons label earlier inductionHypothesis =>
    rcases List.mem_cons.mp member with rfl | later
    · exact List.mem_append_right _ List.mem_cons_self
    · have earlierHandled := inductionHypothesis later
      cases label with
      | handle => exact List.mem_append_left _ earlierHandled
      | _ => exact earlierHandled

/-- Every message that the router has emitted is relayed for one that was sent. -/
theorem emitted_relayed (run : TracedRun config blake2b256 trace sys) {message : ProtocolMessage}
    (member : message ∈ collect (emitted peer) (trace.map Transition.label)) :
    ∃ source task received, Started trace source task ∧
      received ∈ parsed (streamFrames blake2b256 task.magic task.reader.contents) ∧
      Relayed received message := by
  obtain ⟨label, labelled, emission⟩ := mem_collect.mp member
  cases label with
  | handle event actions =>
    obtain ⟨action, chosen, rfl⟩ := List.mem_map.mp emission
    have acted := (List.mem_filter.mp chosen).1
    obtain ⟨later, earlier, split⟩ := List.append_of_mem labelled
    have reached := untraced run
    rw [split] at reached
    obtain ⟨before, _, _, taken⟩ := visited reached
    cases taken with
    | handle _ visit clock here =>
      cases event with
      | peerConnected | peerDisconnected => cases acted
      | message source received =>
        obtain ⟨task, started, sent⟩ := message_sent run (mem_handled labelled)
        exact ⟨source, task, received, started, sent, routed_relayed
          (Router.routeMessage_routed before.router visit clock source received) acted⟩
  | _ => cases emission

/-- The message fits into a frame and reads back from it. -/
def Readable (message : ProtocolMessage) : Prop :=
  message.toFrame.body.length ≤ maxBodySize.toNat ∧
    ProtocolMessage.fromFrame message.toFrame = .ok message

/-- Relayed messages are readable. -/
theorem relayed_readable {magic : Vector UInt8 4} {stream : Bytes}
    {received message : ProtocolMessage}
    (arrived : received ∈ parsed (streamFrames blake2b256 magic stream))
    (relayed : Relayed received message) : Readable message := by
  obtain ⟨frame, member, outcome⟩ := List.mem_filterMap.mp arrived
  obtain ⟨regular, shrunk⟩ : received.Regular ∧
      received.toFrame.body.length ≤ frame.body.length := by
    cases parsing : ProtocolMessage.fromFrame frame with
    | error problem =>
      rw [parsing] at outcome
      cases outcome
    | ok message =>
      rw [parsing] at outcome
      cases outcome
      exact ProtocolMessage.fromFrame_shrinks parsing
  have small : message.toFrame.body.length ≤ maxBodySize.toNat :=
    calc message.toFrame.body.length
      _ ≤ received.toFrame.body.length := relayed_shrinks relayed
      _ ≤ frame.body.length := shrunk
      _ ≤ maxBodySize.toNat := streamFrames_bounded blake2b256 member
  exact ⟨small, ProtocolMessage.fromFrame_toFrame (relayed_regular relayed regular) small⟩

/-- Readable messages are parsed back from their frames. -/
theorem parsed_readable {messages : List ProtocolMessage}
    (readable : ∀ message ∈ messages, Readable message) :
    parsed (messages.map ProtocolMessage.toFrame) = messages := by
  induction messages with
  | nil => rfl
  | cons message messages inductionHypothesis =>
    have first := (readable message List.mem_cons_self).2
    have rest := inductionHypothesis fun other member =>
      readable other (List.mem_cons_of_mem _ member)
    rw [List.map_cons, parsed, List.filterMap_cons, first]
    exact congrArg (message :: ·) rest

/-- The keepalive task is given requests for peers only. -/
theorem keepalive_requests (run : TracedRun config blake2b256 trace sys) {frame : Frame}
    (member : frame ∈ collect (assigned .keepalive peer) trace) :
    frame = ProtocolMessage.getPeers.toFrame := by
  obtain ⟨⟨before, label, after⟩, traced, given⟩ := mem_collect.mp member
  obtain ⟨_, taken⟩ := trace_reached run traced
  cases label with
  | tick =>
    dsimp only at taken
    cases taken with
    | tick visit here =>
      simp only [assigned, System.loops_moveLoop, if_true, LoopPoint.unsent, framesFor,
        List.mem_map, List.mem_filter] at given
      obtain ⟨_, ⟨⟨_, _, rfl⟩, _⟩, rfl⟩ := given
      rfl
  | _ => cases given

/-- A frame that was settled was given to the task that settled it. -/
theorem settled_assigned (run : TracedRun config blake2b256 trace sys) {settlement : Settlement}
    (member : settlement ∈ collect (settled peer) trace) :
    settlement.frame ∈ collect (assigned settlement.loop peer) trace := by
  rw [run_assigned run settlement.loop peer]
  refine List.mem_append_left _ (List.mem_map_of_mem (List.mem_filter.mpr ⟨member, ?_⟩))
  exact decide_eq_true rfl

/-- A frame that was settled is the frame of a readable message: of one that the router emitted
if the event loop has settled it, and of a request for peers if the keepalive task has. -/
theorem settled_message (run : TracedRun config blake2b256 trace sys) {settlement : Settlement}
    (member : settlement ∈ collect (settled peer) trace) :
    ∃ message, Readable message ∧ settlement.frame = message.toFrame ∧
      match settlement.loop with
      | .events => message ∈ collect (emitted peer) (trace.map Transition.label)
      | .keepalive => message = .getPeers := by
  have given := settled_assigned run member
  cases loop : settlement.loop with
  | events =>
    rw [loop, assigned_events] at given
    obtain ⟨message, emission, same⟩ := List.mem_map.mp given
    obtain ⟨_, _, _, _, arrived, relayed⟩ := emitted_relayed run emission
    exact ⟨message, relayed_readable arrived relayed, same.symm, emission⟩
  | keepalive =>
    rw [loop] at given
    exact ⟨.getPeers, ⟨by decide, rfl⟩, keepalive_requests run given, rfl⟩

/-- The frames that a queue took, in terms of the settlements. -/
theorem accepted_settled (peer : PeerId) (trace : List (Transition System Label)) :
    collect (accepted peer) trace = ((collect (settled peer) trace).filter
      fun settlement => settlement.fate = .accepted).map Settlement.frame := by
  rw [filter_collect, map_collect]
  rfl

/-- The frames that a queue took are a block of the settled ones. -/
theorem accepted_block (run : TracedRun config blake2b256 trace sys) (peer : PeerId) :
    ∃ early taken late, collect (settled peer) trace = early ++ taken ++ late ∧
      collect (accepted peer) trace = taken.map Settlement.frame := by
  obtain ⟨before, during, later, rfl, unopened, opened, shut⟩ := run_phases run peer
  have discards : ∀ settlement ∈ collect (settled peer) before, settlement.fate = .discarded :=
    phase_yields run (by simp) unopened
  have accepts : ∀ settlement ∈ collect (settled peer) during, settlement.fate = .accepted :=
    phase_yields run (by simp) opened
  have misses : ∀ settlement ∈ collect (settled peer) later, settlement.fate ≠ .accepted :=
    phase_yields run (by simp) shut
  have whole : collect (settled peer) (later ++ (during ++ before)) =
      collect (settled peer) before ++ collect (settled peer) during ++
        collect (settled peer) later := by
    rw [collect_append, collect_append]
  refine ⟨_, _, _, whole, ?_⟩
  rw [accepted_settled, whole, List.filter_append, List.filter_append,
    List.filter_eq_nil_iff.mpr (fun settlement member => by simp [discards settlement member]),
    List.filter_eq_self.mpr (fun settlement member => by simp [accepts settlement member]),
    List.filter_eq_nil_iff.mpr (fun settlement member => by simp [misses settlement member]),
    List.nil_append, List.append_nil]

/-- The frames that a queue took have admissible bodies. -/
theorem accepted_bounded (run : TracedRun config blake2b256 trace sys) {frame : Frame}
    (member : frame ∈ collect (accepted peer) trace) : frame.body.length ≤ maxBodySize.toNat := by
  rw [accepted_settled] at member
  obtain ⟨settlement, chosen, rfl⟩ := List.mem_map.mp member
  obtain ⟨message, readable, same, _⟩ := settled_message run (List.mem_filter.mp chosen).1
  rw [same]
  exact readable.1

/-- What can be decoded from a beginning of the bytes are the first frames that the queue took. -/
theorem arrived_accepted (run : TracedRun config blake2b256 trace sys) {peer : PeerId}
    {bytes arrived : Bytes}
    (transmitted : Transmitted blake2b256 config.network.magic trace sys peer bytes)
    (initial : arrived <+: bytes) :
    streamFrames blake2b256 config.network.magic arrived <+: collect (accepted peer) trace :=
  streamFrames_prefix blake2b256 _ (fun _ => accepted_bounded run)
    (initial.trans (transmitted_accepted run transmitted))

/-- What can be decoded are the first frames that the queue took. -/
theorem decoded_accepted (run : TracedRun config blake2b256 trace sys) {peer : PeerId}
    {bytes : Bytes}
    (transmitted : Transmitted blake2b256 config.network.magic trace sys peer bytes) :
    streamFrames blake2b256 config.network.magic bytes <+: collect (accepted peer) trace :=
  arrived_accepted run transmitted (List.prefix_refl bytes)

/-- The frames that were written completely are the first that can be decoded. -/
theorem written_decoded (run : TracedRun config blake2b256 trace sys) {peer : PeerId}
    {bytes : Bytes}
    (transmitted : Transmitted blake2b256 config.network.magic trace sys peer bytes) :
    collect (written peer) trace <+: streamFrames blake2b256 config.network.magic bytes := by
  obtain ⟨part, rfl, _⟩ := transmitted
  rw [streamFrames_encodings blake2b256 _ fun frame member => accepted_bounded run
    (((List.prefix_append _ _).trans (attempted_accepted run peer)).subset member)]
  exact List.prefix_append _ _

/-- Nothing is written without a step of the writer. -/
theorem unwritten (silent : .writer peer ∉ trace.map Transition.label) :
    collect (written peer) trace = [] := by
  induction trace with
  | nil => rfl
  | cons step earlier inductionHypothesis =>
    rw [List.map_cons, List.mem_cons, not_or] at silent
    rw [collect_cons, inductionHypothesis silent.2, List.nil_append]
    obtain ⟨before, label, after⟩ := step
    cases label with
    | writer other => exact if_neg fun own => silent.1 (congrArg Label.writer own.1.symm)
    | _ => rfl

/-- The only frame in the queue of a served peer can be written, and then its bytes have been handed
over. -/
theorem served_transmitted {router : Router} {frames : List Frame} {channel : List ProtocolEvent}
    {point : LoopPoint} {frame : Frame} {history : List Label}
    (run : SystemRun config blake2b256 history sys)
    (served : Served blake2b256 sys peer router frames ⟨[frame], .waiting⟩ channel point)
    (silent : .writer peer ∉ history) :
    ∃ trace after, TracedRun config blake2b256 trace after ∧
      Transmitted blake2b256 config.network.magic trace after peer
        (encode blake2b256 config.network.magic frame) ∧
      ∀ other, after.conns.lookup other = sys.conns.lookup other := by
  obtain ⟨trace, reached, rfl⟩ := traced run
  obtain ⟨middle, takes, writing⟩ := served_writes served
  obtain ⟨after, writes, waiting⟩ := served_written writing
  refine ⟨⟨middle, .writer peer, after⟩ :: ⟨sys, .writer peer, middle⟩ :: trace, after,
    .extend (.extend reached ⟨rfl, rfl, takes⟩) ⟨rfl, rfl, writes⟩,
    ⟨[], ?_, List.nil_prefix⟩, fun other => ?_⟩
  · have nothing : written peer ⟨sys, .writer peer, middle⟩ = [] := by
      simp only [written, current_found served.queued]
      split <;> rfl
    have whole : written peer ⟨middle, .writer peer, after⟩ = [frame] := by
      rw [written, current_found writing.queued]
      exact if_pos ⟨rfl, receiving_found waiting.queued (by simp)⟩
    rw [collect_cons, collect_cons, unwritten silent, nothing, whole]
    simp
  · rw [step_untouched writes (Option.some_ne_none other).symm,
      step_untouched takes (Option.some_ne_none other).symm]

/-- A frame is decoded from its bytes. -/
theorem frame_decoded (blake2b256 : Bytes → Vector UInt8 32) (magic : Vector UInt8 4) {frame : Frame}
    (small : frame.body.length ≤ maxBodySize.toNat) :
    streamFrames blake2b256 magic (encode blake2b256 magic frame) = [frame] := by
  have whole := streamFrames_encodings blake2b256 magic (List.forall_mem_singleton.mpr small) []
  rw [List.append_nil, streamFrames_nil, List.flatMap_singleton] at whole
  exact whole

section Relay

/-! A dialed peer and an accepted one are served. The accepted one synchronizes, and what it has
sent is written to the dialed one. -/

/-- What the accepted peer sends. -/
def relayedSync : ProtocolMessage := .syncInfo [7]

/-- The bytes of it that are written to the dialed peer. -/
def relayedBytes : Bytes :=
  encode (fun _ => emptyDigest) soloConfig.network.magic relayedSync.toFrame

/-- The message can be read from these bytes. -/
theorem relayed_decoded :
    streamFrames (fun _ => emptyDigest) soloConfig.network.magic relayedBytes =
      [relayedSync.toFrame] :=
  frame_decoded _ _ (by decide)

/-- The message is read. -/
theorem relayed_parsed :
    parsed (streamFrames (fun _ => emptyDigest) soloConfig.network.magic relayedBytes) =
      [relayedSync] := by
  rw [relayed_decoded]
  rfl

/-- A run at the end of which these bytes have been handed over. -/
theorem relayed_transmitted :
    ∃ trace sys, TracedRun soloConfig (fun _ => emptyDigest) trace sys ∧
      Transmitted (fun _ => emptyDigest) soloConfig.network.magic trace sys ⟨1⟩ relayedBytes := by
  obtain ⟨start, run, attended, speaks⟩ := pair_served (fun _ => emptyDigest) solo_listener
    Nat.one_pos [relayedSync.toFrame]
  obtain ⟨heard, handled, sys, hears, _, handles, sends, served⟩ := served_relays
    (System.run_identified run) speaks attended (by decide) (by decide) rfl relayVisit (fun _ => 0) rfl
    (by decide) (by decide) (by decide)
  have reached := continued (.extend (continued run hears) handles) sends
  obtain ⟨trace, after, whole, transmitted, _⟩ := served_transmitted reached served
    (by simp [pairLabels, connectedLabels, connectingLabels, sendingLabels])
  exact ⟨trace, after, whole, transmitted⟩

end Relay

/-- In every run, the bytes that have been handed to the socket of a peer decode, one frame behind the
other, to frames that begin with all that were written completely. And however many of these bytes
have arrived, the other side can decode only the first frames that the write queue took, in the same
order. A write that was broken off in the middle of a frame neither adds a frame nor changes one. -/
theorem wire_frames (run : TracedRun config blake2b256 trace sys) {peer : PeerId} {bytes : Bytes}
    (transmitted : Transmitted blake2b256 config.network.magic trace sys peer bytes) :
    collect (written peer) trace <+: streamFrames blake2b256 config.network.magic bytes ∧
      ∀ arrived, arrived <+: bytes →
        streamFrames blake2b256 config.network.magic arrived <+: collect (accepted peer) trace := by
  refine ⟨written_decoded run transmitted, ?_⟩
  intro arrived initial
  exact arrived_accepted run transmitted initial

/-- A relayed message has been handed over. Its frame was taken by the queue, and so were those that
can be decoded from the first twenty bytes. -/
theorem wire_frames_relay :
    ∃ trace sys, TracedRun soloConfig (fun _ => emptyDigest) trace sys ∧
      [relayedSync.toFrame] <+: collect (accepted ⟨1⟩) trace ∧
      streamFrames (fun _ => emptyDigest) soloConfig.network.magic (relayedBytes.take 20) <+:
        collect (accepted ⟨1⟩) trace := by
  obtain ⟨trace, sys, run, transmitted⟩ := relayed_transmitted
  have arrives := (wire_frames run transmitted).2
  have whole := arrives relayedBytes (List.prefix_refl _)
  rw [relayed_decoded] at whole
  exact ⟨trace, sys, run, whole, arrives _ (List.take_prefix 20 relayedBytes)⟩

/-- The messages that can be read from settled frames, with the tasks that sent them. -/
def readings (settlements : List Settlement) : List (Loop × ProtocolMessage) :=
  settlements.filterMap fun settlement =>
    match ProtocolMessage.fromFrame settlement.frame with
    | .ok message => some (settlement.loop, message)
    | .error _ => none

/-- What is read is what the frames say. -/
theorem readings_parsed (settlements : List Settlement) :
    (readings settlements).map Prod.snd = parsed (settlements.map Settlement.frame) := by
  rw [readings, List.map_filterMap, parsed, List.filterMap_map]
  congr 1
  funext settlement
  rw [Function.comp_apply]
  cases ProtocolMessage.fromFrame settlement.frame <;> rfl

/-- What is read from one of the sending tasks is what its frames say. -/
theorem readings_by (loop : Loop) (settlements : List Settlement) :
    ((readings settlements).filter fun reading => reading.1 = loop).map Prod.snd =
      parsed (settledBy loop settlements) := by
  rw [settledBy, ← readings_parsed]
  congr 1
  induction settlements with
  | nil => rfl
  | cons settlement settlements inductionHypothesis =>
    unfold readings at inductionHypothesis ⊢
    rw [List.filterMap_cons]
    cases outcome : ProtocolMessage.fromFrame settlement.frame with
    | error problem =>
      by_cases own : settlement.loop = loop
      · simp [own, outcome, inductionHypothesis]
      · simp [own, inductionHypothesis]
    | ok message =>
      by_cases own : settlement.loop = loop
      · simp [own, outcome, inductionHypothesis]
      · simp [own, inductionHypothesis]

/-- The beginning of a part of a list of frames of readable messages reads as a part of the
messages. -/
theorem block_parsed {messages : List ProtocolMessage} {before block rest part : List Frame}
    (readable : ∀ message ∈ messages, Readable message)
    (whole : messages.map ProtocolMessage.toFrame = before ++ block ++ rest)
    (initial : part <+: block) :
    ∃ early late, messages = early ++ parsed part ++ late := by
  obtain ⟨more, rfl⟩ := initial
  rw [← List.append_assoc, List.append_assoc, List.map_eq_append_iff] at whole
  obtain ⟨front, late, rfl, frontWhole, _⟩ := whole
  obtain ⟨early, middle, rfl, _, rfl⟩ := List.map_eq_append_iff.mp frontWhole
  refine ⟨early, late, ?_⟩
  rw [parsed_readable fun message member => readable message
    (List.mem_append_left late (List.mem_append_right early member))]

/-- In every run, the messages that can be read from the bytes handed to the socket of a peer were
each sent by one of the two sending tasks: those of the event loop are a block of what the
router has emitted for this peer, complete and in order, and those of the keepalive task are
requests for peers. -/
theorem remote_reads (run : TracedRun config blake2b256 trace sys) {peer : PeerId} {bytes : Bytes}
    (transmitted : Transmitted blake2b256 config.network.magic trace sys peer bytes) :
    ∃ read : List (Loop × ProtocolMessage),
      parsed (streamFrames blake2b256 config.network.magic bytes) = read.map Prod.snd ∧
      (∃ early late, collect (emitted peer) (trace.map Transition.label) =
        early ++ (read.filter fun reading => reading.1 = .events).map Prod.snd ++ late) ∧
      ∀ message, (.keepalive, message) ∈ read → message = .getPeers := by
  obtain ⟨early, taken, late, whole, block⟩ := accepted_block run peer
  have decoded := decoded_accepted run transmitted
  rw [block, List.prefix_iff_eq_take, ← List.map_take] at decoded
  generalize (streamFrames blake2b256 config.network.magic bytes).length = count at decoded
  refine ⟨readings (taken.take count), ?_, ?_, ?_⟩
  · rw [readings_parsed, decoded]
  · have split : (collect (emitted peer) (trace.map Transition.label)).map ProtocolMessage.toFrame =
        settledBy .events early ++ settledBy .events taken ++
          (settledBy .events late ++ (sys.loops .events).unsent peer) := by
      rw [← assigned_events, run_assigned run .events peer, whole]
      simp only [settledBy, List.filter_append, List.map_append, List.append_assoc]
    rw [readings_by]
    refine block_parsed ?_ split (((List.take_prefix count taken).filter _).map _)
    intro message member
    obtain ⟨_, _, _, _, arrived, relayed⟩ := emitted_relayed run member
    exact relayed_readable arrived relayed
  · intro message member
    obtain ⟨settlement, chosen, outcome⟩ := List.mem_filterMap.mp member
    have settlement_mem : settlement ∈ collect (settled peer) trace := by
      rw [whole]
      exact List.mem_append_left _ (List.mem_append_right _ (List.mem_of_mem_take chosen))
    obtain ⟨request, readable, same, kind⟩ := settled_message run settlement_mem
    rw [same, readable.2] at outcome
    obtain ⟨loop, rfl⟩ : settlement.loop = .keepalive ∧ request = message := by
      simpa using outcome
    rw [loop] at kind
    exact kind

/-- A dialed peer reads what an accepted peer has sent. -/
theorem remote_reads_relay :
    ∃ trace sys, TracedRun soloConfig (fun _ => emptyDigest) trace sys ∧
      ∃ read : List (Loop × ProtocolMessage), read.map Prod.snd = [relayedSync] ∧
        ∃ early late, collect (emitted ⟨1⟩) (trace.map Transition.label) =
          early ++ (read.filter fun reading => reading.1 = .events).map Prod.snd ++ late := by
  obtain ⟨trace, sys, run, transmitted⟩ := relayed_transmitted
  obtain ⟨read, whole, block, _⟩ := remote_reads run transmitted
  rw [relayed_parsed] at whole
  exact ⟨trace, sys, run, read, whole.symm, block⟩

/-- What can be read from these bytes was settled by one of the sending tasks: it was emitted by the
router if the event loop has settled it, and it is a request for peers if the keepalive task
has. -/
theorem read_settled (run : TracedRun config blake2b256 trace sys) {bytes : Bytes}
    (transmitted : Transmitted blake2b256 config.network.magic trace sys peer bytes)
    {message : ProtocolMessage}
    (read : message ∈ parsed (streamFrames blake2b256 config.network.magic bytes)) :
    ∃ settlement ∈ collect (settled peer) trace,
      match settlement.loop with
      | .events => message ∈ collect (emitted peer) (trace.map Transition.label)
      | .keepalive => message = .getPeers := by
  obtain ⟨frame, decoded, outcome⟩ := List.mem_filterMap.mp read
  have taken := (decoded_accepted run transmitted).subset decoded
  rw [accepted_settled] at taken
  obtain ⟨settlement, chosen, rfl⟩ := List.mem_map.mp taken
  have member := (List.mem_filter.mp chosen).1
  obtain ⟨sent, readable, same, kind⟩ := settled_message run member
  rw [same, readable.2] at outcome
  obtain rfl : sent = message := Option.some.inj outcome
  exact ⟨settlement, member, kind⟩

end ErgoProxy.Runtime
