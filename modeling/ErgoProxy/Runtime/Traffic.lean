import ErgoProxy.Foundation.Traces
import ErgoProxy.Runtime.WriteQueues

/-!
# From the router to the write queues

What the router wants a peer to get is handed to the event loop as a list of actions, and a
tick hands requests for peers to the keepalive task. A sending task is done with a frame when
it finds no sender for it, or when the write queue has taken or refused it. Read off a trace,
the frames that a sending task was given for a peer are those it is done with, in the same
order, and those it has still to deal with.

A queue takes frames from when the task of its peer has entered the sender until the writer
has ended or the sender has been removed. So the frames it took are one block of the frames
that were to be sent.
-/

namespace ErgoProxy.Runtime

open FiniteMaps Routing Runs

/-- A run of the program with the states around each step. -/
abbrev TracedRun (config : Config) (blake2b256 : Bytes → Vector UInt8 32) :
    List (Transition System Label) → System → Prop :=
  Run System.new (Traced (Step config blake2b256))

/-- The frames of the actions for one peer. -/
def framesFor (peer : PeerId) (actions : List Action) : List Frame :=
  (actions.filter fun action => action.target = peer).map fun action => action.message.toFrame

/-- The frames for a peer that a sending task has still to deal with. -/
def LoopPoint.unsent (peer : PeerId) : LoopPoint → List Frame
  | .idle | .handling _ => []
  | .locking todo | .sending todo => framesFor peer todo
  | .offering target frame todo =>
    if target = peer then frame :: framesFor peer todo else framesFor peer todo

/-- The frames for a peer that a step gives to a sending task. -/
def assigned (loop : Loop) (peer : PeerId) (step : Transition System Label) : List Frame :=
  match step.label, loop with
  | .handle _ actions, .events => framesFor peer actions
  | .tick, .keepalive => (step.after.loops .keepalive).unsent peer
  | _, _ => []

/-- What becomes of a frame: no sender is found, or the queue takes it, or the queue has lost
its receiver. -/
inductive Fate where
  | discarded
  | accepted
  | refused
  deriving DecidableEq

/-- A sending task is done with a frame. -/
structure Settlement where
  loop : Loop
  frame : Frame
  fate : Fate
  deriving DecidableEq

/-- The writer of a peer has ended. -/
def System.writerEnded (sys : System) (peer : PeerId) : Bool :=
  (sys.queues.lookup peer).any fun queue => queue.writer = .ended

/-- The frame for a peer that a step settles, if any. -/
def settled (peer : PeerId) (step : Transition System Label) : List Settlement :=
  match step.label with
  | .execute loop action =>
    if action.target = peer ∧ peer ∉ step.before.senders then
      [⟨loop, action.message.toFrame, .discarded⟩]
    else []
  | .deliver loop =>
    match step.before.loops loop with
    | .offering target frame _ =>
      if target = peer then
        [⟨loop, frame, if step.before.writerEnded peer then .refused else .accepted⟩]
      else []
    | _ => []
  | _ => []

/-- The frames that one of the sending tasks is done with. -/
def settledBy (loop : Loop) (settlements : List Settlement) : List Frame :=
  (settlements.filter fun settlement => settlement.loop = loop).map Settlement.frame

variable {config : Config} {blake2b256 : Bytes → Vector UInt8 32} {sys after : System}
  {label : Label} {history : List Label} {trace : List (Transition System Label)} {peer : PeerId}

/-- The first action decides first. -/
theorem framesFor_cons (peer : PeerId) (action : Action) (todo : List Action) :
    framesFor peer (action :: todo) =
      if action.target = peer then action.message.toFrame :: framesFor peer todo
      else framesFor peer todo := by
  unfold framesFor
  by_cases own : action.target = peer
  · simp [own]
  · simp [own]

/-- A settlement counts for the task that made it. -/
theorem settledBy_singleton (loop : Loop) (settlement : Settlement) :
    settledBy loop [settlement] = if settlement.loop = loop then [settlement.frame] else [] := by
  unfold settledBy
  by_cases own : settlement.loop = loop
  · simp [own]
  · simp [own]

/-- A delivery settles the frame that was offered. -/
theorem settled_deliver {loop : Loop} {target : PeerId} {frame : Frame} {todo : List Action}
    (here : sys.loops loop = .offering target frame todo) (peer : PeerId) (after : System) :
    settled peer ⟨sys, .deliver loop, after⟩ = if target = peer then
      [⟨loop, frame, if sys.writerEnded peer then .refused else .accepted⟩] else [] := by
  simp only [settled, here]

/-- A sending task that moves on with the same frames leaves all tasks with theirs. -/
theorem unsent_moveLoop {moved loop : Loop} {point : LoopPoint}
    (same : point.unsent peer = (sys.loops moved).unsent peer) :
    ((sys.moveLoop moved point).loops loop).unsent peer = (sys.loops loop).unsent peer := by
  rw [System.loops_moveLoop]
  split
  case isTrue own => rw [own, same]
  case isFalse => rfl

/-- One step keeps the account of a sending task: what it had still to deal with and what the
step gives to it is what the step settles and what is left. -/
theorem step_assigned (taken : Step config blake2b256 sys label after) (loop : Loop)
    (peer : PeerId) :
    (sys.loops loop).unsent peer ++ assigned loop peer ⟨sys, label, after⟩ =
      settledBy loop (settled peer ⟨sys, label, after⟩) ++ (after.loops loop).unsent peer := by
  cases taken with
  | task performed peerId origin task next effects here stepped unblocked =>
    have loops := System.acted_loops (System.task_acted stepped unblocked)
    change _ ++ [] = [] ++ (performed.loops loop).unsent peer
    rw [loops, List.append_nil, List.nil_append]
  | accept | dial | handshake | writer => exact List.append_nil _
  | tick visit here =>
    cases loop with
    | events => exact List.append_nil _
    | keepalive =>
      rw [here]
      rfl
  | receive event later here arrived =>
    cases loop with
    | events =>
      rw [here]
      rfl
    | keepalive => exact List.append_nil _
  | handle event visit clock here =>
    cases loop with
    | events =>
      rw [here]
      rfl
    | keepalive => exact List.append_nil _
  | lock moved todo here free =>
    change _ ++ [] = [] ++ _
    rw [unsent_moveLoop (by rw [here]; rfl), List.append_nil, List.nil_append]
  | release moved here =>
    change _ ++ [] = [] ++ _
    rw [unsent_moveLoop (by rw [here]; rfl), List.append_nil, List.nil_append]
  | execute moved action todo here =>
    change _ ++ [] = settledBy loop (if action.target = peer ∧ peer ∉ sys.senders then
      [⟨moved, action.message.toFrame, .discarded⟩] else []) ++ _
    rw [System.loops_moveLoop, List.append_nil]
    by_cases same : loop = moved
    · rw [if_pos same, same, here, LoopPoint.unsent, framesFor_cons]
      by_cases own : action.target = peer
      · subst own
        by_cases member : action.target ∈ sys.senders
        · simp [member, LoopPoint.unsent, settledBy]
        · simp [member, LoopPoint.unsent, settledBy]
      · by_cases member : action.target ∈ sys.senders
        · simp [own, member, LoopPoint.unsent, settledBy]
        · simp [own, member, LoopPoint.unsent, settledBy]
    · rw [if_neg same]
      split
      · rw [settledBy_singleton, if_neg fun own => same own.symm]
        rfl
      · rfl
  | deliver moved target frame todo queue here found ready =>
    rw [settled_deliver here]
    change _ ++ [] = _ ++ ((sys.moveLoop moved (.sending todo)).loops loop).unsent peer
    rw [System.loops_moveLoop, List.append_nil]
    by_cases same : loop = moved
    · rw [if_pos same, same, here, LoopPoint.unsent, LoopPoint.unsent]
      by_cases own : target = peer
      · rw [if_pos own, if_pos own, settledBy_singleton, if_pos rfl]
        rfl
      · rw [if_neg own, if_neg own]
        rfl
    · rw [if_neg same]
      split
      · rw [settledBy_singleton, if_neg fun own => same own.symm]
        rfl
      · rfl

/-- From any state on, the frames that a sending task had and was given for a peer are those that
it is done with, in order, followed by those that it has still to deal with. -/
theorem more_assigned (more : Run sys (Traced (Step config blake2b256)) trace after) (loop : Loop)
    (peer : PeerId) :
    (sys.loops loop).unsent peer ++ collect (assigned loop peer) trace =
      settledBy loop (collect (settled peer) trace) ++ (after.loops loop).unsent peer := by
  have accounts : settledBy loop (collect (settled peer) trace) =
      collect (fun step => settledBy loop (settled peer step)) trace := by
    rw [settledBy, filter_collect, map_collect]
    rfl
  rw [accounts]
  refine ledger (fun reached : System => (reached.loops loop).unsent peer) ?_ more
  rintro before ⟨_, label, next⟩ _ ⟨rfl, rfl, taken⟩
  exact step_assigned taken loop peer

/-- In every run, the frames that a sending task was given for a peer are those that it is
done with, in order, followed by those that it has still to deal with. -/
theorem run_assigned (run : TracedRun config blake2b256 trace sys) (loop : Loop) (peer : PeerId) :
    collect (assigned loop peer) trace =
      settledBy loop (collect (settled peer) trace) ++ (sys.loops loop).unsent peer :=
  more_assigned run loop peer

/-- Whether a queue takes frames: not yet, now, or no more. -/
inductive Gate where
  | unopened
  | opened
  | shut
  deriving DecidableEq

/-- Where the queue of a peer stands. -/
def System.gate (sys : System) (peer : PeerId) : Gate :=
  if sys.queues.lookup peer = none then .unopened
  else if peer ∈ sys.senders ∧ sys.writerEnded peer = false then .opened
  else .shut

/-- What the gate makes of a frame. -/
def Gate.Yields (fate : Fate) : Gate → Prop
  | .unopened => fate = .discarded
  | .opened => fate = .accepted
  | .shut => fate ≠ .accepted

/-- The gate moves in one direction. -/
inductive Gate.Moves : Gate → Gate → Prop where
  | stays (gate : Gate) : Moves gate gate
  | opens : Moves .unopened .opened
  | shuts : Moves .opened .shut

/-- A gate that has been opened does not get unopened. -/
theorem moves_unopened {gate next : Gate} (moves : gate.Moves next) (beyond : gate ≠ .unopened) :
    next ≠ .unopened := by
  cases moves with
  | stays => exact beyond
  | opens => exact (beyond rfl).elim
  | shuts => exact Gate.noConfusion

/-- A gate that has been shut stays shut. -/
theorem moves_shut {next : Gate} (moves : Gate.shut.Moves next) : next = .shut := by
  cases moves
  rfl

section Gates

variable {queue : WriteQueue} (found : sys.queues.lookup peer = some queue)
include found

/-- The writer's end, in terms of the queue. -/
theorem writerEnded_found : sys.writerEnded peer = decide (queue.writer = .ended) := by
  rw [System.writerEnded, found, Option.any_some]

/-- The gate is open while the sender is in the map and the queue has its receiver. -/
theorem gate_opened (connected : peer ∈ sys.senders) (receiving : queue.writer ≠ .ended) :
    sys.gate peer = .opened := by
  rw [System.gate, if_neg (by simp [found]), if_pos]
  exact ⟨connected, by rw [writerEnded_found found, decide_eq_false receiving]⟩

/-- The gate is shut when the sender is not in the map or the queue has lost its receiver. -/
theorem gate_shut (lost : peer ∈ sys.senders → queue.writer = .ended) :
    sys.gate peer = .shut := by
  rw [System.gate, if_neg (by simp [found]), if_neg]
  rintro ⟨connected, receiving⟩
  rw [writerEnded_found found, lost connected] at receiving
  cases receiving

end Gates

/-- Before the queue is there the gate is closed. -/
theorem gate_unopened (missing : sys.queues.lookup peer = none) : sys.gate peer = .unopened :=
  if_pos missing

/-- A step settles frames as the gate of their peer wants it. -/
theorem settled_yields (run : SystemRun config blake2b256 history sys)
    (taken : Step config blake2b256 sys label after) :
    ∀ settlement ∈ settled peer ⟨sys, label, after⟩, (sys.gate peer).Yields settlement.fate := by
  intro settlement member
  cases taken with
  | execute loop action todo here =>
    simp only [settled] at member
    split at member
    · rename_i unsent
      obtain rfl := List.mem_singleton.mp member
      cases found : sys.queues.lookup peer with
      | none =>
        rw [gate_unopened found]
        rfl
      | some queue =>
        rw [gate_shut found fun connected => (unsent.2 connected).elim]
        exact Fate.noConfusion
    · cases member
  | deliver loop target frame todo queue here found ready =>
    rw [settled_deliver here] at member
    split at member
    · rename_i own
      subst own
      obtain rfl := List.mem_singleton.mp member
      rw [writerEnded_found found]
      by_cases ended : queue.writer = .ended
      · rw [gate_shut found fun _ => ended, decide_eq_true ended]
        exact Fate.noConfusion
      · rw [gate_opened found (run_addressed run loop target frame todo here) ended,
          decide_eq_false ended]
        rfl
    · cases member
  | _ => cases member

/-- The gate of a queue that is there is never opened again. -/
theorem gate_advances {queue next : WriteQueue} (found : sys.queues.lookup peer = some queue)
    (now : after.queues.lookup peer = some next)
    (sender : peer ∈ after.senders → peer ∈ sys.senders)
    (receiver : queue.writer = .ended → next.writer = .ended) :
    (sys.gate peer).Moves (after.gate peer) := by
  by_cases lost : peer ∈ sys.senders → queue.writer = .ended
  · rw [gate_shut found lost, gate_shut now fun connected => receiver (lost (sender connected))]
    exact .stays .shut
  · obtain ⟨connected, receiving⟩ := Classical.not_imp.mp lost
    rw [gate_opened found connected receiving]
    by_cases overNow : peer ∈ after.senders → next.writer = .ended
    · rw [gate_shut now overNow]
      exact .shuts
    · obtain ⟨stillConnected, stillReceiving⟩ := Classical.not_imp.mp overNow
      rw [gate_opened now stillConnected stillReceiving]
      exact .stays .opened

/-- A step outside the peer's task does not open the gate. -/
theorem change_moves (change : QueueChange (peer ∈ sys.senders) (sys.queues.lookup peer)
      (after.queues.lookup peer))
    (sender : peer ∈ after.senders ↔ peer ∈ sys.senders) :
    (sys.gate peer).Moves (after.gate peer) := by
  cases found : sys.queues.lookup peer with
  | none =>
    rw [found] at change
    generalize now : after.queues.lookup peer = later at change
    cases change with
    | kept =>
      rw [gate_unopened found, gate_unopened now]
      exact .stays .unopened
    | written _ _ here | pushed _ _ here => cases here
  | some queue =>
    rw [found] at change
    generalize now : after.queues.lookup peer = later at change
    cases change with
    | kept => exact gate_advances found now sender.mp id
    | written _ next here moved =>
      cases here
      refine gate_advances found now sender.mp ?_
      cases moved with
      | take | written | failed => rintro ⟨⟩
      | drained => exact fun _ => rfl
    | pushed _ frame here ready =>
      cases here
      refine gate_advances found now sender.mp ?_
      intro ended
      rw [WriteQueue.push, if_pos ended]
      exact ended

/-- A step of the peer's task opens the gate once, when it enters the sender. -/
theorem acted_moves {task next : PeerTask} {effects : List TaskEffect}
    (acted : System.Acted sys task effects next after)
    (shows : (queuePhase (some task.point)).Shows (sys.queues.lookup task.peerId)) :
    (sys.gate task.peerId).Moves (after.gate task.peerId) := by
  cases acted with
  | inserted here =>
    rw [here] at shows
    have found : (sys.queues.insert task.peerId ⟨[], .unspawned⟩).lookup task.peerId =
        some ⟨[], .unspawned⟩ := (lookup_insert_eq _ _ _ _).trans (if_pos rfl)
    rw [gate_unopened shows, gate_opened found (Finset.mem_insert_self _ _) (by simp)]
    exact .opens
  | spawned here =>
    rw [here] at shows
    obtain ⟨queue, found, unspawned, _⟩ := shows
    refine gate_advances found
      ((System.lookup_changeQueue _ _ _ _).trans (by rw [if_pos rfl, found]; rfl)) id ?_
    rw [unspawned]
    rintro ⟨⟩
  | removed here =>
    rw [here] at shows
    obtain ⟨queue, found, _⟩ := shows
    exact gate_advances found found (fun member => (Finset.notMem_erase _ _ member).elim) id
  | aborted here =>
    rw [here] at shows
    obtain ⟨queue, found, _⟩ := shows
    exact gate_advances found
      ((System.lookup_changeQueue _ _ _ _).trans (by rw [if_pos rfl, found]; rfl)) id fun _ => rfl
  | registered | connected | reported | skipped | left | disconnected => exact .stays _

/-- One step moves a gate in its direction. -/
theorem step_gate (run : SystemRun config blake2b256 history sys)
    (taken : Step config blake2b256 sys label after) (peer : PeerId) :
    (sys.gate peer).Moves (after.gate peer) := by
  have identified := System.run_identified run
  cases System.step_staged identified taken peer with
  | kept other _ sender => exact change_moves (queue_unacted identified taken other) sender
  | spawned _ other _ _ senders =>
    exact change_moves (queue_unacted identified taken other) (by rw [senders])
  | handshaken _ _ other _ _ _ senders =>
    exact change_moves (queue_unacted identified taken other) (by rw [senders])
  | acted origin task next effects performed here acted own now =>
    subst now
    obtain rfl := identified _ _ _ here
    have shows := run_queues run task.peerId
    rw [System.pointOf_running here] at shows
    change (sys.gate task.peerId).Moves (performed.gate task.peerId)
    exact acted_moves acted shows

section Phases

variable (run : TracedRun config blake2b256 trace sys) {step : Transition System Label}
include run

/-- The state before a step of a trace is reached by a run, and the step is one of the program. -/
theorem trace_reached (member : step ∈ trace) :
    (∃ history, SystemRun config blake2b256 history step.before) ∧
      Step config blake2b256 step.before step.label step.after := by
  obtain ⟨later, earlier, rfl⟩ := List.append_of_mem member
  obtain ⟨reached, taken, _⟩ := divided_at run
  exact ⟨⟨_, untraced reached⟩, taken⟩

/-- A step of a trace moves a gate in its direction. -/
theorem trace_gate (member : step ∈ trace) (peer : PeerId) :
    (step.before.gate peer).Moves (step.after.gate peer) := by
  obtain ⟨⟨_, reached⟩, taken⟩ := trace_reached run member
  exact step_gate reached taken peer

/-- Steps before which the gate of a peer is the same settle its frames in the same way. -/
theorem phase_yields {part : List (Transition System Label)} (within : part ⊆ trace) {gate : Gate}
    (phase : ∀ step ∈ part, step.before.gate peer = gate) :
    ∀ settlement ∈ collect (settled peer) part, gate.Yields settlement.fate := by
  intro settlement member
  obtain ⟨step, chosen, settles⟩ := mem_collect.mp member
  obtain ⟨⟨_, reached⟩, taken⟩ := trace_reached run (within chosen)
  rw [← phase step chosen]
  exact settled_yields reached taken settlement settles

/-- Every trace falls into three parts: before the gate of a peer is opened, while it is open, and
after it has been shut. -/
theorem run_phases (peer : PeerId) :
    ∃ before during later, trace = later ++ (during ++ before) ∧
      (∀ step ∈ before, step.before.gate peer = .unopened) ∧
      (∀ step ∈ during, step.before.gate peer = .opened) ∧
      ∀ step ∈ later, step.before.gate peer = .shut := by
  obtain ⟨later, since, rfl, unshut, shut⟩ := divided_once run (fun sys => sys.gate peer ≠ .shut)
    fun step member closed => by
      have moves := trace_gate run member peer
      rw [not_not.mp closed] at moves
      exact not_not.mpr (moves_shut moves)
  obtain ⟨_, reached, _⟩ := divided run
  obtain ⟨during, before, rfl, unopened, opened⟩ := divided_once reached
    (fun sys => sys.gate peer = .unopened)
    fun step member => moves_unopened (trace_gate reached member peer)
  refine ⟨before, during, later, rfl, unopened, ?_, fun step member => not_not.mp (shut step member)⟩
  intro step member
  cases gate : step.before.gate peer with
  | opened => rfl
  | unopened => exact (opened step member gate).elim
  | shut => exact (unshut step (List.mem_append_left _ member) gate).elim

end Phases

/-- The messages for a peer that a step of the router emits. -/
def emitted (peer : PeerId) : Label → List ProtocolMessage
  | .handle _ actions => (actions.filter fun action => action.target = peer).map Action.message
  | _ => []

/-- What the event loop is given for a peer is what the router emits for it. -/
theorem assigned_events (peer : PeerId) (trace : List (Transition System Label)) :
    collect (assigned .events peer) trace =
      (collect (emitted peer) (trace.map Transition.label)).map ProtocolMessage.toFrame := by
  induction trace with
  | nil => rfl
  | cons step earlier inductionHypothesis =>
    have same : assigned .events peer step =
        (emitted peer step.label).map ProtocolMessage.toFrame := by
      obtain ⟨before, label, after⟩ := step
      cases label with
      | handle event actions =>
        simp only [assigned, emitted, framesFor, List.map_map]
        rfl
      | _ => rfl
    rw [collect_cons, List.map_cons, collect_cons, List.map_append, inductionHypothesis, same]

end ErgoProxy.Runtime
