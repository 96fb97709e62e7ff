import ErgoProxy.Runtime.Senders

/-!
# The life of a write queue

A peer's write queue is created when its task enters the sender, gets its writer when the
task spawns it, and is closed for good when the task aborts the writer, if the writer has not
ended by itself. So what can be found in the queue depends on where the task stands. Sends
wait for room, so neither a queue nor the event channel ever holds more than its capacity.
-/

namespace ErgoProxy.Runtime

open FiniteMaps Routing Runs

/-- The queue holds no more than its capacity, and nothing at all without a receiver. -/
structure WriteQueue.Sound (queue : WriteQueue) : Prop where
  bounded : queue.frames.length ≤ writeCapacity
  closed : queue.writer = .ended → queue.frames = []

/-- The phases of a queue's life. -/
inductive QueuePhase where
  | absent
  | created
  | served
  | closed
  deriving DecidableEq

/-- The phase that goes with the point at which the peer's task stands. -/
def queuePhase : Option PeerPoint → QueuePhase
  | none | some .registering | some .connecting | some .inserting => .absent
  | some .spawning => .created
  | some .reading | some .removing | some .aborting => .served
  | some .disconnecting | some .finished => .closed

/-- What is found in each phase. -/
def QueuePhase.Shows (found : Option WriteQueue) : QueuePhase → Prop
  | .absent => found = none
  | .created => ∃ queue, found = some queue ∧ queue.writer = .unspawned ∧ queue.Sound
  | .served => ∃ queue, found = some queue ∧ queue.writer ≠ .unspawned ∧ queue.Sound
  | .closed => found = some ⟨[], .ended⟩

/-- What a step outside a peer's own task can do to its queue: nothing, an action of the
writer, or a send that does not wait. -/
inductive QueueChange (connected : Prop) (found : Option WriteQueue) : Option WriteQueue → Prop where
  | kept : QueueChange connected found found
  | written (queue next : WriteQueue) (here : found = some queue)
      (moved : WriteQueue.WriterStep connected queue next) : QueueChange connected found (some next)
  | pushed (queue : WriteQueue) (frame : Frame) (here : found = some queue)
      (ready : ¬ queue.Full) : QueueChange connected found (some (queue.push frame))

variable {config : Config} {blake2b256 : Bytes → Vector UInt8 32} {sys after : System}
  {label : Label} {history : List Label} {peer : PeerId}

/-- A writer leaves a sound queue sound and does not come back before its spawning. -/
theorem WriteQueue.writerStep_sound {connected : Prop} {queue next : WriteQueue}
    (moved : WriterStep connected queue next) (sound : queue.Sound) :
    queue.writer ≠ .unspawned ∧ next.writer ≠ .unspawned ∧ next.Sound := by
  cases moved with
  | take frame frames =>
    refine ⟨by simp, by simp, ⟨?_, by simp⟩⟩
    exact Nat.le_of_succ_le sound.bounded
  | written frame frames => exact ⟨by simp, by simp, ⟨sound.bounded, by simp⟩⟩
  | failed frame frames => exact ⟨by simp, by simp, ⟨Nat.zero_le _, fun _ => rfl⟩⟩
  | drained unconnected => exact ⟨by simp, by simp, ⟨Nat.zero_le _, fun _ => rfl⟩⟩

/-- A send that does not wait leaves a sound queue sound. -/
theorem WriteQueue.push_sound {queue : WriteQueue} (frame : Frame) (ready : ¬ queue.Full)
    (sound : queue.Sound) : (queue.push frame).writer = queue.writer ∧ (queue.push frame).Sound := by
  unfold push
  split
  case isTrue => exact ⟨rfl, sound⟩
  case isFalse receiving =>
    have room : queue.frames.length < writeCapacity :=
      Nat.lt_of_not_le fun filled => ready ⟨receiving, filled⟩
    refine ⟨rfl, ⟨?_, fun ended => (receiving ended).elim⟩⟩
    rw [List.length_append]
    exact room

/-- Every step outside the peer's own task is one of these for its queue. -/
theorem queue_unacted (identified : sys.Identified) (taken : Step config blake2b256 sys label after)
    (other : ∀ effects, label ≠ .task peer effects) :
    QueueChange (peer ∈ sys.senders) (sys.queues.lookup peer) (after.queues.lookup peer) := by
  cases taken with
  | task performed peerId origin task next effects here stepped unblocked =>
    have different : peer ≠ task.peerId := by
      rw [identified _ _ _ here]
      rintro rfl
      exact other effects rfl
    have same := System.acted_queues (System.task_acted stepped unblocked) different
    change QueueChange _ _ (performed.queues.lookup peer)
    rw [same]
    exact .kept
  | writer peerId queue next here moved =>
    change QueueChange _ _ ((sys.queues.insert peerId next).lookup peer)
    rw [lookup_insert_eq]
    split
    case isTrue same =>
      subst same
      exact .written queue next here moved
    case isFalse => exact .kept
  | deliver loop target frame todo queue here found ready =>
    change QueueChange _ _ ((sys.queues.insert target (queue.push frame)).lookup peer)
    rw [lookup_insert_eq]
    split
    case isTrue same =>
      subst same
      exact .pushed queue frame found ready
    case isFalse => exact .kept
  | accept | dial | handshake | tick | receive | handle | lock | execute | release => exact .kept

/-- A change from outside the task does not end a phase. -/
theorem queueChange_shows {connected : Prop} {found next : Option WriteQueue} {phase : QueuePhase}
    (change : QueueChange connected found next) (shows : phase.Shows found) :
    phase.Shows next := by
  cases change with
  | kept => exact shows
  | written queue next here moved =>
    subst here
    cases phase with
    | absent => cases shows
    | created =>
      obtain ⟨_, ⟨⟩, unspawned, sound⟩ := shows
      exact ((WriteQueue.writerStep_sound moved sound).1 unspawned).elim
    | served =>
      obtain ⟨_, ⟨⟩, _, sound⟩ := shows
      exact ⟨next, rfl, (WriteQueue.writerStep_sound moved sound).2⟩
    | closed =>
      cases shows
      cases moved
  | pushed queue frame here ready =>
    subst here
    cases phase with
    | absent => cases shows
    | created =>
      obtain ⟨_, ⟨⟩, unspawned, sound⟩ := shows
      obtain ⟨writer, pushed⟩ := WriteQueue.push_sound frame ready sound
      exact ⟨_, rfl, writer.trans unspawned, pushed⟩
    | served =>
      obtain ⟨_, ⟨⟩, spawned, sound⟩ := shows
      obtain ⟨writer, pushed⟩ := WriteQueue.push_sound frame ready sound
      exact ⟨_, rfl, writer ▸ spawned, pushed⟩
    | closed =>
      cases shows
      rfl

/-- A step of the task moves its queue to the phase of the next point. -/
theorem acted_shows {task next : PeerTask} {effects : List TaskEffect}
    (acted : System.Acted sys task effects next after)
    (shows : (queuePhase (some task.point)).Shows (sys.queues.lookup task.peerId)) :
    (queuePhase (some next.point)).Shows (after.queues.lookup task.peerId) := by
  cases acted with
  | inserted here =>
    refine ⟨⟨[], .unspawned⟩, (lookup_insert_eq _ _ _ _).trans (if_pos rfl), rfl, ?_⟩
    exact ⟨Nat.zero_le _, fun _ => rfl⟩
  | spawned here =>
    rw [here] at shows
    obtain ⟨queue, found, _, sound⟩ := shows
    refine ⟨{ queue with writer := .waiting }, ?_, by simp, ⟨sound.bounded, by simp⟩⟩
    rw [System.lookup_changeQueue, if_pos rfl, found]
    rfl
  | aborted here =>
    rw [here] at shows
    obtain ⟨queue, found, _⟩ := shows
    change _ = _
    rw [System.lookup_changeQueue, if_pos rfl, found]
    rfl
  | registered here | connected here | left _ here | removed here | disconnected here =>
    rw [here] at shows
    exact shows
  | reported | skipped => exact shows

/-- One step keeps a peer's queue in line with its task. -/
theorem step_queues (identified : sys.Identified) (taken : Step config blake2b256 sys label after)
    (shows : (queuePhase (sys.pointOf peer)).Shows (sys.queues.lookup peer)) :
    (queuePhase (after.pointOf peer)).Shows (after.queues.lookup peer) := by
  cases System.step_staged identified taken peer with
  | kept other same =>
    rw [System.pointOf, same]
    exact queueChange_shows (queue_unacted identified taken other) shows
  | spawned _ other fresh now =>
    rw [System.pointOf, fresh] at shows
    rw [System.pointOf, now]
    exact queueChange_shows (queue_unacted identified taken other) shows
  | handshaken _ stage other here now started =>
    rw [System.pointOf, here] at shows
    have early : queuePhase (after.pointOf peer) = .absent := by
      rw [System.pointOf, now]
      cases stage with
      | running task => simp only [(started task rfl).2.1, queuePhase]
      | handshaking | closed => rfl
    rw [early]
    exact queueChange_shows (queue_unacted identified taken other) shows
  | acted origin task next effects performed here acted own now =>
    subst now
    obtain rfl := identified _ _ _ here
    rw [System.pointOf_running here] at shows
    rw [System.pointOf_running ((System.conns_moveTask performed _ _ _ _).trans (if_pos rfl))]
    change (queuePhase (some next.point)).Shows (performed.queues.lookup task.peerId)
    exact acted_shows acted shows

/-- In every run every queue is in line with the task of its peer. -/
theorem run_queues (run : SystemRun config blake2b256 history sys) (peer : PeerId) :
    (queuePhase (sys.pointOf peer)).Shows (sys.queues.lookup peer) := by
  refine invariant (fun _ reached =>
    (queuePhase (reached.pointOf peer)).Shows (reached.queues.lookup peer))
    (show QueuePhase.Shows none .absent from rfl) ?_ run
  intro earlier before label after earlierRun shows taken
  exact step_queues (System.run_identified earlierRun) taken shows

/-- In every run every queue is sound. -/
theorem queue_sound (run : SystemRun config blake2b256 history sys) {queue : WriteQueue}
    (found : sys.queues.lookup peer = some queue) : queue.Sound := by
  have shows := run_queues run peer
  rw [found] at shows
  cases phase : queuePhase (sys.pointOf peer) with
  | absent => rw [phase] at shows; cases shows
  | created | served =>
    rw [phase] at shows
    obtain ⟨_, ⟨⟩, _, sound⟩ := shows
    exact sound
  | closed =>
    rw [phase] at shows
    cases shows
    exact ⟨Nat.zero_le _, fun _ => rfl⟩

/-- A peer has no queue exactly as long as its task has not entered the sender. -/
theorem queue_missing (run : SystemRun config blake2b256 history sys) (peer : PeerId) :
    sys.queues.lookup peer = none ↔ queuePhase (sys.pointOf peer) = .absent := by
  have shows := run_queues run peer
  cases phase : queuePhase (sys.pointOf peer) with
  | absent =>
    rw [phase] at shows
    exact iff_of_true shows rfl
  | created | served =>
    rw [phase] at shows
    obtain ⟨queue, found, _⟩ := shows
    simp [found]
  | closed =>
    rw [phase] at shows
    have closed : sys.queues.lookup peer = some ⟨[], .ended⟩ := shows
    simp [closed]

/-- A peer whose sender is in the map has a queue. -/
theorem sender_queue (run : SystemRun config blake2b256 history sys) (member : peer ∈ sys.senders) :
    ∃ queue, sys.queues.lookup peer = some queue := by
  have connected := (run_senders run peer).mp member
  refine Option.ne_none_iff_exists'.mp fun missing => ?_
  have absent := (queue_missing run peer).mp missing
  cases point : sys.pointOf peer with
  | none =>
    rw [point] at connected
    cases connected
  | some here =>
    rw [point] at connected absent
    cases here with
    | spawning | reading | removing => cases absent
    | registering | connecting | inserting | aborting | disconnecting | finished => cases connected

/-- A frame is offered to peers in the sender map only. -/
def Addressed (sys : System) : Prop :=
  ∀ loop target frame todo, sys.loops loop = .offering target frame todo → target ∈ sys.senders

/-- A sending task that moves on without offering a frame keeps it so. -/
theorem addressed_moveLoop {loop : Loop} {point : LoopPoint} (addressed : Addressed sys)
    (silent : ∀ target frame todo, point = .offering target frame todo → target ∈ sys.senders) :
    Addressed (sys.moveLoop loop point) := by
  intro other target frame todo offering
  rw [System.loops_moveLoop] at offering
  split at offering
  · exact silent target frame todo offering
  · exact addressed other target frame todo offering

/-- One step offers frames to peers in the map only: the map changes while nobody holds its
lock. -/
theorem step_addressed (taken : Step config blake2b256 sys label after)
    (addressed : Addressed sys) : Addressed after := by
  cases taken with
  | task performed peerId origin task next effects here stepped unblocked =>
    intro loop target frame todo offering
    change performed.loops loop = _ at offering
    change target ∈ performed.senders
    have acted := System.task_acted stepped unblocked
    rw [System.acted_loops acted] at offering
    have member := addressed loop target frame todo offering
    cases acted with
    | inserted _ free | removed _ free =>
      have held := free loop
      rw [offering] at held
      cases held
    | _ => exact member
  | execute loop action todo here =>
    refine addressed_moveLoop addressed ?_
    intro target frame rest offering
    split at offering
    · cases offering
      assumption
    · cases offering
  | tick | receive | handle | lock | deliver | release =>
    exact addressed_moveLoop addressed (by rintro _ _ _ ⟨⟩)
  | accept | dial | handshake | writer => exact addressed

/-- In every run frames are offered to peers in the map only. -/
theorem run_addressed (run : SystemRun config blake2b256 history sys) : Addressed sys := by
  refine invariant (fun _ reached => Addressed reached) (by rintro _ _ _ _ ⟨⟩) ?_ run
  intro _ before label after _ addressed taken
  exact step_addressed taken addressed

end ErgoProxy.Runtime
