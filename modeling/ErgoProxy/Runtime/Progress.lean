import ErgoProxy.Foundation.Exhaustion
import ErgoProxy.Routing.Emptiness
import ErgoProxy.Runtime.RouterRuns
import ErgoProxy.Runtime.WriteQueues
import Mathlib.Data.Prod.Lex

/-!
# Standing still and coming to rest

A step may wait for a remote, for the clock, for another task of the program, or for nothing.
If every step that waits for nothing but the program itself is disabled, the program stands
still, and there are two ways for it to do so. In a calm program there is nothing left to do
until a connection, bytes, a tick or the completion of a write arrive. Otherwise a sending
task holds the lock of the sender map and waits for a queue that is full, whose writer waits
for its remote. So all waiting among the tasks leads to a remote in the end.

What a remote sends is finite here: the reader of a connection carries a finite list of the reads
that are still to come, and the end of the stream is behind it. A remote that keeps sending frames
would keep its task in the reader loop forever, and nothing is said about it.

Without new connections and ticks the program then does not go on forever: the handshakes, the
bytes that still arrive, the events and the frames run out, in this order of precedence. Once
nothing can happen any more, all connections have ended and, apart from the records of them,
the program is as it was when it started.

A remote that never closes its connection and sends nothing, and one that stops reading, keep
tasks from taking their next step. That such remotes come to an end is what the statements
about coming to rest assume: they speak of runs in which every task that can move does.
-/

namespace ErgoProxy.Runtime

open Exhaustion FiniteMaps Routing Runs

/-- The step waits neither for a remote nor for the clock. A reader loop waits for bytes, and
a writer in the middle of a frame for the remote to take it. -/
def Internal (sys : System) : Label → Prop
  | .accept _ _ | .dial _ | .handshake _ | .tick => False
  | .task peer _ => sys.pointOf peer ≠ some .reading
  | .writer peer => ∀ queue frame, sys.queues.lookup peer = some queue → queue.writer ≠ .writing frame
  | _ => True

/-- No step is possible that waits neither for a remote nor for the clock. -/
def Still (config : Config) (blake2b256 : Bytes → Vector UInt8 32) (sys : System) : Prop :=
  ∀ label after, Step config blake2b256 sys label after → ¬ Internal sys label

/-- There is nothing to do: the sending tasks are idle, no event is waiting, every peer's task
waits for bytes or has ended, and every queue is empty as far as its writer is free. -/
structure Calm (sys : System) : Prop where
  loops : ∀ loop, sys.loops loop = .idle
  channel : sys.channel = []
  tasks : ∀ peer point, sys.pointOf peer = some point → point = .reading ∨ point = .finished
  queues : ∀ peer queue, sys.queues.lookup peer = some queue →
    (queue = ⟨[], .waiting⟩ ∧ peer ∈ sys.senders) ∨ (∃ frame, queue.writer = .writing frame) ∨
      queue = ⟨[], .ended⟩

/-- A sending task holds the lock and offers a frame to a full queue whose writer waits for
its remote. -/
def Clogged (sys : System) : Prop :=
  ∃ loop peer frame todo queue current, sys.loops loop = .offering peer frame todo ∧
    sys.queues.lookup peer = some queue ∧ queue.Full ∧ queue.writer = .writing current

variable {config : Config} {blake2b256 : Bytes → Vector UInt8 32} {sys after : System}
  {label : Label} {history : List Label} {peer : PeerId}

/-- A queue without a writer belongs to a task that is about to spawn it. -/
theorem created_spawning (created : queuePhase (sys.pointOf peer) = .created) :
    sys.pointOf peer = some .spawning := by
  cases point : sys.pointOf peer with
  | none => rw [point] at created; cases created
  | some stands => rw [point] at created; cases stands <;> first | rfl | cases created

/-- A sending task that moves on without taking an event leaves the keepalive task without
one. -/
theorem keepalive_moveLoop {loop : Loop} {point : LoopPoint} {event : ProtocolEvent}
    (eventless : sys.loops .keepalive ≠ .handling event) (other : point ≠ .handling event) :
    (sys.moveLoop loop point).loops .keepalive ≠ .handling event := by
  rw [System.loops_moveLoop]
  split
  case isTrue => exact other
  case isFalse => exact eventless

/-- The keepalive task handles no events. -/
theorem keepalive_eventless (run : SystemRun config blake2b256 history sys) (event : ProtocolEvent) :
    sys.loops .keepalive ≠ .handling event := by
  refine invariant (fun _ reached => reached.loops .keepalive ≠ .handling event) (by simp [System.new])
    ?_ run
  intro _ before label after _ eventless taken
  cases taken with
  | task performed peerId origin task next effects here stepped unblocked =>
    change performed.loops .keepalive ≠ _
    rw [System.acted_loops (System.task_acted stepped unblocked)]
    exact eventless
  | execute => exact keepalive_moveLoop eventless (by split <;> simp)
  | tick | lock | deliver | release =>
    exact keepalive_moveLoop eventless LoopPoint.noConfusion
  | accept | dial | handshake | writer | receive | handle => exact eventless

/-- A task that has not ended has a next action. -/
theorem step_unfinished {task : PeerTask} (unfinished : task.point ≠ .finished) :
    ∃ effects next, task.step blake2b256 true = some (effects, next) := by
  cases stepped : task.step blake2b256 true with
  | some pair => exact ⟨pair.1, pair.2, rfl⟩
  | none =>
    unfold PeerTask.step at stepped
    split at stepped
    case h_9 finished => exact (unfinished finished).elim
    all_goals cases stepped

/-- With the lock free and room in the event channel, no task has to wait for another one. -/
theorem task_enabled {origin : Origin} {task : PeerTask}
    (here : sys.conns.lookup peer = some ⟨origin, .running task⟩)
    (unfinished : task.point ≠ .finished) (free : sys.Unlocked)
    (room : sys.channel.length < eventCapacity) :
    ∃ effects after, Step config blake2b256 sys (.task peer effects) after := by
  obtain ⟨effects, next, stepped⟩ := step_unfinished unfinished
  have unblocked : (effects.foldlM System.perform sys).isSome := by
    cases PeerTask.step_move blake2b256 stepped with
    | connect | report | disconnect => simp [System.perform, room]
    | insert | remove => simp [System.perform, free]
    | register | spawn | skip | leave | abort => rfl
  obtain ⟨performed, unblocked⟩ := Option.isSome_iff_exists.mp unblocked
  exact ⟨effects, _, .task sys performed peer origin task next effects here stepped unblocked⟩

section Still

variable (still : Still config blake2b256 sys)
include still

/-- A program that stands still has no task about to spawn its writer. -/
theorem still_spawned (point : sys.pointOf peer = some .spawning) : False := by
  obtain ⟨origin, task, here, spawning⟩ := System.running_pointOf point
  refine still _ _ (step_spawn here spawning) ?_
  rw [Internal, point]
  simp

/-- Its writers have taken all they can take. -/
theorem still_waiting {frames : List Frame}
    (found : sys.queues.lookup peer = some ⟨frames, .waiting⟩) : frames = [] ∧ peer ∈ sys.senders := by
  have free : Internal sys (.writer peer) := by
    rintro _ _ other
    cases found.symm.trans other
    simp
  cases frames with
  | cons frame frames => exact (still _ _ (.writer sys peer _ _ found (.take frame frames)) free).elim
  | nil =>
    by_contra unconnected
    exact still _ _ (.writer sys peer _ _ found (.drained fun member => unconnected ⟨rfl, member⟩))
      free

/-- Its queues have writers: only a queue whose writer is about to be spawned has none. -/
theorem still_attended (run : SystemRun config blake2b256 history sys) {queue : WriteQueue}
    (found : sys.queues.lookup peer = some queue) : queue.writer ≠ .unspawned := by
  intro unspawned
  have shows := run_queues run peer
  rw [found] at shows
  cases phase : queuePhase (sys.pointOf peer) with
  | absent => rw [phase] at shows; cases shows
  | created => exact still_spawned still (created_spawning phase)
  | served =>
    rw [phase] at shows
    obtain ⟨_, ⟨⟩, spawned, _⟩ := shows
    exact spawned unspawned
  | closed =>
    rw [phase] at shows
    cases shows
    cases unspawned

/-- A holder of the lock is stuck at a full queue, whose writer waits for its remote. -/
theorem still_holds (run : SystemRun config blake2b256 history sys) {loop : Loop}
    (holds : (sys.loops loop).holds = true) : Clogged sys := by
  cases here : sys.loops loop with
  | idle | handling | locking => rw [here] at holds; cases holds
  | sending todo =>
    cases todo with
    | nil => exact (still _ _ (.release sys loop here) trivial).elim
    | cons action todo => exact (still _ _ (.execute sys loop action todo here) trivial).elim
  | offering target frame todo =>
    obtain ⟨queue, found⟩ := sender_queue run (run_addressed run loop target frame todo here)
    by_cases full : queue.Full
    · refine ⟨loop, target, frame, todo, queue, ?_⟩
      cases writer : queue.writer with
      | writing current => exact ⟨current, here, found, full, rfl⟩
      | ended => exact (full.1 writer).elim
      | waiting =>
        obtain ⟨frames, _⟩ := queue
        cases writer
        obtain ⟨rfl, _⟩ := still_waiting still found
        cases full.2
      | unspawned => exact (still_attended still run found writer).elim
    · exact (still _ _ (.deliver sys loop target frame todo queue here found full) trivial).elim

/-- With the lock free, the sending tasks are idle. -/
theorem still_idle (run : SystemRun config blake2b256 history sys) (free : sys.Unlocked)
    (loop : Loop) : sys.loops loop = .idle := by
  have unheld := free loop
  cases here : sys.loops loop with
  | idle => rfl
  | sending | offering => rw [here] at unheld; cases unheld
  | locking todo => exact (still _ _ (.lock sys loop todo here free) trivial).elim
  | handling event =>
    cases loop with
    | events =>
      obtain ⟨visit⟩ := traversal_exists sys.router.peers
      exact (still _ _ (.handle sys event visit (fun _ => 0) here) trivial).elim
    | keepalive => exact (keepalive_eventless run event here).elim

/-- With the lock free, the program is calm. -/
theorem still_calm (run : SystemRun config blake2b256 history sys) (free : sys.Unlocked) :
    Calm sys := by
  have loops := still_idle still run free
  have channel : sys.channel = [] := by
    cases arrived : sys.channel with
    | nil => rfl
    | cons event later =>
      exact (still _ _ (.receive sys event later (loops .events) arrived) trivial).elim
  refine ⟨loops, channel, ?_, ?_⟩
  · intro peer point stands
    by_contra other
    rw [not_or] at other
    obtain ⟨origin, task, here, rfl⟩ := System.running_pointOf stands
    obtain ⟨effects, after, taken⟩ := task_enabled here other.2 free
      (by rw [channel]; exact Nat.zero_lt_succ _)
    refine still _ _ taken ?_
    rw [Internal, stands]
    exact fun reading => other.1 (Option.some.inj reading)
  · intro peer queue found
    obtain ⟨frames, writer⟩ := queue
    cases writer with
    | writing frame => exact Or.inr (Or.inl ⟨frame, rfl⟩)
    | waiting =>
      obtain ⟨rfl, member⟩ := still_waiting still found
      exact Or.inl ⟨rfl, member⟩
    | unspawned => exact (still_attended still run found rfl).elim
    | ended =>
      obtain rfl : frames = [] := (queue_sound run found).closed rfl
      exact Or.inr (Or.inr rfl)

end Still

/-- In every run, a program in which no step is possible that waits neither for a remote nor
for the clock is calm, or a sending task holds the lock of the sender map and waits for room in
a full queue, whose writer waits for its remote to take a frame. -/
theorem stands_still (run : SystemRun config blake2b256 history sys)
    (still : Still config blake2b256 sys) : Calm sys ∨ Clogged sys := by
  by_cases free : sys.Unlocked
  · exact Or.inl (still_calm still run free)
  · obtain ⟨loop, holds⟩ : ∃ loop, (sys.loops loop).holds = true := by
      simpa [System.Unlocked] using free
    exact Or.inr (still_holds still run holds)

/-- The first peer of a proxy has asked for peers and does not read the answer: the program is
calm. -/
theorem stands_still_unread :
    ∃ history sys, SystemRun soloConfig (fun _ => Frame.emptyDigest) history sys ∧
      sys.queues.lookup ⟨1⟩ = some ⟨[], .writing (ProtocolMessage.peers []).toFrame⟩ ∧
      (Calm sys ∨ Clogged sys) := by
  obtain ⟨_, run, served⟩ := first_served (fun _ => Frame.emptyDigest) solo_listener Nat.one_pos
    [ProtocolMessage.getPeers.toFrame]
  obtain ⟨_, answered, served⟩ := served_round served (by decide)
  obtain ⟨sys, taken, served⟩ := served_writes served
  have reached := Run.extend (continued run answered) taken
  obtain ⟨origin, task, here, _, reading, _⟩ := served.reading
  have alone (peer : PeerId) (different : peer ≠ ⟨1⟩) : sys.conns.lookup peer = none := by
    refine (run_untouched reached ?_).trans rfl
    simp [askedLabels, connectedLabels, arrivalLabels, connectingLabels, Label.connection,
      different.symm]
  refine ⟨_, sys, reached, served.queued, stands_still reached ?_⟩
  have idle (loop : Loop) : sys.loops loop = .idle := by
    cases loop with
    | events => exact served.events
    | keepalive => exact served.keepalive
  intro label after taken internal
  cases taken with
  | accept | dial | handshake | tick => exact internal
  | task performed peer _ _ _ _ found =>
    by_cases first : peer = ⟨1⟩
    · subst first
      rw [Internal, System.pointOf_running here, reading] at internal
      exact internal rfl
    · cases (alone peer first).symm.trans found
  | writer peer queue _ found =>
    by_cases first : peer = ⟨1⟩
    · subst first
      exact internal _ _ served.queued rfl
    · have shows := run_queues reached peer
      rw [System.pointOf, alone peer first, found] at shows
      cases shows
  | receive event later _ arrived => cases served.pending.symm.trans arrived
  | handle _ _ _ waiting | lock _ _ waiting | execute _ _ _ waiting | deliver _ _ _ _ _ waiting
  | release _ waiting => cases (idle _).symm.trans waiting

/-- The program does what it has begun: no new connection and no tick. -/
def Label.settles : Label → Bool
  | .accept _ _ | .dial _ | .tick => false
  | _ => true

/-- A step of a program that does what it has begun. -/
def SettlingStep (config : Config) (blake2b256 : Bytes → Vector UInt8 32) (sys : System)
    (label : Label) (after : System) : Prop :=
  Step config blake2b256 sys label after ∧ label.settles = true

/-- The handshakes to come. -/
def ConnectionTask.handshakes (conn : ConnectionTask) : Nat :=
  match conn.stage with
  | .handshaking => 1
  | _ => 0

/-- The steps to come of a peer's task. -/
def ConnectionTask.remaining (conn : ConnectionTask) : Nat :=
  match conn.stage with
  | .running task => task.remaining
  | _ => 0

/-- The steps to come of a sending task: each action is executed and may have to be offered. -/
def LoopPoint.work : LoopPoint → Nat
  | .idle | .handling _ => 0
  | .locking todo | .offering _ _ todo => 2 * todo.length + 2
  | .sending todo => 2 * todo.length + 1

/-- The steps to come of a writer: each frame is taken and written. -/
def WriteQueue.work (queue : WriteQueue) : Nat :=
  2 * queue.frames.length + match queue.writer with
    | .unspawned | .ended => 0
    | .waiting => 1
    | .writing _ => 2

/-- The steps to come of both sending tasks. -/
def System.loopWork (sys : System) : Nat :=
  (sys.loops .events).work + (sys.loops .keepalive).work

/-- What the program has still to do. A handshake opens a stream of any length, a step of a
peer's task may send an event, and an event may cause any number of actions; so these come
one after the other. A frame that is delivered moves on from a sending task to a writer. -/
def System.work (sys : System) : Nat ×ₗ Nat ×ₗ Nat ×ₗ Nat :=
  toLex (total ConnectionTask.handshakes sys.conns,
    toLex (total ConnectionTask.remaining sys.conns,
      toLex (2 * sys.channel.length + (inHand sys).length,
        3 * sys.loopWork + total WriteQueue.work sys.queues)))

/-- How two amounts of work compare. -/
theorem work_lt : after.work < sys.work ↔
    total ConnectionTask.handshakes after.conns < total ConnectionTask.handshakes sys.conns ∨
      total ConnectionTask.handshakes after.conns = total ConnectionTask.handshakes sys.conns ∧
      (total ConnectionTask.remaining after.conns < total ConnectionTask.remaining sys.conns ∨
        total ConnectionTask.remaining after.conns = total ConnectionTask.remaining sys.conns ∧
        (2 * after.channel.length + (inHand after).length <
            2 * sys.channel.length + (inHand sys).length ∨
          2 * after.channel.length + (inHand after).length =
              2 * sys.channel.length + (inHand sys).length ∧
            3 * after.loopWork + total WriteQueue.work after.queues <
              3 * sys.loopWork + total WriteQueue.work sys.queues)) := by
  simp only [System.work, Prod.Lex.toLex_lt_toLex]

/-- A sending task that moves on replaces its own part. -/
theorem loopWork_moveLoop (sys : System) (loop : Loop) (point : LoopPoint) :
    (sys.moveLoop loop point).loopWork + (sys.loops loop).work = sys.loopWork + point.work := by
  unfold System.loopWork
  cases loop with
  | events =>
    rw [System.loops_moveLoop, System.loops_moveLoop, if_pos rfl, if_neg (by decide)]
    omega
  | keepalive =>
    rw [System.loops_moveLoop, System.loops_moveLoop, if_neg (by decide), if_pos rfl]
    omega

/-- The writer lowers the work of its queue. -/
theorem WriteQueue.writerStep_work {connected : Prop} {queue next : WriteQueue}
    (moved : WriterStep connected queue next) : next.work < queue.work := by
  cases moved with
  | take | written | failed | drained => simp [work] <;> omega

/-- A delivery adds one frame at most. -/
theorem WriteQueue.push_work (queue : WriteQueue) (frame : Frame) :
    (queue.push frame).work ≤ queue.work + 2 := by
  unfold push
  split
  case isTrue => exact Nat.le_add_right _ _
  case isFalse =>
    simp only [work, List.length_append, List.length_singleton]
    omega

/-- A sending task that moves on, without an event in hand before and after, and lowers the
work of the sending tasks, lowers the work. -/
theorem moveLoop_work {loop : Loop} {point : LoopPoint}
    (before : ∀ event, sys.loops loop ≠ .handling event)
    (now : ∀ event, point ≠ .handling event) (less : point.work < (sys.loops loop).work) :
    (sys.moveLoop loop point).work < sys.work := by
  have moved := loopWork_moveLoop sys loop point
  rw [work_lt, inHand_moved before now]
  refine Or.inr ⟨rfl, Or.inr ⟨rfl, Or.inr ⟨rfl, ?_⟩⟩⟩
  change 3 * (sys.moveLoop loop point).loopWork + total WriteQueue.work sys.queues < _
  omega

/-- A handshake that has ended is none to come. -/
theorem handshaken_settled (origin : Origin) (peerId : PeerId) (surroundings : Surroundings)
    (reader : BufReader) :
    ConnectionTask.handshakes ⟨origin, config.handshaken origin peerId surroundings reader⟩ = 0 := by
  unfold ConnectionTask.handshakes
  split
  case h_2 => rfl
  case h_1 stage =>
    -- A handshake ends in a task or in nothing.
    exfalso
    cases origin with
    | listener index =>
      simp only [Config.handshaken] at stage
      split at stage
      · cases stage
      · split at stage <;> cases stage
    | manager =>
      simp only [Config.handshaken] at stage
      split at stage
      · cases stage
      · split at stage <;> cases stage

/-- Every settling step lowers the work. -/
theorem step_work (taken : SettlingStep config blake2b256 sys label after) :
    after.work < sys.work := by
  obtain ⟨taken, settles⟩ := taken
  cases taken with
  | accept | dial | tick => cases settles
  | handshake peerId origin here surroundings reader =>
    have handshakes := total_insert ConnectionTask.handshakes sys.conns peerId
      ⟨origin, config.handshaken origin peerId surroundings reader⟩
    have before : share ConnectionTask.handshakes sys.conns peerId = 1 := by rw [share, here]; rfl
    rw [before, handshaken_settled] at handshakes
    rw [work_lt]
    refine Or.inl ?_
    change total _ (sys.conns.insert peerId _) < _
    omega
  | task performed peerId origin task next effects here stepped unblocked =>
    have decreases := PeerTask.step_decreases blake2b256 stepped
    have conns := (System.acted_arguments (System.task_acted stepped unblocked)).2.2.2.2
    have handshakes := total_insert ConnectionTask.handshakes sys.conns peerId
      ⟨origin, .running next⟩
    have remaining := total_insert ConnectionTask.remaining sys.conns peerId
      ⟨origin, .running next⟩
    rw [share, here] at handshakes remaining
    change _ + 0 = _ + 0 at handshakes
    change _ + task.remaining = _ + next.remaining at remaining
    rw [work_lt]
    change total _ (performed.conns.insert peerId _) < _ ∨ total _ (performed.conns.insert peerId _) = _ ∧
      (total _ (performed.conns.insert peerId _) < _ ∨ _)
    rw [conns]
    exact Or.inr ⟨handshakes, Or.inl (by omega)⟩
  | writer peerId queue next here moved =>
    have less := WriteQueue.writerStep_work moved
    have queues := total_insert WriteQueue.work sys.queues peerId next
    rw [share, here, Option.elim_some] at queues
    rw [work_lt]
    refine Or.inr ⟨rfl, Or.inr ⟨rfl, Or.inr ⟨rfl, ?_⟩⟩⟩
    change 3 * sys.loopWork + total _ (sys.queues.insert peerId next) < _
    omega
  | receive event later here arrived =>
    rw [work_lt]
    refine Or.inr ⟨rfl, Or.inr ⟨rfl, Or.inl ?_⟩⟩
    have before : inHand sys = [] := by rw [inHand, here]
    change 2 * later.length + 1 < _
    rw [before, arrived, List.length_cons, List.length_nil]
    omega
  | handle event visit clock here =>
    rw [work_lt]
    refine Or.inr ⟨rfl, Or.inr ⟨rfl, Or.inl ?_⟩⟩
    have before : inHand sys = [event] := by rw [inHand, here]
    change 2 * sys.channel.length + 0 < _
    rw [before, List.length_singleton]
    omega
  | lock loop todo here free =>
    refine moveLoop_work (by simp [here]) (by simp) ?_
    rw [here]
    exact Nat.lt_succ_self _
  | execute loop action todo here =>
    refine moveLoop_work (by simp [here]) (by intro _; split <;> simp) ?_
    rw [here]
    split <;> simp only [LoopPoint.work, List.length_cons] <;> omega
  | deliver loop target frame todo queue here found ready =>
    have pushed := WriteQueue.push_work queue frame
    have queues := total_insert WriteQueue.work sys.queues target (queue.push frame)
    have moved := loopWork_moveLoop sys loop (.sending todo)
    have hand : inHand (sys.moveLoop loop (.sending todo)) = inHand sys :=
      inHand_moved (by simp [here]) (by simp)
    rw [share, found, Option.elim_some] at queues
    rw [here, LoopPoint.work, LoopPoint.work] at moved
    rw [work_lt]
    refine Or.inr ⟨rfl, Or.inr ⟨rfl, Or.inr ⟨?_, ?_⟩⟩⟩
    · change 2 * sys.channel.length + (inHand (sys.moveLoop loop (.sending todo))).length = _
      rw [hand]
    · change 3 * (sys.moveLoop loop (.sending todo)).loopWork +
        total _ (sys.queues.insert target (queue.push frame)) < _
      omega
  | release loop here =>
    refine moveLoop_work (by simp [here]) (by simp) ?_
    rw [here]
    exact Nat.lt_succ_self _

/-- The program has come to rest: apart from the connections that it has had and their closed
queues it is as it was when it started, and every event has been handled. -/
structure AtRest (history : List Label) (sys : System) : Prop where
  router : sys.router = .new
  channel : sys.channel = []
  senders : sys.senders = ∅
  loops : ∀ loop, sys.loops loop = .idle
  queues : ∀ peer queue, sys.queues.lookup peer = some queue → queue = ⟨[], .ended⟩
  conns : ∀ peer conn, sys.conns.lookup peer = some conn →
    conn.stage = .closed ∨ ∃ task, conn.stage = .running task ∧ task.point = .finished
  handled : handled history = sent history

section Rest

variable (stuck : ∀ label after, ¬ SettlingStep config blake2b256 sys label after)
include stuck

/-- A program in which no step is possible stands still. -/
theorem stuck_still : Still config blake2b256 sys := by
  intro label after taken internal
  cases label with
  | accept | dial | tick => exact internal
  | handshake | task | writer | receive | handle | lock | execute | deliver | release =>
    exact stuck _ _ ⟨taken, rfl⟩

/-- It is calm, as every writer could go on. -/
theorem stuck_calm (run : SystemRun config blake2b256 history sys) : Calm sys := by
  by_cases free : sys.Unlocked
  · exact still_calm (stuck_still stuck) run free
  · obtain ⟨loop, holds⟩ : ∃ loop, (sys.loops loop).holds = true := by
      simpa [System.Unlocked] using free
    obtain ⟨_, peer, _, _, ⟨frames, _⟩, current, _, found, _, rfl⟩ :=
      still_holds (stuck_still stuck) run holds
    exact (stuck _ _ ⟨.writer sys peer _ _ found (.written current frames), rfl⟩).elim

/-- Every connection has ended. -/
theorem stuck_ended (calm : Calm sys) {conn : ConnectionTask}
    (found : sys.conns.lookup peer = some conn) :
    conn.stage = .closed ∨ ∃ task, conn.stage = .running task ∧ task.point = .finished := by
  obtain ⟨origin, stage⟩ := conn
  cases stage with
  | closed => exact Or.inl rfl
  | handshaking =>
    exact (stuck _ _ ⟨.handshake sys peer origin found promptly (shortestReader []), rfl⟩).elim
  | running task =>
    refine Or.inr ⟨task, rfl, ?_⟩
    by_contra unfinished
    have free : sys.Unlocked := fun loop => by rw [calm.loops loop]; rfl
    obtain ⟨_, _, taken⟩ := task_enabled found unfinished free
      (by rw [calm.channel]; exact Nat.zero_lt_succ _)
    exact stuck _ _ ⟨taken, rfl⟩

end Rest

/-- The disconnect of a task that has ended has been handled once all events have. -/
theorem finished_departed (run : SystemRun config blake2b256 history sys)
    (all : handled history = sent history) {origin : Origin} {task : PeerTask}
    (here : sys.conns.lookup peer = some ⟨origin, .running task⟩)
    (finished : task.point = .finished) : Departed history peer := by
  have emitted := run_sent run peer
  simp only [SentSoFar, here, Emitted, finished] at emitted
  obtain ⟨messages, events⟩ := emitted
  rw [System.run_identified run _ _ _ here] at events
  have last : .peerDisconnected peer "connection closed" ∈ about peer (sent history) := by
    rw [events]
    exact List.mem_append_right _ List.mem_cons_self
  exact ⟨_, all ▸ (List.mem_filter.mp last).1⟩

/-- A reachable state in which nothing can happen any more is one of rest. -/
theorem stuck_rests (run : SystemRun config blake2b256 history sys)
    (stuck : ∀ label after, ¬ SettlingStep config blake2b256 sys label after) :
    AtRest history sys := by
  have calm := stuck_calm stuck run
  have ended {peer : PeerId} {conn : ConnectionTask} := @stuck_ended _ _ _ peer stuck calm conn
  have all : handled history = sent history := by
    rw [run_fifo run, calm.channel, inHand, calm.loops .events, List.append_nil, List.append_nil]
  have stands (peer : PeerId) (point : PeerPoint) (here : sys.pointOf peer = some point) :
      point = .finished := by
    obtain ⟨_, task, found, rfl⟩ := System.running_pointOf here
    rcases ended found with closed | ⟨_, ⟨⟩, finished⟩
    · cases closed
    · exact finished
  have phase (peer : PeerId) : queuePhase (sys.pointOf peer) = .absent ∨
      queuePhase (sys.pointOf peer) = .closed := by
    cases here : sys.pointOf peer with
    | none => exact Or.inl rfl
    | some point =>
      rw [stands peer point here]
      exact Or.inr rfl
  refine ⟨?_, calm.channel, ?_, calm.loops, ?_, fun _ _ => ended, all⟩
  · refine unregistered_new (run_calls run) (empty_of_lookup fun peer entry registered => ?_)
    have registry := run_registry run peer
    by_cases early : ∀ origin task, sys.conns.lookup peer = some ⟨origin, .running task⟩ →
        task.point = .registering
    · cases (registry.unregistered early).symm.trans registered
    · push Not at early
      obtain ⟨origin, task, found, _⟩ := early
      have finished := stands peer _ (System.pointOf_running found)
      cases (registry.departed (finished_departed run all found finished)).symm.trans registered
  · refine Finset.eq_empty_of_forall_notMem fun peer member => ?_
    have connected := (run_senders run peer).mp member
    cases here : sys.pointOf peer with
    | none => rw [here] at connected; cases connected
    | some point =>
      rw [here, stands peer point here] at connected
      cases connected
  · intro peer queue found
    have shows := run_queues run peer
    rw [found] at shows
    rcases phase peer with absent | closed
    · rw [absent] at shows
      cases shows
    · rw [closed] at shows
      exact Option.some.inj shows

/-- From every reachable state, without new connections and ticks, and with streams that end, the
program comes to rest: there is no endless sequence of steps, whatever the tasks do there is a state
in which nothing is left to do, and in each such state all events have been handled, all connections
have ended and nothing of them is left in the router, in the map of senders and in the queues. -/
theorem comes_to_rest (run : SystemRun config blake2b256 history sys) :
    (∀ (states : Nat → System) (labels : Nat → Label), ∃ index,
        ¬ SettlingStep config blake2b256 (states index) (labels index) (states (index + 1))) ∧
      (∃ labels rest, Run sys (SettlingStep config blake2b256) labels rest ∧
        ∀ label after, ¬ SettlingStep config blake2b256 rest label after) ∧
      ∀ labels rest, Run sys (SettlingStep config blake2b256) labels rest →
        (∀ label after, ¬ SettlingStep config blake2b256 rest label after) →
        AtRest (labels ++ history) rest := by
  refine ⟨never_endless System.work fun _ _ _ => step_work,
    run_exhausted System.work (fun _ _ _ => step_work) sys, ?_⟩
  intro labels rest settling stuck
  exact stuck_rests (continued run (weaken (fun _ _ _ taken => taken.1) settling)) stuck

/-- The first peer of a proxy has asked for peers; whatever happens next, the program comes to
rest. -/
theorem comes_to_rest_request :
    ∃ history sys labels rest, SystemRun soloConfig (fun _ => Frame.emptyDigest) history sys ∧
      .message ⟨1⟩ .getPeers ∈ handled history ∧
      Run sys (SettlingStep soloConfig fun _ => Frame.emptyDigest) labels rest ∧
      AtRest (labels ++ history) rest := by
  obtain ⟨_, run, served⟩ := first_served (fun _ => Frame.emptyDigest) solo_listener Nat.one_pos
    [ProtocolMessage.getPeers.toFrame]
  obtain ⟨sys, requested, _⟩ := served_requests served
  have reached := continued run requested
  obtain ⟨_, ⟨labels, rest, settling, stuck⟩, rests⟩ := comes_to_rest reached
  exact ⟨_, sys, labels, rest, reached, by simp [requestedLabels, handled], settling,
    rests labels rest settling stuck⟩

end ErgoProxy.Runtime
