import ErgoProxy.Runtime.Senders

/-!
# The lock of the sender map and the write queues

The sending tasks hold the lock of the sender map while they wait for room in a write queue,
and the cleanup of a peer needs this lock before it aborts the peer's writer. If the two wait
for each other, only the writer can end it, and a writer whose remote does not read never
does. Such a wait begins in one of two ways: the reader loop of a peer ends while a frame
waits for room in its queue, or a frame is offered to a full queue whose peer has left its
reader loop. In runs without these two steps there is no such wait.
-/

namespace ErgoProxy.Runtime

open FiniteMaps Routing Runs

/-- A sending task holds the lock and waits for room in the peer's write queue. -/
def Blocked (sys : System) (peer : PeerId) : Prop :=
  ∃ loop frame todo queue, sys.loops loop = .offering peer frame todo ∧
    sys.queues.lookup peer = some queue ∧ queue.Full

/-- A sending task waits for room in the peer's write queue, and the peer's task waits for
the lock that the sending task holds. -/
structure CircularWait (sys : System) (peer : PeerId) : Prop where
  blocked : Blocked sys peer
  removing : sys.pointOf peer = some .removing

/-- The next read of the peer's reader loop fails. -/
def Ending (blake2b256 : Bytes → Vector UInt8 32) (sys : System) (peer : PeerId) : Prop :=
  ∃ origin task problem reader, sys.conns.lookup peer = some ⟨origin, .running task⟩ ∧
    task.point = .reading ∧
    Frame.readFrame blake2b256 BufReader.readExact task.magic task.reader = .error problem reader

/-- A step does not tie the knot: a reader loop ends only while no frame waits for room in
the peer's queue, and a frame for a peer in its cleanup finds room in the queue. -/
structure Untangled (blake2b256 : Bytes → Vector UInt8 32) (sys : System) (label : Label) :
    Prop where
  leaving : ∀ peer, label = .task peer [] → Ending blake2b256 sys peer → ¬ Blocked sys peer
  offering : ∀ loop action queue, label = .execute loop action →
    sys.pointOf action.target = some .removing →
    sys.queues.lookup action.target = some queue → ¬ queue.Full

/-- The steps that meet this condition. -/
def UntangledStep (config : Config) (blake2b256 : Bytes → Vector UInt8 32) (sys : System)
    (label : Label) (after : System) : Prop :=
  Step config blake2b256 sys label after ∧ Untangled blake2b256 sys label

variable {config : Config} {blake2b256 : Bytes → Vector UInt8 32} {sys after : System}
  {label : Label} {history : List Label} {peer : PeerId}

/-- A wait depends on the sending tasks and on the peer's queue alone. -/
theorem blocked_congr (loops : after.loops = sys.loops)
    (queue : after.queues.lookup peer = sys.queues.lookup peer) :
    Blocked after peer ↔ Blocked sys peer := by
  unfold Blocked
  rw [loops, queue]

/-- The task of another peer neither begins nor ends a wait. -/
theorem blocked_other {other : PeerId} {origin : Origin} {task next : PeerTask} {stage : Stage}
    {effects : List TaskEffect} {performed : System} (identified : sys.Identified)
    (here : sys.conns.lookup other = some ⟨origin, .running task⟩)
    (acted : System.Acted sys task effects next performed) (different : peer ≠ other) :
    Blocked (performed.moveTask other origin stage) peer ↔ Blocked sys peer := by
  have loops := System.acted_loops acted
  have queue := System.acted_queues acted (identified _ _ _ here ▸ different)
  exact blocked_congr loops queue

/-- A sending task that moves on without offering the peer a frame begins no wait. -/
theorem blocked_moveLoop {loop : Loop} {point : LoopPoint}
    (silent : ∀ frame todo, point ≠ .offering peer frame todo)
    (blocked : Blocked (sys.moveLoop loop point) peer) : Blocked sys peer := by
  obtain ⟨waiting, frame, todo, queue, here, rest⟩ := blocked
  rw [System.loops_moveLoop] at here
  split at here
  · exact (silent frame todo here).elim
  · exact ⟨waiting, frame, todo, queue, here, rest⟩

/-- A sending task that moves on and did not wait itself ends no wait. -/
theorem moveLoop_blocked {loop : Loop} (point : LoopPoint)
    (free : ∀ frame todo, sys.loops loop ≠ .offering peer frame todo)
    (blocked : Blocked sys peer) : Blocked (sys.moveLoop loop point) peer := by
  obtain ⟨waiting, frame, todo, queue, here, rest⟩ := blocked
  have other : waiting ≠ loop := by
    rintro rfl
    exact free frame todo here
  exact ⟨waiting, frame, todo, queue, by rw [System.loops_moveLoop, if_neg other, here], rest⟩

/-- A wait for a peer's queue begins with a step of that peer's task, or with an action for
the peer that finds the queue full. -/
theorem step_blocked (exclusive : sys.Exclusive) (identified : sys.Identified)
    (taken : Step config blake2b256 sys label after)
    (other : ∀ effects, label ≠ .task peer effects) (blocked : Blocked after peer) :
    Blocked sys peer ∨ ∃ loop action queue, label = .execute loop action ∧ action.target = peer ∧
      sys.queues.lookup peer = some queue ∧ queue.Full := by
  cases taken with
  | accept | dial | handshake => exact Or.inl blocked
  | task performed peerId origin task next effects here stepped unblocked =>
    refine Or.inl ((blocked_other identified here (System.task_acted stepped unblocked) ?_).mp
      blocked)
    rintro rfl
    exact other effects rfl
  | writer peerId queue next here moved =>
    obtain ⟨loop, frame, todo, found, offering, lookup, full⟩ := blocked
    rw [lookup_insert_eq] at lookup
    split at lookup
    · rename_i same
      subst same
      cases lookup
      exact Or.inl ⟨loop, frame, todo, queue, offering, here, WriteQueue.writerStep_full moved full⟩
    · exact Or.inl ⟨loop, frame, todo, found, offering, lookup, full⟩
  | tick | receive | handle | lock | release =>
    exact Or.inl (blocked_moveLoop (by rintro _ _ ⟨⟩) blocked)
  | execute loop action todo here =>
    by_cases mine : action.target = peer
    · obtain ⟨_, _, _, queue, _, lookup, full⟩ := blocked
      exact Or.inr ⟨loop, action, queue, rfl, mine, lookup, full⟩
    · refine Or.inl (blocked_moveLoop ?_ blocked)
      intro frame rest
      split
      · rintro ⟨⟩
        exact mine rfl
      · rintro ⟨⟩
  | deliver loop target frame todo queue here found ready =>
    -- The lock has one holder, and that one has just stopped waiting.
    obtain ⟨waiting, offered, rest, _, offering, _, _⟩ := blocked
    change (sys.moveLoop loop (.sending todo)).loops waiting = _ at offering
    rw [System.loops_moveLoop] at offering
    split at offering
    · cases offering
    · rename_i different
      exact (different (exclusive waiting loop (by rw [offering]; rfl) (by rw [here]; rfl))).elim

/-- A peer's task comes to its cleanup when a read has failed, and changes nothing else. -/
theorem task_ending {effects : List TaskEffect}
    (taken : Step config blake2b256 sys (.task peer effects) after)
    (now : after.pointOf peer = some .removing) :
    effects = [] ∧ Ending blake2b256 sys peer ∧ (Blocked after peer ↔ Blocked sys peer) := by
  cases taken with
  | task performed _ origin task next _ here stepped unblocked =>
    have moved : next.point = .removing := by
      have found := System.pointOf_running
        ((System.conns_moveTask performed peer peer origin (.running next)).trans (if_pos rfl))
      exact Option.some.inj (found.symm.trans now)
    obtain ⟨reading, rfl, problem, reader, failed⟩ :=
      PeerTask.step_removing blake2b256 stepped moved
    cases unblocked
    exact ⟨rfl, ⟨origin, task, problem, reader, here, reading, failed⟩, Iff.rfl⟩

/-- A step that meets the condition begins no circular wait. -/
theorem step_untangled (exclusive : sys.Exclusive) (identified : sys.Identified)
    (taken : Step config blake2b256 sys label after) (untangled : Untangled blake2b256 sys label)
    (free : ∀ peer, ¬ CircularWait sys peer) (peer : PeerId) : ¬ CircularWait after peer := by
  rintro ⟨blocked, removing⟩
  cases System.step_staged identified taken peer with
  | kept other same =>
    have before : sys.pointOf peer = some .removing := by
      rw [System.pointOf, ← same]
      exact removing
    rcases step_blocked exclusive identified taken other blocked with
      earlier | ⟨loop, action, queue, rfl, rfl, lookup, full⟩
    · exact free peer ⟨earlier, before⟩
    · exact untangled.offering loop action queue rfl before lookup full
  | spawned _ _ _ now => simp [System.pointOf, now] at removing
  | handshaken _ stage _ _ now started =>
    obtain ⟨_, task, found, point⟩ := System.running_pointOf removing
    cases now.symm.trans found
    cases (started task rfl).2.1.symm.trans point
  | acted origin task next effects performed here acted own now =>
    subst own
    obtain ⟨rfl, ending, same⟩ := task_ending taken removing
    exact untangled.leaving peer rfl ending (same.mp blocked)

/-- The cleanup of a peer begins while a frame waits for room in its queue: now they wait
for each other. -/
theorem leaving_tangles (taken : Step config blake2b256 sys (.task peer []) after)
    (ending : Ending blake2b256 sys peer) (blocked : Blocked sys peer) :
    CircularWait after peer := by
  obtain ⟨origin, task, problem, reader, here, reading, failed⟩ := ending
  cases taken with
  | task performed _ _ running next _ found stepped unblocked =>
    cases here.symm.trans found
    rw [PeerTask.step, reading] at stepped
    have left := (PeerTask.readRound_failed blake2b256 true failed).symm.trans
      (Option.some.inj stepped)
    cases left
    cases unblocked
    exact ⟨blocked, System.pointOf_running
      ((System.conns_moveTask sys _ _ _ _).trans (if_pos rfl))⟩

/-- A frame is offered to the full queue of a peer in its cleanup: now they wait for each
other. -/
theorem offering_tangles (run : SystemRun config blake2b256 history sys) {loop : Loop}
    {action : Action} {queue : WriteQueue}
    (taken : Step config blake2b256 sys (.execute loop action) after)
    (removing : sys.pointOf action.target = some .removing)
    (found : sys.queues.lookup action.target = some queue) (full : queue.Full) :
    CircularWait after action.target := by
  have member : action.target ∈ sys.senders := by
    rw [run_senders run, removing]
    rfl
  cases taken with
  | execute _ _ todo here =>
    refine ⟨⟨loop, action.message.toFrame, todo, queue, ?_, found, full⟩, removing⟩
    rw [System.loops_moveLoop, if_pos rfl, if_pos member]

/-- Apart from the peer's own task and writer, nothing ends a wait. -/
theorem blocked_step (exclusive : sys.Exclusive) (identified : sys.Identified)
    (taken : Step config blake2b256 sys label after)
    (other : ∀ effects, label ≠ .task peer effects) (unwritten : label ≠ .writer peer)
    (blocked : Blocked sys peer) : Blocked after peer := by
  cases taken with
  | accept | dial | handshake => exact blocked
  | task performed peerId origin task next effects here stepped unblocked =>
    refine (blocked_other identified here (System.task_acted stepped unblocked) ?_).mpr blocked
    rintro rfl
    exact other effects rfl
  | writer peerId queue next here moved =>
    have different : peer ≠ peerId := by
      rintro rfl
      exact unwritten rfl
    obtain ⟨loop, frame, todo, full, offering, lookup, filled⟩ := blocked
    refine ⟨loop, frame, todo, full, offering, ?_, filled⟩
    rw [lookup_insert_eq, if_neg different, lookup]
  | tick _ here | receive _ _ here | handle _ _ _ here | lock _ _ here | execute _ _ _ here
  | release _ here =>
    exact moveLoop_blocked _ (by rw [here]; rintro _ _ ⟨⟩) blocked
  | deliver loop target frame todo queue here found ready =>
    -- The lock has one holder, so it would be the wait for the peer's queue that ends.
    obtain ⟨waiting, offered, rest, full, offering, lookup, filled⟩ := blocked
    obtain rfl := exclusive waiting loop (by rw [offering]; rfl) (by rw [here]; rfl)
    cases offering.symm.trans here
    cases lookup.symm.trans found
    exact (ready filled).elim

/-- A circular wait lasts until the peer's writer takes a step. -/
theorem circular_wait_step (exclusive : sys.Exclusive) (identified : sys.Identified)
    (taken : Step config blake2b256 sys label after) (unwritten : label ≠ .writer peer)
    (wait : CircularWait sys peer) : CircularWait after peer := by
  obtain ⟨blocked, removing⟩ := wait
  cases System.step_staged identified taken peer with
  | kept other same =>
    refine ⟨blocked_step exclusive identified taken other unwritten blocked, ?_⟩
    rw [System.pointOf, same]
    exact removing
  | spawned _ _ fresh => simp [System.pointOf, fresh] at removing
  | handshaken _ _ _ here => simp [System.pointOf, here] at removing
  | acted origin task next effects performed here acted own now =>
    rw [System.pointOf_running here, Option.some.injEq] at removing
    cases acted with
    | removed _ free =>
      obtain ⟨loop, _, _, _, offering, _⟩ := blocked
      have held := free loop
      rw [offering] at held
      cases held
    | registered point | connected point | inserted point | spawned point | reported _ _ point
    | skipped _ point | left _ point | aborted point | disconnected point =>
      cases point.symm.trans removing

/-- From a circular wait on, the lock is never free again unless the peer's writer takes a
step: whoever needs it waits forever if the remote has stopped reading. -/
theorem circular_wait_lasts (run : SystemRun config blake2b256 history sys)
    (wait : CircularWait sys peer) {labels : List Label}
    (later : Run sys (Step config blake2b256) labels after)
    (unwritten : .writer peer ∉ labels) : CircularWait after peer ∧ ¬ after.Unlocked := by
  have lasting : CircularWait after peer := by
    induction later with
    | start => exact wait
    | extend earlier taken inductionHypothesis =>
      have reached := continued run earlier
      refine circular_wait_step (System.run_exclusive reached) (System.run_identified reached) taken
        ?_ (inductionHypothesis fun member => unwritten (List.mem_cons_of_mem _ member))
      rintro rfl
      exact unwritten List.mem_cons_self
  refine ⟨lasting, fun free => ?_⟩
  obtain ⟨loop, _, _, _, offering, _⟩ := lasting.blocked
  have held := free loop
  rw [offering] at held
  cases held

/-- In every run whose steps meet the condition no sending task and no cleanup wait for each
other, and the next step keeps it so exactly if it meets the condition as well. -/
theorem no_circular_wait (run : Run System.new (UntangledStep config blake2b256) history sys) :
    (∀ peer, ¬ CircularWait sys peer) ∧
      ∀ label after, Step config blake2b256 sys label after →
        ((∀ peer, ¬ CircularWait after peer) ↔ Untangled blake2b256 sys label) := by
  have included : ∀ before label after, UntangledStep config blake2b256 before label after →
      Step config blake2b256 before label after := fun _ _ _ taken => taken.1
  have free : ∀ peer, ¬ CircularWait sys peer := by
    refine invariant (fun _ reached => ∀ peer, ¬ CircularWait reached peer) ?_ ?_ run
    · rintro peer ⟨⟨_, _, _, _, ⟨⟩, _⟩, _⟩
    · intro earlier before label after earlierRun free taken
      have reached := weaken included earlierRun
      exact step_untangled (System.run_exclusive reached) (System.run_identified reached) taken.1
        taken.2 free
  have reached := weaken included run
  refine ⟨free, fun label after taken => ⟨fun untied => ⟨?_, ?_⟩, fun untangled => ?_⟩⟩
  · rintro peer rfl ending blocked
    exact untied peer (leaving_tangles taken ending blocked)
  · rintro loop action queue rfl removing found full
    exact untied action.target (offering_tangles reached taken removing found full)
  · exact step_untangled (System.run_exclusive reached) (System.run_identified reached) taken
      untangled free

/-- The first peer of a proxy asks for peers, and its answer is offered to its queue. -/
theorem no_circular_wait_answer :
    ∃ history sys, Run System.new (UntangledStep soloConfig fun _ => Frame.emptyDigest) history sys ∧
      (∃ frame todo, sys.loops .events = .offering ⟨1⟩ frame todo) ∧
      ∀ peer, ¬ CircularWait sys peer := by
  obtain ⟨_, run, served⟩ := first_served (fun _ => Frame.emptyDigest) solo_listener Nat.one_pos
    [ProtocolMessage.getPeers.toFrame]
  obtain ⟨before, requested, served⟩ := served_requests served
  obtain ⟨sys, executed, offering⟩ := served_offers served
  obtain ⟨_, quiet⟩ : ∃ history,
      Run System.new (UntangledStep soloConfig fun _ => Frame.emptyDigest) history before := by
    refine ⟨_, admitted (continued run requested) fun _ label _ member taken =>
      ⟨taken, ⟨?_, ?_⟩⟩⟩
    · rintro _ rfl
      simp [requestedLabels, connectedLabels, arrivalLabels, connectingLabels] at member
    · rintro _ _ _ rfl
      simp [requestedLabels, connectedLabels, arrivalLabels, connectingLabels] at member
  have untangled : Untangled (fun _ => Frame.emptyDigest) before
      (.execute .events (.send ⟨1⟩ (.peers []))) := by
    refine ⟨by rintro _ ⟨⟩, ?_⟩
    rintro _ _ queue ⟨⟩ removing
    obtain ⟨_, task, here, _, reading, _⟩ := served.reading
    rw [System.pointOf_running here, reading] at removing
    cases removing
  have run := Run.extend quiet ⟨executed, untangled⟩
  exact ⟨_, sys, run, ⟨_, _, offering.events⟩, (no_circular_wait run).1⟩

/-- A peer asks for peers again and again without reading the answers, and closes its sending
side: its writer holds the first answer, its queue is full with 64 more, the next one waits
for room, and the cleanup waits for the lock. -/
theorem circular_wait_reached :
    ∃ history sys, SystemRun soloConfig (fun _ => Frame.emptyDigest) history sys ∧
      CircularWait sys ⟨1⟩ := by
  obtain ⟨_, run, served⟩ := first_served (fun _ => Frame.emptyDigest) solo_listener Nat.one_pos
    (ProtocolMessage.getPeers.toFrame ::
      (List.replicate writeCapacity ProtocolMessage.getPeers.toFrame ++
        [ProtocolMessage.getPeers.toFrame]))
  obtain ⟨_, first, served⟩ := served_round served (by decide)
  obtain ⟨_, taken, served⟩ := served_writes served
  obtain ⟨_, _, queue, filling, served, length, writer⟩ :=
    served_fills writeCapacity served WriterPoint.noConfusion (Nat.le_refl _)
  obtain ⟨before, asked, served⟩ := served_asks served
  obtain ⟨origin, task, removing, left⟩ := served_leaves served
  have reached := continued (continued (.extend (continued run first) taken) filling) asked
  refine ⟨_, _, .extend reached left, ⟨.events, _, _, queue, served.events, served.queued, ?_⟩, ?_⟩
  · refine ⟨by rw [writer]; exact WriterPoint.noConfusion, ?_⟩
    rw [length]
    exact Nat.le_refl _
  · rw [← removing]
    exact System.pointOf_running ((System.conns_moveTask before _ _ _ _).trans (if_pos rfl))

end ErgoProxy.Runtime
