import ErgoProxy.Runtime.System

/-!
# What one step of the program does

Two classifications carry all invariants of the program. A step of a peer's task acts on
what the tasks share in one of ten ways, each at its own program point. And for any one
connection a step means nothing, its beginning, the end of its handshake, or a step of its
task. Two facts about every run make them usable: a task serves the peer under whose
number it was spawned, and the lock of the sender map has at most one holder.
-/

namespace ErgoProxy.Runtime

open FiniteMaps Routing Runs

/-- The writer only makes room. -/
theorem WriteQueue.writerStep_full {connected : Prop} {before after : WriteQueue}
    (step : WriterStep connected before after) (full : after.Full) : before.Full := by
  obtain ⟨receiving, filled⟩ := full
  cases step with
  | take frame frames => exact ⟨by simp, Nat.le_succ_of_le filled⟩
  | written frame frames => exact ⟨by simp, filled⟩
  | failed frame frames => exact (receiving rfl).elim
  | drained unconnected => exact (receiving rfl).elim

namespace System

/-- A changed queue is found changed, and every other queue as it was. -/
theorem lookup_changeQueue (sys : System) (peerId other : PeerId)
    (change : WriteQueue → WriteQueue) :
    (sys.changeQueue peerId change).queues.lookup other =
      if other = peerId then (sys.queues.lookup peerId).map change
      else sys.queues.lookup other := by
  unfold changeQueue
  cases found : sys.queues.lookup peerId with
  | none =>
    by_cases same : other = peerId
    · rw [if_pos same, same]
      exact found
    · rw [if_neg same]
  | some queue => exact lookup_insert_eq sys.queues peerId other (change queue)

@[simp] theorem loops_moveLoop (sys : System) (loop other : Loop) (point : LoopPoint) :
    (sys.moveLoop loop point).loops other = if other = loop then point else sys.loops other := by
  simp [moveLoop, Function.update_apply]

@[simp] theorem conns_moveTask (sys : System) (peerId other : PeerId) (origin : Origin)
    (stage : Stage) :
    (sys.moveTask peerId origin stage).conns.lookup other =
      if other = peerId then some ⟨origin, stage⟩ else sys.conns.lookup other :=
  lookup_insert_eq sys.conns peerId other ⟨origin, stage⟩

/-- The lock of the sender map has at most one holder. -/
def Exclusive (sys : System) : Prop :=
  ∀ first second, (sys.loops first).holds = true → (sys.loops second).holds = true → first = second

/-- Every step of a peer's task, with what it changes apart from the task itself and with
what it had to wait for. -/
inductive Acted (sys : System) (task : PeerTask) : List TaskEffect → PeerTask → System → Prop where
  | registered (here : task.point = .registering) :
      Acted sys task [.registerPeer task.peerId task.direction task.mode]
        { task with point := .connecting }
        { sys with router := sys.router.registerPeer task.peerId task.direction task.mode }
  | connected (here : task.point = .connecting) (room : sys.channel.length < eventCapacity) :
      Acted sys task [.event (.peerConnected task.peerId task.spec task.direction)]
        { task with point := .inserting }
        { sys with channel := sys.channel ++ [.peerConnected task.peerId task.spec task.direction] }
  | inserted (here : task.point = .inserting) (free : sys.Unlocked) :
      Acted sys task [.insertSender task.peerId] { task with point := .spawning }
        { sys with
          senders := insert task.peerId sys.senders
          queues := sys.queues.insert task.peerId ⟨[], .unspawned⟩ }
  | spawned (here : task.point = .spawning) :
      Acted sys task [.spawnWriter task.peerId] { task with point := .reading }
        (sys.changeQueue task.peerId fun queue => { queue with writer := .waiting })
  | reported (reader : BufReader) (message : ProtocolMessage) (here : task.point = .reading)
      (room : sys.channel.length < eventCapacity) :
      Acted sys task [.event (.message task.peerId message)] { task with reader }
        { sys with channel := sys.channel ++ [.message task.peerId message] }
  | skipped (reader : BufReader) (here : task.point = .reading) :
      Acted sys task [] { task with reader } sys
  | left (reader : BufReader) (here : task.point = .reading) :
      Acted sys task [] { task with reader, point := .removing } sys
  | removed (here : task.point = .removing) (free : sys.Unlocked) :
      Acted sys task [.removeSender task.peerId] { task with point := .aborting }
        { sys with senders := sys.senders.erase task.peerId }
  | aborted (here : task.point = .aborting) :
      Acted sys task [.abortWriter task.peerId] { task with point := .disconnecting }
        (sys.changeQueue task.peerId fun _ => ⟨[], .ended⟩)
  | disconnected (here : task.point = .disconnecting) (room : sys.channel.length < eventCapacity) :
      Acted sys task [.event (.peerDisconnected task.peerId "connection closed")]
        { task with point := .finished }
        { sys with
          channel := sys.channel ++ [.peerDisconnected task.peerId "connection closed"] }

/-- A send to the event channel waits for room. -/
theorem perform_event {sys after : System} {event : ProtocolEvent}
    (performed : [TaskEffect.event event].foldlM perform sys = some after) :
    sys.channel.length < eventCapacity ∧ { sys with channel := sys.channel ++ [event] } = after := by
  simpa [perform] using performed

/-- Every unblocked step of a task is one of these. -/
theorem task_acted {blake2b256 : Bytes → Vector UInt8 32} {sys after : System}
    {task next : PeerTask} {effects : List TaskEffect}
    (stepped : task.step blake2b256 true = some (effects, next))
    (unblocked : effects.foldlM perform sys = some after) : Acted sys task effects next after := by
  cases PeerTask.step_move blake2b256 stepped with
  | register here =>
    cases unblocked
    exact .registered here
  | connect here =>
    obtain ⟨room, rfl⟩ := perform_event unblocked
    exact .connected here room
  | insert here =>
    obtain ⟨free, rfl⟩ : sys.Unlocked ∧ _ = after := by simpa [perform] using unblocked
    exact .inserted here free
  | spawn here =>
    cases unblocked
    exact .spawned here
  | report reader message here =>
    obtain ⟨room, rfl⟩ := perform_event unblocked
    exact .reported reader message here room
  | skip reader here =>
    cases unblocked
    exact .skipped reader here
  | leave reader here =>
    cases unblocked
    exact .left reader here
  | remove here =>
    obtain ⟨free, rfl⟩ : sys.Unlocked ∧ _ = after := by simpa [perform] using unblocked
    exact .removed here free
  | abort here =>
    cases unblocked
    exact .aborted here
  | disconnect here =>
    obtain ⟨room, rfl⟩ := perform_event unblocked
    exact .disconnected here room

/-- A peer's task leaves the sending tasks where they stand. -/
theorem acted_loops {sys after : System} {task next : PeerTask} {effects : List TaskEffect}
    (acted : Acted sys task effects next after) : after.loops = sys.loops := by
  cases acted <;> rfl

end System

variable {config : Config} {blake2b256 : Bytes → Vector UInt8 32} {sys after : System}
  {label : Label} {history : List Label}

namespace System

/-- A task that lets go of the lock, or never had it, keeps the lock exclusive. -/
theorem moveLoop_exclusive (exclusive : sys.Exclusive) {loop : Loop} {point : LoopPoint}
    (held : point.holds = true → (sys.loops loop).holds = true) :
    (sys.moveLoop loop point).Exclusive := by
  intro first second firstHolds secondHolds
  have before {other : Loop} (holds : ((sys.moveLoop loop point).loops other).holds = true) :
      (sys.loops other).holds = true := by
    rw [loops_moveLoop] at holds
    split at holds
    · rename_i same
      rw [same]
      exact held holds
    · exact holds
  exact exclusive first second (before firstHolds) (before secondHolds)

/-- One step keeps the lock exclusive. -/
theorem step_exclusive (taken : Step config blake2b256 sys label after)
    (exclusive : sys.Exclusive) : after.Exclusive := by
  cases taken with
  | task performed peerId origin task next effects here stepped unblocked =>
    have loops := acted_loops (task_acted stepped unblocked)
    intro first second
    change (performed.loops first).holds = true → (performed.loops second).holds = true → _
    rw [loops]
    exact exclusive first second
  | lock loop todo here free =>
    intro first second firstHolds secondHolds
    have own {other : Loop}
        (holds : ((sys.moveLoop loop (.sending todo)).loops other).holds = true) : other = loop := by
      by_contra different
      rw [loops_moveLoop, if_neg different, free other] at holds
      cases holds
    rw [own firstHolds, own secondHolds]
  | execute loop action todo here =>
    exact moveLoop_exclusive exclusive fun _ => by rw [here]; rfl
  | deliver loop target frame todo queue here =>
    exact moveLoop_exclusive exclusive fun _ => by rw [here]; rfl
  | tick | receive | handle | release =>
    exact moveLoop_exclusive exclusive fun holds => by cases holds
  | accept | dial | handshake | writer => exact exclusive

/-- In every run the lock is exclusive. -/
theorem run_exclusive (run : SystemRun config blake2b256 history sys) : sys.Exclusive := by
  refine invariant (fun _ reached => reached.Exclusive) ?_ ?_ run
  · intro first second holds
    cases holds
  · intro _ before label after _ exclusive taken
    exact step_exclusive taken exclusive

/-- Every peer's task serves the peer under whose number it was spawned. -/
def Identified (sys : System) : Prop :=
  ∀ peerId origin task, sys.conns.lookup peerId = some ⟨origin, .running task⟩ →
    task.peerId = peerId

/-- A task keeps its arguments, and a step of it leaves the other connections alone. -/
theorem acted_arguments {task next : PeerTask} {effects : List TaskEffect}
    (acted : Acted sys task effects next after) :
    next.peerId = task.peerId ∧ next.direction = task.direction ∧ next.mode = task.mode ∧
      next.spec = task.spec ∧ after.conns = sys.conns := by
  cases acted <;> exact ⟨rfl, rfl, rfl, rfl, rfl⟩

end System

/-- The task that follows a handshake has taken no step yet; its direction is that of its
origin. -/
theorem handshaken_running {origin : Origin} {peerId : PeerId} {surroundings : Surroundings}
    {reader : BufReader} {task : PeerTask}
    (running : config.handshaken origin peerId surroundings reader = .running task) :
    task.peerId = peerId ∧ task.point = .registering ∧
      (∀ index, origin = .listener index → task.direction = .inbound) := by
  cases origin with
  | listener index =>
    simp only [Config.handshaken] at running
    split at running
    · cases running
    · split at running
      · cases running
      · cases running
        exact ⟨rfl, rfl, fun _ _ => rfl⟩
  | manager =>
    simp only [Config.handshaken] at running
    split at running
    · cases running
    · split at running
      · cases running
      · cases running
        exact ⟨rfl, rfl, by rintro _ ⟨⟩⟩

/-- What a step means for one connection: nothing, its beginning, the end of its handshake,
or a step of its task. -/
inductive Staged (peer : PeerId) (sys : System) (label : Label) (after : System) : Prop where
  | kept (other : ∀ effects, label ≠ .task peer effects)
      (task : after.conns.lookup peer = sys.conns.lookup peer)
      (sender : peer ∈ after.senders ↔ peer ∈ sys.senders)
  | spawned (origin : Origin) (other : ∀ effects, label ≠ .task peer effects)
      (fresh : sys.conns.lookup peer = none)
      (now : after.conns.lookup peer = some ⟨origin, .handshaking⟩)
      (senders : after.senders = sys.senders)
      (accepted : ∀ index, origin = .listener index → label = .accept index peer)
  | handshaken (origin : Origin) (stage : Stage) (other : ∀ effects, label ≠ .task peer effects)
      (before : sys.conns.lookup peer = some ⟨origin, .handshaking⟩)
      (now : after.conns.lookup peer = some ⟨origin, stage⟩)
      (started : ∀ task, stage = .running task → task.peerId = peer ∧ task.point = .registering ∧
        ∀ index, origin = .listener index → task.direction = .inbound)
      (senders : after.senders = sys.senders)
  | acted (origin : Origin) (task next : PeerTask) (effects : List TaskEffect) (performed : System)
      (before : sys.conns.lookup peer = some ⟨origin, .running task⟩)
      (acted : System.Acted sys task effects next performed) (own : label = .task peer effects)
      (now : after = performed.moveTask peer origin (.running next))

namespace System

/-- A step of a task changes no sender but that of its own peer. -/
theorem acted_senders {task next : PeerTask} {effects : List TaskEffect}
    (acted : Acted sys task effects next after) {peer : PeerId} (other : peer ≠ task.peerId) :
    peer ∈ after.senders ↔ peer ∈ sys.senders := by
  cases acted with
  | inserted => simp [other]
  | removed => simp [other]
  | _ => exact Iff.rfl

/-- A step of a task changes no write queue but that of its own peer. -/
theorem acted_queues {task next : PeerTask} {effects : List TaskEffect}
    (acted : Acted sys task effects next after) {peer : PeerId} (other : peer ≠ task.peerId) :
    after.queues.lookup peer = sys.queues.lookup peer := by
  cases acted with
  | inserted => exact (lookup_insert_eq _ _ _ _).trans (if_neg other)
  | spawned | aborted => exact (lookup_changeQueue _ _ _ _).trans (if_neg other)
  | _ => rfl

/-- Every step means one of these for a connection. -/
theorem step_staged (identified : sys.Identified) (taken : Step config blake2b256 sys label after)
    (peer : PeerId) : Staged peer sys label after := by
  cases taken with
  | accept index listener configured visit below fresh =>
    by_cases own : peer = ⟨sys.counter⟩
    · subst own
      exact .spawned (.listener index) (by rintro _ ⟨⟩) fresh
        ((conns_moveTask sys _ _ _ _).trans (if_pos rfl)) rfl (by rintro _ ⟨⟩; rfl)
    · exact .kept (by rintro _ ⟨⟩) ((conns_moveTask sys _ _ _ _).trans (if_neg own)) Iff.rfl
  | dial fresh =>
    by_cases own : peer = ⟨sys.counter⟩
    · subst own
      exact .spawned .manager (by rintro _ ⟨⟩) fresh
        ((conns_moveTask sys _ _ _ _).trans (if_pos rfl)) rfl (by rintro _ ⟨⟩)
    · exact .kept (by rintro _ ⟨⟩) ((conns_moveTask sys _ _ _ _).trans (if_neg own)) Iff.rfl
  | handshake peerId origin here surroundings reader =>
    by_cases own : peer = peerId
    · subst own
      exact .handshaken origin _ (by rintro _ ⟨⟩) here
        ((conns_moveTask sys _ _ _ _).trans (if_pos rfl)) (fun _ => handshaken_running) rfl
    · exact .kept (by rintro _ ⟨⟩) ((conns_moveTask sys _ _ _ _).trans (if_neg own)) Iff.rfl
  | task performed peerId origin task next effects here stepped unblocked =>
    have acted := task_acted stepped unblocked
    by_cases own : peer = peerId
    · subst own
      exact .acted origin task next effects performed here acted rfl rfl
    · refine .kept (by rintro _ ⟨⟩; exact own rfl) ?_
        (acted_senders acted (identified _ _ _ here ▸ own))
      rw [conns_moveTask, if_neg own, (acted_arguments acted).2.2.2.2]
  | writer | tick | receive | handle | lock | execute | deliver | release =>
    exact .kept (by rintro _ ⟨⟩) rfl Iff.rfl

/-- One step keeps every task with its peer. -/
theorem step_identified (taken : Step config blake2b256 sys label after)
    (identified : sys.Identified) : after.Identified := by
  intro peer origin task found
  cases step_staged identified taken peer with
  | kept _ same => exact identified _ _ _ (same ▸ found)
  | spawned _ _ _ now => cases now.symm.trans found
  | handshaken _ stage _ _ now started =>
    cases now.symm.trans found
    exact (started task rfl).1
  | acted origin before next effects performed here acted own now =>
    subst now
    rw [conns_moveTask, if_pos rfl] at found
    cases found
    rw [(acted_arguments acted).1, identified _ _ _ here]

/-- In every run every task serves its peer. -/
theorem run_identified (run : SystemRun config blake2b256 history sys) : sys.Identified := by
  refine invariant (fun _ reached => reached.Identified) ?_ ?_ run
  · intro peer origin task found
    cases found
  · intro _ before label after _ identified taken
    exact step_identified taken identified

end System

end ErgoProxy.Runtime
