import ErgoProxy.Runtime.EventOrder

/-!
# Which peers frames are offered to

A peer is registered before its task reports it, and its sender enters the map only after
that. The map therefore holds exactly the peers whose tasks stand between the insertion and
the removal of their senders. An action for a peer that is registered and not in the map yet
is discarded: the router knows the peer, the event loop does not.
-/

namespace ErgoProxy.Runtime

open FiniteMaps Routing Runs

/-- The points at which the peer's sender is in the map. -/
def connectedPoint : PeerPoint → Bool
  | .spawning | .reading | .removing => true
  | _ => false

/-- The points behind the reader loop. -/
def endedPoint : PeerPoint → Bool
  | .removing | .aborting | .disconnecting | .finished => true
  | _ => false

/-- Where the task of a peer stands, if its handshake has succeeded. -/
def System.pointOf (sys : System) (peer : PeerId) : Option PeerPoint :=
  match sys.conns.lookup peer with
  | some ⟨_, .running task⟩ => some task.point
  | _ => none

variable {config : Config} {blake2b256 : Bytes → Vector UInt8 32} {sys after : System}
  {label : Label} {history : List Label} {peer : PeerId}

/-- The point of a running task. -/
theorem System.pointOf_running {origin : Origin} {task : PeerTask}
    (here : sys.conns.lookup peer = some ⟨origin, .running task⟩) :
    sys.pointOf peer = some task.point := by
  rw [pointOf, here]

/-- A task that stands at a point is running. -/
theorem System.running_pointOf {point : PeerPoint} (here : sys.pointOf peer = some point) :
    ∃ origin task, sys.conns.lookup peer = some ⟨origin, .running task⟩ ∧ task.point = point := by
  unfold pointOf at here
  split at here
  · rename_i origin task found
    cases here
    exact ⟨origin, task, found, rfl⟩
  · cases here

/-- A task enters its sender when it comes to a point of these and takes it back when it
leaves them. -/
theorem acted_connected {task next : PeerTask} {effects : List TaskEffect}
    (acted : System.Acted sys task effects next after)
    (before : task.peerId ∈ sys.senders ↔ connectedPoint task.point = true) :
    task.peerId ∈ after.senders ↔ connectedPoint next.point = true := by
  cases acted with
  | inserted => exact iff_of_true (Finset.mem_insert_self _ _) rfl
  | removed => exact iff_of_false (Finset.notMem_erase _ _) (by simp [connectedPoint])
  | registered here | connected here | spawned here | left _ here | aborted here
  | disconnected here =>
    rw [here] at before
    exact before
  | reported _ _ here | skipped _ here => exact before

/-- One step keeps the senders in line with the tasks. -/
theorem step_senders (identified : sys.Identified) (taken : Step config blake2b256 sys label after)
    (before : peer ∈ sys.senders ↔ (sys.pointOf peer).any connectedPoint = true) :
    peer ∈ after.senders ↔ (after.pointOf peer).any connectedPoint = true := by
  cases System.step_staged identified taken peer with
  | kept _ same sender =>
    rw [sender, before, System.pointOf, System.pointOf, same]
  | spawned _ _ fresh now senders =>
    rw [senders, before, System.pointOf, System.pointOf, fresh, now]
  | handshaken _ stage _ here now started senders =>
    rw [senders, before, System.pointOf, System.pointOf, here, now]
    cases stage with
    | running task => simp [(started task rfl).2.1, connectedPoint]
    | handshaking | closed => rfl
  | acted origin task next effects performed here acted own now =>
    subst now
    obtain rfl := identified _ _ _ here
    rw [System.pointOf_running here] at before
    have found : (performed.moveTask task.peerId origin (.running next)).pointOf task.peerId =
        some next.point :=
      System.pointOf_running ((System.conns_moveTask performed _ _ _ _).trans (if_pos rfl))
    rw [found]
    change task.peerId ∈ performed.senders ↔ _
    exact acted_connected acted before

/-- In every run the map holds the peers whose tasks have entered their senders and not
taken them back. -/
theorem run_senders (run : SystemRun config blake2b256 history sys) (peer : PeerId) :
    peer ∈ sys.senders ↔ (sys.pointOf peer).any connectedPoint = true := by
  refine invariant
    (fun _ reached => peer ∈ reached.senders ↔ (reached.pointOf peer).any connectedPoint = true)
    ?_ ?_ run
  · exact iff_of_false (Finset.notMem_empty peer) (by simp [System.pointOf, System.new])
  · intro earlier before label after earlierRun inLine taken
    exact step_senders (System.run_identified earlierRun) taken inLine

/-- What the event loop has to execute was emitted after the peer's registration: that came
before the last event that was handled. -/
def EmittedSince (history : List Label) (peer : PeerId) : Prop :=
  ∃ later event actions earlier direction mode,
    history = later ++ .handle event actions :: earlier ∧
    (∀ label ∈ later, ∀ event actions, label ≠ .handle event actions) ∧
    RegisteredBy earlier peer direction mode

/-- When the event loop has taken the lock, its actions are those of the event just handled. -/
theorem emitted_locked {event : ProtocolEvent} {actions : List Action} {direction : Direction}
    {mode : ProxyMode} (registered : RegisteredBy history peer direction mode) :
    EmittedSince (.lock .events :: .handle event actions :: history) peer :=
  ⟨[.lock .events], event, actions, history, direction, mode, rfl, by simp, registered⟩

/-- The frame of an action is offered to the write queue of its target. -/
def Offered (after : System) (action : Action) : Prop :=
  ∃ todo, after.loops .events = .offering action.target action.message.toFrame todo

/-- The peer is registered and its sender is not in the map yet. -/
def Arriving (sys : System) (peer : PeerId) : Prop :=
  sys.pointOf peer = some .connecting ∨ sys.pointOf peer = some .inserting

/-- An action is offered exactly when its target is in the map. -/
theorem execute_offered {action : Action}
    (taken : Step config blake2b256 sys (.execute .events action) after) :
    Offered after action ↔ action.target ∈ sys.senders := by
  cases taken with
  | execute _ _ todo here =>
    unfold Offered
    rw [System.loops_moveLoop, if_pos rfl]
    by_cases member : action.target ∈ sys.senders
    · simp [member]
    · simp [member]

section Arrival

/-! An inbound peer and a dialed peer arrive at the same time. -/

/-- The registry once both are registered. -/
def arrivalRouter : Router :=
  (Router.new.registerPeer ⟨2⟩ .outbound .full).registerPeer ⟨1⟩ .inbound .full

def arrivalVisit : Traversal arrivalRouter.peers where
  order := [⟨⟨1⟩, ⟨.inbound, .full⟩⟩, ⟨⟨2⟩, ⟨.outbound, .full⟩⟩]
  exact := by decide

/-- The message of the dialed peer that is relayed to all inbound peers. -/
def relayedMessage : ProtocolMessage := .unknown 100 []

/-- The dialed peer is served and has sent a message, while the inbound peer is registered
and its task has still to report it. -/
theorem arrival_run :
    ∃ history sys, SystemRun soloConfig (fun _ => Frame.emptyDigest) history sys ∧
      RegisteredBy history ⟨1⟩ .inbound .full ∧ sys.pointOf ⟨1⟩ = some .connecting ∧
      Served (fun _ => Frame.emptyDigest) sys ⟨2⟩ arrivalRouter [] ⟨[], .waiting⟩
        [.message ⟨2⟩ relayedMessage] .idle := by
  have accepted : SystemRun soloConfig (fun _ => Frame.emptyDigest) [.accept 0 ⟨1⟩] _ :=
    .extend .start (first_accepted solo_listener Nat.one_pos)
  have dial : Step soloConfig (fun _ => Frame.emptyDigest) _ (.dial ⟨2⟩) _ :=
    .dial (System.new.spawnTask (.listener 0)) (by decide)
  obtain ⟨_, dialed, served⟩ := spawned_served dial (manager_handshaken _) (by decide)
    (fun _ => rfl) [relayedMessage.toFrame]
  obtain ⟨_, noted, served⟩ := served_notes served
  obtain ⟨middle, read, served⟩ := served_reads served (Nat.zero_le _)
    (show ProtocolMessage.fromFrame relayedMessage.toFrame = .ok relayedMessage from rfl) (by decide)
  have waiting : middle.conns.lookup ⟨1⟩ = some ⟨.listener 0, .handshaking⟩ :=
    (run_untouched (.extend (continued dialed noted) read) (by decide)).trans rfl
  obtain ⟨sys, entering, entered⟩ := handshaking_enters (fun _ => Frame.emptyDigest) waiting
    (listener_handshaken solo_listener ⟨1⟩ [])
  refine ⟨_, sys, continued (.extend (continued (continued accepted dialed) noted) read) entering,
    List.mem_cons_self, System.pointOf_running entered.task, ?_⟩
  exact served_entered served entered (by decide)

end Arrival

/-- In every run, an action that the router emitted after the registration of its target and
that the event loop executes before the target's reader loop has ended is offered to the
target's write queue, exactly if the target's sender has been entered by then. -/
theorem offered_unless_arriving (run : SystemRun config blake2b256 history sys) {action : Action}
    (taken : Step config blake2b256 sys (.execute .events action) after)
    (emitted : EmittedSince history action.target)
    (reading : (sys.pointOf action.target).any endedPoint = false) :
    Offered after action ↔ ¬ Arriving sys action.target := by
  obtain ⟨later, event, actions, earlier, direction, mode, rfl, _, registered⟩ := emitted
  have recorded : RegisteredBy (later ++ .handle event actions :: earlier) action.target direction
      mode := List.mem_append_right later (List.mem_cons_of_mem _ registered)
  obtain ⟨origin, task, here, beyond, _, _⟩ :=
    ((run_registry run action.target).recorded direction mode).mp recorded
  have stands := System.pointOf_running here
  rw [execute_offered taken, run_senders run, Arriving]
  rw [stands] at reading ⊢
  -- Neither before its registration nor behind its reader loop: four points are left.
  cases point : task.point with
  | registering => exact (beyond point).elim
  | connecting | inserting => simp [connectedPoint]
  | spawning | reading => simp [connectedPoint]
  | removing | aborting | disconnecting | finished => simp [point, endedPoint] at reading

/-- The first peer of a proxy asks for peers, and the answer is offered to it. -/
theorem offered_unless_arriving_answer :
    ∃ history sys after,
      SystemRun soloConfig (fun _ => Frame.emptyDigest) history sys ∧
      Step soloConfig (fun _ => Frame.emptyDigest) sys
        (.execute .events (.send ⟨1⟩ (.peers []))) after ∧
      EmittedSince history ⟨1⟩ ∧ Offered after (.send ⟨1⟩ (.peers [])) := by
  obtain ⟨_, run, served⟩ := first_served (fun _ => Frame.emptyDigest) solo_listener Nat.one_pos
    [ProtocolMessage.getPeers.toFrame]
  obtain ⟨sys, requested, served⟩ := served_requests served
  obtain ⟨after, executed, _⟩ := served_offers served
  have reached := continued run requested
  obtain ⟨origin, task, here, _, reading, _⟩ := served.reading
  have stands := System.pointOf_running here
  rw [reading] at stands
  have registered : RegisteredBy (connectedLabels ⟨1⟩ shortestSpec .inbound ++
      arrivalLabels (.accept 0 ⟨1⟩) ⟨1⟩ .inbound .full) ⟨1⟩ .inbound .full := by
    simp [RegisteredBy, arrivalLabels]
  refine ⟨_, sys, after, reached, executed, emitted_locked (.tail _ (.tail _ registered)), ?_⟩
  refine (offered_unless_arriving reached executed (emitted_locked (.tail _ (.tail _ registered)))
    (by rw [stands]; rfl)).mpr ?_
  rw [Arriving, stands]
  simp

/-- A message is relayed to an inbound peer that is registered and whose task has still to
enter its sender: the frame is discarded. -/
theorem frame_discarded :
    ∃ history sys after,
      SystemRun soloConfig (fun _ => Frame.emptyDigest) history sys ∧
      Step soloConfig (fun _ => Frame.emptyDigest) sys
        (.execute .events (.send ⟨1⟩ relayedMessage)) after ∧
      EmittedSince history ⟨1⟩ ∧ (sys.pointOf ⟨1⟩).any endedPoint = false ∧
      ¬ Offered after (.send ⟨1⟩ relayedMessage) := by
  obtain ⟨history, start, run, registered, arriving, served⟩ := arrival_run
  obtain ⟨_, received, served⟩ := served_receives served
  obtain ⟨_, handled, served⟩ := served_handles served arrivalVisit (fun _ => 0)
    (show _ = ([.send ⟨1⟩ relayedMessage], arrivalRouter) from rfl) served.registered
  obtain ⟨sys, locked, served⟩ := served_locks served
  have later : Run start (Step soloConfig (fun _ => Frame.emptyDigest)) _ sys :=
    .extend (.extend (.extend .start received) handled) locked
  have reached := continued run later
  have stands : sys.pointOf ⟨1⟩ = some .connecting := by
    rw [System.pointOf, run_untouched later (by simp [Label.connection])]
    exact arriving
  have executed : Step soloConfig (fun _ => Frame.emptyDigest) sys _ _ :=
    .execute sys .events (.send ⟨1⟩ relayedMessage) [] served.events
  refine ⟨_, sys, _, reached, executed, ?_, by rw [stands]; rfl, ?_⟩
  · exact emitted_locked (.tail _ registered)
  · rw [execute_offered executed, run_senders reached]
    change ¬ (sys.pointOf ⟨1⟩).any connectedPoint = true
    rw [stands]
    decide

end ErgoProxy.Runtime
