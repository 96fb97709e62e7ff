import ErgoProxy.Routing.Pairing
import ErgoProxy.Runtime.Membership

/-!
# The running program drives the router

Tasks call the router to register their peers and the event loop calls it to handle events;
nothing else touches it. So every run of the program shows a run of the router, and what was
proved of all runs of the router holds inside the program. The calls keep to a protocol that
the router itself does not enforce: for each peer one registration, then its connection, then
its messages, then its disconnect.
-/

namespace ErgoProxy.Runtime

open FiniteMaps Routing Runs

/-- The call of the router in a step, if there is one. -/
def Label.call : Label → Option Entry
  | .task _ [.registerPeer peerId direction mode] => some ⟨.registerPeer peerId direction mode, []⟩
  | .handle event actions => some ⟨.handleEvent event, actions⟩
  | _ => none

/-- The calls of the router in a history, newest first. -/
def calls (history : List Label) : History := history.filterMap Label.call

/-- The peer that a call is about. -/
def callPeer : Call → PeerId
  | .registerPeer peerId _ _ => peerId
  | .handleEvent event => eventPeer event

/-- The calls about one peer, oldest first. -/
def callsAbout (peer : PeerId) (history : History) : List Call :=
  (history.reverse.map Entry.call).filter fun call => callPeer call = peer

variable {config : Config} {blake2b256 : Bytes → Vector UInt8 32} {sys after : System}
  {label : Label} {history : List Label} {peer : PeerId}

/-- A step of a task calls the router at its first point only. -/
theorem acted_call {task next : PeerTask} {effects : List TaskEffect}
    (acted : System.Acted sys task effects next after) (owner : PeerId) :
    (task.point = .registering ∧ effects = [.registerPeer task.peerId task.direction task.mode] ∧
        after.router = sys.router.registerPeer task.peerId task.direction task.mode) ∨
      task.point ≠ .registering ∧ Label.call (.task owner effects) = none ∧
        after.router = sys.router := by
  cases acted with
  | registered here => exact Or.inl ⟨here, rfl, rfl⟩
  | connected here | inserted here | spawned here | reported _ _ here | skipped _ here | left _ here
  | removed here | aborted here | disconnected here =>
    exact Or.inr ⟨by simp [here], rfl, rfl⟩

/-- Every step of the program is a call of the router or leaves it alone. -/
theorem step_called (taken : Step config blake2b256 sys label after) :
    Shown Routing.Step sys.router label.call after.router := by
  cases taken with
  | task performed peerId origin task next effects here stepped unblocked =>
    change Shown Routing.Step sys.router _ performed.router
    rcases acted_call (System.task_acted stepped unblocked) peerId with
      ⟨_, rfl, routed⟩ | ⟨_, silent, routed⟩
    · rw [routed]
      exact .registerPeer sys.router task.peerId task.direction task.mode
    · rw [silent]
      exact routed
  | handle event visit clock here => exact .handleEvent sys.router visit clock event
  | accept | dial | handshake | writer | tick | receive | lock | execute | deliver | release => rfl

/-- Every run of the program shows a run of the router. -/
theorem run_calls (run : SystemRun config blake2b256 history sys) :
    RouterRun (calls history) sys.router :=
  projected System.router Label.call (fun _ _ _ taken => step_called taken) run

/-- What a step adds to the calls about a peer. -/
theorem callsAbout_cons (peer : PeerId) (label : Label) (history : List Label) :
    callsAbout peer (calls (label :: history)) =
      callsAbout peer (calls history) ++ match label.call with
        | none => []
        | some entry => if callPeer entry.call = peer then [entry.call] else [] := by
  unfold calls callsAbout
  rw [List.filterMap_cons]
  cases label.call with
  | none => exact (List.append_nil _).symm
  | some entry =>
    by_cases own : callPeer entry.call = peer
    · simp [own]
    · simp [own]

/-- The calls about a peer that registers, in terms of its task: nothing before its task has
registered it, and then the registration and the events that were handled. -/
def Called (history : List Label) (sys : System) (peer : PeerId) : Prop :=
  callsAbout peer (calls history) = [] ∧
      (∀ origin task, sys.conns.lookup peer = some ⟨origin, .running task⟩ →
        task.point = .registering) ∨
    ∃ origin task, sys.conns.lookup peer = some ⟨origin, .running task⟩ ∧
      task.point ≠ .registering ∧ callsAbout peer (calls history) =
        .registerPeer peer task.direction task.mode ::
          (about peer (handled history)).map .handleEvent

/-- A step outside the peer's task adds the same events to the calls about the peer and to what
was handled about it, and only if its task has registered it. -/
theorem unacted_calls (run : SystemRun config blake2b256 history sys)
    (taken : Step config blake2b256 sys label after)
    (other : ∀ effects, label ≠ .task peer effects) :
    ∃ events : List ProtocolEvent,
      callsAbout peer (calls (label :: history)) =
        callsAbout peer (calls history) ++ events.map .handleEvent ∧
      about peer (handled (label :: history)) = about peer (handled history) ++ events ∧
      (events ≠ [] → ∃ origin task, sys.conns.lookup peer = some ⟨origin, .running task⟩ ∧
        task.point ≠ .registering) := by
  rw [callsAbout_cons]
  cases taken with
  | task performed peerId origin task next effects here stepped unblocked =>
    refine ⟨[], ?_, (List.append_nil _).symm, fun nonempty => (nonempty rfl).elim⟩
    rcases acted_call (System.task_acted stepped unblocked) peerId with
      ⟨_, rfl, _⟩ | ⟨_, silent, _⟩
    · have different : task.peerId ≠ peer := by
        rw [System.run_identified run _ _ _ here]
        rintro rfl
        exact other _ rfl
      simp [Label.call, callPeer, different]
    · rw [silent]
      rfl
  | handle event visit clock here =>
    have appended : about peer (handled (.handle event
        (sys.router.handleEvent visit clock event).1 :: history)) =
          about peer (handled history) ++ about peer [event] := by
      rw [handled, about, List.filter_append]
      rfl
    rw [appended]
    by_cases own : eventPeer event = peer
    · refine ⟨[event], by simp [Label.call, callPeer, own], by simp [about, own], fun _ => ?_⟩
      subst own
      have hand : inHand sys = [event] := by rw [inHand, here]
      obtain ⟨_, direction, mode, recorded⟩ := inHand_present run hand
      obtain ⟨origin, task, running, late, _⟩ :=
        ((run_registry run (eventPeer event)).recorded direction mode).mp recorded
      exact ⟨origin, task, running, late⟩
    · exact ⟨[], by simp [Label.call, callPeer, own], by simp [about, own],
        fun nonempty => (nonempty rfl).elim⟩
  | accept | dial | handshake | writer | tick | receive | lock | execute | deliver | release =>
    exact ⟨[], rfl, (List.append_nil _).symm, fun nonempty => (nonempty rfl).elim⟩

/-- A step outside the peer's task keeps the calls in line with it. -/
theorem called_unacted (run : SystemRun config blake2b256 history sys)
    (taken : Step config blake2b256 sys label after)
    (other : ∀ effects, label ≠ .task peer effects)
    (settled : ∀ origin task, task.point ≠ .registering →
      (after.conns.lookup peer = some ⟨origin, .running task⟩ ↔
        sys.conns.lookup peer = some ⟨origin, .running task⟩))
    (before : Called history sys peer) : Called (label :: history) after peer := by
  obtain ⟨events, called, handledNow, needed⟩ := unacted_calls run taken other
  rcases before with ⟨nothing, early⟩ | ⟨origin, task, here, late, whole⟩
  · left
    have none : events = [] := by
      by_contra nonempty
      obtain ⟨origin, task, here, late⟩ := needed nonempty
      exact late (early origin task here)
    refine ⟨by rw [called, nothing, none]; rfl, fun origin task here => ?_⟩
    by_contra late
    exact late (early origin task ((settled origin task late).mp here))
  · refine Or.inr ⟨origin, task, (settled origin task late).mpr here, late, ?_⟩
    rw [called, whole, handledNow, List.map_append]
    rfl

/-- A step of the peer's own task keeps the calls in line with it: the first one registers the
peer, of which nothing has been handled yet, and no other one calls the router. -/
theorem called_acted (run : SystemRun config blake2b256 history sys) {origin : Origin}
    {task next : PeerTask} {effects : List TaskEffect} {performed : System}
    (here : sys.conns.lookup peer = some ⟨origin, .running task⟩)
    (acted : System.Acted sys task effects next performed) (before : Called history sys peer) :
    Called (.task peer effects :: history)
      (performed.moveTask peer origin (.running next)) peer := by
  have owner := System.run_identified run _ _ _ here
  obtain ⟨-, direction, mode, -⟩ := System.acted_arguments acted
  have now : (performed.moveTask peer origin (.running next)).conns.lookup peer =
      some ⟨origin, .running next⟩ := (System.conns_moveTask _ _ _ _ _).trans (if_pos rfl)
  have late : next.point ≠ .registering := by
    rcases acted_registry acted with ⟨_, late, _⟩ | ⟨_, late, _⟩
    · exact late
    · exact late
  refine Or.inr ⟨origin, next, now, late, ?_⟩
  rw [callsAbout_cons, direction, mode]
  rcases acted_call acted peer with ⟨early, rfl, _⟩ | ⟨past, silent, _⟩
  · have unheard : about peer (handled history) = [] := by
      have unsent := registering_unsent run here early
      rw [about_fifo run, List.append_eq_nil_iff] at unsent
      exact unsent.1
    have nothing : callsAbout peer (calls history) = [] := by
      rcases before with ⟨nothing, _⟩ | ⟨_, _, found, past, _⟩
      · exact nothing
      · cases here.symm.trans found
        exact (past early).elim
    rw [nothing]
    change _ = Call.registerPeer peer _ _ :: (about peer (handled history)).map Call.handleEvent
    rw [unheard]
    simp [Label.call, callPeer, owner]
  · rcases before with ⟨_, early⟩ | ⟨_, _, found, _, whole⟩
    · exact (past (early origin task here)).elim
    · cases here.symm.trans found
      rw [silent, whole]
      exact List.append_nil _

/-- In every run the calls about a peer are in line with its task. -/
theorem run_called (run : SystemRun config blake2b256 history sys) (peer : PeerId) :
    Called history sys peer := by
  refine invariant (fun earlier reached => Called earlier reached peer) ?_ ?_ run
  · exact Or.inl ⟨rfl, by rintro _ _ ⟨⟩⟩
  · intro earlier before label after earlierRun called taken
    cases System.step_staged (System.run_identified earlierRun) taken peer with
    | kept other same =>
      exact called_unacted earlierRun taken other (fun _ _ _ => by rw [same]) called
    | spawned origin other fresh now =>
      exact called_unacted earlierRun taken other (fun _ _ _ => by simp [fresh, now]) called
    | handshaken origin stage other here now started =>
      refine called_unacted earlierRun taken other ?_ called
      intro _ task later
      rw [here, now]
      constructor
      · intro found
        cases found
        exact (later (started task rfl).2.1).elim
      · intro found
        cases found
    | acted origin task next effects performed here acted own now =>
      subst own now
      exact called_acted earlierRun here acted called

/-- Without a call about the peer there is no registration of it. -/
theorem uncalled_unregistered {calls : History} (nothing : callsAbout peer calls = []) :
    peer ∉ registeredPeers calls := by
  intro member
  obtain ⟨entry, called, registers⟩ := List.mem_filterMap.mp member
  have about : entry.call ∈ callsAbout peer calls := by
    refine List.mem_filter.mpr
      ⟨List.mem_map_of_mem (List.mem_reverse.mpr called), decide_eq_true ?_⟩
    split at registers
    · rename_i call
      rw [call]
      exact Option.some.inj registers
    · cases registers
  rw [nothing] at about
  cases about

/-- In every run no peer is registered twice. -/
theorem run_once (run : SystemRun config blake2b256 history sys) :
    RegisteredOnce (calls history) := by
  refine invariant (fun earlier _ => RegisteredOnce (calls earlier)) List.nodup_nil ?_ run
  intro earlier before label after earlierRun once taken
  cases taken with
  | task performed peerId origin task next effects here stepped unblocked =>
    rcases acted_call (System.task_acted stepped unblocked) peerId with
      ⟨early, rfl, _⟩ | ⟨_, silent, _⟩
    · obtain rfl := System.run_identified earlierRun _ _ _ here
      rcases run_called earlierRun task.peerId with ⟨nothing, _⟩ | ⟨_, _, found, late, _⟩
      · exact List.nodup_cons.mpr ⟨uncalled_unregistered nothing, once⟩
      · cases here.symm.trans found
        exact (late early).elim
    · rw [calls, List.filterMap_cons, silent]
      exact once
  | handle | accept | dial | handshake | writer | tick | receive | lock | execute | deliver
  | release => exact once

/-- Every run of the program drives the router through a run of its own. In it no peer is
registered twice, and the calls about a peer are the beginning of one registration, followed by
the connection, messages and the disconnect of a task that follows a valid handshake, with the
direction and the mode of this task. -/
theorem router_driven (run : SystemRun config blake2b256 history sys) :
    RouterRun (calls history) sys.router ∧ RegisteredOnce (calls history) ∧
      ∀ peer, callsAbout peer (calls history) ≠ [] → ∃ origin task messages,
        sys.conns.lookup peer = some ⟨origin, .running task⟩ ∧ Admitted config origin task ∧
        callsAbout peer (calls history) <+: .registerPeer peer task.direction task.mode ::
          (lifecycle peer task.spec task.direction messages).map .handleEvent := by
  refine ⟨run_calls run, run_once run, fun peer nonempty => ?_⟩
  rcases run_called run peer with ⟨nothing, _⟩ | ⟨origin, task, here, _, whole⟩
  · exact (nonempty nothing).elim
  · have emitted := run_sent run peer
    simp only [SentSoFar, here] at emitted
    obtain ⟨messages, beginning⟩ := emitted_lifecycle emitted
    rw [about_fifo run, System.run_identified run _ _ _ here] at beginning
    refine ⟨origin, task, messages, here, run_admitted run here, ?_⟩
    rw [whole]
    exact (List.prefix_cons_inj _).mpr (((List.prefix_append _ _).trans beginning).map _)

/-- The calls about the first peer of a proxy, which asks for peers. -/
theorem router_driven_request :
    ∃ history sys, SystemRun soloConfig (fun _ => Frame.emptyDigest) history sys ∧
      callsAbout ⟨1⟩ (calls history) = [.registerPeer ⟨1⟩ .inbound .full,
        .handleEvent (.peerConnected ⟨1⟩ shortestSpec .inbound),
        .handleEvent (.message ⟨1⟩ .getPeers)] ∧
      RouterRun (calls history) sys.router := by
  obtain ⟨_, run, served⟩ := first_served (fun _ => Frame.emptyDigest) solo_listener Nat.one_pos
    [ProtocolMessage.getPeers.toFrame]
  obtain ⟨sys, requested, _⟩ := served_requests served
  have reached := continued run requested
  exact ⟨_, sys, reached, rfl, (router_driven reached).1⟩

end ErgoProxy.Runtime
