import ErgoProxy.Routing.History
import ErgoProxy.Runtime.Service
import ErgoProxy.Runtime.Session

/-!
# The order in which events are handled

Events pass through one first-in first-out channel: what was sent is what was handled,
followed by the event in hand and the events in the channel. What a peer's task has sent
is determined by its program point: the connection, then messages, then the disconnect.
Together they say that a peer's events are handled in this order.

Registration does not pass through the channel. A task registers its peer before it sends
anything, and only handling the disconnect, the last event, removes it again. So the peer
of a message is registered whenever the message is handled.
-/

namespace ErgoProxy.Runtime

open FiniteMaps Routing Runs

/-- The peer that an event is about. -/
def eventPeer : ProtocolEvent → PeerId
  | .peerConnected peerId _ _ => peerId
  | .peerDisconnected peerId _ => peerId
  | .message peerId _ => peerId

/-- The events sent by the tasks, oldest first. -/
def sent : List Label → List ProtocolEvent
  | [] => []
  | .task _ effects :: earlier => sent earlier ++ Session.events effects
  | _ :: earlier => sent earlier

/-- The events handled by the router, oldest first. -/
def handled : List Label → List ProtocolEvent
  | [] => []
  | .handle event _ :: earlier => handled earlier ++ [event]
  | _ :: earlier => handled earlier

/-- The event that has been received and not handled yet. -/
def inHand (sys : System) : List ProtocolEvent :=
  match sys.loops .events with
  | .handling event => [event]
  | _ => []

/-- The events about one peer. -/
def about (peer : PeerId) (events : List ProtocolEvent) : List ProtocolEvent :=
  events.filter fun event => eventPeer event = peer

variable {config : Config} {blake2b256 : Bytes → Vector UInt8 32} {sys after : System}
  {label : Label} {history : List Label} {peer : PeerId}

/-- A step of a task appends its events to the channel. -/
theorem acted_channel {task next : PeerTask} {effects : List TaskEffect}
    (acted : System.Acted sys task effects next after) :
    after.channel = sys.channel ++ Session.events effects := by
  cases acted with
  | connected | reported | disconnected => rfl
  | _ => exact (List.append_nil _).symm

/-- A task sends events about its own peer. -/
theorem acted_about {task next : PeerTask} {effects : List TaskEffect}
    (acted : System.Acted sys task effects next after) :
    ∀ event ∈ Session.events effects, eventPeer event = task.peerId := by
  intro event member
  cases acted with
  | connected | reported | disconnected =>
    obtain rfl := List.mem_singleton.mp member
    rfl
  | _ => cases member

/-- Moving a loop that neither had an event in hand nor takes one. -/
theorem inHand_moved {loop : Loop} {point : LoopPoint}
    (before : ∀ event, sys.loops loop ≠ .handling event)
    (now : ∀ event, point ≠ .handling event) : inHand (sys.moveLoop loop point) = inHand sys := by
  unfold inHand
  rw [System.loops_moveLoop]
  split
  · rename_i event found
    split at found
    · exact (now event found).elim
    · rw [found]
  · rename_i other
    by_cases same : Loop.events = loop
    · subst same
      split
      · rename_i event found
        exact (before event found).elim
      · rfl
    · rw [if_neg same] at other
      split
      · rename_i event found
        exact (other event found).elim
      · rfl

/-- One step keeps the channel first-in first-out. -/
theorem step_fifo (taken : Step config blake2b256 sys label after)
    (fifo : sent history = handled history ++ inHand sys ++ sys.channel) :
    sent (label :: history) = handled (label :: history) ++ inHand after ++ after.channel := by
  cases taken with
  | task performed peerId origin task next effects here stepped unblocked =>
    have acted := System.task_acted stepped unblocked
    have hand : inHand (performed.moveTask peerId origin (.running next)) = inHand sys := by
      change (match performed.loops .events with | .handling event => [event] | _ => []) = _
      rw [System.acted_loops acted]
      rfl
    rw [hand]
    change sent history ++ Session.events effects = handled history ++ inHand sys ++ performed.channel
    rw [fifo, acted_channel acted, ← List.append_assoc]
  | receive event later here arrived =>
    have before : inHand sys = [] := by rw [inHand, here]
    have now : inHand { sys.moveLoop .events (.handling event) with channel := later } = [event] := by
      simp [inHand, System.moveLoop]
    rw [now]
    change sent history = handled history ++ [event] ++ later
    rw [fifo, before, arrived, List.append_nil, List.append_assoc]
    rfl
  | handle event visit clock here =>
    have before : inHand sys = [event] := by rw [inHand, here]
    have now : inHand { sys.moveLoop .events (.locking (sys.router.handleEvent visit clock event).1)
        with router := (sys.router.handleEvent visit clock event).2 } = [] := by
      simp [inHand, System.moveLoop]
    rw [now, List.append_nil]
    change sent history = handled history ++ [event] ++ sys.channel
    rw [fifo, before]
  | tick _ here | lock _ _ here | release _ here =>
    rw [inHand_moved (by rw [here]; rintro _ ⟨⟩) (by rintro _ ⟨⟩)]
    exact fifo
  | execute loop action todo here =>
    rw [inHand_moved (by rw [here]; rintro _ ⟨⟩) (by intro event; split <;> rintro ⟨⟩)]
    exact fifo
  | deliver loop target frame todo queue here =>
    have kept : inHand (sys.moveLoop loop (.sending todo)) = inHand sys :=
      inHand_moved (by rw [here]; rintro _ ⟨⟩) (by rintro _ ⟨⟩)
    change sent history = handled history ++ inHand (sys.moveLoop loop (.sending todo)) ++ sys.channel
    rw [kept]
    exact fifo
  | accept | dial | handshake | writer => exact fifo

/-- In every run the channel is first-in first-out. -/
theorem run_fifo (run : SystemRun config blake2b256 history sys) :
    sent history = handled history ++ inHand sys ++ sys.channel := by
  refine invariant (fun earlier reached =>
    sent earlier = handled earlier ++ inHand reached ++ reached.channel) rfl ?_ run
  intro earlier before label after _ fifo taken
  exact step_fifo taken fifo

/-- What a task has sent when it stands at its program point. -/
def Emitted (task : PeerTask) (events : List ProtocolEvent) : Prop :=
  match task.point with
  | .registering | .connecting => events = []
  | .inserting | .spawning =>
    events = [.peerConnected task.peerId task.spec task.direction]
  | .reading | .removing | .aborting | .disconnecting =>
    ∃ messages : List ProtocolMessage,
      events = .peerConnected task.peerId task.spec task.direction ::
        messages.map (.message task.peerId)
  | .finished =>
    ∃ messages : List ProtocolMessage,
      events = .peerConnected task.peerId task.spec task.direction ::
        messages.map (.message task.peerId) ++
          [.peerDisconnected task.peerId "connection closed"]

/-- A step of a task sends what the next point says. -/
theorem acted_emitted {task next : PeerTask} {effects : List TaskEffect}
    (acted : System.Acted sys task effects next after) {events : List ProtocolEvent}
    (emitted : Emitted task events) : Emitted next (events ++ Session.events effects) := by
  unfold Emitted at emitted
  cases acted with
  | registered here | connected here | inserted here =>
    rw [here] at emitted
    rw [emitted]
    rfl
  | spawned here =>
    rw [here] at emitted
    exact ⟨[], by rw [emitted]; rfl⟩
  | reported reader message here =>
    rw [here] at emitted
    obtain ⟨messages, rfl⟩ := emitted
    unfold Emitted
    simp only [here]
    exact ⟨messages ++ [message], by simp [Session.events]⟩
  | skipped reader here =>
    rw [here] at emitted
    obtain ⟨messages, rfl⟩ := emitted
    unfold Emitted
    simp only [here]
    exact ⟨messages, by simp [Session.events]⟩
  | left _ here | removed here | aborted here =>
    rw [here] at emitted
    obtain ⟨messages, rfl⟩ := emitted
    exact ⟨messages, by simp [Session.events]⟩
  | disconnected here =>
    rw [here] at emitted
    obtain ⟨messages, rfl⟩ := emitted
    exact ⟨messages, rfl⟩

/-- What has been sent about a peer: nothing before its task runs, then what the task's
program point says. -/
def SentSoFar (history : List Label) (sys : System) (peer : PeerId) : Prop :=
  match sys.conns.lookup peer with
  | some ⟨_, .running task⟩ => Emitted task (about peer (sent history))
  | _ => about peer (sent history) = []

/-- Labels of other tasks send nothing about the peer. -/
theorem sent_other (identified : sys.Identified) (taken : Step config blake2b256 sys label after)
    (other : ∀ effects, label ≠ .task peer effects) :
    about peer (sent (label :: history)) = about peer (sent history) := by
  cases taken with
  | task performed peerId origin task next effects here stepped unblocked =>
    have different : peerId ≠ peer := by
      rintro rfl
      exact other effects rfl
    have nothing : about peer (Session.events effects) = [] := by
      apply List.filter_eq_nil_iff.mpr
      intro event member
      have owner := acted_about (System.task_acted stepped unblocked) event member
      rw [identified _ _ _ here] at owner
      simp [owner, different]
    rw [sent, about, List.filter_append]
    change about peer (sent history) ++ about peer (Session.events effects) = _
    rw [nothing, List.append_nil]
  | _ => rfl

/-- One step keeps what has been sent about a peer in line with its task. -/
theorem step_sent (identified : sys.Identified) (taken : Step config blake2b256 sys label after)
    (before : SentSoFar history sys peer) : SentSoFar (label :: history) after peer := by
  unfold SentSoFar at before ⊢
  cases System.step_staged identified taken peer with
  | kept other same =>
    rw [same, sent_other identified taken other]
    exact before
  | spawned origin other fresh now =>
    rw [fresh] at before
    rw [now, sent_other identified taken other]
    exact before
  | handshaken origin stage other here now started =>
    rw [here] at before
    rw [now, sent_other identified taken other]
    cases stage with
    | running task =>
      simp only [Emitted, (started task rfl).2.1]
      exact before
    | handshaking => exact before
    | closed => exact before
  | acted origin task next effects performed here acted own now =>
    subst own now
    rw [here] at before
    simp only [System.conns_moveTask, if_true]
    have own : about peer (Session.events effects) = Session.events effects := by
      apply List.filter_eq_self.mpr
      intro event member
      rw [acted_about acted event member, identified _ _ _ here]
      exact decide_eq_true rfl
    have appended : about peer (sent (.task peer effects :: history)) =
        about peer (sent history) ++ Session.events effects := by
      rw [sent, about, List.filter_append]
      exact congrArg _ own
    rw [appended]
    exact acted_emitted acted before

/-- In every run the events sent about a peer are in line with its task. -/
theorem run_sent (run : SystemRun config blake2b256 history sys) (peer : PeerId) :
    SentSoFar history sys peer := by
  refine invariant (fun earlier reached => SentSoFar earlier reached peer)
    (show SentSoFar [] System.new peer from rfl) ?_ run
  intro earlier before label after earlierRun sentBefore taken
  exact step_sent (System.run_identified earlierRun) taken sentBefore

/-- Before its task has registered the peer nothing has been sent about it. -/
theorem registering_unsent (run : SystemRun config blake2b256 history sys) {origin : Origin}
    {task : PeerTask} (here : sys.conns.lookup peer = some ⟨origin, .running task⟩)
    (early : task.point = .registering) : about peer (sent history) = [] := by
  have emitted := run_sent run peer
  simpa only [SentSoFar, here, Emitted, early] using emitted

/-- The peer's disconnect has been handled. -/
def Departed (history : List Label) (peer : PeerId) : Prop :=
  ∃ reason, .peerDisconnected peer reason ∈ handled history

/-- The task of the peer has registered it. -/
def RegisteredBy (history : List Label) (peer : PeerId) (direction : Direction)
    (mode : ProxyMode) : Prop :=
  .task peer [.registerPeer peer direction mode] ∈ history

/-- A step of a task registers its peer at its first point, and at no other point touches
the router. -/
theorem acted_registry {task next : PeerTask} {effects : List TaskEffect}
    (acted : System.Acted sys task effects next after) :
    (task.point = .registering ∧ next.point ≠ .registering ∧
        effects = [.registerPeer task.peerId task.direction task.mode] ∧
        after.router = sys.router.registerPeer task.peerId task.direction task.mode) ∨
      task.point ≠ .registering ∧ next.point ≠ .registering ∧
        (∀ peerId direction mode, effects ≠ [.registerPeer peerId direction mode]) ∧
        after.router = sys.router := by
  cases acted with
  | registered here => exact Or.inl ⟨here, PeerPoint.noConfusion, rfl, rfl⟩
  | connected here | inserted here | spawned here | reported _ _ here | skipped _ here | left _ here
  | removed here | aborted here | disconnected here =>
    exact Or.inr ⟨by simp [here], by simp [here], by rintro _ _ _ ⟨⟩, rfl⟩

/-- A step that is not one of the peer's own task leaves the peer's registration alone, unless
it handles the peer's disconnect. -/
theorem registry_other (history : List Label) (identified : sys.Identified)
    (taken : Step config blake2b256 sys label after)
    (other : ∀ effects, label ≠ .task peer effects) :
    (Departed (label :: history) peer ↔ Departed history peer) ∧
        after.router.peers.lookup peer = sys.router.peers.lookup peer ∨
      Departed (label :: history) peer ∧ after.router.peers.lookup peer = none := by
  cases taken with
  | task performed peerId origin task next effects here stepped unblocked =>
    refine Or.inl ⟨Iff.rfl, ?_⟩
    change performed.router.peers.lookup peer = _
    rcases acted_registry (System.task_acted stepped unblocked) with
      ⟨-, -, -, routed⟩ | ⟨-, -, -, routed⟩
    · have different : peer ≠ task.peerId := by
        rw [identified _ _ _ here]
        rintro rfl
        exact other effects rfl
      rw [routed]
      exact Finmap.lookup_insert_of_ne _ different
    · rw [routed]
  | handle event visit clock here =>
    cases event with
    | peerConnected peerId spec direction =>
      exact Or.inl ⟨by simp [Departed, handled], rfl⟩
    | peerDisconnected peerId reason =>
      by_cases own : peer = peerId
      · subst own
        exact Or.inr ⟨⟨reason, by simp [handled]⟩, Finmap.lookup_erase peer sys.router.peers⟩
      · exact Or.inl ⟨by simp [Departed, handled, own], Finmap.lookup_erase_ne own⟩
    | message source message =>
      refine Or.inl ⟨by simp [Departed, handled], ?_⟩
      have routed := Router.routeMessage_routed sys.router visit clock source message
      exact congrArg (fun peers => peers.lookup peer) (Router.routed_registry routed)
  | _ => exact Or.inl ⟨Iff.rfl, rfl⟩

/-- What the registry says about a peer, in terms of its task and of whether its disconnect
has been handled. -/
structure Registry (history : List Label) (sys : System) (peer : PeerId) : Prop where
  unregistered : (∀ origin task, sys.conns.lookup peer = some ⟨origin, .running task⟩ →
    task.point = .registering) → sys.router.peers.lookup peer = none
  registered : ∀ origin task, sys.conns.lookup peer = some ⟨origin, .running task⟩ →
    task.point ≠ .registering → ¬ Departed history peer →
    sys.router.peers.lookup peer = some ⟨task.direction, task.mode⟩
  departed : Departed history peer → sys.router.peers.lookup peer = none
  recorded : ∀ direction mode, RegisteredBy history peer direction mode ↔
    ∃ origin task, sys.conns.lookup peer = some ⟨origin, .running task⟩ ∧
      task.point ≠ .registering ∧ task.direction = direction ∧ task.mode = mode

/-- Before its task has registered the peer, nothing has been sent about it, so its
disconnect has not been handled. -/
theorem unsent_undeparted (run : SystemRun config blake2b256 history sys)
    (nothing : about peer (sent history) = []) : ¬ Departed history peer := by
  rintro ⟨reason, member⟩
  rw [run_fifo run, List.append_assoc, about, List.filter_append, List.append_eq_nil_iff] at nothing
  exact List.filter_eq_nil_iff.mp nothing.1 _ member (by simp [eventPeer])

/-- A step outside the peer's own task keeps the registry in line with the tasks, since it
does not move a task beyond its registration. -/
theorem registry_unacted (identified : sys.Identified)
    (taken : Step config blake2b256 sys label after)
    (other : ∀ effects, label ≠ .task peer effects)
    (settled : ∀ origin task, task.point ≠ .registering →
      (after.conns.lookup peer = some ⟨origin, .running task⟩ ↔
        sys.conns.lookup peer = some ⟨origin, .running task⟩))
    (before : Registry history sys peer) : Registry (label :: history) after peer := by
  have lookup := registry_other history identified taken other
  refine ⟨?_, ?_, ?_, ?_⟩
  · intro early
    rcases lookup with ⟨-, same⟩ | ⟨-, gone⟩
    · rw [same]
      apply before.unregistered
      intro origin task found
      by_contra later
      exact later (early origin task ((settled origin task later).mpr found))
    · exact gone
  · intro origin task found later present
    rcases lookup with ⟨departed, same⟩ | ⟨departed, -⟩
    · rw [same]
      exact before.registered origin task ((settled origin task later).mp found) later
        (mt departed.mpr present)
    · exact (present departed).elim
  · intro departed
    rcases lookup with ⟨earlier, same⟩ | ⟨-, gone⟩
    · rw [same]
      exact before.departed (earlier.mp departed)
    · exact gone
  · intro direction mode
    have unrecorded : RegisteredBy (label :: history) peer direction mode ↔
        RegisteredBy history peer direction mode :=
      ⟨fun member => (List.mem_cons.mp member).resolve_left fun same => other _ same.symm,
        List.mem_cons_of_mem _⟩
    rw [unrecorded, before.recorded]
    constructor
    · rintro ⟨origin, task, found, later, same⟩
      exact ⟨origin, task, (settled origin task later).mpr found, later, same⟩
    · rintro ⟨origin, task, found, later, same⟩
      exact ⟨origin, task, (settled origin task later).mp found, later, same⟩

section Running

variable {origin : Origin} {task : PeerTask}
  (here : sys.conns.lookup peer = some ⟨origin, .running task⟩)
include here

/-- Once a task runs, it is the one that has registered the peer, if anybody has. -/
theorem recorded_running (registry : Registry history sys peer) (direction : Direction)
    (mode : ProxyMode) : RegisteredBy history peer direction mode ↔
      task.point ≠ .registering ∧ task.direction = direction ∧ task.mode = mode := by
  rw [registry.recorded]
  constructor
  · rintro ⟨_, _, lookup, facts⟩
    cases here.symm.trans lookup
    exact facts
  · exact fun facts => ⟨origin, task, here, facts⟩

/-- What the registry has to say about a peer whose task has registered it. -/
theorem registry_running (late : task.point ≠ .registering)
    (registered : ¬ Departed history peer →
      sys.router.peers.lookup peer = some ⟨task.direction, task.mode⟩)
    (departed : Departed history peer → sys.router.peers.lookup peer = none)
    (recorded : ∀ direction mode, RegisteredBy history peer direction mode ↔
      task.direction = direction ∧ task.mode = mode) : Registry history sys peer where
  unregistered early := (late (early origin task here)).elim
  registered := by
    intro _ _ lookup _ present
    cases here.symm.trans lookup
    exact registered present
  departed := departed
  recorded := by
    intro direction mode
    rw [recorded]
    constructor
    · exact fun same => ⟨origin, task, here, late, same⟩
    · rintro ⟨_, _, lookup, _, same⟩
      cases here.symm.trans lookup
      exact same

end Running

/-- A step of the peer's own task keeps the registry in line with it: the first step enters
the peer, which nobody has heard of yet, and no other step touches the registry. -/
theorem registry_acted (run : SystemRun config blake2b256 history sys) {origin : Origin}
    {task next : PeerTask} {effects : List TaskEffect} {performed : System}
    (here : sys.conns.lookup peer = some ⟨origin, .running task⟩)
    (acted : System.Acted sys task effects next performed) (before : Registry history sys peer) :
    Registry (.task peer effects :: history)
      (performed.moveTask peer origin (.running next)) peer := by
  obtain ⟨-, direction, mode, -⟩ := System.acted_arguments acted
  have owner := System.run_identified run _ _ _ here
  have now : (performed.moveTask peer origin (.running next)).conns.lookup peer =
      some ⟨origin, .running next⟩ := by
    rw [System.conns_moveTask, if_pos rfl]
  rcases acted_registry acted with ⟨early, late, rfl, routed⟩ | ⟨past, late, silent, routed⟩
  · have unsent := registering_unsent run here early
    refine registry_running now late ?_ ?_ ?_
    · intro _
      change performed.router.peers.lookup peer = _
      rw [routed, Router.registerPeer, lookup_insert_eq, if_pos owner.symm, direction, mode]
    · intro departed
      exact (unsent_undeparted run unsent departed).elim
    · intro wanted wantedMode
      have fresh : ¬ RegisteredBy history peer wanted wantedMode := fun earlier =>
        ((recorded_running here before wanted wantedMode).mp earlier).1 early
      rw [direction, mode]
      simp only [RegisteredBy, List.mem_cons] at fresh ⊢
      constructor
      · rintro (same | earlier)
        · cases same
          exact ⟨rfl, rfl⟩
        · exact (fresh earlier).elim
      · rintro ⟨rfl, rfl⟩
        rw [owner]
        exact Or.inl rfl
  · refine registry_running now late ?_ ?_ ?_
    · intro present
      change performed.router.peers.lookup peer = _
      rw [routed, direction, mode]
      exact before.registered origin task here past present
    · intro departed
      change performed.router.peers.lookup peer = none
      rw [routed]
      exact before.departed departed
    · intro wanted wantedMode
      have earlier : RegisteredBy (.task peer effects :: history) peer wanted wantedMode ↔
          RegisteredBy history peer wanted wantedMode := by
        refine ⟨fun member => (List.mem_cons.mp member).resolve_left ?_, List.mem_cons_of_mem _⟩
        intro same
        cases same
        exact silent _ _ _ rfl
      rw [earlier, recorded_running here before, direction, mode]
      exact and_iff_right past

/-- One step keeps the registry in line with the tasks. -/
theorem step_registry (run : SystemRun config blake2b256 history sys)
    (taken : Step config blake2b256 sys label after) (before : Registry history sys peer) :
    Registry (label :: history) after peer := by
  have identified := System.run_identified run
  cases System.step_staged identified taken peer with
  | kept other same =>
    exact registry_unacted identified taken other (fun _ _ _ => by rw [same]) before
  | spawned origin other fresh now =>
    exact registry_unacted identified taken other (fun _ _ _ => by simp [fresh, now]) before
  | handshaken origin stage other here now started =>
    refine registry_unacted identified taken other ?_ before
    intro _ task later
    rw [here, now]
    constructor
    · intro found
      cases found
      exact (later (started task rfl).2.1).elim
    · intro found
      cases found
  | acted origin task next effects performed here acted own now =>
    subst own now
    exact registry_acted run here acted before

/-- In every run the registry is in line with the tasks. -/
theorem run_registry (run : SystemRun config blake2b256 history sys) (peer : PeerId) :
    Registry history sys peer := by
  refine invariant (fun earlier reached => Registry earlier reached peer) ?_ ?_ run
  · refine ⟨fun _ => rfl, by rintro _ _ ⟨⟩, fun _ => rfl, fun direction mode => ?_⟩
    constructor
    · rintro ⟨⟩
    · rintro ⟨_, _, ⟨⟩, _⟩
  · intro earlier before label after earlierRun registry taken
    exact step_registry earlierRun taken registry

/-- A peer's events from its connection to its disconnect. -/
def lifecycle (peer : PeerId) (spec : Handshake.PeerSpec) (direction : Direction)
    (messages : List ProtocolMessage) : List ProtocolEvent :=
  .peerConnected peer spec direction :: messages.map (.message peer) ++
    [.peerDisconnected peer "connection closed"]

/-- What a task has sent is the beginning of a lifecycle of its peer. -/
theorem emitted_lifecycle {task : PeerTask} {events : List ProtocolEvent}
    (emitted : Emitted task events) :
    ∃ messages, events <+: lifecycle task.peerId task.spec task.direction messages := by
  unfold Emitted at emitted
  cases point : task.point with
  | registering | connecting =>
    rw [point] at emitted
    exact ⟨[], emitted ▸ List.nil_prefix⟩
  | inserting | spawning =>
    rw [point] at emitted
    exact ⟨[], emitted ▸ List.prefix_append [_] _⟩
  | reading | removing | aborting | disconnecting =>
    rw [point] at emitted
    obtain ⟨messages, whole⟩ := emitted
    exact ⟨messages, whole ▸ List.prefix_append _ _⟩
  | finished =>
    rw [point] at emitted
    obtain ⟨messages, whole⟩ := emitted
    exact ⟨messages, whole ▸ List.prefix_rfl⟩

/-- What has been sent about a peer is the beginning of a lifecycle. -/
theorem sent_lifecycle (run : SystemRun config blake2b256 history sys) (peer : PeerId) :
    ∃ spec direction messages,
      about peer (sent history) <+: lifecycle peer spec direction messages := by
  have emitted := run_sent run peer
  unfold SentSoFar at emitted
  split at emitted
  · rename_i origin task here
    obtain rfl := System.run_identified run _ _ _ here
    exact ⟨task.spec, task.direction, emitted_lifecycle emitted⟩
  · exact ⟨⟨"", ⟨0, 0, 0⟩, "", none, []⟩, .inbound, [], emitted ▸ List.nil_prefix⟩

/-- An initial part that contains the last element, which occurs nowhere else, is everything. -/
theorem prefix_closed {α : Type} {part front : List α} {last : α}
    (initial : part <+: front ++ [last]) (absent : last ∉ front) (here : last ∈ part) :
    part = front ++ [last] := by
  obtain ⟨rest, whole⟩ := initial
  rcases List.eq_nil_or_concat rest with rfl | ⟨others, final, rfl⟩
  · rw [← whole, List.append_nil]
  · rw [List.concat_eq_append, ← List.append_assoc] at whole
    have same := (List.append_inj' whole rfl).1
    exact (absent (same ▸ List.mem_append_left others here)).elim

/-- What was handled about a peer, what is in hand and what is in the channel make up what
was sent about it. -/
theorem about_fifo (run : SystemRun config blake2b256 history sys) (peer : PeerId) :
    about peer (sent history) =
      about peer (handled history) ++ (about peer (inHand sys) ++ about peer sys.channel) := by
  rw [run_fifo run]
  simp only [about, List.filter_append, List.append_assoc]

/-- After a peer's disconnect nothing about it is in hand or in the channel. -/
theorem departed_silent (run : SystemRun config blake2b256 history sys)
    (departed : Departed history peer) : about peer (inHand sys) = [] ∧
      about peer sys.channel = [] := by
  obtain ⟨reason, member⟩ := departed
  obtain ⟨spec, direction, messages, beginning⟩ := sent_lifecycle run peer
  rw [about_fifo run] at beginning
  have mentioned : .peerDisconnected peer reason ∈ about peer (handled history) :=
    List.mem_filter.mpr ⟨member, by simp [eventPeer]⟩
  have handledPart := (List.prefix_append _ _).trans beginning
  obtain rfl : reason = "connection closed" := by
    have inLifecycle := handledPart.subset mentioned
    simpa [lifecycle] using inLifecycle
  have whole := prefix_closed handledPart (by simp) mentioned
  have nothing : about peer (inHand sys) ++ about peer sys.channel = [] := by
    have bound := beginning.length_le
    rw [List.length_append, whole] at bound
    exact List.eq_nil_of_length_eq_zero (by simp only [lifecycle] at bound; omega)
  exact List.append_eq_nil_iff.mp nothing

/-- A step of the router handles the event in hand. -/
theorem handle_inHand {event : ProtocolEvent} {actions : List Action}
    (taken : Step config blake2b256 sys (.handle event actions) after) : inHand sys = [event] := by
  cases taken with
  | handle _ _ _ here => rw [inHand, here]

/-- A peer whose event is in hand has been registered by its task, and its disconnect has not
been handled. -/
theorem inHand_present (run : SystemRun config blake2b256 history sys) {event : ProtocolEvent}
    (hand : inHand sys = [event]) : ¬ Departed history (eventPeer event) ∧
      ∃ direction mode, RegisteredBy history (eventPeer event) direction mode := by
  have mentioned : about (eventPeer event) (inHand sys) = [event] := by
    rw [hand, about, List.filter_singleton, decide_eq_true rfl, cond_true]
  constructor
  · intro departed
    cases mentioned.symm.trans (departed_silent run departed).1
  · -- Something has been sent about the peer, so its task is beyond the registration.
    have emitted := run_sent run (eventPeer event)
    have nonempty : about (eventPeer event) (sent history) ≠ [] := by
      rw [about_fifo run, mentioned]
      simp
    unfold SentSoFar at emitted
    split at emitted
    · rename_i origin task here
      refine ⟨task.direction, task.mode,
        (recorded_running here (run_registry run _) _ _).mpr ⟨fun early => nonempty ?_, rfl, rfl⟩⟩
      simpa only [Emitted, early] using emitted
    · exact (nonempty emitted).elim

/-- In every run of the program, for every peer: its events are handled in the order of a
lifecycle; when a message of the peer is handled, the peer is registered with the direction
and the mode with which its task registered it; and once its disconnect has been handled,
the peer is not registered and no event about it is handled any more. -/
theorem events_in_order (run : SystemRun config blake2b256 history sys) (peer : PeerId) :
    (∃ spec direction messages,
      about peer (handled history) <+: lifecycle peer spec direction messages) ∧
      (∀ message actions after,
        Step config blake2b256 sys (.handle (.message peer message) actions) after →
        (∃ direction mode, RegisteredBy history peer direction mode) ∧
          ∀ direction mode, RegisteredBy history peer direction mode →
            sys.router.peers.lookup peer = some ⟨direction, mode⟩) ∧
      (Departed history peer → peer ∉ sys.router.peers ∧
        ∀ event actions after, Step config blake2b256 sys (.handle event actions) after →
          eventPeer event ≠ peer) := by
  have registry := run_registry run peer
  refine ⟨?_, ?_, ?_⟩
  · obtain ⟨spec, direction, messages, beginning⟩ := sent_lifecycle run peer
    rw [about_fifo run] at beginning
    exact ⟨spec, direction, messages, (List.prefix_append _ _).trans beginning⟩
  · intro message actions after taken
    obtain ⟨present, recorded⟩ := inHand_present run (handle_inHand taken)
    refine ⟨recorded, fun direction mode recorded => ?_⟩
    obtain ⟨origin, task, here, later, rfl, rfl⟩ := (registry.recorded direction mode).mp recorded
    exact registry.registered origin task here later present
  · intro departed
    refine ⟨Finmap.lookup_eq_none.mp (registry.departed departed), ?_⟩
    rintro event actions after taken rfl
    exact (inHand_present run (handle_inHand taken)).1 departed

/-- The first peer of a proxy asks for peers: it is registered when that is handled. -/
theorem events_in_order_request :
    ∃ history sys actions after,
      SystemRun soloConfig (fun _ => Frame.emptyDigest) history sys ∧
      Step soloConfig (fun _ => Frame.emptyDigest) sys (.handle (.message ⟨1⟩ .getPeers) actions)
        after ∧
      ∃ direction mode, RegisteredBy history ⟨1⟩ direction mode ∧
        sys.router.peers.lookup ⟨1⟩ = some ⟨direction, mode⟩ := by
  obtain ⟨_, run, served⟩ := first_served (fun _ => Frame.emptyDigest) solo_listener Nat.one_pos
    [ProtocolMessage.getPeers.toFrame]
  obtain ⟨_, read, served⟩ := served_reads served (Nat.zero_le _) rfl (by decide)
  obtain ⟨sys, received, served⟩ := served_receives served
  obtain ⟨after, handled, _⟩ := served_handles_request served
  have reached := Run.extend (Run.extend run read) received
  obtain ⟨⟨direction, mode, recorded⟩, registered⟩ :=
    (events_in_order reached ⟨1⟩).2.1 _ _ _ handled
  exact ⟨_, sys, _, after, reached, handled, direction, mode, recorded,
    registered direction mode recorded⟩

end ErgoProxy.Runtime
