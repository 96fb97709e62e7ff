import ErgoProxy.Routing.SyncRoutes

/-!
# Provenance and affinity of synchronization messages

Provenance holds in every run that registers each peer at most once. An outbound peer
is chosen for an inbound peer only if the peer it served last has been disconnected,
answers go to the peer that was served last, and no light-mode peer sends or, on the
inbound side, receives a synchronization message. The mode of the chosen outbound peer
is not looked at.

Affinity does not hold: a further message of a served peer never goes to the peer that
serves it. It holds in the runs in which no such message arrives and in which outbound
peers that serve somebody are not in light mode.
-/

namespace ErgoProxy.Routing

open FiniteMaps Runs

/-- A peer that is registered now, was registered before a disconnection and has been
registered at most once cannot have been disconnected in between. -/
theorem registered_connected {since earlier : History} {peer : PeerId} {known : PeerEntry}
    (once : RegisteredOnce (since ++ earlier)) (before : peer ∈ registeredPeers earlier)
    (now : registration (since ++ earlier) peer = some known) :
    ∀ newer ∈ since, ¬ newer.disconnects peer := by
  intro newer member gone
  obtain ⟨later, between, rfl⟩ := List.append_of_mem member
  have again : ∃ newest ∈ later, newest.registers peer := by
    by_contra never
    push Not at never
    rw [List.append_assoc, List.cons_append, disconnected_unregistered later gone never] at now
    cases now
  obtain ⟨newest, position, direction, mode, called⟩ := again
  have recorded : RegisteredAs (later ++ newer :: between) peer ⟨direction, mode⟩ :=
    ⟨newest, List.mem_append_left _ position, called⟩
  rw [RegisteredOnce, registeredPeers, List.filterMap_append] at once
  exact (List.nodup_append.mp once).2.2 peer (registeredAs_listed recorded) peer before rfl

/-- When an inbound peer's message was forwarded, that peer was a full-mode peer and the
target was registered; a target that is registered now has stayed since. -/
theorem forwarded_connected {since earlier : History} {last : Entry} {router : Router}
    (run : RouterRun (since ++ last :: earlier) router)
    (once : RegisteredOnce (since ++ last :: earlier)) {served target : PeerId}
    (forwarded : last.syncedFrom target = some served) {mode : ProxyMode}
    (recorded : RegisteredAs (since ++ last :: earlier) served ⟨.inbound, mode⟩)
    {known : PeerEntry} (now : registration (since ++ last :: earlier) target = some known) :
    registration earlier served = some ⟨.inbound, .full⟩ ∧
      ∀ newer ∈ since, ¬ newer.disconnects target := by
  obtain ⟨reached, next, earlierRun, step⟩ := visited run
  have registry := registry_history earlierRun
  rcases step_synced step forwarded with ⟨inbound, ⟨_, outbound⟩, -⟩ | ⟨outbound, -⟩
  · rw [registry] at inbound outbound
    refine ⟨inbound, registered_connected once ?_ now⟩
    exact registeredAs_listed (registeredAs_cons (registration_as outbound) last)
  · rw [registry] at outbound
    obtain ⟨original, member, called⟩ := registeredAs_cons (registration_as outbound) last
    cases registeredAs_unique once recorded ⟨original, List.mem_append_right _ member, called⟩

/-- In every run that registers each peer at most once, a synchronization action caused
by an inbound peer goes to a registered outbound peer, and if the last one forwarded to
that peer came from another inbound peer, that one has been disconnected since; an action
caused by an outbound peer goes to the inbound peer whose message was the last one
forwarded to it; no light-mode peer causes an action, and no light-mode inbound peer is
the target of one. -/
theorem sync_provenance {history : History} {router after : Router} {entry : Entry}
    (run : RouterRun history router) (once : RegisteredOnce history)
    (taken : Step router entry after) {source target : PeerId}
    (synced : entry.syncedFrom target = some source) :
    (∀ mode, RegisteredAs history source ⟨.inbound, mode⟩ →
      (∃ other, router.peers.lookup target = some ⟨.outbound, other⟩) ∧
        ∀ since last earlier served mode, history = since ++ last :: earlier →
          last.syncedFrom target = some served →
          (∀ newer ∈ since, newer.syncedFrom target = none) →
          RegisteredAs history served ⟨.inbound, mode⟩ → served ≠ source →
          ∃ newer ∈ since, newer.disconnects served) ∧
      (∀ mode, RegisteredAs history source ⟨.outbound, mode⟩ →
        (∃ other, RegisteredAs history target ⟨.inbound, other⟩) ∧
          ∃ since last earlier, history = since ++ last :: earlier ∧
            last.syncedFrom source = some target ∧
            ∀ newer ∈ since, newer.syncedFrom source = none) ∧
      (∀ direction, ¬ RegisteredAs history source ⟨direction, .light⟩) ∧
      ¬ RegisteredAs history target ⟨.inbound, .light⟩ := by
  have held := run_held run once
  have registry := registry_history run
  have known {peer : PeerId} {first second : PeerEntry}
      (registered : router.peers.lookup peer = some first)
      (recorded : RegisteredAs history peer second) : first = second := by
    rw [registry] at registered
    exact registeredAs_unique once (registration_as registered) recorded
  rcases step_synced taken synced with ⟨inbound, ⟨mode, outbound⟩, free⟩ | ⟨outbound, served⟩
  · refine ⟨fun _ _ => ⟨⟨mode, outbound⟩, ?_⟩, ?_, ?_, ?_⟩
    · intro since last earlier served mode split forwarded _ recorded _
      subst split
      by_contra connected
      push Not at connected
      obtain ⟨registered, stays⟩ := forwarded_connected run once forwarded recorded
        (by rwa [← registry])
      have busy := held.serving ⟨since, last, earlier, rfl, registered, forwarded,
        fun newer member => ⟨connected newer member, stays newer member⟩⟩
      cases free.symm.trans busy
    · intro mode recorded
      cases known inbound recorded
    · intro direction recorded
      cases known inbound recorded
    · intro recorded
      cases known outbound recorded
  · obtain ⟨last, recorded, _⟩ := held.served served
    refine ⟨?_, ?_, ?_, ?_⟩
    · intro mode other
      cases known outbound other
    · intro mode _
      obtain ⟨since, newest, earlier, split, found, quiet⟩ := List.findSome?_eq_some_iff.mp last
      exact ⟨⟨_, recorded⟩, since, newest, earlier, split, found, quiet⟩
    · intro direction other
      cases known outbound other
    · intro light
      cases registeredAs_unique once recorded light

/-- The answer of the first outbound peer goes to the client it serves. -/
theorem sync_provenance_answer :
    (RegisteredOnce syncHistory ∧ RegisteredAs syncHistory syncFirst ⟨.outbound, .full⟩) ∧
      ∃ since last earlier, syncHistory = since ++ last :: earlier ∧
        last.syncedFrom syncFirst = some syncClient ∧
        ∀ newer ∈ since, newer.syncedFrom syncFirst = none := by
  have once : RegisteredOnce syncHistory := by
    unfold RegisteredOnce
    decide
  have recorded : RegisteredAs syncHistory syncFirst ⟨.outbound, .full⟩ :=
    ⟨⟨.registerPeer syncFirst .outbound .full, []⟩, by simp [syncHistory], rfl⟩
  have answer := step_handled syncOnce syncVisit (fun _ => 0)
    (.message syncFirst (.syncInfo [2])) [.send syncClient (.syncInfo [2])] syncOnce rfl
  have caused : Entry.syncedFrom syncClient ⟨.handleEvent (.message syncFirst (.syncInfo [2])),
      [.send syncClient (.syncInfo [2])]⟩ = some syncFirst := rfl
  have provenance := sync_provenance (weaken (fun _ _ _ => And.left) sync_run) once answer caused
  exact ⟨⟨once, recorded⟩, (provenance.2.1 .full recorded).2⟩

section LightOutbound

/-! An outbound peer is registered in light mode and an inbound peer in full mode. -/

def lightNode : PeerId := ⟨1⟩
def fullClient : PeerId := ⟨2⟩

def lightPeers : Router :=
  (Router.new.registerPeer lightNode .outbound .light).registerPeer fullClient .inbound .full

def lightVisit : Traversal lightPeers.peers where
  order := [⟨lightNode, ⟨.outbound, .light⟩⟩, ⟨fullClient, ⟨.inbound, .full⟩⟩]
  exact := by decide

/-- A synchronization message can go to a peer registered in light mode: the choice of
an outbound peer does not look at its mode. -/
theorem light_outbound_synced :
    ¬ ∀ history router entry after, RouterRun history router → RegisteredOnce history →
      Step router entry after → ∀ source target, entry.syncedFrom target = some source →
        ∀ direction, ¬ RegisteredAs history target ⟨direction, .light⟩ := by
  intro contained
  have registered : RouterRun _ lightPeers :=
    .extend (.extend .start (.registerPeer _ lightNode .outbound .light))
      (.registerPeer _ fullClient .inbound .full)
  have forwarded := step_handled lightPeers lightVisit (fun _ => 0)
    (.message fullClient (.syncInfo [1])) [.send lightNode (.syncInfo [1])]
    { lightPeers with syncTracker := SyncTracker.new.pair fullClient lightNode } rfl
  refine contained _ _ _ _ registered ?_ forwarded fullClient lightNode rfl .outbound ?_
  · unfold RegisteredOnce
    decide
  · exact ⟨_, List.mem_cons_of_mem _ List.mem_cons_self, rfl⟩

end LightOutbound

/-- The condition on a call: a synchronization message of a full-mode inbound peer finds
that peer without a partner, and one of a light-mode outbound peer finds that it serves
nobody. Every other call meets it. -/
def AffineSync (before : Router) (entry : Entry) : Prop :=
  ∀ source body, entry.call = .handleEvent (.message source (.syncInfo body)) →
    (before.peers.lookup source = some ⟨.inbound, .full⟩ →
      before.syncTracker.outboundFor source = none) ∧
    (before.peers.lookup source = some ⟨.outbound, .light⟩ →
      before.syncTracker.inboundFor source = none)

/-- A call that meets the condition. -/
def AffineStep (before : Router) (entry : Entry) (after : Router) : Prop :=
  Step before entry after ∧ AffineSync before entry

/-- The condition is stronger than the one that keeps the pairing consistent. -/
theorem affine_fresh {before after : Router} {entry : Entry}
    (taken : AffineStep before entry after) : FreshStep before entry after := by
  refine ⟨taken.1, ?_⟩
  intro source body mode called registered full
  cases mode with
  | full => exact Or.inl ((taken.2 source body called).1 registered)
  | light => exact (full rfl).elim

/-- The message of a serving outbound peer is dropped in light mode and otherwise goes to
the peer it serves, and to no other. -/
theorem served_answer {router after : Router} {entry : Entry} (taken : Step router entry after)
    {outbound inbound : PeerId} {body : Bytes} {mode : ProxyMode}
    (called : entry.call = .handleEvent (.message outbound (.syncInfo body)))
    (registered : router.peers.lookup outbound = some ⟨.outbound, mode⟩)
    (served : router.syncTracker.inboundFor outbound = some inbound) :
    entry.actions = if mode = .light then [] else [.send inbound (.syncInfo body)] := by
  obtain ⟨call, actions⟩ := entry
  obtain rfl : call = .handleEvent (.message outbound (.syncInfo body)) := called
  cases step_effect taken with
  | message routed =>
    cases routed with
    | dropped unregistered => cases unregistered.symm.trans registered
    | syncDropped known reason =>
      obtain rfl := Option.some.inj (known.symm.trans registered)
      rcases reason with light | ⟨inbound, -⟩ | ⟨-, unserved⟩
      · exact (if_pos light).symm
      · cases inbound
      · cases unserved.symm.trans served
    | syncPaired known => cases known.symm.trans registered
    | syncAnswered known full found =>
      cases known.symm.trans registered
      cases found.symm.trans served
      exact (if_neg full).symm

/-- The scenario's registrations and its first synchronization message meet the condition. -/
theorem sync_affine_run : Run Router.new AffineStep syncHistory syncOnce := by
  have register (router : Router) (peerId : PeerId) (direction : Direction) (mode : ProxyMode) :
      AffineStep router ⟨.registerPeer peerId direction mode, []⟩
        (router.registerPeer peerId direction mode) := by
    refine ⟨.registerPeer router peerId direction mode, ?_⟩
    intro source body called
    cases called
  have registered : Run Router.new AffineStep _ syncPeers :=
    .extend (.extend (.extend .start (register _ syncFirst .outbound .full))
      (register _ syncSecond .outbound .full)) (register _ syncClient .inbound .full)
  refine .extend registered ⟨step_handled syncPeers syncVisit (fun _ => 0)
    (.message syncClient (.syncInfo [1])) _ syncOnce rfl, ?_⟩
  intro source body called
  exact ⟨fun _ => rfl, fun _ => rfl⟩

/-- The first outbound peer serves the client. -/
theorem sync_serving : Serving syncHistory syncClient syncFirst :=
  ⟨[], _, _, rfl, by decide, by decide, by rintro _ ⟨⟩⟩

/-- In every run that registers each peer at most once and whose calls all meet the
condition, while an outbound peer serves an inbound peer: the next message of either is
forwarded to the other, unchanged and to nobody else, exactly when it meets the condition
as well. -/
theorem sync_affinity {history : History} {router : Router}
    (run : Run Router.new AffineStep history router) (once : RegisteredOnce history)
    {inbound outbound : PeerId} (serving : Serving history inbound outbound) {entry : Entry}
    {after : Router} (taken : Step router entry after) (body : Bytes) :
    (entry.call = .handleEvent (.message inbound (.syncInfo body)) →
      (entry.actions = [.send outbound (.syncInfo body)] ↔ AffineSync router entry)) ∧
      (entry.call = .handleEvent (.message outbound (.syncInfo body)) →
        (entry.actions = [.send inbound (.syncInfo body)] ↔ AffineSync router entry)) := by
  have plain : RouterRun history router := weaken (fun _ _ _ => And.left) run
  have paired := run_paired (weaken (fun _ _ _ => affine_fresh) run) once
  have held := run_held plain once
  have served := held.serving serving
  have partner := (paired.inverse inbound outbound).mpr served
  obtain ⟨mode, inboundKnown⟩ := paired.inbound partner
  obtain rfl : mode = .full := by
    have recorded := registration_as ((registry_history plain inbound).symm.trans inboundKnown)
    cases registeredAs_unique once (held.served served).2.1 recorded
    rfl
  obtain ⟨mode, outboundKnown⟩ := paired.outbound partner
  constructor
  · intro called
    constructor
    · intro sent
      have synced : entry.syncedFrom outbound = some inbound := by
        simp [Entry.syncedFrom, Action.syncsTo, called, sent]
      rcases step_synced taken synced with ⟨-, -, free⟩ | ⟨wrong, -⟩
      · cases free.symm.trans served
      · cases wrong.symm.trans inboundKnown
    · intro affine
      cases ((affine inbound body called).1 inboundKnown).symm.trans partner
  · intro called
    rw [served_answer taken called outboundKnown served]
    cases mode with
    | full =>
      refine ⟨fun _ => ?_, fun _ => if_neg ProxyMode.noConfusion⟩
      intro source other same
      cases called.symm.trans same
      constructor <;> intro wrong <;> cases wrong.symm.trans outboundKnown
    | light =>
      rw [if_pos rfl]
      refine ⟨fun impossible => (by cases impossible), fun affine => ?_⟩
      cases ((affine outbound body called).2 outboundKnown).symm.trans served

/-- The first outbound peer's message goes to the client it serves. -/
theorem sync_affinity_answer :
    (RegisteredOnce syncHistory ∧ Serving syncHistory syncClient syncFirst) ∧
      (syncOnce.handleEvent syncVisit (fun _ => 0) (.message syncFirst (.syncInfo [2]))).1 =
        [.send syncClient (.syncInfo [2])] := by
  have once : RegisteredOnce syncHistory := by
    unfold RegisteredOnce
    decide
  have answer := Step.handleEvent syncOnce syncVisit (fun _ => 0)
    (.message syncFirst (.syncInfo [2]))
  refine ⟨⟨once, sync_serving⟩,
    ((sync_affinity sync_affine_run once sync_serving answer [2]).2 rfl).mpr ?_⟩
  intro source body called
  cases called
  constructor <;> intro registered <;> exact absurd registered (by decide)

/-- Without the condition a served peer's further message is not forwarded to the peer that
serves it: the client's second message goes to the second outbound peer. -/
theorem further_sync_strays :
    ¬ ∀ history router, RouterRun history router → RegisteredOnce history →
      ∀ inbound outbound, Serving history inbound outbound → ∀ entry after,
        Step router entry after → ∀ body,
          entry.call = .handleEvent (.message inbound (.syncInfo body)) →
          entry.actions = [.send outbound (.syncInfo body)] := by
  intro affine
  have again := step_handled syncOnce syncVisit (fun _ => 0) (.message syncClient (.syncInfo [1]))
    [.send syncSecond (.syncInfo [1])] syncTwice rfl
  have strayed := affine syncHistory syncOnce (weaken (fun _ _ _ => And.left) sync_run)
    (by unfold RegisteredOnce; decide) syncClient syncFirst sync_serving _ _ again [1] rfl
  exact absurd strayed (by decide)

end ErgoProxy.Routing
