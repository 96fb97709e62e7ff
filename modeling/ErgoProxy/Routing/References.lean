import ErgoProxy.Routing.History

/-!
# The tables refer to registered peers only

A peer is mentioned by the router when the inventory table, the request tracker,
the timing map or the latency statistics name it. Handling a message of a
registered peer mentions at most that peer anew; a disconnection removes every
mention of its peer. Hence every mentioned peer is registered, in every run, and
every action other than a synchronization targets a registered peer.
-/

namespace ErgoProxy.Routing

open FiniteMaps Runs

/-- The ways in which the tables can name a peer. -/
inductive Mentions (router : Router) (peer : PeerId) : Prop where
  | announcer (id : ModifierId) (found : router.invTable.lookup id = some peer)
  | requester (id : ModifierId) (found : router.requestTracker.lookup id = some peer)
  | target (id : ModifierId) (found : router.latencyTracker.target id = some peer)
  | sampled (found : peer ∈ router.latencyTracker.peers)

/-- The empty router mentions nobody. -/
theorem new_mentions (peer : PeerId) : ¬ Mentions Router.new peer := by
  intro mentioned
  cases mentioned with
  | announcer id found => simp [Router.new] at found
  | requester id found => simp [Router.new] at found
  | target id found => simp [Router.new, LatencyTracker.new, LatencyTracker.target] at found
  | sampled found => exact Finmap.notMem_empty found

/-- Mentions depend on the three tables alone. -/
theorem mentions_of_tables {before after : Router} {peer : PeerId}
    (mentioned : Mentions after peer) (inventory : after.invTable = before.invTable)
    (requests : after.requestTracker = before.requestTracker)
    (latency : after.latencyTracker = before.latencyTracker) : Mentions before peer := by
  cases mentioned with
  | announcer id found => exact .announcer id (inventory ▸ found)
  | requester id found => exact .requester id (requests ▸ found)
  | target id found => exact .target id (latency ▸ found)
  | sampled found => exact .sampled (latency ▸ found)

/-- The request loop mentions the source anew, and targets that the inventory
table mentioned before. -/
theorem forwarded_mentions {source : PeerId} {modifierType : UInt8} {ids : List ModifierId}
    {before after : Router} {actions : List Action}
    (forwarded : Router.Forwarded source modifierType ids before actions after)
    {peer : PeerId} (mentioned : Mentions after peer) : Mentions before peer ∨ peer = source := by
  cases mentioned with
  | announcer id found => exact Or.inl (.announcer id (forwarded.inventory ▸ found))
  | requester id found =>
    by_cases routed : id ∈ ids ∧ (before.routeFor source id).isSome
    · rw [forwarded.requested id routed.1 routed.2] at found
      exact Or.inr (Option.some.inj found).symm
    · have unchanged := (Router.forwarded_kept forwarded routed).1
      exact Or.inl (.requester id (unchanged ▸ found))
  | target id found =>
    by_cases routed : id ∈ ids ∧ (before.routeFor source id).isSome
    · obtain ⟨target, route⟩ := Option.isSome_iff_exists.mp routed.2
      rw [forwarded.timed id routed.1 target route] at found
      have announced := (Option.filter_eq_some_iff.mp route).1
      exact Or.inl (.announcer id (Option.some.inj found ▸ announced))
    · have unchanged := (Router.forwarded_kept forwarded routed).2
      exact Or.inl (.target id (unchanged ▸ found))
  | sampled found => exact Or.inl (.sampled (forwarded.samples ▸ found))

/-- The response loop mentions nobody anew: statistics arise for the targets of
timing entries. -/
theorem delivered_mentions {modifierType : UInt8} {modifiers : List (ModifierId × Bytes)}
    {before after : Router} {actions : List Action}
    (delivered : Router.Delivered modifierType modifiers before actions after)
    {peer : PeerId} (mentioned : Mentions after peer) : Mentions before peer := by
  cases mentioned with
  | announcer id found => exact .announcer id (delivered.inventory ▸ found)
  | requester id found =>
    rw [delivered.requests] at found
    split at found
    · cases found
    · exact .requester id found
  | target id found =>
    unfold LatencyTracker.target at found
    rw [delivered.timing] at found
    split at found
    · cases found
    · exact .target id found
  | sampled found =>
    rcases delivered.samples peer found with member | ⟨id, targeted⟩
    · exact .sampled member
    · exact .target id targeted

/-- Routing mentions at most its source anew, and only if that is registered. -/
theorem routed_mentions {before after : Router} {visit : Traversal before.peers}
    {source : PeerId} {message : ProtocolMessage} {actions : List Action}
    (routed : Router.Routed before visit source message actions after)
    {peer : PeerId} (mentioned : Mentions after peer) :
    Mentions before peer ∨ peer = source ∧ source ∈ before.peers := by
  cases routed with
  | announced registered =>
    cases mentioned with
    | announcer id found =>
      rw [Router.lookup_recordAll] at found
      split at found
      · exact Or.inr ⟨(Option.some.inj found).symm, Finmap.mem_of_lookup_eq_some registered⟩
      · exact Or.inl (.announcer id found)
    | requester id found => exact Or.inl (.requester id found)
    | target id found => exact Or.inl (.target id found)
    | sampled found => exact Or.inl (.sampled found)
  | requested registered forwarded =>
    exact (forwarded_mentions forwarded mentioned).imp_right fun same =>
      ⟨same, Finmap.mem_of_lookup_eq_some registered⟩
  | responded registered delivered => exact Or.inl (delivered_mentions delivered mentioned)
  | syncPaired => exact Or.inl (mentions_of_tables mentioned rfl rfl rfl)
  | _ => exact Or.inl mentioned

/-- A disconnection keeps only mentions of other peers. -/
theorem disconnected_mentions {before : Router} {gone peer : PeerId}
    (mentioned : Mentions (before.disconnectPeer gone) peer) :
    Mentions before peer ∧ peer ≠ gone := by
  cases mentioned with
  | announcer id found =>
    obtain ⟨kept, other⟩ := Option.filter_eq_some_iff.mp
      ((InvTable.lookup_purgePeer before.invTable gone id).symm.trans found)
    exact ⟨.announcer id kept, of_decide_eq_true other⟩
  | requester id found =>
    obtain ⟨kept, other⟩ := Option.filter_eq_some_iff.mp
      ((RequestTracker.lookup_purgePeer before.requestTracker gone id).symm.trans found)
    exact ⟨.requester id kept, of_decide_eq_true other⟩
  | target id found =>
    obtain ⟨kept, other⟩ := Option.filter_eq_some_iff.mp
      ((LatencyTracker.target_purgePeer before.latencyTracker gone id).symm.trans found)
    exact ⟨.target id kept, of_decide_eq_true other⟩
  | sampled found =>
    obtain ⟨other, kept⟩ := Finmap.mem_erase.mp found
    exact ⟨.sampled kept, other⟩

/-- A call keeps the tables referring to registered peers. A registration adds to the
registry, a message mentions at most a registered source, and a disconnection
removes the peer from the registry and from the tables alike. -/
theorem step_mentioned {before after : Router} {entry : Entry} (taken : Step before entry after)
    (referenced : ∀ peer, Mentions before peer → peer ∈ before.peers) {peer : PeerId}
    (mentioned : Mentions after peer) : peer ∈ after.peers := by
  cases step_effect taken with
  | registered peerId direction mode =>
    have known := referenced peer (mentions_of_tables mentioned rfl rfl rfl)
    exact Finmap.mem_insert.mpr (Or.inr known)
  | connected peerId spec direction => exact referenced peer mentioned
  | disconnected gone reason =>
    obtain ⟨named, other⟩ := disconnected_mentions mentioned
    exact Finmap.mem_erase.mpr ⟨other, referenced peer named⟩
  | message routed =>
    rw [Router.routed_registry routed]
    rcases routed_mentions routed mentioned with named | ⟨rfl, registered⟩
    · exact referenced peer named
    · exact registered

/-- In every run the tables mention registered peers only. -/
theorem mentioned_registered {history : History} {router : Router}
    (run : RouterRun history router) {peer : PeerId} (mentioned : Mentions router peer) :
    peer ∈ router.peers := by
  refine invariant (fun _ reached => ∀ peer, Mentions reached peer → peer ∈ reached.peers)
    ?_ ?_ run peer mentioned
  · intro peer mentioned
    exact (new_mentions peer mentioned).elim
  · intro history before entry after _ referenced taken peer mentioned
    exact step_mentioned taken referenced mentioned

/-- Actions of every message but a synchronization go to registered peers, as long
as the tables mention registered peers only. -/
theorem routed_targets {before after : Router} {visit : Traversal before.peers}
    {source : PeerId} {message : ProtocolMessage} {actions : List Action}
    (routed : Router.Routed before visit source message actions after)
    (referenced : ∀ peer, Mentions before peer → peer ∈ before.peers)
    (notSync : ∀ body, message ≠ .syncInfo body) {action : Action} (emitted : action ∈ actions) :
    action.target ∈ before.peers := by
  cases routed with
  | dropped => cases emitted
  | announced registered =>
    obtain ⟨target, entry, found, -, -, rfl⟩ := (Router.mem_fanOut visit _ _ action).mp emitted
    exact Finmap.mem_of_lookup_eq_some found
  | requested registered forwarded =>
    obtain ⟨id, -, target, route, rfl⟩ := (Router.mem_forwarded forwarded).mp emitted
    exact referenced target (.announcer id (Option.filter_eq_some_iff.mp route).1)
  | responded registered delivered =>
    obtain ⟨modifier, -, requester, pending, rfl⟩ := (Router.mem_delivered delivered).mp emitted
    exact referenced requester (.requester modifier.1 pending)
  | syncDropped => exact (notSync _ rfl).elim
  | syncPaired => exact (notSync _ rfl).elim
  | syncAnswered => exact (notSync _ rfl).elim
  | peersRequested registered =>
    obtain rfl := List.mem_singleton.mp emitted
    exact Finmap.mem_of_lookup_eq_some registered
  | peersIgnored => cases emitted
  | relayed registered =>
    obtain ⟨target, entry, found, -, -, rfl⟩ := (Router.mem_fanOut visit _ _ action).mp emitted
    exact Finmap.mem_of_lookup_eq_some found

/-- A peer that disconnected and was not registered since is not registered. -/
theorem disconnected_unregistered (later : History) {earlier : History} {entry : Entry}
    {peer : PeerId} (gone : entry.disconnects peer) (since : ∀ newer ∈ later, ¬ newer.registers peer) :
    registration (later ++ entry :: earlier) peer = none := by
  induction later with
  | nil =>
    obtain ⟨reason, called⟩ := gone
    simp [registration, called]
  | cons newer later inductionHypothesis =>
    have unregistered := inductionHypothesis fun other member =>
      since other (List.mem_cons_of_mem _ member)
    have notThis := since newer List.mem_cons_self
    simp only [List.cons_append, registration]
    split
    · rename_i registered direction mode called
      have different : peer ≠ registered := by
        rintro rfl
        exact notThis ⟨direction, mode, called⟩
      rw [if_neg different, unregistered]
    · rw [unregistered, ite_self]
    · exact unregistered

/-- In every run: the tables mention registered peers only; every action for a
message other than a synchronization goes to a registered peer; and a peer that
disconnected is not mentioned until it is registered again. -/
theorem references_registered {history : History} {router : Router}
    (run : RouterRun history router) :
    (∀ peer, Mentions router peer → peer ∈ router.peers) ∧
      (∀ visit clock source message, (∀ body, message ≠ .syncInfo body) →
        ∀ action ∈ (router.handleEvent visit clock (.message source message)).1,
          action.target ∈ router.peers) ∧
      (∀ later entry earlier peer, history = later ++ entry :: earlier →
        entry.disconnects peer → (∀ newer ∈ later, ¬ newer.registers peer) →
        ¬ Mentions router peer) := by
  have referenced : ∀ peer, Mentions router peer → peer ∈ router.peers :=
    fun peer mentioned => mentioned_registered run mentioned
  refine ⟨referenced, ?_, ?_⟩
  · intro visit clock source message notSync action emitted
    exact routed_targets (Router.routeMessage_routed router visit clock source message)
      referenced notSync emitted
  · intro later entry earlier peer split gone since mentioned
    have unregistered : router.peers.lookup peer = none := by
      rw [registry_history run, split]
      exact disconnected_unregistered later gone since
    exact Finmap.lookup_eq_none.mp unregistered (referenced peer mentioned)

/-- In the relay scenario the announcer is mentioned and registered. -/
theorem references_registered_relay :
    Mentions relayRequested relaySource ∧ relaySource ∈ relayRequested.peers := by
  have mentioned : Mentions relayRequested relaySource := .announcer relayId (by decide)
  exact ⟨mentioned, (references_registered relay_run).1 relaySource mentioned⟩

end ErgoProxy.Routing
