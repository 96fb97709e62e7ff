import ErgoProxy.Routing.References
import ErgoProxy.Routing.SyncRoutes

/-!
# The router keeps nothing of the peers that have left

The inventory table, the request tracker and the latency tracker name registered peers only,
and the synchronization maps have entries for registered peers only. The latter may name a
peer that has left, when a pairing was renewed, but no such entry outlives the peer it belongs
to. So when the last peer leaves, the router is as it was in the beginning.
-/

namespace ErgoProxy.Routing

open FiniteMaps Runs

/-- The synchronization maps have an entry for the peer. -/
def Keyed (router : Router) (peer : PeerId) : Prop :=
  router.syncTracker.outboundFor peer ≠ none ∨ router.syncTracker.inboundFor peer ≠ none

/-- A purge removes the entries of the peer and adds none. -/
theorem purged_keyed {before : Router} {gone peer : PeerId}
    (keyed : Keyed (before.disconnectPeer gone) peer) : Keyed before peer ∧ peer ≠ gone := by
  rcases keyed with inbound | outbound
  · obtain ⟨partner, kept⟩ := Option.ne_none_iff_exists'.mp inbound
    obtain ⟨other, found, _⟩ := SyncTracker.outboundFor_purgePeer kept
    exact ⟨Or.inl (by rw [found]; exact Option.some_ne_none _), other⟩
  · have kept : (before.syncTracker.purgePeer gone).inboundFor peer ≠ none := outbound
    rw [SyncTracker.inboundFor_purgePeer] at kept
    split at kept
    · exact (kept rfl).elim
    · rename_i others
      exact ⟨Or.inr kept, fun same => others (Or.inl same)⟩

/-- Routing adds entries for two registered peers at most. -/
theorem routed_keyed {before after : Router} {visit : Traversal before.peers} {source : PeerId}
    {message : ProtocolMessage} {actions : List Action}
    (routed : Router.Routed before visit source message actions after) {peer : PeerId}
    (keyed : Keyed after peer) : Keyed before peer ∨ peer ∈ before.peers := by
  cases routed with
  | @syncPaired _ _ free registered _ chosen =>
    obtain ⟨known, _⟩ := Router.chosen_free chosen
    unfold Keyed at keyed ⊢
    simp only [SyncTracker.outboundFor_pair, SyncTracker.inboundFor_pair] at keyed
    by_cases inbound : peer = source
    · exact Or.inr (inbound ▸ Finmap.mem_of_lookup_eq_some registered)
    · by_cases outbound : peer = free.1
      · exact Or.inr (outbound ▸ Finmap.mem_of_lookup_eq_some known)
      · rw [if_neg inbound, if_neg outbound] at keyed
        exact Or.inl keyed
  | requested _ forwarded =>
    rw [Keyed, forwarded.pairing] at keyed
    exact Or.inl keyed
  | responded _ delivered =>
    rw [Keyed, delivered.pairing] at keyed
    exact Or.inl keyed
  | _ => exact Or.inl keyed

/-- In every run the synchronization maps have entries for registered peers only. -/
theorem keyed_registered {history : History} {router : Router} (run : RouterRun history router)
    {peer : PeerId} (keyed : Keyed router peer) : peer ∈ router.peers := by
  refine invariant (fun _ reached => ∀ peer, Keyed reached peer → peer ∈ reached.peers)
    ?_ ?_ run peer keyed
  · rintro peer (inbound | outbound)
    · exact (inbound rfl).elim
    · exact (outbound rfl).elim
  · intro _ before entry after _ registered taken peer keyed
    cases step_effect taken with
    | registered peerId direction mode =>
      exact Finmap.mem_insert.mpr (Or.inr (registered peer keyed))
    | connected => exact registered peer keyed
    | disconnected gone reason =>
      obtain ⟨known, other⟩ := purged_keyed keyed
      exact Finmap.mem_erase.mpr ⟨other, registered peer known⟩
    | message routed =>
      rw [Router.routed_registry routed]
      rcases routed_keyed routed keyed with known | member
      · exact registered peer known
      · exact member

/-- When every registered peer has left again, the router is as it was in the beginning. -/
theorem unregistered_new {history : History} {router : Router} (run : RouterRun history router)
    (nobody : router.peers = ∅) : router = Router.new := by
  have unmentioned : ∀ peer, ¬ Mentions router peer := by
    intro peer mentioned
    have member := mentioned_registered run mentioned
    rw [nobody] at member
    exact Finmap.notMem_empty member
  have unkeyed : ∀ peer, ¬ Keyed router peer := by
    intro peer keyed
    have member := keyed_registered run keyed
    rw [nobody] at member
    exact Finmap.notMem_empty member
  obtain ⟨peers, ⟨inventory⟩, ⟨requests⟩, ⟨inbound, outbound⟩, ⟨pending, samples⟩⟩ := router
  have noInventory : inventory = ∅ := empty_of_lookup fun id peer found =>
    unmentioned peer (.announcer id found)
  have noRequests : requests = ∅ := empty_of_lookup fun id peer found =>
    unmentioned peer (.requester id found)
  have noInbound : inbound = ∅ := empty_of_lookup fun peer partner found =>
    unkeyed peer (Or.inl fun missing => Option.some_ne_none partner (found.symm.trans missing))
  have noOutbound : outbound = ∅ := empty_of_lookup fun peer partner found =>
    unkeyed peer (Or.inr fun missing => Option.some_ne_none partner (found.symm.trans missing))
  have noPending : pending = ∅ := empty_of_lookup fun id timing found =>
    unmentioned timing.targetPeer (.target id (congrArg (Option.map _) found))
  have noSamples : samples = ∅ := empty_of_lookup fun peer latency found =>
    unmentioned peer (.sampled (Finmap.mem_of_lookup_eq_some found))
  subst noInventory noRequests noInbound noOutbound noPending noSamples
  exact congrArg (fun peers => Router.mk peers _ _ _ _) nobody

/-- In every run the synchronization maps and the latency statistics have at most one entry for
each registered peer and none for anybody else; and if every registered peer has left again, in
whatever order and whatever was relayed between them, the router is as it was in the
beginning: no table, no pairing and no statistics are left behind. -/
theorem nothing_left_behind {history : History} {router : Router} (run : RouterRun history router) :
    router.syncTracker.inboundToOutbound.keys ⊆ router.peers.keys ∧
      router.syncTracker.outboundToInbound.keys ⊆ router.peers.keys ∧
      router.latencyTracker.peers.keys ⊆ router.peers.keys ∧
      (router.peers = ∅ → router = Router.new) := by
  have keys {map : FiniteMap PeerId PeerId} {peer : PeerId} (member : peer ∈ map.keys) :
      map.lookup peer ≠ none := fun missing =>
    Finmap.lookup_eq_none.mp missing (Finmap.mem_keys.mp member)
  refine ⟨?_, ?_, ?_, unregistered_new run⟩
  · intro peer member
    exact Finmap.mem_keys.mpr (keyed_registered run (Or.inl (keys member)))
  · intro peer member
    exact Finmap.mem_keys.mpr (keyed_registered run (Or.inr (keys member)))
  · intro peer member
    exact Finmap.mem_keys.mpr (mentioned_registered run (.sampled (Finmap.mem_keys.mp member)))

/-- The relay scenario, after both of its peers have left. -/
def relayLeft : Router := (relayRequested.disconnectPeer relaySource).disconnectPeer relayClient

/-- The announcer leaves while the request is pending, then the requester: nothing is left
behind. -/
theorem nothing_left_behind_relay : relayLeft = Router.new := by
  have leaving (router : Router) (peer : PeerId) :
      Step router ⟨.handleEvent (.peerDisconnected peer "closed"), []⟩
        (router.disconnectPeer peer) := by
    obtain ⟨visit⟩ := traversal_exists router.peers
    exact step_handled router visit (fun _ => 0) (.peerDisconnected peer "closed") [] _ rfl
  have run : RouterRun _ relayLeft :=
    .extend (.extend relay_run (leaving _ relaySource)) (leaving _ relayClient)
  have nobody : relayLeft.peers = ∅ := by
    refine empty_of_lookup fun peer entry => ?_
    simp only [relayLeft, Router.disconnectPeer, relayRequested, relayAnnounced, relayPeers,
      Router.registerPeer, lookup_erase_eq, lookup_insert_eq]
    by_cases client : peer = relayClient
    · simp [client]
    · by_cases source : peer = relaySource
      · simp [source]
      · simp [client, source, Router.new]
  exact (nothing_left_behind run).2.2.2 nobody

end ErgoProxy.Routing
