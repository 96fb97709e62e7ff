import ErgoProxy.Routing.Addressees

/-!
# The exact effect of a response

A response of a registered peer is delivered modifier by modifier. The loop changes
the request tracker and the latency tracker as it goes; its overall effect is stated
here in terms of the tables before it. Repeated identifiers count once: the first
occurrence is delivered, and the removal and the sample happen once.

Sample counts are 64-bit numbers, as in the source, and so are their sums.
-/

namespace ErgoProxy.Routing

open FiniteMaps

/-- A map whose lookups are those of another without some keys is that map with exactly these
keys removed. -/
theorem removed_keys {V : Type} {before after : FiniteMap ModifierId V} {ids : List ModifierId}
    (lookups : ∀ id, after.lookup id = if id ∈ ids then none else before.lookup id) :
    after = retain (fun id _ => decide (id ∉ ids)) before := by
  apply Finmap.ext_lookup
  intro id
  rw [lookups, lookup_retain]
  by_cases removed : id ∈ ids
  · rw [if_pos removed]
    cases before.lookup id <;> simp [Option.filter, removed]
  · rw [if_neg removed]
    cases before.lookup id <;> simp [Option.filter, removed]

/-- The first occurrences satisfy a test on identifiers as often as the distinct identifiers
do. -/
theorem countP_firstOccurrences (modifiers : List (ModifierId × Bytes)) (test : ModifierId → Bool) :
    (Router.firstOccurrences modifiers).countP (fun modifier => test modifier.1) =
      (modifiers.map Prod.fst).dedup.countP test := by
  have same : ((Router.firstOccurrences modifiers).map Prod.fst).Perm
      (modifiers.map Prod.fst).dedup := by
    apply (List.perm_ext_iff_of_nodup (Router.nodup_firstOccurrences modifiers)
      (List.nodup_dedup _)).mpr
    intro id
    rw [Router.mem_firstOccurrences, List.mem_dedup]
  rw [← same.countP_eq, List.countP_map]
  rfl

/-- The effect of a response: the first occurrence of each pending identifier goes to its
requester, unchanged and in order; exactly the answered identifiers leave the request tracker
and the timing map; every peer's sample count grows by the number of distinct identifiers
timed against it; the other tables stay. -/
theorem response_effect (router : Router) (visit : Traversal router.peers)
    (clock : Nat → Instant) (source : PeerId) (modifierType : UInt8)
    (modifiers : List (ModifierId × Bytes)) (registered : source ∈ router.peers) :
    let outcome := router.handleEvent visit clock
      (.message source (.modifierResponse modifierType modifiers))
    outcome.1 = (Router.firstOccurrences modifiers).filterMap (fun modifier =>
        (router.requestTracker.lookup modifier.1).map fun requester =>
          .send requester (.modifierResponse modifierType [modifier])) ∧
      outcome.2.requestTracker.pending =
        retain (fun id _ => decide (id ∉ modifiers.map Prod.fst)) router.requestTracker.pending ∧
      outcome.2.latencyTracker.pending =
        retain (fun id _ => decide (id ∉ modifiers.map Prod.fst)) router.latencyTracker.pending ∧
      (∀ peer, outcome.2.latencyTracker.samples peer = router.latencyTracker.samples peer +
        UInt64.ofNat ((modifiers.map Prod.fst).dedup.countP fun id =>
          router.latencyTracker.target id = some peer)) ∧
      outcome.2.peers = router.peers ∧ outcome.2.invTable = router.invTable ∧
      outcome.2.syncTracker = router.syncTracker := by
  have delivered : Router.Delivered modifierType modifiers router _ _ :=
    Router.deliver_exact modifiers clock router
  intro outcome
  have handled : outcome = Router.deliverResponses modifierType modifiers clock router :=
    (response_handled router visit clock source modifierType modifiers).trans (if_pos registered)
  rw [handled]
  refine ⟨delivered.sent, removed_keys delivered.requests, removed_keys delivered.timing, ?_,
    delivered.registry, delivered.inventory, delivered.pairing⟩
  intro peer
  rw [Router.deliver_samples, ← countP_firstOccurrences modifiers fun id =>
    decide (router.latencyTracker.target id = some peer)]

/-- In the relay scenario the announcer answers twice in one response: the first payload is
delivered and one sample is counted. -/
theorem response_effect_repeated :
    let outcome := relayRequested.handleEvent relayVisit (fun _ => 5)
      (.message relaySource (.modifierResponse 2 [(relayId, [7]), (relayId, [8])]))
    outcome.1 = [.send relayClient (.modifierResponse 2 [(relayId, [7])])] ∧
      outcome.2.latencyTracker.samples relaySource = 1 := by
  obtain ⟨sent, _, _, samples, _⟩ := response_effect relayRequested relayVisit (fun _ => 5)
    relaySource 2 [(relayId, [7]), (relayId, [8])] (by decide)
  exact ⟨sent, samples relaySource⟩

end ErgoProxy.Routing
