import ErgoProxy.Routing.Addressees

/-!
# What the latency statistics count

A peer's statistics take one sample for each distinct modifier of a response that was timed
against it, and they are dropped when it is disconnected. So the number of samples can be read
off the history, modulo 2^64, and the statistics cover exactly the peers with samples. The values
of the averages are floating-point numbers; nothing is said about them here.
-/

namespace ErgoProxy.Routing

open FiniteMaps Runs

/-- Aggregated statistics of all peers. -/
structure LatencyStats where
  minMs : Float
  avgMs : Float
  maxMs : Float
  peerCount : Nat

namespace LatencyTracker

/-- The smaller of two numbers; one that is not a number is ignored. -/
def floatMin (left right : Float) : Float :=
  if left.isNaN then right else if right.isNaN then left else if right < left then right else left

/-- The larger of two numbers; one that is not a number is ignored. -/
def floatMax (left right : Float) : Float :=
  if left.isNaN then right else if right.isNaN then left else if left < right then right else left

/-- The largest finite number. -/
def floatLargest : Float := 1.7976931348623157e308

/-- The statistics so far, with the sum in place of the average, and one more peer. -/
def addPeer (totals : LatencyStats) (entry : PeerLatency) : LatencyStats :=
  if 0 < entry.sampleCount then
    { minMs := floatMin totals.minMs entry.emaMs
      avgMs := totals.avgMs + entry.emaMs
      maxMs := floatMax totals.maxMs entry.emaMs
      peerCount := totals.peerCount + 1 }
  else totals

/-- Aggregate the statistics of all peers, if there is a peer with a sample. -/
def stats (tracker : LatencyTracker) (visit : Traversal tracker.peers) : Option LatencyStats :=
  if visit.order.isEmpty then none
  else
    let totals := (visit.order.map Sigma.snd).foldl addPeer
      ⟨floatLargest, 0.0, -floatLargest, 0⟩
    if totals.peerCount = 0 then none
    else some { totals with avgMs := totals.avgMs / Float.ofNat totals.peerCount }

end LatencyTracker

/-- The aggregated statistics of the router. -/
def Router.latencyStats (router : Router) (visit : Traversal router.latencyTracker.peers) :
    Option LatencyStats :=
  router.latencyTracker.stats visit

/-- How many samples a peer gets from a call. -/
def Entry.samplesFor (earlier : History) (peer : PeerId) (entry : Entry) : Nat :=
  match entry.call with
  | .handleEvent (.message source (.modifierResponse _ modifiers)) =>
    if (registration earlier source).isSome then
      (Router.firstOccurrences modifiers).countP fun modifier =>
        timedAddressee earlier modifier.1 = some peer
    else 0
  | _ => 0

/-- How many samples a peer has got since it was last disconnected. -/
def samplesTaken (peer : PeerId) : History → Nat
  | [] => 0
  | entry :: earlier =>
    if entry.disconnects peer then 0
    else samplesTaken peer earlier + entry.samplesFor earlier peer

/-- What a call does to the statistics of a peer. -/
structure Sampled (peer : PeerId) (before after : Router) (samples : Nat) : Prop where
  counted : after.latencyTracker.samples peer =
    before.latencyTracker.samples peer + UInt64.ofNat samples
  covered : peer ∈ after.latencyTracker.peers ↔
    peer ∈ before.latencyTracker.peers ∨ 0 < samples

variable {history : History} {before after : Router} {entry : Entry} {peer : PeerId}

/-- A call that leaves the peer's statistics alone takes no sample. -/
theorem sampled_kept (same : after.latencyTracker.peers.lookup peer =
      before.latencyTracker.peers.lookup peer) : Sampled peer before after 0 := by
  constructor
  · rw [LatencyTracker.samples, same]
    exact (UInt64.add_zero _).symm
  · rw [← Finmap.lookup_isSome, same, Finmap.lookup_isSome]
    simp

/-- Only a response takes samples. -/
theorem routed_statistics {visit : Traversal before.peers} {source : PeerId}
    {message : ProtocolMessage} {actions : List Action}
    (routed : Router.Routed before visit source message actions after)
    (other : ∀ modifierType modifiers, message ≠ .modifierResponse modifierType modifiers) :
    after.latencyTracker.peers = before.latencyTracker.peers := by
  cases routed with
  | requested _ forwarded => exact forwarded.samples
  | responded => exact (other _ _ rfl).elim
  | _ => rfl

/-- A response covers the peer that its timing entry named. -/
theorem covered_recordResponse (tracker : LatencyTracker) (served : ModifierId) (now : Instant) :
    peer ∈ (tracker.recordResponse served now).2.peers ↔
      peer ∈ tracker.peers ∨ tracker.target served = some peer := by
  refine ⟨LatencyTracker.peers_recordResponse, ?_⟩
  unfold LatencyTracker.recordResponse LatencyTracker.target
  cases tracker.pending.lookup served with
  | none =>
    rintro (covered | ⟨⟨⟩⟩)
    exact covered
  | some timing =>
    rintro (covered | named)
    · exact Finmap.mem_insert.mpr (Or.inr covered)
    · exact Finmap.mem_insert.mpr (Or.inl (Option.some.inj named).symm)

/-- A response loop covers the peers against which one of its modifiers is timed. Induct over the
modifiers; a served identifier is no longer timed. -/
theorem deliver_covered {modifierType : UInt8} (modifiers : List (ModifierId × Bytes))
    (clock : Nat → Instant) (router : Router) :
    peer ∈ (Router.deliverResponses modifierType modifiers clock router).2.latencyTracker.peers ↔
      peer ∈ router.latencyTracker.peers ∨
        ∃ id ∈ modifiers.map Prod.fst, router.latencyTracker.target id = some peer := by
  induction modifiers generalizing clock router with
  | nil => simp [Router.deliverResponses]
  | cons modifier modifiers inductionHypothesis =>
    obtain ⟨served, data⟩ := modifier
    rw [Router.deliver_cons, inductionHypothesis]
    simp only [Router.serve_target]
    rw [Router.serve, covered_recordResponse]
    simp only [List.map_cons, List.mem_cons, exists_eq_or_imp, or_assoc]
    refine or_congr_right ⟨?_, ?_⟩
    · rintro (named | ⟨id, member, timed⟩)
      · exact Or.inl named
      · split at timed
        · cases timed
        · exact Or.inr ⟨id, member, timed⟩
    · rintro (named | ⟨id, member, timed⟩)
      · exact Or.inl named
      · by_cases same : id = served
        · exact Or.inl (same ▸ timed)
        · exact Or.inr ⟨id, member, by rwa [if_neg same]⟩

/-- A handled response takes its samples. -/
theorem response_sampled (run : RouterRun history before) (visit : Traversal before.peers)
    (clock : Nat → Instant) (source : PeerId) (modifierType : UInt8)
    (modifiers : List (ModifierId × Bytes)) (actions : List Action) :
    Sampled peer before (before.handleEvent visit clock
        (.message source (.modifierResponse modifierType modifiers))).2
      (Entry.samplesFor history peer
        ⟨.handleEvent (.message source (.modifierResponse modifierType modifiers)), actions⟩) := by
  have known : (registration history source).isSome ↔ source ∈ before.peers := by
    rw [← registry_history run, Finmap.lookup_isSome]
  simp only [Entry.samplesFor, known]
  constructor
  · rw [response_samples visit clock source modifierType modifiers run]
    split <;> rfl
  · rw [response_handled]
    split
    · rw [deliver_covered, List.countP_pos_iff]
      refine or_congr_right ⟨?_, ?_⟩
      · rintro ⟨id, member, timed⟩
        obtain ⟨modifier, first, rfl⟩ :=
          List.mem_map.mp ((Router.mem_firstOccurrences modifiers id).mpr member)
        rw [addressee_history run] at timed
        exact ⟨modifier, first, decide_eq_true timed⟩
      · rintro ⟨modifier, first, timed⟩
        refine ⟨modifier.1, List.mem_map_of_mem (Router.firstOccurrences_subset first), ?_⟩
        rw [addressee_history run]
        exact of_decide_eq_true timed
    · simp

/-- Every call but a disconnect of the peer takes its samples. -/
theorem step_sampled (run : RouterRun history before) (taken : Step before entry after)
    (connected : ¬ entry.disconnects peer) :
    Sampled peer before after (entry.samplesFor history peer) := by
  cases taken with
  | registerPeer => exact sampled_kept rfl
  | handleEvent visit clock event =>
    cases event with
    | peerConnected => exact sampled_kept rfl
    | peerDisconnected gone reason =>
      have other : peer ≠ gone := fun same => connected ⟨reason, same ▸ rfl⟩
      exact sampled_kept ((lookup_erase_eq _ _ _).trans (if_neg other))
    | message source message =>
      have routed := Router.routeMessage_routed before visit clock source message
      cases message with
      | modifierResponse modifierType modifiers =>
        exact response_sampled run visit clock source modifierType modifiers _
      | _ => exact sampled_kept (by rw [← routed_statistics routed nofun]; rfl)

/-- A disconnect drops the peer's statistics. -/
theorem step_dropped (taken : Step before entry after) (gone : entry.disconnects peer) :
    after.latencyTracker.peers.lookup peer = none := by
  obtain ⟨reason, called⟩ := gone
  cases taken with
  | registerPeer => cases called
  | handleEvent visit clock event =>
    cases called
    exact (lookup_erase_eq _ _ _).trans (if_pos rfl)

/-- In every run the statistics of a peer count its samples, and there are statistics of the
peers with samples. -/
theorem run_sampled (run : RouterRun history after) (peer : PeerId) :
    after.latencyTracker.samples peer = UInt64.ofNat (samplesTaken peer history) ∧
      (peer ∈ after.latencyTracker.peers ↔ 0 < samplesTaken peer history) := by
  refine invariant (fun earlier reached =>
    reached.latencyTracker.samples peer = UInt64.ofNat (samplesTaken peer earlier) ∧
      (peer ∈ reached.latencyTracker.peers ↔ 0 < samplesTaken peer earlier)) ?_ ?_ run
  · exact ⟨rfl, iff_of_false Finmap.notMem_empty (Nat.lt_irrefl 0)⟩
  · rintro earlier before entry after reached ⟨counted, covered⟩ taken
    rw [samplesTaken]
    by_cases gone : entry.disconnects peer
    · have dropped := step_dropped taken gone
      rw [if_pos gone, LatencyTracker.samples, dropped, ← Finmap.lookup_isSome, dropped]
      exact ⟨rfl, iff_of_false Bool.false_ne_true (Nat.lt_irrefl 0)⟩
    · have sampled := step_sampled reached taken gone
      rw [if_neg gone, sampled.counted, counted, sampled.covered, covered, UInt64.ofNat_add]
      exact ⟨rfl, by omega⟩

/-- The peers with samples are counted. -/
theorem addPeer_count (entries : List PeerLatency) (totals : LatencyStats) :
    (entries.foldl LatencyTracker.addPeer totals).peerCount =
      totals.peerCount + entries.countP fun entry => 0 < entry.sampleCount := by
  induction entries generalizing totals with
  | nil => rfl
  | cons entry entries inductionHypothesis =>
    rw [List.foldl_cons, inductionHypothesis, List.countP_cons, LatencyTracker.addPeer]
    by_cases sampled : 0 < entry.sampleCount
    · rw [if_pos sampled, if_pos (decide_eq_true sampled)]
      exact Nat.add_right_comm _ _ _
    · rw [if_neg sampled, if_neg (by simpa using sampled)]
      omega

/-- A visit is as long as the map has keys. -/
theorem order_length {tracker : LatencyTracker} (visit : Traversal tracker.peers) :
    visit.order.length = tracker.peers.keys.card := by
  have same : (visit.order.map Sigma.fst).toFinset = tracker.peers.keys := by
    ext peer
    rw [List.mem_toFinset, Finmap.mem_keys, Finmap.mem_iff]
    simp [traversal_lookup]
  rw [← same, List.toFinset_card_of_nodup (traversal_nodup visit), List.length_map]

/-- If all statistics have samples, all of them are counted. -/
theorem stats_covered {tracker : LatencyTracker} (visit : Traversal tracker.peers)
    (sampled : ∀ entry ∈ visit.order, 0 < entry.2.sampleCount) :
    (tracker.stats visit).map LatencyStats.peerCount =
      if tracker.peers.keys = ∅ then none else some tracker.peers.keys.card := by
  have length := order_length visit
  have all : ((visit.order.map Sigma.snd).foldl LatencyTracker.addPeer
      ⟨LatencyTracker.floatLargest, 0.0, -LatencyTracker.floatLargest, 0⟩).peerCount =
        visit.order.length := by
    rw [addPeer_count, Nat.zero_add, List.countP_map]
    exact List.countP_eq_length.mpr fun entry member => decide_eq_true (sampled entry member)
  unfold LatencyTracker.stats
  by_cases nothing : visit.order = []
  · rw [nothing, List.length_nil] at length
    rw [if_pos (List.isEmpty_iff.mpr nothing), if_pos (Finset.card_eq_zero.mp length.symm)]
    rfl
  · have nonzero : visit.order.length ≠ 0 := fun zero => nothing (List.length_eq_zero_iff.mp zero)
    have keyed : tracker.peers.keys ≠ ∅ := by
      rw [Ne, ← Finset.card_eq_zero, ← length]
      exact nonzero
    rw [if_neg (by simpa using nothing), if_neg keyed, ← length]
    simp only [all, if_neg nonzero, Option.map_some]

/-- In every run in which no peer reaches 2^64 samples, the aggregated statistics count exactly
the peers that have got a sample since they were last disconnected, and there are none if there
is no such peer. -/
theorem stats_counted (run : RouterRun history after)
    (unwrapped : ∀ peer, samplesTaken peer history < 2 ^ 64)
    (visit : Traversal after.latencyTracker.peers) :
    ∃ sampled : Finset PeerId, (∀ peer, peer ∈ sampled ↔ 0 < samplesTaken peer history) ∧
      (after.latencyStats visit).map LatencyStats.peerCount =
        if sampled = ∅ then none else some sampled.card := by
  refine ⟨after.latencyTracker.peers.keys, fun peer => ?_, stats_covered visit ?_⟩
  · rw [Finmap.mem_keys, (run_sampled run peer).2]
  · rintro ⟨peer, entry⟩ member
    have found := (traversal_lookup visit peer entry).mp member
    obtain ⟨counted, covered⟩ := run_sampled run peer
    have positive := covered.mp (Finmap.mem_of_lookup_eq_some found)
    rw [LatencyTracker.samples, found] at counted
    have count : entry.sampleCount = UInt64.ofNat (samplesTaken peer history) := counted
    rw [count, UInt64.lt_iff_toNat_lt, UInt64.toNat_ofNat_of_lt' (unwrapped peer)]
    exact positive

section Answered

/-! The announcer of the relay scenario responds. -/

/-- The router after the response. -/
def relayAnswered : Router :=
  (relayRequested.handleEvent relayVisit (fun _ => 0) (.message relaySource relayResponse)).2

/-- The history with the response. -/
def answeredHistory : History :=
  ⟨.handleEvent (.message relaySource relayResponse), [.send relayClient relayResponse]⟩ ::
    relayHistory

/-- The response gives its only sample to the announcer. -/
theorem answered_samples (peer : PeerId) :
    samplesTaken peer answeredHistory = if relaySource = peer then 1 else 0 := by
  have timed : timedAddressee relayHistory relayId = some relaySource :=
    (addressee_history relay_run relayId).symm.trans rfl
  have earlier : samplesTaken peer relayHistory = 0 := rfl
  have registered : (registration relayHistory relaySource).isSome = true := rfl
  have connected : ¬ Entry.disconnects peer ⟨.handleEvent (.message relaySource relayResponse),
      [.send relayClient relayResponse]⟩ := by rintro ⟨_, ⟨⟩⟩
  rw [answeredHistory, samplesTaken, if_neg connected, earlier, Nat.zero_add]
  simp [Entry.samplesFor, relayResponse, registered, Router.firstOccurrences, timed]

end Answered

/-- The statistics count the announcer. -/
theorem stats_counted_relay :
    ∃ visit : Traversal relayAnswered.latencyTracker.peers, ∃ sampled : Finset PeerId,
      relaySource ∈ sampled ∧ (relayAnswered.latencyStats visit).map LatencyStats.peerCount =
        if sampled = ∅ then none else some sampled.card := by
  obtain ⟨visit⟩ := traversal_exists relayAnswered.latencyTracker.peers
  have run : RouterRun answeredHistory relayAnswered := .extend relay_run
    (step_handled relayRequested relayVisit (fun _ => 0) (.message relaySource relayResponse) _ _ rfl)
  obtain ⟨sampled, exact_peers, counted⟩ := stats_counted run (fun peer => by
    rw [answered_samples]
    split <;> decide) visit
  refine ⟨visit, sampled, (exact_peers relaySource).mpr ?_, counted⟩
  rw [answered_samples, if_pos rfl]
  exact Nat.one_pos

end ErgoProxy.Routing
