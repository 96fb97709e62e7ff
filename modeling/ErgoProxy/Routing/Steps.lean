import ErgoProxy.Routing.Router

/-!
# What one call of the router does

Each loop of the router has one specification: the actions it emits, the tables
it changes and the tables it leaves alone. Every later invariant is derived from
these records, from the three kinds of call and from the fact that a traversal
visits exactly the registered peers; the loops are not unfolded again.
-/

namespace ErgoProxy.Routing

open FiniteMaps

namespace Router

variable {router : Router} {source : PeerId} {modifierType : UInt8}

/-- A fan-out reaches exactly the other registered peers of the direction. -/
theorem mem_fanOut (visit : Traversal router.peers) (direction : Direction)
    (message : ProtocolMessage) (action : Action) :
    action ∈ fanOut visit.order source direction message ↔
      ∃ target entry, router.peers.lookup target = some entry ∧ target ≠ source ∧
        entry.direction = direction ∧ action = .send target message := by
  simp only [fanOut, List.mem_map, List.mem_filter, decide_eq_true_eq]
  constructor
  · rintro ⟨⟨target, entry⟩, ⟨visited, other, directed⟩, rfl⟩
    exact ⟨target, entry, (traversal_lookup visit target entry).mp visited, other, directed, rfl⟩
  · rintro ⟨target, entry, registered, other, directed, rfl⟩
    exact ⟨⟨target, entry⟩,
      ⟨(traversal_lookup visit target entry).mpr registered, other, directed⟩, rfl⟩

/-- Recording an announcement overwrites exactly the announced identifiers. -/
theorem lookup_recordAll (table : InvTable) (ids : List ModifierId) (id : ModifierId) :
    (ids.foldl (fun table id => table.record id source) table).lookup id =
      if id ∈ ids then some source else table.lookup id := by
  induction ids generalizing table with
  | nil => simp
  | cons first ids inductionHypothesis =>
    rw [List.foldl_cons, inductionHypothesis, InvTable.lookup_record]
    by_cases inTail : id ∈ ids
    · simp [inTail]
    · by_cases same : id = first <;> simp [inTail, same]

/-- Where the request loop sends a request: to the announcer, unless the requester
announced the modifier itself. -/
def routeFor (router : Router) (source : PeerId) (id : ModifierId) : Option PeerId :=
  (router.invTable.lookup id).filter (fun target => target ≠ source)

/-- The effect of the request loop: one single-identifier request per routed
occurrence, in order; each routed identifier is pending for the source and timed
against its target; nothing else changes. -/
structure Forwarded (source : PeerId) (modifierType : UInt8) (ids : List ModifierId)
    (before : Router) (actions : List Action) (after : Router) : Prop where
  sent : actions = ids.filterMap fun id => (before.routeFor source id).map fun target =>
    .send target (.modifierRequest modifierType [id])
  registry : after.peers = before.peers
  inventory : after.invTable = before.invTable
  pairing : after.syncTracker = before.syncTracker
  samples : after.latencyTracker.peers = before.latencyTracker.peers
  requested : ∀ id ∈ ids, (before.routeFor source id).isSome →
    after.requestTracker.lookup id = some source
  timed : ∀ id ∈ ids, ∀ target, before.routeFor source id = some target →
    after.latencyTracker.target id = some target
  others : ∀ id, id ∉ ids ∨ before.routeFor source id = none →
    after.requestTracker.lookup id = before.requestTracker.lookup id ∧
      after.latencyTracker.pending.lookup id = before.latencyTracker.pending.lookup id

/-- The request loop sends exactly one request for each listed identifier with a route. -/
theorem mem_forwarded {source : PeerId} {modifierType : UInt8} {ids : List ModifierId}
    {before after : Router} {actions : List Action}
    (forwarded : Forwarded source modifierType ids before actions after) {action : Action} :
    action ∈ actions ↔ ∃ id ∈ ids, ∃ target, before.routeFor source id = some target ∧
      action = .send target (.modifierRequest modifierType [id]) := by
  rw [forwarded.sent, List.mem_filterMap]
  simp only [Option.map_eq_some_iff, @eq_comm _ action]

/-- An identifier that is not both listed and routed keeps its requester and its addressee. -/
theorem forwarded_kept {source : PeerId} {modifierType : UInt8} {ids : List ModifierId}
    {before after : Router} {actions : List Action}
    (forwarded : Forwarded source modifierType ids before actions after) {id : ModifierId}
    (outside : ¬ (id ∈ ids ∧ (before.routeFor source id).isSome)) :
    after.requestTracker.lookup id = before.requestTracker.lookup id ∧
      after.latencyTracker.target id = before.latencyTracker.target id := by
  have unrouted : id ∉ ids ∨ before.routeFor source id = none := by
    simpa only [not_and_or, Option.not_isSome_iff_eq_none] using outside
  obtain ⟨requests, timing⟩ := forwarded.others id unrouted
  exact ⟨requests, congrArg (Option.map PendingTiming.targetPeer) timing⟩

/-- An identifier without a route is skipped. -/
theorem forward_skipped {id : ModifierId} (unrouted : router.routeFor source id = none)
    (ids : List ModifierId) (clock : Nat → Instant) :
    forwardRequests source modifierType (id :: ids) clock router =
      forwardRequests source modifierType ids (fun turn => clock (turn + 1)) router := by
  unfold routeFor at unrouted
  rw [forwardRequests]
  cases found : router.invTable.lookup id with
  | none => rfl
  | some target =>
    have own : ¬ target ≠ source := by
      rw [found] at unrouted
      simpa [Option.filter] using unrouted
    simp only [if_neg own]

/-- The record of a routed request, before the loop continues. -/
def recordForward (router : Router) (id : ModifierId) (source target : PeerId) (now : Instant) :
    Router :=
  { router with
    requestTracker := router.requestTracker.record id source
    latencyTracker := router.latencyTracker.recordRequest id target now }

/-- An identifier with a route is recorded and sent before the loop continues. -/
theorem forward_routed {id : ModifierId} {target : PeerId}
    (routed : router.routeFor source id = some target) (ids : List ModifierId)
    (clock : Nat → Instant) :
    forwardRequests source modifierType (id :: ids) clock router =
      (.send target (.modifierRequest modifierType [id]) ::
        (forwardRequests source modifierType ids (fun turn => clock (turn + 1))
          (router.recordForward id source target (clock 0))).1,
        (forwardRequests source modifierType ids (fun turn => clock (turn + 1))
          (router.recordForward id source target (clock 0))).2) := by
  unfold routeFor at routed
  obtain ⟨found, other⟩ := Option.filter_eq_some_iff.mp routed
  rw [forwardRequests, found]
  simp only [if_pos (of_decide_eq_true other)]
  rfl

/-- A skipped identifier adds nothing to the effect of the others. -/
theorem forwarded_skipped {id : ModifierId} {ids : List ModifierId} {actions : List Action}
    {after : Router} (unrouted : router.routeFor source id = none)
    (forwarded : Forwarded source modifierType ids router actions after) :
    Forwarded source modifierType (id :: ids) router actions after := by
  obtain ⟨sent, registry, inventory, pairing, samples, requested, timed, others⟩ := forwarded
  refine ⟨?_, registry, inventory, pairing, samples, ?_, ?_, ?_⟩
  · simp [sent, unrouted]
  · intro wanted member found
    rcases List.mem_cons.mp member with rfl | member
    · simp [unrouted] at found
    · exact requested wanted member found
  · intro wanted member target found
    rcases List.mem_cons.mp member with rfl | member
    · simp [unrouted] at found
    · exact timed wanted member target found
  · intro wanted outside
    apply others wanted
    rcases outside with absent | unrouted
    · exact Or.inl fun member => absent (List.mem_cons_of_mem _ member)
    · exact Or.inr unrouted

/-- A routed identifier adds its record and its action. Routes do not change when it
is recorded, since the inventory table is not written. -/
theorem forwarded_routed {id : ModifierId} {ids : List ModifierId} {actions : List Action}
    {after : Router} {target : PeerId} {now : Instant}
    (routed : router.routeFor source id = some target)
    (forwarded : Forwarded source modifierType ids (router.recordForward id source target now)
      actions after) :
    Forwarded source modifierType (id :: ids) router
      (.send target (.modifierRequest modifierType [id]) :: actions) after := by
  have sameRoutes (wanted : ModifierId) :
      (router.recordForward id source target now).routeFor source wanted =
        router.routeFor source wanted := rfl
  obtain ⟨sent, registry, inventory, pairing, samples, requested, timed, others⟩ := forwarded
  simp only [sameRoutes] at sent requested timed others
  refine ⟨?_, registry, inventory, pairing, samples, ?_, ?_, ?_⟩
  · simp [sent, routed]
  · intro wanted member found
    by_cases inTail : wanted ∈ ids
    · exact requested wanted inTail found
    · obtain rfl : wanted = id := (List.mem_cons.mp member).resolve_right inTail
      rw [(others wanted (Or.inl inTail)).1]
      simp [recordForward]
  · intro wanted member other found
    by_cases inTail : wanted ∈ ids
    · exact timed wanted inTail other found
    · obtain rfl : wanted = id := (List.mem_cons.mp member).resolve_right inTail
      obtain rfl : target = other := Option.some.inj (routed.symm.trans found)
      unfold LatencyTracker.target
      rw [(others wanted (Or.inl inTail)).2]
      simp [recordForward, LatencyTracker.recordRequest]
  · intro wanted outside
    have different : wanted ≠ id := by
      rintro rfl
      rcases outside with absent | unrouted
      · exact absent List.mem_cons_self
      · simp [routed] at unrouted
    have tail : wanted ∉ ids ∨ router.routeFor source wanted = none :=
      outside.imp (fun absent member => absent (List.mem_cons_of_mem _ member)) fun none => none
    obtain ⟨requests, timing⟩ := others wanted tail
    rw [requests, timing]
    simp [recordForward, LatencyTracker.recordRequest, different]

/-- The request loop has exactly the specified effect. Induct over the identifiers. -/
theorem forward_exact (ids : List ModifierId) (clock : Nat → Instant) (router : Router) :
    Forwarded source modifierType ids router
      (forwardRequests source modifierType ids clock router).1
      (forwardRequests source modifierType ids clock router).2 := by
  induction ids generalizing clock router with
  | nil => constructor <;> simp [forwardRequests]
  | cons id ids inductionHypothesis =>
    cases routed : router.routeFor source id with
    | none =>
      rw [forward_skipped routed]
      exact forwarded_skipped routed (inductionHypothesis _ router)
    | some target =>
      rw [forward_routed routed]
      exact forwarded_routed routed (inductionHypothesis _ _)

/-- Keep the first pair of every key, in order. -/
def firstOccurrences : List (ModifierId × Bytes) → List (ModifierId × Bytes)
  | [] => []
  | (id, data) :: modifiers =>
    (id, data) :: (firstOccurrences modifiers).filter (fun other => other.1 ≠ id)

/-- The first pairs have the keys of all pairs. -/
theorem mem_firstOccurrences (modifiers : List (ModifierId × Bytes)) (id : ModifierId) :
    id ∈ (firstOccurrences modifiers).map Prod.fst ↔ id ∈ modifiers.map Prod.fst := by
  induction modifiers with
  | nil => rfl
  | cons modifier modifiers inductionHypothesis =>
    obtain ⟨first, data⟩ := modifier
    simp only [firstOccurrences, List.map_cons, List.mem_cons, ← inductionHypothesis]
    by_cases same : id = first
    · simp only [same, true_or]
    · simp only [same, false_or, List.mem_map, List.mem_filter, decide_eq_true_eq]
      constructor
      · rintro ⟨other, ⟨member, _⟩, found⟩
        exact ⟨other, member, found⟩
      · rintro ⟨other, member, rfl⟩
        exact ⟨other, ⟨member, same⟩, rfl⟩

/-- Each key occurs once among the first pairs. -/
theorem nodup_firstOccurrences (modifiers : List (ModifierId × Bytes)) :
    ((firstOccurrences modifiers).map Prod.fst).Nodup := by
  induction modifiers with
  | nil => exact List.nodup_nil
  | cons modifier modifiers inductionHypothesis =>
    obtain ⟨first, data⟩ := modifier
    rw [firstOccurrences, List.map_cons, List.nodup_cons]
    refine ⟨by simp, ?_⟩
    exact inductionHypothesis.sublist (List.filter_sublist.map Prod.fst)

/-- The first pairs are among all pairs. -/
theorem firstOccurrences_subset {modifiers : List (ModifierId × Bytes)}
    {modifier : ModifierId × Bytes} (member : modifier ∈ firstOccurrences modifiers) :
    modifier ∈ modifiers := by
  induction modifiers with
  | nil => cases member
  | cons first modifiers inductionHypothesis =>
    obtain ⟨id, data⟩ := first
    rcases List.mem_cons.mp member with rfl | later
    · exact List.mem_cons_self
    · exact List.mem_cons_of_mem _ (inductionHypothesis (List.mem_of_mem_filter later))

/-- The effect of the response loop: the first occurrence of every pending
identifier goes to its requester; every answered identifier leaves the request
tracker and the timing map; statistics arise only from removed timing entries. -/
structure Delivered (modifierType : UInt8) (modifiers : List (ModifierId × Bytes))
    (before : Router) (actions : List Action) (after : Router) : Prop where
  sent : actions = (firstOccurrences modifiers).filterMap fun modifier =>
    (before.requestTracker.lookup modifier.1).map fun requester =>
      .send requester (.modifierResponse modifierType [modifier])
  registry : after.peers = before.peers
  inventory : after.invTable = before.invTable
  pairing : after.syncTracker = before.syncTracker
  requests : ∀ id, after.requestTracker.lookup id =
    if id ∈ modifiers.map Prod.fst then none else before.requestTracker.lookup id
  timing : ∀ id, after.latencyTracker.pending.lookup id =
    if id ∈ modifiers.map Prod.fst then none else before.latencyTracker.pending.lookup id
  samples : ∀ peer ∈ after.latencyTracker.peers, peer ∈ before.latencyTracker.peers ∨
    ∃ id, before.latencyTracker.target id = some peer

/-- The response loop sends each modifier to the peer whose request is pending. -/
theorem mem_delivered {modifierType : UInt8} {modifiers : List (ModifierId × Bytes)}
    {before after : Router} {actions : List Action}
    (delivered : Delivered modifierType modifiers before actions after) {action : Action} :
    action ∈ actions ↔ ∃ modifier ∈ firstOccurrences modifiers, ∃ requester,
      before.requestTracker.lookup modifier.1 = some requester ∧
        action = .send requester (.modifierResponse modifierType [modifier]) := by
  rw [delivered.sent, List.mem_filterMap]
  simp only [Option.map_eq_some_iff, @eq_comm _ action]

/-- The router after one modifier has been timed and taken out of the tracker. -/
def serve (router : Router) (id : ModifierId) (now : Instant) : Router :=
  { router with
    requestTracker := (router.requestTracker.fulfill id).2
    latencyTracker := (router.latencyTracker.recordResponse id now).2 }

/-- The response loop serves the first modifier and continues with the others. -/
theorem deliver_cons (id : ModifierId) (data : Bytes) (modifiers : List (ModifierId × Bytes))
    (clock : Nat → Instant) (router : Router) :
    deliverResponses modifierType ((id, data) :: modifiers) clock router =
      (((router.requestTracker.lookup id).map fun requester =>
          .send requester (.modifierResponse modifierType [(id, data)])).toList ++
        (deliverResponses modifierType modifiers (fun turn => clock (turn + 1))
          (router.serve id (clock 0))).1,
        (deliverResponses modifierType modifiers (fun turn => clock (turn + 1))
          (router.serve id (clock 0))).2) := by
  rw [deliverResponses]
  cases found : router.requestTracker.lookup id with
  | none => simp [found, serve]
  | some requester => simp [found, serve]

/-- Serving removes exactly the served identifier from the request tracker. -/
theorem serve_requests (router : Router) (served id : ModifierId) (now : Instant) :
    (router.serve served now).requestTracker.lookup id =
      if id = served then none else router.requestTracker.lookup id :=
  RequestTracker.lookup_fulfill router.requestTracker served id

/-- Serving removes exactly the served identifier from the timing map. -/
theorem serve_timing (router : Router) (served id : ModifierId) (now : Instant) :
    (router.serve served now).latencyTracker.pending.lookup id =
      if id = served then none else router.latencyTracker.pending.lookup id :=
  LatencyTracker.pending_recordResponse router.latencyTracker served id now

/-- Removing the later keys and then the first removes them all. -/
theorem removed_cons {Value : Type} (wanted id : ModifierId) (ids : List ModifierId)
    (found : Option Value) :
    (if wanted ∈ ids then none else if wanted = id then none else found) =
      if wanted ∈ id :: ids then none else found := by
  by_cases inTail : wanted ∈ ids
  · rw [if_pos inTail, if_pos (List.mem_cons_of_mem id inTail)]
  · by_cases same : wanted = id
    · rw [if_neg inTail, if_pos same, if_pos (same ▸ List.mem_cons_self)]
    · rw [if_neg inTail, if_neg same, if_neg (List.not_mem_cons_of_ne_of_not_mem same inTail)]

/-- The response loop has exactly the specified effect. Induct over the modifiers;
a served identifier is no longer pending, so its later occurrences send nothing. -/
theorem deliver_exact (modifiers : List (ModifierId × Bytes)) (clock : Nat → Instant)
    (router : Router) :
    Delivered modifierType modifiers router
      (deliverResponses modifierType modifiers clock router).1
      (deliverResponses modifierType modifiers clock router).2 := by
  induction modifiers generalizing clock router with
  | nil => constructor <;> simp +contextual [deliverResponses, firstOccurrences]
  | cons modifier modifiers inductionHypothesis =>
    obtain ⟨id, data⟩ := modifier
    rw [deliver_cons]
    obtain ⟨sent, registry, inventory, pairing, requests, timing, samples⟩ :=
      inductionHypothesis (fun turn => clock (turn + 1)) (router.serve id (clock 0))
    refine ⟨?_, registry, inventory, pairing, ?_, ?_, ?_⟩
    · have later : (firstOccurrences modifiers).filterMap (fun modifier =>
            ((router.serve id (clock 0)).requestTracker.lookup modifier.1).map fun requester =>
              Action.send requester (.modifierResponse modifierType [modifier])) =
          ((firstOccurrences modifiers).filter (fun other => other.1 ≠ id)).filterMap
            fun modifier => (router.requestTracker.lookup modifier.1).map fun requester =>
              .send requester (.modifierResponse modifierType [modifier]) := by
        rw [List.filterMap_filter]
        congr 1
        funext other
        by_cases same : other.1 = id <;> simp [serve_requests, same]
      simp only [sent, later, firstOccurrences]
      cases found : router.requestTracker.lookup id with
      | none => simp [found]
      | some requester => simp [found]
    · intro wanted
      rw [requests, serve_requests]
      exact removed_cons wanted id (modifiers.map Prod.fst) _
    · intro wanted
      rw [timing, serve_timing]
      exact removed_cons wanted id (modifiers.map Prod.fst) _
    · intro peer sampled
      rcases samples peer sampled with member | ⟨wanted, targeted⟩
      · rcases LatencyTracker.peers_recordResponse member with member | targeted
        · exact Or.inl member
        · exact Or.inr ⟨id, targeted⟩
      · refine Or.inr ⟨wanted, ?_⟩
        unfold LatencyTracker.target at targeted ⊢
        rw [serve_timing] at targeted
        by_cases same : wanted = id
        · simp [same] at targeted
        · rwa [if_neg same] at targeted

/-- Serving removes exactly the served identifier's target. -/
theorem serve_target (router : Router) (served id : ModifierId) (now : Instant) :
    (router.serve served now).latencyTracker.target id =
      if id = served then none else router.latencyTracker.target id := by
  rw [LatencyTracker.target, serve_timing]
  split <;> rfl

/-- The response loop counts, for every peer, one sample for each distinct identifier that
was timed against it. Induct over the modifiers; a served identifier is no longer timed. -/
theorem deliver_samples (modifiers : List (ModifierId × Bytes)) (clock : Nat → Instant)
    (router : Router) (peer : PeerId) :
    (deliverResponses modifierType modifiers clock router).2.latencyTracker.samples peer =
      router.latencyTracker.samples peer + UInt64.ofNat ((firstOccurrences modifiers).countP
        fun modifier => router.latencyTracker.target modifier.1 = some peer) := by
  induction modifiers generalizing clock router with
  | nil => simp [deliverResponses, firstOccurrences]
  | cons modifier modifiers inductionHypothesis =>
    obtain ⟨id, data⟩ := modifier
    have later : (firstOccurrences modifiers).countP (fun modifier =>
          (router.serve id (clock 0)).latencyTracker.target modifier.1 = some peer) =
        ((firstOccurrences modifiers).filter (fun other => other.1 ≠ id)).countP
          fun modifier => router.latencyTracker.target modifier.1 = some peer := by
      rw [List.countP_filter]
      congr 1
      funext other
      by_cases same : other.1 = id <;> simp [serve_target, same]
    rw [deliver_cons, inductionHypothesis, later, firstOccurrences, List.countP_cons, serve,
      LatencyTracker.samples_recordResponse]
    by_cases timed : router.latencyTracker.target id = some peer
    · rw [if_pos timed, if_pos (decide_eq_true timed), UInt64.ofNat_add, UInt64.add_assoc,
        UInt64.add_comm 1]
      rfl
    · rw [if_neg timed, if_neg (by simpa using timed), UInt64.add_zero, Nat.add_zero]

/-- The response loop leaves the statistics of a peer alone against which nothing is timed. -/
theorem deliver_statistics (modifiers : List (ModifierId × Bytes)) (clock : Nat → Instant)
    (router : Router) {peer : PeerId}
    (untimed : ∀ modifier ∈ modifiers, router.latencyTracker.target modifier.1 ≠ some peer) :
    (deliverResponses modifierType modifiers clock router).2.latencyTracker.peers.lookup peer =
      router.latencyTracker.peers.lookup peer := by
  induction modifiers generalizing clock router with
  | nil => rfl
  | cons modifier modifiers inductionHypothesis =>
    obtain ⟨id, data⟩ := modifier
    have stillUntimed : ∀ modifier ∈ modifiers,
        (router.serve id (clock 0)).latencyTracker.target modifier.1 ≠ some peer := by
      intro modifier member
      rw [serve_target]
      split
      · exact (Option.some_ne_none peer).symm
      · exact untimed modifier (List.mem_cons_of_mem _ member)
    rw [deliver_cons, inductionHypothesis _ _ stillUntimed]
    exact LatencyTracker.statistics_recordResponse (untimed (id, data) List.mem_cons_self) (clock 0)

/-- Every way in which a message can be routed. The loops appear through their
specifications; a synchronization message is dropped, paired or answered. -/
inductive Routed (before : Router) (visit : Traversal before.peers) (source : PeerId) :
    ProtocolMessage → List Action → Router → Prop where
  | dropped {message : ProtocolMessage} (unregistered : before.peers.lookup source = none) :
      Routed before visit source message [] before
  | announced {modifierType : UInt8} {ids : List ModifierId} {entry : PeerEntry}
      (registered : before.peers.lookup source = some entry) :
      Routed before visit source (.inv modifierType ids)
        (fanOut visit.order source (oppositeDirection entry.direction) (.inv modifierType ids))
        { before with
          invTable := ids.foldl (fun table id => table.record id source) before.invTable }
  | requested {modifierType : UInt8} {ids : List ModifierId} {actions : List Action}
      {after : Router} {entry : PeerEntry} (registered : before.peers.lookup source = some entry)
      (forwarded : Forwarded source modifierType ids before actions after) :
      Routed before visit source (.modifierRequest modifierType ids) actions after
  | responded {modifierType : UInt8} {modifiers : List (ModifierId × Bytes)}
      {actions : List Action} {after : Router} {entry : PeerEntry}
      (registered : before.peers.lookup source = some entry)
      (delivered : Delivered modifierType modifiers before actions after) :
      Routed before visit source (.modifierResponse modifierType modifiers) actions after
  | syncDropped {body : Bytes} {entry : PeerEntry}
      (registered : before.peers.lookup source = some entry)
      (unserved : entry.mode = .light ∨
        entry.direction = .inbound ∧ visit.order.find? before.freeOutbound = none ∨
        entry.direction = .outbound ∧ before.syncTracker.inboundFor source = none) :
      Routed before visit source (.syncInfo body) [] before
  | syncPaired {body : Bytes} {mode : ProxyMode} {free : Σ _ : PeerId, PeerEntry}
      (registered : before.peers.lookup source = some ⟨.inbound, mode⟩)
      (full : mode ≠ .light) (chosen : visit.order.find? before.freeOutbound = some free) :
      Routed before visit source (.syncInfo body) [.send free.1 (.syncInfo body)]
        { before with syncTracker := before.syncTracker.pair source free.1 }
  | syncAnswered {body : Bytes} {mode : ProxyMode} {inbound : PeerId}
      (registered : before.peers.lookup source = some ⟨.outbound, mode⟩)
      (full : mode ≠ .light) (paired : before.syncTracker.inboundFor source = some inbound) :
      Routed before visit source (.syncInfo body) [.send inbound (.syncInfo body)] before
  | peersRequested {entry : PeerEntry} (registered : before.peers.lookup source = some entry) :
      Routed before visit source .getPeers [.send source (.peers [])] before
  | peersIgnored {body : Bytes} {entry : PeerEntry}
      (registered : before.peers.lookup source = some entry) :
      Routed before visit source (.peers body) [] before
  | relayed {code : UInt8} {body : Bytes} {entry : PeerEntry}
      (registered : before.peers.lookup source = some entry) :
      Routed before visit source (.unknown code body)
        (fanOut visit.order source (oppositeDirection entry.direction) (.unknown code body)) before

/-- Routing takes one of these ways. -/
theorem routeMessage_routed (router : Router) (visit : Traversal router.peers)
    (clock : Nat → Instant) (source : PeerId) (message : ProtocolMessage) :
    Routed router visit source message (router.routeMessage visit clock source message).1
      (router.routeMessage visit clock source message).2 := by
  unfold routeMessage
  cases registered : router.peers.lookup source with
  | none => exact .dropped registered
  | some entry =>
    cases message with
    | inv modifierType ids => exact .announced registered
    | modifierRequest modifierType ids =>
      exact .requested registered (forward_exact ids clock router)
    | modifierResponse modifierType modifiers =>
      exact .responded registered (deliver_exact modifiers clock router)
    | syncInfo body =>
      obtain ⟨direction, mode⟩ := entry
      by_cases light : mode = .light
      · simp only [if_pos light]
        exact .syncDropped registered (Or.inl light)
      · simp only [if_neg light]
        cases direction with
        | inbound =>
          cases chosen : visit.order.find? router.freeOutbound with
          | none => exact .syncDropped registered (Or.inr (Or.inl ⟨rfl, chosen⟩))
          | some free => exact .syncPaired registered light chosen
        | outbound =>
          cases paired : router.syncTracker.inboundFor source with
          | none => exact .syncDropped registered (Or.inr (Or.inr ⟨rfl, paired⟩))
          | some inbound => exact .syncAnswered registered light paired
    | getPeers => exact .peersRequested registered
    | peers body => exact .peersIgnored registered
    | unknown code body => exact .relayed registered

/-- Routing a message never changes the registry. -/
theorem routed_registry {visit : Traversal router.peers} {message : ProtocolMessage}
    {actions : List Action} {after : Router}
    (routed : Routed router visit source message actions after) : after.peers = router.peers := by
  cases routed with
  | requested _ forwarded => exact forwarded.registry
  | responded _ delivered => exact delivered.registry
  | _ => rfl

/-- A chosen free peer is a registered outbound peer without a partner. -/
theorem chosen_free {visit : Traversal router.peers} {free : Σ _ : PeerId, PeerEntry}
    (chosen : visit.order.find? router.freeOutbound = some free) :
    router.peers.lookup free.1 = some free.2 ∧ free.2.direction = .outbound ∧
      router.syncTracker.inboundFor free.1 = none := by
  have visited := (traversal_lookup visit free.1 free.2).mp (List.mem_of_find?_eq_some chosen)
  have test := List.find?_some chosen
  simp only [freeOutbound, decide_eq_true_eq] at test
  exact ⟨visited, test⟩

end Router

/-- How an action's message arises from the received one. -/
inductive Relayed : ProtocolMessage → ProtocolMessage → Prop where
  | whole (message : ProtocolMessage) : Relayed message message
  | request {modifierType : UInt8} {ids : List ModifierId} {id : ModifierId} (member : id ∈ ids) :
      Relayed (.modifierRequest modifierType ids) (.modifierRequest modifierType [id])
  | response {modifierType : UInt8} {modifiers : List (ModifierId × Bytes)}
      {modifier : ModifierId × Bytes} (member : modifier ∈ modifiers) :
      Relayed (.modifierResponse modifierType modifiers)
        (.modifierResponse modifierType [modifier])
  | noPeers : Relayed .getPeers (.peers [])

/-- Every action of the router carries such a message, in any state. -/
theorem routed_relayed {router after : Router} {visit : Traversal router.peers} {source : PeerId}
    {message : ProtocolMessage} {actions : List Action}
    (routed : Router.Routed router visit source message actions after) {action : Action}
    (emitted : action ∈ actions) : Relayed message action.message := by
  cases routed with
  | dropped => cases emitted
  | announced =>
    obtain ⟨_, _, _, _, _, rfl⟩ := (Router.mem_fanOut visit _ _ action).mp emitted
    exact .whole _
  | requested _ forwarded =>
    obtain ⟨id, member, target, _, rfl⟩ := (Router.mem_forwarded forwarded).mp emitted
    exact .request member
  | responded _ delivered =>
    obtain ⟨modifier, member, requester, _, rfl⟩ := (Router.mem_delivered delivered).mp emitted
    exact .response (Router.firstOccurrences_subset member)
  | syncDropped => cases emitted
  | syncPaired =>
    obtain rfl := List.mem_singleton.mp emitted
    exact .whole _
  | syncAnswered =>
    obtain rfl := List.mem_singleton.mp emitted
    exact .whole _
  | peersRequested =>
    obtain rfl := List.mem_singleton.mp emitted
    exact .noPeers
  | peersIgnored => cases emitted
  | relayed =>
    obtain ⟨_, _, _, _, _, rfl⟩ := (Router.mem_fanOut visit _ _ action).mp emitted
    exact .whole _

end ErgoProxy.Routing
