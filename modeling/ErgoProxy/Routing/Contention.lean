import ErgoProxy.Routing.Requests

/-!
# Requests of several peers for one modifier

The request tracker has one slot for each modifier. A forwarded request that finds
the slot free or its own keeps every other forwarded request answerable: in runs
of such requests, each forwarded request of a peer that stays connected is pending
or answered, and a later response answers it. A request that finds another peer's
request in the slot replaces it, and the replaced peer is not served unless it asks
again.
-/

namespace ErgoProxy.Routing

open FiniteMaps Runs

/-- The condition on a call: for each modifier that a registered peer requests and
another peer has announced, no other peer's request is pending. -/
def Uncontended (before : Router) (entry : Entry) : Prop :=
  ∀ source modifierType ids,
    entry.call = .handleEvent (.message source (.modifierRequest modifierType ids)) →
    source ∈ before.peers → ∀ id ∈ ids, (before.routeFor source id).isSome →
    before.requestTracker.lookup id = none ∨ before.requestTracker.lookup id = some source

/-- A call that meets the condition. -/
def UncontendedStep (before : Router) (entry : Entry) (after : Router) : Prop :=
  Step before entry after ∧ Uncontended before entry

/-- The peer's request for the modifier was forwarded just before the entries since,
and none of them disconnects the peer. -/
def ForwardedBefore (history since : History) (peer : PeerId) (id : ModifierId) : Prop :=
  ∃ request earlier target, history = since ++ request :: earlier ∧
    request.Forwards peer id target ∧ ∀ newer ∈ since, ¬ newer.disconnects peer

variable {history earlier later since : History} {router before after : Router} {entry : Entry}
  {peer : PeerId} {id : ModifierId}

/-- A forwarded request is the newest entry or lies before it. -/
theorem forwardedBefore_cons (asked : ForwardedBefore (entry :: earlier) since peer id) :
    (since = [] ∧ ∃ target, entry.Forwards peer id target) ∨
      ∃ newer, since = entry :: newer ∧ ForwardedBefore earlier newer peer id ∧
        ¬ entry.disconnects peer := by
  obtain ⟨request, oldest, target, split, forwards, connected⟩ := asked
  cases since with
  | nil =>
    cases split
    exact Or.inl ⟨rfl, target, forwards⟩
  | cons newest newer =>
    cases split
    refine Or.inr ⟨newer, rfl, ⟨request, oldest, target, rfl, forwards, ?_⟩,
      connected _ List.mem_cons_self⟩
    intro recorded member
    exact connected recorded (List.mem_cons_of_mem _ member)

/-- A forwarded request for the modifier is pending right after its call. -/
theorem forwards_pending {target : PeerId} (taken : Step before entry after)
    (forwards : entry.Forwards peer id target) :
    after.requestTracker.lookup id = some peer := by
  have counted := (Entry.forwards_counted forwards).trans_le (Entry.forwardedFor_le peer id entry)
  obtain ⟨modifierType, ids, called, member, sent⟩ := forwards
  cases step_tracked taken id with
  | kept _ unrequested => omega
  | @forwarded source other otherForwards _ _ _ pending =>
    obtain ⟨_, _, otherCalled, _⟩ := otherForwards
    rw [called] at otherCalled
    cases otherCalled
    exact pending
  | answered _ _ unrequested => omega
  | disconnected gone => cases called.symm.trans gone

/-- A pending request stays pending or is answered by a call that meets the
condition and does not disconnect the peer. -/
theorem pending_step (taken : UncontendedStep before entry after)
    (pending : before.requestTracker.lookup id = some peer)
    (connected : ¬ entry.disconnects peer) :
    after.requestTracker.lookup id = some peer ∨ 0 < entry.deliveredTo peer id := by
  cases step_tracked taken.1 id with
  | kept _ _ _ _ same => exact Or.inl (same.trans pending)
  | @forwarded source target forwards registered announced _ replaced =>
    obtain ⟨modifierType, ids, called, member, _⟩ := forwards
    have routed : (before.routeFor source id).isSome := by rw [announced]; rfl
    rcases taken.2 source modifierType ids called registered id member routed with free | own
    · cases free.symm.trans pending
    · exact Or.inl (replaced.trans (own.symm.trans pending))
  | answered _ _ _ delivered =>
    rw [delivered, if_pos pending]
    exact Or.inr Nat.one_pos
  | @disconnected gonePeer reason gone _ purged =>
    have different : peer ≠ gonePeer := by
      rintro rfl
      exact connected ⟨reason, gone⟩
    exact Or.inl (purged.trans (Option.filter_eq_some_iff.mpr ⟨pending, by simpa using different⟩))

/-- Deliveries add up over the newest entry. -/
theorem deliveredTo_cons (entry : Entry) (earlier : History) :
    deliveredTo peer id (entry :: earlier) =
      entry.deliveredTo peer id + deliveredTo peer id earlier := rfl

/-- In runs that meet the condition, a forwarded request of a connected peer is
pending or has been answered. -/
theorem forwarded_pending (run : Run Router.new UncontendedStep history router)
    (asked : ForwardedBefore history since peer id) :
    router.requestTracker.lookup id = some peer ∨ 0 < deliveredTo peer id since := by
  induction run generalizing since with
  | start =>
    obtain ⟨request, earlier, target, split, _⟩ := asked
    simp at split
  | extend earlierRun taken inductionHypothesis =>
    rcases forwardedBefore_cons asked with ⟨rfl, target, forwards⟩ | ⟨newer, rfl, asked, connected⟩
    · exact Or.inl (forwards_pending taken.1 forwards)
    · rw [deliveredTo_cons]
      rcases inductionHypothesis asked with pending | delivered
      · rcases pending_step taken pending connected with pending | delivered
        · exact Or.inl pending
        · exact Or.inr (by omega)
      · exact Or.inr (by omega)

/-- An accepted response carrying the modifier is delivered to the peer whose
request is pending. -/
theorem response_delivered (run : RouterRun earlier before) (taken : Step before entry after)
    (arrived : (accepted earlier (entry.responds id)).isSome)
    (pending : before.requestTracker.lookup id = some peer) :
    0 < entry.deliveredTo peer id := by
  obtain ⟨source, kept⟩ := Option.isSome_iff_exists.mp arrived
  obtain ⟨responded, known⟩ := Option.filter_eq_some_iff.mp kept
  have registered : source ∈ before.peers := by
    rw [← registry_history run source] at known
    exact Finmap.lookup_isSome.mp known
  cases step_tracked taken id with
  | kept _ _ _ unanswered => exact absurd registered (unanswered source responded)
  | forwarded forwards =>
    obtain ⟨_, _, called, _⟩ := forwards
    rw [Entry.responds, called] at responded
    cases responded
  | answered _ _ _ delivered =>
    rw [delivered, if_pos pending]
    exact Nat.one_pos
  | disconnected gone =>
    rw [Entry.responds, gone] at responded
    cases responded

/-- In runs that meet the condition, a forwarded request of a connected peer has
been answered once any response with the modifier has arrived since. -/
theorem forwarded_answered (run : Run Router.new UncontendedStep history router)
    (split : history = since ++ earlier) (asked : ForwardedBefore history since peer id)
    (arrived : responses id earlier < responses id history) :
    0 < deliveredTo peer id since := by
  induction run generalizing since with
  | start =>
    obtain ⟨request, oldest, target, found, _⟩ := asked
    simp at found
  | @extend older before after entry olderRun taken inductionHypothesis =>
    rcases forwardedBefore_cons asked with ⟨rfl, target, forwards⟩ | ⟨newer, rfl, asked, connected⟩
    · rw [split] at arrived
      exact absurd arrived (lt_irrefl _)
    · rw [deliveredTo_cons]
      have olderSplit : older = newer ++ earlier := (List.cons.inj split).2
      by_cases before : responses id earlier < responses id older
      · have delivered := inductionHypothesis olderSplit asked before
        omega
      · have newest : (accepted older (entry.responds id)).isSome := by
          by_contra absent
          rw [responses, if_neg absent] at arrived
          exact before arrived
        rcases forwarded_pending olderRun asked with pending | delivered
        · have delivered := response_delivered (weaken (fun _ _ _ => And.left) olderRun) taken.1
            newest pending
          omega
        · omega

/-- Responses only accumulate. -/
theorem responses_append_le (id : ModifierId) (later earlier : History) :
    responses id earlier ≤ responses id (later ++ earlier) := by
  induction later with
  | nil => exact le_rfl
  | cons entry later inductionHypothesis =>
    rw [List.cons_append, responses]
    omega

/-- A history with a forwarded request counts it. -/
theorem forwardedBefore_counted (asked : ForwardedBefore history since peer id) :
    0 < forwarded id history := by
  obtain ⟨request, earlier, target, rfl, forwards, _⟩ := asked
  have counted := (Entry.forwards_counted forwards).trans_le
    (Entry.forwardedFor_le peer id request)
  simp only [forwarded, List.map_append, List.map_cons, List.sum_append, List.sum_cons]
  omega

/-- A forwarded request of a peer that stays connected is answered if later at least
as many responses with the modifier arrive as requests for it were forwarded. -/
theorem forwarded_served (run : Run Router.new UncontendedStep (later ++ earlier) router)
    (asked : ForwardedBefore earlier since peer id)
    (connected : ∀ newer ∈ later, ¬ newer.disconnects peer)
    (enough : responses id earlier + forwarded id earlier ≤ responses id (later ++ earlier)) :
    0 < deliveredTo peer id (later ++ since) := by
  have counted := forwardedBefore_counted asked
  obtain ⟨request, older, target, rfl, forwards, sinceConnected⟩ := asked
  have accumulated := responses_append_le id since (request :: older)
  have split : later ++ (since ++ request :: older) = (later ++ since) ++ request :: older :=
    (List.append_assoc later since _).symm
  refine forwarded_answered run split ⟨request, older, target, split, forwards, ?_⟩ (by omega)
  intro newer recorded
  exact (List.mem_append.mp recorded).elim (connected newer) (sinceConnected newer)

/-- In every run whose forwarded requests find no other peer's request for the same
modifier: when the requests of two peers have been forwarded and, with both still
connected, as many responses with the modifier arrive as requests were forwarded,
each of the two is sent a response after its request.

The condition cannot be dropped at any call: a request forwarded over another
peer's pending request ends all responses to that peer until it asks again. -/
theorem requests_served (run : Run Router.new UncontendedStep history router) :
    (∀ id first second later earlier sinceFirst sinceSecond, first ≠ second →
      history = later ++ earlier → ForwardedBefore earlier sinceFirst first id →
      ForwardedBefore earlier sinceSecond second id →
      (∀ newer ∈ later, ¬ newer.disconnects first ∧ ¬ newer.disconnects second) →
      responses id earlier + forwarded id earlier ≤ responses id history →
      0 < deliveredTo first id (later ++ sinceFirst) ∧
        0 < deliveredTo second id (later ++ sinceSecond)) ∧
      (∀ entry after, Step router entry after → ∀ id first second target, first ≠ second →
        router.requestTracker.lookup id = some first → entry.Forwards second id target →
        ∀ later final, Run after Step later final → forwardedFor first id later = 0 →
          deliveredTo first id later = 0) := by
  constructor
  · rintro id first second later earlier sinceFirst sinceSecond _ rfl askedFirst askedSecond
      connected enough
    exact ⟨forwarded_served run askedFirst (fun newer member => (connected newer member).1) enough,
      forwarded_served run askedSecond (fun newer member => (connected newer member).2) enough⟩
  · intro entry after taken id first second target distinct _ forwards later final laterRun silent
    have replaced := forwards_pending taken forwards
    have conserved := run_conserved laterRun first id
    have nothing : outstanding after first id = 0 := by
      rw [outstanding, replaced, if_neg fun same => distinct (Option.some.inj same).symm]
    omega

section SharedModifier

/-! One outbound peer announces a modifier and two inbound peers ask for it. -/

def sharedSource : PeerId := ⟨1⟩
def sharedFirst : PeerId := ⟨2⟩
def sharedSecond : PeerId := ⟨3⟩

/-- All three peers are registered. -/
def sharedPeers : Router :=
  ((Router.new.registerPeer sharedSource .outbound .full).registerPeer sharedFirst .inbound
    .full).registerPeer sharedSecond .inbound .full

def sharedVisit : Traversal sharedPeers.peers where
  order := [⟨sharedSource, ⟨.outbound, .full⟩⟩, ⟨sharedFirst, ⟨.inbound, .full⟩⟩,
    ⟨sharedSecond, ⟨.inbound, .full⟩⟩]
  exact := by decide

def sharedRegistrations : History :=
  [⟨.registerPeer sharedSecond .inbound .full, []⟩, ⟨.registerPeer sharedFirst .inbound .full, []⟩,
    ⟨.registerPeer sharedSource .outbound .full, []⟩]

def sharedInv : Entry :=
  ⟨.handleEvent (.message sharedSource (.inv 2 [relayId])),
    [.send sharedFirst (.inv 2 [relayId]), .send sharedSecond (.inv 2 [relayId])]⟩

/-- The request of a peer, forwarded to the announcer. -/
def sharedRequest (peer : PeerId) : Entry :=
  ⟨.handleEvent (.message peer (.modifierRequest 2 [relayId])),
    [.send sharedSource (.modifierRequest 2 [relayId])]⟩

/-- The announcer's response, sent to the given peers. -/
def sharedResponse (peers : List PeerId) : Entry :=
  ⟨.handleEvent (.message sharedSource relayResponse), peers.map fun peer =>
    .send peer relayResponse⟩

/-- The router after the announcement, with any pending requests and timings. -/
def sharedState (requests : RequestTracker) (latency : LatencyTracker) : Router :=
  { sharedPeers with
    invTable := InvTable.new.record relayId sharedSource
    requestTracker := requests
    latencyTracker := latency }

/-- Either inbound peer's request is forwarded and takes the modifier's slot. -/
theorem shared_requested (requests : RequestTracker) (latency : LatencyTracker) {peer : PeerId}
    (inbound : peer = sharedFirst ∨ peer = sharedSecond) :
    Step (sharedState requests latency) (sharedRequest peer)
      (sharedState (requests.record relayId peer)
        (latency.recordRequest relayId sharedSource 0)) := by
  rcases inbound with rfl | rfl <;>
    exact step_handled (sharedState requests latency) sharedVisit (fun _ => 0) _ _ _ rfl

/-- The announcer's response goes to the slot's peer and empties the slot. -/
theorem shared_responded (requests : RequestTracker) (latency : LatencyTracker) :
    Step (sharedState requests latency) (sharedResponse (requests.lookup relayId).toList)
      (sharedState (requests.fulfill relayId).2 (latency.recordResponse relayId 0).2) := by
  apply step_handled (sharedState requests latency) sharedVisit (fun _ => 0)
  change Router.deliverResponses 2 [(relayId, [7])] (fun _ => 0) (sharedState requests latency) = _
  have slot : (sharedState requests latency).requestTracker = requests := rfl
  rw [Router.deliver_cons, slot]
  cases requests.lookup relayId <;> rfl

/-- A call that is not a request meets the condition. -/
theorem uncontended_other (other : ∀ source modifierType ids,
    entry.call ≠ .handleEvent (.message source (.modifierRequest modifierType ids))) :
    Uncontended before entry := by
  intro source modifierType ids called
  exact absurd called (other source modifierType ids)

/-- A shared request meets the condition if no other peer's request is pending. -/
theorem uncontended_request (free : before.requestTracker.lookup relayId = none) :
    Uncontended before (sharedRequest peer) := by
  intro source modifierType ids called registered id member routed
  cases called
  obtain rfl : id = relayId := List.mem_singleton.mp member
  exact Or.inl free

/-- The announcement reaches both inbound peers. -/
theorem shared_announced :
    Run Router.new UncontendedStep (sharedInv :: sharedRegistrations) (sharedState .new .new) := by
  have registered : Run Router.new UncontendedStep sharedRegistrations sharedPeers :=
    .extend (.extend (.extend .start
      ⟨.registerPeer _ sharedSource .outbound .full, uncontended_other (by rintro _ _ _ ⟨⟩)⟩)
      ⟨.registerPeer _ sharedFirst .inbound .full, uncontended_other (by rintro _ _ _ ⟨⟩)⟩)
      ⟨.registerPeer _ sharedSecond .inbound .full, uncontended_other (by rintro _ _ _ ⟨⟩)⟩
  exact .extend registered ⟨step_handled sharedPeers sharedVisit (fun _ => 0)
    (.message sharedSource (.inv 2 [relayId])) _ (sharedState .new .new) rfl,
    uncontended_other (by rintro _ _ _ ⟨⟩)⟩

/-- A shared request was forwarded before the entries since. -/
theorem shared_forwarded (split : history = since ++ sharedRequest peer :: earlier)
    (connected : ∀ newer ∈ since, ¬ newer.disconnects peer) :
    ForwardedBefore history since peer relayId :=
  ⟨sharedRequest peer, earlier, sharedSource, split,
    ⟨2, [relayId], rfl, List.mem_singleton_self _, List.mem_singleton_self _⟩, connected⟩

/-- The history in which the second peer asks after the first has been answered. -/
def sharedInTurn : History :=
  sharedRequest sharedSecond :: sharedResponse [sharedFirst] :: sharedRequest sharedFirst ::
    sharedInv :: sharedRegistrations

/-- The modifier then arrives twice more; this is a run that meets the condition. -/
theorem shared_in_turn : ∃ router, Run Router.new UncontendedStep
    ([sharedResponse [], sharedResponse [sharedSecond]] ++ sharedInTurn) router := by
  have firstAsked := Run.extend shared_announced
    ⟨shared_requested .new .new (Or.inl rfl), uncontended_request (by decide)⟩
  have firstServed := Run.extend firstAsked
    ⟨shared_responded _ _, uncontended_other (by rintro _ _ _ ⟨⟩)⟩
  have secondAsked := Run.extend firstServed
    ⟨shared_requested _ _ (Or.inr rfl), uncontended_request (by decide)⟩
  have secondServed := Run.extend secondAsked
    ⟨shared_responded _ _, uncontended_other (by rintro _ _ _ ⟨⟩)⟩
  exact ⟨_, .extend secondServed ⟨shared_responded _ _, uncontended_other (by rintro _ _ _ ⟨⟩)⟩⟩

/-- Both peers are served after their requests. -/
theorem requests_served_in_turn :
    0 < deliveredTo sharedFirst relayId [sharedResponse [], sharedResponse [sharedSecond],
        sharedRequest sharedSecond, sharedResponse [sharedFirst]] ∧
      0 < deliveredTo sharedSecond relayId
        [sharedResponse [], sharedResponse [sharedSecond]] := by
  obtain ⟨router, run⟩ := shared_in_turn
  exact (requests_served run).1 relayId sharedFirst sharedSecond _ sharedInTurn
    [sharedRequest sharedSecond, sharedResponse [sharedFirst]] [] (by decide) rfl
    (shared_forwarded rfl (by decide)) (shared_forwarded rfl (by decide)) (by decide) (by decide)

/-- Without the condition a forwarded request is lost: when both peers ask before
the modifier arrives twice, only the second is served. -/
theorem contended_request_lost :
    ¬ ∀ history router id first second later earlier sinceFirst sinceSecond,
      RouterRun history router → first ≠ second → history = later ++ earlier →
      ForwardedBefore earlier sinceFirst first id →
      ForwardedBefore earlier sinceSecond second id →
      (∀ newer ∈ later, ¬ newer.disconnects first ∧ ¬ newer.disconnects second) →
      responses id earlier + forwarded id earlier ≤ responses id history →
      0 < deliveredTo first id history ∧ 0 < deliveredTo second id history := by
  intro served
  have announced : RouterRun _ _ := weaken (fun _ _ _ => And.left) shared_announced
  have firstAsked := Run.extend announced (shared_requested .new .new (Or.inl rfl))
  have secondAsked := Run.extend firstAsked (shared_requested _ _ (Or.inr rfl))
  have answered := Run.extend secondAsked (shared_responded _ _)
  have again := Run.extend answered (shared_responded _ _)
  have delivered := (served _ _ relayId sharedFirst sharedSecond
    [sharedResponse [], sharedResponse [sharedSecond]]
    (sharedRequest sharedSecond :: sharedRequest sharedFirst :: sharedInv :: sharedRegistrations)
    [sharedRequest sharedSecond] [] again (by decide) rfl
    (shared_forwarded rfl (by decide)) (shared_forwarded rfl (by decide))
    (by decide) (by decide)).1
  exact absurd delivered (by decide)

end SharedModifier

end ErgoProxy.Routing
