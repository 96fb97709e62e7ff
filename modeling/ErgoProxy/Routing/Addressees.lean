import ErgoProxy.Foundation.Standing
import ErgoProxy.Routing.Requests

/-!
# To whom requests were addressed

A forwarded request leaves its requester in the request tracker and its addressee in
the timing map. Both are functions of the history: the requester, respectively the
addressee, of the last forwarded request, unless an accepted response or that peer's
disconnection has removed it since. Who sent the response does not matter.

The two tables part when one end disconnects. The tracker keeps a request whose
addressee is gone, so pending requests have registered addressees only in runs in
which no peer disconnects while another peer's request to it is pending.
-/

namespace ErgoProxy.Routing

open FiniteMaps Runs Standing

namespace Entry

/-- The requester and the addressee of the request for the modifier that was forwarded. -/
def requestOf (id : ModifierId) (entry : Entry) : Option (PeerId × PeerId) :=
  match entry.call with
  | .handleEvent (.message source _) =>
    (entry.actions.find? (Action.requests id)).map fun action => (source, action.target)
  | _ => none

/-- The peer whose request for the modifier was forwarded. -/
def requester (id : ModifierId) (entry : Entry) : Option PeerId :=
  (entry.requestOf id).map Prod.fst

/-- The peer to which a request for the modifier was forwarded. -/
def addressee (id : ModifierId) (entry : Entry) : Option PeerId :=
  (entry.requestOf id).map Prod.snd

/-- The entry ends what the tables know about a peer and the modifier: it is an accepted
response with the modifier or the peer's disconnection. -/
def ends (id : ModifierId) (earlier : History) (entry : Entry) (peer : PeerId) : Bool :=
  (accepted earlier (entry.responds id)).isSome || decide (entry.disconnects peer)

end Entry

/-- The peer whose request for the modifier is pending. -/
def pendingRequester (history : History) (id : ModifierId) : Option PeerId :=
  standing (Entry.requester id) (Entry.ends id) history

/-- The peer against which the modifier's request is timed. -/
def timedAddressee (history : History) (id : ModifierId) : Option PeerId :=
  standing (Entry.addressee id) (Entry.ends id) history

/-- Every effect of a call on the request and the timing of one modifier. -/
inductive Addressed (id : ModifierId) (before : Router) (entry : Entry) (after : Router) :
    Prop where
  | kept (unrequested : entry.requestOf id = none) (connected : ∀ peer, ¬ entry.disconnects peer)
      (unanswered : ∀ source, entry.responds id = some source → source ∉ before.peers)
      (requests : after.requestTracker.lookup id = before.requestTracker.lookup id)
      (timing : after.latencyTracker.target id = before.latencyTracker.target id)
  | forwarded (requester target : PeerId) (request : entry.requestOf id = some (requester, target))
      (pending : after.requestTracker.lookup id = some requester)
      (timed : after.latencyTracker.target id = some target)
  | answered (source : PeerId) (unrequested : entry.requestOf id = none)
      (responds : entry.responds id = some source) (registered : source ∈ before.peers)
      (cleared : after.requestTracker.lookup id = none)
      (untimed : after.latencyTracker.target id = none)
  | disconnected (peer : PeerId) (reason : String)
      (gone : entry = ⟨.handleEvent (.peerDisconnected peer reason), []⟩)
      (requests : after.requestTracker.lookup id =
        (before.requestTracker.lookup id).filter fun requester => requester ≠ peer)
      (timing : after.latencyTracker.target id =
        (before.latencyTracker.target id).filter fun target => target ≠ peer)

variable {id : ModifierId} {before after router : Router} {entry : Entry} {history : History}

/-- Only a request causes requests: the router relays what it received. -/
theorem routed_unrequested {visit : Traversal before.peers} {source : PeerId}
    {message : ProtocolMessage} {actions : List Action}
    (routed : Router.Routed before visit source message actions after)
    (notRequest : ∀ modifierType ids, message ≠ .modifierRequest modifierType ids)
    (id : ModifierId) :
    Entry.requestOf id ⟨.handleEvent (.message source message), actions⟩ = none := by
  have nothing : actions.find? (Action.requests id) = none := by
    rw [List.find?_eq_none]
    intro action emitted
    have relayed := routed_relayed routed emitted
    unfold Action.requests
    split
    · rename_i modifierType ids same
      rw [same] at relayed
      cases relayed <;> exact (notRequest _ _ rfl).elim
    · exact Bool.false_ne_true
  simp [Entry.requestOf, nothing]

/-- The request loop forwards the modifier to its route, or leaves its request and its
timing alone. -/
theorem forwarded_addressed {source : PeerId} {modifierType : UInt8} {ids : List ModifierId}
    {actions : List Action}
    (forwarded : Router.Forwarded source modifierType ids before actions after) :
    Addressed id before
      ⟨.handleEvent (.message source (.modifierRequest modifierType ids)), actions⟩ after := by
  have requesting : ∀ action ∈ actions, action.requests id → id ∈ ids ∧
      before.routeFor source id = some action.target := by
    intro action sent requests
    obtain ⟨wanted, member, target, found, rfl⟩ := (Router.mem_forwarded forwarded).mp sent
    obtain rfl : id = wanted := by simpa [Action.requests] using requests
    exact ⟨member, found⟩
  cases first : actions.find? (Action.requests id) with
  | none =>
    have outside : ¬ (id ∈ ids ∧ (before.routeFor source id).isSome) := by
      rintro ⟨member, routed⟩
      obtain ⟨target, route⟩ := Option.isSome_iff_exists.mp routed
      have sent := (Router.mem_forwarded forwarded).mpr ⟨id, member, target, route, rfl⟩
      exact List.find?_eq_none.mp first _ sent (by simp [Action.requests])
    obtain ⟨requests, timing⟩ := Router.forwarded_kept forwarded outside
    exact .kept (by simp [Entry.requestOf, first]) (message_connected source _ actions)
      (by rintro _ ⟨⟩) requests timing
  | some action =>
    obtain ⟨member, route⟩ := requesting action (List.mem_of_find?_eq_some first)
      (List.find?_some first)
    exact .forwarded source action.target (by simp [Entry.requestOf, first])
      (forwarded.requested id member (by rw [route]; rfl))
      (forwarded.timed id member action.target route)

/-- The response loop answers the modifier's request, or leaves it and its timing alone. -/
theorem delivered_addressed {source : PeerId} {modifierType : UInt8}
    {modifiers : List (ModifierId × Bytes)} {actions : List Action}
    (registered : source ∈ before.peers)
    (unrequested : Entry.requestOf id
      ⟨.handleEvent (.message source (.modifierResponse modifierType modifiers)), actions⟩ = none)
    (delivered : Router.Delivered modifierType modifiers before actions after) :
    Addressed id before
      ⟨.handleEvent (.message source (.modifierResponse modifierType modifiers)), actions⟩
      after := by
  have requests := delivered.requests id
  have timing : after.latencyTracker.target id =
      if id ∈ modifiers.map Prod.fst then none else before.latencyTracker.target id := by
    rw [LatencyTracker.target, delivered.timing]
    split <;> rfl
  by_cases carried : id ∈ modifiers.map Prod.fst
  · rw [if_pos carried] at requests timing
    exact .answered source unrequested (if_pos carried) registered requests timing
  · rw [if_neg carried] at requests timing
    refine .kept unrequested (message_connected source _ actions) ?_ requests timing
    intro other responded
    cases (if_neg carried).symm.trans responded

/-- Every call has one of the four effects. -/
theorem step_addressed (taken : Step before entry after) (id : ModifierId) :
    Addressed id before entry after := by
  cases step_effect taken with
  | registered => exact .kept rfl (by rintro _ ⟨_, ⟨⟩⟩) (by rintro _ ⟨⟩) rfl rfl
  | connected => exact .kept rfl (by rintro _ ⟨_, ⟨⟩⟩) (by rintro _ ⟨⟩) rfl rfl
  | disconnected peerId reason =>
    exact .disconnected peerId reason rfl (RequestTracker.lookup_purgePeer _ _ _)
      (LatencyTracker.target_purgePeer _ _ _)
  | @message _ source message actions _ routed =>
    have connected := message_connected source message actions
    cases message with
    | modifierRequest modifierType ids =>
      cases routed with
      | dropped => exact .kept rfl connected (by rintro _ ⟨⟩) rfl rfl
      | requested _ forwarded => exact forwarded_addressed forwarded
    | modifierResponse modifierType modifiers =>
      have unrequested := routed_unrequested routed (by rintro _ _ ⟨⟩) id
      cases routed with
      | dropped unregistered =>
        refine .kept unrequested connected ?_ rfl rfl
        intro other responded
        obtain rfl : other = source := by
          by_cases carried : id ∈ modifiers.map Prod.fst
          · exact (Option.some.inj ((if_pos carried).symm.trans responded)).symm
          · cases (if_neg carried).symm.trans responded
        exact Finmap.lookup_eq_none.mp unregistered
      | responded registered delivered =>
        exact delivered_addressed (Finmap.mem_of_lookup_eq_some registered) unrequested delivered
    | _ =>
      have unrequested := routed_unrequested routed (by rintro _ _ ⟨⟩) id
      cases routed <;> exact .kept unrequested connected (by rintro _ ⟨⟩) rfl rfl

/-- A response is accepted exactly when its source is registered. -/
theorem accepted_responds (run : RouterRun history before) (source : PeerId)
    (responds : entry.responds id = some source) :
    (accepted history (entry.responds id)).isSome ↔ source ∈ before.peers := by
  rw [responds, accepted, Finmap.mem_iff, registry_history run]
  simp [Option.filter, Option.isSome_iff_exists]

/-- A filter that keeps every peer keeps what was found. -/
theorem filter_kept {found : Option PeerId} {keeps : PeerId → Bool}
    (all : ∀ peer, keeps peer = true) : found.filter keeps = found := by
  cases found with
  | none => rfl
  | some peer => simp [Option.filter, all peer]

/-- What a call that forwards no request for the modifier leaves of a table of peers:
everything that the entry does not end. -/
theorem unrequested_cleared (run : RouterRun history before) (taken : Step before entry after)
    (unrequested : entry.requestOf id = none) :
    after.requestTracker.lookup id =
        (before.requestTracker.lookup id).filter (fun peer => !entry.ends id history peer) ∧
      after.latencyTracker.target id =
        (before.latencyTracker.target id).filter fun peer => !entry.ends id history peer := by
  cases step_addressed taken id with
  | kept _ connected unanswered requests timing =>
    have nothing (peer : PeerId) : entry.ends id history peer = false := by
      have unaccepted : accepted history (entry.responds id) = none := by
        cases responded : entry.responds id with
        | none => rfl
        | some source =>
          have refused := mt (accepted_responds run source responded).mp
            (unanswered source responded)
          rw [responded] at refused
          exact Option.not_isSome_iff_eq_none.mp refused
      simp [Entry.ends, unaccepted, connected peer]
    rw [requests, timing, filter_kept fun peer => by rw [nothing]; rfl,
      filter_kept fun peer => by rw [nothing]; rfl]
    exact ⟨rfl, rfl⟩
  | forwarded requester target request => cases unrequested.symm.trans request
  | answered source _ responds registered cleared untimed =>
    have everything (peer : PeerId) : entry.ends id history peer = true := by
      simp [Entry.ends, (accepted_responds run source responds).mpr registered]
    simp only [cleared, untimed, everything]
    simp
  | disconnected peer reason gone requests timing =>
    have own (other : PeerId) : entry.ends id history other = decide (other = peer) := by
      subst gone
      simp [Entry.ends, Entry.responds, accepted, Entry.disconnects, eq_comm]
    simp only [requests, timing, own]
    simp

/-- A forwarded request leaves its requester and its addressee in the tables. -/
theorem requested_recorded (taken : Step before entry after) {asked : PeerId × PeerId}
    (request : entry.requestOf id = some asked) :
    after.requestTracker.lookup id = some asked.1 ∧
      after.latencyTracker.target id = some asked.2 := by
  cases step_addressed taken id with
  | forwarded requester target forwarded pending timed =>
    obtain rfl := Option.some.inj (forwarded.symm.trans request)
    exact ⟨pending, timed⟩
  | kept unrequested => cases unrequested.symm.trans request
  | answered _ unrequested => cases unrequested.symm.trans request
  | disconnected _ _ gone =>
    subst gone
    cases request

/-- The request tracker holds the requester of the last forwarded request. -/
theorem requester_history (run : RouterRun history router) (id : ModifierId) :
    router.requestTracker.lookup id = pendingRequester history id := by
  refine table_standing (fun reached => reached.requestTracker.lookup id) rfl ?_ ?_ run
  · intro history before entry after _ taken requester marked
    obtain ⟨asked, request, rfl⟩ := Option.map_eq_some_iff.mp marked
    exact (requested_recorded taken request).1
  · intro history before entry after earlierRun taken unmarked
    exact (unrequested_cleared earlierRun taken (Option.map_eq_none_iff.mp unmarked)).1

/-- The timing map holds the addressee of the last forwarded request. -/
theorem addressee_history (run : RouterRun history router) (id : ModifierId) :
    router.latencyTracker.target id = timedAddressee history id := by
  refine table_standing (fun reached => reached.latencyTracker.target id) rfl ?_ ?_ run
  · intro history before entry after _ taken target marked
    obtain ⟨asked, request, rfl⟩ := Option.map_eq_some_iff.mp marked
    exact (requested_recorded taken request).2
  · intro history before entry after earlierRun taken unmarked
    exact (unrequested_cleared earlierRun taken (Option.map_eq_none_iff.mp unmarked)).2

/-- Some request for the modifier was forwarded, and no response with it has been accepted
since. -/
def AwaitsResponse (history : History) (id : ModifierId) : Prop :=
  ∃ since forward earlier, history = since ++ forward :: earlier ∧
    (forward.requestOf id).isSome ∧
    ∀ later newer between, since = later ++ newer :: between →
      accepted (between ++ forward :: earlier) (newer.responds id) = none

/-- A standing requester or addressee awaits a response. -/
theorem standing_awaits {pick : PeerId × PeerId → PeerId} {peer : PeerId}
    (stands : standing (fun entry => (Entry.requestOf id entry).map pick) (Entry.ends id) history =
      some peer) : AwaitsResponse history id := by
  obtain ⟨since, forward, earlier, split, marked, -, unrevoked⟩ := standing_since stands
  refine ⟨since, forward, earlier, split, ?_, ?_⟩
  · obtain ⟨asked, request, -⟩ := Option.map_eq_some_iff.mp marked
    rw [request]
    rfl
  · intro later newer between position
    have kept := unrevoked later newer between position
    simp only [Entry.ends, Bool.or_eq_false_iff] at kept
    exact Option.isSome_eq_false_iff.mp kept.1 |> Option.isNone_iff_eq_none.mp

/-- The last forwarded request for a modifier, read off its standing requester or
addressee. -/
theorem standing_request {pick : PeerId × PeerId → PeerId} {peer : PeerId}
    (stands : standing (fun entry => (Entry.requestOf id entry).map pick) (Entry.ends id) history =
      some peer) :
    ∃ asked, history.findSome? (Entry.requestOf id) = some asked ∧ pick asked = peer := by
  obtain ⟨since, forward, earlier, split, marked, unmarked, -⟩ := standing_since stands
  obtain ⟨asked, request, picked⟩ := Option.map_eq_some_iff.mp marked
  refine ⟨asked, List.findSome?_eq_some_iff.mpr ⟨since, forward, earlier, split, request, ?_⟩,
    picked⟩
  exact fun newer member => Option.map_eq_none_iff.mp (unmarked newer member)

/-- A response is dropped, or handled by the response loop. -/
theorem response_handled (router : Router) (visit : Traversal router.peers)
    (clock : Nat → Instant) (source : PeerId) (modifierType : UInt8)
    (modifiers : List (ModifierId × Bytes)) :
    router.handleEvent visit clock (.message source (.modifierResponse modifierType modifiers)) =
      if source ∈ router.peers then Router.deliverResponses modifierType modifiers clock router
      else ([], router) := by
  simp only [Router.handleEvent, Router.routeMessage]
  cases found : router.peers.lookup source with
  | none => rw [if_neg (Finmap.lookup_eq_none.mp found)]
  | some entry => rw [if_pos (Finmap.mem_of_lookup_eq_some found)]

section Responses

variable (visit : Traversal router.peers) (clock : Nat → Instant) (source : PeerId)
  (modifierType : UInt8) (modifiers : List (ModifierId × Bytes))

/-- A response for a modifier is sent to the peer whose request is pending. -/
theorem response_pending (run : RouterRun history router) {id : ModifierId} {action : Action}
    (emitted : action ∈ (router.handleEvent visit clock
      (.message source (.modifierResponse modifierType modifiers))).1)
    (answers : action.answers id) : pendingRequester history id = some action.target := by
  rw [response_handled] at emitted
  split at emitted
  · obtain ⟨modifier, -, requester, pending, rfl⟩ :=
      (Router.mem_delivered (Router.deliver_exact modifiers clock router)).mp emitted
    obtain rfl : id = modifier.1 := by simpa [Action.answers] using answers
    rw [← requester_history run, pending]
  · cases emitted

/-- Each modifier of a response gives the peer that it is timed against one sample. -/
theorem response_samples (run : RouterRun history router) (peer : PeerId) :
    (router.handleEvent visit clock
        (.message source (.modifierResponse modifierType modifiers))).2.latencyTracker.samples peer =
      router.latencyTracker.samples peer +
        if source ∈ router.peers then
          UInt64.ofNat ((Router.firstOccurrences modifiers).countP fun modifier =>
            timedAddressee history modifier.1 = some peer)
        else 0 := by
  rw [response_handled]
  split
  · rw [Router.deliver_samples]
    simp only [addressee_history run]
  · exact (UInt64.add_zero _).symm

/-- The statistics of a peer that no modifier of a response is timed against stay. -/
theorem response_statistics (run : RouterRun history router) {peer : PeerId}
    (untimed : ∀ modifier ∈ modifiers, timedAddressee history modifier.1 ≠ some peer) :
    (router.handleEvent visit clock (.message source
        (.modifierResponse modifierType modifiers))).2.latencyTracker.peers.lookup peer =
      router.latencyTracker.peers.lookup peer := by
  rw [response_handled]
  split
  · apply Router.deliver_statistics
    simpa only [addressee_history run] using untimed
  · rfl

/-- A response changes neither tracker for a modifier that is in neither. -/
theorem response_unasked {id : ModifierId} (unasked : router.requestTracker.lookup id = none)
    (untimed : router.latencyTracker.pending.lookup id = none) :
    let after := (router.handleEvent visit clock
      (.message source (.modifierResponse modifierType modifiers))).2
    after.requestTracker.lookup id = router.requestTracker.lookup id ∧
      after.latencyTracker.pending.lookup id = router.latencyTracker.pending.lookup id := by
  have delivered : Router.Delivered modifierType modifiers router _ _ :=
    Router.deliver_exact modifiers clock router
  rw [response_handled]
  split
  · constructor
    · exact (delivered.requests id).trans (by rw [unasked, ite_self])
    · exact (delivered.timing id).trans (by rw [untimed, ite_self])
  · exact ⟨rfl, rfl⟩

end Responses

/-- In every run, when a response is handled: every response sent for a modifier goes to
the requester of the last request for it that was forwarded; every sample is credited to
the addressee of such a request, whoever responded; and for a modifier that awaits no
response nothing is sent and neither the request tracker nor the timing map changes, nor is
a sample taken. -/
theorem answers_last_request (run : RouterRun history router) (visit : Traversal router.peers)
    (clock : Nat → Instant) (source : PeerId) (modifierType : UInt8)
    (modifiers : List (ModifierId × Bytes)) :
    let outcome := router.handleEvent visit clock
      (.message source (.modifierResponse modifierType modifiers))
    (∀ id, ∀ action ∈ outcome.1, action.answers id →
      ∃ target, history.findSome? (Entry.requestOf id) = some (action.target, target)) ∧
      (∀ peer, outcome.2.latencyTracker.samples peer = router.latencyTracker.samples peer +
        if source ∈ router.peers then
          UInt64.ofNat ((Router.firstOccurrences modifiers).countP fun modifier =>
            timedAddressee history modifier.1 = some peer)
        else 0) ∧
      (∀ peer, (∀ modifier ∈ modifiers, timedAddressee history modifier.1 ≠ some peer) →
        outcome.2.latencyTracker.peers.lookup peer = router.latencyTracker.peers.lookup peer) ∧
      (∀ id peer, timedAddressee history id = some peer →
        ∃ requester, history.findSome? (Entry.requestOf id) = some (requester, peer)) ∧
      ∀ id, ¬ AwaitsResponse history id →
        (∀ action ∈ outcome.1, ¬ action.answers id) ∧
          outcome.2.requestTracker.lookup id = router.requestTracker.lookup id ∧
          outcome.2.latencyTracker.pending.lookup id = router.latencyTracker.pending.lookup id ∧
          timedAddressee history id = none := by
  intro outcome
  refine ⟨?_, response_samples visit clock source modifierType modifiers run,
    fun peer => response_statistics visit clock source modifierType modifiers run, ?_, ?_⟩
  · intro id action emitted answers
    obtain ⟨⟨requester, target⟩, latest, rfl⟩ := standing_request
      (response_pending visit clock source modifierType modifiers run emitted answers)
    exact ⟨target, latest⟩
  · intro id peer timed
    obtain ⟨⟨requester, target⟩, latest, rfl⟩ := standing_request timed
    exact ⟨requester, latest⟩
  · intro id answered
    have unasked : pendingRequester history id = none :=
      Option.eq_none_iff_forall_ne_some.mpr fun peer stands => answered (standing_awaits stands)
    have untimed : timedAddressee history id = none :=
      Option.eq_none_iff_forall_ne_some.mpr fun peer stands => answered (standing_awaits stands)
    have untouched := response_unasked visit clock source modifierType modifiers
      ((requester_history run id).trans unasked)
      (Option.map_eq_none_iff.mp ((addressee_history run id).trans untimed))
    refine ⟨fun action emitted answers => ?_, untouched.1, untouched.2, untimed⟩
    cases unasked.symm.trans
      (response_pending visit clock source modifierType modifiers run emitted answers)

section Stranger

/-! The relay scenario with a further outbound peer that nobody asked. -/

def stranger : PeerId := ⟨3⟩

def strangerPeers : Router := relayRequested.registerPeer stranger .outbound .full

def strangerVisit : Traversal strangerPeers.peers where
  order := [⟨relaySource, ⟨.outbound, .full⟩⟩, ⟨relayClient, ⟨.inbound, .full⟩⟩,
    ⟨stranger, ⟨.outbound, .full⟩⟩]
  exact := by decide

/-- In the relay scenario the stranger's response goes to the client, whose request was the
last one forwarded. -/
theorem answers_last_request_stranger :
    .send relayClient (.modifierResponse 2 [(relayId, [7])]) ∈
        (strangerPeers.handleEvent strangerVisit (fun _ => 0)
          (.message stranger (.modifierResponse 2 [(relayId, [7])]))).1 ∧
      ∃ target, (⟨.registerPeer stranger .outbound .full, []⟩ :: relayHistory).findSome?
        (Entry.requestOf relayId) = some (relayClient, target) := by
  have run : RouterRun _ strangerPeers :=
    .extend relay_run (.registerPeer _ stranger .outbound .full)
  have emitted : .send relayClient (.modifierResponse 2 [(relayId, [7])]) ∈
      (strangerPeers.handleEvent strangerVisit (fun _ => 0)
        (.message stranger (.modifierResponse 2 [(relayId, [7])]))).1 := List.mem_cons_self
  exact ⟨emitted, (answers_last_request run strangerVisit (fun _ => 0) stranger 2
    [(relayId, [7])]).1 relayId _ emitted (by decide)⟩

/-- A response can be forwarded although its sender was never asked: the request tracker
keeps who asked, not who was asked. -/
theorem stranger_answers :
    ¬ ∀ history router, RouterRun history router → ∀ visit clock source modifierType modifiers id,
      ∀ action ∈ (router.handleEvent visit clock
        (.message source (.modifierResponse modifierType modifiers))).1, action.answers id →
        ∃ forward ∈ history, forward.requestOf id = some (action.target, source) := by
  intro asked
  have run : RouterRun _ strangerPeers :=
    .extend relay_run (.registerPeer _ stranger .outbound .full)
  obtain ⟨forward, member, request⟩ := asked _ _ run strangerVisit (fun _ => 0) stranger 2
    [(relayId, [7])] relayId (.send relayClient (.modifierResponse 2 [(relayId, [7])]))
    List.mem_cons_self (by decide)
  revert request
  revert forward
  decide

end Stranger

/-- The condition on a call: a disconnection finds no other peer's request pending that is
timed against the disconnecting peer. Every other call meets it. -/
def AnsweredFirst (before : Router) (entry : Entry) : Prop :=
  ∀ peer reason, entry.call = .handleEvent (.peerDisconnected peer reason) →
    ∀ id requester, before.requestTracker.lookup id = some requester → requester ≠ peer →
      before.latencyTracker.target id ≠ some peer

/-- A call that meets the condition. -/
def AnsweredStep (before : Router) (entry : Entry) (after : Router) : Prop :=
  Step before entry after ∧ AnsweredFirst before entry

/-- Every pending request was last forwarded to a peer that is registered. -/
def AddresseesRegistered (history : History) (router : Router) : Prop :=
  ∀ id requester, router.requestTracker.lookup id = some requester →
    ∃ target, history.findSome? (Entry.requestOf id) = some (requester, target) ∧
      target ∈ router.peers

/-- Under the condition a pending request stays timed. -/
theorem step_timed (taken : AnsweredStep before entry after)
    (timed : ∀ id, (before.requestTracker.lookup id).isSome →
      (before.latencyTracker.target id).isSome) (id : ModifierId)
    (pending : (after.requestTracker.lookup id).isSome) :
    (after.latencyTracker.target id).isSome := by
  cases step_addressed taken.1 id with
  | kept _ _ _ requests timing =>
    rw [requests] at pending
    rw [timing]
    exact timed id pending
  | forwarded _ _ _ _ recorded => rw [recorded]; rfl
  | answered _ _ _ _ cleared => rw [cleared] at pending; cases pending
  | disconnected peer reason gone requests timing =>
    obtain ⟨requester, found⟩ := Option.isSome_iff_exists.mp pending
    rw [requests] at found
    obtain ⟨waiting, other⟩ := Option.filter_eq_some_iff.mp found
    obtain ⟨target, addressed⟩ := Option.isSome_iff_exists.mp
      (timed id (Option.isSome_iff_exists.mpr ⟨requester, waiting⟩))
    have stays : target ≠ peer := by
      rintro rfl
      exact taken.2 target reason (by rw [gone]) id requester waiting (of_decide_eq_true other)
        addressed
    rw [timing, addressed]
    simp [Option.filter, stays]

/-- In a run whose calls meet the condition every pending request is timed. -/
theorem run_timed (run : Run Router.new AnsweredStep history router) (id : ModifierId)
    (pending : (router.requestTracker.lookup id).isSome) :
    (router.latencyTracker.target id).isSome := by
  refine invariant (fun _ reached => ∀ id, (reached.requestTracker.lookup id).isSome →
    (reached.latencyTracker.target id).isSome) ?_ ?_ run id pending
  · intro id pending
    cases pending
  · intro _ before entry after _ timed taken
    exact step_timed taken timed

/-- A pending request that is timed was last forwarded to the registered peer it is timed
against. -/
theorem timed_registered (run : RouterRun history router) {requester target : PeerId}
    (pending : router.requestTracker.lookup id = some requester)
    (timed : router.latencyTracker.target id = some target) :
    history.findSome? (Entry.requestOf id) = some (requester, target) ∧ target ∈ router.peers := by
  refine ⟨?_, mentioned_registered run (.target id timed)⟩
  rw [requester_history run] at pending
  rw [addressee_history run] at timed
  obtain ⟨asked, latest, rfl⟩ := standing_request pending
  obtain ⟨again, same, rfl⟩ := standing_request timed
  obtain rfl := Option.some.inj (latest.symm.trans same)
  exact latest

/-- In a run whose calls meet the condition the addressees of pending requests are
registered. -/
theorem run_addressed (run : Run Router.new AnsweredStep history router) :
    AddresseesRegistered history router := by
  intro id requester pending
  obtain ⟨target, timed⟩ := Option.isSome_iff_exists.mp
    (run_timed run id (Option.isSome_iff_exists.mpr ⟨requester, pending⟩))
  exact ⟨target, timed_registered (weaken (fun _ _ _ => And.left) run) pending timed⟩

/-- In every run whose calls all meet the condition, every pending request was last
forwarded to a peer that is still registered; and the next call keeps it so exactly when it
meets the condition as well. -/
theorem addressees_registered (run : Run Router.new AnsweredStep history router) :
    AddresseesRegistered history router ∧
      ∀ entry after, Step router entry after →
        (AddresseesRegistered (entry :: history) after ↔ AnsweredFirst router entry) := by
  refine ⟨run_addressed run, ?_⟩
  intro entry after taken
  constructor
  · intro registered peer reason called id requester pending other timed
    have latest := (timed_registered (weaken (fun _ _ _ => And.left) run) pending timed).1
    obtain ⟨call, actions⟩ := entry
    obtain rfl : call = .handleEvent (.peerDisconnected peer reason) := called
    cases step_effect taken with
    | disconnected =>
      have stillPending : (router.disconnectPeer peer).requestTracker.lookup id =
          some requester := by
        rw [Router.disconnectPeer, RequestTracker.lookup_purgePeer, pending]
        simp [Option.filter, other]
      obtain ⟨target, found, known⟩ := registered id requester stillPending
      have unrequested : Entry.requestOf id
          ⟨.handleEvent (.peerDisconnected peer reason), []⟩ = none := rfl
      rw [List.findSome?_cons, unrequested, latest] at found
      cases found
      exact (Finmap.mem_erase.mp known).1 rfl
  · intro answered
    exact run_addressed (.extend run ⟨taken, answered⟩)

/-- The relay scenario meets the condition: nobody disconnects. -/
theorem relay_answered_run : Run Router.new AnsweredStep relayHistory relayRequested := by
  refine admitted relay_run fun before entry after member taken => ⟨taken, ?_⟩
  intro peer reason gone
  simp only [relayHistory, List.mem_cons, List.not_mem_nil, or_false] at member
  rcases member with rfl | rfl | rfl | rfl <;> cases gone

/-- In the relay scenario the client's request awaits a registered peer. -/
theorem addressees_registered_relay :
    relayRequested.requestTracker.lookup relayId = some relayClient ∧
      ∃ target, relayHistory.findSome? (Entry.requestOf relayId) = some (relayClient, target) ∧
        target ∈ relayRequested.peers := by
  have pending : relayRequested.requestTracker.lookup relayId = some relayClient := by decide
  exact ⟨pending, (addressees_registered relay_answered_run).1 relayId relayClient pending⟩

/-- Without the condition a request can outlive its addressee: when the announcer
disconnects, the client's request to it stays pending. -/
theorem request_outlives_addressee :
    ¬ ∀ history router, RouterRun history router → AddresseesRegistered history router := by
  intro registered
  have gone : RouterRun _ (relayRequested.disconnectPeer relaySource) := .extend relay_run
    (step_handled relayRequested relayVisit (fun _ => 0)
      (.peerDisconnected relaySource "connection closed") [] _ rfl)
  obtain ⟨target, latest, known⟩ := registered _ _ gone relayId relayClient (by decide)
  have addressed : target = relaySource := by
    have asked : (⟨.handleEvent (.peerDisconnected relaySource "connection closed"), []⟩ ::
        relayHistory).findSome? (Entry.requestOf relayId) = some (relayClient, relaySource) := by
      decide
    cases latest.symm.trans asked
    rfl
  subst addressed
  exact absurd known (by decide)

end ErgoProxy.Routing
