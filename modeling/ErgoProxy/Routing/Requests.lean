import ErgoProxy.Routing.Announcements
import ErgoProxy.Routing.References

/-!
# Pending requests over whole histories

Every call does one of four things to the request for a given modifier: it keeps
it, replaces it by a forwarded request, answers it, or purges it with its peer.
Counting and provenance of responses are derived from this classification alone.

The tracker holds a single requester for each modifier. A second peer's request
replaces the first, so requests are served one by one only in runs in which no
forwarded request finds another peer's request pending.
-/

namespace ErgoProxy.Routing

open FiniteMaps Runs

namespace Entry

/-- The peer whose message was handled. -/
def source (entry : Entry) : Option PeerId :=
  match entry.call with
  | .handleEvent (.message source _) => some source
  | _ => none

/-- The source's request for the modifier was forwarded to the target. -/
def Forwards (source : PeerId) (id : ModifierId) (target : PeerId) (entry : Entry) : Prop :=
  ∃ modifierType ids,
    entry.call = .handleEvent (.message source (.modifierRequest modifierType ids)) ∧
      id ∈ ids ∧ .send target (.modifierRequest modifierType [id]) ∈ entry.actions

/-- How many requests for the modifier were forwarded in this call. -/
def forwarded (id : ModifierId) (entry : Entry) : Nat :=
  entry.actions.countP (Action.requests id)

/-- How many requests for the modifier were forwarded on the peer's behalf. -/
def forwardedFor (peer : PeerId) (id : ModifierId) (entry : Entry) : Nat :=
  if entry.source = some peer then entry.forwarded id else 0

/-- How many responses with the modifier were sent to the peer. -/
def deliveredTo (peer : PeerId) (id : ModifierId) (entry : Entry) : Nat :=
  entry.actions.countP fun action => action.target = peer ∧ action.answers id

/-- A forwarded request counts for its source. -/
theorem forwards_counted {source target : PeerId} {id : ModifierId} {entry : Entry}
    (forwards : entry.Forwards source id target) : 0 < entry.forwardedFor source id := by
  obtain ⟨modifierType, ids, called, _, sent⟩ := forwards
  have attributed : entry.source = some source := by rw [Entry.source, called]
  rw [forwardedFor, if_pos attributed]
  exact List.countP_pos_iff.mpr ⟨_, sent, by simp [Action.requests]⟩

/-- The peer's share is at most the call's total. -/
theorem forwardedFor_le (peer : PeerId) (id : ModifierId) (entry : Entry) :
    entry.forwardedFor peer id ≤ entry.forwarded id := by
  unfold forwardedFor
  split
  · exact le_rfl
  · exact Nat.zero_le _

/-- Nothing is delivered by actions that do not carry the modifier. -/
theorem delivered_silent {id : ModifierId} {entry : Entry}
    (silent : ∀ action ∈ entry.actions, action.answers id = false) (peer : PeerId) :
    entry.deliveredTo peer id = 0 := by
  apply List.countP_eq_zero.mpr
  intro action sent
  simp [silent action sent]

end Entry

/-- How many requests for the modifier the router forwarded. -/
def forwarded (id : ModifierId) (history : History) : Nat :=
  (history.map (Entry.forwarded id)).sum

/-- How many requests for the modifier it forwarded on the peer's behalf. -/
def forwardedFor (peer : PeerId) (id : ModifierId) (history : History) : Nat :=
  (history.map (Entry.forwardedFor peer id)).sum

/-- How many responses with the modifier it sent to the peer. -/
def deliveredTo (peer : PeerId) (id : ModifierId) (history : History) : Nat :=
  (history.map (Entry.deliveredTo peer id)).sum

/-- How many responses with the modifier arrived from registered peers. -/
def responses (id : ModifierId) : History → Nat
  | [] => 0
  | entry :: earlier =>
    responses id earlier + if (accepted earlier (entry.responds id)).isSome then 1 else 0

/-- Every effect of a call on the request for one modifier. -/
inductive Tracked (id : ModifierId) (before : Router) (entry : Entry) (after : Router) : Prop where
  | kept (connected : ∀ peer, ¬ entry.disconnects peer)
      (unrequested : entry.forwarded id = 0) (undelivered : ∀ peer, entry.deliveredTo peer id = 0)
      (unanswered : ∀ source, entry.responds id = some source → source ∉ before.peers)
      (same : after.requestTracker.lookup id = before.requestTracker.lookup id)
  | forwarded {source target : PeerId} (forwards : entry.Forwards source id target)
      (registered : source ∈ before.peers) (announced : before.routeFor source id = some target)
      (undelivered : ∀ peer, entry.deliveredTo peer id = 0)
      (pending : after.requestTracker.lookup id = some source)
  | answered {source : PeerId} (responds : entry.responds id = some source)
      (registered : source ∈ before.peers) (unrequested : entry.forwarded id = 0)
      (delivered : ∀ peer, entry.deliveredTo peer id =
        if before.requestTracker.lookup id = some peer then 1 else 0)
      (cleared : after.requestTracker.lookup id = none)
  | disconnected {peer : PeerId} {reason : String}
      (gone : entry.call = .handleEvent (.peerDisconnected peer reason))
      (silent : entry.actions = [])
      (purged : after.requestTracker.lookup id =
        (before.requestTracker.lookup id).filter fun requester => requester ≠ peer)

variable {id : ModifierId} {before after : Router} {entry : Entry}

/-- A fan-out of anything but requests and responses keeps every request. -/
theorem fanOut_kept {visited : List (Σ _ : PeerId, PeerEntry)} {source : PeerId}
    {direction : Direction} {message : ProtocolMessage}
    (request : ∀ target, Action.requests id (.send target message) = false)
    (response : ∀ target, Action.answers id (.send target message) = false)
    (unanswered : ∀ actions,
      Entry.responds id ⟨.handleEvent (.message source message), actions⟩ = none)
    (same : after.requestTracker = before.requestTracker) :
    Tracked id before ⟨.handleEvent (.message source message),
      Router.fanOut visited source direction message⟩ after := by
  have carried : ∀ action ∈ Router.fanOut visited source direction message,
      ∃ target, action = .send target message := by
    intro action sent
    obtain ⟨visit, _, rfl⟩ := List.mem_map.mp sent
    exact ⟨visit.1, rfl⟩
  refine .kept (message_connected source message _) ?_ ?_ ?_
    (congrArg (fun tracker => tracker.lookup id) same)
  · apply List.countP_eq_zero.mpr
    intro action sent
    obtain ⟨target, rfl⟩ := carried action sent
    simp [request target]
  · apply Entry.delivered_silent
    intro action sent
    obtain ⟨target, rfl⟩ := carried action sent
    exact response target
  · intro other responded
    cases (unanswered _).symm.trans responded

/-- The response loop sends the modifier at most once, and only to the peer whose
request is pending. -/
theorem delivered_count {modifierType : UInt8} {modifiers : List (ModifierId × Bytes)}
    {actions : List Action} {call : Call}
    (delivered : Router.Delivered modifierType modifiers before actions after)
    (carried : id ∈ modifiers.map Prod.fst) (peer : PeerId) :
    Entry.deliveredTo peer id ⟨call, actions⟩ =
      if before.requestTracker.lookup id = some peer then 1 else 0 := by
  have once : ((Router.firstOccurrences modifiers).map Prod.fst).count id = 1 :=
    List.count_eq_one_of_mem (Router.nodup_firstOccurrences modifiers)
      ((Router.mem_firstOccurrences modifiers id).mpr carried)
  have counted (modifier : ModifierId × Bytes) :
      (((before.requestTracker.lookup modifier.1).map fun requester =>
        Action.send requester (.modifierResponse modifierType [modifier])).map fun action =>
          decide (action.target = peer ∧ action.answers id)).getD false =
        (decide (before.requestTracker.lookup id = some peer) && (modifier.1 == id)) := by
    by_cases same : modifier.1 = id
    · subst same
      cases before.requestTracker.lookup modifier.1 <;> simp [Action.answers]
    · cases before.requestTracker.lookup modifier.1 <;>
        simp [Action.answers, same, Ne.symm same]
  simp only [Entry.deliveredTo, delivered.sent, List.countP_filterMap, counted]
  by_cases pending : before.requestTracker.lookup id = some peer
  · simpa [pending, List.count, List.countP_map, Function.comp_def] using once
  · simp [pending]

/-- A request loop either forwards the modifier or leaves its request alone. -/
theorem forwarded_tracked {source : PeerId} {modifierType : UInt8} {ids : List ModifierId}
    {actions : List Action} (registered : source ∈ before.peers)
    (forwarded : Router.Forwarded source modifierType ids before actions after) :
    Tracked id before
      ⟨.handleEvent (.message source (.modifierRequest modifierType ids)), actions⟩ after := by
  have undelivered (peer : PeerId) : Entry.deliveredTo peer id
      ⟨.handleEvent (.message source (.modifierRequest modifierType ids)), actions⟩ = 0 := by
    apply Entry.delivered_silent
    intro action sent
    obtain ⟨_, _, _, _, rfl⟩ := (Router.mem_forwarded forwarded).mp sent
    rfl
  by_cases routed : id ∈ ids ∧ (before.routeFor source id).isSome
  · obtain ⟨member, routed⟩ := routed
    obtain ⟨target, found⟩ := Option.isSome_iff_exists.mp routed
    have sent := (Router.mem_forwarded forwarded).mpr ⟨id, member, target, found, rfl⟩
    exact .forwarded ⟨modifierType, ids, rfl, member, sent⟩ registered found undelivered
      (forwarded.requested id member routed)
  · refine .kept (message_connected source _ actions) ?_ undelivered (by rintro _ ⟨⟩)
      (Router.forwarded_kept forwarded routed).1
    apply List.countP_eq_zero.mpr
    intro action sent
    obtain ⟨wanted, member, target, found, rfl⟩ := (Router.mem_forwarded forwarded).mp sent
    have different : id ≠ wanted := by
      rintro rfl
      exact routed ⟨member, by rw [found]; rfl⟩
    simp [Action.requests, different]

/-- A response loop either answers the modifier's request or leaves it alone. -/
theorem delivered_tracked {source : PeerId} {modifierType : UInt8}
    {modifiers : List (ModifierId × Bytes)} {actions : List Action}
    (registered : source ∈ before.peers)
    (delivered : Router.Delivered modifierType modifiers before actions after) :
    Tracked id before
      ⟨.handleEvent (.message source (.modifierResponse modifierType modifiers)), actions⟩
      after := by
  have unrequested : Entry.forwarded id
      ⟨.handleEvent (.message source (.modifierResponse modifierType modifiers)), actions⟩ = 0 := by
    apply List.countP_eq_zero.mpr
    intro action sent
    obtain ⟨_, _, _, _, rfl⟩ := (Router.mem_delivered delivered).mp sent
    simp [Action.requests]
  have cleared := delivered.requests id
  by_cases carried : id ∈ modifiers.map Prod.fst
  · rw [if_pos carried] at cleared
    exact .answered (if_pos carried) registered unrequested (delivered_count delivered carried)
      cleared
  · rw [if_neg carried] at cleared
    refine .kept (message_connected source _ actions) unrequested ?_ ?_ cleared
    · apply Entry.delivered_silent
      intro action sent
      obtain ⟨modifier, member, requester, _, rfl⟩ := (Router.mem_delivered delivered).mp sent
      have different : id ≠ modifier.1 := by
        rintro rfl
        exact carried ((Router.mem_firstOccurrences modifiers _).mp
          (List.mem_map_of_mem member))
      simp [Action.answers, different]
    · intro other responded
      cases (if_neg carried).symm.trans responded

/-- Routing a message has one of the four effects. -/
theorem routed_tracked {visit : Traversal before.peers} {source : PeerId}
    {message : ProtocolMessage} {actions : List Action}
    (routed : Router.Routed before visit source message actions after) :
    Tracked id before ⟨.handleEvent (.message source message), actions⟩ after := by
  have connected := message_connected source message actions
  cases routed with
  | dropped unregistered =>
    refine .kept connected rfl (fun _ => rfl) ?_ rfl
    intro other responded
    have attributed : other = source := by
      cases message with
      | modifierResponse modifierType modifiers =>
        exact (Option.some.inj (ite_eq_iff.mp responded |>.elim And.right (nomatch ·.2))).symm
      | _ => cases responded
    exact attributed ▸ Finmap.lookup_eq_none.mp unregistered
  | announced => exact fanOut_kept (fun _ => rfl) (fun _ => rfl) (fun _ => rfl) rfl
  | requested registered forwarded =>
    exact forwarded_tracked (Finmap.mem_iff.mpr ⟨_, registered⟩) forwarded
  | responded registered delivered =>
    exact delivered_tracked (Finmap.mem_iff.mpr ⟨_, registered⟩) delivered
  | relayed => exact fanOut_kept (fun _ => rfl) (fun _ => rfl) (fun _ => rfl) rfl
  | _ =>
    refine .kept connected rfl ?_ nofun rfl
    intro peer
    simp [Entry.deliveredTo, Action.answers]

/-- Every call has one of the four effects. -/
theorem step_tracked (taken : Step before entry after) (id : ModifierId) :
    Tracked id before entry after := by
  cases step_effect taken with
  | registered => exact .kept (by rintro _ ⟨_, ⟨⟩⟩) rfl (fun _ => rfl) nofun rfl
  | connected => exact .kept (by rintro _ ⟨_, ⟨⟩⟩) rfl (fun _ => rfl) nofun rfl
  | disconnected peerId reason =>
    exact .disconnected rfl rfl (RequestTracker.lookup_purgePeer _ _ _)
  | message routed => exact routed_tracked routed

/-- One if the modifier's request is pending for the peer. -/
def outstanding (router : Router) (peer : PeerId) (id : ModifierId) : Nat :=
  if router.requestTracker.lookup id = some peer then 1 else 0

/-- A call delivers to a peer only what was outstanding or is newly forwarded. -/
theorem step_conserved (taken : Step before entry after) (peer : PeerId) (id : ModifierId) :
    entry.deliveredTo peer id + outstanding after peer id ≤
      entry.forwardedFor peer id + outstanding before peer id := by
  unfold outstanding
  cases step_tracked taken id with
  | kept _ _ undelivered _ same => rw [undelivered, same]; omega
  | @forwarded source target forwards _ _ undelivered pending =>
    rw [undelivered, pending]
    by_cases own : source = peer
    · subst own
      have counted := Entry.forwards_counted forwards
      rw [if_pos rfl]
      omega
    · rw [if_neg (fun same => own (Option.some.inj same))]
      omega
  | answered _ _ _ delivered cleared => simp [delivered, cleared]
  | disconnected _ silent purged =>
    have undelivered : entry.deliveredTo peer id = 0 := by rw [Entry.deliveredTo, silent]; rfl
    rw [undelivered, purged]
    split
    case isTrue kept =>
      rw [if_pos (Option.filter_eq_some_iff.mp kept).1]
      omega
    case isFalse => omega

/-- Over any part of a run, responses to a peer are bounded by the requests
forwarded on its behalf and the one outstanding at its start. -/
theorem run_conserved {initial final : Router} {history : History}
    (run : Run initial Step history final) (peer : PeerId) (id : ModifierId) :
    deliveredTo peer id history + outstanding final peer id ≤
      forwardedFor peer id history + outstanding initial peer id := by
  refine invariant (fun part reached => deliveredTo peer id part + outstanding reached peer id ≤
    forwardedFor peer id part + outstanding initial peer id) ?_ ?_ run
  · exact le_rfl
  · intro earlier before entry after _ conserved taken
    have stepwise := step_conserved taken peer id
    simp only [deliveredTo, forwardedFor, List.map_cons, List.sum_cons] at conserved ⊢
    omega

variable {history : History} {router : Router} {peer : PeerId}

/-- The peer's request for the modifier was forwarded to a peer that had announced
it, and the requester has not been disconnected since. -/
def Asked (history : History) (peer : PeerId) (id : ModifierId) : Prop :=
  ∃ since request earlier target, history = since ++ request :: earlier ∧
    request.Forwards peer id target ∧ Announced earlier id target ∧
      ∀ newer ∈ since, ¬ newer.disconnects peer

/-- An entry that does not disconnect the peer leaves its request asked. -/
theorem asked_later (asked : Asked history peer id) (connected : ¬ entry.disconnects peer) :
    Asked (entry :: history) peer id := by
  obtain ⟨since, request, earlier, target, rfl, forwards, announced, sinceConnected⟩ := asked
  refine ⟨entry :: since, request, earlier, target, rfl, forwards, announced, ?_⟩
  intro newer recorded
  rcases List.mem_cons.mp recorded with rfl | recorded
  · exact connected
  · exact sinceConnected newer recorded

/-- A call of a run keeps every pending request asked: it leaves the request alone, or
it forwards one to a peer that the history names as an announcer. -/
theorem step_asked (run : RouterRun history before) (taken : Step before entry after)
    (asked : before.requestTracker.lookup id = some peer → Asked history peer id)
    (pending : after.requestTracker.lookup id = some peer) : Asked (entry :: history) peer id := by
  cases step_tracked taken id with
  | kept connected _ _ _ same =>
    exact asked_later (asked (same.symm.trans pending)) (connected peer)
  | @forwarded source target forwards _ announced _ replaced =>
    obtain rfl : source = peer := Option.some.inj (replaced.symm.trans pending)
    rw [routeFor_history run, announcerFor] at announced
    have announcement := announcer_announced (Option.filter_eq_some_iff.mp announced).1
    refine ⟨[], entry, history, target, rfl, forwards, announcement, ?_⟩
    intro newer recorded
    exact absurd recorded List.not_mem_nil
  | answered _ _ _ _ cleared => cases cleared.symm.trans pending
  | @disconnected gonePeer reason gone _ purged =>
    obtain ⟨found, different⟩ := Option.filter_eq_some_iff.mp (purged.symm.trans pending)
    refine asked_later (asked found) ?_
    rintro ⟨otherReason, called⟩
    rw [gone] at called
    cases called
    exact absurd rfl (of_decide_eq_true different)

/-- A pending request was asked. -/
theorem pending_asked (run : RouterRun history router)
    (pending : router.requestTracker.lookup id = some peer) : Asked history peer id := by
  refine invariant (fun earlier reached => reached.requestTracker.lookup id = some peer →
    Asked earlier peer id) ?_ ?_ run pending
  · intro pending
    cases pending
  · intro earlier before entry after earlierRun asked taken
    exact step_asked earlierRun taken asked

/-- Only a peer whose request is pending is sent a response. -/
theorem delivered_pending (taken : Step before entry after)
    (delivered : 0 < entry.deliveredTo peer id) :
    before.requestTracker.lookup id = some peer := by
  by_contra absent
  cases step_tracked taken id with
  | kept _ _ undelivered => exact absurd (undelivered peer) delivered.ne'
  | forwarded _ _ _ undelivered => exact absurd (undelivered peer) delivered.ne'
  | answered _ _ _ count => exact absurd ((count peer).trans (if_neg absent)) delivered.ne'
  | disconnected _ silent =>
    rw [Entry.deliveredTo, silent] at delivered
    exact absurd delivered (Nat.lt_irrefl 0)

/-- In every run: a response with a modifier goes to a peer only while that peer is
registered and after its request for the modifier was forwarded to an announcer,
with no disconnection of the peer in between; and the peer is never sent more
responses with the modifier than requests were forwarded on its behalf. -/
theorem responses_requested (run : RouterRun history router) (peer : PeerId) (id : ModifierId) :
    (∀ entry after, Step router entry after → ∀ action ∈ entry.actions,
      action.target = peer → action.answers id →
        peer ∈ router.peers ∧ Asked history peer id) ∧
      deliveredTo peer id history ≤ forwardedFor peer id history := by
  constructor
  · intro entry after taken action sent targeted answers
    have counted : 0 < entry.deliveredTo peer id :=
      List.countP_pos_iff.mpr ⟨action, sent, by simp [targeted, answers]⟩
    have pending := delivered_pending taken counted
    exact ⟨mentioned_registered run (.requester id pending), pending_asked run pending⟩
  · have conserved := run_conserved run peer id
    have nothing : outstanding Router.new peer id = 0 := rfl
    omega

/-- The announcer's response in the relay scenario. -/
def relayResponse : ProtocolMessage := .modifierResponse 2 [(relayId, [7])]

/-- It goes to the client, which is registered and has asked. -/
theorem responses_requested_relay :
    (relayRequested.handleEvent relayVisit (fun _ => 0) (.message relaySource relayResponse)).1 =
        [.send relayClient relayResponse] ∧
      relayClient ∈ relayRequested.peers ∧ Asked relayHistory relayClient relayId := by
  have sent : (relayRequested.handleEvent relayVisit (fun _ => 0)
      (.message relaySource relayResponse)).1 = [.send relayClient relayResponse] := rfl
  have taken := Step.handleEvent relayRequested relayVisit (fun _ => 0)
    (.message relaySource relayResponse)
  exact ⟨sent, (responses_requested relay_run relayClient relayId).1 _ _ taken
    (.send relayClient relayResponse) (List.mem_singleton.mpr rfl) rfl (by decide)⟩

end ErgoProxy.Routing
