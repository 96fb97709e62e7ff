import ErgoProxy.Routing.References

/-!
# Requests follow the announcement history

The inventory table is a function of the history: for each modifier it holds the
source of the last accepted announcement, as long as that peer has not been
disconnected since. An announcement is accepted when its source is registered at
that time. The request loop reads nothing else, so the targets of a request are
determined by the history alone.

The table keeps one announcer for each modifier. A later announcement replaces it, and when
the later announcer is disconnected, the earlier one is not remembered.
-/

namespace ErgoProxy.Routing

open FiniteMaps Runs

namespace Entry

instance (peer : PeerId) (entry : Entry) : Decidable (entry.disconnects peer) :=
  match entry with
  | ⟨.handleEvent (.peerDisconnected gone reason), _⟩ =>
    if same : gone = peer then
      isTrue ⟨reason, same ▸ rfl⟩
    else
      isFalse (by rintro ⟨_, ⟨⟩⟩; exact same rfl)
  | ⟨.registerPeer .., _⟩ => isFalse (by rintro ⟨_, ⟨⟩⟩)
  | ⟨.handleEvent (.peerConnected ..), _⟩ => isFalse (by rintro ⟨_, ⟨⟩⟩)
  | ⟨.handleEvent (.message ..), _⟩ => isFalse (by rintro ⟨_, ⟨⟩⟩)

end Entry

/-- Keep the source of a message only if it was registered by then. -/
def accepted (earlier : History) (source : Option PeerId) : Option PeerId :=
  source.filter fun peer => (registration earlier peer).isSome

/-- The source of the last accepted announcement of a modifier, with the entries
recorded since. -/
def lastAnnouncement (id : ModifierId) : History → Option (PeerId × History)
  | [] => none
  | entry :: earlier =>
    match accepted earlier (entry.announces id) with
    | some source => some (source, [])
    | none => (lastAnnouncement id earlier).map fun last => (last.1, entry :: last.2)

/-- The last accepted announcer of a modifier, unless it has been disconnected
since its announcement. -/
def announcer (history : History) (id : ModifierId) : Option PeerId :=
  ((lastAnnouncement id history).filter fun last =>
    ∀ newer ∈ last.2, ¬ newer.disconnects last.1).map Prod.fst

/-- The last announcer, unless the requester is that peer itself. -/
def announcerFor (history : History) (source : PeerId) (id : ModifierId) : Option PeerId :=
  (announcer history id).filter fun peer => peer ≠ source

/-- The peer announced the modifier at some point, while it was registered. -/
def Announced (history : History) (id : ModifierId) (peer : PeerId) : Prop :=
  ∃ since announcement earlier, history = since ++ announcement :: earlier ∧
    accepted earlier (announcement.announces id) = some peer

variable {history earlier : History} {entry : Entry} {id : ModifierId} {source : PeerId}

/-- The last announcement is an announcement. -/
theorem lastAnnouncement_announced {since : History}
    (last : lastAnnouncement id history = some (source, since)) :
    Announced history id source := by
  induction history generalizing since with
  | nil => cases last
  | cons entry earlier inductionHypothesis =>
    rw [lastAnnouncement] at last
    cases newest : accepted earlier (entry.announces id) with
    | some announcing =>
      rw [newest] at last
      cases last
      exact ⟨[], entry, earlier, rfl, newest⟩
    | none =>
      simp only [newest, Option.map_eq_some_iff] at last
      obtain ⟨⟨announcing, newer⟩, found, same⟩ := last
      cases same
      obtain ⟨newer, announcement, oldest, split, announced⟩ := inductionHypothesis found
      exact ⟨entry :: newer, announcement, oldest, by rw [split, List.cons_append], announced⟩

/-- A current announcer announced the modifier. -/
theorem announcer_announced (current : announcer history id = some source) :
    Announced history id source := by
  obtain ⟨⟨announcing, since⟩, found, rfl⟩ := Option.map_eq_some_iff.mp current
  exact lastAnnouncement_announced (Option.filter_eq_some_iff.mp found).1

/-- An accepted announcement makes its source the announcer. -/
theorem announcer_accepted (announced : accepted earlier (entry.announces id) = some source) :
    announcer (entry :: earlier) id = some source := by
  simp [announcer, lastAnnouncement, announced, Option.filter]

/-- Any other entry can only remove the announcer, by disconnecting it. -/
theorem announcer_other (silent : accepted earlier (entry.announces id) = none) :
    announcer (entry :: earlier) id =
      (announcer earlier id).filter fun peer => ¬ entry.disconnects peer := by
  unfold announcer
  simp only [lastAnnouncement, silent]
  cases lastAnnouncement id earlier with
  | none => rfl
  | some last =>
    obtain ⟨announcing, since⟩ := last
    by_cases connected : ∀ newer ∈ since, ¬ newer.disconnects announcing
    · by_cases gone : entry.disconnects announcing <;>
        simp [Option.filter, if_pos connected, gone]
    · have gone : ∃ newer ∈ since, newer.disconnects announcing := by
        simpa only [not_forall, not_not, exists_prop] using connected
      simp [Option.filter, if_neg connected, gone]

/-- An entry that is neither an announcement nor a disconnection changes nothing. -/
theorem announcer_unchanged (silent : accepted earlier (entry.announces id) = none)
    (connected : ∀ peer, ¬ entry.disconnects peer) :
    announcer (entry :: earlier) id = announcer earlier id := by
  rw [announcer_other silent]
  cases announcer earlier id with
  | none => rfl
  | some peer => simp [Option.filter, connected peer]

/-- Nothing is accepted from an unregistered peer. -/
theorem dropped_unaccepted {message : ProtocolMessage} {actions : List Action}
    (unregistered : registration earlier source = none) :
    accepted earlier
      (Entry.announces id ⟨.handleEvent (.message source message), actions⟩) = none := by
  cases message with
  | inv modifierType ids =>
    by_cases announced : id ∈ ids <;>
      simp [accepted, Entry.announces, announced, Option.filter, unregistered]
  | _ => rfl

/-- A registered peer's announcement is accepted for exactly its identifiers. -/
theorem announced_accepted {modifierType : UInt8} {ids : List ModifierId} {actions : List Action}
    {registered : PeerEntry} (found : registration earlier source = some registered) :
    accepted earlier
      (Entry.announces id ⟨.handleEvent (.message source (.inv modifierType ids)), actions⟩) =
        if id ∈ ids then some source else none := by
  by_cases announced : id ∈ ids <;>
    simp [accepted, Entry.announces, announced, Option.filter, found]

/-- A handled message disconnects nobody. -/
theorem message_connected (source : PeerId) (message : ProtocolMessage) (actions : List Action)
    (peer : PeerId) : ¬ Entry.disconnects peer ⟨.handleEvent (.message source message), actions⟩ := by
  rintro ⟨_, ⟨⟩⟩

/-- A call of a run keeps the inventory table that of the history. Only announcements
write it and only disconnections remove from it. -/
theorem step_inventory {before after : Router} (run : RouterRun history before)
    (taken : Step before entry after) (id : ModifierId)
    (inventory : before.invTable.lookup id = announcer history id) :
    after.invTable.lookup id = announcer (entry :: history) id := by
  have registry := registry_history run
  cases step_effect taken with
  | registered peerId direction mode =>
    rw [announcer_unchanged rfl (by rintro peer ⟨_, ⟨⟩⟩)]
    exact inventory
  | connected peerId spec direction =>
    rw [announcer_unchanged rfl (by rintro peer ⟨_, ⟨⟩⟩)]
    exact inventory
  | disconnected peerId reason =>
    rw [announcer_other rfl, Router.disconnectPeer, InvTable.lookup_purgePeer, inventory]
    congr 1
    funext peer
    simp [Entry.disconnects, eq_comm]
  | @message _ source message actions _ routed =>
    cases routed with
    | dropped unregistered =>
      rw [registry] at unregistered
      rw [announcer_unchanged (dropped_unaccepted unregistered) (message_connected source _ _)]
      exact inventory
    | @announced modifierType ids peerEntry registered =>
      rw [registry] at registered
      rw [Router.lookup_recordAll]
      by_cases announced : id ∈ ids
      · rw [if_pos announced, announcer_accepted
          ((announced_accepted registered).trans (if_pos announced))]
      · rw [if_neg announced, announcer_unchanged
          ((announced_accepted registered).trans (if_neg announced))
          (message_connected source _ _)]
        exact inventory
    | requested _ forwarded =>
      rw [announcer_unchanged rfl (message_connected source _ _), forwarded.inventory]
      exact inventory
    | responded _ delivered =>
      rw [announcer_unchanged rfl (message_connected source _ _), delivered.inventory]
      exact inventory
    | _ =>
      rw [announcer_unchanged rfl (message_connected source _ _)]
      exact inventory

/-- The inventory table is determined by the history. -/
theorem inventory_history {router : Router} (run : RouterRun history router) (id : ModifierId) :
    router.invTable.lookup id = announcer history id := by
  refine invariant (fun earlier before => before.invTable.lookup id = announcer earlier id)
    ?_ ?_ run
  · rfl
  · intro earlier before entry after earlierRun inventory taken
    exact step_inventory earlierRun taken id inventory

/-- The router's routes are those of the history. -/
theorem routeFor_history {router : Router} (run : RouterRun history router) (source : PeerId)
    (id : ModifierId) : router.routeFor source id = announcerFor history source id := by
  rw [Router.routeFor, announcerFor, inventory_history run]

/-- A registered peer's request has the effect of the request loop. -/
theorem request_forwarded {router : Router} (registered : source ∈ router.peers)
    (visit : Traversal router.peers) (clock : Nat → Instant) (modifierType : UInt8)
    (ids : List ModifierId) :
    Router.Forwarded source modifierType ids router
      (router.handleEvent visit clock (.message source (.modifierRequest modifierType ids))).1
      (router.handleEvent visit clock (.message source (.modifierRequest modifierType ids))).2 := by
  obtain ⟨peerEntry, found⟩ := Finmap.mem_iff.mp registered
  have handled : router.handleEvent visit clock
      (.message source (.modifierRequest modifierType ids)) =
        Router.forwardRequests source modifierType ids clock router := by
    simp only [Router.handleEvent, Router.routeMessage, found]
  rw [handled]
  exact Router.forward_exact ids clock router

/-- In every run, a request of a registered peer is forwarded, in order, once for
each occurrence of an identifier whose last accepted announcer is another peer
that has not been disconnected since; it goes to that announcer. A forwarded
identifier is then pending for the requester, and every other identifier keeps
its pending request and its pending timing. -/
theorem requests_follow_announcements {router : Router} (run : RouterRun history router)
    (registered : source ∈ router.peers) (visit : Traversal router.peers)
    (clock : Nat → Instant) (modifierType : UInt8) (ids : List ModifierId) :
    (router.handleEvent visit clock (.message source (.modifierRequest modifierType ids))).1 =
        (ids.filterMap fun id => (announcerFor history source id).map fun target =>
          .send target (.modifierRequest modifierType [id])) ∧
      (∀ id, id ∉ ids ∨ announcerFor history source id = none →
        let after := (router.handleEvent visit clock
          (.message source (.modifierRequest modifierType ids))).2
        after.requestTracker.lookup id = router.requestTracker.lookup id ∧
          after.latencyTracker.pending.lookup id = router.latencyTracker.pending.lookup id) ∧
      (router.handleEvent visit clock
        (.message source (.modifierRequest modifierType ids))).2.latencyTracker.peers =
          router.latencyTracker.peers ∧
      (∀ id ∈ ids, (announcerFor history source id).isSome →
        (router.handleEvent visit clock (.message source
          (.modifierRequest modifierType ids))).2.requestTracker.lookup id = some source) := by
  have forwarded := request_forwarded registered visit clock modifierType ids
  simp only [← routeFor_history run]
  exact ⟨forwarded.sent, forwarded.others, forwarded.samples, forwarded.requested⟩

/-- In the relay scenario the client's repeated request goes to the announcer. -/
theorem requests_follow_announcements_relay :
    announcerFor relayHistory relayClient relayId = some relaySource ∧
      (relayRequested.handleEvent relayVisit (fun _ => 0)
        (.message relayClient (.modifierRequest 2 [relayId, relayId]))).1 =
          [.send relaySource (.modifierRequest 2 [relayId]),
            .send relaySource (.modifierRequest 2 [relayId])] := by
  have announced : announcerFor relayHistory relayClient relayId = some relaySource := by decide
  have registered : relayClient ∈ relayRequested.peers := by decide
  have sent := (requests_follow_announcements relay_run registered relayVisit (fun _ => 0) 2
    [relayId, relayId]).1
  simp only [List.filterMap_cons, announced, Option.map_some, List.filterMap_nil] at sent
  exact ⟨announced, sent⟩

/-- The announcer is the source of the last accepted announcement, if it stayed connected. -/
theorem announcer_iff : announcer history id = some source ↔
    ∃ since, lastAnnouncement id history = some (source, since) ∧
      ∀ newer ∈ since, ¬ newer.disconnects source := by
  unfold announcer
  rw [Option.map_eq_some_iff]
  constructor
  · rintro ⟨⟨last, since⟩, found, rfl⟩
    obtain ⟨latest, connected⟩ := Option.filter_eq_some_iff.mp found
    exact ⟨since, latest, of_decide_eq_true connected⟩
  · rintro ⟨since, latest, connected⟩
    exact ⟨(source, since), Option.filter_eq_some_iff.mpr ⟨latest, decide_eq_true connected⟩, rfl⟩

/-- A peer stays the announcer while it stays connected and nobody else's announcement is
accepted. Induct over the entries since its announcement. -/
theorem announcer_kept {announcement : Entry} (since : History)
    (announced : accepted earlier (announcement.announces id) = some source)
    (connected : ∀ newer ∈ since, ¬ newer.disconnects source)
    (unrivalled : ∀ later newer between, since = later ++ newer :: between → ∀ rival,
      accepted (between ++ announcement :: earlier) (newer.announces id) = some rival →
      rival = source) :
    announcer (since ++ announcement :: earlier) id = some source := by
  induction since with
  | nil => exact announcer_accepted announced
  | cons newest since inductionHypothesis =>
    have kept := inductionHypothesis
      (fun newer member => connected newer (List.mem_cons_of_mem _ member))
      (fun later newer between split => unrivalled (newest :: later) newer between
        (by rw [split, List.cons_append]))
    rw [List.cons_append]
    cases newestAnnounced :
        accepted (since ++ announcement :: earlier) (newest.announces id) with
    | none =>
      rw [announcer_other newestAnnounced, kept]
      simp [Option.filter, connected newest List.mem_cons_self]
    | some rival =>
      rw [announcer_accepted newestAnnounced, unrivalled [] newest since rfl rival newestAnnounced]

/-- In every run, a request of a registered peer is forwarded to a registered peer other
than the requester that has announced the modifier exactly when the last accepted
announcement came from a peer other than the requester that has not been disconnected
since. In particular it is forwarded to a peer that announced the modifier while it was
registered and stayed connected, unless the announcement of another peer was accepted
since. -/
theorem latest_announcer_asked {router : Router} (run : RouterRun history router)
    (registered : source ∈ router.peers) (visit : Traversal router.peers)
    (clock : Nat → Instant) (modifierType : UInt8) {ids : List ModifierId} (wanted : id ∈ ids) :
    let actions := (router.handleEvent visit clock
      (.message source (.modifierRequest modifierType ids))).1
    ((∃ action ∈ actions, action.requests id ∧ action.target ∈ router.peers ∧
        action.target ≠ source ∧ Announced history id action.target) ↔
      ∃ last since, lastAnnouncement id history = some (last, since) ∧ last ≠ source ∧
        ∀ newer ∈ since, ¬ newer.disconnects last) ∧
      (∀ since announcement earlier peer, history = since ++ announcement :: earlier →
        accepted earlier (announcement.announces id) = some peer → peer ≠ source →
        (∀ newer ∈ since, ¬ newer.disconnects peer) →
        (∀ later newer between, since = later ++ newer :: between → ∀ rival,
          accepted (between ++ announcement :: earlier) (newer.announces id) = some rival →
          rival = peer) →
        .send peer (.modifierRequest modifierType [id]) ∈ actions) := by
  intro actions
  have forwarded := request_forwarded registered visit clock modifierType ids
  -- The request for the identifier goes to the current announcer, unless that is the source.
  have asked {peer : PeerId} (current : announcer history id = some peer) (other : peer ≠ source) :
      .send peer (.modifierRequest modifierType [id]) ∈ actions := by
    have route : router.routeFor source id = some peer := by
      rw [routeFor_history run, announcerFor, current]
      simp [Option.filter, other]
    exact (Router.mem_forwarded forwarded).mpr ⟨id, wanted, peer, route, rfl⟩
  refine ⟨⟨?_, ?_⟩, ?_⟩
  · rintro ⟨action, emitted, requested, -, other, -⟩
    obtain ⟨listed, -, target, route, rfl⟩ := (Router.mem_forwarded forwarded).mp emitted
    obtain rfl : id = listed := by simpa [Action.requests] using requested
    rw [routeFor_history run] at route
    obtain ⟨since, latest, connected⟩ := announcer_iff.mp (Option.filter_eq_some_iff.mp route).1
    exact ⟨target, since, latest, other, connected⟩
  · rintro ⟨last, since, latest, other, connected⟩
    have current := announcer_iff.mpr ⟨since, latest, connected⟩
    refine ⟨_, asked current other, by simp [Action.requests], ?_, other,
      announcer_announced current⟩
    exact mentioned_registered run (.announcer id ((inventory_history run id).trans current))
  · intro since announcement earlier peer split announced other connected unrivalled
    subst split
    exact asked (announcer_kept since announced connected unrivalled) other

/-- In the relay scenario the client's request reaches the only announcer. -/
theorem latest_announcer_asked_relay :
    relayClient ∈ relayRequested.peers ∧
      .send relaySource (.modifierRequest 2 [relayId]) ∈
        (relayRequested.handleEvent relayVisit (fun _ => 0)
          (.message relayClient (.modifierRequest 2 [relayId]))).1 := by
  have registered : relayClient ∈ relayRequested.peers := by decide
  refine ⟨registered, (latest_announcer_asked relay_run registered relayVisit (fun _ => 0) 2
    List.mem_cons_self).2 [_] _ _ relaySource rfl (by decide) (by decide) (by decide) ?_⟩
  intro later newer between split rival announced
  cases later with
  | nil =>
    cases split
    cases announced
  | cons newest later =>
    cases later <;> cases split

section Forgotten

/-! Two outbound peers announce the same modifier, the later announcer disconnects, and
an inbound peer asks for the modifier. -/

def firstNode : PeerId := ⟨1⟩
def secondNode : PeerId := ⟨2⟩
def askingNode : PeerId := ⟨3⟩

def threePeers : Router :=
  ((Router.new.registerPeer firstNode .outbound .full).registerPeer secondNode .outbound
    .full).registerPeer askingNode .inbound .full

def threeVisit : Traversal threePeers.peers where
  order := [⟨firstNode, ⟨.outbound, .full⟩⟩, ⟨secondNode, ⟨.outbound, .full⟩⟩,
    ⟨askingNode, ⟨.inbound, .full⟩⟩]
  exact := by decide

/-- The first announcement has been recorded. -/
def announcedOnce : Router :=
  { threePeers with invTable := InvTable.new.record relayId firstNode }

/-- Both announcements have been recorded in the single slot of the modifier. -/
def announcedTwice : Router :=
  { threePeers with
    invTable := (InvTable.new.record relayId firstNode).record relayId secondNode }

def twoVisit : Traversal (announcedTwice.disconnectPeer secondNode).peers where
  order := [⟨firstNode, ⟨.outbound, .full⟩⟩, ⟨askingNode, ⟨.inbound, .full⟩⟩]
  exact := by decide

/-- A registered announcer can be forgotten: the table keeps the latest announcer alone,
and its disconnection leaves no announcer at all. -/
theorem earlier_announcer_forgotten :
    ¬ ∀ history router, RouterRun history router → ∀ source peer id,
      source ∈ router.peers → peer ∈ router.peers → peer ≠ source →
      (∃ since announcement earlier, history = since ++ announcement :: earlier ∧
        accepted earlier (announcement.announces id) = some peer ∧
        ∀ newer ∈ since, ¬ newer.disconnects peer) →
      ∀ visit clock modifierType ids, id ∈ ids →
        ∃ action ∈ (router.handleEvent visit clock
          (.message source (.modifierRequest modifierType ids))).1, action.requests id ∧
            action.target ∈ router.peers ∧ action.target ≠ source ∧
            Announced history id action.target := by
  intro remembered
  have registered : RouterRun _ threePeers :=
    .extend (.extend (.extend .start (.registerPeer _ firstNode .outbound .full))
      (.registerPeer _ secondNode .outbound .full)) (.registerPeer _ askingNode .inbound .full)
  have first : RouterRun _ announcedOnce := .extend registered
    (step_handled threePeers threeVisit (fun _ => 0) (.message firstNode (.inv 2 [relayId]))
      [.send askingNode (.inv 2 [relayId])] announcedOnce rfl)
  have second : RouterRun _ announcedTwice := .extend first
    (step_handled announcedOnce threeVisit (fun _ => 0) (.message secondNode (.inv 2 [relayId]))
      [.send askingNode (.inv 2 [relayId])] announcedTwice rfl)
  have gone : RouterRun _ (announcedTwice.disconnectPeer secondNode) := .extend second
    (step_handled announcedTwice threeVisit (fun _ => 0)
      (.peerDisconnected secondNode "connection closed") [] _ rfl)
  obtain ⟨action, emitted, -⟩ := remembered _ _ gone askingNode firstNode relayId (by decide)
    (by decide) (by decide) ⟨[_, _], _, _, rfl, by decide, by decide⟩ twoVisit (fun _ => 0) 2
    [relayId] List.mem_cons_self
  cases emitted

end Forgotten

end ErgoProxy.Routing
