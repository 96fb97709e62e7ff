import ErgoProxy.Routing.References

/-!
# Synchronization pairings

The two maps of the synchronization tracker are meant to be inverse to each
other, relating registered inbound peers to registered outbound peers. `pair`
overwrites both maps without releasing a former partner, so the router keeps them
inverse exactly as long as no inbound peer that already has a partner is paired
again. The step condition below says so in terms of the state before the step; in
every run that respects it the pairing is consistent, and a single step that does
not respect it breaks a consistent pairing.
-/

namespace ErgoProxy.Routing

open FiniteMaps Runs

namespace SyncTracker

variable {tracker : SyncTracker}

/-- The two maps are inverse to each other. -/
def Inverse (tracker : SyncTracker) : Prop :=
  ∀ inbound outbound, tracker.outboundFor inbound = some outbound ↔
    tracker.inboundFor outbound = some inbound

/-- The tracker with the two directions exchanged. -/
def swap (tracker : SyncTracker) : SyncTracker :=
  ⟨tracker.outboundToInbound, tracker.inboundToOutbound⟩

/-- Exchanging the directions keeps the maps inverse. -/
theorem inverse_swap (inverse : tracker.Inverse) : tracker.swap.Inverse :=
  fun inbound outbound => (inverse outbound inbound).symm

/-- Purging an inbound peer from inverse maps keeps exactly the pairs in which it
is not the inbound peer, in both maps. Its partner is unique, so following one
link removes every trace. -/
theorem purgeInbound_pairs (inverse : tracker.Inverse) (peer inbound outbound : PeerId) :
    ((tracker.purgeInbound peer).outboundFor inbound = some outbound ↔
        inbound ≠ peer ∧ tracker.outboundFor inbound = some outbound) ∧
      ((tracker.purgeInbound peer).inboundFor outbound = some inbound ↔
        inbound ≠ peer ∧ tracker.outboundFor inbound = some outbound) := by
  unfold purgeInbound
  cases paired : tracker.inboundToOutbound.lookup peer with
  | none =>
    have absent : tracker.outboundFor inbound = some outbound → inbound ≠ peer := by
      rintro found rfl
      cases paired.symm.trans found
    rw [← inverse inbound outbound]
    exact ⟨⟨fun found => ⟨absent found, found⟩, And.right⟩,
      ⟨fun found => ⟨absent found, found⟩, And.right⟩⟩
  | some partner =>
    have unique : tracker.outboundFor inbound = some outbound →
        (outbound = partner ↔ inbound = peer) := by
      intro found
      constructor
      · rintro rfl
        have back := (inverse peer outbound).mp paired
        exact Option.some.inj (((inverse inbound outbound).mp found).symm.trans back)
      · rintro rfl
        exact Option.some.inj (found.symm.trans paired)
    constructor
    · simp only [outboundFor, lookup_erase_eq]
      by_cases same : inbound = peer <;> simp [same]
    · simp only [inboundFor, lookup_erase_eq]
      change (if outbound = partner then none else tracker.inboundFor outbound) = some inbound ↔ _
      by_cases same : outbound = partner
      · rw [if_pos same]
        constructor
        · intro impossible
          cases impossible
        · rintro ⟨other, found⟩
          exact (other ((unique found).mp same)).elim
      · rw [if_neg same, ← inverse inbound outbound]
        exact ⟨fun found => ⟨fun peers => same ((unique found).mpr peers), found⟩, And.right⟩

/-- Purging an outbound peer is purging an inbound peer of the exchanged tracker. -/
theorem purgeOutbound_swap (tracker : SyncTracker) (peer : PeerId) :
    tracker.purgeOutbound peer = (tracker.swap.purgeInbound peer).swap := by
  unfold purgeOutbound purgeInbound swap
  cases tracker.outboundToInbound.lookup peer <;> rfl

/-- Purging a peer from inverse maps keeps exactly the pairs without that peer, in
both maps. -/
theorem purgePeer_pairs (inverse : tracker.Inverse) (peer inbound outbound : PeerId) :
    ((tracker.purgePeer peer).outboundFor inbound = some outbound ↔
        inbound ≠ peer ∧ outbound ≠ peer ∧ tracker.outboundFor inbound = some outbound) ∧
      ((tracker.purgePeer peer).inboundFor outbound = some inbound ↔
        inbound ≠ peer ∧ outbound ≠ peer ∧ tracker.outboundFor inbound = some outbound) := by
  have first := purgeInbound_pairs inverse peer
  have stillInverse : (tracker.purgeInbound peer).Inverse := fun left right =>
    (first left right).1.trans (first left right).2.symm
  obtain ⟨forward, backward⟩ :=
    purgeInbound_pairs (inverse_swap stillInverse) peer outbound inbound
  have kept : (tracker.purgeInbound peer).swap.outboundFor outbound = some inbound ↔
      inbound ≠ peer ∧ tracker.outboundFor inbound = some outbound := (first inbound outbound).2
  have reordered : outbound ≠ peer ∧ inbound ≠ peer ∧ tracker.outboundFor inbound = some outbound ↔
      inbound ≠ peer ∧ outbound ≠ peer ∧ tracker.outboundFor inbound = some outbound :=
    and_left_comm
  unfold purgePeer
  rw [purgeOutbound_swap]
  rw [kept, reordered] at forward backward
  exact ⟨backward, forward⟩

/-- Purging keeps inverse maps inverse. -/
theorem purgePeer_inverse (inverse : tracker.Inverse) (peer : PeerId) :
    (tracker.purgePeer peer).Inverse := fun inbound outbound =>
  (purgePeer_pairs inverse peer inbound outbound).1.trans
    (purgePeer_pairs inverse peer inbound outbound).2.symm

/-- Pairing two peers without partners keeps inverse maps inverse. -/
theorem pair_inverse (inverse : tracker.Inverse) {inbound outbound : PeerId}
    (unpaired : tracker.outboundFor inbound = none) (free : tracker.inboundFor outbound = none) :
    (tracker.pair inbound outbound).Inverse := by
  intro left right
  rw [outboundFor_pair, inboundFor_pair]
  by_cases first : left = inbound
  · by_cases second : right = outbound
    · simp [first, second]
    · have other : tracker.inboundFor right ≠ some left := by
        intro found
        have paired := (inverse left right).mpr found
        rw [first, unpaired] at paired
        cases paired
      simp [first, second, Ne.symm second, first ▸ other]
  · by_cases second : right = outbound
    · have other : tracker.outboundFor left ≠ some right := by
        intro found
        have paired := (inverse left right).mp found
        rw [second, free] at paired
        cases paired
      simp [first, second, Ne.symm first, second ▸ other]
    · simpa [first, second] using inverse left right

end SyncTracker

/-- The peers registered in a history, one for every registration. -/
def registeredPeers (history : History) : List PeerId :=
  history.filterMap fun entry =>
    match entry.call with
    | .registerPeer peerId _ _ => some peerId
    | .handleEvent _ => none

/-- No peer is registered twice. -/
def RegisteredOnce (history : History) : Prop := (registeredPeers history).Nodup

/-- A registered peer occurs in the history's registrations. -/
theorem registration_recorded {history : History} {peer : PeerId} {entry : PeerEntry}
    (registered : registration history peer = some entry) : peer ∈ registeredPeers history := by
  induction history with
  | nil => cases registered
  | cons newest earlier inductionHypothesis =>
    simp only [registration] at registered
    unfold registeredPeers
    split at registered
    · rename_i other direction mode called
      by_cases same : peer = other
      · exact List.mem_filterMap.mpr ⟨newest, List.mem_cons_self, by simp [called, same]⟩
      · rw [if_neg same] at registered
        exact (List.sublist_cons_self _ _).filterMap _ |>.subset (inductionHypothesis registered)
    · split at registered
      · cases registered
      · exact (List.sublist_cons_self _ _).filterMap _ |>.subset (inductionHypothesis registered)
    · exact (List.sublist_cons_self _ _).filterMap _ |>.subset (inductionHypothesis registered)

/-- A consistent pairing of registered peers: the maps are inverse, inbound peers
stand on the one side and outbound peers on the other. -/
structure Paired (router : Router) : Prop where
  inverse : router.syncTracker.Inverse
  inbound : ∀ {inbound outbound : PeerId}, router.syncTracker.outboundFor inbound = some outbound →
    ∃ mode, router.peers.lookup inbound = some ⟨.inbound, mode⟩
  outbound : ∀ {inbound outbound : PeerId}, router.syncTracker.outboundFor inbound = some outbound →
    ∃ mode, router.peers.lookup outbound = some ⟨.outbound, mode⟩

/-- The condition on a call: a synchronization message of a registered inbound
full-mode peer finds that peer without a partner, or no outbound peer free. Every
other call meets it. -/
def FreshSync (before : Router) (entry : Entry) : Prop :=
  ∀ source body mode, entry.call = .handleEvent (.message source (.syncInfo body)) →
    before.peers.lookup source = some ⟨.inbound, mode⟩ → mode ≠ .light →
    before.syncTracker.outboundFor source = none ∨
      ∀ peer other, before.peers.lookup peer = some ⟨.outbound, other⟩ →
        before.syncTracker.inboundFor peer ≠ none

/-- A call that meets the condition. -/
def FreshStep (before : Router) (entry : Entry) (after : Router) : Prop :=
  Step before entry after ∧ FreshSync before entry

/-- Messages that leave registry and tracker alone keep the pairing. -/
theorem paired_of_same {before after : Router} (paired : Paired before)
    (registry : after.peers = before.peers) (tracker : after.syncTracker = before.syncTracker) :
    Paired after := by
  obtain ⟨inverse, inbound, outbound⟩ := paired
  refine ⟨tracker ▸ inverse, ?_, ?_⟩
  · intro left right found
    rw [tracker] at found
    rw [registry]
    exact inbound found
  · intro left right found
    rw [tracker] at found
    rw [registry]
    exact outbound found

/-- Routing a message keeps the pairing when the condition is met. -/
theorem routed_paired {before after : Router} {visit : Traversal before.peers}
    {source : PeerId} {message : ProtocolMessage} {actions : List Action}
    (routed : Router.Routed before visit source message actions after)
    (fresh : FreshSync before ⟨.handleEvent (.message source message), actions⟩)
    (paired : Paired before) : Paired after := by
  cases routed with
  | requested _ forwarded => exact paired_of_same paired forwarded.registry forwarded.pairing
  | responded _ delivered => exact paired_of_same paired delivered.registry delivered.pairing
  | @syncPaired body mode free registered full chosen =>
    obtain ⟨known, directed, unserved⟩ := Router.chosen_free chosen
    have unpaired : before.syncTracker.outboundFor source = none := by
      rcases fresh source body mode rfl registered full with unpaired | busy
      · exact unpaired
      · exact (busy free.1 free.2.mode (by rw [known, ← directed]) unserved).elim
    refine ⟨SyncTracker.pair_inverse paired.inverse unpaired unserved, ?_, ?_⟩
    · intro left right found
      rw [SyncTracker.outboundFor_pair] at found
      split at found
      · rename_i same
        exact ⟨mode, same ▸ registered⟩
      · exact paired.inbound found
    · intro left right found
      rw [SyncTracker.outboundFor_pair] at found
      split at found
      · obtain rfl := Option.some.inj found
        exact ⟨free.2.mode, by rw [known, ← directed]⟩
      · exact paired.outbound found
  | _ => exact paired_of_same paired rfl rfl

/-- Disconnecting a peer keeps the pairing of the others. -/
theorem disconnect_paired {before : Router} (paired : Paired before) (peer : PeerId) :
    Paired (before.disconnectPeer peer) := by
  have pairs := SyncTracker.purgePeer_pairs paired.inverse peer
  refine ⟨SyncTracker.purgePeer_inverse paired.inverse peer, ?_, ?_⟩
  · intro left right found
    obtain ⟨other, -, kept⟩ := (pairs left right).1.mp found
    obtain ⟨mode, known⟩ := paired.inbound kept
    exact ⟨mode, (Finmap.lookup_erase_ne other).trans known⟩
  · intro left right found
    obtain ⟨-, other, kept⟩ := (pairs left right).1.mp found
    obtain ⟨mode, known⟩ := paired.outbound kept
    exact ⟨mode, (Finmap.lookup_erase_ne other).trans known⟩

/-- Registering a peer that was not registered keeps the pairing. -/
theorem register_paired {before : Router} (paired : Paired before) {peer : PeerId}
    (fresh : before.peers.lookup peer = none) (direction : Direction) (mode : ProxyMode) :
    Paired (before.registerPeer peer direction mode) := by
  have kept {other : PeerId} {entry : PeerEntry} (known : before.peers.lookup other = some entry) :
      (before.registerPeer peer direction mode).peers.lookup other = some entry := by
    have different : other ≠ peer := by
      rintro rfl
      cases fresh.symm.trans known
    exact (Finmap.lookup_insert_of_ne before.peers different).trans known
  refine ⟨paired.inverse, ?_, ?_⟩
  · intro left right found
    obtain ⟨mode, known⟩ := paired.inbound found
    exact ⟨mode, kept known⟩
  · intro left right found
    obtain ⟨mode, known⟩ := paired.outbound found
    exact ⟨mode, kept known⟩

/-- One call that meets the condition keeps the pairing, as long as it registers no
peer a second time. -/
theorem step_paired {history : History} {before after : Router} {entry : Entry}
    (run : RouterRun history before) (taken : Step before entry after)
    (once : RegisteredOnce (entry :: history)) (fresh : FreshSync before entry)
    (paired : Paired before) : Paired after := by
  cases step_effect taken with
  | registered peerId direction mode =>
    have unknown : before.peers.lookup peerId = none := by
      rw [registry_history run]
      apply Option.eq_none_iff_forall_not_mem.mpr
      intro entry registered
      exact (List.nodup_cons.mp once).1 (registration_recorded registered)
    exact register_paired paired unknown direction mode
  | connected peerId spec direction => exact paired
  | disconnected peerId reason => exact disconnect_paired paired peerId
  | message routed => exact routed_paired routed fresh paired

/-- A call that violates the condition leaves maps that are not inverse: the former
partner still names the inbound peer, which now names another partner. -/
theorem step_unpaired {before after : Router} {entry : Entry} (taken : Step before entry after)
    (stale : ¬ FreshSync before entry) (paired : Paired before) :
    ¬ after.syncTracker.Inverse := by
  unfold FreshSync at stale
  push Not at stale
  obtain ⟨source, body, mode, called, registered, full, served, peer, other, known, unserved⟩ :=
    stale
  obtain ⟨partner, partnered⟩ := Option.ne_none_iff_exists'.mp served
  obtain ⟨call, actions⟩ := entry
  obtain rfl : call = .handleEvent (.message source (.syncInfo body)) := called
  cases step_effect taken with
  | message routed =>
    rename_i visit
    have someFree : visit.order.find? before.freeOutbound ≠ none := by
      rw [Ne, List.find?_eq_none]
      intro nobody
      exact nobody ⟨peer, .outbound, other⟩ ((traversal_lookup visit peer _).mpr known)
        (by simp [Router.freeOutbound, unserved])
    cases routed with
    | dropped unregistered => cases unregistered.symm.trans registered
    | syncDropped known reason =>
      obtain rfl := Option.some.inj (known.symm.trans registered)
      rcases reason with light | ⟨-, nobody⟩ | ⟨outbound, -⟩
      · exact (full light).elim
      · exact (someFree nobody).elim
      · cases outbound
    | syncAnswered known =>
      cases known.symm.trans registered
    | @syncPaired _ _ free _ _ chosen =>
      obtain ⟨-, -, unserved⟩ := Router.chosen_free chosen
      have back := (paired.inverse source partner).mp partnered
      have different : partner ≠ free.1 := by
        rintro rfl
        cases unserved.symm.trans back
      intro inverse
      have stillBack : (before.syncTracker.pair source free.1).inboundFor partner = some source := by
        rw [SyncTracker.inboundFor_pair, if_neg different, back]
      have moved := (inverse source partner).mpr stillBack
      rw [SyncTracker.outboundFor_pair, if_pos rfl] at moved
      exact different (Option.some.inj moved).symm

/-- The empty router has the empty pairing. -/
theorem new_paired : Paired Router.new := by
  refine ⟨fun inbound outbound => ?_, ?_, ?_⟩
  · constructor <;> intro found <;> cases found
  · intro inbound outbound found
    cases found
  · intro inbound outbound found
    cases found

/-- A run whose calls meet the condition keeps the pairing. -/
theorem run_paired {history : History} {router : Router}
    (run : Run Router.new FreshStep history router) (once : RegisteredOnce history) :
    Paired router := by
  refine invariant (fun earlier reached => RegisteredOnce earlier → Paired reached) ?_ ?_ run once
  · intro _
    exact new_paired
  · intro earlier before entry after earlierRun paired taken onceAfter
    have onceBefore : RegisteredOnce earlier :=
      onceAfter.sublist ((List.sublist_cons_self entry earlier).filterMap _)
    exact step_paired (weaken (fun _ _ _ => And.left) earlierRun) taken.1 onceAfter taken.2
      (paired onceBefore)

/-- Synchronization actions go to the chosen free peer or to the partner. -/
theorem sync_targets {router : Router} (paired : Paired router) {visit : Traversal router.peers}
    {source : PeerId} {body : Bytes} {actions : List Action} {after : Router}
    (routed : Router.Routed router visit source (.syncInfo body) actions after) {action : Action}
    (emitted : action ∈ actions) : action.target ∈ router.peers := by
  cases routed with
  | dropped => cases emitted
  | syncDropped => cases emitted
  | syncPaired registered full chosen =>
    obtain rfl := List.mem_singleton.mp emitted
    exact Finmap.mem_of_lookup_eq_some (Router.chosen_free chosen).1
  | syncAnswered registered full served =>
    obtain rfl := List.mem_singleton.mp emitted
    obtain ⟨mode, known⟩ := paired.inbound ((paired.inverse _ source).mpr served)
    exact Finmap.mem_of_lookup_eq_some known

/-- A consistent pairing does not involve an unregistered peer. -/
theorem unregistered_unpaired {router : Router} (paired : Paired router) {peer : PeerId}
    (unregistered : router.peers.lookup peer = none) (other : PeerId) :
    router.syncTracker.outboundFor peer = none ∧ router.syncTracker.inboundFor peer = none ∧
      router.syncTracker.outboundFor other ≠ some peer ∧
      router.syncTracker.inboundFor other ≠ some peer := by
  have notInbound (partner : PeerId) : router.syncTracker.outboundFor peer ≠ some partner := by
    intro found
    obtain ⟨mode, known⟩ := paired.inbound found
    cases unregistered.symm.trans known
  have notOutbound (partner : PeerId) : router.syncTracker.outboundFor partner ≠ some peer := by
    intro found
    obtain ⟨mode, known⟩ := paired.outbound found
    cases unregistered.symm.trans known
  refine ⟨Option.eq_none_iff_forall_ne_some.mpr notInbound,
    Option.eq_none_iff_forall_ne_some.mpr ?_, notOutbound other, ?_⟩
  · intro partner found
    exact notOutbound partner ((paired.inverse partner peer).mpr found)
  · intro found
    exact notInbound other ((paired.inverse peer other).mpr found)

/-- In every run that registers each peer at most once and whose calls all meet the
condition: the tracker is a consistent pairing of registered peers; the next call
keeps it one exactly when it meets the condition; the assertions inside `purgePeer`
and, under the condition, inside `pair` hold; a disconnected peer is in no pair, on
either side, until it is registered; and synchronization actions go to registered
peers. -/
theorem pairing_consistent {history : History} {router : Router}
    (run : Run Router.new FreshStep history router) (once : RegisteredOnce history) :
    Paired router ∧
      (∀ entry after, Step router entry after → RegisteredOnce (entry :: history) →
        (Paired after ↔ FreshSync router entry)) ∧
      (∀ peer, (router.syncTracker.purgePeer peer).checkInvariant = true) ∧
      (∀ visit clock source body,
        FreshSync router ⟨.handleEvent (.message source (.syncInfo body)), []⟩ →
        (router.handleEvent visit clock
          (.message source (.syncInfo body))).2.syncTracker.checkInvariant = true) ∧
      (∀ later entry earlier peer, history = later ++ entry :: earlier → entry.disconnects peer →
        (∀ newer ∈ later, ¬ newer.registers peer) →
        ∀ other, router.syncTracker.outboundFor peer = none ∧
          router.syncTracker.inboundFor peer = none ∧
          router.syncTracker.outboundFor other ≠ some peer ∧
          router.syncTracker.inboundFor other ≠ some peer) ∧
      (∀ visit clock source body,
        ∀ action ∈ (router.handleEvent visit clock (.message source (.syncInfo body))).1,
          action.target ∈ router.peers) := by
  have paired := run_paired run once
  have plain : RouterRun history router := weaken (fun _ _ _ => And.left) run
  refine ⟨paired, ?_, ?_, ?_, ?_, ?_⟩
  · intro entry after taken onceAfter
    constructor
    · intro pairedAfter
      by_contra stale
      exact step_unpaired taken stale paired pairedAfter.inverse
    · intro fresh
      exact step_paired plain taken onceAfter fresh paired
  · intro peer
    exact (SyncTracker.checkInvariant_iff _).mpr
      (SyncTracker.purgePeer_inverse paired.inverse peer)
  · intro visit clock source body fresh
    apply (SyncTracker.checkInvariant_iff _).mpr
    exact (routed_paired (Router.routeMessage_routed router visit clock source (.syncInfo body))
      fresh paired).inverse
  · intro later entry earlier peer split gone since other
    have unregistered : router.peers.lookup peer = none := by
      rw [registry_history plain, split]
      exact disconnected_unregistered later gone since
    exact unregistered_unpaired paired unregistered other
  · intro visit clock source body action emitted
    exact sync_targets paired
      (Router.routeMessage_routed router visit clock source (.syncInfo body)) emitted

section RepeatedSync

/-! Two outbound peers and one inbound peer that sends its synchronization message
once and then again. -/

def syncFirst : PeerId := ⟨1⟩
def syncSecond : PeerId := ⟨2⟩
def syncClient : PeerId := ⟨3⟩

/-- All three peers are registered. -/
def syncPeers : Router :=
  ((Router.new.registerPeer syncFirst .outbound .full).registerPeer syncSecond .outbound
    .full).registerPeer syncClient .inbound .full

/-- The client has been paired with the first outbound peer. -/
def syncOnce : Router :=
  { syncPeers with syncTracker := SyncTracker.new.pair syncClient syncFirst }

/-- The client has been paired once more, with the second outbound peer. -/
def syncTwice : Router :=
  { syncPeers with
    syncTracker := (SyncTracker.new.pair syncClient syncFirst).pair syncClient syncSecond }

def syncVisit : Traversal syncPeers.peers where
  order := [⟨syncFirst, ⟨.outbound, .full⟩⟩, ⟨syncSecond, ⟨.outbound, .full⟩⟩,
    ⟨syncClient, ⟨.inbound, .full⟩⟩]
  exact := by decide

/-- The history up to the first synchronization message. -/
def syncHistory : History :=
  [⟨.handleEvent (.message syncClient (.syncInfo [1])), [.send syncFirst (.syncInfo [1])]⟩,
    ⟨.registerPeer syncClient .inbound .full, []⟩,
    ⟨.registerPeer syncSecond .outbound .full, []⟩,
    ⟨.registerPeer syncFirst .outbound .full, []⟩]

/-- A registration meets the condition. -/
theorem register_fresh (router : Router) (peerId : PeerId) (direction : Direction)
    (mode : ProxyMode) :
    FreshStep router ⟨.registerPeer peerId direction mode, []⟩
      (router.registerPeer peerId direction mode) := by
  refine ⟨.registerPeer router peerId direction mode, ?_⟩
  intro source body mode called
  cases called

/-- The first synchronization message meets the condition. -/
theorem sync_run : Run Router.new FreshStep syncHistory syncOnce := by
  have registered : Run Router.new FreshStep _ syncPeers :=
    .extend (.extend (.extend .start (register_fresh _ syncFirst .outbound .full))
      (register_fresh _ syncSecond .outbound .full)) (register_fresh _ syncClient .inbound .full)
  refine .extend registered ⟨step_handled syncPeers syncVisit (fun _ => 0)
    (.message syncClient (.syncInfo [1])) _ syncOnce rfl, ?_⟩
  intro source body mode called registered full
  exact Or.inl rfl

/-- The paired client's partner is registered as an outbound peer. -/
theorem pairing_consistent_sync :
    syncOnce.syncTracker.outboundFor syncClient = some syncFirst ∧
      ∃ mode, syncOnce.peers.lookup syncFirst = some ⟨.outbound, mode⟩ := by
  have once : RegisteredOnce syncHistory := by
    unfold RegisteredOnce
    decide
  have partner : syncOnce.syncTracker.outboundFor syncClient = some syncFirst := by decide
  exact ⟨partner, (pairing_consistent sync_run once).1.outbound partner⟩

/-- Without the condition the pairing does not stay consistent: after a second
synchronization message the first outbound peer still names the client, which
names the second. -/
theorem repeated_sync_unpairs :
    ¬ ∀ history router, RouterRun history router → RegisteredOnce history → Paired router := by
  intro consistent
  have first : RouterRun syncHistory syncOnce := weaken (fun _ _ _ => And.left) sync_run
  have second : RouterRun _ syncTwice := .extend first
    (step_handled syncOnce syncVisit (fun _ => 0) (.message syncClient (.syncInfo [1]))
      [.send syncSecond (.syncInfo [1])] syncTwice rfl)
  have paired := consistent _ _ second (by unfold RegisteredOnce; decide)
  have stale : syncTwice.syncTracker.outboundFor syncClient = some syncFirst :=
    (paired.inverse syncClient syncFirst).mpr (by decide)
  exact absurd stale (by decide)

end RepeatedSync

end ErgoProxy.Routing
