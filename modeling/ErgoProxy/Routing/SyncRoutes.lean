import ErgoProxy.Routing.Pairing

/-!
# Where synchronization messages go

A synchronization message of an inbound peer goes to an outbound peer that serves
nobody, and a message of an outbound peer to the peer it serves. The two maps of the
tracker need not be inverse for this: an entry of the outbound map names the source
of the last message forwarded to that outbound peer, and it stays until one of the
two disconnects. An outbound peer is therefore never taken over while it serves a
connected peer.

The entry of the inbound map is never read. A peer that is being served and sends a
further message is not recognized, and the message never reaches the outbound peer
that serves it.
-/

namespace ErgoProxy.Routing

open FiniteMaps Runs

/-- The action carries a synchronization message to the peer. -/
def Action.syncsTo (target : PeerId) (action : Action) : Bool :=
  match action.message with
  | .syncInfo _ => action.target = target
  | _ => false

/-- The peer whose message caused a synchronization action for the target. -/
def Entry.syncedFrom (target : PeerId) (entry : Entry) : Option PeerId :=
  match entry.call with
  | .handleEvent (.message source _) =>
    if entry.actions.any (Action.syncsTo target) then some source else none
  | _ => none

/-- The peer was registered with this direction and mode. -/
def RegisteredAs (history : History) (peer : PeerId) (entry : PeerEntry) : Prop :=
  ∃ recorded ∈ history, recorded.call = .registerPeer peer entry.direction entry.mode

namespace SyncTracker

variable {tracker : SyncTracker}

/-- A purge removes the outbound entries of the peer and of its recorded partner. -/
theorem inboundFor_purgePeer (tracker : SyncTracker) (gone outbound : PeerId) :
    (tracker.purgePeer gone).inboundFor outbound =
      if outbound = gone ∨ tracker.outboundFor gone = some outbound then none
      else tracker.inboundFor outbound := by
  have purged (left : SyncTracker) : (left.purgeOutbound gone).inboundFor outbound =
      if outbound = gone then none else left.inboundFor outbound := by
    unfold purgeOutbound
    cases served : left.outboundToInbound.lookup gone with
    | none =>
      by_cases same : outbound = gone
      · rw [if_pos same, same]
        exact served
      · rw [if_neg same]
    | some inbound => exact lookup_erase_eq left.outboundToInbound gone outbound
  have first : (tracker.purgeInbound gone).inboundFor outbound =
      if tracker.outboundFor gone = some outbound then none else tracker.inboundFor outbound := by
    unfold purgeInbound outboundFor
    cases tracker.inboundToOutbound.lookup gone with
    | none => rfl
    | some partner =>
      simp only [inboundFor, lookup_erase_eq, Option.some.injEq, eq_comm]
  rw [purgePeer, purged, first]
  by_cases same : outbound = gone
  · rw [if_pos same, if_pos (Or.inl same)]
  · simp only [same, false_or, if_false]

/-- A purge removes the inbound entries of the peer and of the peer it served. -/
theorem outboundFor_purgePeer {gone inbound outbound : PeerId}
    (kept : (tracker.purgePeer gone).outboundFor inbound = some outbound) :
    inbound ≠ gone ∧ tracker.outboundFor inbound = some outbound ∧
      (tracker.purgeInbound gone).inboundFor gone ≠ some inbound := by
  have second : (tracker.purgeInbound gone).outboundFor inbound = some outbound ∧
      (tracker.purgeInbound gone).inboundFor gone ≠ some inbound := by
    unfold purgePeer purgeOutbound inboundFor at *
    cases served : (tracker.purgeInbound gone).outboundToInbound.lookup gone with
    | none =>
      rw [served] at kept
      exact ⟨kept, fun impossible => by cases impossible⟩
    | some partner =>
      rw [served] at kept
      simp only [outboundFor, lookup_erase_eq] at kept ⊢
      split at kept
      · cases kept
      · rename_i other
        exact ⟨kept, fun same => other (Option.some.inj same).symm⟩
  have first : inbound ≠ gone ∧ tracker.outboundFor inbound = some outbound := by
    have found := second.1
    unfold purgeInbound outboundFor at *
    cases paired : tracker.inboundToOutbound.lookup gone with
    | none =>
      rw [paired] at found
      refine ⟨?_, found⟩
      rintro rfl
      cases paired.symm.trans found
    | some partner =>
      simp only [paired, lookup_erase_eq] at found
      split at found
      · cases found
      · rename_i other
        exact ⟨other, found⟩
  exact ⟨first.1, first.2, second.2⟩

/-- Every recorded partner names the peer in turn. The converse is what a repeated
pairing breaks. -/
def Linked (tracker : SyncTracker) : Prop :=
  ∀ inbound outbound, tracker.outboundFor inbound = some outbound →
    tracker.inboundFor outbound = some inbound

/-- Pairing with a free outbound peer keeps recorded partners linked. -/
theorem pair_linked (linked : tracker.Linked) {inbound outbound : PeerId}
    (free : tracker.inboundFor outbound = none) : (tracker.pair inbound outbound).Linked := by
  intro left right found
  rw [outboundFor_pair] at found
  rw [inboundFor_pair]
  split at found
  · rename_i same
    rw [if_pos (Option.some.inj found).symm, same]
  · have back := linked left right found
    have other : right ≠ outbound := by
      rintro rfl
      cases free.symm.trans back
    rw [if_neg other, back]

/-- A purge keeps recorded partners linked: no remaining peer names the purged peer or
the partner of the purged peer. -/
theorem purgePeer_linked (linked : tracker.Linked) (gone : PeerId) :
    (tracker.purgePeer gone).Linked := by
  intro left right kept
  obtain ⟨other, found, unserved⟩ := outboundFor_purgePeer kept
  have back := linked left right found
  have notPartner : tracker.outboundFor gone ≠ some right := by
    intro partner
    exact other (Option.some.inj (back.symm.trans (linked gone right partner)))
  have notGone : right ≠ gone := by
    rintro rfl
    apply unserved
    unfold purgeInbound
    cases paired : tracker.inboundToOutbound.lookup right with
    | none => exact back
    | some partner =>
      have different : right ≠ partner := by
        rintro rfl
        exact notPartner paired
      exact (Finmap.lookup_erase_ne different).trans back
  rw [inboundFor_purgePeer, if_neg (not_or.mpr ⟨notGone, notPartner⟩), back]

end SyncTracker

/-- A peer's registration is recorded with its direction and mode. -/
theorem registration_as {history : History} {peer : PeerId} {entry : PeerEntry}
    (registered : registration history peer = some entry) : RegisteredAs history peer entry := by
  induction history with
  | nil => cases registered
  | cons newest earlier inductionHypothesis =>
    have older (found : registration earlier peer = some entry) :
        RegisteredAs (newest :: earlier) peer entry := by
      obtain ⟨recorded, member, called⟩ := inductionHypothesis found
      exact ⟨recorded, List.mem_cons_of_mem _ member, called⟩
    simp only [registration] at registered
    split at registered
    · rename_i other direction mode called
      split at registered
      · rename_i same
        cases registered
        exact ⟨newest, List.mem_cons_self, same ▸ called⟩
      · exact older registered
    · split at registered
      · cases registered
      · exact older registered
    · exact older registered

/-- What was registered stays recorded. -/
theorem registeredAs_cons {history : History} {peer : PeerId} {entry : PeerEntry}
    (registered : RegisteredAs history peer entry) (newest : Entry) :
    RegisteredAs (newest :: history) peer entry := by
  obtain ⟨recorded, member, called⟩ := registered
  exact ⟨recorded, List.mem_cons_of_mem _ member, called⟩

/-- A recorded registration counts among the registrations. -/
theorem registeredAs_listed {history : History} {peer : PeerId} {entry : PeerEntry}
    (registered : RegisteredAs history peer entry) : peer ∈ registeredPeers history := by
  obtain ⟨recorded, member, called⟩ := registered
  exact List.mem_filterMap.mpr ⟨recorded, member, by rw [called]⟩

/-- A peer registered at most once has one direction and one mode. -/
theorem registeredAs_unique {history : History} (once : RegisteredOnce history) {peer : PeerId}
    {first second : PeerEntry} (left : RegisteredAs history peer first)
    (right : RegisteredAs history peer second) : first = second := by
  induction history with
  | nil =>
    obtain ⟨_, member, _⟩ := left
    cases member
  | cons newest earlier inductionHypothesis =>
    have onceBefore : RegisteredOnce earlier :=
      once.sublist ((List.sublist_cons_self newest earlier).filterMap _)
    -- A registration by the newest entry excludes every earlier one.
    have exclusive {entry : PeerEntry}
        (called : newest.call = .registerPeer peer entry.direction entry.mode) :
        peer ∉ registeredPeers earlier := by
      have listed : registeredPeers (newest :: earlier) = peer :: registeredPeers earlier := by
        simp [registeredPeers, called]
      rw [RegisteredOnce, listed] at once
      exact (List.nodup_cons.mp once).1
    obtain ⟨leftEntry, leftMember, leftCalled⟩ := left
    obtain ⟨rightEntry, rightMember, rightCalled⟩ := right
    rcases List.mem_cons.mp leftMember with rfl | leftOlder
    · rcases List.mem_cons.mp rightMember with rfl | rightOlder
      · rw [leftCalled] at rightCalled
        cases first
        cases second
        cases rightCalled
        rfl
      · exact (exclusive leftCalled (registeredAs_listed ⟨_, rightOlder, rightCalled⟩)).elim
    · rcases List.mem_cons.mp rightMember with rfl | rightOlder
      · exact (exclusive rightCalled (registeredAs_listed ⟨_, leftOlder, leftCalled⟩)).elim
      · exact inductionHypothesis onceBefore ⟨_, leftOlder, leftCalled⟩
          ⟨_, rightOlder, rightCalled⟩

/-- What a call does to the synchronization tracker and which synchronization actions
it emits. -/
inductive SyncEffect (before : Router) (entry : Entry) (after : Router) : Prop where
  | silent (quiet : ∀ target, entry.syncedFrom target = none)
      (connected : ∀ peer, ¬ entry.disconnects peer)
      (kept : after.syncTracker = before.syncTracker)
  | paired (source target : PeerId) (body : Bytes) (mode : ProxyMode)
      (forwarded : entry = ⟨.handleEvent (.message source (.syncInfo body)),
        [.send target (.syncInfo body)]⟩)
      (inbound : before.peers.lookup source = some ⟨.inbound, .full⟩)
      (outbound : before.peers.lookup target = some ⟨.outbound, mode⟩)
      (free : before.syncTracker.inboundFor target = none)
      (recorded : after.syncTracker = before.syncTracker.pair source target)
  | answered (source target : PeerId) (body : Bytes)
      (forwarded : entry = ⟨.handleEvent (.message source (.syncInfo body)),
        [.send target (.syncInfo body)]⟩)
      (outbound : before.peers.lookup source = some ⟨.outbound, .full⟩)
      (served : before.syncTracker.inboundFor source = some target)
      (kept : after.syncTracker = before.syncTracker)
  | disconnected (peer : PeerId) (reason : String)
      (gone : entry = ⟨.handleEvent (.peerDisconnected peer reason), []⟩)
      (purged : after.syncTracker = before.syncTracker.purgePeer peer)

/-- Only a synchronization message causes synchronization actions: the router relays
what it received. -/
theorem routed_unsynced {before after : Router} {visit : Traversal before.peers}
    {source : PeerId} {message : ProtocolMessage} {actions : List Action}
    (routed : Router.Routed before visit source message actions after)
    (notSync : ∀ body, message ≠ .syncInfo body) (target : PeerId) :
    Entry.syncedFrom target ⟨.handleEvent (.message source message), actions⟩ = none := by
  have nothing : actions.any (Action.syncsTo target) = false := by
    rw [List.any_eq_false]
    intro action emitted
    have relayed := routed_relayed routed emitted
    unfold Action.syncsTo
    split
    · rename_i body same
      rw [same] at relayed
      cases relayed
      exact (notSync body rfl).elim
    · exact Bool.false_ne_true
  simp [Entry.syncedFrom, nothing]

/-- Only a synchronization message changes the pairings. -/
theorem routed_pairing {before after : Router} {visit : Traversal before.peers}
    {source : PeerId} {message : ProtocolMessage} {actions : List Action}
    (routed : Router.Routed before visit source message actions after)
    (notSync : ∀ body, message ≠ .syncInfo body) : after.syncTracker = before.syncTracker := by
  cases routed with
  | requested _ forwarded => exact forwarded.pairing
  | responded _ delivered => exact delivered.pairing
  | syncPaired => exact (notSync _ rfl).elim
  | _ => rfl

/-- A forwarded synchronization message has its source for exactly its target. -/
theorem syncedFrom_forwarded (source sent target : PeerId) (body : Bytes) :
    Entry.syncedFrom target ⟨.handleEvent (.message source (.syncInfo body)),
      [.send sent (.syncInfo body)]⟩ = if sent = target then some source else none := by
  simp [Entry.syncedFrom, Action.syncsTo]

/-- Every call has one of these effects. -/
theorem step_sync {before after : Router} {entry : Entry} (taken : Step before entry after) :
    SyncEffect before entry after := by
  cases step_effect taken with
  | registered peerId direction mode =>
    exact .silent (fun _ => rfl) (by rintro peer ⟨_, ⟨⟩⟩) rfl
  | connected peerId spec direction =>
    exact .silent (fun _ => rfl) (by rintro peer ⟨_, ⟨⟩⟩) rfl
  | disconnected peerId reason => exact .disconnected peerId reason rfl rfl
  | @message visit source message actions _ routed =>
    have connected : ∀ peer,
        ¬ Entry.disconnects peer ⟨.handleEvent (.message source message), actions⟩ := by
      rintro peer ⟨_, ⟨⟩⟩
    by_cases sync : ∃ body, message = .syncInfo body
    · obtain ⟨body, rfl⟩ := sync
      cases routed with
      | dropped | syncDropped => exact .silent (fun _ => rfl) connected rfl
      | @syncPaired _ mode free registered full chosen =>
        obtain ⟨known, directed, unserved⟩ := Router.chosen_free chosen
        obtain rfl : mode = .full := by cases mode <;> simp_all
        exact .paired source free.1 body free.2.mode rfl registered (by rw [known, ← directed])
          unserved rfl
      | @syncAnswered _ mode inbound registered full served =>
        obtain rfl : mode = .full := by cases mode <;> simp_all
        exact .answered source inbound body rfl registered served rfl
    · have notSync : ∀ body, message ≠ .syncInfo body := fun body same => sync ⟨body, same⟩
      exact .silent (routed_unsynced routed notSync) connected (routed_pairing routed notSync)

/-- A synchronization action comes from a full-mode peer: from an inbound peer to a free
outbound peer, or from an outbound peer to the peer it serves. -/
theorem step_synced {before after : Router} {entry : Entry} (taken : Step before entry after)
    {source target : PeerId} (synced : entry.syncedFrom target = some source) :
    (before.peers.lookup source = some ⟨.inbound, .full⟩ ∧
        (∃ mode, before.peers.lookup target = some ⟨.outbound, mode⟩) ∧
        before.syncTracker.inboundFor target = none) ∨
      before.peers.lookup source = some ⟨.outbound, .full⟩ ∧
        before.syncTracker.inboundFor source = some target := by
  cases step_sync taken with
  | silent quiet => cases (quiet target).symm.trans synced
  | disconnected peer reason gone =>
    subst gone
    cases synced
  | paired sender receiver body mode forwarded inbound outbound free =>
    rw [forwarded, syncedFrom_forwarded] at synced
    split at synced
    case isFalse => cases synced
    case isTrue same =>
      cases synced
      exact Or.inl ⟨inbound, ⟨mode, same ▸ outbound⟩, same ▸ free⟩
  | answered sender receiver body forwarded outbound served =>
    rw [forwarded, syncedFrom_forwarded] at synced
    split at synced
    case isFalse => cases synced
    case isTrue same =>
      cases synced
      exact Or.inr ⟨outbound, same ▸ served⟩

/-- A synchronization message of a full-mode inbound peer was forwarded to an outbound
peer, and neither has been disconnected since. -/
def Serving (history : History) (inbound outbound : PeerId) : Prop :=
  ∃ since forward earlier, history = since ++ forward :: earlier ∧
    registration earlier inbound = some ⟨.inbound, .full⟩ ∧
    forward.syncedFrom outbound = some inbound ∧
    ∀ newer ∈ since, ¬ newer.disconnects inbound ∧ ¬ newer.disconnects outbound

/-- One more entry starts serving, or leaves it on unless it disconnects one of the two. -/
theorem serving_cons {history : History} {newest : Entry} {inbound outbound : PeerId}
    (serving : Serving (newest :: history) inbound outbound) :
    registration history inbound = some ⟨.inbound, .full⟩ ∧
        newest.syncedFrom outbound = some inbound ∨
      Serving history inbound outbound ∧ ¬ newest.disconnects inbound ∧
        ¬ newest.disconnects outbound := by
  obtain ⟨since, forward, earlier, split, registered, synced, connected⟩ := serving
  cases since with
  | nil =>
    cases split
    exact Or.inl ⟨registered, synced⟩
  | cons newer since =>
    cases split
    exact Or.inr ⟨⟨since, forward, earlier, rfl, registered, synced, fun other member =>
      connected other (List.mem_cons_of_mem _ member)⟩, connected newest List.mem_cons_self⟩

/-- What the tracker's entries say about the history, stale entries included. -/
structure SyncHeld (history : History) (router : Router) : Prop where
  linked : router.syncTracker.Linked
  served : ∀ {outbound inbound : PeerId}, router.syncTracker.inboundFor outbound = some inbound →
    history.findSome? (Entry.syncedFrom outbound) = some inbound ∧
      RegisteredAs history inbound ⟨.inbound, .full⟩ ∧
      ∃ mode, RegisteredAs history outbound ⟨.outbound, mode⟩
  serving : ∀ {inbound outbound : PeerId}, Serving history inbound outbound →
    router.syncTracker.inboundFor outbound = some inbound

/-- What an unforwarded entry leaves of `SyncHeld.served`. -/
theorem served_quiet {history : History} {outbound inbound : PeerId} {newest : Entry}
    (quiet : newest.syncedFrom outbound = none)
    (served : history.findSome? (Entry.syncedFrom outbound) = some inbound ∧
      RegisteredAs history inbound ⟨.inbound, .full⟩ ∧
      ∃ mode, RegisteredAs history outbound ⟨.outbound, mode⟩) :
    (newest :: history).findSome? (Entry.syncedFrom outbound) = some inbound ∧
      RegisteredAs (newest :: history) inbound ⟨.inbound, .full⟩ ∧
      ∃ mode, RegisteredAs (newest :: history) outbound ⟨.outbound, mode⟩ := by
  obtain ⟨last, recorded, mode, directed⟩ := served
  refine ⟨?_, registeredAs_cons recorded newest, mode, registeredAs_cons directed newest⟩
  rw [List.findSome?_cons, quiet]
  exact last

section Held

variable {history : History} {before after : Router} (held : SyncHeld history before)
include held

/-- A call without synchronization actions that leaves the tracker alone. -/
theorem silent_held {entry : Entry} (quiet : ∀ target, entry.syncedFrom target = none)
    (kept : after.syncTracker = before.syncTracker) : SyncHeld (entry :: history) after := by
  refine ⟨kept ▸ held.linked, ?_, ?_⟩
  · intro outbound inbound found
    rw [kept] at found
    exact served_quiet (quiet outbound) (held.served found)
  · intro inbound outbound serving
    rw [kept]
    rcases serving_cons serving with ⟨-, synced⟩ | ⟨serving, -⟩
    · cases (quiet outbound).symm.trans synced
    · exact held.serving serving

/-- An inbound peer's message is forwarded to an outbound peer that served nobody. -/
theorem paired_held {source target : PeerId} {body : Bytes} {mode : ProxyMode}
    (inbound : RegisteredAs history source ⟨.inbound, .full⟩)
    (outbound : RegisteredAs history target ⟨.outbound, mode⟩)
    (free : before.syncTracker.inboundFor target = none)
    (recorded : after.syncTracker = before.syncTracker.pair source target) :
    SyncHeld (⟨.handleEvent (.message source (.syncInfo body)),
      [.send target (.syncInfo body)]⟩ :: history) after := by
  refine ⟨recorded ▸ SyncTracker.pair_linked held.linked free, ?_, ?_⟩
  · intro other peer found
    rw [recorded, SyncTracker.inboundFor_pair] at found
    split at found
    · rename_i same
      cases found
      subst same
      refine ⟨?_, registeredAs_cons inbound _, mode, registeredAs_cons outbound _⟩
      rw [List.findSome?_cons, syncedFrom_forwarded, if_pos rfl]
    · rename_i different
      refine served_quiet ?_ (held.served found)
      rw [syncedFrom_forwarded, if_neg (Ne.symm different)]
  · intro peer other serving
    rw [recorded, SyncTracker.inboundFor_pair]
    rcases serving_cons serving with ⟨-, synced⟩ | ⟨serving, -⟩
    · rw [syncedFrom_forwarded] at synced
      split at synced
      · rename_i same
        rw [if_pos same.symm, synced]
      · cases synced
    · have busy := held.serving serving
      have different : other ≠ target := by
        rintro rfl
        cases free.symm.trans busy
      rw [if_neg different, busy]

/-- An outbound peer's message is forwarded to the inbound peer that it serves, which as
such is never the key of an outbound entry. -/
theorem answered_held (once : RegisteredOnce history) {source target : PeerId} {body : Bytes}
    (outbound : registration history source = some ⟨.outbound, .full⟩)
    (served : before.syncTracker.inboundFor source = some target)
    (kept : after.syncTracker = before.syncTracker) :
    SyncHeld (⟨.handleEvent (.message source (.syncInfo body)),
      [.send target (.syncInfo body)]⟩ :: history) after := by
  refine ⟨kept ▸ held.linked, ?_, ?_⟩
  · intro other peer found
    rw [kept] at found
    have different : target ≠ other := by
      rintro rfl
      obtain ⟨mode, directed⟩ := (held.served found).2.2
      cases registeredAs_unique once (held.served served).2.1 directed
    refine served_quiet ?_ (held.served found)
    rw [syncedFrom_forwarded, if_neg different]
  · intro peer other serving
    rw [kept]
    rcases serving_cons serving with ⟨registered, synced⟩ | ⟨serving, -⟩
    · rw [syncedFrom_forwarded] at synced
      split at synced
      · cases synced
        cases registered.symm.trans outbound
      · cases synced
    · exact held.serving serving

/-- A disconnection purges the peer, and a pair that is still serving is not the peer's. -/
theorem disconnected_held {peer : PeerId} {reason : String}
    (purged : after.syncTracker = before.syncTracker.purgePeer peer) :
    SyncHeld (⟨.handleEvent (.peerDisconnected peer reason), []⟩ :: history) after := by
  refine ⟨purged ▸ SyncTracker.purgePeer_linked held.linked peer, ?_, ?_⟩
  · intro outbound inbound found
    rw [purged, SyncTracker.inboundFor_purgePeer] at found
    split at found
    · cases found
    · exact served_quiet rfl (held.served found)
  · intro inbound outbound serving
    rcases serving_cons serving with ⟨-, synced⟩ | ⟨serving, inboundStays, outboundStays⟩
    · cases synced
    · have busy := held.serving serving
      have notOutbound : outbound ≠ peer := by
        rintro rfl
        exact outboundStays ⟨reason, rfl⟩
      have notPartner : before.syncTracker.outboundFor peer ≠ some outbound := by
        intro partner
        have back := held.linked peer outbound partner
        cases busy.symm.trans back
        exact inboundStays ⟨reason, rfl⟩
      rw [purged, SyncTracker.inboundFor_purgePeer,
        if_neg (not_or.mpr ⟨notOutbound, notPartner⟩), busy]

/-- One call of a run that registers each peer at most once keeps what the tracker's
entries say. -/
theorem step_held {entry : Entry} (run : RouterRun history before) (once : RegisteredOnce history)
    (taken : Step before entry after) : SyncHeld (entry :: history) after := by
  have registry := registry_history run
  cases step_sync taken with
  | silent quiet _ kept => exact silent_held held quiet kept
  | paired source target body mode forwarded inbound outbound free recorded =>
    subst forwarded
    rw [registry] at inbound outbound
    exact paired_held held (registration_as inbound) (registration_as outbound) free recorded
  | answered source target body forwarded outbound served kept =>
    subst forwarded
    rw [registry] at outbound
    exact answered_held held once outbound served kept
  | disconnected peer reason gone purged =>
    subst gone
    exact disconnected_held held purged

end Held

/-- A run that registers each peer at most once keeps what the tracker's entries say. -/
theorem run_held {history : History} {router : Router} (run : RouterRun history router)
    (once : RegisteredOnce history) : SyncHeld history router := by
  refine invariant (fun earlier reached => RegisteredOnce earlier → SyncHeld earlier reached)
    ?_ ?_ run once
  · intro _
    refine ⟨by rintro _ _ ⟨⟩, by rintro _ _ ⟨⟩, ?_⟩
    rintro inbound outbound ⟨since, forward, earlier, split, -⟩
    cases since <;> cases split
  · intro earlier before entry after earlierRun held taken onceAfter
    have onceBefore : RegisteredOnce earlier :=
      onceAfter.sublist ((List.sublist_cons_self entry earlier).filterMap _)
    exact step_held (held onceBefore) earlierRun onceBefore taken

end ErgoProxy.Routing
