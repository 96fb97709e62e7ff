import ErgoProxy.Foundation.Footprints
import ErgoProxy.Routing.History

/-!
# Messages as operations on table cells

The tables of the router are taken apart into cells: the announcer, the requester and
the addressee of each modifier, and the pairing as a whole. Sample counts are totals.
A message is an operation on these cells whose footprint is given by its modifiers;
only synchronization touches the pairing.

This is the abstract model of `routeMessage`. Timestamps and averages are not part of
it, fan-outs are multisets, and the choice of a free outbound peer is an arbitrary but
fixed function of the registry and the pairing. The faithful model realizes it.
-/

namespace ErgoProxy.Routing

open FiniteMaps Footprints

/-- A place in the tables. -/
inductive Cell where
  | inventory (id : ModifierId)
  | request (id : ModifierId)
  | timing (id : ModifierId)
  | pairing

/-- What a place can hold. -/
@[reducible] def Content : Cell → Type
  | .inventory _ => Option PeerId
  | .request _ => Option PeerId
  | .timing _ => Option PeerId
  | .pairing => SyncTracker

/-- What the places of a router hold. -/
def Router.cells (router : Router) : (cell : Cell) → Content cell
  | .inventory id => router.invTable.lookup id
  | .request id => router.requestTracker.lookup id
  | .timing id => router.latencyTracker.target id
  | .pairing => router.syncTracker

/-- Emitted actions, in order or up to order. -/
inductive Emission where
  | inOrder (actions : List Action)
  | fanned (actions : Multiset Action)

/-- The actions are those of the emission. -/
def Emission.Covers : Emission → List Action → Prop
  | .inOrder expected, actions => actions = expected
  | .fanned expected, actions => (actions : Multiset Action) = expected

/-- Operations of messages: they emit actions and add to the peers' sample counts. -/
abbrev MessageEffect : Type := Operation Cell Content PeerId UInt64 Emission

/-- A choice of a free outbound peer. -/
abbrev Choice : Type :=
  FiniteMap PeerId PeerEntry → SyncTracker → Option (Σ _ : PeerId, PeerEntry)

/-- Emit actions and touch nothing. -/
def emitEffect (emission : Emission) : MessageEffect := fun found => ⟨emission, found, fun _ => 0⟩

/-- Record an announcement and relay it. -/
def announceEffect (source : PeerId) (ids : List ModifierId) (emission : Emission) :
    MessageEffect := fun found =>
  { output := emission
    cells := fun
      | .inventory id => if names ids id then some source else found (.inventory id)
      | .request id => found (.request id)
      | .timing id => found (.timing id)
      | .pairing => found .pairing
    added := fun _ => 0 }

/-- Forward requests along their routes and record them. -/
def requestEffect (source : PeerId) (modifierType : UInt8) (ids : List ModifierId) :
    MessageEffect := fun found =>
  let route (id : ModifierId) : Option PeerId :=
    (found (.inventory id)).filter fun target => target ≠ source
  { output := .inOrder (ids.filterMap fun id => (route id).map fun target =>
      .send target (.modifierRequest modifierType [id]))
    cells := fun
      | .inventory id => found (.inventory id)
      | .request id => if names ids id ∧ (route id).isSome then some source else found (.request id)
      | .timing id => if names ids id ∧ (route id).isSome then route id else found (.timing id)
      | .pairing => found .pairing
    added := fun _ => 0 }

/-- Deliver pending modifiers, remove them and count their samples. -/
def responseEffect (modifierType : UInt8) (modifiers : List (ModifierId × Bytes)) :
    MessageEffect := fun found =>
  { output := .inOrder ((Router.firstOccurrences modifiers).filterMap fun modifier =>
      (found (.request modifier.1)).map fun requester =>
        .send requester (.modifierResponse modifierType [modifier]))
    cells := fun
      | .inventory id => found (.inventory id)
      | .request id => if names (modifiers.map Prod.fst) id then none else found (.request id)
      | .timing id => if names (modifiers.map Prod.fst) id then none else found (.timing id)
      | .pairing => found .pairing
    added := fun peer => UInt64.ofNat ((Router.firstOccurrences modifiers).countP fun modifier =>
      found (.timing modifier.1) = some peer) }

/-- Pair an inbound peer with an outbound one and pass its synchronization on. -/
def pairEffect (source outbound : PeerId) (emission : Emission) : MessageEffect := fun found =>
  { output := emission
    cells := fun
      | .inventory id => found (.inventory id)
      | .request id => found (.request id)
      | .timing id => found (.timing id)
      | .pairing => (found .pairing).pair source outbound
    added := fun _ => 0 }

/-- Route synchronization by mode, direction and pairing. -/
def syncEffect (choose : Choice) (peers : FiniteMap PeerId PeerEntry) (source : PeerId)
    (entry : PeerEntry) (body : Bytes) : MessageEffect := fun found =>
  if entry.mode = .light then emitEffect (.inOrder []) found
  else
    match entry.direction with
    | .inbound =>
      match choose peers (found .pairing) with
      | some free => pairEffect source free.1 (.inOrder [.send free.1 (.syncInfo body)]) found
      | none => emitEffect (.inOrder []) found
    | .outbound =>
      match (found .pairing).inboundFor source with
      | some inbound => emitEffect (.inOrder [.send inbound (.syncInfo body)]) found
      | none => emitEffect (.inOrder []) found

/-- The actions of a relayed message: one for each other peer of the direction. -/
def relays (peers : FiniteMap PeerId PeerEntry) (source : PeerId) (direction : Direction)
    (message : ProtocolMessage) : Multiset Action :=
  (peers.entries.filter fun entry => entry.1 ≠ source ∧ entry.2.direction = direction).map
    fun entry => .send entry.1 message

/-- The effect of a message of a registered peer. -/
def registeredEffect (choose : Choice) (peers : FiniteMap PeerId PeerEntry) (source : PeerId)
    (entry : PeerEntry) : ProtocolMessage → MessageEffect
  | .inv modifierType ids => announceEffect source ids
      (.fanned (relays peers source (oppositeDirection entry.direction) (.inv modifierType ids)))
  | .modifierRequest modifierType ids => requestEffect source modifierType ids
  | .modifierResponse modifierType modifiers => responseEffect modifierType modifiers
  | .syncInfo body => syncEffect choose peers source entry body
  | .getPeers => emitEffect (.inOrder [.send source (.peers [])])
  | .peers _ => emitEffect (.inOrder [])
  | .unknown code body => emitEffect
      (.fanned (relays peers source (oppositeDirection entry.direction) (.unknown code body)))

/-- The effect of a message. An unregistered peer's message has none. -/
def messageEffect (choose : Choice) (peers : FiniteMap PeerId PeerEntry) (source : PeerId)
    (message : ProtocolMessage) : MessageEffect :=
  match peers.lookup source with
  | none => emitEffect (.inOrder [])
  | some entry => registeredEffect choose peers source entry message

/-- The modifiers that a message names. -/
def modifierIds : ProtocolMessage → List ModifierId
  | .inv _ ids => ids
  | .modifierRequest _ ids => ids
  | .modifierResponse _ modifiers => modifiers.map Prod.fst
  | _ => []

/-- The message is synchronization. -/
def isSync : ProtocolMessage → Bool
  | .syncInfo _ => true
  | _ => false

/-- The cells of the modifiers that a message names, and the pairing if it is synchronization. -/
def footprint (message : ProtocolMessage) : Set Cell := fun
  | .inventory id => names (modifierIds message) id
  | .request id => names (modifierIds message) id
  | .timing id => names (modifierIds message) id
  | .pairing => isSync message

/-- Emitting is confined to nothing. -/
theorem confined_emit (emission : Emission) (footprint : Set Cell) :
    Confined (emitEffect emission) footprint where
  outside _ _ _ := rfl
  output _ := rfl
  inside agrees := agrees
  added _ := rfl

/-- An announcement is confined to its modifiers. -/
theorem confined_announce (source : PeerId) (modifierType : UInt8) (ids : List ModifierId)
    (emission : Emission) :
    Confined (announceEffect source ids emission) (footprint (.inv modifierType ids)) where
  outside found cell away := by
    cases cell with
    | inventory id => exact if_neg away
    | request id => rfl
    | timing id => rfl
    | pairing => rfl
  output _ := rfl
  inside agrees cell member := by
    cases cell with
    | inventory id => exact (if_pos member).trans (if_pos member).symm
    | request id => exact agrees (.request id) member
    | timing id => exact agrees (.timing id) member
    | pairing => exact agrees .pairing member
  added _ := rfl

/-- A request is confined to its modifiers. -/
theorem confined_request (source : PeerId) (modifierType : UInt8) (ids : List ModifierId) :
    Confined (requestEffect source modifierType ids)
      (footprint (.modifierRequest modifierType ids)) where
  outside found cell away := by
    cases cell with
    | inventory id => rfl
    | request id => exact if_neg fun routed => away routed.1
    | timing id => exact if_neg fun routed => away routed.1
    | pairing => rfl
  output agrees := by
    refine congrArg Emission.inOrder (List.filterMap_congr ?_)
    intro id member
    simp only [agrees (.inventory id) ((names_iff ids id).mpr member)]
  inside agrees cell member := by
    cases cell with
    | inventory id => exact agrees (.inventory id) member
    | request id =>
      simp only [requestEffect, agrees (.inventory id) member, agrees (.request id) member]
    | timing id =>
      simp only [requestEffect, agrees (.inventory id) member, agrees (.timing id) member]
    | pairing => exact agrees .pairing member
  added _ := rfl

/-- A response is confined to its modifiers. -/
theorem confined_response (modifierType : UInt8) (modifiers : List (ModifierId × Bytes)) :
    Confined (responseEffect modifierType modifiers)
      (footprint (.modifierResponse modifierType modifiers)) where
  outside found cell away := by
    cases cell with
    | inventory id => rfl
    | request id => exact if_neg away
    | timing id => exact if_neg away
    | pairing => rfl
  output agrees := by
    refine congrArg Emission.inOrder (List.filterMap_congr ?_)
    intro modifier first
    have member := List.mem_map_of_mem (f := Prod.fst) (Router.firstOccurrences_subset first)
    rw [agrees (.request modifier.1) ((names_iff _ _).mpr member)]
  inside agrees cell member := by
    cases cell with
    | inventory id => exact agrees (.inventory id) member
    | request id => exact (if_pos member).trans (if_pos member).symm
    | timing id => exact (if_pos member).trans (if_pos member).symm
    | pairing => exact agrees .pairing member
  added agrees := by
    funext peer
    refine congrArg UInt64.ofNat (List.countP_congr ?_)
    intro modifier first
    have member := List.mem_map_of_mem (f := Prod.fst) (Router.firstOccurrences_subset first)
    rw [agrees (.timing modifier.1) ((names_iff _ _).mpr member)]

/-- Synchronization is confined to the pairing. -/
theorem confined_sync (choose : Choice) (peers : FiniteMap PeerId PeerEntry) (source : PeerId)
    (entry : PeerEntry) (body : Bytes) :
    Confined (syncEffect choose peers source entry body) (footprint (.syncInfo body)) where
  outside found cell away := by
    have kept (outbound : PeerId) (emission : Emission) :
        (pairEffect source outbound emission found).cells cell = found cell := by
      cases cell with
      | pairing => exact absurd rfl away
      | _ => rfl
    unfold syncEffect
    split
    · rfl
    · split
      · split
        · exact kept _ _
        · rfl
      · split <;> rfl
  output agrees := by
    unfold syncEffect
    rw [agrees .pairing rfl]
    split
    · rfl
    · split <;> split <;> rfl
  inside agrees cell member := by
    cases cell with
    | pairing =>
      unfold syncEffect
      rw [agrees .pairing rfl]
      split
      · exact agrees .pairing rfl
      · split
        · split
          · exact congrArg (SyncTracker.pair · source _) (agrees .pairing rfl)
          · exact agrees .pairing rfl
        · split <;> exact agrees .pairing rfl
    | _ => cases member
  added agrees := by
    unfold syncEffect
    rw [agrees .pairing rfl]
    split
    · rfl
    · split <;> split <;> rfl

/-- Every message is confined to its footprint. -/
theorem confined_message (choose : Choice) (peers : FiniteMap PeerId PeerEntry) (source : PeerId)
    (message : ProtocolMessage) :
    Confined (messageEffect choose peers source message) (footprint message) := by
  unfold messageEffect
  cases peers.lookup source with
  | none => exact confined_emit _ _
  | some entry =>
    cases message with
    | inv modifierType ids => exact confined_announce source modifierType ids _
    | modifierRequest modifierType ids => exact confined_request source modifierType ids
    | modifierResponse modifierType modifiers => exact confined_response modifierType modifiers
    | syncInfo body => exact confined_sync choose peers source entry body
    | getPeers => exact confined_emit _ _
    | peers body => exact confined_emit _ _
    | unknown code body => exact confined_emit _ _

/-- A call has the abstract effect: it emits its actions, leaves its cells, counts its samples
and keeps the registry. -/
structure Realizes (before : Router) (outcome : List Action × Router) (effect : MessageEffect) :
    Prop where
  emitted : (effect before.cells).output.Covers outcome.1
  tables : outcome.2.cells = (effect before.cells).cells
  samples : ∀ peer, outcome.2.latencyTracker.samples peer =
    before.latencyTracker.samples peer + (effect before.cells).added peer
  registry : outcome.2.peers = before.peers

/-- A call that only emits actions. -/
theorem realizes_emit (router : Router) {actions : List Action} {emission : Emission}
    (covers : emission.Covers actions) :
    Realizes router (actions, router) (emitEffect emission) where
  emitted := covers
  tables := rfl
  samples _ := (UInt64.add_zero _).symm
  registry := rfl

/-- A fan-out is the relaying of its message, up to order. -/
theorem fanOut_relays {router : Router} (visit : Traversal router.peers) (source : PeerId)
    (direction : Direction) (message : ProtocolMessage) :
    Emission.Covers (.fanned (relays router.peers source direction message))
      (Router.fanOut visit.order source direction message) := by
  simp only [Emission.Covers, relays, Router.fanOut, ← visit.exact, Multiset.filter_coe,
    Multiset.map_coe]

/-- Announcements have their abstract effect. -/
theorem realizes_announce {router : Router} (source : PeerId) (ids : List ModifierId)
    {actions : List Action} {emission : Emission} (covers : emission.Covers actions) :
    Realizes router (actions, { router with
        invTable := ids.foldl (fun table id => table.record id source) router.invTable })
      (announceEffect source ids emission) where
  emitted := covers
  tables := by
    funext cell
    cases cell with
    | inventory id =>
      simp only [announceEffect, names_iff]
      exact Router.lookup_recordAll router.invTable ids id
    | _ => rfl
  samples _ := (UInt64.add_zero _).symm
  registry := rfl

/-- Requests have their abstract effect. -/
theorem realizes_request (router : Router) (source : PeerId) (modifierType : UInt8)
    (ids : List ModifierId) (clock : Nat → Instant) :
    Realizes router (Router.forwardRequests source modifierType ids clock router)
      (requestEffect source modifierType ids) := by
  have forwarded : Router.Forwarded source modifierType ids router _ _ :=
    Router.forward_exact ids clock router
  refine ⟨forwarded.sent, ?_, ?_, forwarded.registry⟩
  · funext cell
    cases cell with
    | inventory id => exact congrArg (InvTable.lookup · id) forwarded.inventory
    | request id =>
      simp only [requestEffect, names_iff]
      change _ = if id ∈ ids ∧ (router.routeFor source id).isSome then some source
        else router.requestTracker.lookup id
      split
      case isTrue routed => exact forwarded.requested id routed.1 routed.2
      case isFalse outside => exact (Router.forwarded_kept forwarded outside).1
    | timing id =>
      simp only [requestEffect, names_iff]
      change _ = if id ∈ ids ∧ (router.routeFor source id).isSome then router.routeFor source id
        else router.latencyTracker.target id
      split
      case isTrue routed =>
        obtain ⟨target, found⟩ := Option.isSome_iff_exists.mp routed.2
        exact (forwarded.timed id routed.1 target found).trans found.symm
      case isFalse outside => exact (Router.forwarded_kept forwarded outside).2
    | pairing => exact forwarded.pairing
  · intro peer
    rw [LatencyTracker.samples, forwarded.samples]
    exact (UInt64.add_zero _).symm

/-- Responses have their abstract effect. -/
theorem realizes_response (router : Router) (modifierType : UInt8)
    (modifiers : List (ModifierId × Bytes)) (clock : Nat → Instant) :
    Realizes router (Router.deliverResponses modifierType modifiers clock router)
      (responseEffect modifierType modifiers) := by
  have delivered : Router.Delivered modifierType modifiers router _ _ :=
    Router.deliver_exact modifiers clock router
  refine ⟨delivered.sent, ?_, Router.deliver_samples modifiers clock router, delivered.registry⟩
  funext cell
  cases cell with
  | inventory id => exact congrArg (InvTable.lookup · id) delivered.inventory
  | request id =>
    simp only [responseEffect, names_iff]
    exact delivered.requests id
  | timing id =>
    have removed := congrArg (Option.map PendingTiming.targetPeer) (delivered.timing id)
    rw [apply_ite (Option.map PendingTiming.targetPeer)] at removed
    simp only [responseEffect, names_iff]
    exact removed
  | pairing => exact delivered.pairing

/-- Only the outcome of an effect on the router's own cells matters. -/
theorem realizes_congr {router : Router} {outcome : List Action × Router}
    {effect other : MessageEffect} (same : effect router.cells = other router.cells)
    (realizes : Realizes router outcome other) : Realizes router outcome effect := by
  obtain ⟨emitted, tables, samples, registry⟩ := realizes
  rw [← same] at emitted tables samples
  exact ⟨emitted, tables, samples, registry⟩

/-- Pairing has its abstract effect. -/
theorem realizes_pair (router : Router) (source outbound : PeerId) (actions : List Action) :
    Realizes router
      (actions, { router with syncTracker := router.syncTracker.pair source outbound })
      (pairEffect source outbound (.inOrder actions)) where
  emitted := rfl
  tables := by
    funext cell
    cases cell <;> rfl
  samples _ := (UInt64.add_zero _).symm
  registry := rfl

/-- Synchronization has its abstract effect, if the visit makes the choice. -/
theorem realizes_sync {choose : Choice} {router after : Router} {visit : Traversal router.peers}
    {source : PeerId} {entry : PeerEntry} {body : Bytes} {actions : List Action}
    (registered : router.peers.lookup source = some entry)
    (chosen : visit.order.find? router.freeOutbound = choose router.peers router.syncTracker)
    (routed : Router.Routed router visit source (.syncInfo body) actions after) :
    Realizes router (actions, after) (syncEffect choose router.peers source entry body) := by
  have selected : choose router.peers (router.cells .pairing) =
      visit.order.find? router.freeOutbound := chosen.symm
  cases routed with
  | dropped unregistered => cases registered.symm.trans unregistered
  | syncDropped found unserved =>
    obtain rfl := Option.some.inj (registered.symm.trans found)
    have silent : syncEffect choose router.peers source entry body router.cells =
        emitEffect (.inOrder []) router.cells := by
      unfold syncEffect
      rcases unserved with light | ⟨inbound, none⟩ | ⟨outbound, none⟩
      · exact if_pos light
      · simp only [inbound, selected, none, ite_self]
      · have unpaired : (router.cells .pairing).inboundFor source = Option.none := none
        simp only [outbound, unpaired, ite_self]
    exact realizes_congr silent (realizes_emit router rfl)
  | @syncPaired _ mode free found full free_chosen =>
    obtain rfl := Option.some.inj (registered.symm.trans found)
    have paired : syncEffect choose router.peers source ⟨.inbound, mode⟩ body router.cells =
        pairEffect source free.1 (.inOrder [.send free.1 (.syncInfo body)]) router.cells := by
      simp only [syncEffect, if_neg full, selected, free_chosen]
    exact realizes_congr paired (realizes_pair router source free.1 _)
  | @syncAnswered _ mode inbound found full partner =>
    obtain rfl := Option.some.inj (registered.symm.trans found)
    have answered : syncEffect choose router.peers source ⟨.outbound, mode⟩ body router.cells =
        emitEffect (.inOrder [.send inbound (.syncInfo body)]) router.cells := by
      have served : (router.cells .pairing).inboundFor source = some inbound := partner
      simp only [syncEffect, if_neg full, served]
    exact realizes_congr answered (realizes_emit router rfl)

/-- Routing realizes the abstract effect of the message, if the visit of synchronization makes
the choice. -/
theorem realizes_message {choose : Choice} (router : Router) (visit : Traversal router.peers)
    (clock : Nat → Instant) (source : PeerId) (message : ProtocolMessage)
    (chosen : isSync message → visit.order.find? router.freeOutbound =
      choose router.peers router.syncTracker) :
    Realizes router (router.routeMessage visit clock source message)
      (messageEffect choose router.peers source message) := by
  have routed := Router.routeMessage_routed router visit clock source message
  unfold messageEffect
  cases registered : router.peers.lookup source with
  | none =>
    have dropped : router.routeMessage visit clock source message = ([], router) := by
      simp only [Router.routeMessage, registered]
    rw [dropped]
    exact realizes_emit router rfl
  | some entry =>
    cases message with
    | syncInfo body => exact realizes_sync registered (chosen rfl) routed
    | inv modifierType ids =>
      simp only [Router.routeMessage, registered]
      exact realizes_announce source ids (fanOut_relays visit source _ _)
    | modifierRequest modifierType ids =>
      simp only [Router.routeMessage, registered]
      exact realizes_request router source modifierType ids clock
    | modifierResponse modifierType modifiers =>
      simp only [Router.routeMessage, registered]
      exact realizes_response router modifierType modifiers clock
    | getPeers =>
      simp only [Router.routeMessage, registered]
      exact realizes_emit router rfl
    | peers body =>
      simp only [Router.routeMessage, registered]
      exact realizes_emit router rfl
    | unknown code body =>
      simp only [Router.routeMessage, registered]
      exact realizes_emit router (fanOut_relays visit source _ _)

end ErgoProxy.Routing
