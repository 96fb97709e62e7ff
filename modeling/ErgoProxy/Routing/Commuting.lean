import ErgoProxy.Routing.MessageEffects

/-!
# Unrelated messages commute

Two messages that name no modifier in common, and are not both synchronization, have
disjoint footprints. Handling them in either order therefore emits the same actions
for each and leaves the same tables. Timestamps and averages are excepted, since the
clock moves on between the two; fan-outs are compared up to the order in which the
registry is visited.
-/

namespace ErgoProxy.Routing

open FiniteMaps Footprints

/-- The message is relayed to all peers of the opposite direction. -/
def isFanOut : ProtocolMessage → Bool
  | .inv _ _ => true
  | .unknown _ _ => true
  | _ => false

/-- The same actions: up to order for fan-outs, in order otherwise. -/
def SameActions (message : ProtocolMessage) (left right : List Action) : Prop :=
  if isFanOut message then left.Perm right else left = right

/-- The same registry and tables, except for timestamps and averages. -/
structure SameTables (left right : Router) : Prop where
  registry : left.peers = right.peers
  inventory : left.invTable = right.invTable
  requests : left.requestTracker = right.requestTracker
  pairing : left.syncTracker = right.syncTracker
  timing : ∀ id, left.latencyTracker.target id = right.latencyTracker.target id
  samples : ∀ peer, left.latencyTracker.samples peer = right.latencyTracker.samples peer

/-- A message is handled, with any clock and any visit. The visit of synchronization makes the
given choice of a free outbound peer. -/
def Handles (choose : Choice) (before : Router) (source : PeerId) (message : ProtocolMessage)
    (actions : List Action) (after : Router) : Prop :=
  ∃ (visit : Traversal before.peers) (clock : Nat → Instant),
    (isSync message → visit.order.find? before.freeOutbound =
      choose before.peers before.syncTracker) ∧
      before.handleEvent visit clock (.message source message) = (actions, after)

/-- A handled message has its abstract effect. -/
theorem handles_realizes {choose : Choice} {before after : Router} {source : PeerId}
    {message : ProtocolMessage} {actions : List Action}
    (handles : Handles choose before source message actions after) :
    Realizes before (actions, after) (messageEffect choose before.peers source message) := by
  obtain ⟨visit, clock, chosen, outcome⟩ := handles
  rw [← outcome]
  exact realizes_message before visit clock source message chosen

/-- Two lists of actions of one emission are the same up to order. -/
theorem covers_perm {emission : Emission} {left right : List Action}
    (leftCovered : emission.Covers left) (rightCovered : emission.Covers right) :
    left.Perm right := by
  cases emission with
  | inOrder actions =>
    rw [show left = actions from leftCovered, show right = actions from rightCovered]
  | fanned actions =>
    exact Multiset.coe_eq_coe.mp
      ((show (left : Multiset Action) = actions from leftCovered).trans
        (show (right : Multiset Action) = actions from rightCovered).symm)

/-- The actions of every message but a fan-out are emitted in order. -/
theorem ordered_output (choose : Choice) (peers : FiniteMap PeerId PeerEntry) (source : PeerId)
    {message : ProtocolMessage} (single : ¬ isFanOut message)
    (found : (cell : Cell) → Content cell) :
    ∃ actions, (messageEffect choose peers source message found).output = .inOrder actions := by
  unfold messageEffect
  cases peers.lookup source with
  | none => exact ⟨_, rfl⟩
  | some entry =>
    cases message with
    | inv modifierType ids => exact absurd rfl single
    | unknown code body => exact absurd rfl single
    | modifierRequest modifierType ids => exact ⟨_, rfl⟩
    | modifierResponse modifierType modifiers => exact ⟨_, rfl⟩
    | getPeers => exact ⟨_, rfl⟩
    | peers body => exact ⟨_, rfl⟩
    | syncInfo body =>
      simp only [registeredEffect, syncEffect]
      split
      · exact ⟨_, rfl⟩
      · split <;> split <;> exact ⟨_, rfl⟩

/-- Two lists of actions that one effect of a message emits are the same. -/
theorem covers_same {choose : Choice} {peers : FiniteMap PeerId PeerEntry} {source : PeerId}
    {message : ProtocolMessage} {found : (cell : Cell) → Content cell} {left right : List Action}
    (leftCovered : (messageEffect choose peers source message found).output.Covers left)
    (rightCovered : (messageEffect choose peers source message found).output.Covers right) :
    SameActions message left right := by
  unfold SameActions
  split
  case isTrue => exact covers_perm leftCovered rightCovered
  case isFalse single =>
    obtain ⟨actions, ordered⟩ := ordered_output choose peers source single found
    rw [ordered] at leftCovered rightCovered
    exact (show left = actions from leftCovered).trans
      (show right = actions from rightCovered).symm

/-- Cells determine the tables, up to timestamps. -/
theorem tables_of_cells {left right : Router} (same : left.cells = right.cells) :
    left.invTable = right.invTable ∧ left.requestTracker = right.requestTracker ∧
      left.syncTracker = right.syncTracker ∧
      ∀ id, left.latencyTracker.target id = right.latencyTracker.target id := by
  refine ⟨?_, ?_, congrFun same .pairing, fun id => congrFun same (.timing id)⟩
  · have entries : left.invTable.entries = right.invTable.entries :=
      Finmap.ext_lookup fun id => congrFun same (.inventory id)
    exact congrArg InvTable.mk entries
  · have pending : left.requestTracker.pending = right.requestTracker.pending :=
      Finmap.ext_lookup fun id => congrFun same (.request id)
    exact congrArg RequestTracker.mk pending

/-- Messages that name no modifier in common, and are not both synchronization, have disjoint
footprints. -/
theorem footprints_disjoint {message other : ProtocolMessage}
    (unrelated : ∀ id ∈ modifierIds message, id ∉ modifierIds other)
    (notBothSync : ¬ (isSync message ∧ isSync other)) :
    ∀ cell ∈ footprint message, cell ∉ footprint other := by
  have apart {id : ModifierId} (named : names (modifierIds message) id)
      (also : names (modifierIds other) id) : False :=
    unrelated id ((names_iff _ _).mp named) ((names_iff _ _).mp also)
  intro cell member
  cases cell with
  | inventory id => exact apart member
  | request id => exact apart member
  | timing id => exact apart member
  | pairing => exact fun also => notBothSync ⟨member, also⟩

/-- Order independence of unrelated traffic: in every state, two messages that name no modifier
in common and are not both synchronization have the same actions and leave the same tables,
whichever is handled first. -/
theorem unrelated_commute {choose : Choice} {start left leftRight right rightLeft : Router}
    {source other : PeerId} {message otherMessage : ProtocolMessage}
    {actions laterActions otherActions otherLaterActions : List Action}
    (unrelated : ∀ id ∈ modifierIds message, id ∉ modifierIds otherMessage)
    (notBothSync : ¬ (isSync message ∧ isSync otherMessage))
    (first : Handles choose start source message actions left)
    (second : Handles choose left other otherMessage otherLaterActions leftRight)
    (otherFirst : Handles choose start other otherMessage otherActions right)
    (otherSecond : Handles choose right source message laterActions rightLeft) :
    SameActions message actions laterActions ∧
      SameActions otherMessage otherActions otherLaterActions ∧
      SameTables leftRight rightLeft := by
  have apart := footprints_disjoint unrelated notBothSync
  have opposite : ∀ cell ∈ footprint otherMessage, cell ∉ footprint message :=
    fun cell member also => apart cell also member
  have here := confined_message choose start.peers source message
  have there := confined_message choose start.peers other otherMessage
  obtain ⟨emitted, cells, samples, registry⟩ := handles_realizes first
  obtain ⟨otherEmitted, otherCells, otherSamples, otherRegistry⟩ := handles_realizes otherFirst
  have followed := handles_realizes second
  have otherFollowed := handles_realizes otherSecond
  rw [registry] at followed
  rw [otherRegistry] at otherFollowed
  obtain ⟨otherLaterEmitted, lastCells, lastSamples, lastRegistry⟩ := followed
  obtain ⟨laterEmitted, otherLastCells, otherLastSamples, otherLastRegistry⟩ := otherFollowed
  -- each second message finds the cells that the first one left
  rw [cells] at otherLaterEmitted lastCells lastSamples
  rw [otherCells] at laterEmitted otherLastCells otherLastSamples
  have output := follow_output there here opposite start.cells
  have otherOutput := follow_output here there apart start.cells
  have added := follow_added there here opposite start.cells
  have otherAdded := follow_added here there apart start.cells
  unfold follow at output otherOutput added otherAdded
  rw [output] at laterEmitted
  rw [otherOutput] at otherLaterEmitted
  have sameCells : leftRight.cells = rightLeft.cells := by
    rw [lastCells, otherLastCells]
    exact follow_cells here there apart start.cells
  obtain ⟨inventory, requests, pairing, timing⟩ := tables_of_cells sameCells
  refine ⟨covers_same emitted laterEmitted, covers_same otherEmitted otherLaterEmitted,
    ⟨?_, inventory, requests, pairing, timing, ?_⟩⟩
  · rw [lastRegistry, registry, otherLastRegistry, otherRegistry]
  · intro peer
    rw [lastSamples, samples, otherLastSamples, otherSamples, added, otherAdded, UInt64.add_assoc,
      UInt64.add_assoc, UInt64.add_comm ((messageEffect choose start.peers source message
        start.cells).added peer)]

section Scenario

/-- A second modifier. -/
def otherId : ModifierId := Vector.replicate 32 0x43

/-- The relay scenario with the second modifier announced after the request. -/
def requestedAnnounced : Router :=
  { relayRequested with invTable := relayRequested.invTable.record otherId relaySource }

/-- The relay scenario with the second modifier announced before the request, which was
forwarded at a later time. -/
def announcedRequested : Router :=
  { relayAnnounced with
    invTable := relayAnnounced.invTable.record otherId relaySource
    requestTracker := RequestTracker.new.record relayId relayClient
    latencyTracker := LatencyTracker.new.recordRequest relayId relaySource 5 }

/-- The relay scenario with the client's synchronization after its request. -/
def requestedSynced : Router :=
  { relayRequested with syncTracker := SyncTracker.new.pair relayClient relaySource }

/-- The relay scenario with the client's synchronization before its request, which was
forwarded at a later time. -/
def syncedRequested : Router :=
  { relayAnnounced with
    requestTracker := RequestTracker.new.record relayId relayClient
    syncTracker := SyncTracker.new.pair relayClient relaySource
    latencyTracker := LatencyTracker.new.recordRequest relayId relaySource 5 }

/-- The announcer is always chosen. -/
def chooseSource : Choice := fun _ _ => some ⟨relaySource, ⟨.outbound, .full⟩⟩

/-- The client's request commutes with the announcement of another modifier and with the
client's synchronization. -/
theorem unrelated_commute_relay :
    SameTables requestedAnnounced announcedRequested ∧
      SameTables requestedSynced syncedRequested := by
  have requested : Handles chooseSource relayAnnounced relayClient (.modifierRequest 2 [relayId])
      [.send relaySource (.modifierRequest 2 [relayId])] relayRequested :=
    ⟨relayVisit, fun _ => 0, by rintro ⟨⟩, rfl⟩
  constructor
  · have second : Handles chooseSource relayRequested relaySource (.inv 2 [otherId])
        [.send relayClient (.inv 2 [otherId])] requestedAnnounced :=
      ⟨relayVisit, fun _ => 0, by rintro ⟨⟩, rfl⟩
    have otherFirst : Handles chooseSource relayAnnounced relaySource (.inv 2 [otherId])
        [.send relayClient (.inv 2 [otherId])]
        { relayAnnounced with invTable := relayAnnounced.invTable.record otherId relaySource } :=
      ⟨relayVisit, fun _ => 0, by rintro ⟨⟩, rfl⟩
    have otherSecond : Handles chooseSource
        { relayAnnounced with invTable := relayAnnounced.invTable.record otherId relaySource }
        relayClient (.modifierRequest 2 [relayId])
        [.send relaySource (.modifierRequest 2 [relayId])] announcedRequested :=
      ⟨relayVisit, fun _ => 5, by rintro ⟨⟩, rfl⟩
    exact (unrelated_commute (by decide) (by decide) requested second otherFirst otherSecond).2.2
  · have second : Handles chooseSource relayRequested relayClient (.syncInfo [1])
        [.send relaySource (.syncInfo [1])] requestedSynced :=
      ⟨relayVisit, fun _ => 0, fun _ => rfl, rfl⟩
    have otherFirst : Handles chooseSource relayAnnounced relayClient (.syncInfo [1])
        [.send relaySource (.syncInfo [1])]
        { relayAnnounced with syncTracker := SyncTracker.new.pair relayClient relaySource } :=
      ⟨relayVisit, fun _ => 0, fun _ => rfl, rfl⟩
    have otherSecond : Handles chooseSource
        { relayAnnounced with syncTracker := SyncTracker.new.pair relayClient relaySource }
        relayClient (.modifierRequest 2 [relayId])
        [.send relaySource (.modifierRequest 2 [relayId])] syncedRequested :=
      ⟨relayVisit, fun _ => 5, by rintro ⟨⟩, rfl⟩
    exact (unrelated_commute (by decide) (by decide) requested second otherFirst otherSecond).2.2

end Scenario

end ErgoProxy.Routing
