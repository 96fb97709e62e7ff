import ErgoProxy.Routing.Steps

/-!
# Runs of the router and what their histories determine

A run records every call with the actions it emitted, newest first. The registry is
a function of this history alone: a peer is registered as its last registration
says, unless a disconnection has revoked it since. What a call announces, requests
or answers is read off its entry, so that later modules can state what the tables
hold in terms of the history.
-/

namespace ErgoProxy.Routing

open FiniteMaps Runs

/-- A call of the router's interface. -/
inductive Call where
  | registerPeer (peerId : PeerId) (direction : Direction) (mode : ProxyMode)
  | handleEvent (event : ProtocolEvent)

/-- One recorded call: what was called and which actions it returned. -/
structure Entry where
  call : Call
  actions : List Action

/-- Recorded calls, newest first. -/
abbrev History : Type := List Entry

/-- One call, for some order of the registry and some clock readings. -/
inductive Step : Router → Entry → Router → Prop where
  | registerPeer (router : Router) (peerId : PeerId) (direction : Direction) (mode : ProxyMode) :
      Step router ⟨.registerPeer peerId direction mode, []⟩
        (router.registerPeer peerId direction mode)
  | handleEvent (router : Router) (visit : Traversal router.peers) (clock : Nat → Instant)
      (event : ProtocolEvent) :
      Step router ⟨.handleEvent event, (router.handleEvent visit clock event).1⟩
        (router.handleEvent visit clock event).2

/-- A run of the router from its empty state. -/
abbrev RouterRun : History → Router → Prop := Run Router.new Step

/-- Every effect a call can have, with messages described by `Router.Routed`. -/
inductive Effect (before : Router) : Entry → Router → Prop where
  | registered (peerId : PeerId) (direction : Direction) (mode : ProxyMode) :
      Effect before ⟨.registerPeer peerId direction mode, []⟩
        (before.registerPeer peerId direction mode)
  | connected (peerId : PeerId) (spec : Handshake.PeerSpec) (direction : Direction) :
      Effect before ⟨.handleEvent (.peerConnected peerId spec direction), []⟩ before
  | disconnected (peerId : PeerId) (reason : String) :
      Effect before ⟨.handleEvent (.peerDisconnected peerId reason), []⟩
        (before.disconnectPeer peerId)
  | message {visit : Traversal before.peers} {source : PeerId} {message : ProtocolMessage}
      {actions : List Action} {after : Router}
      (routed : Router.Routed before visit source message actions after) :
      Effect before ⟨.handleEvent (.message source message), actions⟩ after

/-- Every call has one of these effects. -/
theorem step_effect {before after : Router} {entry : Entry} (taken : Step before entry after) :
    Effect before entry after := by
  cases taken with
  | registerPeer peerId direction mode => exact .registered peerId direction mode
  | handleEvent visit clock event =>
    cases event with
    | peerConnected peerId spec direction => exact .connected peerId spec direction
    | peerDisconnected peerId reason => exact .disconnected peerId reason
    | message source message =>
      exact .message (Router.routeMessage_routed before visit clock source message)

namespace Entry

/-- The call is the disconnection of a peer. -/
def disconnects (peer : PeerId) (entry : Entry) : Prop :=
  ∃ reason, entry.call = .handleEvent (.peerDisconnected peer reason)

/-- The call is a registration of a peer. -/
def registers (peer : PeerId) (entry : Entry) : Prop :=
  ∃ direction mode, entry.call = .registerPeer peer direction mode

/-- The peer from which the entry's announcement of a modifier came. -/
def announces (id : ModifierId) (entry : Entry) : Option PeerId :=
  match entry.call with
  | .handleEvent (.message source (.inv _ ids)) => if id ∈ ids then some source else none
  | _ => none

/-- The peer whose response with the modifier was handled. -/
def responds (id : ModifierId) (entry : Entry) : Option PeerId :=
  match entry.call with
  | .handleEvent (.message source (.modifierResponse _ modifiers)) =>
    if id ∈ modifiers.map Prod.fst then some source else none
  | _ => none

end Entry

namespace Action

/-- The action is a request for the modifier. -/
def requests (id : ModifierId) (action : Action) : Bool :=
  match action.message with
  | .modifierRequest _ ids => id ∈ ids
  | _ => false

/-- The action is a response that carries the modifier. -/
def answers (id : ModifierId) (action : Action) : Bool :=
  match action.message with
  | .modifierResponse _ modifiers => id ∈ modifiers.map Prod.fst
  | _ => false

end Action

/-- The modifier is one of those that are named. -/
def names (ids : List ModifierId) (id : ModifierId) : Bool := id ∈ ids

@[simp] theorem names_iff (ids : List ModifierId) (id : ModifierId) :
    names ids id = true ↔ id ∈ ids := decide_eq_true_iff

/-- What the history says about a peer's registration. -/
def registration : History → PeerId → Option PeerEntry
  | [], _ => none
  | entry :: earlier, peer =>
    match entry.call with
    | .registerPeer registered direction mode =>
      if peer = registered then some { direction, mode } else registration earlier peer
    | .handleEvent (.peerDisconnected gone _) =>
      if peer = gone then none else registration earlier peer
    | .handleEvent _ => registration earlier peer

/-- A call keeps the registry that of the history. -/
theorem step_registry {before after : Router} {entry : Entry} {history : History}
    (taken : Step before entry after) {peer : PeerId}
    (registry : before.peers.lookup peer = registration history peer) :
    after.peers.lookup peer = registration (entry :: history) peer := by
  cases step_effect taken with
  | registered peerId direction mode =>
    simp only [registration, Router.registerPeer, lookup_insert_eq, registry]
  | connected peerId spec direction => exact registry
  | disconnected peerId reason =>
    simp only [registration, Router.disconnectPeer, lookup_erase_eq, registry]
  | message routed =>
    rw [Router.routed_registry routed]
    exact registry

/-- The registry is the last registration that was not revoked. -/
theorem registry_history {history : History} {router : Router} (run : RouterRun history router)
    (peer : PeerId) : router.peers.lookup peer = registration history peer := by
  refine invariant (fun earlier before => before.peers.lookup peer = registration earlier peer)
    ?_ ?_ run
  · rfl
  · intro earlier before entry after _ registry taken
    exact step_registry taken registry

/-- A handled event with its outcome spelled out. -/
theorem step_handled (router : Router) (visit : Traversal router.peers) (clock : Nat → Instant)
    (event : ProtocolEvent) (actions : List Action) (after : Router)
    (outcome : router.handleEvent visit clock event = (actions, after)) :
    Step router ⟨.handleEvent event, actions⟩ after := by
  have taken := Step.handleEvent router visit clock event
  rwa [outcome] at taken

section Relay

/-! An outbound peer announces a transaction and an inbound peer asks for it: the
first half of the relay scenario in the repository's integration tests. -/

def relaySource : PeerId := ⟨1⟩
def relayClient : PeerId := ⟨2⟩
def relayId : ModifierId := Vector.replicate 32 0x42

/-- Both peers are registered. -/
def relayPeers : Router :=
  (Router.new.registerPeer relaySource .outbound .full).registerPeer relayClient .inbound .full

/-- The announcement has been recorded. -/
def relayAnnounced : Router :=
  { relayPeers with invTable := InvTable.new.record relayId relaySource }

/-- The request has been forwarded. -/
def relayRequested : Router :=
  { relayAnnounced with
    requestTracker := RequestTracker.new.record relayId relayClient
    latencyTracker := LatencyTracker.new.recordRequest relayId relaySource 0 }

def relayVisit : Traversal relayPeers.peers where
  order := [⟨relaySource, ⟨.outbound, .full⟩⟩, ⟨relayClient, ⟨.inbound, .full⟩⟩]
  exact := by decide

def relayHistory : History :=
  [⟨.handleEvent (.message relayClient (.modifierRequest 2 [relayId])),
      [.send relaySource (.modifierRequest 2 [relayId])]⟩,
    ⟨.handleEvent (.message relaySource (.inv 2 [relayId])),
      [.send relayClient (.inv 2 [relayId])]⟩,
    ⟨.registerPeer relayClient .inbound .full, []⟩,
    ⟨.registerPeer relaySource .outbound .full, []⟩]

/-- The scenario is a run. -/
theorem relay_run : RouterRun relayHistory relayRequested := by
  have registered : RouterRun _ relayPeers :=
    .extend (.extend .start (.registerPeer _ relaySource .outbound .full))
      (.registerPeer _ relayClient .inbound .full)
  have announced : RouterRun _ relayAnnounced := .extend registered
    (step_handled relayPeers relayVisit (fun _ => 0) (.message relaySource (.inv 2 [relayId]))
      [.send relayClient (.inv 2 [relayId])] relayAnnounced rfl)
  exact .extend announced (step_handled relayAnnounced relayVisit (fun _ => 0)
    (.message relayClient (.modifierRequest 2 [relayId])) _ relayRequested rfl)

end Relay

end ErgoProxy.Routing
