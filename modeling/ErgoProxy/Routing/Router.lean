import ErgoProxy.Protocol.Peer
import ErgoProxy.Routing.Trackers
import ErgoProxy.Foundation.Runs

/-!
# The message router

The router keeps the registry of peers and the four tables, and turns every event
into a list of send actions. Announcements and unknown messages fan out to all
peers of the opposite direction, requests follow the inventory table, responses
follow the request tracker, and synchronization follows the pairing.

A hash map is visited in an order that is not determined by its contents, so a
traversal of the registry is an argument of each call; so are the clock readings
of its loop iterations. A run is any finite sequence of registrations and handled
events from the empty router, with any traversals and clocks.
-/

namespace ErgoProxy.Routing

open FiniteMaps

/-- A routing directive: send a message to a peer. -/
structure Action where send ::
  target : PeerId
  message : ProtocolMessage
  deriving DecidableEq

/-- What the registry knows about a peer. -/
structure PeerEntry where
  direction : Direction
  mode : ProxyMode
  deriving DecidableEq

/-- The registry and the four tables. -/
structure Router where
  peers : FiniteMap PeerId PeerEntry
  invTable : InvTable
  requestTracker : RequestTracker
  syncTracker : SyncTracker
  latencyTracker : LatencyTracker

/-- The direction of the peers that a peer's announcements are relayed to. -/
def oppositeDirection : Direction → Direction
  | .outbound => .inbound
  | .inbound => .outbound

namespace Router

/-- The empty router. -/
def new : Router := ⟨∅, .new, .new, .new, .new⟩

/-- Add a peer to the registry, replacing an earlier registration. -/
def registerPeer (router : Router) (peerId : PeerId) (direction : Direction) (mode : ProxyMode) :
    Router :=
  { router with peers := router.peers.insert peerId { direction, mode } }

/-- Send a message to every visited peer of a direction except its source. -/
def fanOut (visited : List (Σ _ : PeerId, PeerEntry)) (source : PeerId) (direction : Direction)
    (message : ProtocolMessage) : List Action :=
  (visited.filter fun entry => entry.1 ≠ source ∧ entry.2.direction = direction).map
    fun entry => .send entry.1 message

/-- The request loop: each identifier goes to its announcer, unless that is the
requester itself, and both the requester and the forwarding are recorded. -/
def forwardRequests (source : PeerId) (modifierType : UInt8) :
    List ModifierId → (Nat → Instant) → Router → List Action × Router
  | [], _, router => ([], router)
  | id :: ids, clock, router =>
    match router.invTable.lookup id with
    | some target =>
      if target ≠ source then
        let recorded := { router with
          requestTracker := router.requestTracker.record id source
          latencyTracker := router.latencyTracker.recordRequest id target (clock 0) }
        let others := forwardRequests source modifierType ids (fun turn => clock (turn + 1)) recorded
        (.send target (.modifierRequest modifierType [id]) :: others.1, others.2)
      else forwardRequests source modifierType ids (fun turn => clock (turn + 1)) router
    | none => forwardRequests source modifierType ids (fun turn => clock (turn + 1)) router

/-- The response loop: each modifier is timed, its request is taken out of the
tracker, and it goes to the requester that was found there. -/
def deliverResponses (modifierType : UInt8) :
    List (ModifierId × Bytes) → (Nat → Instant) → Router → List Action × Router
  | [], _, router => ([], router)
  | (id, data) :: modifiers, clock, router =>
    let timed := (router.latencyTracker.recordResponse id (clock 0)).2
    let fulfilled := router.requestTracker.fulfill id
    let served := { router with requestTracker := fulfilled.2, latencyTracker := timed }
    let others := deliverResponses modifierType modifiers (fun turn => clock (turn + 1)) served
    match fulfilled.1 with
    | some requester =>
      (.send requester (.modifierResponse modifierType [(id, data)]) :: others.1, others.2)
    | none => others

/-- An outbound peer that serves no inbound peer's synchronization. -/
def freeOutbound (router : Router) (entry : Σ _ : PeerId, PeerEntry) : Bool :=
  entry.2.direction = .outbound ∧ router.syncTracker.inboundFor entry.1 = none

/-- Route a message. Messages of unregistered peers are dropped. -/
def routeMessage (router : Router) (visit : Traversal router.peers) (clock : Nat → Instant)
    (source : PeerId) (message : ProtocolMessage) : List Action × Router :=
  match router.peers.lookup source with
  | none => ([], router)
  | some entry =>
    match message with
    | .inv modifierType ids =>
      (fanOut visit.order source (oppositeDirection entry.direction) (.inv modifierType ids),
        { router with
          invTable := ids.foldl (fun table id => table.record id source) router.invTable })
    | .modifierRequest modifierType ids => forwardRequests source modifierType ids clock router
    | .modifierResponse modifierType modifiers =>
      deliverResponses modifierType modifiers clock router
    | .syncInfo body =>
      if entry.mode = .light then ([], router)
      else
        match entry.direction with
        | .inbound =>
          match visit.order.find? router.freeOutbound with
          | some free =>
            ([.send free.1 (.syncInfo body)],
              { router with syncTracker := router.syncTracker.pair source free.1 })
          | none => ([], router)
        | .outbound =>
          match router.syncTracker.inboundFor source with
          | some inbound => ([.send inbound (.syncInfo body)], router)
          | none => ([], router)
    | .getPeers => ([.send source (.peers [])], router)
    | .peers _ => ([], router)
    | .unknown code body =>
      (fanOut visit.order source (oppositeDirection entry.direction) (.unknown code body), router)

/-- Forget a peer: purge it from every table, then remove it from the registry. -/
def disconnectPeer (router : Router) (peerId : PeerId) : Router where
  invTable := router.invTable.purgePeer peerId
  requestTracker := router.requestTracker.purgePeer peerId
  syncTracker := router.syncTracker.purgePeer peerId
  latencyTracker := router.latencyTracker.purgePeer peerId
  peers := router.peers.erase peerId

/-- Handle an event and return the actions it causes. -/
def handleEvent (router : Router) (visit : Traversal router.peers) (clock : Nat → Instant) :
    ProtocolEvent → List Action × Router
  | .peerConnected _ _ _ => ([], router)
  | .peerDisconnected peerId _ => ([], router.disconnectPeer peerId)
  | .message peerId message => router.routeMessage visit clock peerId message

/-- The registered peers of a direction, in the order of a traversal. -/
def peersOf (router : Router) (visit : Traversal router.peers) (direction : Direction) :
    List PeerId :=
  (visit.order.filter fun entry => entry.2.direction = direction).map Sigma.fst

/-- The registered outbound peers. -/
def outboundPeers (router : Router) (visit : Traversal router.peers) : List PeerId :=
  router.peersOf visit .outbound

/-- The registered inbound peers. -/
def inboundPeers (router : Router) (visit : Traversal router.peers) : List PeerId :=
  router.peersOf visit .inbound

end Router

end ErgoProxy.Routing
