import ErgoProxy.Routing.History

/-!
# What peers in light mode can influence

The contract of the router drops two kinds of message from peers registered in light
mode: synchronization, and requests for anything but transactions. If they are
dropped, deleting them from a run changes nothing else about it. The order in which
the registry is visited and the clock readings are part of each call here, so that
the remaining calls determine the remaining run.

The source drops synchronization only. A request of a light peer is routed whatever
its type, so the deletion is invisible exactly if no such request names a modifier
that the inventory table routes.
-/

namespace ErgoProxy.Routing

open FiniteMaps Runs

/-- A recorded call with the order of its visit of the registry and its clock. -/
structure Occurrence where
  entry : Entry
  order : List (Σ _ : PeerId, PeerEntry)
  clock : Nat → Instant

namespace Occurrence

/-- Everything about a call that the router does not decide. -/
def input (occurrence : Occurrence) : Call × List (Σ _ : PeerId, PeerEntry) × (Nat → Instant) :=
  (occurrence.entry.call, occurrence.order, occurrence.clock)

end Occurrence

/-- One call, with its visit and its clock recorded. -/
inductive Occurs : Router → Occurrence → Router → Prop where
  | registerPeer (router : Router) (peerId : PeerId) (direction : Direction) (mode : ProxyMode)
      (order : List (Σ _ : PeerId, PeerEntry)) (clock : Nat → Instant) :
      Occurs router ⟨⟨.registerPeer peerId direction mode, []⟩, order, clock⟩
        (router.registerPeer peerId direction mode)
  | handleEvent (router : Router) (visit : Traversal router.peers) (clock : Nat → Instant)
      (event : ProtocolEvent) :
      Occurs router
        ⟨⟨.handleEvent event, (router.handleEvent visit clock event).1⟩, visit.order, clock⟩
        (router.handleEvent visit clock event).2

/-- A recorded call is a call. -/
theorem occurs_step {before after : Router} {occurrence : Occurrence}
    (occurs : Occurs before occurrence after) : Step before occurrence.entry after := by
  cases occurs with
  | registerPeer peerId direction mode order clock => exact .registerPeer _ _ _ _
  | handleEvent visit clock event => exact .handleEvent _ visit clock event

/-- What the router returns and becomes is determined by the input of the call. -/
theorem occurs_deterministic (before : Router) (occurrence : Occurrence) (after : Router)
    (other : Occurrence) (otherAfter : Router) (occurs : Occurs before occurrence after)
    (again : Occurs before other otherAfter) (same : occurrence.input = other.input) :
    occurrence = other ∧ after = otherAfter := by
  cases occurs with
  | registerPeer peerId direction mode order clock =>
    cases again with
    | registerPeer otherId otherDirection otherMode otherOrder otherClock =>
      cases same
      exact ⟨rfl, rfl⟩
    | handleEvent visit otherClock event => cases same
  | handleEvent visit clock event =>
    cases again with
    | registerPeer otherId otherDirection otherMode otherOrder otherClock => cases same
    | handleEvent otherVisit otherClock otherEvent =>
      obtain ⟨order, exact⟩ := visit
      obtain ⟨otherOrder, otherExact⟩ := otherVisit
      cases same
      exact ⟨rfl, rfl⟩

/-- The modifier type of transactions. -/
def transactionType : UInt8 := 2

/-- The messages that are to be dropped when they come from a peer in light mode. -/
def droppedInLight : ProtocolMessage → Bool
  | .syncInfo _ => true
  | .modifierRequest modifierType _ => modifierType ≠ transactionType
  | _ => false

/-- The call handles a message to be dropped of a peer that the calls before it registered in
light mode. -/
def filtered (earlier : List Occurrence) (occurrence : Occurrence) : Bool :=
  match occurrence.entry.call with
  | .handleEvent (.message source message) =>
    droppedInLight message &&
      ((registration (earlier.map Occurrence.entry) source).map PeerEntry.mode == some .light)
  | _ => false

/-- The call is no request of a light peer, for anything but transactions, that names a modifier
with a route. -/
def Quiet (before : Router) (occurrence : Occurrence) : Prop :=
  ∀ source modifierType ids,
    occurrence.entry.call = .handleEvent (.message source (.modifierRequest modifierType ids)) →
    modifierType ≠ transactionType →
    (before.peers.lookup source).map PeerEntry.mode = some .light →
    ∀ id ∈ ids, before.routeFor source id = none

/-- A recorded call that is quiet. -/
def QuietOccurs (before : Router) (occurrence : Occurrence) (after : Router) : Prop :=
  Occurs before occurrence after ∧ Quiet before occurrence

/-- Without a route the request loop does nothing. -/
theorem forward_unrouted {router : Router} {source : PeerId} (modifierType : UInt8)
    {ids : List ModifierId} (unrouted : ∀ id ∈ ids, router.routeFor source id = none)
    (clock : Nat → Instant) :
    Router.forwardRequests source modifierType ids clock router = ([], router) := by
  induction ids generalizing clock with
  | nil => rfl
  | cons id ids inductionHypothesis =>
    rw [Router.forward_skipped (unrouted id List.mem_cons_self)]
    exact inductionHypothesis (fun other member => unrouted other (List.mem_cons_of_mem _ member)) _

/-- The request loop is silent exactly without a route. -/
theorem forward_silent (router : Router) (source : PeerId) (modifierType : UInt8)
    (ids : List ModifierId) (clock : Nat → Instant) :
    (Router.forwardRequests source modifierType ids clock router).1 = [] ↔
      ∀ id ∈ ids, router.routeFor source id = none := by
  rw [(Router.forward_exact ids clock router).sent, List.filterMap_eq_nil_iff]
  simp only [Option.map_eq_none_iff]

/-- A call to be filtered handles such a message, and its source is registered in light mode. -/
theorem filtered_light {history : List Occurrence} {router : Router} {occurrence : Occurrence}
    (run : Run Router.new Occurs history router) (drops : filtered history occurrence) :
    ∃ source message direction, occurrence.entry.call = .handleEvent (.message source message) ∧
      droppedInLight message = true ∧ router.peers.lookup source = some ⟨direction, .light⟩ := by
  have recorded : RouterRun (history.map Occurrence.entry) router :=
    relabelled Occurrence.entry (fun _ _ _ occurs => occurs_step occurs) run
  unfold filtered at drops
  split at drops
  case h_1 source message called =>
    obtain ⟨isDropped, light⟩ := Bool.and_eq_true_iff.mp drops
    rw [← registry_history recorded, beq_iff_eq, Option.map_eq_some_iff] at light
    obtain ⟨⟨direction, mode⟩, registered, rfl⟩ := light
    exact ⟨source, message, direction, called, isDropped, registered⟩
  case h_2 => cases drops

/-- A message to be dropped is silent exactly if its call is quiet, and then it leaves the
router as it is. Synchronization is dropped by the source itself. -/
theorem filtered_quiet {history : List Occurrence} {before after : Router}
    {occurrence : Occurrence} (run : Run Router.new Occurs history before)
    (occurs : Occurs before occurrence after) (drops : filtered history occurrence) :
    (occurrence.entry.actions = [] ↔ Quiet before occurrence) ∧
      (Quiet before occurrence → after = before) := by
  obtain ⟨source, message, direction, called, isDropped, registered⟩ := filtered_light run drops
  cases occurs with
  | registerPeer peerId direction mode order clock => cases called
  | handleEvent visit clock event =>
    obtain rfl : event = .message source message := by
      simpa only [Call.handleEvent.injEq] using called
    have light : (before.peers.lookup source).map PeerEntry.mode = some .light := by
      rw [registered]
      rfl
    cases message with
    | syncInfo body =>
      have ignored : before.handleEvent visit clock (.message source (.syncInfo body)) =
          ([], before) := by
        simp only [Router.handleEvent, Router.routeMessage, registered, if_true]
      rw [ignored]
      refine ⟨⟨?_, fun _ => rfl⟩, fun _ => rfl⟩
      rintro _ _ _ _ ⟨⟩
    | modifierRequest modifierType ids =>
      have forwarded : before.handleEvent visit clock
          (.message source (.modifierRequest modifierType ids)) =
            Router.forwardRequests source modifierType ids clock before := by
        simp only [Router.handleEvent, Router.routeMessage, registered]
      have other : modifierType ≠ transactionType := of_decide_eq_true isDropped
      have quiet : Quiet before
          ⟨⟨.handleEvent (.message source (.modifierRequest modifierType ids)),
            (before.handleEvent visit clock
              (.message source (.modifierRequest modifierType ids))).1⟩, visit.order, clock⟩ ↔
          ∀ id ∈ ids, before.routeFor source id = none := by
        constructor
        · intro quiet
          exact quiet source modifierType ids rfl other light
        · rintro unrouted _ _ _ ⟨⟩ _ _
          exact unrouted
      rw [quiet, forwarded]
      refine ⟨forward_silent before source modifierType ids clock, ?_⟩
      intro unrouted
      rw [forward_unrouted modifierType unrouted]
    | inv modifierType ids => cases isDropped
    | modifierResponse modifierType modifiers => cases isDropped
    | getPeers => cases isDropped
    | peers body => cases isDropped
    | unknown code body => cases isDropped

/-- Light mode as non-interference. In every run of quiet calls, deleting the messages to be
dropped leaves a run to the same state; it is the only run over the remaining inputs, so their
actions are unchanged; and the deleted messages emitted nothing. A further message to be dropped
emits nothing exactly if its call is quiet. -/
theorem light_noninterference {history : List Occurrence} {router : Router}
    (run : Run Router.new QuietOccurs history router) :
    Run Router.new Occurs (purge filtered history) router ∧
    (∀ other state, Run Router.new Occurs other state →
      other.map Occurrence.input = (purge filtered history).map Occurrence.input →
      other = purge filtered history ∧ state = router) ∧
    (∀ later occurrence earlier, history = later ++ occurrence :: earlier →
      filtered earlier occurrence → occurrence.entry.actions = []) ∧
    ∀ occurrence after, Occurs router occurrence after → filtered history occurrence →
      (occurrence.entry.actions = [] ↔ Quiet router occurrence) := by
  have plain {earlier : List Occurrence} {before : Router}
      (reached : Run Router.new QuietOccurs earlier before) :
      Run Router.new Occurs earlier before :=
    weaken (fun _ _ _ taken => taken.1) reached
  have remaining : Run Router.new Occurs (purge filtered history) router := by
    apply plain
    apply purged run
    intro earlier before occurrence after reached taken drops
    exact (filtered_quiet (plain reached) taken.1 drops).2 taken.2
  refine ⟨remaining, ?_, ?_, ?_⟩
  · intro other state again same
    exact determined Occurrence.input occurs_deterministic again remaining same
  · rintro later occurrence earlier rfl drops
    obtain ⟨before, after, reached, taken⟩ := visited run
    exact (filtered_quiet (plain reached) taken.1 drops).1.mpr taken.2
  · intro occurrence after occurs drops
    exact (filtered_quiet (plain run) occurs drops).1

section Scenario

/-- An outbound peer and an inbound peer in light mode. -/
def headerPeers : Router :=
  (Router.new.registerPeer relaySource .outbound .full).registerPeer relayClient .inbound .light

/-- A header has been announced. -/
def headerAnnounced : Router :=
  { headerPeers with invTable := InvTable.new.record relayId relaySource }

/-- The light peer's request for it has been forwarded. -/
def headerRequested : Router :=
  { headerAnnounced with
    requestTracker := RequestTracker.new.record relayId relayClient
    latencyTracker := LatencyTracker.new.recordRequest relayId relaySource 0 }

def headerVisit : Traversal headerPeers.peers where
  order := [⟨relaySource, ⟨.outbound, .full⟩⟩, ⟨relayClient, ⟨.inbound, .light⟩⟩]
  exact := by decide

/-- A call of the scenario. -/
def headerCall (call : Call) (actions : List Action) : Occurrence :=
  ⟨⟨call, actions⟩, headerVisit.order, fun _ => 0⟩

/-- Both registrations. -/
def headerRegistered : List Occurrence :=
  [headerCall (.registerPeer relayClient .inbound .light) [],
    headerCall (.registerPeer relaySource .outbound .full) []]

/-- The light peer's request for the header. -/
def headerRequest : ProtocolEvent := .message relayClient (.modifierRequest 101 [relayId])

/-- Registrations are quiet. -/
theorem header_registered_run : Run Router.new QuietOccurs headerRegistered headerPeers := by
  have first : Run Router.new QuietOccurs _ (Router.new.registerPeer relaySource .outbound .full) :=
    .extend .start ⟨.registerPeer _ relaySource .outbound .full headerVisit.order (fun _ => 0), by
      rintro _ _ _ ⟨⟩⟩
  exact .extend first ⟨.registerPeer _ relayClient .inbound .light _ _, by rintro _ _ _ ⟨⟩⟩

/-- Requested before it is announced, the header has no route, and deleting the request leaves
the two registrations. -/
theorem light_noninterference_unannounced :
    purge filtered (headerCall (.handleEvent headerRequest) [] :: headerRegistered) =
      headerRegistered ∧
    Run Router.new Occurs
      (purge filtered (headerCall (.handleEvent headerRequest) [] :: headerRegistered))
      headerPeers := by
  have requested : Run Router.new QuietOccurs
      (headerCall (.handleEvent headerRequest) [] :: headerRegistered) headerPeers :=
    .extend header_registered_run
      ⟨.handleEvent headerPeers headerVisit (fun _ => 0) headerRequest, by
        rintro _ _ _ ⟨⟩ _ _ id _
        rfl⟩
  exact ⟨rfl, (light_noninterference requested).1⟩

/-- The announcement of the header and the registrations. -/
def headerHistory : List Occurrence :=
  headerCall (.handleEvent (.message relaySource (.inv 101 [relayId])))
    [.send relayClient (.inv 101 [relayId])] :: headerRegistered

/-- After the announcement the light peer's request for the header is forwarded and recorded;
the run without it ends in another state. -/
theorem light_request_forwarded :
    ∃ router, Run Router.new Occurs (headerCall (.handleEvent headerRequest)
        [.send relaySource (.modifierRequest 101 [relayId])] :: headerHistory) router ∧
      filtered headerHistory (headerCall (.handleEvent headerRequest)
        [.send relaySource (.modifierRequest 101 [relayId])]) ∧
      ∀ state, Run Router.new Occurs (purge filtered (headerCall (.handleEvent headerRequest)
          [.send relaySource (.modifierRequest 101 [relayId])] :: headerHistory)) state →
        state.requestTracker.lookup relayId ≠ router.requestTracker.lookup relayId := by
  have registered : Run Router.new Occurs headerRegistered headerPeers :=
    weaken (fun _ _ _ taken => taken.1) header_registered_run
  have announced : Run Router.new Occurs headerHistory headerAnnounced :=
    .extend registered (.handleEvent headerPeers headerVisit (fun _ => 0)
      (.message relaySource (.inv 101 [relayId])))
  refine ⟨headerRequested, .extend announced
    (.handleEvent headerAnnounced headerVisit (fun _ => 0) headerRequest), rfl, ?_⟩
  intro state remaining
  obtain ⟨_, rfl⟩ := determined Occurrence.input occurs_deterministic announced remaining rfl
  decide

end Scenario

end ErgoProxy.Routing
