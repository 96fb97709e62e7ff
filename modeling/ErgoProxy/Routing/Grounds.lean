import ErgoProxy.Routing.Requests
import ErgoProxy.Routing.SyncRoutes

/-!
# Why the router sends what it sends

Every message that the router sends to a peer has its grounds in what peers have said. An
announcement, a synchronization message or a message of an unknown kind is passed on as it is,
from a peer on one side of the proxy to a peer on the other. A request goes to a peer that has
announced the modifier, and a response to a peer that has asked for it, with one modifier at a
time. A peer that asks for peers is told of none, and the router asks nobody for peers.

In the other direction, handling a message owes something to the peers that the tables name, and
the router emits all that it owes. Only the choice of a partner for an inbound peer's
synchronization is left to the router.

The grounds refer to what was heard from whom and to the side on which a peer is. What counts as
heard is left open here, so that the same grounds can be read off the calls of the router and
off the bytes on the wire.
-/

namespace ErgoProxy.Routing

open FiniteMaps Runs

/-- The kinds of messages that are passed on as they are. -/
def crosses : ProtocolMessage → Bool
  | .inv .. | .syncInfo _ | .unknown .. => true
  | .modifierRequest .. | .modifierResponse .. | .getPeers | .peers _ => false

/-- Why a message is sent to a peer. -/
inductive Grounds (heard : PeerId → ProtocolMessage → Prop) (side : PeerId → Direction → Prop)
    (peer : PeerId) : ProtocolMessage → Prop where
  | crossed {source : PeerId} {direction : Direction} {message : ProtocolMessage}
      (kind : crosses message = true) (other : source ≠ peer) (received : heard source message)
      (theirs : side source direction) (ours : side peer (oppositeDirection direction)) :
      Grounds heard side peer message
  | requested {source : PeerId} {modifierType announcedType : UInt8} {ids announced : List ModifierId}
      {id : ModifierId} (other : source ≠ peer)
      (received : heard source (.modifierRequest modifierType ids)) (wanted : id ∈ ids)
      (announcement : heard peer (.inv announcedType announced)) (offered : id ∈ announced) :
      Grounds heard side peer (.modifierRequest modifierType [id])
  | answered {source : PeerId} {modifierType requestedType : UInt8}
      {modifiers : List (ModifierId × Bytes)} {modifier : ModifierId × Bytes} {ids : List ModifierId}
      (received : heard source (.modifierResponse modifierType modifiers))
      (carried : modifier ∈ modifiers) (request : heard peer (.modifierRequest requestedType ids))
      (wanted : modifier.1 ∈ ids) :
      Grounds heard side peer (.modifierResponse modifierType [modifier])
  | unshared (request : heard peer .getPeers) : Grounds heard side peer (.peers [])

/-- The message of the peer was handled. -/
def Heard (history : History) (source : PeerId) (message : ProtocolMessage) : Prop :=
  ∃ entry ∈ history, entry.call = .handleEvent (.message source message)

/-- The peer was registered on this side. -/
def Sided (history : History) (peer : PeerId) (direction : Direction) : Prop :=
  ∃ mode, RegisteredAs history peer ⟨direction, mode⟩

variable {heard wider : PeerId → ProtocolMessage → Prop} {side widerSide : PeerId → Direction → Prop}
  {history : History} {before after : Router} {entry : Entry} {peer source : PeerId}
  {message : ProtocolMessage} {id : ModifierId}

/-- Grounds stay grounds when more is heard. -/
theorem grounds_wider (grounds : Grounds heard side peer message)
    (hears : ∀ source message, heard source message → wider source message)
    (sides : ∀ peer direction, side peer direction → widerSide peer direction) :
    Grounds wider widerSide peer message := by
  cases grounds with
  | crossed kind other received theirs ours =>
    exact .crossed kind other (hears _ _ received) (sides _ _ theirs) (sides _ _ ours)
  | requested other received wanted announcement offered =>
    exact .requested other (hears _ _ received) wanted (hears _ _ announcement) offered
  | answered received carried request wanted =>
    exact .answered (hears _ _ received) carried (hears _ _ request) wanted
  | unshared request => exact .unshared (hears _ _ request)

/-- A peer that is registered was registered on its side. -/
theorem registered_sided (run : RouterRun history before) {registered : PeerEntry}
    (found : before.peers.lookup peer = some registered) :
    Sided history peer registered.direction := by
  rw [registry_history run] at found
  exact ⟨registered.mode, registration_as found⟩

/-- The target of a request has announced the modifier. -/
theorem route_heard (run : RouterRun history before)
    (routed : before.routeFor source id = some peer) :
    source ≠ peer ∧ ∃ announcedType announced, Heard history peer (.inv announcedType announced) ∧
      id ∈ announced := by
  rw [routeFor_history run, announcerFor] at routed
  obtain ⟨current, other⟩ := Option.filter_eq_some_iff.mp routed
  refine ⟨fun same => of_decide_eq_true other same.symm, ?_⟩
  obtain ⟨since, announcement, earlier, rfl, accepts⟩ := announcer_announced current
  have announced := (Option.filter_eq_some_iff.mp accepts).1
  unfold Entry.announces at announced
  split at announced
  · rename_i _ announcedType ids called
    split at announced
    · rename_i named
      cases announced
      exact ⟨announcedType, ids,
        ⟨announcement, List.mem_append_right _ List.mem_cons_self, called⟩, named⟩
    · cases announced
  · cases announced

/-- The target of a response has asked for the modifier. -/
theorem pending_heard (run : RouterRun history before)
    (pending : before.requestTracker.lookup id = some peer) :
    ∃ requestedType ids, Heard history peer (.modifierRequest requestedType ids) ∧ id ∈ ids := by
  obtain ⟨since, request, earlier, target, rfl, forwards, _⟩ := pending_asked run pending
  obtain ⟨modifierType, ids, called, named, _⟩ := forwards
  exact ⟨modifierType, ids,
    ⟨request, List.mem_append_right _ List.mem_cons_self, called⟩, named⟩

/-- What is routed for a message has its grounds in this message and in what was heard before. -/
theorem routed_grounds (run : RouterRun history before) (once : RegisteredOnce history)
    {visit : Traversal before.peers} {actions : List Action}
    (routed : Router.Routed before visit source message actions after)
    (earlier : ∀ source message, Heard history source message → heard source message)
    (received : heard source message) {action : Action} (emitted : action ∈ actions) :
    Grounds heard (Sided history) action.target action.message := by
  cases routed with
  | dropped | syncDropped | peersIgnored => cases emitted
  | announced registered | relayed registered =>
    obtain ⟨target, other, known, different, opposite, rfl⟩ :=
      (Router.mem_fanOut visit _ _ action).mp emitted
    refine .crossed rfl different.symm received (registered_sided run registered) ?_
    rw [← opposite]
    exact registered_sided run known
  | requested registered forwarded =>
    obtain ⟨id, wanted, target, route, rfl⟩ := (Router.mem_forwarded forwarded).mp emitted
    obtain ⟨other, _, _, announcement, offered⟩ := route_heard run route
    exact .requested other received wanted (earlier _ _ announcement) offered
  | responded registered delivered =>
    obtain ⟨modifier, first, requester, pending, rfl⟩ := (Router.mem_delivered delivered).mp emitted
    obtain ⟨_, _, request, wanted⟩ := pending_heard run pending
    exact .answered received (Router.firstOccurrences_subset first) (earlier _ _ request) wanted
  | syncPaired registered full chosen =>
    obtain rfl := List.mem_singleton.mp emitted
    obtain ⟨known, directed, _⟩ := Router.chosen_free chosen
    have theirs := registered_sided run registered
    have ours := registered_sided run known
    rw [directed] at ours
    refine .crossed rfl ?_ received theirs ours
    rintro rfl
    rw [← Option.some.inj (registered.symm.trans known)] at directed
    cases directed
  | @syncAnswered _ mode inbound registered full paired =>
    obtain rfl := List.mem_singleton.mp emitted
    have theirs := registered_sided run registered
    obtain ⟨_, recorded, _⟩ := (run_held run once).served paired
    refine .crossed rfl ?_ received theirs ⟨.full, recorded⟩
    rintro rfl
    obtain ⟨mode, outbound⟩ := theirs
    cases registeredAs_unique once outbound recorded
  | peersRequested registered =>
    obtain rfl := List.mem_singleton.mp emitted
    exact .unshared received

/-- What registers no peer twice has not done so before one of its calls. -/
theorem registeredOnce_before {later earlier : History}
    (once : RegisteredOnce (later ++ entry :: earlier)) : RegisteredOnce earlier :=
  once.sublist (((List.sublist_cons_self entry earlier).trans
    (List.sublist_append_right later (entry :: earlier))).filterMap _)

/-- A registration stays recorded. -/
theorem registeredAs_later {later earlier : History} {registered : PeerEntry}
    (recorded : RegisteredAs earlier peer registered) :
    RegisteredAs (later ++ entry :: earlier) peer registered := by
  obtain ⟨registration, member, called⟩ := recorded
  exact ⟨registration, List.mem_append_right _ (List.mem_cons_of_mem _ member), called⟩

/-- In every run that registers each peer at most once, every action has its grounds in the
messages that were handled. -/
theorem actions_grounded (run : RouterRun history after) (once : RegisteredOnce history)
    (member : entry ∈ history) {action : Action} (emitted : action ∈ entry.actions) :
    Grounds (Heard history) (Sided history) action.target action.message := by
  obtain ⟨later, earlier, rfl⟩ := List.append_of_mem member
  obtain ⟨before, _, reached, taken⟩ := visited run
  have onceBefore := registeredOnce_before once
  have kept : ∀ source message, Heard earlier source message →
      Heard (later ++ entry :: earlier) source message := by
    rintro source message ⟨recorded, recordedMember, called⟩
    exact ⟨recorded, List.mem_append_right _ (List.mem_cons_of_mem _ recordedMember), called⟩
  have sides : ∀ peer direction, Sided earlier peer direction →
      Sided (later ++ entry :: earlier) peer direction := by
    rintro peer direction ⟨mode, registered⟩
    exact ⟨mode, registeredAs_later registered⟩
  cases step_effect taken with
  | registered | connected | disconnected => cases emitted
  | message routed =>
    refine grounds_wider (routed_grounds reached onceBefore routed kept ?_ emitted)
      (fun _ _ => id) sides
    exact ⟨_, member, rfl⟩

/-- A synchronization action counts for its target. -/
theorem syncedFrom_emitted {actions : List Action} {action : Action} (emitted : action ∈ actions)
    {body : Bytes} (kind : action.message = .syncInfo body) :
    Entry.syncedFrom action.target ⟨.handleEvent (.message source message), actions⟩ =
      some source := by
  have counted : Action.syncsTo action.target action = true := by simp [Action.syncsTo, kind]
  exact if_pos (List.any_eq_true.mpr ⟨action, emitted, counted⟩)

/-- In every run that registers each peer at most once, a synchronization message is relayed from
a full-mode peer to a peer on the opposite side, and an inbound target is in full mode too. -/
theorem synced_full (run : RouterRun history after) (once : RegisteredOnce history)
    (member : entry ∈ history) {action : Action} (emitted : action ∈ entry.actions) {body : Bytes}
    (kind : action.message = .syncInfo body) :
    ∃ source, Heard history source (.syncInfo body) ∧
      (RegisteredAs history source ⟨.inbound, .full⟩ ∧
          (∃ mode, RegisteredAs history action.target ⟨.outbound, mode⟩) ∨
        RegisteredAs history source ⟨.outbound, .full⟩ ∧
          RegisteredAs history action.target ⟨.inbound, .full⟩) := by
  obtain ⟨later, earlier, rfl⟩ := List.append_of_mem member
  obtain ⟨before, _, reached, taken⟩ := visited run
  have known {peer : PeerId} {found : PeerEntry} (registered : before.peers.lookup peer = some found) :
      RegisteredAs (later ++ entry :: earlier) peer found := by
    rw [registry_history reached] at registered
    exact registeredAs_later (registration_as registered)
  have onceBefore := registeredOnce_before once
  cases step_sync taken with
  | disconnected peer reason gone =>
    rw [gone] at emitted
    cases emitted
  | paired source target sent mode forwarded inbound outbound =>
    subst forwarded
    obtain rfl := List.mem_singleton.mp emitted
    cases kind
    exact ⟨source, ⟨_, member, rfl⟩, Or.inl ⟨known inbound, mode, known outbound⟩⟩
  | answered source target sent forwarded outbound served =>
    subst forwarded
    obtain rfl := List.mem_singleton.mp emitted
    cases kind
    exact ⟨source, ⟨_, member, rfl⟩,
      Or.inr ⟨known outbound, registeredAs_later ((run_held reached onceBefore).served served).2.1⟩⟩
  | silent quiet =>
    cases step_effect taken with
    | registered | connected | disconnected => cases emitted
    | message routed => cases (quiet action.target).symm.trans (syncedFrom_emitted emitted kind)

end ErgoProxy.Routing
