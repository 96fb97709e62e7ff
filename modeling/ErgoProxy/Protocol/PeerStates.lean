import ErgoProxy.Protocol.Peer

/-!
# The calls that a peer's state machine admits

With its assertions checked, the machine admits the calls of one life and no
others: the handshake and its failure, or the handshake, the announcement, any
number of messages and the disconnect, in this order. What it admits at a state is
the rest of such a life, so the states are passed in one direction only, and
messages are wrapped between the announcement and the disconnect only.
-/

namespace ErgoProxy.PeerStateMachine

open Handshake

/-- The calls from the announcement's end to the disconnect. -/
def activity (messages : List ProtocolMessage) (reason : String) : List Call :=
  messages.map .messageEvent ++ [.setDisconnected reason]

/-- The calls of a life that ends with a disconnect. -/
def life (spec : PeerSpec) (messages : List ProtocolMessage) (reason : String) : List Call :=
  .setHandshaking :: .setActive spec :: activity messages reason

/-- The calls of a life that ends in its handshake. -/
def failure (reason : String) : List Call := [.setHandshaking, .setFailed reason]

/-- The events that a call returns. -/
def heard (peerId : PeerId) (direction : Direction) : Call → List ProtocolEvent
  | .setHandshaking | .setFailed _ => []
  | .setActive spec => [.peerConnected peerId spec direction]
  | .setDisconnected reason => [.peerDisconnected peerId reason]
  | .messageEvent message => [.message peerId message]

/-- The state in which a call may be made. -/
def required : Call → PeerState
  | .setHandshaking => .connecting
  | .setActive _ | .setFailed _ => .handshaking
  | .setDisconnected _ | .messageEvent _ => .active

/-- The machine after a call. -/
def following (machine : PeerStateMachine) : Call → PeerStateMachine
  | .setHandshaking => { machine with state := .handshaking }
  | .setActive spec => { machine with spec := some spec, state := .active }
  | .setDisconnected _ => { machine with state := .disconnected }
  | .setFailed _ => { machine with state := .failed }
  | .messageEvent _ => machine

/-- An assertion that fails stops the method, and one that holds or is not checked does
nothing. -/
theorem asserted {α : Type} (checked : Bool) (machine : PeerStateMachine) (expected : PeerState)
    (rest : Option α) :
    (machine.assertState checked expected >>= fun _ => rest) =
      if checked = true ∧ machine.state ≠ expected then none else rest := by
  unfold assertState
  split <;> rfl

/-- A call is carried out in its state, and in a build that does not check in every state. -/
theorem call_eq (checked : Bool) (machine : PeerStateMachine) (made : Call) :
    machine.call checked made =
      if checked = true ∧ machine.state ≠ required made then none
      else some (heard machine.peerId machine.direction made, machine.following made) := by
  cases made with
  | setHandshaking | setActive | setDisconnected | setFailed | messageEvent =>
    exact (congrArg (Option.map _) (asserted checked machine _ _)).trans (apply_ite _ _ _ _)

/-- The first of several calls is carried out in its state, and then the others. -/
theorem calls_cons (machine : PeerStateMachine) (first : Call) (rest : List Call) :
    machine.calls true (first :: rest) =
      if machine.state = required first then
        ((machine.following first).calls true rest).map fun outcome =>
          (heard machine.peerId machine.direction first ++ outcome.1, outcome.2)
      else none := by
  rw [calls, call_eq]
  by_cases fits : machine.state = required first
  · rw [if_pos fits, if_neg (by simp [fits])]
    change ((machine.following first).calls true rest >>= fun outcome =>
      some (heard machine.peerId machine.direction first ++ outcome.1, outcome.2)) = _
    cases (machine.following first).calls true rest <;> rfl
  · rw [if_neg fits, if_pos ⟨rfl, fits⟩]
    rfl

/-- The first of several calls, made in its state. -/
theorem calls_fit {machine : PeerStateMachine} {first : Call}
    (fits : machine.state = required first) (rest : List Call) :
    machine.calls true (first :: rest) =
      ((machine.following first).calls true rest).map fun outcome =>
        (heard machine.peerId machine.direction first ++ outcome.1, outcome.2) := by
  rw [calls_cons, if_pos fits]

/-- A machine admits calls exactly if it admits the first one and then the others. -/
theorem admits_cons {machine : PeerStateMachine} {first : Call} {rest : List Call} :
    (machine.calls true (first :: rest)).isSome ↔
      machine.state = required first ∧ ((machine.following first).calls true rest).isSome := by
  rw [calls_cons]
  split
  case isTrue fits => simp [fits]
  case isFalse misfits => simp [misfits]

section Admitted

variable {machine : PeerStateMachine} {made : List Call}

/-- At the end of a life nothing is admitted. -/
theorem ended_admits (ended : machine.state = .disconnected ∨ machine.state = .failed) :
    (machine.calls true made).isSome ↔ made = [] := by
  cases made with
  | nil => simp [calls]
  | cons first rest =>
    rw [admits_cons]
    cases first <;> simp [required] <;> rcases ended with state | state <;> simp [state]

/-- An active peer's messages are admitted, and then its disconnect. -/
theorem active_admits (active : machine.state = .active) :
    (machine.calls true made).isSome ↔ ∃ messages reason, made <+: activity messages reason := by
  induction made with
  | nil => simp [calls]
  | cons first rest inductionHypothesis =>
    rw [admits_cons, active]
    cases first with
    | messageEvent message =>
      rw [following, inductionHypothesis]
      constructor
      · rintro ⟨_, messages, reason, part⟩
        exact ⟨message :: messages, reason, (List.prefix_cons_inj _).mpr part⟩
      · rintro ⟨messages, reason, part⟩
        refine ⟨rfl, ?_⟩
        cases messages with
        | nil => exact absurd (List.cons_prefix_cons.mp part).1 Call.noConfusion
        | cons _ messages => exact ⟨messages, reason, (List.cons_prefix_cons.mp part).2⟩
    | setDisconnected reason =>
      rw [ended_admits (Or.inl rfl)]
      constructor
      · rintro ⟨_, rfl⟩
        exact ⟨[], reason, List.prefix_rfl⟩
      · rintro ⟨messages, other, part⟩
        refine ⟨rfl, ?_⟩
        cases messages with
        | nil => exact List.prefix_nil.mp (List.cons_prefix_cons.mp part).2
        | cons _ messages => exact absurd (List.cons_prefix_cons.mp part).1 Call.noConfusion
    | setHandshaking | setActive | setFailed =>
      refine iff_of_false (by rintro ⟨⟨⟩, _⟩) ?_
      rintro ⟨messages, reason, part⟩
      cases messages with
      | nil => exact absurd (List.cons_prefix_cons.mp part).1 Call.noConfusion
      | cons _ messages => exact absurd (List.cons_prefix_cons.mp part).1 Call.noConfusion

/-- In the handshake the announcement and then the peer's activity are admitted, or its
failure. -/
theorem handshaking_admits (handshaking : machine.state = .handshaking) :
    (machine.calls true made).isSome ↔
      (∃ spec messages reason, made <+: .setActive spec :: activity messages reason) ∨
        ∃ reason, made <+: [.setFailed reason] := by
  cases made with
  | nil => simp [calls]
  | cons first rest =>
    rw [admits_cons, handshaking]
    simp only [List.cons_prefix_cons]
    cases first with
    | setActive spec =>
      rw [active_admits rfl]
      simp [required]
    | setFailed reason =>
      rw [ended_admits (Or.inr rfl)]
      simp [required, List.prefix_nil]
    | setHandshaking | setDisconnected | messageEvent => simp [required]

/-- A machine that has just been made admits the beginnings of a life. -/
theorem connecting_admits (connecting : machine.state = .connecting) :
    (machine.calls true made).isSome ↔
      (∃ spec messages reason, made <+: life spec messages reason) ∨
        ∃ reason, made <+: failure reason := by
  cases made with
  | nil => simp [calls]
  | cons first rest =>
    rw [admits_cons, connecting]
    simp only [life, failure, List.cons_prefix_cons]
    cases first with
    | setHandshaking =>
      rw [handshaking_admits rfl]
      simp [required]
    | setActive | setDisconnected | setFailed | messageEvent => simp [required]

/-- The events of admitted calls are those of the single calls, and the machine keeps its
peer. -/
theorem calls_heard {events : List ProtocolEvent} {last : PeerStateMachine}
    (done : machine.calls true made = some (events, last)) :
    events = made.flatMap (heard machine.peerId machine.direction) ∧
      last.peerId = machine.peerId ∧ last.direction = machine.direction := by
  induction made generalizing machine events with
  | nil =>
    cases done
    exact ⟨rfl, rfl, rfl⟩
  | cons first rest inductionHypothesis =>
    rw [calls_cons] at done
    split at done
    case isFalse => cases done
    case isTrue =>
      obtain ⟨⟨later, _⟩, others, same⟩ := Option.map_eq_some_iff.mp done
      cases same
      have kept : (machine.following first).peerId = machine.peerId ∧
          (machine.following first).direction = machine.direction := by
        cases first <;> exact ⟨rfl, rfl⟩
      obtain ⟨rfl, peer, direction⟩ := inductionHypothesis others
      rw [kept.1, kept.2]
      exact ⟨rfl, peer.trans kept.1, direction.trans kept.2⟩

end Admitted

/-- Messages leave an active machine as it is. -/
theorem calls_messages {machine : PeerStateMachine} (active : machine.state = .active)
    (messages : List ProtocolMessage) (rest : List Call) :
    machine.calls true (messages.map .messageEvent ++ rest) =
      (machine.calls true rest).map fun outcome =>
        (messages.map (.message machine.peerId) ++ outcome.1, outcome.2) := by
  induction messages with
  | nil => exact Option.map_id'.symm
  | cons message messages inductionHypothesis =>
    rw [List.map_cons, List.cons_append, calls_fit active, following, inductionHypothesis,
      Option.map_map]
    rfl

/-- The calls of a life up to a number of messages, and then others. -/
theorem calls_announced (peerId : PeerId) (direction : Direction) (spec : PeerSpec)
    (messages : List ProtocolMessage) (rest : List Call) :
    (new peerId direction).calls true
        (.setHandshaking :: .setActive spec :: (messages.map .messageEvent ++ rest)) =
      ((PeerStateMachine.mk peerId direction .active (some spec)).calls true rest).map
        fun outcome => (.peerConnected peerId spec direction ::
          messages.map (.message peerId) ++ outcome.1, outcome.2) := by
  rw [calls_fit rfl, calls_fit rfl, calls_messages rfl, Option.map_map, Option.map_map]
  rfl

/-- A build that checks the assertions admits exactly the beginnings of two kinds of lives: the
handshake and its failure, and the handshake, the announcement, messages and the disconnect.
The events that it returns are those of the calls, with the machine's own peer and direction. -/
theorem machine_language (peerId : PeerId) (direction : Direction) (made : List Call) :
    (((new peerId direction).calls true made).isSome ↔
      (∃ spec messages reason, made <+: life spec messages reason) ∨
        ∃ reason, made <+: failure reason) ∧
    ∀ events last, (new peerId direction).calls true made = some (events, last) →
      events = made.flatMap (heard peerId direction) :=
  ⟨connecting_admits rfl, fun _ _ done => (calls_heard done).1⟩

/-- A peer is announced and sends a message. -/
theorem machine_language_message :
    ∃ events last, (new ⟨1⟩ .inbound).calls true [.setHandshaking,
        .setActive ⟨"", ⟨4, 0, 100⟩, "", none, []⟩, .messageEvent .getPeers] = some (events, last) ∧
      events = [.peerConnected ⟨1⟩ ⟨"", ⟨4, 0, 100⟩, "", none, []⟩ .inbound,
        .message ⟨1⟩ .getPeers] := by
  obtain ⟨admitted, heard⟩ := machine_language ⟨1⟩ .inbound [.setHandshaking,
    .setActive ⟨"", ⟨4, 0, 100⟩, "", none, []⟩, .messageEvent .getPeers]
  obtain ⟨⟨events, last⟩, done⟩ := Option.isSome_iff_exists.mp
    (admitted.mpr (Or.inl ⟨_, [.getPeers], "", List.prefix_append _ [Call.setDisconnected ""]⟩))
  exact ⟨events, last, done, heard events last done⟩

end ErgoProxy.PeerStateMachine
