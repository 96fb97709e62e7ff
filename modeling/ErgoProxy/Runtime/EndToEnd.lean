import ErgoProxy.Routing.Grounds
import ErgoProxy.Runtime.Progress
import ErgoProxy.Runtime.Wire

/-!
# From one side to the other

The grounds of what the router sends are found in the calls of the router. Each call stands for
a message that a peer has sent after its handshake, and each registration for a task with its
direction. So the grounds can be read off the byte streams: whatever can be read from the bytes
handed to a socket has its grounds in what was sent on the connections, and in nothing else.

In the other direction nothing is left over. When the program has settled, the router has
handled every message that was sent, and everything that it has emitted was taken by a write
queue or came when there was none.
-/

namespace ErgoProxy.Runtime

open ErgoProxy.Frame Exhaustion FiniteMaps Routing Runs Session

/-- The message is in the stream of a peer behind its handshake. -/
def Says (blake2b256 : Bytes → Vector UInt8 32) (trace : List (Transition System Label))
    (source : PeerId) (message : ProtocolMessage) : Prop :=
  ∃ task, Started trace source task ∧
    message ∈ parsed (streamFrames blake2b256 task.magic task.reader.contents)

/-- The task of the peer has the direction. -/
def OnSide (trace : List (Transition System Label)) (peer : PeerId) (direction : Direction) : Prop :=
  ∃ task, Started trace peer task ∧ task.direction = direction

variable {config : Config} {blake2b256 : Bytes → Vector UInt8 32} {sys after : System}
  {trace : List (Transition System Label)} {peer source : PeerId} {message : ProtocolMessage}

/-- What the router has heard, a peer has said. -/
theorem heard_says (run : TracedRun config blake2b256 trace sys)
    (heard : Heard (calls (trace.map Transition.label)) source message) :
    Says blake2b256 trace source message := by
  obtain ⟨entry, member, called⟩ := heard
  obtain ⟨label, labelled, call⟩ := List.mem_filterMap.mp member
  unfold Label.call at call
  split at call
  · cases call
    cases called
  · cases call
    cases called
    exact message_sent run (mem_handled labelled)
  · cases call

/-- A peer that was registered has a task with the direction and the mode of the registration. -/
theorem registeredAs_running {history : List Label} (run : SystemRun config blake2b256 history sys)
    {entry : PeerEntry} (registered : RegisteredAs (calls history) peer entry) :
    ∃ origin task, sys.conns.lookup peer = some ⟨origin, .running task⟩ ∧
      entry = ⟨task.direction, task.mode⟩ := by
  obtain ⟨registration, member, called⟩ := registered
  have mentioned : .registerPeer peer entry.direction entry.mode ∈ callsAbout peer (calls history) := by
    refine List.mem_filter.mpr ⟨?_, decide_eq_true rfl⟩
    rw [← called]
    exact List.mem_map_of_mem (List.mem_reverse.mpr member)
  rcases run_called run peer with ⟨nothing, _⟩ | ⟨origin, task, here, _, whole⟩
  · rw [nothing] at mentioned
    cases mentioned
  · rw [whole] at mentioned
    rcases List.mem_cons.mp mentioned with registration | event
    · obtain ⟨_, directed, moded⟩ := Call.registerPeer.inj registration
      exact ⟨origin, task, here, by rw [← directed, ← moded]⟩
    · obtain ⟨_, _, ⟨⟩⟩ := List.mem_map.mp event

/-- Where a peer is registered, its task is. -/
theorem sided_onSide (run : TracedRun config blake2b256 trace sys) {direction : Direction}
    (sided : Sided (calls (trace.map Transition.label)) peer direction) :
    OnSide trace peer direction := by
  obtain ⟨mode, registered⟩ := sided
  obtain ⟨origin, task, here, ⟨⟩⟩ := registeredAs_running (untraced run) registered
  exact running_started run here

/-- What the router has emitted for a peer is an action of one of its calls. -/
theorem emitted_recorded {history : List Label}
    (member : message ∈ collect (emitted peer) history) :
    ∃ entry ∈ calls history, ∃ action ∈ entry.actions,
      action.target = peer ∧ action.message = message := by
  obtain ⟨label, labelled, emission⟩ := mem_collect.mp member
  cases label with
  | handle event actions =>
    obtain ⟨action, chosen, rfl⟩ := List.mem_map.mp emission
    obtain ⟨acted, targeted⟩ := List.mem_filter.mp chosen
    exact ⟨⟨.handleEvent event, actions⟩, List.mem_filterMap.mpr ⟨_, labelled, rfl⟩, action, acted,
      of_decide_eq_true targeted, rfl⟩
  | _ => cases emission

/-- What the router has emitted for a peer has its grounds in what peers have said. -/
theorem emitted_grounds (run : TracedRun config blake2b256 trace sys)
    (member : message ∈ collect (emitted peer) (trace.map Transition.label)) :
    Grounds (Says blake2b256 trace) (OnSide trace) peer message := by
  obtain ⟨entry, recorded, action, acted, rfl, rfl⟩ := emitted_recorded member
  have reached := untraced run
  exact grounds_wider (actions_grounded (run_calls reached) (run_once reached) recorded acted)
    (fun _ _ => heard_says run) (fun _ _ => sided_onSide run)

/-- The keepalive task sends to peers that we have dialed. -/
theorem keepalive_outbound (run : TracedRun config blake2b256 trace sys) {frame : Frame}
    (member : frame ∈ collect (assigned .keepalive peer) trace) :
    OnSide trace peer .outbound := by
  obtain ⟨⟨before, label, after⟩, traced, given⟩ := mem_collect.mp member
  cases label with
  | tick =>
    obtain ⟨later, earlier, rfl⟩ := List.append_of_mem traced
    obtain ⟨reached, taken, _⟩ := divided_at run
    dsimp only at reached taken
    have sided : Sided (calls (earlier.map Transition.label)) peer .outbound := by
      cases taken with
      | tick visit here =>
        simp only [assigned, System.loops_moveLoop, if_true, LoopPoint.unsent, framesFor,
          List.mem_map, List.mem_filter] at given
        obtain ⟨_, ⟨⟨target, listed, rfl⟩, same⟩, _⟩ := given
        obtain rfl : target = peer := of_decide_eq_true same
        obtain ⟨⟨_, entry⟩, visited, rfl⟩ := List.mem_map.mp listed
        obtain ⟨found, directed⟩ := List.mem_filter.mp visited
        rw [← of_decide_eq_true directed]
        exact registered_sided (run_calls (untraced reached))
          ((traversal_lookup visit _ entry).mp found)
    obtain ⟨task, ⟨step, started, shaken⟩, directed⟩ := sided_onSide reached sided
    exact ⟨task, ⟨step, List.mem_append_right _ (List.mem_cons_of_mem _ started), shaken⟩, directed⟩
  | _ => cases given

/-- In every run, whatever can be read from the bytes handed to the socket of a peer has its
grounds. It is a request for peers and we have dialed this peer; or it is an
announcement, a synchronization message or a message of an unknown kind, exactly as a peer on
the opposite side has sent it; or it is a request for one modifier that another peer has sent
and this peer has announced; or a response with one modifier that some peer has sent and this
peer has asked for; or the empty answer to this peer's own request for peers. So the proxy
makes up nothing, announces nothing to the side it came from, and never tells a peer the
address of another. -/
theorem reads_grounded (run : TracedRun config blake2b256 trace sys) {peer : PeerId} {bytes : Bytes}
    (transmitted : Transmitted blake2b256 config.network.magic trace sys peer bytes)
    {message : ProtocolMessage}
    (read : message ∈ parsed (streamFrames blake2b256 config.network.magic bytes)) :
    message = .getPeers ∧ OnSide trace peer .outbound ∨
      Grounds (Says blake2b256 trace) (OnSide trace) peer message := by
  obtain ⟨settlement, member, kind⟩ := read_settled run transmitted read
  cases loop : settlement.loop with
  | events =>
    rw [loop] at kind
    exact Or.inr (emitted_grounds run kind)
  | keepalive =>
    rw [loop] at kind
    have given := settled_assigned run member
    rw [loop] at given
    exact Or.inl ⟨kind, keepalive_outbound run given⟩

/-- A dialed peer reads a synchronization message, and a peer on the other side has sent it. -/
theorem reads_grounded_relay :
    ∃ trace sys source direction, TracedRun soloConfig (fun _ => emptyDigest) trace sys ∧
      source ≠ ⟨1⟩ ∧ Says (fun _ => emptyDigest) trace source relayedSync ∧
      OnSide trace source direction ∧ OnSide trace ⟨1⟩ (oppositeDirection direction) := by
  obtain ⟨trace, sys, run, transmitted⟩ := relayed_transmitted
  have read : relayedSync ∈ parsed (streamFrames (fun _ => emptyDigest) soloConfig.network.magic
      relayedBytes) := by
    rw [relayed_parsed]
    exact List.mem_cons_self
  rcases reads_grounded run transmitted read with ⟨request, _⟩ | grounds
  · cases request
  · generalize same : relayedSync = message at grounds
    cases grounds with
    | @crossed source direction _ kind other received theirs ours =>
      subst same
      exact ⟨trace, sys, source, direction, run, other, received, theirs, ours⟩
    | requested | answered | unshared => cases same

end ErgoProxy.Runtime
