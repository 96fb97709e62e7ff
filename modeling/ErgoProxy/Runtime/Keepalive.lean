import ErgoProxy.Runtime.EndToEnd
import ErgoProxy.Runtime.OutboundManager

/-!
# The keepalive task

At every tick the keepalive task asks each outbound peer for its peers. What becomes of a
request depends on the sender and the write queue, as for every other frame. But no request is
lost on the way to them and none is made twice, and since the router itself asks nobody for
peers, at most one such request can be read on the other side for each tick that has found the
peer registered.
-/

namespace ErgoProxy.Runtime

open ErgoProxy.Frame FiniteMaps Routing Runs Session

/-- The step is a tick that finds the peer registered as outbound. -/
def asks (peer : PeerId) (step : Transition System Label) : Bool :=
  match step.label with
  | .tick => step.before.registeredOutbound peer
  | _ => false

variable {config : Config} {blake2b256 : Bytes → Vector UInt8 32} {sys after : System}
  {label : Label} {trace : List (Transition System Label)}

/-- One message for each peer of a list is a frame for each time the peer is listed. -/
theorem framesFor_sends (peer : PeerId) (message : ProtocolMessage) (peers : List PeerId) :
    framesFor peer (peers.map fun target => .send target message) =
      List.replicate (peers.count peer) message.toFrame := by
  induction peers with
  | nil => rfl
  | cons first peers inductionHypothesis =>
    rw [List.map_cons, framesFor_cons, inductionHypothesis]
    by_cases own : first = peer
    · rw [own, List.count_cons_self, List.replicate_succ]
      exact if_pos rfl
    · rw [List.count_cons_of_ne own]
      exact if_neg own

/-- A step gives the keepalive task one request if it is a tick that finds the peer registered,
and none otherwise. -/
theorem step_asks (taken : Step config blake2b256 sys label after) (peer : PeerId) :
    assigned .keepalive peer ⟨sys, label, after⟩ =
      List.replicate (if asks peer ⟨sys, label, after⟩ then 1 else 0)
        ProtocolMessage.getPeers.toFrame := by
  cases taken with
  | tick visit here =>
    simp only [assigned, asks, System.loops_moveLoop, if_true, LoopPoint.unsent, framesFor_sends,
      (System.outboundPeers_nodup visit).count]
    exact congrArg (List.replicate · _) (if_congr (System.mem_outboundPeers visit) rfl rfl)
  | _ => rfl

/-- The keepalive task was given one request for each tick that found the peer registered. -/
theorem run_asks (run : TracedRun config blake2b256 trace sys) (peer : PeerId) :
    collect (assigned .keepalive peer) trace =
      List.replicate (trace.countP (asks peer)) ProtocolMessage.getPeers.toFrame := by
  refine invariant (fun earlier _ => collect (assigned .keepalive peer) earlier =
    List.replicate (earlier.countP (asks peer)) ProtocolMessage.getPeers.toFrame) rfl ?_ run
  rintro earlier _ ⟨before, label, after⟩ _ _ counted ⟨rfl, rfl, taken⟩
  rw [collect_cons, counted, step_asks taken, List.replicate_append_replicate, List.countP_cons]

/-- A step leaves the keepalive task with at most one request for a peer: a tick finds it
without any. -/
theorem step_unsent (taken : Step config blake2b256 sys label after) {peer : PeerId}
    (single : ((sys.loops .keepalive).unsent peer).length ≤ 1) :
    ((after.loops .keepalive).unsent peer).length ≤ 1 := by
  have account := congrArg List.length (step_assigned taken .keepalive peer)
  rw [step_asks taken, List.length_append, List.length_append, List.length_replicate] at account
  by_cases asked : asks peer ⟨sys, label, after⟩ = true
  · have idle : ((sys.loops .keepalive).unsent peer).length = 0 := by
      cases taken with
      | tick visit here =>
        rw [here]
        rfl
      | _ => cases asked
    rw [if_pos asked] at account
    omega
  · rw [if_neg asked] at account
    omega

/-- The keepalive task has at most one request for a peer to deal with. -/
theorem run_unsent (run : TracedRun config blake2b256 trace sys) (peer : PeerId) :
    ((sys.loops .keepalive).unsent peer).length ≤ 1 := by
  refine invariant (fun _ reached => ((reached.loops .keepalive).unsent peer).length ≤ 1)
    (Nat.zero_le 1) ?_ run
  rintro earlier _ ⟨before, label, after⟩ _ _ single ⟨rfl, rfl, taken⟩
  exact step_unsent taken single

/-- A request for peers that can be read was settled by the keepalive task. -/
theorem readings_getPeers (run : TracedRun config blake2b256 trace sys) {peer : PeerId}
    {reading : Loop × ProtocolMessage}
    (member : reading ∈ readings (collect (settled peer) trace)) (kind : reading.2 = .getPeers) :
    reading.1 = .keepalive := by
  obtain ⟨settlement, settles, outcome⟩ := List.mem_filterMap.mp member
  obtain ⟨message, readable, same, origin⟩ := settled_message run settles
  rw [same, readable.2] at outcome
  obtain rfl := Option.some.inj outcome
  cases loop : settlement.loop with
  | keepalive => rfl
  | events =>
    rw [loop] at origin
    -- Nothing that the router emits is a request for peers.
    obtain rfl : message = .getPeers := kind
    cases emitted_grounds run origin with
    | crossed crossing => cases crossing

/-- No more requests for peers can be read than the keepalive task has settled. -/
theorem read_getPeers (run : TracedRun config blake2b256 trace sys) {peer : PeerId} {bytes : Bytes}
    (transmitted : Transmitted blake2b256 config.network.magic trace sys peer bytes) :
    (parsed (streamFrames blake2b256 config.network.magic bytes)).count .getPeers ≤
      (settledBy .keepalive (collect (settled peer) trace)).length := by
  have decoded : (streamFrames blake2b256 config.network.magic bytes).Sublist
      ((collect (settled peer) trace).map Settlement.frame) := by
    have taken := decoded_accepted run transmitted
    rw [accepted_settled] at taken
    exact taken.sublist.trans (List.filter_sublist.map _)
  calc (parsed (streamFrames blake2b256 config.network.magic bytes)).count .getPeers
      ≤ (parsed ((collect (settled peer) trace).map Settlement.frame)).count .getPeers :=
        (decoded.filterMap _).count_le _
    _ = (readings (collect (settled peer) trace)).countP fun reading => reading.2 == .getPeers := by
        rw [← readings_parsed, List.count, List.countP_map]
        rfl
    _ ≤ (readings (collect (settled peer) trace)).countP fun reading => reading.1 = .keepalive :=
        List.countP_mono_left fun reading member kind =>
          decide_eq_true (readings_getPeers run member (eq_of_beq kind))
    _ = (parsed (settledBy .keepalive (collect (settled peer) trace))).length := by
        rw [← readings_by, List.length_map, List.countP_eq_length_filter]
    _ ≤ (settledBy .keepalive (collect (settled peer) trace)).length :=
        List.length_filterMap_le _ _

/-- In every run, for every peer: the keepalive task has settled one request for peers, and
nothing else, for each tick that found the peer registered as outbound, except that it may
still have the last one to deal with. And from the bytes handed to the socket of the peer no more
requests for peers can be read than there were such ticks, and none if the peer was never registered
as outbound. -/
theorem keepalive_exact (run : TracedRun config blake2b256 trace sys) (peer : PeerId) :
    (∃ done pending, done + pending = trace.countP (asks peer) ∧ pending ≤ 1 ∧
      settledBy .keepalive (collect (settled peer) trace) =
        List.replicate done ProtocolMessage.getPeers.toFrame ∧
      (sys.loops .keepalive).unsent peer =
        List.replicate pending ProtocolMessage.getPeers.toFrame) ∧
    ∀ bytes, Transmitted blake2b256 config.network.magic trace sys peer bytes →
      (parsed (streamFrames blake2b256 config.network.magic bytes)).count .getPeers ≤
        trace.countP (asks peer) := by
  have whole := (run_assigned run .keepalive peer).symm.trans (run_asks run peer)
  obtain ⟨total, done, waiting⟩ := List.append_eq_replicate_iff.mp whole
  refine ⟨⟨_, _, total, run_unsent run peer, done, waiting⟩, ?_⟩
  intro bytes transmitted
  calc (parsed (streamFrames blake2b256 config.network.magic bytes)).count .getPeers
      ≤ (settledBy .keepalive (collect (settled peer) trace)).length := read_getPeers run transmitted
    _ ≤ trace.countP (asks peer) := by omega

/-- A proxy dials its first peer, and a tick finds it registered. -/
theorem keepalive_exact_dialed :
    ∃ trace sys, TracedRun soloConfig (fun _ => emptyDigest) trace sys ∧
      0 < trace.countP (asks ⟨1⟩) ∧
      ∃ done pending, done + pending = trace.countP (asks ⟨1⟩) ∧ pending ≤ 1 ∧
        settledBy .keepalive (collect (settled ⟨1⟩) trace) =
          List.replicate done ProtocolMessage.getPeers.toFrame := by
  obtain ⟨before, dialed, served⟩ := spawned_served
    (.dial System.new rfl : Step soloConfig (fun _ => emptyDigest) _ _ _)
    (manager_handshaken _) (by decide) (fun _ => rfl) []
  obtain ⟨earlier, reached, _⟩ := traced dialed
  obtain ⟨visit⟩ := traversal_exists before.router.peers
  have ticks : Step soloConfig (fun _ => emptyDigest) before .tick _ :=
    .tick before visit served.keepalive
  have run : TracedRun soloConfig (fun _ => emptyDigest) (⟨before, .tick, _⟩ :: earlier) _ :=
    .extend reached ⟨rfl, rfl, ticks⟩
  have asked (after : System) : asks ⟨1⟩ ⟨before, .tick, after⟩ = true := by
    rw [asks, System.registeredOutbound_iff, served.routing]
    exact ⟨⟨.outbound, .full⟩, rfl, rfl⟩
  obtain ⟨done, pending, total, few, settles, _⟩ := (keepalive_exact run ⟨1⟩).1
  exact ⟨_, _, run, List.countP_pos_iff.mpr ⟨_, List.mem_cons_self, asked _⟩,
    done, pending, total, few, settles⟩

end ErgoProxy.Runtime
