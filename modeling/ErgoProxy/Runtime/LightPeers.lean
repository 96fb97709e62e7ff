import ErgoProxy.Runtime.EndToEnd

/-!
# Synchronization and light mode

The router drops the synchronization messages of peers in light mode, so an inbound peer that has
a partner is in full mode. Its partner is chosen among the outbound peers whatever their mode, so a
router that is driven by arbitrary calls does forward synchronization to a peer in light mode.

The program makes no such calls. The mode of an inbound peer is the mode of its listener, and
whatever the manager dials runs in full mode. So synchronization passes between full-mode peers
only, and none of it can be read from what is handed to the socket of a peer in light mode.
-/

namespace ErgoProxy.Runtime

open ErgoProxy.Frame Routing Runs Session

/-- The task of the peer runs in this direction and mode. -/
def RunsAs (sys : System) (peer : PeerId) (direction : Direction) (mode : ProxyMode) : Prop :=
  ∃ origin task, sys.conns.lookup peer = some ⟨origin, .running task⟩ ∧
    task.direction = direction ∧ task.mode = mode

variable {config : Config} {blake2b256 : Bytes → Vector UInt8 32} {sys : System}
  {history : List Label} {trace : List (Transition System Label)} {peer : PeerId}
  {direction otherDirection : Direction} {mode otherMode : ProxyMode}

/-- A task runs in one direction and in one mode. -/
theorem runsAs_unique (runs : RunsAs sys peer direction mode)
    (again : RunsAs sys peer otherDirection otherMode) :
    direction = otherDirection ∧ mode = otherMode := by
  obtain ⟨_, task, here, rfl, rfl⟩ := runs
  obtain ⟨_, _, found, rfl, rfl⟩ := again
  cases here.symm.trans found
  exact ⟨rfl, rfl⟩

/-- A registration names the direction and the mode of the task. -/
theorem registeredAs_runsAs (run : SystemRun config blake2b256 history sys)
    (registered : RegisteredAs (calls history) peer ⟨direction, mode⟩) :
    RunsAs sys peer direction mode := by
  obtain ⟨origin, task, here, ⟨⟩⟩ := registeredAs_running run registered
  exact ⟨origin, task, here, rfl, rfl⟩

/-- Whoever was dialed runs in full mode. -/
theorem outbound_full (run : SystemRun config blake2b256 history sys)
    (runs : RunsAs sys peer .outbound mode) : mode = .full := by
  obtain ⟨origin, task, here, directed, rfl⟩ := runs
  have given := (run_admitted run here).given
  cases origin with
  | listener index =>
    obtain ⟨_, _, inbound, _⟩ := given
    cases inbound.symm.trans directed
  | manager => exact given.2.1

/-- A synchronization message that the router has emitted comes from a full-mode peer and goes to
a full-mode peer on the opposite side. -/
theorem emitted_synced (run : TracedRun config blake2b256 trace sys) {body : Bytes}
    (member : .syncInfo body ∈ collect (emitted peer) (trace.map Transition.label)) :
    ∃ source direction, RunsAs sys source direction .full ∧
      RunsAs sys peer (oppositeDirection direction) .full ∧
      Says blake2b256 trace source (.syncInfo body) := by
  have reached := untraced run
  obtain ⟨entry, recorded, action, acted, rfl, kind⟩ := emitted_recorded member
  obtain ⟨source, heard, ⟨inbound, mode, outbound⟩ | ⟨outbound, inbound⟩⟩ :=
    synced_full (run_calls reached) (run_once reached) recorded acted kind
  · have target := registeredAs_runsAs reached outbound
    rw [outbound_full reached target] at target
    exact ⟨source, .inbound, registeredAs_runsAs reached inbound, target, heard_says run heard⟩
  · exact ⟨source, .outbound, registeredAs_runsAs reached outbound,
      registeredAs_runsAs reached inbound, heard_says run heard⟩

/-- In every run, a synchronization message that can be read from the bytes handed to the socket of a
peer was sent by a full-mode peer on the opposite side, and the connection is in full mode itself. So
none can be read from the bytes for a peer in light mode. -/
theorem light_unsynced (run : TracedRun config blake2b256 trace sys) {peer : PeerId} {bytes : Bytes}
    (transmitted : Transmitted blake2b256 config.network.magic trace sys peer bytes) :
    (∀ body, .syncInfo body ∈ parsed (streamFrames blake2b256 config.network.magic bytes) →
        ∃ source direction, RunsAs sys source direction .full ∧
          RunsAs sys peer (oppositeDirection direction) .full ∧
          Says blake2b256 trace source (.syncInfo body)) ∧
      ∀ direction, RunsAs sys peer direction .light → ∀ body,
        .syncInfo body ∉ parsed (streamFrames blake2b256 config.network.magic bytes) := by
  have synced : ∀ body, .syncInfo body ∈
      parsed (streamFrames blake2b256 config.network.magic bytes) →
      ∃ source direction, RunsAs sys source direction .full ∧
        RunsAs sys peer (oppositeDirection direction) .full ∧
        Says blake2b256 trace source (.syncInfo body) := by
    intro body read
    obtain ⟨settlement, _, kind⟩ := read_settled run transmitted read
    cases loop : settlement.loop with
    | events =>
      rw [loop] at kind
      exact emitted_synced run kind
    | keepalive =>
      rw [loop] at kind
      cases kind
  refine ⟨synced, ?_⟩
  intro direction light body read
  obtain ⟨_, _, _, full, _⟩ := synced body read
  cases (runsAs_unique light full).2

/-- A proxy with one listener, which admits one peer in light mode. -/
def lightConfig : Config := ⟨"ergo-proxy", "light", ⟨6, 0, 1⟩, .testnet, [⟨.light, 1⟩]⟩

/-- What an accepted full-mode peer sends to synchronize can be read by a dialed one, which is in full
mode too; and a peer in light mode that can read an answer can read no such message. -/
theorem light_unsynced_relay :
    (∃ trace sys source direction, TracedRun soloConfig (fun _ => emptyDigest) trace sys ∧
      RunsAs sys source direction .full ∧ RunsAs sys ⟨1⟩ (oppositeDirection direction) .full ∧
      Says (fun _ => emptyDigest) trace source relayedSync) ∧
    ∃ trace sys bytes, TracedRun lightConfig (fun _ => emptyDigest) trace sys ∧
      RunsAs sys ⟨1⟩ .inbound .light ∧
      .peers [] ∈ parsed (streamFrames (fun _ => emptyDigest) lightConfig.network.magic bytes) ∧
      ∀ body, .syncInfo body ∉
        parsed (streamFrames (fun _ => emptyDigest) lightConfig.network.magic bytes) := by
  constructor
  · obtain ⟨trace, sys, run, transmitted⟩ := relayed_transmitted
    have read : .syncInfo [7] ∈ parsed (streamFrames (fun _ => emptyDigest) soloConfig.network.magic
        relayedBytes) := by
      rw [relayed_parsed]
      exact List.mem_cons_self
    obtain ⟨source, direction, theirs, ours, said⟩ := (light_unsynced run transmitted).1 [7] read
    exact ⟨trace, sys, source, direction, run, theirs, ours, said⟩
  · have configured : lightConfig.listeners[0]? = some ⟨.light, 1⟩ := rfl
    obtain ⟨_, run, served⟩ := first_served (fun _ => emptyDigest) configured Nat.one_pos
      [ProtocolMessage.getPeers.toFrame]
    obtain ⟨_, answered, served⟩ := served_round served (by decide)
    have reached := continued run answered
    have before : RunsAs _ ⟨1⟩ .inbound .light := registeredAs_runsAs reached
      ⟨_, List.mem_filterMap.mpr ⟨.task ⟨1⟩ [.registerPeer ⟨1⟩ .inbound .light],
        by simp [arrivalLabels], rfl⟩, rfl⟩
    obtain ⟨origin, task, here, directed, light⟩ := before
    obtain ⟨trace, sys, whole, transmitted, kept⟩ := served_transmitted reached served
      (by simp [askedLabels, connectedLabels, arrivalLabels, connectingLabels])
    have runs : RunsAs sys ⟨1⟩ .inbound .light :=
      ⟨origin, task, (kept ⟨1⟩).trans here, directed, light⟩
    refine ⟨trace, sys, _, whole, runs, ?_, (light_unsynced whole transmitted).2 _ runs⟩
    rw [frame_decoded _ _ (by decide)]
    exact List.mem_cons_self

end ErgoProxy.Runtime
