import ErgoProxy.Protocol.MessageCodec
import ErgoProxy.Runtime.PeerTask
import ErgoProxy.Transport.HandshakeBuild
import ErgoProxy.Transport.HandshakeReading

/-!
# The session of a peer

A peer sends its handshake, then frames, and closes. The handshake read consumes the
measured size and leaves the excess in the buffer, each frame read consumes one
encoded frame, so the events of the task that serves the peer are determined by the
frames alone: how the stream was cut into chunks does not matter as soon as the
first chunk holds the handshake, and a frame whose body cannot be parsed only fails
to produce its own event.
-/

namespace ErgoProxy.Session

open Handshake Connection Vlq

/-- The task of an accepted socket: the handshake as responder, then the session. A
failed handshake ends the task without an action. -/
def inboundTask (blake2b256 : Bytes → Vector UInt8 32) (config : HandshakeConfig)
    (surroundings : Surroundings) (listening : Nat → Bool) (peerId : PeerId) (mode : ProxyMode)
    (reader : BufReader) : List TaskEffect :=
  match inbound config surroundings reader with
  | .error _ => []
  | .ok conn => (PeerTask.start peerId conn .inbound mode).execute blake2b256 listening

/-- The task of a socket connected to a seed: the handshake as initiator, then the
session, unless the other side is a proxy too. -/
def outboundTask (blake2b256 : Bytes → Vector UInt8 32) (config : HandshakeConfig)
    (surroundings : Surroundings) (listening : Nat → Bool) (peerId : PeerId) (mode : ProxyMode)
    (reader : BufReader) : List TaskEffect :=
  match outbound config surroundings reader with
  | .error _ => []
  | .ok conn =>
    if isProxy conn.peerSpec then []
    else (PeerTask.start peerId conn .outbound mode).execute blake2b256 listening

/-- The events among a task's actions. -/
def events (effects : List TaskEffect) : List ProtocolEvent :=
  effects.filterMap fun
    | .event event => some event
    | _ => none

/-- The events of a peer's frames: one for each frame that can be parsed. -/
def messages (peerId : PeerId) (frames : List Frame) : List ProtocolEvent :=
  frames.filterMap fun frame =>
    match ProtocolMessage.fromFrame frame with
    | .ok message => some (.message peerId message)
    | .error _ => none

/-- Events of consecutive actions. -/
theorem events_append (first second : List TaskEffect) :
    events (first ++ second) = events first ++ events second :=
  List.filterMap_append

section Tasks

variable (blake2b256 : Bytes → Vector UInt8 32) {task : PeerTask} {listening : Nat → Bool}

/-- A step contributes its events before those of the rest of the task. -/
theorem step_events {next : PeerTask} {effects : List TaskEffect}
    (stepped : task.step blake2b256 (listening 0) = some (effects, next)) :
    events (task.execute blake2b256 listening) = events effects ++
      events (next.execute blake2b256 fun count => listening (count + 1)) := by
  rw [PeerTask.execute_step blake2b256 stepped, events_append]

/-- Behind the reader loop, the disconnect is the only event. -/
theorem removing_events (alive : ∀ count, listening count = true)
    (left : task.point = .removing) :
    events (task.execute blake2b256 listening) =
      [.peerDisconnected task.peerId "connection closed"] := by
  rw [step_events blake2b256 (by rw [PeerTask.step, left]), step_events blake2b256 rfl,
    step_events blake2b256 rfl, PeerTask.execute_finished blake2b256 _ rfl, alive]
  rfl

/-- In the reader loop, a round contributes its events before those of the rest. -/
theorem round_events (alive : ∀ count, listening count = true) (loops : task.point = .reading) :
    events (task.execute blake2b256 listening) =
      events (task.readRound blake2b256 true).1 ++
        events ((task.readRound blake2b256 true).2.execute blake2b256
          fun count => listening (count + 1)) :=
  step_events blake2b256 (by rw [PeerTask.step, loops, alive])

/-- The reader loop on encoded frames that are followed by the end of the stream: one
event for each frame that can be parsed, then the disconnect. -/
theorem reading_events (alive : ∀ count, listening count = true)
    (loops : task.point = .reading) {frames : List Frame}
    (admissible : ∀ frame ∈ frames, frame.body.length ≤ Frame.maxBodySize.toNat)
    (arriving : task.reader.contents = frames.flatMap (Frame.encode blake2b256 task.magic)) :
    events (task.execute blake2b256 listening) =
      messages task.peerId frames ++ [.peerDisconnected task.peerId "connection closed"] := by
  induction frames generalizing task listening with
  | nil =>
    obtain ⟨problem, reader, failed⟩ :=
      Frame.readFrame_ended blake2b256 BufReader.filling task.magic arriving
    rw [round_events blake2b256 alive loops, PeerTask.readRound_failed blake2b256 true failed]
    exact removing_events blake2b256 (fun count => alive (count + 1)) rfl
  | cons frame frames inductionHypothesis =>
    obtain ⟨reader, read, rest⟩ := Frame.readFrame_encoded blake2b256 BufReader.filling
      (admissible frame List.mem_cons_self) arriving
    have aliveLater : ∀ count, listening (count + 1) = true := fun count => alive (count + 1)
    have later : ∀ next ∈ frames, next.body.length ≤ Frame.maxBodySize.toNat :=
      fun next member => admissible next (List.mem_cons_of_mem frame member)
    rw [round_events blake2b256 alive loops]
    cases parsed : ProtocolMessage.fromFrame frame with
    | error problem =>
      have skipped : messages task.peerId (frame :: frames) = messages task.peerId frames := by
        simp [messages, parsed]
      have stillLoops : { task with reader }.point = .reading := loops
      rw [PeerTask.readRound_skipped blake2b256 true read parsed, skipped,
        inductionHypothesis aliveLater stillLoops later rest]
      rfl
    | ok message =>
      have reported : messages task.peerId (frame :: frames) =
          .message task.peerId message :: messages task.peerId frames := by
        simp [messages, parsed]
      rw [PeerTask.readRound_reported blake2b256 true read parsed, reported,
        inductionHypothesis aliveLater rfl later rest]
      rfl

/-- A task that has just been started reports the connection, then reads. -/
theorem start_events (alive : ∀ count, listening count = true) (peerId : PeerId)
    (conn : Connection) (direction : Direction) (mode : ProxyMode) {frames : List Frame}
    (admissible : ∀ frame ∈ frames, frame.body.length ≤ Frame.maxBodySize.toNat)
    (arriving : conn.reader.contents = frames.flatMap (Frame.encode blake2b256 conn.magic)) :
    events ((PeerTask.start peerId conn direction mode).execute blake2b256 listening) =
      .peerConnected peerId conn.peerSpec direction ::
        messages peerId frames ++ [.peerDisconnected peerId "connection closed"] := by
  rw [step_events blake2b256 rfl, step_events blake2b256 rfl, step_events blake2b256 rfl,
    step_events blake2b256 rfl, reading_events blake2b256 (fun count => alive _) rfl admissible
    arriving, alive]
  rfl

end Tasks

section Handshakes

variable {ours theirs : HandshakeConfig} {surroundings : Surroundings} {now sessionId : UInt64}
  {chunks : List Bytes} {tail : Bytes} (agentShort : (asBytes theirs.agentName).length ≤ 255)
  (nameShort : (asBytes theirs.peerName).length ≤ 255)
  (sameNetwork : ours.network = theirs.network) (recent : Version.eip37Min ≤ theirs.version)
  (inTime : surroundings.timedOut = false) (nonempty : ∀ chunk ∈ chunks, chunk ≠ [])
  (sent : chunks.flatten = build theirs now sessionId ++ tail)
  (inFirst : (build theirs now sessionId).length ≤ (chunks.headD []).length)

include agentShort nameShort sameNetwork recent inTime nonempty sent inFirst

/-- A built handshake of our network that arrives in the first chunk is received, and
what was sent behind it is still to be read. -/
theorem receiveHandshake_built :
    ∃ reader, receiveHandshake ours surroundings (chunked chunks) =
        .ok (builtSpec theirs sessionId) reader ∧ reader.contents = tail := by
  have consumed := consumes_build agentShort nameShort now sessionId
  have small : (build theirs now sessionId).length ≤ BufReader.capacity :=
    Nat.le_trans (build_length agentShort nameShort now sessionId) (by decide)
  obtain ⟨reader, read, left⟩ := first_readsTo (consumed_measured consumed tail)
    (parse_ok (consumed tail)) small nonempty sent inFirst
  have valid := (validatePeer_built theirs sessionId ours.network).mpr ⟨sameNetwork, recent⟩
  refine ⟨reader, ?_, left.trans List.drop_left⟩
  unfold receiveHandshake
  rw [inTime, if_neg Bool.false_ne_true, ExactReaders.bind_of_ok read, valid]
  rfl

/-- An outbound connection to a proxy ends without an action. -/
theorem outbound_proxy_skipped (blake2b256 : Bytes → Vector UInt8 32)
    (listening : Nat → Bool) (peerId : PeerId) (mode : ProxyMode) :
    outboundTask blake2b256 ours surroundings listening peerId mode (chunked chunks) = [] := by
  obtain ⟨reader, received, _⟩ := receiveHandshake_built agentShort nameShort sameNetwork recent
    inTime nonempty sent inFirst
  rw [outboundTask, outbound, received]
  cases surroundings.writeOutcome with
  | error problem => rfl
  | ok done => rfl

end Handshakes

/-- A peer of our network sends its handshake and frames, and closes. However the stream
is cut into chunks, if the first chunk holds the handshake, then the task of the
accepted socket sends exactly these events: the connection with the peer's
specification, one message for each frame that can be parsed, in the order of
sending, and the disconnect. -/
theorem session_events (blake2b256 : Bytes → Vector UInt8 32) {ours theirs : HandshakeConfig}
    {surroundings : Surroundings} {listening : Nat → Bool} {now sessionId : UInt64}
    {chunks : List Bytes} {frames : List Frame} (peerId : PeerId) (mode : ProxyMode)
    (agentShort : (asBytes theirs.agentName).length ≤ 255)
    (nameShort : (asBytes theirs.peerName).length ≤ 255)
    (sameNetwork : ours.network = theirs.network) (recent : Version.eip37Min ≤ theirs.version)
    (admissible : ∀ frame ∈ frames, frame.body.length ≤ Frame.maxBodySize.toNat)
    (nonempty : ∀ chunk ∈ chunks, chunk ≠ [])
    (sent : chunks.flatten = build theirs now sessionId ++
      frames.flatMap (Frame.encode blake2b256 theirs.network.magic))
    (inFirst : (build theirs now sessionId).length ≤ (chunks.headD []).length)
    (inTime : surroundings.timedOut = false) (written : surroundings.writeOutcome = .ok ())
    (alive : ∀ count, listening count = true) :
    events (inboundTask blake2b256 ours surroundings listening peerId mode (chunked chunks)) =
      .peerConnected peerId (builtSpec theirs sessionId) .inbound ::
        messages peerId frames ++ [.peerDisconnected peerId "connection closed"] := by
  obtain ⟨reader, received, left⟩ := receiveHandshake_built agentShort nameShort sameNetwork recent
    inTime nonempty sent inFirst
  rw [← sameNetwork] at left
  rw [inboundTask, inbound, received, written]
  exact start_events blake2b256 alive peerId _ .inbound mode admissible left

/-- Two requests for peers, and between them an inventory without a body, which cannot
be parsed. -/
def inventoryFrames : List Frame := [⟨1, []⟩, ⟨55, []⟩, ⟨1, []⟩]

/-- A stream of these frames behind a handshake, in chunks that end inside frames. -/
def inventoryChunks : List Bytes :=
  [build proxyConfig 1700000000000 42 ++ [2, 3],
    [2, 3, 1, 0, 0, 0, 0, 0x0e, 0x57, 0x51, 0xc0, 2, 3, 2, 3, 55, 0, 0],
    [0, 0, 0x0e, 0x57, 0x51, 0xc0, 2, 3, 2, 3, 1, 0, 0, 0, 0, 0x0e, 0x57, 0x51, 0xc0]]

/-- The accepting side, which declares no address. -/
def listenerConfig : HandshakeConfig := { proxyConfig with declaredAddress := none }

/-- The handshake arrives in time and ours is written. -/
def promptSurroundings : Surroundings := ⟨1700000000001, 7, false, .ok ()⟩

/-- Both requests are reported, and the inventory between them is skipped. -/
theorem session_events_inventory :
    events (inboundTask (fun _ => Frame.emptyDigest) listenerConfig promptSurroundings
        (fun _ => true) ⟨1⟩ .full (chunked inventoryChunks)) =
      [.peerConnected ⟨1⟩ (builtSpec proxyConfig 42) .inbound, .message ⟨1⟩ .getPeers,
        .message ⟨1⟩ .getPeers, .peerDisconnected ⟨1⟩ "connection closed"] := by
  have admissible : ∀ frame ∈ inventoryFrames, frame.body.length ≤ Frame.maxBodySize.toNat := by
    decide
  have nonempty : ∀ chunk ∈ inventoryChunks, chunk ≠ [] := by simp [inventoryChunks]
  have sent : inventoryChunks.flatten = build proxyConfig 1700000000000 42 ++
      inventoryFrames.flatMap
        (Frame.encode (fun _ => Frame.emptyDigest) proxyConfig.network.magic) := by
    simp only [inventoryChunks, List.flatten_cons, List.flatten_nil, List.append_assoc]
    rfl
  have inFirst : (build proxyConfig 1700000000000 42).length ≤
      (inventoryChunks.headD []).length := by
    simp [inventoryChunks]
  have sameNetwork : listenerConfig.network = proxyConfig.network := rfl
  have written : promptSurroundings.writeOutcome = .ok () := rfl
  exact session_events (fun _ => Frame.emptyDigest) ⟨1⟩ .full (by decide) (by decide) sameNetwork
    (by decide) admissible nonempty sent inFirst rfl written (fun _ => rfl)

end ErgoProxy.Session
