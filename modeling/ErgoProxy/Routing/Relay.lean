import ErgoProxy.Transport.FrameCodec
import ErgoProxy.Protocol.MessageCodec
import ErgoProxy.Routing.History

/-!
# What the router relays can be received again

An action's message is the received message itself, one item of it, or the empty
peer list. None of these is longer on the wire than the received message, whose
encoding is no longer than the frame it was parsed from. So every relayed message
fits into a frame, and the next hop decodes that frame to the same message.
-/

namespace ErgoProxy.Routing

open FiniteMaps ProtocolMessage

/-- A relayed message is regular if the received one is. -/
theorem relayed_regular {message sent : ProtocolMessage} (relayed : Relayed message sent)
    (regular : message.Regular) : sent.Regular := by
  cases relayed with
  | whole => exact regular
  | request => trivial
  | response => trivial
  | noPeers => trivial

/-- A relayed message needs no more bytes than the received one. -/
theorem relayed_shrinks {message sent : ProtocolMessage} (relayed : Relayed message sent) :
    sent.toFrame.body.length ≤ message.toFrame.body.length := by
  cases relayed with
  | whole => exact Nat.le_refl _
  | @request modifierType ids id member =>
    have counted := (Vlq.write_length (UInt64.ofNat ids.length)).1
    have some : 0 < ids.length := List.length_pos_of_mem member
    simp only [toFrame, encodeInvBody_length, List.length_singleton, Vlq.write_one]
    omega
  | @response modifierType modifiers modifier member =>
    have counted := (Vlq.write_length (UInt64.ofNat modifiers.length)).1
    have single := encodeModifier_le member
    simp only [toFrame, encodeModifierResponseBody_parts, List.length_append,
      List.length_singleton, Vlq.write_one, List.flatMap_singleton]
    omega
  | noPeers => exact Nat.le_refl 0

/-- An announcement of one modifier fits into a frame. -/
theorem announcement_small (modifierType : UInt8) (id : ModifierId) :
    (inv modifierType [id]).toFrame.body.length ≤ Frame.maxBodySize.toNat := by
  have length : (inv modifierType [id]).toFrame.body.length = 34 := by
    refine (encodeInvBody_length modifierType [id]).trans ?_
    rw [List.length_singleton, Vlq.write_one]
  rw [length]
  decide

section Wire

variable (blake2b256 : Bytes → Vector UInt8 32)

/-- The frame was accepted by one of the decoders, on some input. -/
inductive Received (frame : Frame) : Prop where
  | decoded (magic : Vector UInt8 4) (data : Bytes)
      (accepted : Frame.decode blake2b256 magic data = .ok frame)
  | read {R : Type} (fill : (count : Nat) → EStateM IoError R (Vector UInt8 count))
      (magic : Vector UInt8 4) (reader after : R)
      (accepted : Frame.readFrame blake2b256 fill magic reader = .ok frame after)

/-- A received frame has an admissible body. -/
theorem received_bounded {frame : Frame} (received : Received blake2b256 frame) :
    frame.body.length ≤ Frame.maxBodySize.toNat := by
  cases received with
  | decoded magic data accepted =>
    exact ((Frame.decode_exact blake2b256 magic data frame).mp accepted).1
  | read fill magic reader after accepted => exact Frame.readFrame_bounded blake2b256 accepted

/-- In any state of the router, every action for a message that was received in a
frame has a body of admissible size, and its frame is decoded by the next hop, for
any network's magic, to exactly the action's message. -/
theorem relayed_frames_accepted {frame : Frame} {message : ProtocolMessage}
    (received : Received blake2b256 frame) (parsed : fromFrame frame = .ok message)
    (router : Router) (visit : Traversal router.peers) (clock : Nat → Instant) (source : PeerId)
    (action : Action)
    (emitted : action ∈ (router.handleEvent visit clock (.message source message)).1) :
    action.message.toFrame.body.length ≤ Frame.maxBodySize.toNat ∧
      ∀ magic, ∃ arrived,
        Frame.decode blake2b256 magic
            (Frame.encode blake2b256 magic action.message.toFrame) = .ok arrived ∧
          fromFrame arrived = .ok action.message := by
  obtain ⟨regular, shrunk⟩ := fromFrame_shrinks parsed
  have relayed := routed_relayed (Router.routeMessage_routed router visit clock source message)
    emitted
  have small : action.message.toFrame.body.length ≤ Frame.maxBodySize.toNat :=
    calc action.message.toFrame.body.length
      _ ≤ message.toFrame.body.length := relayed_shrinks relayed
      _ ≤ frame.body.length := shrunk
      _ ≤ Frame.maxBodySize.toNat := received_bounded blake2b256 received
  refine ⟨small, ?_⟩
  intro magic
  refine ⟨action.message.toFrame, ?_, fromFrame_toFrame (relayed_regular relayed regular) small⟩
  exact (Frame.decode_exact blake2b256 magic _ _).mpr ⟨small, [], (List.append_nil _).symm⟩

end Wire

/-- An announcement as a peer may send it: its count of one has a superfluous group, and a byte
follows the identifier. -/
def paddedFrame : Frame := ⟨MessageCode.inv, [2, 0x81, 0x00] ++ relayId.toList ++ [7]⟩

/-- The padded announcement is passed on in a frame that arrives as the same announcement. -/
theorem relayed_frames_accepted_inv :
    fromFrame paddedFrame = .ok (.inv 2 [relayId]) ∧
      .send relayClient (.inv 2 [relayId]) ∈ (relayPeers.handleEvent relayVisit (fun _ => 0)
        (.message relaySource (.inv 2 [relayId]))).1 ∧
      ∀ magic, ∃ arrived,
        Frame.decode (fun _ => Frame.emptyDigest) magic (Frame.encode (fun _ => Frame.emptyDigest)
            magic (toFrame (.inv 2 [relayId]))) = .ok arrived ∧
          fromFrame arrived = .ok (.inv 2 [relayId]) := by
  have received : Received (fun _ => Frame.emptyDigest) paddedFrame :=
    .decoded Network.testnet.magic _ ((Frame.decode_exact _ _ _ _).mpr
      ⟨by decide, [], (List.append_nil _).symm⟩)
  have parsed : fromFrame paddedFrame = .ok (.inv 2 [relayId]) := rfl
  have emitted : .send relayClient (.inv 2 [relayId]) ∈ (relayPeers.handleEvent relayVisit
      (fun _ => 0) (.message relaySource (.inv 2 [relayId]))).1 := List.mem_singleton.mpr rfl
  exact ⟨parsed, emitted, (relayed_frames_accepted (fun _ => Frame.emptyDigest) received parsed _ _ _ _
    _ emitted).2⟩

end ErgoProxy.Routing
