import ErgoProxy.Foundation.SignFolding
import ErgoProxy.Transport.Vlq

/-!
# ZigZag folding of signed quantities

The four functions of the source are the folding and unfolding of words of 32 and 64
bits. Their integer meaning and the two inverse laws are those of any width. The
64-bit pair is what goes over the wire, behind the quantity codec.
-/

namespace ErgoProxy.Vlq

open ExactReaders SignFolding

/-- The 32-bit encoder folds a word. -/
theorem zigzagEncode_fold (value : Int32) :
    (zigzagEncode value).toBitVec = fold value.toBitVec := by
  have left : (1 : Int32).toBitVec.smod 32 = 1#32 := by decide
  have right : (31 : Int32).toBitVec.smod 32 = 31#32 := by decide
  rw [zigzagEncode, Int32.toBitVec_toUInt32, Int32.toBitVec_xor, Int32.toBitVec_shiftLeft,
    Int32.toBitVec_shiftRight, left, right]
  rfl

/-- The 32-bit decoder unfolds a word. -/
theorem zigzagDecode_unfold (value : UInt32) :
    (zigzagDecode value).toBitVec = unfold value.toBitVec := rfl

/-- The 64-bit encoder folds a word. -/
theorem zigzagEncodeI64_fold (value : Int64) :
    (zigzagEncodeI64 value).toBitVec = fold value.toBitVec := by
  have left : (1 : Int64).toBitVec.smod 64 = 1#64 := by decide
  have right : (63 : Int64).toBitVec.smod 64 = 63#64 := by decide
  rw [zigzagEncodeI64, Int64.toBitVec_toUInt64, Int64.toBitVec_xor, Int64.toBitVec_shiftLeft,
    Int64.toBitVec_shiftRight, left, right]
  rfl

/-- The 64-bit decoder unfolds a word. -/
theorem zigzagDecodeI64_unfold (value : UInt64) :
    (zigzagDecodeI64 value).toBitVec = unfold value.toBitVec := rfl

/-- The 32-bit encoder numbers the signed values. -/
theorem zigzagEncode_number (value : Int32) :
    ((zigzagEncode value).toNat : Int) = number value.toInt := by
  have folded := fold_number value.toBitVec
  rw [← zigzagEncode_fold] at folded
  exact folded

/-- The 64-bit encoder numbers the signed values. -/
theorem zigzagEncodeI64_number (value : Int64) :
    ((zigzagEncodeI64 value).toNat : Int) = number value.toInt := by
  have folded := fold_number value.toBitVec
  rw [← zigzagEncodeI64_fold] at folded
  exact folded

/-- The 64-bit decoder undoes the encoder. -/
theorem zigzagDecodeI64_encode (value : Int64) :
    zigzagDecodeI64 (zigzagEncodeI64 value) = value := by
  apply Int64.toBitVec_inj.mp
  rw [zigzagDecodeI64_unfold, zigzagEncodeI64_fold]
  exact unfold_fold value.toBitVec

/-- ZigZag in full, for both widths: the encoders number the signed values without loss, the
decoders are their two-sided inverses, the two encoders agree on 32-bit values, and a 64-bit
value comes back through the quantity codec, whatever follows it. -/
theorem zigzag_codec :
    (∀ value : Int32, ((zigzagEncode value).toNat : Int) =
      if 0 ≤ value.toInt then 2 * value.toInt else -2 * value.toInt - 1) ∧
    (∀ value : Int32, zigzagDecode (zigzagEncode value) = value) ∧
    (∀ folded : UInt32, zigzagEncode (zigzagDecode folded) = folded) ∧
    (∀ value : Int64, ((zigzagEncodeI64 value).toNat : Int) =
      if 0 ≤ value.toInt then 2 * value.toInt else -2 * value.toInt - 1) ∧
    (∀ value : Int64, zigzagDecodeI64 (zigzagEncodeI64 value) = value) ∧
    (∀ folded : UInt64, zigzagEncodeI64 (zigzagDecodeI64 folded) = folded) ∧
    (∀ value : Int32, zigzagEncodeI64 value.toInt64 = (zigzagEncode value).toUInt64) ∧
    ∀ (value : Int64) (rest : Bytes), (do
        let folded ← readVlq
        pure (zigzagDecodeI64 folded)) (writeVlq [] (zigzagEncodeI64 value) ++ rest) =
      .ok value rest := by
  refine ⟨zigzagEncode_number, ?_, ?_, zigzagEncodeI64_number, zigzagDecodeI64_encode, ?_, ?_, ?_⟩
  · intro value
    apply Int32.toBitVec_inj.mp
    rw [zigzagDecode_unfold, zigzagEncode_fold]
    exact unfold_fold value.toBitVec
  · intro folded
    apply UInt32.toBitVec_inj.mp
    rw [zigzagEncode_fold, zigzagDecode_unfold]
    exact fold_unfold folded.toBitVec
  · intro folded
    apply UInt64.toBitVec_inj.mp
    rw [zigzagEncodeI64_fold, zigzagDecodeI64_unfold]
    exact fold_unfold folded.toBitVec
  · intro value
    have narrow := zigzagEncode_number value
    have wide := zigzagEncodeI64_number value.toInt64
    rw [Int32.toInt_toInt64] at wide
    apply UInt64.toNat_inj.mp
    rw [UInt32.toNat_toUInt64]
    omega
  · intro value rest
    rw [bind_of_ok (consumes_readVlq (zigzagEncodeI64 value) rest), zigzagDecodeI64_encode]
    rfl

end ErgoProxy.Vlq
