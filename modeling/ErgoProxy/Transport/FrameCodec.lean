import ErgoProxy.Transport.Frame

/-!
# What the frame decoders accept

The header of any input of at least thirteen bytes is written out as thirteen
bytes, after which every slice and index of the decoder computes. Both decoders
accept exactly the encodings of frames with admissible bodies, followed by
anything; the stream decoder stops right behind the frame.

The digest is never unfolded. Both sides of a checksum comparison apply the same
function to the same body.
-/

namespace ErgoProxy.Frame

open Cursor ExactReaders

/-- The bound on bodies as a number. -/
theorem maxBodySize_value : maxBodySize.toNat = 262144 := rfl

/-- The value of four bytes determines them. -/
theorem toBeBytes_fromBeBytes (first second third fourth : UInt8) :
    toBeBytes (fromBeBytes first second third fourth) = [first, second, third, fourth] := by
  have firstBound := first.toNat_lt
  have secondBound := second.toNat_lt
  have thirdBound := third.toNat_lt
  have fourthBound := fourth.toNat_lt
  have value : (fromBeBytes first second third fourth).toNat =
      first.toNat * 2 ^ 24 + second.toNat * 2 ^ 16 + third.toNat * 2 ^ 8 + fourth.toNat := by
    rw [fromBeBytes, UInt32.toNat_ofNat']
    omega
  simp only [toBeBytes, value, List.cons.injEq, and_true, ← UInt8.toNat_inj, UInt8.toNat_ofNat']
  omega

/-- A value is read back from its four bytes. -/
theorem fromBeBytes_toBeBytes (value : UInt32) :
    fromBeBytes (UInt8.ofNat (value.toNat / 2 ^ 24)) (UInt8.ofNat (value.toNat / 2 ^ 16))
      (UInt8.ofNat (value.toNat / 2 ^ 8)) (UInt8.ofNat value.toNat) = value := by
  have bound := value.toNat_lt
  simp only [fromBeBytes, ← UInt32.toNat_inj, UInt32.toNat_ofNat', UInt8.toNat_ofNat']
  omega

/-- The length field of an admissible body holds its length. -/
theorem lengthField_value {body : Bytes} (small : body.length ≤ maxBodySize.toNat) :
    (UInt32.ofNat body.length).toNat = body.length := by
  rw [maxBodySize_value] at small
  rw [UInt32.toNat_ofNat']
  omega

section Codec

variable (blake2b256 : Bytes → Vector UInt8 32)

/-- A checksum has four bytes. -/
theorem checksum_length (body : Bytes) : (checksum blake2b256 body).length = 4 := by
  simp [checksum]

/-- A list of four bytes, written out. -/
theorem four_bytes {bytes : Bytes} (length : bytes.length = 4) :
    ∃ first second third fourth, bytes = [first, second, third, fourth] := by
  match bytes, length with
  | [first, second, third, fourth], _ => exact ⟨first, second, third, fourth, rfl⟩

/-- Anything at least as long as a header starts with thirteen bytes. -/
theorem header_bytes {data : Bytes} (long : headerSize ≤ data.length) :
    ∃ m₀ m₁ m₂ m₃ code l₀ l₁ l₂ l₃ s₀ s₁ s₂ s₃ rest,
      data = m₀ :: m₁ :: m₂ :: m₃ :: code :: l₀ :: l₁ :: l₂ :: l₃ :: s₀ :: s₁ :: s₂ :: s₃ ::
        rest := by
  unfold headerSize at long
  match data, long with
  | m₀ :: m₁ :: m₂ :: m₃ :: code :: l₀ :: l₁ :: l₂ :: l₃ :: s₀ :: s₁ :: s₂ :: s₃ :: rest, _ =>
    exact ⟨m₀, m₁, m₂, m₃, code, l₀, l₁, l₂, l₃, s₀, s₁, s₂, s₃, rest, rfl⟩

/-- The decoder on a written-out header. -/
theorem decode_header (magic : Vector UInt8 4)
    (m₀ m₁ m₂ m₃ code l₀ l₁ l₂ l₃ s₀ s₁ s₂ s₃ : UInt8) (rest : Bytes) (frame : Frame) :
    decode blake2b256 magic (m₀ :: m₁ :: m₂ :: m₃ :: code :: l₀ :: l₁ :: l₂ :: l₃ :: s₀ :: s₁ ::
        s₂ :: s₃ :: rest) = .ok frame ↔
      [m₀, m₁, m₂, m₃] = magic.toList ∧ fromBeBytes l₀ l₁ l₂ l₃ ≤ maxBodySize ∧
        (fromBeBytes l₀ l₁ l₂ l₃).toNat ≤ rest.length ∧
        frame = ⟨code, rest.take (fromBeBytes l₀ l₁ l₂ l₃).toNat⟩ ∧
        checksum blake2b256 frame.body = [s₀, s₁, s₂, s₃] := by
  have long : ¬ (m₀ :: m₁ :: m₂ :: m₃ :: code :: l₀ :: l₁ :: l₂ :: l₃ :: s₀ :: s₁ :: s₂ :: s₃ ::
      rest).length < headerSize := by
    simp [headerSize]
  have total (count : Nat) : (m₀ :: m₁ :: m₂ :: m₃ :: code :: l₀ :: l₁ :: l₂ :: l₃ :: s₀ :: s₁ ::
      s₂ :: s₃ :: rest).length < 13 + count ↔ rest.length < count := by
    simp only [List.length_cons]
    omega
  rw [decode, dif_neg long]
  simp only [slice, List.drop_zero, List.take_succ_cons, List.take_zero, List.getElem_cons_succ,
    List.getElem_cons_zero, headerSize, List.drop_succ_cons, Nat.add_sub_cancel_left, Nat.sub_zero]
  by_cases sameMagic : [m₀, m₁, m₂, m₃] = magic.toList
  · by_cases bounded : fromBeBytes l₀ l₁ l₂ l₃ ≤ maxBodySize
    · have admitted : ¬ maxBodySize < fromBeBytes l₀ l₁ l₂ l₃ := UInt32.not_lt.mpr bounded
      rw [if_neg (not_not.mpr sameMagic), if_neg admitted]
      by_cases complete : (fromBeBytes l₀ l₁ l₂ l₃).toNat ≤ rest.length
      · rw [dif_neg fun short => Nat.not_lt.mpr complete ((total _).mp short)]
        by_cases checked : checksum blake2b256
            (rest.take (fromBeBytes l₀ l₁ l₂ l₃).toNat) = [s₀, s₁, s₂, s₃]
        · rw [if_neg (not_not.mpr checked)]
          constructor
          · rintro ⟨⟩
            exact ⟨sameMagic, bounded, complete, rfl, checked⟩
          · rintro ⟨-, -, -, rfl, -⟩
            rfl
        · rw [if_pos checked]
          constructor
          · rintro ⟨⟩
          · rintro ⟨-, -, -, rfl, claimed⟩
            exact absurd claimed checked
      · rw [dif_pos ((total _).mpr (Nat.lt_of_not_le complete))]
        simp [complete]
    · have refused : maxBodySize < fromBeBytes l₀ l₁ l₂ l₃ := UInt32.not_le.mp bounded
      simp [sameMagic, bounded, refused]
  · simp [sameMagic]

/-- An encoding written out as thirteen header bytes and the body. -/
theorem encode_header (magic : Vector UInt8 4) (frame : Frame) :
    ∃ m₀ m₁ m₂ m₃ l₀ l₁ l₂ l₃ s₀ s₁ s₂ s₃, magic.toList = [m₀, m₁, m₂, m₃] ∧
      fromBeBytes l₀ l₁ l₂ l₃ = UInt32.ofNat frame.body.length ∧
      checksum blake2b256 frame.body = [s₀, s₁, s₂, s₃] ∧
      encode blake2b256 magic frame = m₀ :: m₁ :: m₂ :: m₃ :: frame.code :: l₀ :: l₁ :: l₂ :: l₃ ::
        s₀ :: s₁ :: s₂ :: s₃ :: frame.body := by
  obtain ⟨m₀, m₁, m₂, m₃, magicBytes⟩ := four_bytes magic.length_toList
  obtain ⟨s₀, s₁, s₂, s₃, sumBytes⟩ := four_bytes (checksum_length blake2b256 frame.body)
  refine ⟨m₀, m₁, m₂, m₃, _, _, _, _, s₀, s₁, s₂, s₃, magicBytes, fromBeBytes_toBeBytes _,
    sumBytes, ?_⟩
  simp only [encode, magicBytes, sumBytes, toBeBytes, List.cons_append, List.nil_append]

/-- The slice decoder accepts exactly the encodings of admissible frames, followed by
anything. -/
theorem decode_exact (magic : Vector UInt8 4) (data : Bytes) (frame : Frame) :
    decode blake2b256 magic data = .ok frame ↔
      frame.body.length ≤ maxBodySize.toNat ∧
        ∃ tail, data = encode blake2b256 magic frame ++ tail := by
  obtain ⟨m₀, m₁, m₂, m₃, l₀, l₁, l₂, l₃, s₀, s₁, s₂, s₃, magicBytes, lengthBytes, sumBytes,
    encoded⟩ := encode_header blake2b256 magic frame
  constructor
  · intro decoded
    have long : headerSize ≤ data.length := by
      by_contra short
      rw [decode, dif_pos (Nat.lt_of_not_le short)] at decoded
      cases decoded
    obtain ⟨n₀, n₁, n₂, n₃, code, k₀, k₁, k₂, k₃, t₀, t₁, t₂, t₃, rest, rfl⟩ := header_bytes long
    obtain ⟨sameMagic, bounded, complete, same, checked⟩ :=
      (decode_header blake2b256 magic _ _ _ _ _ _ _ _ _ _ _ _ _ rest frame).mp decoded
    have length : frame.body.length = (fromBeBytes k₀ k₁ k₂ k₃).toNat := by
      rw [same]
      exact List.length_take_of_le complete
    have body : frame.body ++ rest.drop frame.body.length = rest := by
      rw [length, same]
      exact List.take_append_drop _ rest
    have sameBytes : [n₀, n₁, n₂, n₃] = [m₀, m₁, m₂, m₃] := sameMagic.trans magicBytes
    have sameSum : [s₀, s₁, s₂, s₃] = [t₀, t₁, t₂, t₃] := sumBytes.symm.trans checked
    have sameLength : [k₀, k₁, k₂, k₃] = [l₀, l₁, l₂, l₃] := by
      rw [length, UInt32.ofNat_toNat] at lengthBytes
      rw [← toBeBytes_fromBeBytes, ← toBeBytes_fromBeBytes, lengthBytes]
    have sameCode : code = frame.code := by rw [same]
    refine ⟨length.trans_le (UInt32.le_iff_toNat_le.mp bounded), rest.drop frame.body.length, ?_⟩
    cases sameBytes
    cases sameSum
    cases sameLength
    simp only [encoded, List.cons_append, body, sameCode]
  · rintro ⟨small, tail, rfl⟩
    have field := lengthField_value small
    rw [encoded]
    refine (decode_header blake2b256 magic _ _ _ _ _ _ _ _ _ _ _ _ _ _ frame).mpr ?_
    rw [lengthBytes, field]
    exact ⟨magicBytes.symm, UInt32.le_iff_toNat_le.mpr (field.trans_le small), by simp, by simp,
      sumBytes⟩

/-- A reader whose buffers are filled from known contents, in order and without
loss, and that fails once too little is left. -/
structure Filling {R : Type} (fill : (count : Nat) → EStateM IoError R (Vector UInt8 count))
    (contents : R → Bytes) : Prop where
  enough : ∀ {count : Nat} {reader : R}, count ≤ (contents reader).length →
    ∃ filled after, fill count reader = .ok filled after ∧
      filled.toList = (contents reader).take count ∧ contents after = (contents reader).drop count
  short : ∀ {count : Nat} {reader : R}, (contents reader).length < count →
    ∃ problem after, fill count reader = .error problem after

variable {R : Type} {fill : (count : Nat) → EStateM IoError R (Vector UInt8 count)}
  {contents : R → Bytes} {reader : R}

/-- A body has the announced length. -/
theorem readBody_length {bodyLen : UInt32} {body : Bytes} {after : R}
    (read : readBody fill bodyLen reader = .ok body after) : body.length = bodyLen.toNat := by
  unfold readBody at read
  split at read
  case isTrue =>
    obtain ⟨filled, middle, _, done⟩ := (bind_ok _ _ _ _ _).mp read
    cases done
    exact filled.length_toList
  case isFalse empty =>
    cases read
    rw [UInt32.lt_iff_toNat_lt] at empty
    exact (Nat.eq_zero_of_not_pos empty).symm

/-- A body that is present is read as it stands. -/
theorem readBody_filled (filling : Filling fill contents) {bodyLen : UInt32}
    (present : bodyLen.toNat ≤ (contents reader).length) :
    ∃ after, readBody fill bodyLen reader = .ok ((contents reader).take bodyLen.toNat) after ∧
      contents after = (contents reader).drop bodyLen.toNat := by
  unfold readBody
  split
  case isTrue =>
    obtain ⟨filled, after, done, value, left⟩ := filling.enough present
    refine ⟨after, ?_, left⟩
    rw [bind_of_ok done, value]
    rfl
  case isFalse empty =>
    have nothing : bodyLen.toNat = 0 := by
      rw [UInt32.lt_iff_toNat_lt] at empty
      exact Nat.eq_zero_of_not_pos empty
    exact ⟨reader, by rw [nothing]; rfl, by rw [nothing]; rfl⟩

/-- The stream decoder after a filled header. -/
theorem readFrame_ok {magic : Vector UInt8 4} {header : Vector UInt8 13} {frame : Frame}
    {middle after : R} (filled : fill 13 reader = .ok header middle) :
    readFrame blake2b256 fill magic reader = .ok frame after ↔
      header.toList.take 4 = magic.toList ∧
        headerBodyLen header ≤ maxBodySize ∧
        ∃ body, readBody fill (headerBodyLen header) middle = .ok body after ∧
          checksum blake2b256 body = (header.toList.drop 9).take 4 ∧
            frame = ⟨headerCode header, body⟩ := by
  rw [readFrame, bind_of_ok filled]
  by_cases sameMagic : header.toList.take 4 = magic.toList
  · rw [if_neg (not_not.mpr sameMagic)]
    by_cases bounded : headerBodyLen header ≤ maxBodySize
    · simp only [if_neg (UInt32.not_lt.mpr bounded), bind_ok, sameMagic, bounded, true_and]
      constructor
      · rintro ⟨body, rest, read, done⟩
        split at done
        case isTrue => cases done
        case isFalse checked =>
          cases done
          exact ⟨body, read, not_not.mp checked, rfl⟩
      · rintro ⟨body, read, checked, rfl⟩
        exact ⟨body, after, read, by rw [if_neg (not_not.mpr checked)]; rfl⟩
    · simp only [if_pos (UInt32.not_le.mp bounded), bounded, false_and, and_false, iff_false]
      rintro ⟨⟩
  · rw [if_pos sameMagic]
    simp only [sameMagic, false_and, iff_false]
    rintro ⟨⟩

/-- Whatever the reader, the stream decoder returns admissible bodies only. -/
theorem readFrame_bounded {magic : Vector UInt8 4} {frame : Frame} {after : R}
    (read : readFrame blake2b256 fill magic reader = .ok frame after) :
    frame.body.length ≤ maxBodySize.toNat := by
  obtain ⟨header, middle, filled, _⟩ := (bind_ok _ _ _ _ _).mp read
  obtain ⟨_, bounded, body, bodyRead, _, rfl⟩ := (readFrame_ok blake2b256 filled).mp read
  exact (readBody_length bodyRead).trans_le (UInt32.le_iff_toNat_le.mp bounded)

/-- The stream decoder reads an encoded frame and stops right behind it. -/
theorem readFrame_encoded (filling : Filling fill contents) {magic : Vector UInt8 4}
    {frame : Frame} {tail : Bytes} (small : frame.body.length ≤ maxBodySize.toNat)
    (buffered : contents reader = encode blake2b256 magic frame ++ tail) :
    ∃ after, readFrame blake2b256 fill magic reader = .ok frame after ∧ contents after = tail := by
  obtain ⟨m₀, m₁, m₂, m₃, l₀, l₁, l₂, l₃, s₀, s₁, s₂, s₃, magicBytes, lengthBytes, sumBytes,
    encoded⟩ := encode_header blake2b256 magic frame
  have field := lengthField_value small
  rw [encoded] at buffered
  have long : 13 ≤ (contents reader).length := by
    rw [buffered]
    simp only [List.cons_append, List.length_cons]
    omega
  obtain ⟨header, middle, filled, value, left⟩ := filling.enough long
  rw [buffered] at value left
  obtain rfl : header =
      #v[m₀, m₁, m₂, m₃, frame.code, l₀, l₁, l₂, l₃, s₀, s₁, s₂, s₃] :=
    Vector.toList_inj.mp value
  replace left : contents middle = frame.body ++ tail := left
  have present : (UInt32.ofNat frame.body.length).toNat ≤ (contents middle).length := by
    rw [field, left, List.length_append]
    omega
  obtain ⟨after, bodyRead, rest⟩ := readBody_filled filling present
  rw [left, field, List.take_left] at bodyRead
  rw [left, field, List.drop_left] at rest
  refine ⟨after, (readFrame_ok blake2b256 filled).mpr ⟨magicBytes.symm, ?_, frame.body, ?_⟩, rest⟩
  · rw [UInt32.le_iff_toNat_le]
    exact (congrArg UInt32.toNat lengthBytes).trans_le (field.trans_le small)
  · refine ⟨?_, sumBytes, rfl⟩
    rw [← lengthBytes] at bodyRead
    exact bodyRead

/-- A filled buffer is the front of the contents, and the rest is left. -/
theorem filled_front (filling : Filling fill contents) {count : Nat} {filled : Vector UInt8 count}
    {after : R} (done : fill count reader = .ok filled after) :
    contents reader = filled.toList ++ contents after := by
  by_cases enough : count ≤ (contents reader).length
  · obtain ⟨_, _, same, front, left⟩ := filling.enough enough
    cases done.symm.trans same
    rw [front, left, List.take_append_drop]
  · obtain ⟨problem, last, failed⟩ := filling.short (Nat.lt_of_not_le enough)
    cases failed.symm.trans done

/-- A filled buffer was present and has been taken from the contents. -/
theorem filled_taken (filling : Filling fill contents) {count : Nat} {filled : Vector UInt8 count}
    {after : R} (done : fill count reader = .ok filled after) :
    (contents after).length + count = (contents reader).length := by
  rw [filled_front filling done, List.length_append, Vector.length_toList, Nat.add_comm]

/-- Every frame that is read has taken at least its header from the contents. -/
theorem readFrame_progress (filling : Filling fill contents) {magic : Vector UInt8 4}
    {frame : Frame} {after : R} (read : readFrame blake2b256 fill magic reader = .ok frame after) :
    (contents after).length < (contents reader).length := by
  obtain ⟨header, middle, filled, _⟩ := (bind_ok _ _ _ _ _).mp read
  obtain ⟨_, _, body, bodyRead, _, _⟩ := (readFrame_ok blake2b256 filled).mp read
  have headerTaken := filled_taken filling filled
  unfold readBody at bodyRead
  split at bodyRead
  case isTrue =>
    obtain ⟨_, last, bodyFilled, done⟩ := (bind_ok _ _ _ _ _).mp bodyRead
    cases done
    have bodyTaken := filled_taken filling bodyFilled
    omega
  case isFalse =>
    cases bodyRead
    omega

/-- The stream decoder fails at the end of the contents. -/
theorem readFrame_ended (filling : Filling fill contents) (magic : Vector UInt8 4)
    (ended : contents reader = []) :
    ∃ problem after, readFrame blake2b256 fill magic reader = .error problem after := by
  have short : (contents reader).length < 13 := by
    rw [ended]
    decide
  obtain ⟨problem, after, failed⟩ := filling.short short
  exact ⟨problem, after, bind_of_error failed _⟩

end Codec

/-- The Blake2b-256 digest of the empty body. -/
def emptyDigest : Vector UInt8 32 :=
  #v[0x0e, 0x57, 0x51, 0xc0, 0x26, 0xe5, 0x43, 0xb2, 0xe8, 0xab, 0x2e, 0xb0, 0x60, 0x99, 0xda, 0xa1,
    0xd1, 0xe5, 0xdf, 0x47, 0x77, 0x8f, 0x77, 0x87, 0xfa, 0xab, 0x45, 0xcd, 0xf1, 0x2f, 0xe3, 0xa8]

end ErgoProxy.Frame
