import ErgoProxy.Transport.Cursor

/-!
# Message frames

A frame is four magic bytes, a code, the body length in big-endian order, the
first four bytes of the body's Blake2b-256 digest, and the body. Blake2b-256 is
supplied by a library; it enters as an arbitrary function with 32-byte output.

The slice decoder indexes its argument only where the bound is in scope, so its
definition is itself the argument that no index is out of range. The stream
decoder is written over an arbitrary reader that can fill a buffer of a given
size, as the source is.
-/

namespace ErgoProxy

/-- A validated message frame. -/
structure Frame where
  code : UInt8
  body : Bytes
  deriving DecidableEq

namespace Frame

open Cursor

/-- Four magic bytes, one code byte, four length bytes and four checksum bytes. -/
def headerSize : Nat := 13

/-- The bound on frame bodies: 256 KiB. -/
def maxBodySize : UInt32 := 256 * 1024

/-- Big-endian bytes of a 32-bit value. -/
def toBeBytes (value : UInt32) : Bytes :=
  [UInt8.ofNat (value.toNat / 2 ^ 24), UInt8.ofNat (value.toNat / 2 ^ 16),
    UInt8.ofNat (value.toNat / 2 ^ 8), UInt8.ofNat value.toNat]

/-- The 32-bit value of four big-endian bytes. -/
def fromBeBytes (first second third fourth : UInt8) : UInt32 :=
  UInt32.ofNat (first.toNat * 2 ^ 24 + second.toNat * 2 ^ 16 + third.toNat * 2 ^ 8 +
    fourth.toNat)

/-- A subslice, given that its bounds are in order and in range. -/
def slice (data : Bytes) (start stop : Nat) (_inRange : start ≤ stop ∧ stop ≤ data.length) :
    Bytes :=
  (data.drop start).take (stop - start)

section Codec

variable (blake2b256 : Bytes → Vector UInt8 32)

/-- The checksum of a body: the first four bytes of its digest. -/
def checksum (body : Bytes) : Bytes := (blake2b256 body).toList.take 4

/-- Encode a frame into wire bytes. -/
def encode (magic : Vector UInt8 4) (frame : Frame) : Bytes :=
  magic.toList ++ [frame.code] ++ toBeBytes (UInt32.ofNat frame.body.length) ++
    checksum blake2b256 frame.body ++ frame.body

/-- Decode a frame from wire bytes, validating magic, length and checksum. Bytes
beyond the frame are ignored. -/
def decode (magic : Vector UInt8 4) (data : Bytes) : Except IoError Frame :=
  if short : data.length < headerSize then
    .error (.custom .invalidData
      s!"Frame too short: {data.length} bytes (need at least {headerSize})")
  else
    have header : 13 ≤ data.length := Nat.le_of_not_lt short
    if slice data 0 4 ⟨by omega, by omega⟩ ≠ magic.toList then
      .error (.custom .invalidData
        s!"Bad magic: {slice data 0 4 ⟨by omega, by omega⟩} (expected {magic.toList})")
    else
      let code := data[4]
      let bodyLen := fromBeBytes data[5] data[6] data[7] data[8]
      if maxBodySize < bodyLen then
        .error (.custom .invalidData
          s!"Body too large: {bodyLen} bytes (max {maxBodySize})")
      else
        let expectedTotal := headerSize + bodyLen.toNat
        if truncated : data.length < expectedTotal then
          .error (.custom .invalidData
            s!"Frame truncated: have {data.length} bytes, need {expectedTotal}")
        else
          let sum := slice data 9 13 ⟨by omega, header⟩
          let body := slice data headerSize expectedTotal
            ⟨Nat.le_add_right _ _, Nat.le_of_not_lt truncated⟩
          if checksum blake2b256 body ≠ sum then
            .error (.custom .invalidData "Checksum mismatch")
          else .ok { code, body }

/-- The code in a header. -/
def headerCode (header : Vector UInt8 13) : UInt8 := header[4]

/-- The body length that a header announces. -/
def headerBodyLen (header : Vector UInt8 13) : UInt32 :=
  fromBeBytes header[5] header[6] header[7] header[8]

/-- Read a body of the announced length; an empty body needs no read. -/
def readBody {R : Type} (fill : (count : Nat) → EStateM IoError R (Vector UInt8 count))
    (bodyLen : UInt32) : EStateM IoError R Bytes :=
  if 0 < bodyLen then do
    let body ← fill bodyLen.toNat
    pure body.toList
  else pure []

/-- Read a complete frame from a reader that can fill buffers. -/
def readFrame {R : Type} (fill : (count : Nat) → EStateM IoError R (Vector UInt8 count))
    (magic : Vector UInt8 4) : EStateM IoError R Frame := do
  let header ← fill 13
  if header.toList.take 4 ≠ magic.toList then
    throw (.custom .invalidData s!"Bad magic: {header.toList.take 4}")
  else
    let code := headerCode header
    let bodyLen := headerBodyLen header
    if maxBodySize < bodyLen then
      throw (.custom .invalidData s!"Body too large: {bodyLen} bytes")
    else do
      let sum := (header.toList.drop 9).take 4
      let body ← readBody fill bodyLen
      if checksum blake2b256 body ≠ sum then
        throw (.custom .invalidData "Checksum mismatch")
      else
        pure { code, body }

/-- Write a frame to a writer, represented by the bytes it has accepted. -/
def writeFrame (sent : Bytes) (magic : Vector UInt8 4) (frame : Frame) : Bytes :=
  sent ++ encode blake2b256 magic frame

end Codec

end Frame

end ErgoProxy
