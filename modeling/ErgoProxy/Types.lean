import Mathlib.Algebra.Order.BigOperators.Group.List
import Mathlib.Algebra.Order.Ring.Nat

/-!
# Identifiers, versions and transport errors

The types shared by every layer of the proxy: peers are numbered by a 64-bit
counter, modifiers by 32 bytes, protocol versions compare lexicographically. A
transport error keeps its kind and its text; a rejected string keeps the bytes
that are not UTF-8.
-/

namespace ErgoProxy

/-- Octets as they appear on the wire. -/
abbrev Bytes : Type := List UInt8

/-- Unique identifier of a connected peer. -/
structure PeerId where
  value : UInt64
  deriving DecidableEq

/-- 32-byte modifier identifier: a block, transaction, header and so on. -/
abbrev ModifierId : Type := Vector UInt8 32

/-- Protocol version as three bytes. -/
structure Version where
  major : UInt8
  minor : UInt8
  patch : UInt8
  deriving DecidableEq

namespace Version

/-- The derived comparison reads major, then minor, then patch. -/
instance : LT Version where
  lt left right := left.major < right.major ∨ left.major = right.major ∧
    (left.minor < right.minor ∨ left.minor = right.minor ∧ left.patch < right.patch)

instance (left right : Version) : Decidable (left < right) :=
  inferInstanceAs (Decidable (left.major < right.major ∨ left.major = right.major ∧
    (left.minor < right.minor ∨ left.minor = right.minor ∧ left.patch < right.patch)))

/-- At most: equal in all three positions, or smaller at the first difference. -/
instance : LE Version where
  le left right := left < right ∨ left = right

instance (left right : Version) : Decidable (left ≤ right) :=
  inferInstanceAs (Decidable (left < right ∨ left = right))

/-- The lexicographic comparison is total: a version not below a bound is at
least the bound. -/
theorem not_lt_iff (left right : Version) : ¬ left < right ↔ right ≤ left := by
  obtain ⟨leftMajor, leftMinor, leftPatch⟩ := left
  obtain ⟨rightMajor, rightMinor, rightPatch⟩ := right
  change ¬ (leftMajor < rightMajor ∨ leftMajor = rightMajor ∧
      (leftMinor < rightMinor ∨ leftMinor = rightMinor ∧ leftPatch < rightPatch)) ↔
    (rightMajor < leftMajor ∨ rightMajor = leftMajor ∧
      (rightMinor < leftMinor ∨ rightMinor = leftMinor ∧ rightPatch < leftPatch)) ∨ _
  simp only [Version.mk.injEq, UInt8.lt_iff_toNat_lt, ← UInt8.toNat_inj]
  omega

/-- The first version of the EIP-37 network. -/
def eip37Min : Version := ⟨4, 0, 100⟩

/-- The version of three bytes. -/
def ofBytes (ver : Vector UInt8 3) : Version := ⟨ver[0], ver[1], ver[2]⟩

/-- Dotted decimal display. -/
instance : ToString Version where
  toString version := s!"{version.major}.{version.minor}.{version.patch}"

end Version

/-- Direction of a connection relative to this node. -/
inductive Direction where
  | outbound
  | inbound
  deriving DecidableEq

/-- Network identifier. -/
inductive Network where
  | mainnet
  | testnet
  deriving DecidableEq

/-- The four bytes that open every frame of a network. -/
def Network.magic : Network → Vector UInt8 4
  | .mainnet => #v[1, 0, 2, 4]
  | .testnet => #v[2, 3, 2, 3]

/-- The two networks have different magic bytes. -/
theorem Network.magic_injective {left right : Network} (same : left.magic = right.magic) :
    left = right := by
  revert same
  cases left <;> cases right <;> decide

/-- Proxy mode of a listener. -/
inductive ProxyMode where
  | full
  | light
  deriving DecidableEq

/-- The kinds of transport error that this code raises or receives. -/
inductive ErrorKind where
  | invalidData
  | unexpectedEof
  | connectionReset
  | timedOut
  deriving DecidableEq

/-- A transport error: a kind with its text, or bytes that are not UTF-8, which
count as invalid data. -/
inductive IoError where
  | custom (kind : ErrorKind) (text : String)
  | fromUtf8 (bytes : Bytes)
  deriving DecidableEq

/-- The end of input inside a requested number of bytes. -/
def IoError.shortRead : IoError := .custom .unexpectedEof "failed to fill whole buffer"

end ErgoProxy
