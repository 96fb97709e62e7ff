import ErgoProxy.Foundation.Numerals
import ErgoProxy.Transport.Handshake

/-!
# Configuration

The configuration comes from a file whose syntax is checked elsewhere; here it begins with what
the file contains. Loading checks that there is something to listen on and something to dial.
The protocol version is kept as text and taken apart later, so a configuration that loads can
still have a version that does not. The three parts of a version are read as the standard
library reads bytes: decimal digits, possibly behind a plus sign.
-/

namespace ErgoProxy

open Handshake Numerals

/-- What a listener is configured with. -/
structure ListenerConfig where
  address : SocketAddr
  mode : ProxyMode
  maxInbound : Nat

/-- Where to listen. -/
structure ListenConfig where
  ipv6 : Option ListenerConfig
  ipv4 : Option ListenerConfig

/-- How many peers to dial, and which. -/
structure OutboundConfig where
  minPeers : Nat
  maxPeers : Nat
  seedPeers : List SocketAddr

/-- What we say about ourselves. -/
structure IdentityConfig where
  agentName : String
  peerName : String
  protocolVersion : String

/-- The contents of a configuration file. -/
structure Config where
  network : Network
  listen : ListenConfig
  outbound : OutboundConfig
  identity : IdentityConfig

/-- The byte that digits stand for. -/
def parseDigits (digits : List Char) : Except String UInt8 :=
  (readDigits "invalid digit found in string" "number too large to fit in target type" 256 0
    digits).map UInt8.ofNat

/-- Read a byte as the standard library does: a sign is a sign only if something follows it, and
a minus sign is never one. -/
def parseU8 : List Char → Except String UInt8
  | [] => .error "cannot parse integer from empty string"
  | first :: rest =>
    if (first = '+' ∨ first = '-') ∧ rest = [] then .error "invalid digit found in string"
    else if first = '+' then parseDigits rest
    else parseDigits (first :: rest)

/-- The texts that stand for a byte. -/
def Numeral (text : List Char) (value : UInt8) : Prop :=
  ∃ digits, (text = digits ∨ text = '+' :: digits) ∧ digits ≠ [] ∧
    (∀ digit ∈ digits, digit.isDigit = true) ∧ Nat.ofDigitChars 10 digits 0 = value.toNat

/-- The texts that stand for a version. -/
def Dotted (text : String) (version : Version) : Prop :=
  ∃ major minor patch, text.toList = ['.'].intercalate [major, minor, patch] ∧
    Numeral major version.major ∧ Numeral minor version.minor ∧ Numeral patch version.patch

namespace Config

/-- Load a configuration from what was read. -/
def load (contents : Except String Config) : Except String Config := do
  let config ← contents
  if config.listen.ipv4.isNone ∧ config.listen.ipv6.isNone then
    throw "At least one listener (ipv4 or ipv6) must be configured"
  if config.outbound.seedPeers.isEmpty then
    throw "At least one seed peer must be configured"
  if config.outbound.minPeers > config.outbound.maxPeers then
    throw "min_peers must be <= max_peers"
  return config

/-- The protocol version as three bytes. -/
def versionBytes (config : Config) : Except String (UInt8 × UInt8 × UInt8) :=
  match config.identity.protocolVersion.toList.splitOn '.' with
  | [major, minor, patch] => do
    return (← parseU8 major, ← parseU8 minor, ← parseU8 patch)
  | _ => .error s!"Invalid version: {config.identity.protocolVersion}"

/-- The listeners in the order in which they are started. -/
def listeners (config : Config) : List ListenerConfig :=
  config.listen.ipv6.toList ++ config.listen.ipv4.toList

end Config

/-- Digits are read if they stand for a byte, with their value. -/
theorem parseDigits_ok (digits : List Char) (value : UInt8) :
    parseDigits digits = .ok value ↔
      (∀ digit ∈ digits, digit.isDigit = true) ∧ Nat.ofDigitChars 10 digits 0 = value.toNat := by
  have exact_digits := readDigits_ok "invalid digit found in string"
    "number too large to fit in target type" digits (by decide : 0 < 256)
  unfold parseDigits
  cases outcome : readDigits "invalid digit found in string"
      "number too large to fit in target type" 256 0 digits with
  | error problem =>
    refine ⟨nofun, ?_⟩
    rintro ⟨valid, same⟩
    cases outcome.symm.trans ((exact_digits value.toNat).mpr ⟨valid, same, value.toNat_lt⟩)
  | ok number =>
    obtain ⟨valid, same, small⟩ := (exact_digits number).mp outcome
    simp only [Except.map, Except.ok.injEq, same]
    constructor
    · rintro rfl
      exact ⟨valid, (UInt8.toNat_ofNat_of_lt' small).symm⟩
    · rintro ⟨_, rfl⟩
      exact UInt8.ofNat_toNat

/-- Exactly the numerals of a byte are read, with their value. -/
theorem parseU8_ok (text : List Char) (value : UInt8) :
    parseU8 text = .ok value ↔ Numeral text value := by
  cases text with
  | nil =>
    refine ⟨nofun, ?_⟩
    rintro ⟨digits, rfl | impossible, nonempty, _⟩
    · exact (nonempty rfl).elim
    · cases impossible
  | cons first rest =>
    rw [parseU8]
    by_cases alone : (first = '+' ∨ first = '-') ∧ rest = []
    · rw [if_pos alone]
      refine ⟨nofun, ?_⟩
      obtain ⟨sign, rfl⟩ := alone
      rintro ⟨digits, rfl | signed, nonempty, valid, _⟩
      · have digit := valid first List.mem_cons_self
        rcases sign with rfl | rfl
        · cases digit
        · cases digit
      · cases signed
        exact (nonempty rfl).elim
    · rw [if_neg alone]
      by_cases plus : first = '+'
      · subst plus
        have more : rest ≠ [] := fun nothing => alone ⟨Or.inl rfl, nothing⟩
        rw [if_pos rfl, parseDigits_ok]
        constructor
        · rintro ⟨valid, same⟩
          exact ⟨rest, Or.inr rfl, more, valid, same⟩
        · rintro ⟨digits, rfl | signed, _, valid, same⟩
          · cases valid '+' List.mem_cons_self
          · cases signed
            exact ⟨valid, same⟩
      · rw [if_neg plus, parseDigits_ok]
        constructor
        · rintro ⟨valid, same⟩
          exact ⟨first :: rest, Or.inl rfl, by simp, valid, same⟩
        · rintro ⟨digits, rfl | signed, _, valid, same⟩
          · exact ⟨valid, same⟩
          · cases signed
            exact (plus rfl).elim

/-- There is no dot in a numeral. -/
theorem numeral_undotted {text : List Char} {value : UInt8} (numeral : Numeral text value) :
    '.' ∉ text := by
  obtain ⟨digits, shape, _, valid, _⟩ := numeral
  have undotted : '.' ∉ digits := fun member => by cases valid '.' member
  rcases shape with rfl | rfl
  · exact undotted
  · simpa using undotted

/-- The text of a byte is a numeral of it. -/
theorem toDigits_numeral (value : UInt8) : Numeral (Nat.toDigits 10 value.toNat) value :=
  ⟨_, Or.inl rfl, Nat.toDigits_ne_nil,
    fun _ member => Nat.isDigit_of_mem_toDigits (by decide) (by decide) member,
    Nat.ofDigitChars_ten_toDigits⟩

/-- The text of a version stands for it. -/
theorem toString_dotted (version : Version) : Dotted (toString version) version := by
  refine ⟨_, _, _, ?_, toDigits_numeral version.major, toDigits_numeral version.minor,
    toDigits_numeral version.patch⟩
  have shown (value : UInt8) : (toString value).toList = Nat.toDigits 10 value.toNat := by
    change (toString value.toNat).toList = _
    rw [Nat.toString_eq_ofList_toDigits, String.toList_ofList]
  change (toString version.major ++ "." ++ toString version.minor ++ "." ++
    toString version.patch).toList = _
  simp [String.toList_append, shown, List.intercalate]

/-- The version is read from the three parts between the dots. -/
theorem versionBytes_parts (config : Config) (version : Version) :
    config.versionBytes = .ok (version.major, version.minor, version.patch) ↔
      ∃ major minor patch,
        config.identity.protocolVersion.toList.splitOn '.' = [major, minor, patch] ∧
          parseU8 major = .ok version.major ∧ parseU8 minor = .ok version.minor ∧
          parseU8 patch = .ok version.patch := by
  unfold Config.versionBytes
  split
  · rename_i major minor patch parts
    constructor
    · intro read
      refine ⟨major, minor, patch, parts, ?_⟩
      cases first : parseU8 major with
      | error => simp [first, bind, Except.bind] at read
      | ok =>
        cases second : parseU8 minor with
        | error => simp [first, second, bind, Except.bind] at read
        | ok =>
          cases third : parseU8 patch with
          | error => simp [first, second, third, bind, Except.bind] at read
          | ok =>
            simp only [first, second, third] at read
            cases read
            exact ⟨rfl, rfl, rfl⟩
    · rintro ⟨_, _, _, same, first, second, third⟩
      cases parts.symm.trans same
      rw [first, second, third]
      rfl
  · rename_i other
    refine ⟨nofun, ?_⟩
    rintro ⟨major, minor, patch, parts, _⟩
    exact (other major minor patch parts).elim

/-- The version is read exactly if its text is one, as what it stands for. -/
theorem versionBytes_ok (config : Config) (version : Version) :
    config.versionBytes = .ok (version.major, version.minor, version.patch) ↔
      Dotted config.identity.protocolVersion version := by
  simp only [versionBytes_parts, parseU8_ok]
  constructor
  · rintro ⟨major, minor, patch, parts, numerals⟩
    refine ⟨major, minor, patch, ?_, numerals⟩
    rw [← parts, List.intercalate_splitOn]
  · rintro ⟨major, minor, patch, text, first, second, third⟩
    refine ⟨major, minor, patch, ?_, first, second, third⟩
    rw [text]
    refine List.splitOn_intercalate '.' ?_ (List.cons_ne_nil _ _)
    simp only [List.forall_mem_cons]
    exact ⟨numeral_undotted first, numeral_undotted second, numeral_undotted third, by simp⟩

/-- What passes the checks of loading. -/
structure Config.Loadable (config : Config) : Prop where
  listening : config.listeners ≠ []
  seeded : config.outbound.seedPeers ≠ []
  ordered : config.outbound.minPeers ≤ config.outbound.maxPeers

/-- Loading returns what was read, if it passes the checks. -/
theorem load_ok (contents : Except String Config) (config : Config) :
    Config.load contents = .ok config ↔ contents = .ok config ∧ config.Loadable := by
  cases contents with
  | error problem => exact ⟨nofun, fun accepted => by cases accepted.1⟩
  | ok read =>
    have unheard : read.listen.ipv4.isNone ∧ read.listen.ipv6.isNone ↔ read.listeners = [] := by
      rw [Config.listeners, List.append_eq_nil_iff]
      cases read.listen.ipv4 <;> cases read.listen.ipv6 <;> simp
    simp only [Config.load, bind, Except.bind, unheard, List.isEmpty_iff]
    by_cases listening : read.listeners = []
    · rw [if_pos listening]
      refine ⟨nofun, ?_⟩
      rintro ⟨⟨⟩, loadable⟩
      exact (loadable.listening listening).elim
    · rw [if_neg listening]
      by_cases seeded : read.outbound.seedPeers = []
      · simp only [if_pos seeded]
        refine ⟨nofun, ?_⟩
        rintro ⟨⟨⟩, loadable⟩
        exact (loadable.seeded seeded).elim
      · simp only [if_neg seeded]
        by_cases ordered : read.outbound.minPeers > read.outbound.maxPeers
        · simp only [if_pos ordered]
          refine ⟨nofun, ?_⟩
          rintro ⟨⟨⟩, loadable⟩
          exact (Nat.not_lt.mpr loadable.ordered ordered).elim
        · simp only [if_neg ordered]
          constructor
          · rintro ⟨⟩
            exact ⟨rfl, listening, seeded, Nat.not_lt.mp ordered⟩
          · rintro ⟨⟨⟩, _⟩
            rfl

end ErgoProxy
