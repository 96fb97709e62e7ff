import ErgoProxy.Transport.HandshakeWalks
import Mathlib.Logic.Relation

/-!
# How far quantities are read, and what is left of them

The read loop is followed from byte to byte. Its shift grows by seven and stays at
or below 63, so no input is read beyond its tenth byte, and the outcome depends on
the first ten bytes only.

The value is exact as long as the positional sum fits in 64 bits. A sequence of ten
bytes whose last byte exceeds one does not fit, and the loop returns what remains of
it modulo 2^64 where it should fail. A declared port is narrowed to 16 bits in the
same silent way. Both conditions are shown to be exactly the inputs on which
decoding is faithful.
-/

namespace ErgoProxy.Vlq

open ExactReaders Cursor

/-- The variables of the read loop between two bytes. -/
structure Reading where
  result : UInt64
  shift : Nat
  unread : Bytes

/-- The loop variables after one iteration, unless it is the last one. -/
def Reading.next : Reading → Option Reading
  | ⟨_, _, []⟩ => none
  | ⟨result, shift, byte :: rest⟩ =>
    if byte &&& 0x80 = 0 then none
    else if 63 < shift + 7 then none
    else some ⟨result ||| ((byte &&& 0x7f).toUInt64 <<< UInt64.ofNat shift), shift + 7, rest⟩

/-- What the loop returns when it goes on from these variables. -/
def Reading.outcome (reading : Reading) : EStateM.Result IoError Bytes UInt64 :=
  readVlqLoop reading.result reading.shift reading.unread

/-- The same verdict with other bytes left unread. -/
def leaving (rest : Bytes) :
    EStateM.Result IoError Bytes UInt64 → EStateM.Result IoError Bytes UInt64
  | .ok value _ => .ok value rest
  | .error problem _ => .error problem rest

/-- The loop ends with the next byte: there is none, or the verdict is the same whatever follows. -/
def Reading.Ends (reading : Reading) : Prop :=
  ∀ byte rest, reading.unread = byte :: rest → ∀ other,
    readVlqLoop reading.result reading.shift (byte :: other) = leaving other reading.outcome

/-- The loop gets from one set of variables to another. -/
def Reading.Reaches (before after : Reading) : Prop :=
  Relation.ReflTransGen (fun before after => before.next = some after) before after

/-- An iteration that is not the last consumes one byte, raises the shift by seven to at
most 63 and leaves the outcome to the next one. -/
theorem next_some {before after : Reading} (goes : before.next = some after) :
    before.outcome = after.outcome ∧ after.shift = before.shift + 7 ∧ after.shift ≤ 63 ∧
      ∃ byte, before.unread = byte :: after.unread := by
  obtain ⟨result, shift, unread⟩ := before
  cases unread with
  | nil => cases goes
  | cons byte rest =>
    simp only [Reading.next] at goes
    split at goes
    · cases goes
    · rename_i continued
      split at goes
      · cases goes
      · rename_i inWidth
        obtain rfl := Option.some.inj goes
        refine ⟨?_, rfl, Nat.le_of_not_lt inWidth, byte, rfl⟩
        simp only [Reading.outcome, readVlqLoop, if_neg continued, if_neg inWidth]

/-- There is no further iteration exactly where the loop ends with the next byte. After a byte that
continues within the width, a missing byte and a final one lead to different verdicts. -/
theorem next_none (reading : Reading) : reading.next = none ↔ reading.Ends := by
  obtain ⟨result, shift, unread⟩ := reading
  cases unread with
  | nil => exact iff_of_true rfl (by rintro _ _ ⟨⟩)
  | cons byte rest =>
    simp only [Reading.next]
    by_cases final : byte &&& 0x80 = 0
    · rw [if_pos final]
      refine iff_of_true rfl ?_
      rintro _ _ ⟨⟩ other
      simp only [Reading.outcome, readVlqLoop, if_pos final, leaving]
    · rw [if_neg final]
      by_cases overflow : 63 < shift + 7
      · rw [if_pos overflow]
        refine iff_of_true rfl ?_
        rintro _ _ ⟨⟩ other
        simp only [Reading.outcome, readVlqLoop, if_neg final, if_pos overflow, leaving]
      · rw [if_neg overflow]
        refine iff_of_false (Option.some_ne_none _) ?_
        intro ends
        have missing := ends byte rest rfl []
        have terminated := ends byte rest rfl [0]
        simp only [readVlqLoop, if_neg final, if_neg overflow, UInt8.zero_and, if_true]
          at missing terminated
        cases outcome : Reading.outcome ⟨result, shift, byte :: rest⟩ with
        | ok => rw [outcome] at missing; cases missing
        | error => rw [outcome] at terminated; cases terminated

/-- Wherever the loop gets, it has read one byte for every seven bits of its shift, the
shift is at most 63 and the outcome is still the same. -/
theorem reached_bounds {data : Bytes} {reading : Reading}
    (reached : Reading.Reaches ⟨0, 0, data⟩ reading) :
    reading.outcome = readVlq data ∧ reading.shift ≤ 63 ∧
      ∃ used, data = used ++ reading.unread ∧ reading.shift = 7 * used.length := by
  induction reached with
  | refl => exact ⟨rfl, Nat.zero_le 63, [], rfl, rfl⟩
  | tail _ goes inductionHypothesis =>
    obtain ⟨same, _, used, split, counted⟩ := inductionHypothesis
    obtain ⟨continued, raised, inWidth, byte, front⟩ := next_some goes
    refine ⟨continued.symm.trans same, inWidth, used ++ [byte], ?_, ?_⟩
    · rw [split, front, List.append_cons]
    · rw [raised, counted, List.length_append, List.length_singleton]
      omega

/-- An input that agrees on its first bytes starts with the same byte. -/
theorem taken_cons {count : Nat} {byte : UInt8} {data other : Bytes}
    (same : other.take (count + 1) = (byte :: data).take (count + 1)) :
    ∃ tail, other = byte :: tail ∧ tail.take count = data.take count := by
  cases other with
  | nil => cases same
  | cons first tail =>
    obtain ⟨rfl, agreed⟩ := List.cons.inj same
    exact ⟨tail, rfl, agreed⟩

/-- With a budget of further groups, the loop reads no more bytes than the budget, and its
verdict depends on no others. Induct on the budget: the first byte ends the loop, or one
group of the budget is spent; the last group of the budget cannot be continued. -/
theorem loop_stops (budget : Nat) (data : Bytes) (result : UInt64) (shift : Nat)
    (room : shift + 7 * (budget + 1) = 70) :
    ∃ count ≤ budget + 1, ∀ other, other.take (budget + 1) = data.take (budget + 1) →
      readVlqLoop result shift other =
        leaving (other.drop count) (readVlqLoop result shift data) := by
  induction budget generalizing data result shift with
  | zero =>
    refine ⟨1, Nat.le_refl 1, ?_⟩
    intro other same
    cases data with
    | nil =>
      obtain rfl : other = [] := by simpa using same
      rfl
    | cons byte data =>
      obtain ⟨tail, rfl, _⟩ := taken_cons same
      have overflow : 63 < shift + 7 := by omega
      simp only [readVlqLoop, if_pos overflow, List.drop_succ_cons, List.drop_zero]
      split <;> rfl
  | succ budget inductionHypothesis =>
    cases data with
    | nil =>
      refine ⟨0, Nat.zero_le _, ?_⟩
      intro other same
      obtain rfl : other = [] := by simpa using same
      rfl
    | cons byte data =>
      obtain ⟨count, within, agrees⟩ := inductionHypothesis data
        (result ||| ((byte &&& 0x7f).toUInt64 <<< UInt64.ofNat shift)) (shift + 7) (by omega)
      have inWidth : ¬ 63 < shift + 7 := by omega
      by_cases final : byte &&& 0x80 = 0
      · refine ⟨1, by omega, ?_⟩
        intro other same
        obtain ⟨tail, rfl, _⟩ := taken_cons same
        simp only [readVlqLoop, if_pos final, leaving, List.drop_succ_cons, List.drop_zero]
      · refine ⟨count + 1, by omega, ?_⟩
        intro other same
        obtain ⟨tail, rfl, agreed⟩ := taken_cons same
        simp only [readVlqLoop, if_neg final, if_neg inWidth, List.drop_succ_cons]
        exact agrees tail agreed

/-- Reading stops within ten bytes, whatever the input, and its verdict depends on the first
ten bytes only. -/
theorem read_stops (data : Bytes) :
    ∃ count ≤ 10, ∀ other, other.take 10 = data.take 10 →
      readVlq other = leaving (other.drop count) (readVlq data) :=
  loop_stops 9 data 0 0 rfl

/-- The quantity codec: every value is appended in one to ten bytes and read back in front
of anything; no input is decoded to it with fewer bytes; it is read back as a length exactly
up to 256 KiB. Any input whatsoever is read up to ten bytes. The iterations follow each other
until the loop ends, without a change of its outcome, and none of them shifts by more than 63. -/
theorem vlq_codec (value : UInt64) (buf rest : Bytes) :
    (∃ written, writeVlq buf value = buf ++ written ∧ 1 ≤ written.length ∧ written.length ≤ 10 ∧
      readVlq (written ++ rest) = .ok value rest ∧
      (∀ data unread, readVlq data = .ok value unread →
        written.length + unread.length ≤ data.length) ∧
      ∀ count unread, readVlqLength (written ++ rest) = .ok count unread ↔
        value.toNat ≤ 262144 ∧ count = value.toNat ∧ unread = rest) ∧
    (∀ data, ∃ count ≤ 10, ∀ other, other.take 10 = data.take 10 →
      readVlq other = leaving (other.drop count) (readVlq data)) ∧
    ∀ data reading, Reading.Reaches ⟨0, 0, data⟩ reading →
      reading.outcome = readVlq data ∧ reading.shift ≤ 63 ∧
        (reading.next = none ↔ reading.Ends) := by
  obtain ⟨positive, short⟩ := write_length value
  have readBack := consumes_readVlq value rest
  refine ⟨⟨writeVlq [] value, write_append buf value, positive, short, readBack, ?_, ?_⟩,
    read_stops, ?_⟩
  · intro data unread done
    obtain ⟨used, rfl, _⟩ := exact_readVlq data value unread done
    have minimal := write_minimal done
    rw [List.length_append]
    omega
  · intro count unread
    rw [readVlqLength_ok]
    constructor
    · rintro ⟨read, done, bounded, rfl⟩
      obtain ⟨rfl, rfl⟩ : value = read ∧ rest = unread := by
        simpa only [EStateM.Result.ok.injEq] using readBack.symm.trans done
      exact ⟨bounded, rfl, rfl⟩
    · rintro ⟨bounded, rfl, rfl⟩
      exact ⟨value, readBack, bounded, rfl⟩
  · intro data reading reached
    obtain ⟨same, inWidth, _⟩ := reached_bounds reached
    exact ⟨same, inWidth, next_none reading⟩

instance decidableTerminated : (bytes : Bytes) → Decidable (Terminated bytes)
  | [] => isFalse id
  | byte :: rest =>
    if final : byte.toNat < 128 then decidable_of_iff (rest = []) (by simp [Terminated, final])
    else
      have := decidableTerminated rest
      decidable_of_iff (Terminated rest) (by simp [Terminated, final])

/-- A group sequence is complete at one place only. -/
theorem terminated_unique {used other rest left : Bytes} (complete : Terminated used)
    (ended : Terminated other) (same : used ++ rest = other ++ left) :
    used = other ∧ rest = left := by
  induction used generalizing other with
  | nil => exact complete.elim
  | cons byte used inductionHypothesis =>
    cases other with
    | nil => exact ended.elim
    | cons first other =>
      obtain ⟨rfl, agreed⟩ := List.cons.inj same
      by_cases final : byte.toNat < 128
      · simp only [Terminated, if_pos final] at complete ended
        subst complete ended
        exact ⟨rfl, agreed⟩
      · simp only [Terminated, if_neg final] at complete ended
        obtain ⟨rfl, rest⟩ := inductionHypothesis complete ended agreed
        exact ⟨rfl, rest⟩

/-- A last group counts at its own position. -/
theorem groups_value_append (leading : Bytes) (last : UInt8) :
    groupsValue (leading ++ [last]) =
      groupsValue leading + 2 ^ (7 * leading.length) * (last.toNat % 128) := by
  induction leading with
  | nil => simp [groupsValue]
  | cons byte leading inductionHypothesis =>
    have position : 2 ^ (7 * (leading.length + 1)) = 128 * 2 ^ (7 * leading.length) := by
      rw [Nat.mul_add, Nat.pow_add]
      omega
    rw [List.cons_append, groupsValue, groupsValue, inductionHypothesis, List.length_cons, position,
      Nat.mul_add, Nat.mul_assoc, Nat.add_assoc]

/-- The last byte of a complete sequence is not continued. -/
theorem terminated_last {leading : Bytes} {last : UInt8}
    (complete : Terminated (leading ++ [last])) : last.toNat < 128 := by
  induction leading with
  | nil =>
    by_contra continued
    simp only [List.nil_append, Terminated, if_neg continued] at complete
  | cons byte leading inductionHypothesis =>
    by_cases final : byte.toNat < 128
    · simp [Terminated, final] at complete
    · simp only [List.cons_append, Terminated, if_neg final] at complete
      exact inductionHypothesis complete

/-- A complete sequence of at most ten bytes fits in 64 bits unless it has a tenth byte above
one: the tenth group starts at bit 63. -/
theorem groups_fit {used : Bytes} (complete : Terminated used) (short : used.length ≤ 10) :
    groupsValue used < 2 ^ 64 ↔
      ∀ leading last, used = leading ++ [last] → leading.length = 9 → last.toNat ≤ 1 := by
  constructor
  · rintro fits leading last rfl nine
    have final := terminated_last complete
    rw [groups_value_append, nine] at fits
    omega
  · intro small
    by_cases fewer : used.length ≤ 9
    · calc groupsValue used < 2 ^ (7 * used.length) := groups_value_bound used
        _ ≤ 2 ^ 64 := Nat.pow_le_pow_right (by decide) (by omega)
    · rcases List.eq_nil_or_concat' used with rfl | ⟨leading, last, rfl⟩
      · exact complete.elim
      · rw [List.length_append, List.length_singleton] at short fewer
        have nine : leading.length = 9 := by omega
        have bounded := groups_value_bound leading
        have one := small leading last rfl nine
        rw [nine] at bounded
        rw [groups_value_append, nine]
        omega

/-- A sequence of ten bytes at the front ends in zero or one. -/
def TenthFits (data : Bytes) : Prop :=
  ∀ leading last rest, data = leading ++ last :: rest → leading.length = 9 →
    Terminated (leading ++ [last]) → last.toNat ≤ 1

/-- The condition on the tenth byte says that the sequence at the front fits in 64 bits, if it
is short enough to be read at all. -/
theorem tenthFits_iff (data : Bytes) :
    TenthFits data ↔ ∀ used rest, data = used ++ rest → Terminated used → used.length ≤ 10 →
      groupsValue used < 2 ^ 64 := by
  constructor
  · intro tenth used rest split complete short
    refine (groups_fit complete short).mpr ?_
    rintro leading last rfl nine
    exact tenth leading last rest (split.trans (List.append_cons leading last rest).symm) nine
      complete
  · intro fits leading last rest split nine complete
    have short : (leading ++ [last]).length ≤ 10 := by
      rw [List.length_append, nine, List.length_singleton]
    have front : data = (leading ++ [last]) ++ rest := split.trans (List.append_cons _ _ _)
    exact (groups_fit complete short).mp (fits _ rest front complete short) leading last rfl nine

/-- A complete sequence of at most ten bytes is read, with what is left of its sum. -/
theorem read_complete {used : Bytes} (complete : Terminated used) (short : used.length ≤ 10)
    (rest : Bytes) : readVlq (used ++ rest) = .ok (UInt64.ofNat (groupsValue used)) rest :=
  (read_exact _ _ _).mpr ⟨used, rfl, complete, short, UInt64.toNat_ofNat'⟩

/-- Decoding at the front of an input is exact: a quantity or a length is returned only for a
complete sequence with that unbounded positional sum, and a sum of more than 64 bits is
refused. -/
structure Faithful (data : Bytes) : Prop where
  quantity : ∀ value rest, readVlq data = .ok value rest →
    ∃ used, data = used ++ rest ∧ Terminated used ∧ value.toNat = groupsValue used
  length : ∀ count rest, readVlqLength data = .ok count rest →
    ∃ used, data = used ++ rest ∧ Terminated used ∧ count = groupsValue used
  overflow : ∀ used rest, data = used ++ rest → Terminated used → 2 ^ 64 ≤ groupsValue used →
    ∃ problem left, readVlq data = .error problem left

/-- Decoding is exact precisely where the tenth byte fits. -/
theorem faithful_iff (data : Bytes) : Faithful data ↔ TenthFits data := by
  rw [tenthFits_iff]
  constructor
  · rintro faithful used rest rfl complete short
    by_contra large
    obtain ⟨problem, left, failed⟩ :=
      faithful.overflow used rest rfl complete (Nat.le_of_not_lt large)
    cases failed.symm.trans (read_complete complete short rest)
  · intro fits
    have quantity : ∀ value rest, readVlq data = .ok value rest →
        ∃ used, data = used ++ rest ∧ Terminated used ∧ value.toNat = groupsValue used := by
      intro value rest done
      obtain ⟨used, split, complete, short, total⟩ := (read_exact data value rest).mp done
      rw [Nat.mod_eq_of_lt (fits used rest split complete short)] at total
      exact ⟨used, split, complete, total⟩
    refine ⟨quantity, ?_, ?_⟩
    · intro count rest done
      obtain ⟨value, read, _, rfl⟩ := (readVlqLength_ok data count rest).mp done
      exact quantity value rest read
    · intro used rest split complete large
      cases outcome : readVlq data with
      | error problem left => exact ⟨problem, left, rfl⟩
      | ok value left =>
        obtain ⟨read, front, ended, short, _⟩ := (read_exact data value left).mp outcome
        obtain ⟨rfl, _⟩ := terminated_unique complete ended (split.symm.trans front)
        exact absurd (fits used left front complete short) (Nat.not_lt_of_le large)

end ErgoProxy.Vlq

namespace ErgoProxy.Handshake

open ExactReaders Cursor Vlq

/-- A parsed address stands behind a length byte: as many octets as it announces beyond four,
which are four or sixteen, and a quantity whose low sixteen bits are the port. -/
theorem parseAddress_some {data rest : Bytes} {address : SocketAddr}
    (parsed : parseAddress data = .ok (some address) rest) :
    ∃ addrLen octets tail value, data = addrLen :: (octets ++ tail) ∧
      octets.length = addrLen.toNat - 4 ∧ (octets.length = 4 ∨ octets.length = 16) ∧
        readVlq tail = .ok value rest ∧ address.port = value.toUInt16 := by
  obtain ⟨addrLen, afterLen, lenRead, behindLen⟩ := (bind_ok _ _ _ _ _).mp parsed
  obtain ⟨octets, tail, octetsRead, behindOctets⟩ := (bind_ok _ _ _ _ _).mp behindLen
  obtain ⟨value, last, portRead, finished⟩ := (bind_ok _ _ _ _ _).mp behindOctets
  obtain ⟨rfl, announced⟩ := (readExact_ok _ _ _ _).mp octetsRead
  refine ⟨addrLen, octets, tail, value, readByte_front _ _ _ lenRead, announced, ?_⟩
  split at finished
  case isTrue four =>
    cases finished
    exact ⟨Or.inl four, portRead, rfl⟩
  case isFalse =>
    split at finished
    case isTrue sixteen =>
      cases finished
      exact ⟨Or.inr sixteen, portRead, rfl⟩
    case isFalse => cases finished

/-- Four or sixteen octets behind their length, with a quantity behind them, are an address. -/
theorem parseAddress_known {addrLen : UInt8} {octets tail rest : Bytes} {value : UInt64}
    (announced : octets.length = addrLen.toNat - 4)
    (known : octets.length = 4 ∨ octets.length = 16) (read : readVlq tail = .ok value rest) :
    ∃ address, parseAddress (addrLen :: (octets ++ tail)) = .ok (some address) rest := by
  have octetsRead : readExact (addrLen.toNat - 4) (octets ++ tail) = .ok octets tail :=
    (readExact_ok _ _ _ _).mpr ⟨rfl, announced⟩
  have lenRead : readByte (addrLen :: (octets ++ tail)) = .ok addrLen (octets ++ tail) := rfl
  rw [parseAddress, bind_of_ok lenRead, bind_of_ok octetsRead, bind_of_ok read]
  rcases known with four | sixteen
  · rw [dif_pos four]
    exact ⟨_, rfl⟩
  · rw [dif_neg (by omega), dif_pos sixteen]
    exact ⟨_, rfl⟩

/-- The quantity behind the octets of an address, if it can be read, is a port number. -/
def PortFits (data : Bytes) : Prop :=
  ∀ addrLen octets used rest, data = addrLen :: (octets ++ (used ++ rest)) →
    octets.length = addrLen.toNat - 4 → octets.length = 4 ∨ octets.length = 16 →
      Terminated used → used.length ≤ 10 → groupsValue used < 65536

/-- A parsed address has the port that was sent: the complete sequence behind the octets
decodes to its unbounded positional sum, and that is the port. -/
def PortFaithful (data : Bytes) : Prop :=
  ∀ address rest, parseAddress data = .ok (some address) rest →
    ∃ addrLen octets used value, data = addrLen :: (octets ++ (used ++ rest)) ∧
      octets.length = addrLen.toNat - 4 ∧ Terminated used ∧
        readVlq (used ++ rest) = .ok value rest ∧ value.toNat = groupsValue used ∧
          address.port.toNat = value.toNat

/-- A parsed address has the port that was sent precisely where that is a port number. -/
theorem portFaithful_iff (data : Bytes) : PortFaithful data ↔ PortFits data := by
  constructor
  · rintro faithful addrLen octets used rest rfl announced known complete short
    obtain ⟨address, parsed⟩ :=
      parseAddress_known announced known (read_complete complete short rest)
    obtain ⟨byte, bytes, sequence, value, same, counted, ended, _, total, port⟩ :=
      faithful address rest parsed
    obtain ⟨rfl, behind⟩ := List.cons.inj same
    obtain ⟨rfl, tail⟩ := List.append_inj behind (announced.trans counted.symm)
    obtain rfl := List.append_cancel_right tail
    rw [← total, ← port]
    exact address.port.toNat_lt
  · intro fits address rest parsed
    obtain ⟨addrLen, octets, tail, value, rfl, announced, known, read, port⟩ :=
      parseAddress_some parsed
    obtain ⟨used, rfl, complete, short, total⟩ := (read_exact tail value rest).mp read
    have small := fits addrLen octets used rest rfl announced known complete short
    rw [Nat.mod_eq_of_lt (by omega)] at total
    refine ⟨addrLen, octets, used, value, rfl, announced, complete, read, total, ?_⟩
    rw [port, UInt64.toNat_toUInt16, total]
    exact Nat.mod_eq_of_lt small

/-- Numbers on the wire: at the front of an input, quantities and lengths are decoded exactly
if and only if a tenth byte is at most one, and the port of an address is exact if and only if
it is a 16-bit number. -/
theorem numbers_untruncated (data : Bytes) :
    (Faithful data ↔ TenthFits data) ∧ (PortFaithful data ↔ PortFits data) :=
  ⟨faithful_iff data, portFaithful_iff data⟩

/-- Nine continued empty groups and a tenth of two: the number 2^64. -/
def tenGroups : Bytes := [0x80, 0x80, 0x80, 0x80, 0x80, 0x80, 0x80, 0x80, 0x80, 0x02]

/-- The address 127.0.0.1 with the number 65616 for its port. -/
def wideAddress : Bytes := [8, 127, 0, 0, 1, 0xd0, 0x80, 0x04]

/-- The number 2^64 is decoded as zero, and the port 65616 as port 80. -/
theorem numbers_truncated :
    groupsValue tenGroups = 2 ^ 64 ∧ readVlq tenGroups = .ok 0 [] ∧ ¬ Faithful tenGroups ∧
      parseAddress wideAddress = .ok (some (.v4 #v[127, 0, 0, 1] 80)) [] ∧
        ¬ PortFaithful wideAddress := by
  refine ⟨by decide, rfl, ?_, rfl, ?_⟩
  · rw [faithful_iff]
    intro fits
    exact absurd (fits (tenGroups.take 9) 2 [] rfl rfl (by decide)) (by decide)
  · rw [portFaithful_iff]
    intro fits
    exact absurd (fits 8 [127, 0, 0, 1] [0xd0, 0x80, 0x04] [] rfl rfl (Or.inl rfl) (by decide)
      (by decide)) (by decide)

end ErgoProxy.Handshake
