import ErgoProxy.Types
import ErgoProxy.Foundation.FiniteMaps

/-!
# The router's tables

Four tables are keyed by modifier or by peer: who announced a modifier, who asked
for it, which outbound peer serves which inbound peer's synchronization, and how
long forwarded requests take. Hash maps are finite maps; an insertion replaces,
a removal returns what it removed, and a purge keeps every entry that does not
name the purged peer.

Instants are nanoseconds of a monotonic clock and are supplied by the caller.
Latencies are IEEE double-precision numbers, as in the source.
-/

namespace ErgoProxy.Routing

open FiniteMaps

/-- Modifier identifiers with the peer that announced them last. -/
structure InvTable where
  entries : FiniteMap ModifierId PeerId

namespace InvTable

/-- The empty table. -/
def new : InvTable := ⟨∅⟩

/-- Associate a modifier with a peer. -/
def record (table : InvTable) (modifierId : ModifierId) (peer : PeerId) : InvTable :=
  ⟨table.entries.insert modifierId peer⟩

/-- The peer that announced a modifier. -/
def lookup (table : InvTable) (modifierId : ModifierId) : Option PeerId :=
  table.entries.lookup modifierId

/-- Remove all entries of a peer. -/
def purgePeer (table : InvTable) (peer : PeerId) : InvTable :=
  ⟨retain (fun _ announcer => announcer ≠ peer) table.entries⟩

@[simp] theorem lookup_new (id : ModifierId) : new.lookup id = none := rfl

@[simp] theorem lookup_record (table : InvTable) (written id : ModifierId) (peer : PeerId) :
    (table.record written peer).lookup id = if id = written then some peer else table.lookup id :=
  lookup_insert_eq table.entries written id peer

@[simp] theorem lookup_purgePeer (table : InvTable) (peer : PeerId) (id : ModifierId) :
    (table.purgePeer peer).lookup id = (table.lookup id).filter (fun other => other ≠ peer) :=
  lookup_retain _ table.entries id

end InvTable

/-- Modifier identifiers with the peer that asked for them last. -/
structure RequestTracker where
  pending : FiniteMap ModifierId PeerId

namespace RequestTracker

/-- The empty tracker. -/
def new : RequestTracker := ⟨∅⟩

/-- Record that a peer asked for a modifier. -/
def record (tracker : RequestTracker) (modifierId : ModifierId) (requester : PeerId) :
    RequestTracker :=
  ⟨tracker.pending.insert modifierId requester⟩

/-- The requester of a modifier. -/
def lookup (tracker : RequestTracker) (modifierId : ModifierId) : Option PeerId :=
  tracker.pending.lookup modifierId

/-- Return and remove the requester of a modifier. -/
def fulfill (tracker : RequestTracker) (modifierId : ModifierId) :
    Option PeerId × RequestTracker :=
  (tracker.pending.lookup modifierId, ⟨tracker.pending.erase modifierId⟩)

/-- Remove all requests of a peer. -/
def purgePeer (tracker : RequestTracker) (peer : PeerId) : RequestTracker :=
  ⟨retain (fun _ requester => requester ≠ peer) tracker.pending⟩

@[simp] theorem lookup_new (id : ModifierId) : new.lookup id = none := rfl

@[simp] theorem lookup_record (tracker : RequestTracker) (written id : ModifierId)
    (peer : PeerId) :
    (tracker.record written peer).lookup id =
      if id = written then some peer else tracker.lookup id :=
  lookup_insert_eq tracker.pending written id peer

@[simp] theorem fulfill_fst (tracker : RequestTracker) (id : ModifierId) :
    (tracker.fulfill id).1 = tracker.lookup id := rfl

@[simp] theorem lookup_fulfill (tracker : RequestTracker) (served id : ModifierId) :
    (tracker.fulfill served).2.lookup id = if id = served then none else tracker.lookup id :=
  lookup_erase_eq tracker.pending served id

@[simp] theorem lookup_purgePeer (tracker : RequestTracker) (peer : PeerId) (id : ModifierId) :
    (tracker.purgePeer peer).lookup id = (tracker.lookup id).filter (fun other => other ≠ peer) :=
  lookup_retain _ tracker.pending id

end RequestTracker

/-- Pairings of inbound peers with the outbound peers that serve them. -/
structure SyncTracker where
  inboundToOutbound : FiniteMap PeerId PeerId
  outboundToInbound : FiniteMap PeerId PeerId

namespace SyncTracker

/-- No pairings. -/
def new : SyncTracker := ⟨∅, ∅⟩

/-- Record that an inbound peer's synchronization is handled by an outbound peer.
Neither peer's former partner is touched. -/
def pair (tracker : SyncTracker) (inbound outbound : PeerId) : SyncTracker :=
  ⟨tracker.inboundToOutbound.insert inbound outbound,
    tracker.outboundToInbound.insert outbound inbound⟩

/-- The outbound peer handling an inbound peer's synchronization. -/
def outboundFor (tracker : SyncTracker) (inbound : PeerId) : Option PeerId :=
  tracker.inboundToOutbound.lookup inbound

/-- The inbound peer whose synchronization an outbound peer handles. -/
def inboundFor (tracker : SyncTracker) (outbound : PeerId) : Option PeerId :=
  tracker.outboundToInbound.lookup outbound

/-- Remove a peer as an inbound peer, together with its partner's entry. -/
def purgeInbound (tracker : SyncTracker) (peer : PeerId) : SyncTracker :=
  match tracker.inboundToOutbound.lookup peer with
  | some outbound =>
    ⟨tracker.inboundToOutbound.erase peer, tracker.outboundToInbound.erase outbound⟩
  | none => tracker

/-- Remove a peer as an outbound peer, together with its partner's entry. -/
def purgeOutbound (tracker : SyncTracker) (peer : PeerId) : SyncTracker :=
  match tracker.outboundToInbound.lookup peer with
  | some inbound =>
    ⟨tracker.inboundToOutbound.erase inbound, tracker.outboundToInbound.erase peer⟩
  | none => tracker

/-- Remove the pairings of a peer, first as an inbound and then as an outbound peer. -/
def purgePeer (tracker : SyncTracker) (peer : PeerId) : SyncTracker :=
  (tracker.purgeInbound peer).purgeOutbound peer

/-- The assertion that debug builds evaluate after `pair` and `purgePeer`: every
entry of either map has its converse in the other. -/
def checkInvariant (tracker : SyncTracker) : Bool :=
  decide (∀ entry ∈ tracker.inboundToOutbound.entries,
      tracker.outboundToInbound.lookup entry.2 = some entry.1) &&
    decide (∀ entry ∈ tracker.outboundToInbound.entries,
      tracker.inboundToOutbound.lookup entry.2 = some entry.1)

@[simp] theorem outboundFor_pair (tracker : SyncTracker) (inbound outbound peer : PeerId) :
    (tracker.pair inbound outbound).outboundFor peer =
      if peer = inbound then some outbound else tracker.outboundFor peer :=
  lookup_insert_eq tracker.inboundToOutbound inbound peer outbound

@[simp] theorem inboundFor_pair (tracker : SyncTracker) (inbound outbound peer : PeerId) :
    (tracker.pair inbound outbound).inboundFor peer =
      if peer = outbound then some inbound else tracker.inboundFor peer :=
  lookup_insert_eq tracker.outboundToInbound outbound peer inbound

/-- The assertion holds exactly when the two maps are inverse to each other. -/
theorem checkInvariant_iff (tracker : SyncTracker) :
    tracker.checkInvariant = true ↔
      ∀ inbound outbound, tracker.outboundFor inbound = some outbound ↔
        tracker.inboundFor outbound = some inbound := by
  simp only [checkInvariant, Bool.and_eq_true, decide_eq_true_eq]
  constructor
  · rintro ⟨forward, backward⟩ inbound outbound
    constructor
    · intro paired
      exact forward ⟨inbound, outbound⟩ (Finmap.lookup_eq_some_iff.mp paired)
    · intro paired
      exact backward ⟨outbound, inbound⟩ (Finmap.lookup_eq_some_iff.mp paired)
  · intro inverse
    constructor
    · rintro ⟨inbound, outbound⟩ member
      exact (inverse inbound outbound).mp (Finmap.lookup_eq_some_iff.mpr member)
    · rintro ⟨outbound, inbound⟩ member
      exact (inverse inbound outbound).mpr (Finmap.lookup_eq_some_iff.mpr member)

end SyncTracker

/-- A reading of the monotonic clock, in nanoseconds. -/
abbrev Instant : Type := Nat

/-- Timing entry for a request in flight. -/
structure PendingTiming where
  targetPeer : PeerId
  sentAt : Instant

/-- Latency statistics of one peer. -/
structure PeerLatency where
  emaMs : Float
  sampleCount : UInt64

/-- Requests in flight and latency statistics by peer. -/
structure LatencyTracker where
  pending : FiniteMap ModifierId PendingTiming
  peers : FiniteMap PeerId PeerLatency

namespace LatencyTracker

/-- Weight of a new sample in the exponential moving average. -/
def emaAlpha : Float := 0.3

/-- No requests and no statistics. -/
def new : LatencyTracker := ⟨∅, ∅⟩

/-- Record that a request was forwarded to a peer. -/
def recordRequest (tracker : LatencyTracker) (modifierId : ModifierId) (targetPeer : PeerId)
    (now : Instant) : LatencyTracker :=
  { tracker with pending := tracker.pending.insert modifierId { targetPeer, sentAt := now } }

/-- Elapsed time in seconds; a clock that went backwards counts as zero. -/
def elapsedSecs (sentAt now : Instant) : Float :=
  let nanos := now - sentAt
  Float.ofNat (nanos / 1000000000) + Float.ofNat (nanos % 1000000000) / 1000000000.0

/-- Record that a response arrived: the timing entry is removed and its peer's
statistics take one more sample. An unknown modifier changes nothing. -/
def recordResponse (tracker : LatencyTracker) (modifierId : ModifierId) (now : Instant) :
    Option Float × LatencyTracker :=
  match tracker.pending.lookup modifierId with
  | none => (none, tracker)
  | some timing =>
    let rttMs := elapsedSecs timing.sentAt now * 1000.0
    let entry := (tracker.peers.lookup timing.targetPeer).getD { emaMs := rttMs, sampleCount := 0 }
    let emaMs :=
      if entry.sampleCount = 0 then rttMs
      else emaAlpha * rttMs + (1.0 - emaAlpha) * entry.emaMs
    (some rttMs,
      { pending := tracker.pending.erase modifierId
        peers := tracker.peers.insert timing.targetPeer
          { emaMs, sampleCount := entry.sampleCount + 1 } })

/-- Remove all data of a disconnected peer. -/
def purgePeer (tracker : LatencyTracker) (peer : PeerId) : LatencyTracker :=
  { pending := retain (fun _ timing => timing.targetPeer ≠ peer) tracker.pending
    peers := tracker.peers.erase peer }

/-- The peer to which a pending request was forwarded. -/
def target (tracker : LatencyTracker) (id : ModifierId) : Option PeerId :=
  (tracker.pending.lookup id).map PendingTiming.targetPeer

@[simp] theorem target_recordRequest (tracker : LatencyTracker) (written id : ModifierId)
    (peer : PeerId) (now : Instant) :
    (tracker.recordRequest written peer now).target id =
      if id = written then some peer else tracker.target id := by
  simp only [target, recordRequest, lookup_insert_eq]
  split <;> rfl

@[simp] theorem peers_recordRequest (tracker : LatencyTracker) (written : ModifierId)
    (peer : PeerId) (now : Instant) :
    (tracker.recordRequest written peer now).peers = tracker.peers := rfl

/-- A response removes its own timing entry and no other. -/
theorem pending_recordResponse (tracker : LatencyTracker) (served id : ModifierId)
    (now : Instant) :
    (tracker.recordResponse served now).2.pending.lookup id =
      if id = served then none else tracker.pending.lookup id := by
  unfold recordResponse
  cases found : tracker.pending.lookup served with
  | none =>
    by_cases same : id = served
    · subst same
      simpa using found
    · simp [same]
  | some timing => exact lookup_erase_eq tracker.pending served id

/-- A response adds statistics only for the peer that its timing entry named. -/
theorem peers_recordResponse {tracker : LatencyTracker} {served : ModifierId} {now : Instant}
    {peer : PeerId} (sampled : peer ∈ (tracker.recordResponse served now).2.peers) :
    peer ∈ tracker.peers ∨ tracker.target served = some peer := by
  unfold recordResponse at sampled
  cases found : tracker.pending.lookup served with
  | none =>
    rw [found] at sampled
    exact Or.inl sampled
  | some timing =>
    rw [found] at sampled
    rcases Finmap.mem_insert.mp sampled with rfl | member
    · exact Or.inr (by simp [target, found])
    · exact Or.inl member

/-- How many samples a peer's statistics count. -/
def samples (tracker : LatencyTracker) (peer : PeerId) : UInt64 :=
  ((tracker.peers.lookup peer).map PeerLatency.sampleCount).getD 0

/-- A response leaves the statistics of every peer alone but the one that its timing entry
named. -/
theorem statistics_recordResponse {tracker : LatencyTracker} {served : ModifierId}
    {peer : PeerId} (other : tracker.target served ≠ some peer) (now : Instant) :
    (tracker.recordResponse served now).2.peers.lookup peer = tracker.peers.lookup peer := by
  unfold recordResponse
  cases found : tracker.pending.lookup served with
  | none => rfl
  | some timing =>
    have different : peer ≠ timing.targetPeer := by
      rintro rfl
      exact other (by simp [target, found])
    exact Finmap.lookup_insert_of_ne tracker.peers different

/-- A response counts one sample for the peer that its timing entry named, and none for
anybody else. -/
theorem samples_recordResponse (tracker : LatencyTracker) (served : ModifierId) (now : Instant)
    (peer : PeerId) :
    (tracker.recordResponse served now).2.samples peer =
      tracker.samples peer + if tracker.target served = some peer then 1 else 0 := by
  by_cases named : tracker.target served = some peer
  · obtain ⟨timing, found, rfl⟩ := Option.map_eq_some_iff.mp named
    rw [if_pos named]
    simp only [samples, recordResponse, found, lookup_insert_eq, if_true, Option.map_some,
      Option.getD_some]
    cases tracker.peers.lookup timing.targetPeer <;> rfl
  · rw [if_neg named, samples, samples, statistics_recordResponse named, UInt64.add_zero]

/-- Purging keeps exactly the timing entries of other peers. -/
theorem target_purgePeer (tracker : LatencyTracker) (peer : PeerId) (id : ModifierId) :
    (tracker.purgePeer peer).target id = (tracker.target id).filter (fun other => other ≠ peer) := by
  simp only [target, purgePeer, lookup_retain]
  cases tracker.pending.lookup id with
  | none => rfl
  | some timing =>
    by_cases same : timing.targetPeer = peer <;> simp [Option.filter, same]

end LatencyTracker

end ErgoProxy.Routing
