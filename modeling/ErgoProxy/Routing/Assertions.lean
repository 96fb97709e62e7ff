import ErgoProxy.Routing.Pairing

/-!
# The assertions of a debug build

A debug build looks through the announcement table after each purge, and through the pairing
after each purge and after each new pair. An assertion that fails ends the process, so a debug
build takes only the steps whose assertions hold.

The first of these assertions never fails. The second fails at the first synchronization
message of a paired peer that finds another outbound peer free, and at no other call: the runs
of a debug build are the runs in which every such message comes at the right time.
-/

namespace ErgoProxy.Routing

open FiniteMaps Runs

/-- The assertion that debug builds evaluate after `purgePeer`: no entry names the peer. -/
def InvTable.checkInvariantNoPeer (table : InvTable) (peer : PeerId) : Bool :=
  decide (∀ entry ∈ table.entries.entries, entry.2 ≠ peer)

/-- The assertion holds after every purge. -/
theorem InvTable.purgePeer_checked (table : InvTable) (peer : PeerId) :
    (table.purgePeer peer).checkInvariantNoPeer peer = true := by
  apply decide_eq_true
  rintro ⟨id, announcer⟩ member rfl
  have found : (table.purgePeer announcer).lookup id = some announcer :=
    Finmap.lookup_eq_some_iff.mpr member
  rw [InvTable.lookup_purgePeer, Option.filter_eq_some_iff] at found
  exact of_decide_eq_true found.2 rfl

/-- The call enters a pair: a synchronization message of an inbound peer is sent on. -/
def Pairs (before : Router) (entry : Entry) : Prop :=
  ∃ source body mode, entry.call = .handleEvent (.message source (.syncInfo body)) ∧
    before.peers.lookup source = some ⟨.inbound, mode⟩ ∧ entry.actions ≠ []

/-- A call of a debug build. It returns if the assertions that it comes to hold. -/
structure DebugStep (before : Router) (entry : Entry) (after : Router) : Prop where
  taken : Step before entry after
  paired : Pairs before entry → after.syncTracker.checkInvariant = true
  purged : ∀ peer, entry.disconnects peer →
    after.invTable.checkInvariantNoPeer peer = true ∧ after.syncTracker.checkInvariant = true

variable {history : History} {before after router : Router} {entry : Entry}

/-- What registers no peer twice has not done so before its last call. -/
theorem registeredOnce_earlier (once : RegisteredOnce (entry :: history)) :
    RegisteredOnce history :=
  once.sublist ((List.sublist_cons_self entry history).filterMap _)

/-- A call that neither enters a pair nor disconnects a peer leaves the pairing alone. -/
theorem tracker_unchanged (taken : Step before entry after) (single : ¬ Pairs before entry)
    (stays : ∀ peer, ¬ entry.disconnects peer) : after.syncTracker = before.syncTracker := by
  cases step_effect taken with
  | registered | connected => rfl
  | disconnected peer reason => exact (stays peer ⟨reason, rfl⟩).elim
  | message routed =>
    cases routed with
    | requested _ forwarded => exact forwarded.pairing
    | responded _ delivered => exact delivered.pairing
    | syncPaired registered =>
      exact (single ⟨_, _, _, rfl, registered, List.cons_ne_nil _ _⟩).elim
    | _ => rfl

/-- From a consistent pairing, a debug build returns from a call only if it meets the
condition. -/
theorem debug_fresh (step : DebugStep before entry after) (paired : Paired before) :
    FreshSync before entry := by
  by_contra stale
  have broken := step_unpaired step.taken stale paired
  have stays (peer : PeerId) : ¬ entry.disconnects peer := by
    rintro ⟨reason, called⟩
    refine stale fun source body mode sync => ?_
    cases called.symm.trans sync
  by_cases pairs : Pairs before entry
  · exact broken ((SyncTracker.checkInvariant_iff _).mp (step.paired pairs))
  · rw [tracker_unchanged step.taken pairs stays] at broken
    exact broken paired.inverse

/-- A debug build returns from a call after which the pairing is consistent. -/
theorem paired_debug (taken : Step before entry after) (paired : Paired after) :
    DebugStep before entry after := by
  have checked := (SyncTracker.checkInvariant_iff _).mpr paired.inverse
  refine ⟨taken, fun _ => checked, ?_⟩
  rintro peer ⟨reason, called⟩
  refine ⟨?_, checked⟩
  cases step_effect taken with
  | disconnected other =>
    cases called
    exact InvTable.purgePeer_checked before.invTable peer
  | _ => cases called

/-- The runs of a debug build in which no peer is registered twice are exactly those in which
every synchronization message of an inbound full-mode peer finds the peer without a partner, or
no outbound peer free. No other sequence of calls makes an assertion of the router fail. -/
theorem debug_runs_fresh (once : RegisteredOnce history) :
    Run Router.new DebugStep history router ↔ Run Router.new FreshStep history router := by
  constructor
  · intro run
    refine invariant (fun earlier reached => RegisteredOnce earlier →
      Run Router.new FreshStep earlier reached) (fun _ => .start) ?_ run once
    intro earlier before entry after _ fresh step onceAfter
    have earlierRun := fresh (registeredOnce_earlier onceAfter)
    have paired := run_paired earlierRun (registeredOnce_earlier onceAfter)
    exact .extend earlierRun ⟨step.taken, debug_fresh step paired⟩
  · intro run
    refine invariant (fun earlier reached => RegisteredOnce earlier →
      Run Router.new DebugStep earlier reached) (fun _ => .start) ?_ run once
    intro earlier before entry after earlierRun debug step onceAfter
    have paired : Paired after := run_paired (.extend earlierRun step) onceAfter
    exact .extend (debug (registeredOnce_earlier onceAfter)) (paired_debug step.1 paired)

/-- A debug build pairs the client. -/
theorem debug_runs_fresh_sync : Run Router.new DebugStep syncHistory syncOnce :=
  (debug_runs_fresh (by unfold RegisteredOnce; decide)).mpr sync_run

end ErgoProxy.Routing
