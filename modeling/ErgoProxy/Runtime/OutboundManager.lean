import ErgoProxy.Runtime.InboundCap
import ErgoProxy.Runtime.Membership

/-!
# The outbound manager

The manager compares the number of registered outbound peers with its minimum and, as long as
there are too few, goes through the list of seeds, with the same comparison before each of
them. A connection that is opened gets a number and a task of its own, as an accepted one does;
the manager does not wait for its handshake. Between two rounds it sleeps, twice as long each
time, up to five minutes, and five seconds again once a connection could be opened.

The manager runs beside the rest of the program, whose state it reads and in which it spawns
tasks. Every run of both is a run of the program in which the manager's connections are the
dialed ones, so all that holds of the program's runs holds with this manager.
-/

namespace ErgoProxy.Runtime

open FiniteMaps Handshake Routing Runs

/-- The part of the configuration that the manager reads. -/
structure OutboundConfig where
  minPeers : Nat
  seedPeers : List SocketAddr

/-- Where the manager stands: before the comparison that begins a round, in the loop over the
seeds, in an attempt to connect, or asleep. -/
inductive ManagerPoint where
  | counting
  | visiting (rest : List SocketAddr)
  | connecting (addr : SocketAddr) (rest : List SocketAddr)
  | sleeping

/-- The manager's variables: its next sleep in seconds, and its point. -/
structure Manager where
  backoff : Nat
  point : ManagerPoint

/-- The first sleep, and the first after a connection was opened. -/
def initialBackoff : Nat := 5

/-- The longest sleep. -/
def maxBackoff : Nat := 300

/-- The manager before its first round. -/
def Manager.new : Manager := ⟨initialBackoff, .counting⟩

/-- The program with its manager. -/
structure Managed where
  sys : System
  manager : Manager

/-- What a step of the program with its manager was: a step of the other tasks, a comparison
with the number that was found, an attempt and its outcome, the end of the list, or a sleep and
its length. -/
inductive ManagedLabel where
  | program (label : Label)
  | count (current : Nat)
  | check (addr : SocketAddr) (current : Nat)
  | connected (addr : SocketAddr) (peerId : PeerId)
  | failed (addr : SocketAddr)
  | exhausted
  | wake (slept : Nat)

/-- One step of the program with its manager. A connection that is refused and one that takes
longer than ten seconds have the same effect. -/
inductive ManagedStep (config : Config) (outbound : OutboundConfig)
    (blake2b256 : Bytes → Vector UInt8 32) : Managed → ManagedLabel → Managed → Prop where
  | program (sys after : System) (manager : Manager) (label : Label)
      (taken : Step config blake2b256 sys label after)
      (undialed : ∀ peerId, label ≠ .dial peerId) :
      ManagedStep config outbound blake2b256 ⟨sys, manager⟩ (.program label) ⟨after, manager⟩
  | count (sys : System) (backoff : Nat) (visit : Traversal sys.router.peers) :
      ManagedStep config outbound blake2b256 ⟨sys, backoff, .counting⟩
        (.count (sys.router.outboundPeers visit).length)
        ⟨sys, backoff, if (sys.router.outboundPeers visit).length < outbound.minPeers then
          .visiting outbound.seedPeers else .sleeping⟩
  | check (sys : System) (backoff : Nat) (addr : SocketAddr) (rest : List SocketAddr)
      (visit : Traversal sys.router.peers) :
      ManagedStep config outbound blake2b256 ⟨sys, backoff, .visiting (addr :: rest)⟩
        (.check addr (sys.router.outboundPeers visit).length)
        ⟨sys, backoff, if outbound.minPeers ≤ (sys.router.outboundPeers visit).length then .sleeping
          else .connecting addr rest⟩
  | connected (sys : System) (backoff : Nat) (addr : SocketAddr) (rest : List SocketAddr)
      (fresh : sys.conns.lookup ⟨sys.counter⟩ = none) :
      ManagedStep config outbound blake2b256 ⟨sys, backoff, .connecting addr rest⟩
        (.connected addr ⟨sys.counter⟩) ⟨sys.spawnTask .manager, initialBackoff, .visiting rest⟩
  | failed (sys : System) (backoff : Nat) (addr : SocketAddr) (rest : List SocketAddr) :
      ManagedStep config outbound blake2b256 ⟨sys, backoff, .connecting addr rest⟩ (.failed addr)
        ⟨sys, backoff, .visiting rest⟩
  | exhausted (sys : System) (backoff : Nat) :
      ManagedStep config outbound blake2b256 ⟨sys, backoff, .visiting []⟩ .exhausted
        ⟨sys, backoff, .sleeping⟩
  | wake (sys : System) (backoff : Nat) :
      ManagedStep config outbound blake2b256 ⟨sys, backoff, .sleeping⟩ (.wake backoff)
        ⟨sys, min (backoff * 2) maxBackoff, .counting⟩

/-- A run of the program with its manager. -/
abbrev ManagedRun (config : Config) (outbound : OutboundConfig)
    (blake2b256 : Bytes → Vector UInt8 32) : List ManagedLabel → Managed → Prop :=
  Run ⟨System.new, Manager.new⟩ (ManagedStep config outbound blake2b256)

/-- What the program without its manager sees of a step. -/
def ManagedLabel.seen : ManagedLabel → Option Label
  | .program label => some label
  | .connected _ peerId => some (.dial peerId)
  | _ => none

variable {config : Config} {outbound : OutboundConfig} {blake2b256 : Bytes → Vector UInt8 32}
  {managed after : Managed} {label : ManagedLabel} {history : List ManagedLabel} {peer : PeerId}

/-- A step of the program with its manager is a step of the program or leaves it alone. -/
theorem managed_shown (taken : ManagedStep config outbound blake2b256 managed label after) :
    Shown (Step config blake2b256) managed.sys label.seen after.sys := by
  cases taken with
  | program sys after manager label taken => exact taken
  | connected sys backoff addr rest fresh => exact .dial sys fresh
  | count | check | failed | exhausted | wake => rfl

/-- Every run of the program with its manager is a run of the program. -/
theorem managed_system (run : ManagedRun config outbound blake2b256 history managed) :
    SystemRun config blake2b256 (history.filterMap ManagedLabel.seen) managed.sys :=
  projected Managed.sys ManagedLabel.seen (fun _ _ _ => managed_shown) run

/-- The addresses that were tried in the current round, in order. -/
def attempts : List ManagedLabel → List SocketAddr
  | [] | .count _ :: _ => []
  | .connected addr _ :: earlier | .failed addr :: earlier => attempts earlier ++ [addr]
  | _ :: earlier => attempts earlier

/-- How often the manager has slept since it last opened a connection, or since it began. -/
def sleeps : List ManagedLabel → Nat
  | [] | .connected _ _ :: _ => 0
  | .wake _ :: earlier => sleeps earlier + 1
  | _ :: earlier => sleeps earlier

/-- The number that was found by the last comparison. -/
def lastSeen : List ManagedLabel → Option Nat
  | [] => none
  | .count current :: _ | .check _ current :: _ => some current
  | _ :: earlier => lastSeen earlier

/-- What the manager has done in the current round when it stands at a point. An attempt is
made when the last comparison has found too few peers, and a round ends at the end of the
list or when a comparison has found enough. -/
def ManagerPoint.Follows (outbound : OutboundConfig) (history : List ManagedLabel) :
    ManagerPoint → Prop
  | .counting => attempts history <+: outbound.seedPeers
  | .visiting rest => attempts history ++ rest = outbound.seedPeers
  | .connecting addr rest => attempts history ++ addr :: rest = outbound.seedPeers ∧
      ∃ current, lastSeen history = some current ∧ current < outbound.minPeers
  | .sleeping => attempts history <+: outbound.seedPeers ∧
      (attempts history = outbound.seedPeers ∨
        ∃ current, lastSeen history = some current ∧ outbound.minPeers ≤ current)

/-- The sleep after a number of sleeps in a row. -/
def backoffAfter (count : Nat) : Nat := min (initialBackoff * 2 ^ count) maxBackoff

/-- Doubling up to the longest sleep. -/
theorem backoffAfter_succ (count : Nat) :
    backoffAfter (count + 1) = min (backoffAfter count * 2) maxBackoff := by
  unfold backoffAfter
  rw [Nat.pow_succ, ← Nat.mul_assoc]
  omega

/-- The manager's variables are what its history says. -/
structure Paced (outbound : OutboundConfig) (history : List ManagedLabel) (manager : Manager) :
    Prop where
  backoff : manager.backoff = backoffAfter (sleeps history)
  follows : manager.point.Follows outbound history

/-- One step keeps the manager's variables in line with its history. -/
theorem step_paced (taken : ManagedStep config outbound blake2b256 managed label after)
    (paced : Paced outbound history managed.manager) :
    Paced outbound (label :: history) after.manager := by
  obtain ⟨backoff, follows⟩ := paced
  cases taken with
  | program sys after manager label taken =>
    refine ⟨backoff, ?_⟩
    change manager.point.Follows outbound history at follows
    cases point : manager.point with
    | counting | visiting | connecting | sleeping =>
      rw [point] at follows
      exact follows
  | count sys _ visit =>
    refine ⟨backoff, ?_⟩
    dsimp only
    split
    case isTrue => exact List.nil_append _
    case isFalse enough =>
      exact ⟨List.nil_prefix, Or.inr ⟨_, rfl, Nat.le_of_not_lt enough⟩⟩
  | check sys _ addr rest visit =>
    refine ⟨backoff, ?_⟩
    dsimp only
    split
    case isTrue enough => exact ⟨⟨_, follows⟩, Or.inr ⟨_, rfl, enough⟩⟩
    case isFalse few => exact ⟨follows, _, rfl, Nat.lt_of_not_le few⟩
  | connected sys _ addr rest fresh =>
    refine ⟨rfl, ?_⟩
    change attempts history ++ [addr] ++ rest = _
    rw [List.append_assoc]
    exact follows.1
  | failed sys _ addr rest =>
    refine ⟨backoff, ?_⟩
    change attempts history ++ [addr] ++ rest = _
    rw [List.append_assoc]
    exact follows.1
  | exhausted sys _ =>
    have whole : attempts history = outbound.seedPeers := (List.append_nil _).symm.trans follows
    exact ⟨backoff, ⟨[], by rw [List.append_nil]; exact whole⟩, Or.inl whole⟩
  | wake sys slept =>
    refine ⟨?_, follows.1⟩
    change min (slept * 2) maxBackoff = backoffAfter (sleeps history + 1)
    rw [backoffAfter_succ, ← show slept = backoffAfter (sleeps history) from backoff]

/-- In every run the manager's variables are what its history says. -/
theorem run_paced (run : ManagedRun config outbound blake2b256 history managed) :
    Paced outbound history managed.manager := by
  refine invariant (fun earlier reached => Paced outbound earlier reached.manager) ?_ ?_ run
  · exact ⟨rfl, List.nil_prefix⟩
  intro earlier before label after _ paced taken
  exact step_paced taken paced

/-- At every point the addresses that were tried in the round are the first ones. -/
theorem follows_initial {point : ManagerPoint} (follows : point.Follows outbound history) :
    attempts history <+: outbound.seedPeers := by
  cases point with
  | counting => exact follows
  | visiting rest => exact ⟨rest, follows⟩
  | connecting addr rest => exact ⟨_, follows.1⟩
  | sleeping => exact follows.1

/-- The manager in every run. The addresses that it has tried in a round are the first seeds,
each once and in the order of the configuration. It tries one only if the last comparison has
found fewer peers than the minimum, and a round in which it does not try all of them ends with
a comparison that has found enough. It sleeps five seconds, twice as long with every further
sleep, and never longer than five minutes, until it has opened a connection. -/
theorem manager_paced (run : ManagedRun config outbound blake2b256 history managed)
    (taken : ManagedStep config outbound blake2b256 managed label after) :
    attempts (label :: history) <+: outbound.seedPeers ∧
      (∀ addr, (∃ peerId, label = .connected addr peerId) ∨ label = .failed addr →
        ∃ current, lastSeen history = some current ∧ current < outbound.minPeers) ∧
      ∀ slept, label = .wake slept →
        slept = min (5 * 2 ^ sleeps history) 300 ∧
        (attempts history = outbound.seedPeers ∨
          ∃ current, lastSeen history = some current ∧ outbound.minPeers ≤ current) := by
  obtain ⟨backoff, follows⟩ := run_paced run
  refine ⟨follows_initial (run_paced (.extend run taken)).follows, ?_, ?_⟩
  · rintro addr (⟨peerId, rfl⟩ | rfl)
    · cases taken
      exact follows.2
    · cases taken
      exact follows.2
  · rintro slept rfl
    cases taken
    exact ⟨backoff, follows.2⟩

/-- The address of the only seed. -/
def soleSeed : SocketAddr := .v4 (.replicate 4 1) 9030

/-- One peer is wanted, and one seed is known. -/
def seedConfig : OutboundConfig := ⟨1, [soleSeed]⟩

/-- A round in which the seed cannot be reached. -/
theorem round_fails (backoff : Nat) :
    Run ⟨System.new, backoff, .counting⟩ (ManagedStep config seedConfig blake2b256)
      [.exhausted, .failed soleSeed, .check soleSeed 0, .count 0]
      ⟨System.new, backoff, .sleeping⟩ := by
  have count : ManagedStep config seedConfig blake2b256 _ _ _ := .count .new backoff ⟨[], rfl⟩
  have check : ManagedStep config seedConfig blake2b256 _ _ _ :=
    .check .new backoff soleSeed [] ⟨[], rfl⟩
  exact .extend (.extend (.extend (.extend .start count) check) (.failed _ _ _ _)) (.exhausted _ _)

/-- The seed cannot be reached twice, and the second sleep is twice as long. -/
theorem manager_paced_twice :
    ∃ history managed after, ManagedRun soloConfig seedConfig (fun _ => Frame.emptyDigest) history
        managed ∧
      ManagedStep soloConfig seedConfig (fun _ => Frame.emptyDigest) managed (.wake 10) after ∧
      10 = min (5 * 2 ^ sleeps history) 300 ∧ attempts history = [soleSeed] := by
  have run : ManagedRun soloConfig seedConfig (fun _ => Frame.emptyDigest) _ _ :=
    continued (.extend (round_fails 5) (.wake _ _)) (round_fails 10)
  have taken : ManagedStep soloConfig seedConfig (fun _ => Frame.emptyDigest) _ (.wake 10) _ :=
    .wake System.new 10
  exact ⟨_, _, _, run, taken, ((manager_paced run taken).2.2 10 rfl).1, rfl⟩

namespace System

/-- The peer is registered as outbound. -/
def registeredOutbound (sys : System) (peer : PeerId) : Bool :=
  match sys.router.peers.lookup peer with
  | some entry => entry.direction == .outbound
  | none => false

/-- The connection was opened by the manager. -/
def dialed (sys : System) (peer : PeerId) : Bool :=
  match sys.conns.lookup peer with
  | some ⟨.manager, _⟩ => true
  | _ => false

/-- The registered outbound peers. -/
def outboundOf (sys : System) : Finset PeerId :=
  sys.router.peers.keys.filter fun peer => sys.registeredOutbound peer

/-- The connections of the manager that have still to be registered. -/
def unsettled (sys : System) : Finset PeerId :=
  sys.conns.keys.filter fun peer => sys.dialed peer ∧ sys.unregistered peer

variable {sys : System}

theorem registeredOutbound_iff : sys.registeredOutbound peer = true ↔
    ∃ entry, sys.router.peers.lookup peer = some entry ∧ entry.direction = .outbound := by
  unfold registeredOutbound
  split
  · rename_i entry found
    simp [found]
  · rename_i missing
    simp [missing]

theorem dialed_iff : sys.dialed peer = true ↔
    ∃ stage, sys.conns.lookup peer = some ⟨.manager, stage⟩ := by
  unfold dialed
  split
  · rename_i stage found
    simp [found]
  · rename_i other
    refine iff_of_false Bool.false_ne_true ?_
    rintro ⟨stage, found⟩
    exact other stage found

theorem mem_outboundOf : peer ∈ sys.outboundOf ↔ sys.registeredOutbound peer = true := by
  refine Finset.mem_filter.trans (and_iff_right_of_imp fun registered => ?_)
  obtain ⟨_, found, _⟩ := registeredOutbound_iff.mp registered
  exact Finmap.mem_keys.mpr (Finmap.mem_of_lookup_eq_some found)

theorem mem_unsettled : peer ∈ sys.unsettled ↔
    sys.dialed peer = true ∧ sys.unregistered peer = true := by
  refine Finset.mem_filter.trans (and_iff_right_of_imp fun holds => ?_)
  obtain ⟨_, found⟩ := dialed_iff.mp holds.1
  exact Finmap.mem_keys.mpr (Finmap.mem_of_lookup_eq_some found)

/-- No outbound peer is listed twice. -/
theorem outboundPeers_nodup (visit : Traversal sys.router.peers) :
    (sys.router.outboundPeers visit).Nodup :=
  (traversal_nodup visit).sublist (List.filter_sublist.map _)

/-- The registered outbound peers are listed. -/
theorem mem_outboundPeers (visit : Traversal sys.router.peers) :
    peer ∈ sys.router.outboundPeers visit ↔ sys.registeredOutbound peer = true := by
  rw [registeredOutbound_iff]
  simp [Router.outboundPeers, Router.peersOf, traversal_lookup]

/-- The number that a comparison finds is that of the registered outbound peers. -/
theorem outboundPeers_length (visit : Traversal sys.router.peers) :
    (sys.router.outboundPeers visit).length = sys.outboundOf.card := by
  have same : (sys.router.outboundPeers visit).toFinset = sys.outboundOf := by
    ext peer
    rw [mem_outboundOf, List.mem_toFinset, mem_outboundPeers]
  rw [← same, List.toFinset_card_of_nodup (outboundPeers_nodup visit)]

end System

section Places

variable {sys next : System} {label : Label} {labels : List Label}

/-- A connection of the manager begins when it is dialed. -/
theorem spawned_dialed (taken : Step config blake2b256 sys label next) {stage : Stage}
    (fresh : sys.conns.lookup peer = none)
    (now : next.conns.lookup peer = some ⟨.manager, stage⟩) : label = .dial peer := by
  by_cases other : label.connection = some peer
  · cases taken with
    | dial => exact congrArg Label.dial (Option.some.inj other)
    | accept =>
      cases other
      cases ((System.conns_moveTask sys _ _ _ _).trans (if_pos rfl)).symm.trans now
    | handshake _ _ here =>
      cases other
      cases fresh.symm.trans here
    | task _ _ _ _ _ _ here =>
      cases other
      cases fresh.symm.trans here
    | writer | tick | receive | handle | lock | execute | deliver | release => cases other
  · cases ((step_untouched taken other).trans fresh).symm.trans now

/-- A registration that was kept or revoked was there before. -/
theorem registeredOutbound_before
    (kept : next.router.peers.lookup peer = sys.router.peers.lookup peer ∨
      next.router.peers.lookup peer = none)
    (registered : peer ∈ next.outboundOf) : peer ∈ sys.outboundOf := by
  rw [System.mem_outboundOf, System.registeredOutbound] at registered ⊢
  rcases kept with same | revoked
  · rwa [same] at registered
  · rw [revoked] at registered
    cases registered

/-- Only a dialed connection is counted anew among those that are registered or may be. -/
theorem step_outbound (run : SystemRun config blake2b256 labels sys)
    (taken : Step config blake2b256 sys label next)
    (member : peer ∈ next.outboundOf ∪ next.unsettled) :
    peer ∈ sys.outboundOf ∪ sys.unsettled ∨ label = .dial peer := by
  have identified := System.run_identified run
  rw [Finset.mem_union] at member ⊢
  cases System.step_staged identified taken peer with
  | kept other same =>
    have kept := (registry_other [] identified taken other).imp And.right And.right
    refine Or.inl (member.imp (registeredOutbound_before kept) ?_)
    rw [System.mem_unsettled, System.mem_unsettled, System.dialed, System.dialed,
      System.unregistered, System.unregistered, same]
    exact id
  | spawned origin other fresh now =>
    have kept := (registry_other [] identified taken other).imp And.right And.right
    rcases member with registered | waiting
    · exact Or.inl (Or.inl (registeredOutbound_before kept registered))
    · obtain ⟨stage, found⟩ := System.dialed_iff.mp (System.mem_unsettled.mp waiting).1
      exact Or.inr (spawned_dialed taken fresh found)
  | handshaken origin stage other here now =>
    have kept := (registry_other [] identified taken other).imp And.right And.right
    rcases member with registered | waiting
    · exact Or.inl (Or.inl (registeredOutbound_before kept registered))
    · obtain ⟨_, found⟩ := System.dialed_iff.mp (System.mem_unsettled.mp waiting).1
      cases now.symm.trans found
      exact Or.inl (Or.inr (System.mem_unsettled.mpr
        ⟨System.dialed_iff.mpr ⟨_, here⟩, by rw [System.unregistered, here]⟩))
  | acted origin task later effects performed here acted own now =>
    subst now
    have moved : (performed.moveTask peer origin (.running later)).conns.lookup peer =
        some ⟨origin, .running later⟩ := (System.conns_moveTask _ _ _ _ _).trans (if_pos rfl)
    rcases acted_registry acted with ⟨early, _, _, routed⟩ | ⟨_, beyond, _, routed⟩
    · -- The task registers its peer, as outbound only if the manager has opened the connection.
      cases origin with
      | manager =>
        refine Or.inl (Or.inr (System.mem_unsettled.mpr ⟨System.dialed_iff.mpr ⟨_, here⟩, ?_⟩))
        rw [System.unregistered, here]
        exact beq_iff_eq.mpr early
      | listener index =>
        exfalso
        rcases member with registered | waiting
        · obtain ⟨_, _, inbound, _⟩ := (run_admitted run here).given
          obtain ⟨entry, found, outward⟩ :=
            System.registeredOutbound_iff.mp (System.mem_outboundOf.mp registered)
          change performed.router.peers.lookup peer = some entry at found
          rw [routed, Router.registerPeer, identified _ _ _ here, lookup_insert_eq, if_pos rfl]
            at found
          cases found
          cases inbound.symm.trans outward
        · obtain ⟨_, found⟩ := System.dialed_iff.mp (System.mem_unsettled.mp waiting).1
          cases moved.symm.trans found
    · rcases member with registered | waiting
      · refine Or.inl (Or.inl (registeredOutbound_before (Or.inl ?_) registered))
        exact congrArg (fun router : Router => router.peers.lookup peer) routed
      · have unregistered := (System.mem_unsettled.mp waiting).2
        rw [System.unregistered, moved] at unregistered
        exact (beyond (beq_iff_eq.mp unregistered)).elim

/-- A dialed connection adds one, and no other step adds any. -/
theorem step_outbound_card (run : SystemRun config blake2b256 labels sys)
    (taken : Step config blake2b256 sys label next) {limit : Nat}
    (before : (sys.outboundOf ∪ sys.unsettled).card ≤ limit)
    (space : ∀ peer, label = .dial peer → (sys.outboundOf ∪ sys.unsettled).card < limit) :
    (next.outboundOf ∪ next.unsettled).card ≤ limit := by
  by_cases dialing : ∃ peer, label = .dial peer
  · obtain ⟨peer, rfl⟩ := dialing
    have adding : next.outboundOf ∪ next.unsettled ⊆
        insert peer (sys.outboundOf ∪ sys.unsettled) := by
      intro other member
      rcases step_outbound run taken member with earlier | same
      · exact Finset.mem_insert_of_mem earlier
      · cases same
        exact Finset.mem_insert_self _ _
    calc (next.outboundOf ∪ next.unsettled).card
        ≤ (insert peer (sys.outboundOf ∪ sys.unsettled)).card := Finset.card_le_card adding
      _ ≤ (sys.outboundOf ∪ sys.unsettled).card + 1 := Finset.card_insert_le _ _
      _ ≤ limit := space peer rfl
  · refine (Finset.card_le_card fun other member => ?_).trans before
    exact (step_outbound run taken member).resolve_right fun same => dialing ⟨other, same⟩

end Places

/-- When the manager compares before an attempt, at most so many of its connections have still
to be registered. -/
def Prompt (spare : Nat) (managed : Managed) (label : ManagedLabel) : Prop :=
  ∀ addr current, label = .check addr current → managed.sys.unsettled.card ≤ spare

/-- The steps that meet this condition. -/
def PromptStep (config : Config) (outbound : OutboundConfig) (blake2b256 : Bytes → Vector UInt8 32)
    (spare : Nat) (managed : Managed) (label : ManagedLabel) (after : Managed) : Prop :=
  ManagedStep config outbound blake2b256 managed label after ∧ Prompt spare managed label

/-- Counting the connections that may still be registered, there are at most so many more than
the minimum, and one less as long as an attempt is going on. -/
structure Within (limit : Nat) (managed : Managed) : Prop where
  bounded : (managed.sys.outboundOf ∪ managed.sys.unsettled).card ≤ limit
  attempting : ∀ addr rest, managed.manager.point = .connecting addr rest →
    (managed.sys.outboundOf ∪ managed.sys.unsettled).card < limit

/-- One step keeps within the limit. -/
theorem step_within {spare : Nat} (run : ManagedRun config outbound blake2b256 history managed)
    (taken : PromptStep config outbound blake2b256 spare managed label after)
    (within : Within (outbound.minPeers + spare) managed) :
    Within (outbound.minPeers + spare) after := by
  obtain ⟨taken, prompt⟩ := taken
  have reached := managed_system run
  obtain ⟨bounded, attempting⟩ := within
  cases taken with
  | program sys after manager label taken undialed =>
    refine ⟨step_outbound_card reached taken bounded
      fun peer dialing => (undialed peer dialing).elim, ?_⟩
    intro addr rest connecting
    have less := attempting addr rest connecting
    refine Nat.lt_of_le_of_lt ?_ less
    exact step_outbound_card reached taken (Nat.le_refl _)
      fun peer dialing => (undialed peer dialing).elim
  | count sys backoff visit =>
    refine ⟨bounded, fun addr rest connecting => ?_⟩
    dsimp only at connecting
    split at connecting <;> cases connecting
  | check sys backoff addr rest visit =>
    refine ⟨bounded, fun other others connecting => ?_⟩
    dsimp only at connecting
    split at connecting
    case isTrue => cases connecting
    case isFalse few =>
      rw [System.outboundPeers_length] at few
      have waiting : sys.unsettled.card ≤ spare := prompt addr _ rfl
      calc (sys.outboundOf ∪ sys.unsettled).card
          ≤ sys.outboundOf.card + sys.unsettled.card := Finset.card_union_le _ _
        _ < outbound.minPeers + spare := by omega
  | connected sys backoff addr rest fresh =>
    refine ⟨?_, fun _ _ => ManagerPoint.noConfusion⟩
    exact step_outbound_card reached (.dial sys fresh) bounded
      fun _ _ => attempting addr rest rfl
  | failed | exhausted | wake => exact ⟨bounded, fun _ _ => ManagerPoint.noConfusion⟩

/-- In every run in which, whenever the manager compares before an attempt, at most `spare` of
its connections have still to be registered, there are never more than `minPeers + spare`
outbound peers, those included whose connections have still to be registered. -/
theorem outbound_bounded {spare : Nat} (run : Run ⟨System.new, Manager.new⟩
      (PromptStep config outbound blake2b256 spare) history managed) :
    (managed.sys.outboundOf ∪ managed.sys.unsettled).card ≤ outbound.minPeers + spare := by
  have within : Within (outbound.minPeers + spare) managed := by
    refine invariant (fun _ reached => Within (outbound.minPeers + spare) reached) ?_ ?_ run
    · exact ⟨Nat.zero_le _, fun _ _ => ManagerPoint.noConfusion⟩
    · intro earlier before label after earlierRun within taken
      exact step_within (weaken (fun _ _ _ taken => taken.1) earlierRun) taken within
  exact within.bounded

/-- The first connection of the manager is opened while none has still to be registered. -/
theorem outbound_bounded_first :
    ∃ history managed, Run ⟨System.new, Manager.new⟩
        (PromptStep soloConfig seedConfig (fun _ => Frame.emptyDigest) 0) history managed ∧
      ⟨1⟩ ∈ managed.sys.unsettled ∧
      (managed.sys.outboundOf ∪ managed.sys.unsettled).card ≤ 1 := by
  have count : ManagedStep soloConfig seedConfig (fun _ => Frame.emptyDigest) _ _ _ :=
    .count .new initialBackoff ⟨[], rfl⟩
  have check : ManagedStep soloConfig seedConfig (fun _ => Frame.emptyDigest) _ _ _ :=
    .check .new initialBackoff soleSeed [] ⟨[], rfl⟩
  have run : Run ⟨System.new, Manager.new⟩
      (PromptStep soloConfig seedConfig (fun _ => Frame.emptyDigest) 0) _ _ :=
    .extend (.extend (.extend .start ⟨count, by rintro _ _ ⟨⟩⟩) ⟨check, fun _ _ _ => Nat.le_refl 0⟩)
      ⟨.connected System.new initialBackoff soleSeed [] rfl, by rintro _ _ ⟨⟩⟩
  exact ⟨_, _, run, by decide, outbound_bounded run⟩

section Overshoot

variable {sys : System} {backoff : Nat}

/-- A run of the other tasks is a run beside the manager. -/
theorem program_run {labels : List Label} {next : System} {manager : Manager}
    (run : Run sys (Step config blake2b256) labels next)
    (undialed : ∀ label ∈ labels, ∀ peerId, label ≠ .dial peerId) :
    Run ⟨sys, manager⟩ (ManagedStep config outbound blake2b256) (labels.map .program)
      ⟨next, manager⟩ := by
  induction run with
  | start => exact .start
  | extend earlier taken inductionHypothesis =>
    refine .extend (inductionHypothesis fun label member => ?_) (.program _ _ manager _ taken ?_)
    · exact undialed label (List.mem_cons_of_mem _ member)
    · exact undialed _ List.mem_cons_self

section Rounds

variable (few : sys.outboundOf.card < outbound.minPeers)
include few

/-- With too few registered peers the manager begins to visit the seeds. -/
theorem round_begins : ∃ current, ManagedStep config outbound blake2b256
    ⟨sys, backoff, .counting⟩ (.count current) ⟨sys, backoff, .visiting outbound.seedPeers⟩ := by
  obtain ⟨visit⟩ := traversal_exists sys.router.peers
  have taken : ManagedStep config outbound blake2b256 _ _ _ := .count sys backoff visit
  rw [if_pos (by rw [System.outboundPeers_length]; exact few)] at taken
  exact ⟨_, taken⟩

/-- With too few registered peers the manager tries the next seed. -/
theorem attempt_begins (addr : SocketAddr) (rest : List SocketAddr) :
    ∃ current, ManagedStep config outbound blake2b256 ⟨sys, backoff, .visiting (addr :: rest)⟩
      (.check addr current) ⟨sys, backoff, .connecting addr rest⟩ := by
  obtain ⟨visit⟩ := traversal_exists sys.router.peers
  have taken : ManagedStep config outbound blake2b256 _ _ _ := .check sys backoff addr rest visit
  rw [if_neg (by rw [System.outboundPeers_length]; exact Nat.not_le_of_lt few)] at taken
  exact ⟨_, taken⟩

end Rounds

/-- Peers are told apart by their numbers. -/
theorem peer_injective {first second : PeerId}
    (same : first.value.toNat = second.value.toNat) : first = second :=
  congrArg PeerId.mk (UInt64.toNat_inj.mp same)

/-- The manager has opened so many connections, and none of them has shaken hands. -/
structure Dialed (sys : System) (count : Nat) : Prop where
  router : sys.router = .new
  counter : sys.counter.toNat = count + 1
  conns : ∀ peer, sys.conns.lookup peer =
    if 0 < peer.value.toNat ∧ peer.value.toNat ≤ count then some ⟨.manager, .handshaking⟩ else none

/-- One more connection is opened. -/
theorem dialed_next {count : Nat} (dialed : Dialed sys count) (numbers : count + 2 < 2 ^ 64) :
    sys.conns.lookup ⟨sys.counter⟩ = none ∧ Dialed (sys.spawnTask .manager) (count + 1) := by
  refine ⟨by rw [dialed.conns, dialed.counter, if_neg (by omega)], dialed.router, ?_, ?_⟩
  · change (sys.counter + 1).toNat = _
    rw [UInt64.toNat_add, dialed.counter]
    change (count + 1 + 1) % 2 ^ 64 = _
    omega
  · intro peer
    change (sys.moveTask ⟨sys.counter⟩ .manager .handshaking).conns.lookup peer = _
    rw [System.conns_moveTask, dialed.conns]
    by_cases own : peer = ⟨sys.counter⟩
    · subst own
      rw [if_pos rfl, dialed.counter, if_pos (by omega)]
    · have other : peer.value.toNat ≠ count + 1 := fun same =>
        own (peer_injective (same.trans dialed.counter.symm))
      rw [if_neg own]
      congr 1
      rw [eq_iff_iff]
      omega

/-- In one round the manager can open a connection to every seed that is left, without a sleep, if
none of them has shaken hands before the round is over. -/
theorem visits_dial (few : 0 < outbound.minPeers) (rest : List SocketAddr) {count : Nat}
    (dialed : Dialed sys count) (numbers : count + rest.length + 1 < 2 ^ 64) :
    ∃ labels next after, Run ⟨sys, backoff, .visiting rest⟩ (ManagedStep config outbound blake2b256)
        labels ⟨after, next, .visiting []⟩ ∧
      (∀ slept, .wake slept ∉ labels) ∧ Dialed after (count + rest.length) := by
  induction rest generalizing sys backoff count with
  | nil => exact ⟨[], backoff, sys, .start, by simp, dialed⟩
  | cons addr rest inductionHypothesis =>
    rw [List.length_cons] at numbers ⊢
    have nobody : sys.outboundOf.card < outbound.minPeers := by
      rw [System.outboundOf, dialed.router]
      exact few
    obtain ⟨fresh, opened⟩ := dialed_next dialed (by omega)
    obtain ⟨_, check⟩ := attempt_begins nobody addr rest
    obtain ⟨labels, next, after, others, awake, rested⟩ :=
      inductionHypothesis opened (by omega)
    refine ⟨_, next, after, continued (.extend (.extend .start check)
      (.connected sys backoff addr rest fresh)) others, ?_, ?_⟩
    · intro slept member
      rcases List.mem_append.mp member with later | first
      · exact awake slept later
      · simp at first
    · rw [show count + (rest.length + 1) = count + 1 + rest.length by omega]
      exact rested

/-- The peer with a given number. -/
def numbered (number : Nat) : PeerId := ⟨UInt64.ofNat number⟩

/-- Every number of 64 bits is that of a peer. -/
theorem numbered_value {number : Nat} (fits : number < 2 ^ 64) :
    (numbered number).value.toNat = number := by
  rw [numbered, UInt64.toNat_ofNat']
  exact Nat.mod_eq_of_lt fits

/-- Of the dialed connections the first ones are registered and the others have still to shake
hands. -/
structure Arrived (sys : System) (count arrived : Nat) : Prop where
  registered : ∀ peer : PeerId, peer ∈ sys.outboundOf ↔
    0 < peer.value.toNat ∧ peer.value.toNat ≤ arrived
  waiting : ∀ peer : PeerId, arrived < peer.value.toNat → peer.value.toNat ≤ count →
    sys.conns.lookup peer = some ⟨.manager, .handshaking⟩

/-- All dialed connections can be registered, one after the other. -/
theorem dialed_arrive {count : Nat} (dialed : Dialed sys count) (arrived : Nat)
    (within : arrived ≤ count) (numbers : count + 1 < 2 ^ 64) :
    ∃ labels next, Run sys (Step config blake2b256) labels next ∧
      (∀ label ∈ labels, ∀ peerId, label ≠ .dial peerId) ∧ Arrived next count arrived := by
  induction arrived with
  | zero =>
    refine ⟨[], sys, .start, by simp, fun peer => ?_, fun peer above below => ?_⟩
    · rw [System.outboundOf, dialed.router]
      exact iff_of_false (Finset.notMem_empty peer) (by omega)
    · rw [dialed.conns, if_pos ⟨above, below⟩]
  | succ arrived inductionHypothesis =>
    obtain ⟨labels, middle, run, undialed, before⟩ := inductionHypothesis (by omega)
    have number : (numbered (arrived + 1)).value.toNat = arrived + 1 := numbered_value (by omega)
    obtain ⟨next, entering, entered⟩ := handshaking_enters blake2b256
      (before.waiting (numbered (arrived + 1)) (by omega) (by omega))
      (@manager_handshaken config _ [])
    refine ⟨_, next, continued run entering, ?_, ?_, ?_⟩
    · intro label member
      rcases List.mem_append.mp member with later | earlier
      · simp only [List.mem_cons, List.not_mem_nil, or_false] at later
        rcases later with rfl | rfl <;> simp
      · exact undialed label earlier
    · intro other
      have known := before.registered other
      rw [System.mem_outboundOf, System.registeredOutbound_iff] at known
      rw [System.mem_outboundOf, System.registeredOutbound_iff, entered.router, Router.registerPeer,
        lookup_insert_eq]
      by_cases own : other = numbered (arrived + 1)
      · rw [if_pos own]
        exact iff_of_true ⟨_, rfl, rfl⟩ (by rw [own, number]; omega)
      · have apart : other.value.toNat ≠ arrived + 1 := fun same =>
          own (peer_injective (same.trans number.symm))
        rw [if_neg own, known]
        omega
    · intro other above below
      have different : other ≠ numbered (arrived + 1) := by
        rintro rfl
        omega
      rw [entered.others other different]
      exact before.waiting other (by omega) below

/-- The registered peers are counted by their numbers. -/
theorem arrived_card {count : Nat} (arrived : Arrived sys count count)
    (numbers : count + 1 < 2 ^ 64) : sys.outboundOf.card = count := by
  have value {number : Nat} (below : number ∈ Finset.range count) :
      (numbered (number + 1)).value.toNat = number + 1 := by
    have := Finset.mem_range.mp below
    exact numbered_value (by omega)
  have same : sys.outboundOf = (Finset.range count).image fun number => numbered (number + 1) := by
    ext peer
    rw [arrived.registered, Finset.mem_image]
    constructor
    · rintro ⟨positive, inside⟩
      have below : peer.value.toNat - 1 ∈ Finset.range count := Finset.mem_range.mpr (by omega)
      exact ⟨_, below, peer_injective (by rw [value below]; omega)⟩
    · rintro ⟨number, below, rfl⟩
      have := Finset.mem_range.mp below
      rw [value below]
      omega
  rw [same, Finset.card_image_of_injOn, Finset.card_range]
  intro first firstBelow second secondBelow equal
  have numbersEqual := congrArg (fun peer => peer.value.toNat) equal
  simp only [value firstBelow, value secondBelow] at numbersEqual
  omega

/-- One round may leave as many outbound peers as there are seeds, however few are wanted: the
manager compares with the registered peers, and none of those that it has dialed in the round need
have shaken hands. The run takes a single round without a sleep, so a program in which the round is
over before a handshake times out has it too. The maximum that can be configured is never read. -/
theorem outbound_overshoots (config : Config) (blake2b256 : Bytes → Vector UInt8 32)
    (few : 0 < outbound.minPeers) (numbers : outbound.seedPeers.length + 1 < 2 ^ 64) :
    ∃ history managed, ManagedRun config outbound blake2b256 history managed ∧
      (∀ slept, .wake slept ∉ history) ∧
      managed.sys.outboundOf.card = outbound.seedPeers.length := by
  have nobody : Dialed System.new 0 := by
    refine ⟨rfl, rfl, fun peer => ?_⟩
    rw [if_neg (by omega)]
    rfl
  obtain ⟨_, count⟩ := @round_begins config outbound blake2b256 System.new initialBackoff few
  obtain ⟨_, backoff, sys, dialing, awake, dialed⟩ := @visits_dial config outbound blake2b256 _
    initialBackoff few outbound.seedPeers _ nobody (by omega)
  rw [Nat.zero_add] at dialed
  obtain ⟨_, next, arriving, undialed, arrived⟩ :=
    dialed_arrive dialed outbound.seedPeers.length (Nat.le_refl _) numbers
  have begun : ManagedRun config outbound blake2b256 _ _ := .extend .start count
  refine ⟨_, ⟨next, backoff, .visiting []⟩, continued (continued begun dialing)
    (program_run arriving undialed), ?_, arrived_card arrived numbers⟩
  intro slept member
  rcases List.mem_append.mp member with later | earlier
  · obtain ⟨_, _, ⟨⟩⟩ := List.mem_map.mp later
  · rcases List.mem_append.mp earlier with visits | first
    · exact awake slept visits
    · simp at first

/-- One peer is wanted and three seeds are known, and three outbound peers are registered. -/
theorem outbound_overshoots_three :
    ∃ history managed, ManagedRun soloConfig ⟨1, List.replicate 3 soleSeed⟩
        (fun _ => Frame.emptyDigest) history managed ∧
      (∀ slept, .wake slept ∉ history) ∧ managed.sys.outboundOf.card = 3 :=
  outbound_overshoots soloConfig (fun _ => Frame.emptyDigest) Nat.one_pos (by decide)

end Overshoot

end ErgoProxy.Runtime
