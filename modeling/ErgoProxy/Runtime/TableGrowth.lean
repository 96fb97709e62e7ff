import ErgoProxy.Routing.Relay
import ErgoProxy.Runtime.Service

/-!
# Nothing limits the announcement table

An announcement costs its sender a few bytes and the proxy an entry, which stays until its
announcer is disconnected or another peer announces the same modifier. Responses do not remove
it. Frames and queues are bounded, but not the number of frames: a single inbound peer can make
the table hold any identifiers that it likes, and nothing is sent to it or waits for it meanwhile.
-/

namespace ErgoProxy.Runtime

open FiniteMaps Routing Runs

variable {config : Config} {blake2b256 : Bytes → Vector UInt8 32} {sys : System} {peer : PeerId}
  {router : Router} {frames : List Frame} {queue : WriteQueue} {modifierType : UInt8}

/-- What a peer announces that is alone goes to nobody. -/
theorem fanOut_alone (alone : ∀ other ∈ router.peers, other = peer) (visit : Traversal router.peers)
    (direction : Direction) (message : ProtocolMessage) :
    Router.fanOut visit.order peer direction message = [] := by
  apply List.eq_nil_iff_forall_not_mem.mpr
  intro action member
  obtain ⟨target, _, known, different, _⟩ := (Router.mem_fanOut visit direction message action).mp member
  exact different (alone target (Finmap.mem_of_lookup_eq_some known))

/-- A served peer that is alone announces a modifier: the router takes note of it and sends
nothing. -/
theorem served_announces {id : ModifierId}
    (served : Served blake2b256 sys peer router
      ((ProtocolMessage.inv modifierType [id]).toFrame :: frames) queue [] .idle)
    (alone : ∀ other ∈ router.peers, other = peer) :
    ∃ labels after, Run sys (Step config blake2b256) labels after ∧
      Served blake2b256 after peer { router with invTable := router.invTable.record id peer } frames
        queue [] .idle := by
  obtain ⟨entry, found⟩ := Finmap.mem_iff.mp served.registered
  obtain ⟨visit⟩ := traversal_exists router.peers
  have small := announcement_small modifierType id
  have handles : router.handleEvent visit (fun _ => 0) (.message peer (.inv modifierType [id])) =
      ([], { router with invTable := router.invTable.record id peer }) := by
    simp [Router.handleEvent, Router.routeMessage, found, fanOut_alone alone]
  obtain ⟨_, read, served⟩ := served_reads served small
    (ProtocolMessage.fromFrame_toFrame trivial small) (by decide)
  obtain ⟨_, received, served⟩ := served_receives served
  obtain ⟨_, handled, served⟩ := served_handles served visit _ handles served.registered
  obtain ⟨_, locked, served⟩ := served_locks served
  obtain ⟨after, released, served⟩ := served_releases served
  exact ⟨_, after, .extend (.extend (.extend (.extend (.extend .start read) received) handled) locked)
    released, served⟩

/-- A served peer that is alone announces any modifiers, one after the other. -/
theorem served_announces_all (ids : List ModifierId)
    (served : Served blake2b256 sys peer router
      (ids.map fun id => (ProtocolMessage.inv modifierType [id]).toFrame) queue [] .idle)
    (alone : ∀ other ∈ router.peers, other = peer) :
    ∃ labels after, Run sys (Step config blake2b256) labels after ∧
      Served blake2b256 after peer
        { router with invTable := ids.foldl (fun table id => table.record id peer) router.invTable } []
        queue [] .idle := by
  induction ids generalizing sys router with
  | nil => exact ⟨[], sys, .start, served⟩
  | cons id ids inductionHypothesis =>
    obtain ⟨_, _, first, served⟩ := served_announces served alone
    obtain ⟨_, after, rest, served⟩ := inductionHypothesis served alone
    exact ⟨_, after, continued first rest, served⟩

/-- Nothing limits the announcement table: a proxy with a listener that admits a peer has a run
in which a single peer is registered, nothing is waiting for it, and the table holds exactly the
given identifiers, however many they are. -/
theorem inventory_unlimited (blake2b256 : Bytes → Vector UInt8 32) {index : Nat}
    {listener : Listener} (configured : config.listeners[index]? = some listener)
    (space : 0 < listener.maxInbound) (ids : List ModifierId) :
    ∃ history sys peer, SystemRun config blake2b256 history sys ∧
      (∀ other, other ∈ sys.router.peers ↔ other = peer) ∧
      sys.queues.lookup peer = some ⟨[], .waiting⟩ ∧ sys.channel = [] ∧
      ∀ id, (id ∈ ids → sys.router.invTable.lookup id = some peer) ∧
        (id ∉ ids → sys.router.invTable.lookup id = none) := by
  obtain ⟨_, run, served⟩ := first_served blake2b256 configured space
    (ids.map fun id => (ProtocolMessage.inv 2 [id]).toFrame)
  have alone : ∀ other, other ∈ (Router.new.registerPeer ⟨1⟩ .inbound listener.mode).peers ↔
      other = ⟨1⟩ := by
    intro other
    refine Finmap.mem_insert.trans (or_iff_left ?_)
    exact Finmap.notMem_empty
  obtain ⟨_, sys, more, served⟩ := served_announces_all ids served fun other => (alone other).mp
  refine ⟨_, sys, ⟨1⟩, continued run more, ?_, served.queued, served.pending, ?_⟩
  · rw [served.routing]
    exact alone
  · intro id
    rw [served.routing, Router.lookup_recordAll]
    exact ⟨fun member => if_pos member, fun outside => if_neg outside⟩

/-- The first peer of a proxy makes it keep two identifiers. -/
theorem inventory_unlimited_two :
    ∃ history sys peer, SystemRun soloConfig (fun _ => Frame.emptyDigest) history sys ∧
      sys.router.invTable.lookup (Vector.replicate 32 1) = some peer ∧
      sys.router.invTable.lookup (Vector.replicate 32 2) = some peer := by
  obtain ⟨history, sys, peer, run, _, _, _, holds⟩ := inventory_unlimited
    (fun _ => Frame.emptyDigest) solo_listener Nat.one_pos
    [Vector.replicate 32 1, Vector.replicate 32 2]
  exact ⟨history, sys, peer, run, (holds _).1 (by simp), (holds _).1 (by simp)⟩

end ErgoProxy.Runtime
