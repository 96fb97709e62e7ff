import ErgoProxy.Runtime.EventOrder

/-!
# How many peers a listener admits

A listener compares its maximum with the number of registered inbound peers when it accepts
a connection, and the task of the connection registers the peer after the handshake. In
between the connection counts for nobody. What stays below the maximum is the number of
places taken: the registered peers of the listener and its connections that may still be
registered. If every accepted connection finds a free place, the maximum is respected; if
one does not, all the tasks need to do is to go on.
-/

namespace ErgoProxy.Runtime

open FiniteMaps Routing Runs

namespace System

/-- The connection was accepted by the listener. -/
def acceptedBy (sys : System) (index : Nat) (peer : PeerId) : Bool :=
  match sys.conns.lookup peer with
  | some ⟨.listener accepting, _⟩ => accepting == index
  | _ => false

/-- The peer is registered as inbound. -/
def registeredInbound (sys : System) (peer : PeerId) : Bool :=
  match sys.router.peers.lookup peer with
  | some entry => entry.direction == .inbound
  | none => false

/-- The task of the connection has still to register its peer. -/
def unregistered (sys : System) (peer : PeerId) : Bool :=
  match sys.conns.lookup peer with
  | some ⟨_, .handshaking⟩ => true
  | some ⟨_, .running task⟩ => task.point == .registering
  | _ => false

/-- The registered inbound peers that the listener accepted. -/
def inboundOf (sys : System) (index : Nat) : Finset PeerId :=
  sys.conns.keys.filter fun peer => sys.acceptedBy index peer ∧ sys.registeredInbound peer

/-- The places of the listener that are taken: by registered peers, and by connections that
have still to be registered. -/
def occupied (sys : System) (index : Nat) : Finset PeerId :=
  sys.conns.keys.filter fun peer =>
    sys.acceptedBy index peer ∧ (sys.registeredInbound peer ∨ sys.unregistered peer)

end System

/-- A connection is accepted only if the listener has a place for it. -/
def Spacious (config : Config) (sys : System) (label : Label) : Prop :=
  ∀ index peer listener, label = .accept index peer → config.listeners[index]? = some listener →
    (sys.occupied index).card < listener.maxInbound

/-- The steps that meet this condition. -/
def SpaciousStep (config : Config) (blake2b256 : Bytes → Vector UInt8 32) (sys : System)
    (label : Label) (after : System) : Prop :=
  Step config blake2b256 sys label after ∧ Spacious config sys label

variable {config : Config} {blake2b256 : Bytes → Vector UInt8 32} {sys after : System}
  {label : Label} {history : List Label} {peer : PeerId} {index : Nat}

namespace System

/-- An accepted connection has a task of this origin. -/
theorem acceptedBy_iff : sys.acceptedBy index peer = true ↔
    ∃ stage, sys.conns.lookup peer = some ⟨.listener index, stage⟩ := by
  unfold acceptedBy
  split
  · rename_i accepting stage found
    rw [beq_iff_eq]
    constructor
    · rintro rfl
      exact ⟨stage, found⟩
    · rintro ⟨_, same⟩
      cases found.symm.trans same
      rfl
  · rename_i other
    refine iff_of_false Bool.false_ne_true ?_
    rintro ⟨stage, found⟩
    exact other index stage found

theorem acceptedBy_key (accepted : sys.acceptedBy index peer = true) : peer ∈ sys.conns.keys := by
  obtain ⟨stage, found⟩ := acceptedBy_iff.mp accepted
  exact Finmap.mem_keys.mpr (Finmap.mem_of_lookup_eq_some found)

theorem mem_inboundOf : peer ∈ sys.inboundOf index ↔
    sys.acceptedBy index peer = true ∧ sys.registeredInbound peer = true :=
  Finset.mem_filter.trans (and_iff_right_of_imp fun holds => acceptedBy_key holds.1)

theorem mem_occupied : peer ∈ sys.occupied index ↔ sys.acceptedBy index peer = true ∧
    (sys.registeredInbound peer = true ∨ sys.unregistered peer = true) :=
  Finset.mem_filter.trans (and_iff_right_of_imp fun holds => acceptedBy_key holds.1)

/-- Registered peers take places. -/
theorem inboundOf_subset : sys.inboundOf index ⊆ sys.occupied index := by
  intro peer member
  obtain ⟨accepted, registered⟩ := mem_inboundOf.mp member
  exact mem_occupied.mpr ⟨accepted, Or.inl registered⟩

end System

/-- A registration that was kept or revoked was there before. -/
theorem registeredInbound_before
    (kept : after.router.peers.lookup peer = sys.router.peers.lookup peer ∨
      after.router.peers.lookup peer = none)
    (registered : after.registeredInbound peer = true) : sys.registeredInbound peer = true := by
  unfold System.registeredInbound at registered ⊢
  rcases kept with same | revoked
  · rwa [same] at registered
  · rw [revoked] at registered
    cases registered

/-- Only an accepted connection takes a place that was free. -/
theorem step_occupied (identified : sys.Identified)
    (taken : Step config blake2b256 sys label after) (member : peer ∈ after.occupied index) :
    peer ∈ sys.occupied index ∨ label = .accept index peer := by
  obtain ⟨accepted, held⟩ := System.mem_occupied.mp member
  obtain ⟨stage, found⟩ := System.acceptedBy_iff.mp accepted
  cases System.step_staged identified taken peer with
  | kept other same =>
    rw [same] at found
    refine Or.inl (System.mem_occupied.mpr ⟨System.acceptedBy_iff.mpr ⟨stage, found⟩, ?_⟩)
    refine held.imp (registeredInbound_before ?_) fun waiting => ?_
    · exact (registry_other [] identified taken other).imp And.right And.right
    · rwa [System.unregistered, same] at waiting
  | spawned origin _ _ now _ cause =>
    cases now.symm.trans found
    exact Or.inr (cause index rfl)
  | handshaken origin _ _ here now =>
    cases now.symm.trans found
    exact Or.inl (System.mem_occupied.mpr ⟨System.acceptedBy_iff.mpr ⟨_, here⟩,
      Or.inr (by rw [System.unregistered, here])⟩)
  | acted origin task next effects performed here acted own now =>
    subst now
    rw [System.conns_moveTask, if_pos rfl] at found
    cases found
    refine Or.inl (System.mem_occupied.mpr ⟨System.acceptedBy_iff.mpr ⟨_, here⟩, ?_⟩)
    rcases acted_registry acted with ⟨early, _⟩ | ⟨_, beyond, _, routed⟩
    · exact Or.inr (by rw [System.unregistered, here]; exact beq_iff_eq.mpr early)
    · refine Or.inl (held.elim (registeredInbound_before (Or.inl ?_)) fun waiting => ?_)
      · exact congrArg (fun router : Router => router.peers.lookup peer) routed
      · rw [System.unregistered, System.conns_moveTask, if_pos rfl] at waiting
        exact (beyond (beq_iff_eq.mp waiting)).elim

/-- An accepted connection takes one place, and every other step takes none. -/
theorem step_places (identified : sys.Identified) (taken : Step config blake2b256 sys label after)
    {limit : Nat} (space : ∀ peer, label = .accept index peer → (sys.occupied index).card < limit)
    (before : (sys.occupied index).card ≤ limit) : (after.occupied index).card ≤ limit := by
  by_cases accepting : ∃ peer, label = .accept index peer
  · obtain ⟨peer, rfl⟩ := accepting
    have taking : after.occupied index ⊆ insert peer (sys.occupied index) := by
      intro other member
      rcases step_occupied identified taken member with earlier | same
      · exact Finset.mem_insert_of_mem earlier
      · cases same
        exact Finset.mem_insert_self _ _
    calc (after.occupied index).card
        ≤ (insert peer (sys.occupied index)).card := Finset.card_le_card taking
      _ ≤ (sys.occupied index).card + 1 := Finset.card_insert_le _ _
      _ ≤ limit := space peer rfl
  · refine (Finset.card_le_card fun other member => ?_).trans before
    exact (step_occupied identified taken member).resolve_right fun same =>
      accepting ⟨other, same⟩

/-- The tasks of accepted connections serve inbound peers. -/
theorem run_inbound (run : SystemRun config blake2b256 history sys) :
    ∀ peer index task, sys.conns.lookup peer = some ⟨.listener index, .running task⟩ →
      task.direction = .inbound := by
  refine invariant (fun _ reached => ∀ peer index task,
    reached.conns.lookup peer = some ⟨.listener index, .running task⟩ →
      task.direction = .inbound) ?_ ?_ run
  · intro peer index task found
    cases found
  · intro _ before label after earlier inbound taken peer index task found
    cases System.step_staged (System.run_identified earlier) taken peer with
    | kept _ same => exact inbound peer index task (same ▸ found)
    | spawned _ _ _ now => cases now.symm.trans found
    | handshaken origin stage _ _ now started =>
      cases now.symm.trans found
      exact (started task rfl).2.2 index rfl
    | acted origin running next effects performed here acted own now =>
      subst now
      rw [System.conns_moveTask, if_pos rfl] at found
      cases found
      rw [(System.acted_arguments acted).2.1]
      exact inbound peer index running here

/-- A connection that has still to be registered can be registered, whatever the others do. -/
theorem unregistered_enters (run : SystemRun config blake2b256 history sys) {listener : Listener}
    (configured : config.listeners[index]? = some listener)
    (accepted : sys.acceptedBy index peer = true) (waiting : sys.unregistered peer = true) :
    ∃ labels after task, Run sys (Step config blake2b256) labels after ∧
      Entered sys after peer (.listener index) task ∧ task.direction = .inbound := by
  obtain ⟨stage, here⟩ := System.acceptedBy_iff.mp accepted
  rw [System.unregistered, here] at waiting
  cases stage with
  | handshaking =>
    obtain ⟨after, entering, entered⟩ := handshaking_enters blake2b256 here
      (listener_handshaken configured peer [])
    exact ⟨_, after, _, entering, entered, rfl⟩
  | running task =>
    have inbound := run_inbound run peer index task here
    obtain rfl := System.run_identified run _ _ _ here
    obtain ⟨after, entered, registered⟩ := registering_enters blake2b256 here rfl
      (beq_iff_eq.mp waiting)
    exact ⟨_, after, _, .extend .start entered, registered, inbound⟩
  | closed => cases waiting

/-- The registration of an accepted peer turns its place into that of a registered peer and
leaves all other places as they are. -/
theorem entered_places {task : PeerTask} (entered : Entered sys after peer (.listener index) task)
    (inbound : task.direction = .inbound) :
    peer ∈ after.inboundOf index ∧ sys.inboundOf index ⊆ after.inboundOf index ∧
      sys.occupied index ⊆ after.occupied index := by
  have own : peer ∈ after.inboundOf index := by
    refine System.mem_inboundOf.mpr ⟨System.acceptedBy_iff.mpr ⟨_, entered.task⟩, ?_⟩
    rw [System.registeredInbound, entered.router, Router.registerPeer, lookup_insert_eq,
      if_pos rfl]
    exact beq_iff_eq.mpr inbound
  have others {other : PeerId} (different : other ≠ peer) :
      after.acceptedBy index other = sys.acceptedBy index other ∧
        after.registeredInbound other = sys.registeredInbound other ∧
        after.unregistered other = sys.unregistered other := by
    refine ⟨?_, ?_, ?_⟩
    · rw [System.acceptedBy, System.acceptedBy, entered.others other different]
    · rw [System.registeredInbound, System.registeredInbound, entered.router, Router.registerPeer,
        lookup_insert_eq, if_neg different]
    · rw [System.unregistered, System.unregistered, entered.others other different]
  refine ⟨own, ?_, ?_⟩
  · intro other member
    by_cases same : other = peer
    · exact same ▸ own
    · rwa [System.mem_inboundOf, (others same).1, (others same).2.1, ← System.mem_inboundOf]
  · intro other member
    by_cases same : other = peer
    · exact same ▸ System.inboundOf_subset own
    · rwa [System.mem_occupied, (others same).1, (others same).2.1, (others same).2.2,
        ← System.mem_occupied]

/-- All places that are taken can become those of registered peers at the same time. The
induction is on the number of places whose connections have still to be registered. -/
theorem places_registered {listener : Listener}
    (configured : config.listeners[index]? = some listener) {places : Finset PeerId} (count : Nat)
    (run : SystemRun config blake2b256 history sys) (within : places ⊆ sys.occupied index)
    (missing : (places \ sys.inboundOf index).card ≤ count) :
    ∃ labels after, Run sys (Step config blake2b256) labels after ∧
      places ⊆ after.inboundOf index := by
  induction count generalizing history sys with
  | zero =>
    have nothing := Finset.card_eq_zero.mp (Nat.le_zero.mp missing)
    exact ⟨[], sys, .start, Finset.sdiff_eq_empty_iff_subset.mp nothing⟩
  | succ count inductionHypothesis =>
    by_cases done : places ⊆ sys.inboundOf index
    · exact ⟨[], sys, .start, done⟩
    · obtain ⟨peer, member, absent⟩ := Finset.not_subset.mp done
      obtain ⟨accepted, held⟩ := System.mem_occupied.mp (within member)
      have waiting := held.resolve_left fun registered =>
        absent (System.mem_inboundOf.mpr ⟨accepted, registered⟩)
      obtain ⟨labels, middle, task, entering, entered, inbound⟩ :=
        unregistered_enters run configured accepted waiting
      obtain ⟨own, registered, occupied⟩ := entered_places entered inbound
      have fewer : (places \ middle.inboundOf index).card < (places \ sys.inboundOf index).card := by
        refine Finset.card_lt_card ⟨Finset.sdiff_subset_sdiff subset_rfl registered, fun back => ?_⟩
        have kept := back (Finset.mem_sdiff.mpr ⟨member, absent⟩)
        exact (Finset.mem_sdiff.mp kept).2 own
      obtain ⟨rest, after, later, filled⟩ := inductionHypothesis (continued run entering)
        (within.trans occupied) (by omega)
      exact ⟨rest ++ labels, after, continued entering later, filled⟩

/-- An accepted connection takes a place that was free. -/
theorem accept_occupied (taken : Step config blake2b256 sys (.accept index peer) after) :
    peer ∉ sys.occupied index ∧ insert peer (sys.occupied index) ⊆ after.occupied index := by
  cases taken with
  | accept _ listener configured visit below fresh =>
    have absent : ⟨sys.counter⟩ ∉ sys.occupied index := by
      intro member
      obtain ⟨stage, found⟩ := System.acceptedBy_iff.mp (System.mem_occupied.mp member).1
      cases fresh.symm.trans found
    refine ⟨absent, fun other member => System.mem_occupied.mpr ?_⟩
    have found : (sys.spawnTask (.listener index)).conns.lookup other =
        if other = ⟨sys.counter⟩ then some ⟨.listener index, .handshaking⟩
        else sys.conns.lookup other := System.conns_moveTask sys _ _ _ _
    by_cases own : other = ⟨sys.counter⟩
    · rw [if_pos own] at found
      exact ⟨System.acceptedBy_iff.mpr ⟨_, found⟩, Or.inr (by rw [System.unregistered, found])⟩
    · rw [if_neg own] at found
      rw [System.acceptedBy, System.unregistered, found]
      exact System.mem_occupied.mp (Finset.mem_of_mem_insert_of_ne member own)

/-- A connection that is accepted without a free place can lead beyond the maximum. -/
theorem overbooked (run : SystemRun config blake2b256 history sys) {listener : Listener}
    (configured : config.listeners[index]? = some listener)
    (taken : Step config blake2b256 sys (.accept index peer) after)
    (full : listener.maxInbound ≤ (sys.occupied index).card) :
    ∃ labels later, Run after (Step config blake2b256) labels later ∧
      listener.maxInbound < (later.inboundOf index).card := by
  obtain ⟨absent, taking⟩ := accept_occupied taken
  obtain ⟨labels, later, goingOn, registered⟩ := places_registered configured _ (.extend run taken)
    taking (Nat.le_refl _)
  refine ⟨labels, later, goingOn, ?_⟩
  calc listener.maxInbound
      ≤ (sys.occupied index).card := full
    _ < (insert peer (sys.occupied index)).card := by
        rw [Finset.card_insert_of_notMem absent]
        exact Nat.lt_succ_self _
    _ ≤ (later.inboundOf index).card := Finset.card_le_card registered

/-- In every run in which a connection is accepted only if the listener has a place for it,
the registered inbound peers that the listener accepted do not exceed its maximum. A
connection that is accepted without a free place can lead beyond the maximum. -/
theorem inbound_capped (run : Run System.new (SpaciousStep config blake2b256) history sys)
    {listener : Listener} (configured : config.listeners[index]? = some listener) :
    (sys.inboundOf index).card ≤ listener.maxInbound ∧
      ∀ peer after, Step config blake2b256 sys (.accept index peer) after →
        ¬ Spacious config sys (.accept index peer) →
        ∃ labels later, Run after (Step config blake2b256) labels later ∧
          listener.maxInbound < (later.inboundOf index).card := by
  have included : ∀ before label after, SpaciousStep config blake2b256 before label after →
      Step config blake2b256 before label after := fun _ _ _ taken => taken.1
  constructor
  · have places : (sys.occupied index).card ≤ listener.maxInbound := by
      refine invariant (fun _ reached => (reached.occupied index).card ≤ listener.maxInbound)
        (Nat.zero_le _) ?_ run
      intro earlier before label after earlierRun within taken
      exact step_places (System.run_identified (weaken included earlierRun)) taken.1
        (fun peer accepting => taken.2 index peer listener accepting configured) within
    exact (Finset.card_le_card System.inboundOf_subset).trans places
  · intro peer after taken crowded
    refine overbooked (weaken included run) configured taken (Nat.le_of_not_lt fun space => ?_)
    refine crowded ?_
    rintro _ _ other ⟨⟩ found
    cases configured.symm.trans found
    exact space

/-- The first peer of a proxy is accepted and registered. -/
theorem inbound_capped_first :
    ∃ history sys, Run System.new (SpaciousStep soloConfig fun _ => Frame.emptyDigest) history sys ∧
      ⟨1⟩ ∈ sys.inboundOf 0 ∧ (sys.inboundOf 0).card ≤ 1 := by
  have accepted : Step soloConfig (fun _ => Frame.emptyDigest) System.new _ _ :=
    first_accepted solo_listener Nat.one_pos
  have spacious : Spacious soloConfig System.new (.accept 0 ⟨1⟩) := by
    rintro _ _ listener ⟨⟩ found
    cases solo_listener.symm.trans found
    exact Nat.one_pos
  obtain ⟨sys, entering, entered⟩ := handshaking_enters (fun _ => Frame.emptyDigest)
    (show (System.new.spawnTask (.listener 0)).conns.lookup ⟨1⟩ = _ from rfl)
    (listener_handshaken solo_listener ⟨1⟩ [])
  obtain ⟨_, run⟩ : ∃ history,
      Run System.new (SpaciousStep soloConfig fun _ => Frame.emptyDigest) history sys := by
    refine ⟨_, continued (.extend .start ⟨accepted, spacious⟩) (admitted entering ?_)⟩
    intro before label after member taken
    refine ⟨taken, ?_⟩
    rintro _ _ _ rfl
    simp at member
  exact ⟨_, sys, run, (entered_places entered rfl).1, (inbound_capped run solo_listener).1⟩

/-- A listener that admits one peer accepts two connections before either of them is
registered, and both are registered then. -/
theorem cap_exceeded :
    ∃ sys, SystemRun soloConfig (fun _ => Frame.emptyDigest)
        [.task ⟨2⟩ [.registerPeer ⟨2⟩ .inbound .full], .handshake ⟨2⟩,
          .task ⟨1⟩ [.registerPeer ⟨1⟩ .inbound .full], .handshake ⟨1⟩,
          .accept 0 ⟨2⟩, .accept 0 ⟨1⟩] sys ∧
      soloConfig.listeners[0]? = some ⟨.full, 1⟩ ∧ 1 < (sys.inboundOf 0).card := by
  have accepted : SystemRun soloConfig (fun _ => Frame.emptyDigest) [.accept 0 ⟨2⟩, .accept 0 ⟨1⟩]
      ((System.new.spawnTask (.listener 0)).spawnTask (.listener 0)) :=
    .extend (.extend .start (first_accepted solo_listener Nat.one_pos))
      (.accept _ 0 ⟨.full, 1⟩ rfl ⟨[], rfl⟩ Nat.one_pos (by decide))
  obtain ⟨middle, entering, first⟩ := handshaking_enters (fun _ => Frame.emptyDigest)
    (show ((System.new.spawnTask (.listener 0)).spawnTask (.listener 0)).conns.lookup ⟨1⟩ =
      some ⟨.listener 0, .handshaking⟩ from rfl) (listener_handshaken solo_listener ⟨1⟩ [])
  have waiting : middle.conns.lookup ⟨2⟩ = some ⟨.listener 0, .handshaking⟩ :=
    (first.others ⟨2⟩ (by decide)).trans rfl
  obtain ⟨sys, following, second⟩ := handshaking_enters (fun _ => Frame.emptyDigest) waiting
    (listener_handshaken solo_listener ⟨2⟩ [])
  obtain ⟨own, registered, _⟩ := entered_places second rfl
  have both : {⟨1⟩, ⟨2⟩} ⊆ sys.inboundOf 0 :=
    Finset.insert_subset (registered (entered_places first rfl).1)
      (Finset.singleton_subset_iff.mpr own)
  exact ⟨sys, continued (continued accepted entering) following, rfl, Finset.card_le_card both⟩

end ErgoProxy.Runtime
