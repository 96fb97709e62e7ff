import ErgoProxy.Config
import ErgoProxy.Runtime.OutboundManager

/-!
# From the configuration to the handshake

Before any task runs, the main function loads the configuration, takes its version apart and
binds the listeners, the IPv6 one first; each of these can end the program. What the tasks are
given is made of what the file says. The handshakes that they send carry it to the other side.
The version is not compared with the oldest one that we accept from others: a file can have us
announce a version that every instance of this program turns away.
-/

namespace ErgoProxy.Runtime

open Handshake ExactReaders

/-- The start of the program: the configurations of the tasks, or the error with which it ends.
The outcome of binding an address comes from outside. -/
def start (contents : Except String ErgoProxy.Config) (bound : SocketAddr → Except String Unit) :
    Except String (Config × OutboundConfig) := do
  let config ← ErgoProxy.Config.load contents
  let (major, minor, patch) ← config.versionBytes
  config.listeners.forM fun listener => bound listener.address
  return (⟨config.identity.agentName, config.identity.peerName, ⟨major, minor, patch⟩,
      config.network, config.listeners.map fun listener => ⟨listener.mode, listener.maxInbound⟩⟩,
    ⟨config.outbound.minPeers, config.outbound.seedPeers⟩)

/-- A check of all elements succeeds exactly if it succeeds for each. -/
theorem forM_ok {ε α : Type} (check : α → Except ε Unit) (items : List α) :
    items.forM check = .ok () ↔ ∀ item ∈ items, check item = .ok () := by
  induction items with
  | nil => simp [pure, Except.pure]
  | cons item items inductionHypothesis =>
    rw [List.forall_mem_cons, ← inductionHypothesis, List.forM]
    cases check item with
    | error problem => simp [bind, Except.bind]
    | ok => simp [bind, Except.bind]

/-- The program starts exactly if the file passes the checks, its version is one, and all
listeners can be bound. The tasks then get what the file says. -/
theorem start_ok (contents : Except String ErgoProxy.Config)
    (bound : SocketAddr → Except String Unit) (config : Config) (outbound : OutboundConfig) :
    start contents bound = .ok (config, outbound) ↔ ∃ source version,
      contents = .ok source ∧ source.Loadable ∧ Dotted source.identity.protocolVersion version ∧
        (∀ listener ∈ source.listeners, bound listener.address = .ok ()) ∧
        config = ⟨source.identity.agentName, source.identity.peerName, version, source.network,
          source.listeners.map fun listener => ⟨listener.mode, listener.maxInbound⟩⟩ ∧
        outbound = ⟨source.outbound.minPeers, source.outbound.seedPeers⟩ := by
  constructor
  · intro started
    unfold start at started
    cases loaded : ErgoProxy.Config.load contents with
    | error problem => simp [loaded, bind, Except.bind] at started
    | ok source =>
      cases parsed : source.versionBytes with
      | error problem => simp [loaded, parsed, bind, Except.bind] at started
      | ok bytes =>
        obtain ⟨major, minor, patch⟩ := bytes
        cases listening : source.listeners.forM fun listener => bound listener.address with
        | error problem => simp [loaded, parsed, listening, bind, Except.bind] at started
        | ok =>
          simp only [loaded, parsed, listening, bind, Except.bind, pure, Except.pure,
            Except.ok.injEq, Prod.mk.injEq] at started
          obtain ⟨read, loadable⟩ := (load_ok contents source).mp loaded
          refine ⟨source, ⟨major, minor, patch⟩, read, loadable, ?_, (forM_ok _ _).mp listening,
            started.1.symm, started.2.symm⟩
          exact (versionBytes_ok source ⟨major, minor, patch⟩).mp parsed
  · rintro ⟨source, version, read, loadable, dotted, listening, rfl, rfl⟩
    have loaded := (load_ok contents source).mpr ⟨read, loadable⟩
    have parsed := (versionBytes_ok source version).mpr dotted
    have bindings := (forM_ok (fun listener => bound listener.address) source.listeners).mpr listening
    simp only [start, loaded, parsed, bindings, bind, Except.bind, pure, Except.pure]

/-- Once the program has started, every handshake that it sends is read, whatever follows it, as
what the file says: the agent, the name, and the version that the text of the file stands for.
Another instance accepts it exactly if it is on the network of the file and this version is at
least 4.0.100. -/
theorem started_advertises {contents : Except String ErgoProxy.Config}
    {bound : SocketAddr → Except String Unit} {config : Config} {outbound : OutboundConfig}
    (started : start contents bound = .ok (config, outbound))
    (agentShort : (Vlq.asBytes config.agentName).length ≤ 255)
    (nameShort : (Vlq.asBytes config.peerName).length ≤ 255) :
    ∃ source version, contents = .ok source ∧ source.Loadable ∧
      Dotted source.identity.protocolVersion version ∧
      ∀ mode now sessionId tail, ∃ spec,
        parse (build (config.makeHandshakeConfig mode) now sessionId ++ tail) = .ok spec ∧
          spec.agent = source.identity.agentName ∧ spec.name = source.identity.peerName ∧
          spec.version = version ∧
          ∀ theirs, validatePeer spec theirs = .ok () ↔
            theirs = source.network ∧ Version.eip37Min ≤ version := by
  obtain ⟨source, version, read, loadable, dotted, _, rfl, _⟩ := (start_ok _ _ _ _).mp started
  refine ⟨source, version, read, loadable, dotted, fun mode now sessionId tail => ?_⟩
  exact ⟨_, parse_ok (consumes_build agentShort nameShort now sessionId tail), rfl, rfl, rfl,
    validatePeer_built _ sessionId⟩

/-- A file with an old version and one seed. -/
def oldFile : ErgoProxy.Config where
  network := .testnet
  listen := ⟨some ⟨.v4 (Vector.replicate 4 0) 9030, .light, 20⟩, none⟩
  outbound := ⟨1, 3, [.v4 (Vector.replicate 4 1) 9020]⟩
  identity := ⟨"ergo-proxy", "proxy", toString (⟨4, 0, 99⟩ : Version)⟩

/-- The program starts with the file, and no instance on its network accepts its handshake. -/
theorem started_advertises_old :
    ∃ config outbound, start (.ok oldFile) (fun _ => .ok ()) = .ok (config, outbound) ∧
      ∃ spec, parse (build (config.makeHandshakeConfig .full) 1700000000000 42 ++ []) = .ok spec ∧
        spec.agent = "ergo-proxy" ∧ validatePeer spec .testnet ≠ .ok () := by
  have started := (start_ok (.ok oldFile) (fun _ => .ok ()) _ _).mpr ⟨oldFile, ⟨4, 0, 99⟩, rfl,
    ⟨List.cons_ne_nil _ _, List.cons_ne_nil _ _, by decide⟩, toString_dotted _, fun _ _ => rfl,
    rfl, rfl⟩
  obtain ⟨source, version, read, _, dotted, advertised⟩ :=
    started_advertises started (by decide) (by decide)
  cases read
  obtain ⟨spec, parsed, agent, _, _, valid⟩ := advertised .full 1700000000000 42 []
  refine ⟨_, _, started, spec, parsed, agent, fun accepted => ?_⟩
  -- The text stands for one version only.
  have same := (versionBytes_ok oldFile version).mpr dotted
  rw [(versionBytes_ok oldFile ⟨4, 0, 99⟩).mpr (toString_dotted _)] at same
  obtain ⟨_, recent⟩ := (valid .testnet).mp accepted
  cases version
  cases same
  exact absurd recent (by decide)

end ErgoProxy.Runtime
