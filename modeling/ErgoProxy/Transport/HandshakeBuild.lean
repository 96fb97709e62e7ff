import ErgoProxy.Transport.HandshakeWalks

/-!
# Built handshakes are read back

`build` appends its fields to one buffer. Written as a concatenation, its output is
consumed field by field by the strict walk, whatever bytes follow. Parsing,
measuring and validation of a built handshake are read off the walk's value.
-/

namespace ErgoProxy.Handshake

open ExactReaders Cursor Vlq

@[simp] theorem SocketAddr.ip_new (addr : SocketAddr) :
    (SocketAddr.new addr.ip addr.port).ip = addr.ip := by
  cases addr <;> rfl

@[simp] theorem SocketAddr.port_new (addr : SocketAddr) :
    (SocketAddr.new addr.ip addr.port).port = addr.port := by
  cases addr <;> rfl

/-- The features that a handshake is built with. -/
def builtFeatures (config : HandshakeConfig) (sessionId : UInt64) : List Feature :=
  [⟨featureMode, buildModeBody config.mode⟩,
    ⟨featureSession, buildSessionBody config.network sessionId⟩, ⟨featureProxy, [0x01]⟩]

/-- The specification that a built handshake carries. Flow and scope of an IPv6
address are not transmitted. -/
def builtSpec (config : HandshakeConfig) (sessionId : UInt64) : PeerSpec where
  agent := config.agentName
  version := config.version
  name := config.peerName
  address := config.declaredAddress.map fun addr => SocketAddr.new addr.ip addr.port
  features := builtFeatures config sessionId

/-- The bytes of one feature. -/
def featureBytes (feature : Feature) : Bytes :=
  [feature.id] ++ (writeVlq [] (UInt64.ofNat feature.body.length) ++ feature.body)

/-- The bytes of an optional address. -/
def addressBytes : Option SocketAddr → Bytes
  | none => [0x00]
  | some addr => [0x01] ++ ([UInt8.ofNat ((ipBytes addr.ip).length + 4)] ++ (ipBytes addr.ip ++
      writeVlq [] addr.port.toUInt64))

/-- A feature is appended to the buffer. -/
theorem writeFeature_append (buf : Bytes) (id : UInt8) (body : Bytes) :
    writeFeature buf id body = buf ++ featureBytes ⟨id, body⟩ := by
  rw [writeFeature, write_append, featureBytes]
  simp only [List.append_assoc]

/-- An address is appended to the buffer. -/
theorem writeAddress_append (buf : Bytes) (address : Option SocketAddr) :
    writeAddress buf address = buf ++ addressBytes address := by
  cases address with
  | none => rfl
  | some addr =>
    rw [writeAddress, write_append, addressBytes]
    simp only [List.append_assoc]

/-- The output of `build` as a concatenation of its fields. -/
theorem build_fields (config : HandshakeConfig) (now sessionId : UInt64) :
    build config now sessionId = writeVlq [] now ++
      ((writeShortString [] config.agentName ++
        ([config.version.major, config.version.minor, config.version.patch] ++
          (writeShortString [] config.peerName ++ addressBytes config.declaredAddress))) ++
        ([3] ++ (builtFeatures config sessionId).flatMap featureBytes)) := by
  simp only [build, writeFeature_append, writeAddress_append,
    writeShortString_append (_ ++ _), writeShortString_append (writeVlq _ _), builtFeatures,
    List.flatMap_cons, List.flatMap_nil, List.append_nil, List.append_assoc, List.cons_append,
    List.nil_append]

/-- A feature with an admissible body is read back. -/
theorem consumes_readFeature {feature : Feature} (short : feature.body.length ≤ 262144) :
    Consumes readFeature (featureBytes feature) feature :=
  consumes_bind (consumes_readByte feature.id) (consumes_bind (consumes_readVlqLength short)
    (consumes_map (consumes_readExact feature.body) (Feature.mk feature.id)))

/-- A 16-bit port survives its widening. -/
theorem port_narrowed (port : UInt16) : port.toUInt64.toUInt16 = port := by
  rw [← UInt16.toNat_inj, UInt64.toNat_toUInt16, UInt16.toNat_toUInt64]
  exact Nat.mod_eq_of_lt port.toNat_lt

/-- The octets and the port of an address are read back behind their length. -/
theorem consumes_parseAddress (addr : SocketAddr) :
    Consumes parseAddress ([UInt8.ofNat ((ipBytes addr.ip).length + 4)] ++ (ipBytes addr.ip ++
      writeVlq [] addr.port.toUInt64)) (some (SocketAddr.new addr.ip addr.port)) := by
  have announced : (UInt8.ofNat ((ipBytes addr.ip).length + 4)).toNat - 4 =
      (ipBytes addr.ip).length := by
    cases addr <;> simp [SocketAddr.ip, ipBytes]
  intro tail
  rw [parseAddress, List.append_assoc, bind_of_ok (consumes_readByte _ _), announced,
    List.append_assoc, bind_of_ok (consumes_readExact _ _), bind_of_ok (consumes_readVlq _ _),
    port_narrowed]
  cases addr with
  | v4 octets port =>
    have four : (ipBytes (SocketAddr.v4 octets port).ip).length = 4 := octets.length_toList
    rw [dif_pos four]
    rfl
  | v6 octets port flowinfo scopeId =>
    have sixteen : (ipBytes (SocketAddr.v6 octets port flowinfo scopeId).ip).length = 16 :=
      octets.length_toList
    rw [dif_neg (by omega), dif_pos sixteen]
    rfl

/-- An optional address is read back up to flow and scope. -/
theorem consumes_readDeclared (address : Option SocketAddr) :
    Consumes readDeclared (addressBytes address)
      (address.map fun addr => SocketAddr.new addr.ip addr.port) := by
  cases address with
  | none => exact fun tail => rfl
  | some addr => exact consumes_bind (consumes_readByte 0x01) (consumes_parseAddress addr)

/-- The head of an entry is read back. -/
theorem consumes_entryHead {config : HandshakeConfig}
    (agentShort : (asBytes config.agentName).length ≤ 255)
    (nameShort : (asBytes config.peerName).length ≤ 255) :
    ∃ complete, (∀ sessionId, complete (builtFeatures config sessionId) =
        builtSpec config sessionId) ∧
      Consumes entryHead (writeShortString [] config.agentName ++
        ([config.version.major, config.version.minor, config.version.patch] ++
          (writeShortString [] config.peerName ++ addressBytes config.declaredAddress)))
        complete := by
  have version : Consumes (readArray 3)
      [config.version.major, config.version.minor, config.version.patch]
      #v[config.version.major, config.version.minor, config.version.patch] :=
    consumes_readArray #v[config.version.major, config.version.minor, config.version.patch]
  refine ⟨_, fun sessionId => ?_, consumes_bind (consumes_readShortString agentShort)
    (consumes_bind version (consumes_bind (consumes_readShortString nameShort)
      (consumes_map (consumes_readDeclared config.declaredAddress) _)))⟩
  rfl

/-- The bodies of all built features are short. -/
theorem builtFeatures_short (config : HandshakeConfig) (sessionId : UInt64) :
    ∀ feature ∈ builtFeatures config sessionId, feature.body.length ≤ 14 := by
  intro feature member
  simp only [builtFeatures, List.mem_cons, List.not_mem_nil, or_false] at member
  rcases member with rfl | rfl | rfl
  · cases config.mode <;> decide
  · have written := (write_length (zigzagEncodeI64 sessionId.toInt64)).2
    have magic : config.network.magic.toList.length = 4 := Vector.length_toList
    simp only [buildSessionBody]
    rw [write_append, List.length_append, magic]
    omega
  · decide

/-- A built handshake is consumed by the strict walk. -/
theorem consumes_build {config : HandshakeConfig}
    (agentShort : (asBytes config.agentName).length ≤ 255)
    (nameShort : (asBytes config.peerName).length ≤ 255) (now sessionId : UInt64) :
    Consumes strictWalk (build config now sessionId) (builtSpec config sessionId) := by
  obtain ⟨complete, completed, headRead⟩ := consumes_entryHead agentShort nameShort
  have features : Consumes readFeatures
      ([3] ++ (builtFeatures config sessionId).flatMap featureBytes)
      (builtFeatures config sessionId) :=
    consumes_bind (consumes_readByte 3) (consumes_times featureBytes
      (builtFeatures config sessionId) fun feature member =>
        consumes_readFeature (Nat.le_trans (builtFeatures_short config sessionId feature member)
          (by decide)))
  rw [build_fields, ← completed sessionId]
  exact consumes_bind (consumes_readVlq now)
    (consumes_bind headRead (consumes_map features complete))

/-- A feature takes at most eleven bytes more than its body. -/
theorem featureBytes_length (feature : Feature) :
    (featureBytes feature).length ≤ feature.body.length + 11 := by
  have count := (write_length (UInt64.ofNat feature.body.length)).2
  simp only [featureBytes, List.length_append, List.length_singleton]
  omega

/-- An optional address takes at most 28 bytes. -/
theorem addressBytes_length (address : Option SocketAddr) :
    (addressBytes address).length ≤ 28 := by
  cases address with
  | none => decide
  | some addr =>
    have octets : (ipBytes addr.ip).length ≤ 16 := by
      cases addr <;> simp [SocketAddr.ip, ipBytes]
    have port := (write_length addr.port.toUInt64).2
    simp only [addressBytes, List.length_append, List.length_singleton]
    omega

/-- A built handshake is far smaller than the buffer of a reader. -/
theorem build_length {config : HandshakeConfig}
    (agentShort : (asBytes config.agentName).length ≤ 255)
    (nameShort : (asBytes config.peerName).length ≤ 255) (now sessionId : UInt64) :
    (build config now sessionId).length ≤ 1024 := by
  have timestamp := (write_length now).2
  have address := addressBytes_length config.declaredAddress
  have features : ((builtFeatures config sessionId).flatMap featureBytes).length ≤ 3 * 25 := by
    rw [List.length_flatMap]
    refine List.sum_le_card_nsmul _ 25 fun length member => ?_
    obtain ⟨feature, built, rfl⟩ := List.mem_map.mp member
    have body := builtFeatures_short config sessionId feature built
    have whole := featureBytes_length feature
    omega
  rw [build_fields]
  simp only [writeShortString, List.length_append, List.length_cons, List.length_nil]
  omega

/-- A session body starts with the network's magic. -/
theorem sessionBody_magic (network : Network) (sessionId : UInt64) :
    4 ≤ (buildSessionBody network sessionId).length ∧
      (buildSessionBody network sessionId).take 4 = network.magic.toList := by
  have magic : network.magic.toList.length = 4 := Vector.length_toList
  rw [buildSessionBody, write_append, List.length_append, magic]
  exact ⟨Nat.le_add_right 4 _, List.take_left' magic⟩

/-- A built specification is valid exactly for its own network and a version of at
least 4.0.100. -/
theorem validatePeer_built (config : HandshakeConfig) (sessionId : UInt64) (network : Network) :
    validatePeer (builtSpec config sessionId) network = .ok () ↔
      network = config.network ∧ Version.eip37Min ≤ config.version := by
  obtain ⟨long, magic⟩ := sessionBody_magic config.network sessionId
  have session : (builtSpec config sessionId).features.find?
      (fun feature => feature.id = featureSession) =
        some ⟨featureSession, buildSessionBody config.network sessionId⟩ := by
    simp [builtSpec, builtFeatures, featureMode, featureSession]
  have sameVersion : (builtSpec config sessionId).version = config.version := rfl
  rw [← Version.not_lt_iff, validatePeer, session, sameVersion]
  by_cases old : config.version < Version.eip37Min
  · simp [old]
  · simp only [magic, long, true_and, old, if_false, not_false_eq_true, and_true]
    by_cases same : network = config.network
    · simp [same]
    · have differs : config.network.magic.toList ≠ network.magic.toList := by
        intro equal
        exact same (Network.magic_injective (Vector.toList_inj.mp equal.symm))
      simp [same, differs]

/-- A built handshake, whatever follows it: it is parsed to the configured agent, name,
version, address and port with exactly the three features that were written; it is
measured at its own length; it is recognized as a proxy's; and it is valid exactly
for the configured network and a version of at least 4.0.100. -/
theorem build_parsed (config : HandshakeConfig)
    (agentShort : (asBytes config.agentName).length ≤ 255)
    (nameShort : (asBytes config.peerName).length ≤ 255) (now sessionId : UInt64) (tail : Bytes) :
    ∃ spec, parse (build config now sessionId ++ tail) = .ok spec ∧
      spec.agent = config.agentName ∧ spec.name = config.peerName ∧
      spec.version = config.version ∧
      spec.address.map SocketAddr.ip = config.declaredAddress.map SocketAddr.ip ∧
      spec.address.map SocketAddr.port = config.declaredAddress.map SocketAddr.port ∧
      spec.features = [⟨featureMode, buildModeBody config.mode⟩,
        ⟨featureSession, buildSessionBody config.network sessionId⟩, ⟨featureProxy, [0x01]⟩] ∧
      measureSize (build config now sessionId ++ tail) =
        .ok (build config now sessionId).length ∧
      isProxy spec = true ∧
      ∀ network, validatePeer spec network = .ok () ↔
        network = config.network ∧ Version.eip37Min ≤ config.version := by
  have consumed := consumes_build agentShort nameShort now sessionId
  refine ⟨builtSpec config sessionId, parse_ok (consumed tail), rfl, rfl, rfl, ?_, ?_, rfl,
    consumed_measured consumed tail, ?_, validatePeer_built config sessionId⟩
  · simp [builtSpec, Function.comp_def]
  · simp [builtSpec, Function.comp_def]
  · simp [isProxy, builtSpec, builtFeatures]

/-- The configuration of the repository's own proxy, with a declared address. -/
def proxyConfig : HandshakeConfig where
  agentName := "ergo-proxy"
  peerName := "proxy"
  version := ⟨6, 0, 1⟩
  network := .testnet
  mode := .light
  declaredAddress := some (.v4 #v[192, 0, 2, 1] 9030)

/-- Its handshake is read back and valid on its own network only. -/
theorem build_parsed_proxyConfig :
    ∃ spec, parse (build proxyConfig 1700000000000 42 ++ [1, 2, 3]) = .ok spec ∧
      spec.address.map SocketAddr.port = some 9030 ∧
      validatePeer spec .testnet = .ok () ∧ validatePeer spec .mainnet ≠ .ok () := by
  obtain ⟨spec, parsed, _, _, _, _, port, _, _, _, valid⟩ :=
    build_parsed proxyConfig (by decide) (by decide) 1700000000000 42 [1, 2, 3]
  exact ⟨spec, parsed, port, (valid .testnet).mpr (by decide), fun accepted =>
    absurd ((valid .mainnet).mp accepted) (by decide)⟩

end ErgoProxy.Handshake
