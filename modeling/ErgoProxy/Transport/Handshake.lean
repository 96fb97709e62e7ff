import ErgoProxy.Transport.Vlq

/-!
# The handshake payload

`build` writes a timestamp, two short strings, three version bytes, an optional
declared address and three features. The same grammar is walked by three
functions: `parse` and `parsePeerEntry` return a peer specification and stop
quietly at the first malformed feature, while `measureSize` discards every field,
reports the cursor position and refuses malformed features.

The system clock and the random session identifier are arguments of `build`. A
declared IPv6 address keeps its flow and scope fields in memory; they are not part
of the payload, so only the address and the port can be recovered.
-/

namespace ErgoProxy.Handshake

open ExactReaders Cursor Vlq

/-- Feature identifier of the advertised node mode. -/
def featureMode : UInt8 := 16

/-- Feature identifier of the session: network magic and session number. -/
def featureSession : UInt8 := 3

/-- Custom feature by which proxies recognize each other. -/
def featureProxy : UInt8 := 64

/-- An Internet address. -/
inductive IpAddr where
  | v4 (octets : Vector UInt8 4)
  | v6 (octets : Vector UInt8 16)
  deriving DecidableEq

/-- A socket address; the IPv6 form also has flow information and a scope. -/
inductive SocketAddr where
  | v4 (octets : Vector UInt8 4) (port : UInt16)
  | v6 (octets : Vector UInt8 16) (port : UInt16) (flowinfo scopeId : UInt32)
  deriving DecidableEq

namespace SocketAddr

/-- The address part. -/
def ip : SocketAddr → IpAddr
  | v4 octets _ => .v4 octets
  | v6 octets _ _ _ => .v6 octets

/-- The port part. -/
def port : SocketAddr → UInt16
  | v4 _ port => port
  | v6 _ port _ _ => port

/-- A socket address from its parts, with zero flow and scope. -/
def new : IpAddr → UInt16 → SocketAddr
  | .v4 octets, port => v4 octets port
  | .v6 octets, port => v6 octets port 0 0

end SocketAddr

/-- Configuration for building a handshake. -/
structure HandshakeConfig where
  agentName : String
  peerName : String
  version : Version
  network : Network
  mode : ProxyMode
  declaredAddress : Option SocketAddr

/-- A parsed peer feature. -/
structure Feature where
  id : UInt8
  body : Bytes
  deriving DecidableEq

/-- Parsed peer specification. -/
structure PeerSpec where
  agent : String
  version : Version
  name : String
  address : Option SocketAddr
  features : List Feature
  deriving DecidableEq

/-- Body of the mode feature: a full archival node, or a NiPoPoW-bootstrapped one. -/
def buildModeBody : ProxyMode → Bytes
  | .full => [0x00, 0x01, 0x00, 0x01]
  | .light => [0x00, 0x01, 0x01, 0x02, 0x01]

/-- Body of the session feature: the network's magic, then the session number as
a ZigZag-folded quantity. -/
def buildSessionBody (network : Network) (sessionId : UInt64) : Bytes :=
  writeVlq network.magic.toList (zigzagEncodeI64 sessionId.toInt64)

/-- The octets of an address. -/
def ipBytes : IpAddr → Bytes
  | .v4 octets => octets.toList
  | .v6 octets => octets.toList

/-- Append the declared address: a presence byte, then the octet count plus four,
the octets and the port. -/
def writeAddress (buf : Bytes) : Option SocketAddr → Bytes
  | none => buf ++ [0x00]
  | some addr =>
    writeVlq (buf ++ [0x01] ++ [UInt8.ofNat ((ipBytes addr.ip).length + 4)] ++ ipBytes addr.ip)
      addr.port.toUInt64

/-- Append a feature: its identifier, its length and its body. -/
def writeFeature (buf : Bytes) (id : UInt8) (body : Bytes) : Bytes :=
  writeVlq (buf ++ [id]) (UInt64.ofNat body.length) ++ body

/-- Build handshake bytes from a configuration, the current time in milliseconds
and a random session number. -/
def build (config : HandshakeConfig) (now sessionId : UInt64) : Bytes :=
  let buf := writeVlq [] now
  let buf := writeShortString buf config.agentName
  let buf := buf ++ [config.version.major] ++ [config.version.minor] ++ [config.version.patch]
  let buf := writeShortString buf config.peerName
  let buf := writeAddress buf config.declaredAddress
  let buf := buf ++ [3]
  let buf := writeFeature buf featureMode (buildModeBody config.mode)
  let buf := writeFeature buf featureSession (buildSessionBody config.network sessionId)
  writeFeature buf featureProxy [0x01]

/-- Parse a declared address. Lengths other than those of IPv4 and IPv6 are
skipped over and yield no address; the port is narrowed to 16 bits. -/
def parseAddress : ByteReader (Option SocketAddr) := do
  let addrLen ← readByte
  let ipLen := addrLen.toNat - 4
  let bytes ← readExact ipLen
  let port := (← readVlq).toUInt16
  if four : bytes.length = 4 then
    pure (some (SocketAddr.new (.v4 ⟨bytes.toArray, by simpa using four⟩) port))
  else if sixteen : bytes.length = 16 then
    pure (some (SocketAddr.new (.v6 ⟨bytes.toArray, by simpa using sixteen⟩) port))
  else pure none

/-- The feature loop: it ends early, with what it has, at the first feature that
cannot be read completely. -/
def parseFeatureLoop : Nat → ByteReader (List Feature)
  | 0 => pure []
  | count + 1 => fun data =>
    match readByte data with
    | .error _ rest => .ok [] rest
    | .ok id rest =>
      match readVlqLength rest with
      | .error _ rest => .ok [] rest
      | .ok length rest =>
        match readExact length rest with
        | .error _ rest => .ok [] rest
        | .ok body rest =>
          (do
            let features ← parseFeatureLoop count
            pure (⟨id, body⟩ :: features) : ByteReader (List Feature)) rest

/-- Parse the feature list; a missing count is an empty list. -/
def parseFeatures : ByteReader (List Feature) := fun data =>
  match readByte data with
  | .error _ rest => .ok [] rest
  | .ok count rest => parseFeatureLoop count.toNat rest

/-- Walk a handshake on a cursor and collect the specification. -/
def parseWalk : ByteReader PeerSpec := do
  let _timestamp ← readVlq
  let agent ← readShortString
  let ver ← readArray 3
  let version := Version.ofBytes ver
  let name ← readShortString
  let hasAddr ← readByte
  let address ← if hasAddr ≠ 0 then parseAddress else pure none
  let features ← parseFeatures
  pure { agent, version, name, address, features }

/-- Parse handshake bytes into a peer specification. -/
def parse (data : Bytes) : Except IoError PeerSpec := onSlice parseWalk data

/-- Parse one entry of a peers message: a handshake without its timestamp. -/
def parsePeerEntry : ByteReader PeerSpec := do
  let agent ← readShortString
  let ver ← readArray 3
  let version := Version.ofBytes ver
  let name ← readShortString
  let hasAddr ← readByte
  let address ← if hasAddr ≠ 0 then parseAddress else pure none
  let features ← parseFeatures
  pure { agent, version, name, address, features }

/-- Skip a declared address. -/
def measureAddress : ByteReader Unit := do
  let addrLen ← readByte
  let ipLen := addrLen.toNat - 4
  let _ ← readExact ipLen
  let _ ← readVlq

/-- Skip the announced number of features, refusing a malformed one. -/
def measureFeatureLoop : Nat → ByteReader Unit
  | 0 => pure ()
  | count + 1 => do
    let _ ← readByte
    let length ← readVlqLength
    let _ ← readExact length
    measureFeatureLoop count

/-- Walk a handshake on a cursor and discard it. -/
def measureWalk : ByteReader Unit := do
  let _ ← readVlq
  let _ ← readShortString
  let _ ← readArray 3
  let _ ← readShortString
  let hasAddr ← readByte
  if hasAddr ≠ 0 then measureAddress
  let count ← readByte
  measureFeatureLoop count.toNat

/-- Measure the byte size of a handshake payload by walking it. -/
def measureSize (data : Bytes) : Except IoError Nat := positionAfter measureWalk data

/-- Check a peer's version and, when its handshake has a session feature of at
least four bytes, the network magic in it. -/
def validatePeer (spec : PeerSpec) (network : Network) : Except String Unit :=
  if spec.version < Version.eip37Min then
    .error s!"Peer version {spec.version} is below minimum {Version.eip37Min} (EIP-37)"
  else
    match spec.features.find? (fun feature => feature.id = featureSession) with
    | none => .ok ()
    | some session =>
      if 4 ≤ session.body.length ∧ session.body.take 4 ≠ network.magic.toList then
        .error s!"Session magic mismatch: {session.body.take 4} (expected {network.magic.toList})"
      else .ok ()

/-- Whether a handshake carries the proxy feature. -/
def isProxy (spec : PeerSpec) : Bool :=
  spec.features.any (fun feature => feature.id = featureProxy)

end ErgoProxy.Handshake
