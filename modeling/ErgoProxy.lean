import ErgoProxy.Foundation.Runs
import ErgoProxy.Foundation.Traces
import ErgoProxy.Foundation.Standing
import ErgoProxy.Foundation.FiniteMaps
import ErgoProxy.Foundation.Exhaustion
import ErgoProxy.Foundation.ExactReaders
import ErgoProxy.Foundation.Grammars
import ErgoProxy.Foundation.Numerals
import ErgoProxy.Foundation.SignFolding
import ErgoProxy.Foundation.Footprints
import ErgoProxy.Foundation.Isolation
import ErgoProxy.Types
import ErgoProxy.Config
import ErgoProxy.Transport.Cursor
import ErgoProxy.Transport.Vlq
import ErgoProxy.Transport.ZigZag
import ErgoProxy.Transport.Handshake
import ErgoProxy.Transport.HandshakeWalks
import ErgoProxy.Transport.VlqBounds
import ErgoProxy.Transport.HandshakeBuild
import ErgoProxy.Transport.ReaderGrammars
import ErgoProxy.Transport.HandshakeGrammar
import ErgoProxy.Transport.Frame
import ErgoProxy.Transport.FrameCodec
import ErgoProxy.Transport.Connection
import ErgoProxy.Transport.FrameStreams
import ErgoProxy.Transport.HandshakeReading
import ErgoProxy.Transport.Admission
import ErgoProxy.Protocol.Messages
import ErgoProxy.Protocol.MessageCodec
import ErgoProxy.Protocol.MessageGrammar
import ErgoProxy.Protocol.Peer
import ErgoProxy.Protocol.PeerStates
import ErgoProxy.Routing.Trackers
import ErgoProxy.Routing.Router
import ErgoProxy.Routing.Steps
import ErgoProxy.Routing.History
import ErgoProxy.Routing.References
import ErgoProxy.Routing.Pairing
import ErgoProxy.Routing.Assertions
import ErgoProxy.Routing.SyncRoutes
import ErgoProxy.Routing.SyncAffinity
import ErgoProxy.Routing.Announcements
import ErgoProxy.Routing.Requests
import ErgoProxy.Routing.Contention
import ErgoProxy.Routing.Addressees
import ErgoProxy.Routing.Responses
import ErgoProxy.Routing.LightMode
import ErgoProxy.Routing.MessageEffects
import ErgoProxy.Routing.Commuting
import ErgoProxy.Routing.Isolation
import ErgoProxy.Routing.Relay
import ErgoProxy.Routing.Emptiness
import ErgoProxy.Routing.Grounds
import ErgoProxy.Routing.LatencyStats
import ErgoProxy.Runtime.PeerTask
import ErgoProxy.Runtime.Session
import ErgoProxy.Runtime.System
import ErgoProxy.Runtime.SystemSteps
import ErgoProxy.Runtime.Service
import ErgoProxy.Runtime.EventOrder
import ErgoProxy.Runtime.Senders
import ErgoProxy.Runtime.CircularWait
import ErgoProxy.Runtime.InboundCap
import ErgoProxy.Runtime.Streams
import ErgoProxy.Runtime.WriteQueues
import ErgoProxy.Runtime.Traffic
import ErgoProxy.Runtime.Membership
import ErgoProxy.Runtime.Wire
import ErgoProxy.Runtime.RouterRuns
import ErgoProxy.Runtime.Progress
import ErgoProxy.Runtime.EndToEnd
import ErgoProxy.Runtime.OpenConnections
import ErgoProxy.Runtime.LightPeers
import ErgoProxy.Runtime.TableGrowth
import ErgoProxy.Runtime.OutboundManager
import ErgoProxy.Runtime.Keepalive
import ErgoProxy.Runtime.Lifecycle
import ErgoProxy.Runtime.Startup
