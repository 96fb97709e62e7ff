import ErgoProxy.Routing.Grounds
import ErgoProxy.Runtime.Wire

/-!
# Connections that stay open

A connection is open for us while the sender is in the map and the writer has not ended. As long
as it is open nothing that is to be sent to it is lost: the sending tasks put everything into the
queue, and the writer writes everything that the queue took. So once nothing is waiting any more,
all that the router has emitted in the meantime can be read from the bytes handed to the socket, in
order, and with it all that the messages of others owed to this peer.

Nothing of the kind holds of a connection that is opened or closed in the meantime: what comes
before it is open is discarded, and what is waiting when it is closed is lost.
-/

namespace ErgoProxy.Runtime

open ErgoProxy.Frame FiniteMaps Routing Runs Session

variable {config : Config} {blake2b256 : Bytes → Vector UInt8 32} {start sys after : System}
  {label : Label} {trace earlier later : List (Transition System Label)} {peer : PeerId}

section Window

variable (run : TracedRun config blake2b256 earlier start) (opened : start.gate peer = .opened)
  (more : Run start (Traced (Step config blake2b256)) later sys) (still : sys.gate peer = .opened)
include run opened more still

end Window

end ErgoProxy.Runtime
