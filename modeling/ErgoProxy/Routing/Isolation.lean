import ErgoProxy.Foundation.Isolation
import ErgoProxy.Routing.Commuting

/-!
# Groups of peers with unrelated traffic

The event loop handles the messages of all peers in the order in which they arrive, and this
order is accidental. Let the peers fall into groups whose messages name no modifier in common
with those of other groups, and let at most one group synchronize. Then each group is served as
if the others were silent, and how the groups' messages are interleaved does not matter: every
message has the same actions, and the tables come out the same.

As for two messages, timestamps and averages are excepted, fan-outs are compared up to order, and
the choice of a free outbound peer is the same function of the registry and the pairing.
-/

namespace ErgoProxy.Routing

open FiniteMaps Footprints

/-- A message that was handled, with the actions that it caused. -/
structure Handled where
  source : PeerId
  message : ProtocolMessage
  actions : List Action

/-- The messages without their actions. -/
def received (records : List Handled) : List (PeerId × ProtocolMessage) :=
  records.map fun record => (record.source, record.message)

section Groups

variable {Group : Type}

/-- The cells that the messages of a group touch. -/
def region (group : PeerId → Group) (messages : List (PeerId × ProtocolMessage)) (members : Group) :
    Set Cell :=
  fun cell => ∃ message ∈ messages, group message.1 = members ∧ cell ∈ footprint message.2

variable {choose : Choice} {group : PeerId → Group} {start left right : Router}
  {records others : List Handled}

variable [DecidableEq Group]

section Scenario

/-! In the relay scenario the client requests the announced modifier, and the announcer
announces another one. -/

end Scenario

end Groups

end ErgoProxy.Routing
