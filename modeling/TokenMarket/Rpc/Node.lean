import TokenMarket.Config.Basic
import TokenMarket.Rpc.Answer

/-!
# A remote node

A node behind an address.  Every question becomes one message, and the
messages are numbered from 1 over the life of the node.  The state of the
node is the number of the next message, over the monad of the transport.
-/

namespace TokenMarket.Rpc

variable {m : Type → Type} [Monad m]

/-- Sends a question under the next number. -/
def send (transport : Transport m) (url : String) (query : Query) : StateT Nat m Outcome := do
  let id ← get
  set (id + 1)
  transport url ⟨id, query⟩

/-- The node at the address of a configuration. -/
def node (config : NodeConfig) (transport : Transport m) : Node (StateT Nat m) where
  name := config.rpcUrl
  currentRoot := ExceptT.mk do
    let outcome ← send transport config.rpcUrl .stateRoot
    return rootOf config.rpcUrl outcome
  lookup root contract dictionary key := ExceptT.mk do
    let outcome ← send transport config.rpcUrl (.dictionaryItem root contract dictionary key)
    return itemOf root contract dictionary key config.rpcUrl outcome
  namedKey root account path := ExceptT.mk do
    let outcome ← send transport config.rpcUrl (.namedKey root account path)
    return namedKeyOf root account path config.rpcUrl outcome

/-- The number of the first message. -/
def firstId : Nat := 1

end TokenMarket.Rpc
