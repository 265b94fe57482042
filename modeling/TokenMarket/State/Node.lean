import TokenMarket.Error
import TokenMarket.Hash
import TokenMarket.Record.StoredValue

/-!
# Nodes

A node answers three questions about the state of the chain: which state
is the current one, what a dictionary of the contract holds in a state,
and what an account's named key stands for in a state.  A state goes by
its root, a text that only the node understands.

A node is three functions in a monad.  In `State/Memory` the monad is a
state, and in `Rpc/Node` it is whatever carries requests.  `State/Repository`
builds the reads of the marketplace on any node, so what holds of the reads
can be said once for all nodes.
-/

namespace TokenMarket

/-- What can be asked of a node. -/
structure Node (m : Type → Type) where
  /-- What the node is called in messages. -/
  name : String
  /-- The root of the current state. -/
  currentRoot : ExceptT Error m String
  /-- What a dictionary of a contract holds under a key. -/
  lookup : (root : String) → (contract : ContractHash) → (dictionary key : String) →
    ExceptT Error m StoredValue
  /-- What the path of a named key leads to. -/
  namedKey : (root : String) → (account : AccountHash) → (path : List String) →
    ExceptT Error m Json

/-- The text of a path. -/
def pathText (path : List String) : String :=
  "/".intercalate path

end TokenMarket
