import TokenMarket.Record.IdList
import TokenMarket.State.Dictionary
import TokenMarket.State.Node

/-!
# Reads over a node

A repository answers the reads of the marketplace by asking a node.  Every
question to the node is asked of a root that was fetched for it alone, so
an answer is never older than its question, and no two parts of an answer
need come from one state.

A composite read asks in the order of its list and stops at the first
failure.
-/

namespace TokenMarket

/-- A node, and the contract whose dictionaries are meant. -/
structure Repository (m : Type → Type) where
  node : Node m
  contract : ContractHash

namespace Repository

variable {m : Type → Type} [Monad m] (r : Repository m)

/-- Looks a key up in the current state. -/
def lookup (dictionary key : String) : ExceptT Error m StoredValue := do
  let root ← r.node.currentRoot
  r.node.lookup root r.contract dictionary key

/-- The text of an entry that has to be a text. -/
def textOf (record : String) (value : StoredValue) : Except Error String :=
  match value.parsed.text? with
  | some text => .ok text
  | none => .error (.invalidField record "parsed" value.parsed.compact)

/-- Reads a token. -/
def token (id : UInt64) : ExceptT Error m Token := do
  let value ← r.lookup Dictionary.tokens (Dictionary.idKey id)
  let text ← textOf "token" value
  Token.decode text

/-- Reads a holding and the token that it is of.  If the holding cannot be
read, the token is not asked for. -/
def holder (id : UInt64) : ExceptT Error m Holder := do
  let value ← r.lookup Dictionary.holders (Dictionary.idKey id)
  let record ← HolderRecord.decode value.bytes
  let token ← r.token record.tokenId
  return ⟨record, token⟩

/-- Reads a request. -/
def request (id : UInt64) : ExceptT Error m Request := do
  let value ← r.lookup Dictionary.requests (Dictionary.idKey id)
  let text ← textOf "request" value
  Request.decode text

/-- Reads an approved holding. -/
def approved (id : UInt64) : ExceptT Error m ApprovedHolding := do
  let value ← r.lookup Dictionary.approved (Dictionary.idKey id)
  ApprovedHolding.decode value.bytes

/-- Reads a list of ids. -/
def ids (list : AccountList) (account : AccountHash) : ExceptT Error m (List UInt64) := do
  let value ← r.lookup (Dictionary.ofList list) (Dictionary.accountKey account)
  IdList.decode value.parsed

/-- Reads what a named key of an account stands for. -/
def namedKey (account : AccountHash) (name : String) : ExceptT Error m Json := do
  let root ← r.node.currentRoot
  r.node.namedKey root account [name]

/-- Reads the record of every id, in order. -/
def withIds {α : Type} (read : UInt64 → ExceptT Error m α) :
    List UInt64 → ExceptT Error m (List (UInt64 × α))
  | [] => return []
  | id :: rest => do
    let record ← read id
    let records ← withIds read rest
    return (id, record) :: records

/-- Reads a list of ids and the record of each. -/
def listed {α : Type} (list : AccountList) (account : AccountHash)
    (read : UInt64 → ExceptT Error m α) : ExceptT Error m (List (UInt64 × α)) := do
  let ids ← r.ids list account
  withIds read ids

/-- Answers a read. -/
def read : Reader m
  | .token id => r.token id
  | .holder id => r.holder id
  | .request id => r.request id
  | .approved id => r.approved id
  | .ids list account => r.ids list account
  | .namedKey account name => r.namedKey account name
  | .holdings account => r.listed .holders account r.holder
  | .incoming account => r.listed .producerRequests account r.request
  | .outgoing account => r.listed .publisherRequests account r.request

end Repository

end TokenMarket
