import TokenMarket.Error
import TokenMarket.Hash
import TokenMarket.Json.Value
import TokenMarket.State.Node

/-!
# Questions to a remote node

A remote node takes its questions as JSON-RPC messages.  There is one kind
of message for each question that a `Node` answers, and each message has a
number that no other message to the node has.
-/

namespace TokenMarket.Rpc

/-- A question to a remote node. -/
inductive Query where
  | stateRoot
  | dictionaryItem (root : String) (contract : ContractHash) (dictionary key : String)
  | namedKey (root : String) (account : AccountHash) (path : List String)
deriving DecidableEq

namespace Query

/-- The method that answers the question. -/
def method : Query → String
  | stateRoot => "chain_get_state_root_hash"
  | dictionaryItem _ _ _ _ => "state_get_dictionary_item"
  | namedKey _ _ _ => "query_global_state"

/-- The parameters of the question. -/
def params : Query → Option Json
  | stateRoot => none
  | dictionaryItem root contract dictionary key =>
    some (.ofMembers
      [("state_root_hash", .string root),
        ("dictionary_identifier", .ofMembers
          [("ContractNamedKey", .ofMembers
            [("key", .string contract.formatted), ("dictionary_name", .string dictionary),
              ("dictionary_item_key", .string key)])])])
  | namedKey root account path =>
    some (.ofMembers
      [("state_identifier", .ofMembers [("StateRootHash", .string root)]),
        ("key", .string account.formatted), ("path", .array (path.map .string))])

/-- What is looked for, as a failure to find it names it.  A root is not
looked for anywhere. -/
def target? : Query → Option (String × String)
  | stateRoot => none
  | dictionaryItem _ _ dictionary key => some (dictionary, key)
  | namedKey _ account path => some (account.formatted, pathText path)

end Query

/-- A numbered question. -/
structure Message where
  id : Nat
  query : Query
deriving DecidableEq

/-- The message as it is sent. -/
def Message.toJson (msg : Message) : Json :=
  let params := match msg.query.params with
    | none => []
    | some v => [("params", v)]
  .ofMembers
    ([("jsonrpc", .string "2.0"), ("method", .string msg.query.method),
      ("id", .int msg.id)] ++ params)

/-- What became of a message. -/
inductive Outcome where
  /-- There was no answer in time. -/
  | timedOut
  /-- Nobody takes messages at the address. -/
  | unreachable
  /-- The exchange failed in another way. -/
  | broken (reason : String)
  /-- There was an answer. -/
  | response (status : Nat) (body : String)
deriving DecidableEq, Repr

/-- Carries messages to an address. -/
abbrev Transport (m : Type → Type) := (url : String) → Message → m Outcome

end TokenMarket.Rpc
