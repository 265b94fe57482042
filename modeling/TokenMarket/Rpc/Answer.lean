import TokenMarket.Rpc.Envelope
import TokenMarket.Rpc.Query
import TokenMarket.Rpc.Status

/-!
# What an answer means

From what became of a message to what was asked for.  The rules tell four
things apart: the node could not be asked, it refused, it holds nothing
under the key, and it answered with something else.

* An error in the envelope decides, whatever the status is.
* Without one, only a status of success counts.
* A root that cannot be had for a malformed answer is a node that cannot
  be asked, because without a root there is nothing to ask next.

All of this is a function of the outcome alone.
-/

namespace TokenMarket.Rpc

namespace Query

/-- The failure that an error in the envelope stands for. -/
def refusal (q : Query) (e : RemoteError) : Error :=
  match q.target? with
  | some (dictionary, key) =>
    if e.saysMissing then .notFound dictionary key else .nodeRejected e.code e.message
  | none => .nodeRejected e.code e.message

/-- The result in the body of an answer. -/
def bodyResult (q : Query) (status : Nat) (body : String) : Except Error Json :=
  let failed : Error := .nodeUnavailable (q.method ++ ": HTTP " ++ statusText status)
  match Envelope.parse? body with
  | none =>
    if isSuccess status then
      .error (.malformedResponse (q.method ++ ": not a JSON-RPC envelope: <json error>"))
    else .error failed
  | some ⟨_, some e⟩ => .error (q.refusal e)
  | some ⟨result, none⟩ =>
    if isSuccess status then
      match result with
      | some v => .ok v
      | none => .error (.malformedResponse (q.method ++ ": missing result"))
    else .error failed

/-- The result of a question that was sent to `url`. -/
def result (q : Query) (url : String) : Outcome → Except Error Json
  | .timedOut => .error (.nodeUnavailable (q.method ++ " timed out"))
  | .unreachable => .error (.nodeUnavailable ("cannot connect to " ++ url))
  | .broken reason => .error (.nodeUnavailable reason)
  | .response status body => q.bodyResult status body

/-- The stored value in a result.  It has to be an object. -/
def storedValue (q : Query) (v : Json) : Except Error Json :=
  match v.get? "stored_value" with
  | some stored =>
    if stored.isObject then .ok stored
    else .error (.malformedResponse (q.method ++ ": missing result.stored_value"))
  | none => .error (.malformedResponse (q.method ++ ": missing result.stored_value"))

end Query

/-- A malformed answer counts as no answer. -/
def withoutRoot : Error → Error
  | .malformedResponse reason => .nodeUnavailable reason
  | e => e

/-- The root in a result. -/
def rootIn? (v : Json) : Option String :=
  match v.get? "state_root_hash" with
  | some (.string root) => if root = "" then none else some root
  | _ => none

/-- The root that a node answered with. -/
def rootOf (url : String) (outcome : Outcome) : Except Error String :=
  match Query.stateRoot.result url outcome with
  | .error e => .error (withoutRoot e)
  | .ok v =>
    match rootIn? v with
    | some root => .ok root
    | none => .error (.nodeUnavailable "no state_root_hash in response")

/-- The dictionary entry that a node answered with. -/
def itemOf (root : String) (contract : ContractHash) (dictionary key url : String)
    (outcome : Outcome) : Except Error StoredValue := do
  let query := Query.dictionaryItem root contract dictionary key
  let v ← query.result url outcome
  let stored ← query.storedValue v
  match stored.get? "CLValue" with
  | none =>
    .error (.malformedResponse (dictionary ++ "[" ++ key ++ "]: stored value is not a CLValue"))
  | some v =>
    match StoredValue.ofJson? v with
    | some value => .ok value
    | none => .error (.malformedResponse (dictionary ++ "[" ++ key ++ "]: <json error>"))

/-- The value of a named key that a node answered with. -/
def namedKeyOf (root : String) (account : AccountHash) (path : List String) (url : String)
    (outcome : Outcome) : Except Error Json := do
  let query := Query.namedKey root account path
  let v ← query.result url outcome
  query.storedValue v

end TokenMarket.Rpc
