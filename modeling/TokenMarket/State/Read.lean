import TokenMarket.Hash
import TokenMarket.Json.Value
import TokenMarket.Record.Approved
import TokenMarket.Record.Request
import TokenMarket.Record.Token

/-!
# What can be read from the marketplace

A read is a question about the marketplace, and `Read.Answer` is the type
of its answer.  Three of the reads are composite: they follow a list of
ids and answer with each id and its record.
-/

namespace TokenMarket

/-- The lists of ids that an account has. -/
inductive AccountList where
  /-- Requests to the account as a producer. -/
  | producerRequests
  /-- Requests of the account as a publisher. -/
  | publisherRequests
  /-- Holdings of the account. -/
  | holders
  /-- Holdings that the account may sell as a publisher. -/
  | publisherApproved
  /-- Holdings that the account let others sell. -/
  | producerApproved
deriving DecidableEq, Repr

/-- A question about the marketplace. -/
inductive Read where
  | token (id : UInt64)
  | holder (id : UInt64)
  | request (id : UInt64)
  | approved (id : UInt64)
  | ids (list : AccountList) (account : AccountHash)
  | namedKey (account : AccountHash) (name : String)
  /-- All holdings of an account. -/
  | holdings (account : AccountHash)
  /-- All requests to an account. -/
  | incoming (account : AccountHash)
  /-- All requests of an account. -/
  | outgoing (account : AccountHash)
deriving DecidableEq

/-- The type of the answer. -/
abbrev Read.Answer : Read → Type
  | token _ => Token
  | holder _ => Holder
  | request _ => Request
  | approved _ => ApprovedHolding
  | ids _ _ => List UInt64
  | namedKey _ _ => Json
  | holdings _ => List (UInt64 × Holder)
  | incoming _ => List (UInt64 × Request)
  | outgoing _ => List (UInt64 × Request)

/-- Answers reads in a monad. -/
abbrev Reader (m : Type → Type) := (r : Read) → ExceptT Error m r.Answer

end TokenMarket
