import TokenMarket.State.Read

/-!
# The dictionaries of the contract

The contract keeps its records in nine dictionaries.  Records go by their
id in decimal, lists by the bare digits of their account.  The names are
the contract's own, and one of them is spelled as the contract spells it.
-/

namespace TokenMarket.Dictionary

def requests : String := "request_objects"

def tokens : String := "metadatas"

def holders : String := "holders"

def approved : String := "approved"

/-- The dictionary that keeps a list for every account. -/
def ofList : AccountList → String
  | .producerRequests => "producer_requests"
  | .publisherRequests => "publiser_requests"
  | .holders => "owners"
  | .publisherApproved => "publishers_approved"
  | .producerApproved => "producers_approved"

/-- The key of a record. -/
def idKey (id : UInt64) : String :=
  Numeral.decimal id.toNat

/-- The key of an account's list. -/
def accountKey (account : AccountHash) : String :=
  account.hex

end TokenMarket.Dictionary
