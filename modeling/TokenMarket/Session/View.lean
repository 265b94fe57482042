import TokenMarket.Identity
import TokenMarket.Json.Value
import TokenMarket.State.Read

/-!
# Views of records

What a session shows of a record: a JSON object of its fields.  A request
and an approved holding come with the id under which they were found.
Accounts are shown with the name of their identity if they have one.  A
price may be too large for a JSON number and is shown as a text.
-/

namespace TokenMarket.View

/-- An account, with its name if it has one. -/
def account (r : Registry) (h : AccountHash) : Json :=
  .string (r.describe h)

/-- A token. -/
def token (t : Token) : Json :=
  .ofMembers
    [("name", .string t.name), ("token_uri", .string t.tokenUri),
      ("checksum", .string t.checksum), ("price", .string (Numeral.decimal t.price.toNat)),
      ("commission", .ofByte t.commission)]

/-- A holding, with its token. -/
def holder (h : Holder) : Json :=
  .ofMembers
    [("remaining_amount", .ofWord h.record.remaining), ("amount", .ofWord h.record.amount),
      ("token_id", .ofWord h.record.tokenId), ("token", token h.token)]

/-- A request under its id. -/
def request (r : Registry) (id : UInt64) (q : Request) : Json :=
  .ofMembers
    [("request_id", .ofWord id), ("holder_id", .ofWord q.holderId), ("amount", .ofWord q.amount),
      ("comission", .ofByte q.commission), ("producer", account r q.producer),
      ("publisher", account r q.publisher)]

/-- An approved holding under its id. -/
def approved (r : Registry) (id : UInt64) (h : ApprovedHolding) : Json :=
  .ofMembers
    [("approved_id", .ofWord id), ("holder_id", .ofWord h.holderId), ("amount", .ofWord h.amount),
      ("owner", account r h.owner), ("publisher", account r h.publisher),
      ("token_id", .ofWord h.tokenId), ("percentage", .ofByte h.percentage)]

end TokenMarket.View
