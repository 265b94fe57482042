import TokenMarket.Record.Fields
import TokenMarket.Record.Holder
import TokenMarket.Text.Numeral

/-!
# Tokens

A token's record has five fields: its name, the address and the checksum
of its content, its price and the commission of its producer.  The three
texts are taken as they are.  The price is a number of 256 bits and the
commission a byte.

The price's digits may be missing altogether, which is a price of 0.  The
commission needs a digit.
-/

namespace TokenMarket

/-- A token that can be held. -/
structure Token where
  name : String
  tokenUri : String
  checksum : String
  price : BitVec 256
  commission : UInt8
deriving DecidableEq, Repr

/-- A holding together with the token that is held. -/
structure Holder where
  record : HolderRecord
  token : Token
deriving DecidableEq, Repr

namespace Token

/-- The record of the token. -/
def encode (t : Token) : String :=
  String.ofList (Fields.join
    [t.name.toList, t.tokenUri.toList, t.checksum.toList,
      Numeral.digits t.price.toNat, Numeral.digits t.commission.toNat])

/-- Reads a token from its record. -/
def decode (text : String) : Except Error Token :=
  match Text.splitOn Fields.separator text.toList with
  | [name, tokenUri, checksum, price, commission] => do
    let price ← Fields.read "token" "price" Numeral.readWord256? price
    let commission ← Fields.read "token" "commission" Numeral.readByte? commission
    return ⟨String.ofList name, String.ofList tokenUri, String.ofList checksum, price, commission⟩
  | fields => .error (.fieldCountMismatch "token" 5 fields.length)

end Token

end TokenMarket
