import TokenMarket.Hash
import TokenMarket.Record.Bytes

/-!
# Approved holdings

An approved holding is a part of a holding that its owner lets a publisher
sell.  Its record is two words, the two accounts, a word and a byte.
-/

namespace TokenMarket

/-- A part of a holding that is approved for sale. -/
structure ApprovedHolding where
  holderId : UInt64
  amount : UInt64
  owner : AccountHash
  publisher : AccountHash
  tokenId : UInt64
  percentage : UInt8
deriving DecidableEq

namespace ApprovedHolding

/-- The number of bytes of the layout. -/
def size : Nat := 89

/-- The bytes of the record, in hexadecimal text. -/
def encode (r : ApprovedHolding) : String :=
  String.ofList (Hex.encode
    (Bytes.ofWord r.holderId ++ Bytes.ofWord r.amount ++ r.owner.bytes
      ++ r.publisher.bytes ++ Bytes.ofWord r.tokenId ++ [r.percentage]))

/-- The account at a position of a long enough record. -/
def accountAt (bytes : List UInt8) (position : Nat) (h : position + 32 ≤ bytes.length) :
    AccountHash :=
  ⟨(bytes.drop position).take 32, by simp; omega⟩

/-- Reads the record from hexadecimal text. -/
def decode (text : String) : Except Error ApprovedHolding := do
  let bytes ← Bytes.ofHex "approved" text
  if h : bytes.length < size then
    .error (.truncatedRecord "approved" size bytes.length)
  else
    have hsize : 89 ≤ bytes.length := Nat.le_of_not_lt h
    .ok {
      holderId := Bytes.wordAt bytes 0
      amount := Bytes.wordAt bytes 8
      owner := accountAt bytes 16 (by omega)
      publisher := accountAt bytes 48 (by omega)
      tokenId := Bytes.wordAt bytes 80
      percentage := bytes[88] }

end ApprovedHolding

end TokenMarket
