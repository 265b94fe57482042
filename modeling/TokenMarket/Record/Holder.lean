import TokenMarket.Record.Bytes

/-!
# Holder records

A holder record says how much of a token an owner got, how much of it is
left, and which token it is: three words of 64 bits.
-/

namespace TokenMarket

/-- The stored part of a holding. -/
structure HolderRecord where
  remaining : UInt64
  amount : UInt64
  tokenId : UInt64
deriving DecidableEq, Repr

namespace HolderRecord

/-- The number of bytes of the layout. -/
def size : Nat := 24

/-- The bytes of the record, in hexadecimal text. -/
def encode (r : HolderRecord) : String :=
  String.ofList
    (Hex.encode (Bytes.ofWord r.remaining ++ Bytes.ofWord r.amount ++ Bytes.ofWord r.tokenId))

/-- Reads the record from hexadecimal text. -/
def decode (text : String) : Except Error HolderRecord := do
  let bytes ← Bytes.ofHex "holder" text
  if bytes.length < size then
    .error (.truncatedRecord "holder" size bytes.length)
  else
    .ok ⟨Bytes.wordAt bytes 0, Bytes.wordAt bytes 8, Bytes.wordAt bytes 16⟩

end HolderRecord

end TokenMarket
