import TokenMarket.Hash
import TokenMarket.Record.Fields

/-!
# Requests

With a request a publisher asks a producer for a part of a holding, and
names the commission that is expected for it.  Its record has five fields:
two numbers of 64 bits, a byte, and the accounts of producer and
publisher.
-/

namespace TokenMarket

/-- A publisher's request to a producer. -/
structure Request where
  holderId : UInt64
  amount : UInt64
  commission : UInt8
  producer : AccountHash
  publisher : AccountHash
deriving DecidableEq

namespace Request

/-- Reads an account field. -/
def account? (text : List Char) : Option AccountHash :=
  (Hash.parse .account (String.ofList text)).toOption

/-- Reads a request from its record.  The first field that cannot be read
is the one that is told. -/
def decode (text : String) : Except Error Request :=
  match Text.splitOn Fields.separator text.toList with
  | [holderId, amount, commission, producer, publisher] => do
    let holderId ← Fields.read "request" "holder_id" Numeral.readWord64? holderId
    let amount ← Fields.read "request" "amount" Numeral.readWord64? amount
    let commission ← Fields.read "request" "commission" Numeral.readByte? commission
    let producer ← Fields.read "request" "producer" account? producer
    let publisher ← Fields.read "request" "publisher" account? publisher
    return ⟨holderId, amount, commission, producer, publisher⟩
  | fields => .error (.fieldCountMismatch "request" 5 fields.length)

end Request

end TokenMarket
