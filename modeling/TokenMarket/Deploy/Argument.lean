import TokenMarket.Hash
import TokenMarket.Json.Value

/-!
# Session arguments

A deploy hands named and typed values to the contract.  The type that the
chain is told follows from the value; an account and a contract are both
keys to it, and differ by the tag of their hash.
-/

namespace TokenMarket

/-- The value of a session argument. -/
inductive ArgumentValue where
  | string (s : String)
  | u8 (n : UInt8)
  | u64 (n : UInt64)
  | u256 (n : BitVec 256)
  | u512 (n : BitVec 512)
  | account (h : AccountHash)
  | contract (h : ContractHash)
deriving DecidableEq

namespace ArgumentValue

/-- What the chain calls the type of the value. -/
def typeName : ArgumentValue → String
  | string _ => "String"
  | u8 _ => "u8"
  | u64 _ => "u64"
  | u256 _ => "u256"
  | u512 _ => "u512"
  | account _ | contract _ => "key"

/-- The value as text. -/
def text : ArgumentValue → String
  | string s => s
  | u8 n => Numeral.decimal n.toNat
  | u64 n => Numeral.decimal n.toNat
  | u256 n => Numeral.decimal n.toNat
  | u512 n => Numeral.decimal n.toNat
  | account h => h.formatted
  | contract h => h.formatted

end ArgumentValue

/-- A named session argument. -/
structure Argument where
  name : String
  value : ArgumentValue
deriving DecidableEq

namespace Argument

/-- The argument in one word: name, type and value, the value in quotes. -/
def simple (a : Argument) : String :=
  a.name ++ ":" ++ a.value.typeName ++ "='" ++ a.value.text ++ "'"

/-- The argument as a record. -/
def toJson (a : Argument) : Json :=
  .ofMembers
    [("name", .string a.name), ("cl_type", .string a.value.typeName),
      ("value", .string a.value.text)]

/-- The value of the first argument of a name. -/
def find? (arguments : List Argument) (name : String) : Option ArgumentValue :=
  (arguments.find? (·.name == name)).map (·.value)

end Argument

end TokenMarket
