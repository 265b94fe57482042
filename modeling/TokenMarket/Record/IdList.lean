import TokenMarket.Error
import TokenMarket.Json.Printer

/-!
# Lists of ids

An account's ids are a JSON array.  An id is a number of 64 bits, written
as a number or as a text of its digits.  The first item that is neither
fails the list, and is shown; a value that is no array is shown whole.
-/

namespace TokenMarket.IdList

/-- The id that an item stands for. -/
def id? : Json → Option UInt64
  | .int n => Numeral.toWord64? n
  | .string s => Numeral.readWord64? s.toList
  | _ => none

/-- The complaint about a value that is no list, or about an item that is
no id. -/
def invalid (v : Json) : Error :=
  .invalidField "id list" "parsed" v.compact

/-- Reads the items in order. -/
def decodeItems : List Json → Except Error (List UInt64)
  | [] => .ok []
  | v :: rest =>
    match id? v with
    | none => .error (invalid v)
    | some n => (decodeItems rest).map (n :: ·)

/-- Reads a list of ids. -/
def decode (v : Json) : Except Error (List UInt64) :=
  match v.items? with
  | some items => decodeItems items
  | none => .error (invalid v)

/-- The array of the ids, as numbers. -/
def encode (ids : List UInt64) : Json :=
  .array (ids.map .ofWord)

end TokenMarket.IdList
