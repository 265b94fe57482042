import TokenMarket.Error
import TokenMarket.Json.Record
import TokenMarket.Json.Printer

/-!
# Token metadata

What a new token is minted from: its name, and the address and checksum of
its content.  It is read from a JSON record and written as one.  All three
members are required, and they are texts.
-/

namespace TokenMarket

/-- What a token says about itself. -/
structure Metadata where
  name : String
  tokenUri : String
  checksum : String
deriving DecidableEq, Repr

namespace Metadata

/-- The names of the members, in the order of their positions. -/
def memberNames : List String := ["name", "token_uri", "checksum"]

/-- The three texts, if the members are there and are texts. -/
def ofSlots? : List (Option Json) → Option Metadata
  | [some (.string name), some (.string tokenUri), some (.string checksum)] =>
    some ⟨name, tokenUri, checksum⟩
  | _ => none

/-- Reads metadata from a text, if it is a record of this kind. -/
def parse? (text : String) : Option Metadata := do
  let tree ← Json.Tree.parse? text.toList
  let slots ← tree.slots? memberNames
  let slots ← slots.mapM (Json.slotValue? (Json.maxLevels - 1))
  ofSlots? slots

/-- Reads metadata from a text. -/
def parse (text : String) : Except Error Metadata :=
  match parse? text with
  | some m => .ok m
  | none => .error (.invalidArgument "metadata" "<json error>")

/-- The record with the members in order of their positions. -/
def literal (m : Metadata) : String :=
  (Json.object
    [("name", .string m.name), ("token_uri", .string m.tokenUri),
      ("checksum", .string m.checksum)]).compact

end Metadata

end TokenMarket
