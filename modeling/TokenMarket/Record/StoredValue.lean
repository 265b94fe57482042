import TokenMarket.Json.Record

/-!
# Stored values

What a dictionary of the contract holds under a key: the type of the
value, its bytes in hexadecimal text, and the value itself if the node can
show it.  Every member may be missing.
-/

namespace TokenMarket

/-- An entry of a dictionary. -/
structure StoredValue where
  /-- The type of the value, as the node describes it. -/
  type : Json
  /-- The bytes of the value, in hexadecimal text. -/
  bytes : String
  /-- The value as the node shows it. -/
  parsed : Json
deriving Repr

namespace StoredValue

/-- The names of the members, in the order of their positions. -/
def memberNames : List String := ["cl_type", "bytes", "parsed"]

/-- The entry with these members.  Only the bytes have to be of a certain
shape. -/
def ofSlots? : List (Option Json) → Option StoredValue
  | [type, bytes, parsed] =>
    match bytes with
    | none => some ⟨type.getD .null, "", parsed.getD .null⟩
    | some (.string s) => some ⟨type.getD .null, s, parsed.getD .null⟩
    | some _ => none
  | _ => none

/-- Reads an entry from a value. -/
def ofJson? (v : Json) : Option StoredValue :=
  (v.slots? memberNames).bind ofSlots?

/-- Reads an entry from a text. -/
def parse? (text : String) : Option StoredValue := do
  let tree ← Json.Tree.parse? text.toList
  let slots ← tree.slots? memberNames
  let slots ← slots.mapM (Json.slotValue? (Json.maxLevels - 1))
  ofSlots? slots

/-- The entry as a value. -/
def toJson (v : StoredValue) : Json :=
  .ofMembers [("cl_type", v.type), ("bytes", .string v.bytes), ("parsed", v.parsed)]

/-- An entry that is a text. -/
def ofText (text : String) : StoredValue :=
  ⟨.string "String", "", .string text⟩

/-- An entry of which only the bytes are known. -/
def ofBytes (hex : String) : StoredValue :=
  ⟨.null, hex, .null⟩

/-- An entry with a type and a value. -/
def ofValue (type : String) (parsed : Json) : StoredValue :=
  ⟨.string type, "", parsed⟩

end StoredValue

end TokenMarket
