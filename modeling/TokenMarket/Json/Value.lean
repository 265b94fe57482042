import TokenMarket.Json.Binary64

/-!
# JSON values

The seven shapes of a value.  A number that was written as an integer and
fits 64 bits stays an exact integer (`int`); every other number is in
binary floating point (`real`).

An object that was read, or built by `ofMembers`, holds its members in
ascending order of their names, each name once; of a repeated name the
last member wins.  `object` itself does not sort, so that a record can be
written in an order of its own.
-/

namespace TokenMarket

/-- A JSON value. -/
inductive Json where
  | null
  | bool (b : Bool)
  | int (n : Int)
  | real (x : Binary64)
  | string (s : String)
  | array (items : List Json)
  | object (members : List (String × Json))
deriving Repr, Inhabited

namespace Json

/-- Puts a member in its place, instead of one of the same name. -/
def insertMember (name : String) (value : Json) :
    List (String × Json) → List (String × Json)
  | [] => [(name, value)]
  | (n, v) :: rest =>
    if name = n then (name, value) :: rest
    else if name < n then (name, value) :: (n, v) :: rest
    else (n, v) :: insertMember name value rest

/-- An object of the members; the last of a repeated name wins. -/
def ofMembers (members : List (String × Json)) : Json :=
  .object (members.foldl (fun ms (n, v) => insertMember n v ms) [])

/-- The member of an object. -/
def get? : Json → (name : String) → Option Json
  | object members, name => members.lookup name
  | _, _ => none

/-- The text of a string value. -/
def text? : Json → Option String
  | string s => some s
  | _ => none

/-- The items of an array. -/
def items? : Json → Option (List Json)
  | array items => some items
  | _ => none

/-- The members of an object. -/
def members? : Json → Option (List (String × Json))
  | object members => some members
  | _ => none

def isObject (v : Json) : Bool := v.members?.isSome

/-- A 64-bit word as a value. -/
def ofWord (n : UInt64) : Json := .int n.toNat

/-- A byte as a value. -/
def ofByte (n : UInt8) : Json := .int n.toNat

mutual

/-- Whether `test` holds of a string value or of a member's name, at any
depth. -/
def anyText (test : String → Bool) : Json → Bool
  | string s => test s
  | array items => anyTextItem test items
  | object members => anyTextMember test members
  | null | bool _ | int _ | real _ => false

/-- `anyText` for the items of an array. -/
def anyTextItem (test : String → Bool) : List Json → Bool
  | [] => false
  | v :: rest => anyText test v || anyTextItem test rest

/-- `anyText` for the members of an object. -/
def anyTextMember (test : String → Bool) : List (String × Json) → Bool
  | [] => false
  | (name, v) :: rest => test name || anyText test v || anyTextMember test rest

end

end Json

end TokenMarket
