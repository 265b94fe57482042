import TokenMarket.Json.Token

/-!
# JSON texts as trees

A tree is a JSON text without its blanks: numbers and strings are kept as
they were written, and an object keeps every member in order, repeated
names included.  `Tree.parse?` checks the grammar and nothing more.  What
is skipped by a reader of records only has to get this far.

`Tree.value?` says what a tree means.  It refuses numbers that are too
large, strings with half a surrogate pair, and arrays and objects that are
nested deeper than allowed.

The parser walks the tokens once, with a stack of what is still open.  It
is a structural recursion over the tokens, so no bound on the nesting is
needed to see that it ends.
-/

namespace TokenMarket.Json

/-- The structure of a JSON text. -/
inductive Tree where
  | null
  | bool (b : Bool)
  | number (t : NumberText)
  | string (pieces : List Piece)
  | array (items : List Tree)
  | object (members : List (List Piece × Tree))
deriving Repr, Inhabited

namespace Tree

/-! ## From tokens to a tree -/

/-- An array or object that is still open, with what has been read of it,
the last first.  The name is that of the member whose value is due. -/
inductive Frame where
  | array (items : List Tree)
  | object (members : List (List Piece × Tree)) (name : List Piece)

/-- What has to come next. -/
inductive Due where
  /-- A value. -/
  | value
  /-- The first item of an array, or its end. -/
  | firstItem
  /-- The first name of an object, or its end. -/
  | firstName
  /-- A name, behind the members read so far. -/
  | name (members : List (List Piece × Tree))
  /-- The colon behind a name. -/
  | colon (members : List (List Piece × Tree)) (name : List Piece)
  /-- What may follow a value that has ended. -/
  | after (t : Tree)

/-- Builds the tree of the tokens. -/
def build : Due → List Frame → List Token → Option Tree
  | .after t, [], [] => some t
  | .after t, .array items :: outer, .comma :: ts => build .value (.array (t :: items) :: outer) ts
  | .after t, .array items :: outer, .closeArray :: ts =>
    build (.after (.array (t :: items).reverse)) outer ts
  | .after t, .object members name :: outer, .comma :: ts =>
    build (.name ((name, t) :: members)) outer ts
  | .after t, .object members name :: outer, .closeObject :: ts =>
    build (.after (.object ((name, t) :: members).reverse)) outer ts
  | .firstItem, .array _ :: outer, .closeArray :: ts => build (.after (.array [])) outer ts
  | .firstName, outer, .closeObject :: ts => build (.after (.object [])) outer ts
  | .firstName, outer, .string name :: ts => build (.colon [] name) outer ts
  | .name members, outer, .string name :: ts => build (.colon members name) outer ts
  | .colon members name, outer, .colon :: ts => build .value (.object members name :: outer) ts
  | .value, outer, t :: ts | .firstItem, outer, t :: ts =>
    match t with
    | .null => build (.after .null) outer ts
    | .bool b => build (.after (.bool b)) outer ts
    | .number n => build (.after (.number n)) outer ts
    | .string s => build (.after (.string s)) outer ts
    | .openArray => build .firstItem (.array [] :: outer) ts
    | .openObject => build .firstName outer ts
    | _ => none
  | _, _, _ => none

/-- The tree of a JSON text. -/
def parse? (cs : List Char) : Option Tree :=
  (Token.scan? cs).bind (build .value [])

/-! ## What a tree means -/

mutual

/-- The value of a tree with at most so many levels of arrays and
objects. -/
def value? (levels : Nat) : Tree → Option Json
  | null => some .null
  | bool b => some (.bool b)
  | number t => t.value?
  | string pieces => (Piece.text? pieces).map .string
  | array items => if levels = 0 then none else (values? (levels - 1) items).map .array
  | object members =>
    if levels = 0 then none else (memberValues? (levels - 1) members).map ofMembers

/-- The values of the items of an array. -/
def values? (levels : Nat) : List Tree → Option (List Json)
  | [] => some []
  | t :: rest => do
    let v ← value? levels t
    let vs ← values? levels rest
    return v :: vs

/-- The members of an object, in the order in which they are written. -/
def memberValues? (levels : Nat) : List (List Piece × Tree) → Option (List (String × Json))
  | [] => some []
  | (name, t) :: rest => do
    let name ← Piece.text? name
    let v ← value? levels t
    let vs ← memberValues? levels rest
    return (name, v) :: vs

end

end Tree

/-- How deep the arrays and objects of a value may be nested. -/
def maxLevels : Nat := 127

/-- The value of a JSON text. -/
def parse? (text : String) : Option Json :=
  (Tree.parse? text.toList).bind (Tree.value? maxLevels)

end TokenMarket.Json
