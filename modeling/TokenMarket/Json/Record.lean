import TokenMarket.Json.Tree

/-!
# Records in JSON

A record has a fixed list of member names.  It is read from an object,
where the names decide and unknown members are skipped, or from an array,
where the position decides.  In either form every member may be absent;
what that means is up to the record.

There are two sources.  A record in a text (`Tree.slots?`) must not give a
known member twice, and its array must not be longer than the record.  A
record in a value (`slots?`) cannot repeat a member any more; for its
array the same holds.
-/

namespace TokenMarket.Json

/-- The slots of an array: its items, and nothing for those it lacks. -/
def positional? {α : Type} (names : List String) (items : List α) :
    Option (List (Option α)) :=
  if items.length ≤ names.length then
    some (items.map some ++ List.replicate (names.length - items.length) none)
  else none

/-- The only member of a name, if there is one.  Fails when the name is
given twice. -/
def single? {α : Type} (members : List (String × α)) (name : String) : Option (Option α) :=
  match members.filter (·.1 == name) with
  | [] => some none
  | [(_, v)] => some (some v)
  | _ => none

namespace Tree

/-- The names of the members as texts.  A skipped member's name is checked
too, its content is not. -/
def named? (members : List (List Piece × Tree)) : Option (List (String × Tree)) :=
  members.mapM fun (name, t) => (Piece.text? name).map (·, t)

/-- The members of a record in a text, in the order of the names. -/
def slots? (names : List String) : Tree → Option (List (Option Tree))
  | .array items => positional? names items
  | .object members => do
    let members ← named? members
    names.mapM (single? members)
  | _ => none

end Tree

/-- The members of a record in a value, in the order of the names. -/
def slots? (names : List String) : Json → Option (List (Option Json))
  | .array items => positional? names items
  | .object members => some (names.map fun name => members.lookup name)
  | _ => none

/-- The value in a slot, if there is one. -/
def slotValue? (levels : Nat) : Option Tree → Option (Option Json)
  | none => some none
  | some t => (t.value? levels).map some

/-- A member that may be null: null counts as absent. -/
def present : Option Json → Option Json
  | some .null => none
  | slot => slot

end TokenMarket.Json
