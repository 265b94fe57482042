/-!
# TOML values

A value of a TOML document.  Floats and dates have to be well written, and
that is all that is kept of them: no setting of this client is one.

A table remembers how it came about, because that decides what a later
line of the document may still add to it.
-/

namespace TokenMarket

/-- How a table came about. -/
inductive Toml.Origin where
  /-- By a header of its own, or as the document itself. -/
  | header
  /-- As a parent that a header mentions in passing. -/
  | implied
  /-- By a dotted key. -/
  | dotted
  /-- Between braces. -/
  | inline
deriving DecidableEq, Repr

/-- A value of a TOML document. -/
inductive Toml where
  | string (s : String)
  | integer (n : Int)
  | float
  | boolean (b : Bool)
  | date
  | array (items : List Toml)
  | table (origin : Toml.Origin) (members : List (String × Toml))
  /-- An array of tables, each by a header of its own. -/
  | tables (items : List (List (String × Toml)))
deriving Repr, Inhabited

namespace Toml

/-- The members of a table, in the order in which they were given. -/
abbrev Members := List (String × Toml)

/-- The member of a name. -/
def member? (members : Members) (name : String) : Option Toml :=
  members.lookup name

/-- Puts a value in the place of the member of a name, or at the end. -/
def setMember (name : String) (value : Toml) : Members → Members
  | [] => [(name, value)]
  | (n, v) :: rest => if n = name then (n, value) :: rest else (n, v) :: setMember name value rest

/-- Adds a member, unless there is one of the name. -/
def addMember? (name : String) (value : Toml) (members : Members) : Option Members :=
  match member? members name with
  | some _ => none
  | none => some (members ++ [(name, value)])

/-! ## Tables at the end of a path -/

/-- Changes the table at the end of a path.  A table that is missing on
the way is made, with the origin `made`.  An array of tables stands for its
last table.  The path must not lead through any other value, nor through a
table that `closed` rules out. -/
def change? (made : Origin) (closed : Origin → Bool)
    (f : Origin → Members → Option Members) :
    (path : List String) → Origin → Members → Option Members
  | [], origin, members => f origin members
  | name :: path, _, members =>
    match member? members name with
    | none => do
      let inner ← change? made closed f path made []
      return members ++ [(name, .table made inner)]
    | some (.table origin inner) =>
      if closed origin then none
      else do
        let inner ← change? made closed f path origin inner
        return setMember name (.table origin inner) members
    | some (.tables items) =>
      match items.reverse with
      | [] => none
      | last :: before => do
        let last ← change? made closed f path .header last
        return setMember name (.tables (last :: before).reverse) members
    | some _ => none

/-- Adds the value of a key, which may be dotted.  The dots only lead
through tables that dots made, or that headers mention in passing; the
table that gets the value must be made by dots, if there are any. -/
def addEntry? (path : List String) (name : String) (value : Toml) (members : Members) :
    Option Members :=
  change? .dotted (fun origin => origin == .header || origin == .inline)
    (fun origin inner =>
      if path = [] ∨ origin = .dotted then addMember? name value inner else none)
    path .header members

/-- A key and its value: the parts before the last dot, the last part, and
the value. -/
abbrev Entry := List String × String × Toml

/-- Adds entries in order. -/
def addEntries? (entries : List Entry) (members : Members) : Option Members :=
  entries.foldlM (fun ms (path, name, value) => addEntry? path name value ms) members

/-- Adds a table by its header.  A table that was only mentioned in passing
gets its own header now; any other table or value of the name is in the
way. -/
def addTable? (path : List String) (name : String) (entries : List Entry) (root : Members) :
    Option Members :=
  change? .implied (· == .inline)
    (fun _ inner =>
      match member? inner name with
      | none => do
        let members ← addEntries? entries []
        return inner ++ [(name, .table .header members)]
      | some (.table .implied members) => do
        let members ← addEntries? entries members
        return setMember name (.table .header members) inner
      | some _ => none)
    path .header root

/-- Adds one table to an array of tables. -/
def addToTables? (path : List String) (name : String) (entries : List Entry) (root : Members) :
    Option Members :=
  change? .implied (· == .inline)
    (fun _ inner =>
      match member? inner name with
      | none => do
        let members ← addEntries? entries []
        return inner ++ [(name, .tables [members])]
      | some (.tables items) => do
        let members ← addEntries? entries []
        return setMember name (.tables (items ++ [members])) inner
      | some _ => none)
    path .header root

end Toml

end TokenMarket
