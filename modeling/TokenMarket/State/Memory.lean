import TokenMarket.Record.Holder
import TokenMarket.Record.IdList
import TokenMarket.State.Node

/-!
# A node in memory

A node that holds what it was given and keeps a log of what it was asked.
It hands out the roots `root-1`, `root-2` and so on, and does not look at
the root of a question.  What was put last under a key is what the key
holds.

While the node is out of order every question fails, and is logged all the
same.  A root that was not handed out does not count.
-/

namespace TokenMarket

/-- A question that was asked. -/
inductive Memory.Call where
  | root
  | lookup (root dictionary key : String)
  | namedKey (account : AccountHash) (path : List String)
deriving DecidableEq

/-- The content of the node, and its log. -/
structure Memory where
  /-- What the dictionaries hold, the last entry first. -/
  items : List ((String × String) × StoredValue) := []
  /-- What the named keys stand for, the last entry first. -/
  namedKeys : List ((AccountHash × List String) × Json) := []
  /-- How many roots were handed out. -/
  roots : Nat := 0
  /-- The questions, in order. -/
  calls : List Memory.Call := []
  /-- Whether the node is out of order. -/
  failing : Bool := false

namespace Memory

/-! ## Filling the node -/

/-- Puts an entry into a dictionary. -/
def insert (s : Memory) (dictionary key : String) (value : StoredValue) : Memory :=
  { s with items := ((dictionary, key), value) :: s.items }

/-- Puts a text into a dictionary. -/
def insertText (s : Memory) (dictionary key text : String) : Memory :=
  s.insert dictionary key (.ofText text)

/-- Puts bytes into a dictionary. -/
def insertBytes (s : Memory) (dictionary key hex : String) : Memory :=
  s.insert dictionary key (.ofBytes hex)

/-- Puts ids into a dictionary. -/
def insertIds (s : Memory) (dictionary key : String) (ids : List UInt64) : Memory :=
  s.insert dictionary key (.ofValue "List<U64>" (IdList.encode ids))

/-- Makes a named key stand for a value. -/
def insertNamedKey (s : Memory) (account : AccountHash) (path : List String) (value : Json) :
    Memory :=
  { s with namedKeys := ((account, path), value) :: s.namedKeys }

/-! ## Asking the node -/

/-- The entry of a dictionary. -/
def item? (s : Memory) (dictionary key : String) : Option StoredValue :=
  s.items.lookup (dictionary, key)

/-- The value of a named key. -/
def namedKey? (s : Memory) (account : AccountHash) (path : List String) : Option Json :=
  s.namedKeys.lookup (account, path)

/-- The `n`-th root. -/
def rootName (n : Nat) : String :=
  "root-" ++ Numeral.decimal n

/-- Logs a question. -/
def log (s : Memory) (call : Call) : Memory :=
  { s with calls := s.calls ++ [call] }

/-- The failure of a node that is out of order. -/
def outOfOrder : Error := .nodeUnavailable "Mock failure"

/-- Logs a question and answers it from the content. -/
def ask {α : Type} (call : Call) (answer : Memory → Except Error α × Memory) :
    ExceptT Error (StateM Memory) α :=
  fun s =>
    let s := s.log call
    if s.failing then (.error outOfOrder, s) else answer s

/-- The node that the content answers for. -/
def node : Node (StateM Memory) where
  name := "mock-node"
  currentRoot := ask .root fun s =>
    (.ok (rootName (s.roots + 1)), { s with roots := s.roots + 1 })
  lookup root _ dictionary key := ask (.lookup root dictionary key) fun s =>
    match s.item? dictionary key with
    | some value => (.ok value, s)
    | none => (.error (.notFound dictionary key), s)
  namedKey _ account path := ask (.namedKey account path) fun s =>
    match s.namedKey? account path with
    | some value => (.ok value, s)
    | none => (.error (.notFound account.formatted (pathText path)), s)

/-- The dictionary entries that were asked for, in order. -/
def lookups (s : Memory) : List (String × String) :=
  s.calls.filterMap fun
    | .lookup _ dictionary key => some (dictionary, key)
    | _ => none

end Memory

end TokenMarket
