import TokenMarket.Toml.Scalar
import TokenMarket.Toml.Text

/-!
# TOML documents

A document is a sequence of lines that matter: entries and headers.  A
header opens a section, and the entries up to the next header belong to
it.  `parse?` answers the members of the document, or nothing for a text
that is no document; why it is none is not kept.

Values are read by structural recursion over a fuel that the length of the
text bounds, because a value contains values.  Each step uses one unit and
reads at least one character every other step.
-/

namespace TokenMarket.Toml

mutual

/-- Reads a value with at most `depth` levels of arrays and inline
tables. -/
def value? : (fuel depth : Nat) → List Char → Option (Toml × List Char)
  | 0, _, _ => none
  | fuel + 1, depth, '[' :: cs => do
    if depth = 0 then none
    else
      let (items, rest) ← items? fuel (depth - 1) cs
      return (.array items, rest)
  | fuel + 1, depth, '\x7b' :: cs => do
    if depth = 0 then none
    else
      let (entries, rest) ← inlineEntries? fuel (depth - 1) cs
      let members ← addEntries? entries []
      return (.table .inline members, rest)
  | _ + 1, _, '"' :: cs => (string? ('"' :: cs)).map fun (s, rest) => (.string (String.ofList s), rest)
  | _ + 1, _, '\'' :: cs =>
    (string? ('\'' :: cs)).map fun (s, rest) => (.string (String.ofList s), rest)
  | _ + 1, _, cs => word? cs

/-- Reads the items of an array behind its bracket or behind a comma. -/
def items? : (fuel depth : Nat) → List Char → Option (List Toml × List Char)
  | 0, _, _ => none
  | fuel + 1, depth, cs =>
    match skipLines cs.length cs with
    | ']' :: rest => some ([], rest)
    | cs => do
      let (v, rest) ← value? fuel depth cs
      match skipLines rest.length rest with
      | ',' :: rest =>
        let (vs, rest) ← items? fuel depth rest
        return (v :: vs, rest)
      | ']' :: rest => return ([v], rest)
      | _ => none

/-- Reads the entries of an inline table behind its brace. -/
def inlineEntries? : (fuel depth : Nat) → List Char → Option (List Entry × List Char)
  | 0, _, _ => none
  | fuel + 1, depth, cs =>
    match skipSpace cs with
    | '\x7d' :: rest => some ([], rest)
    | cs => moreEntries? fuel depth cs

/-- Reads the entries of an inline table, of which there must be one. -/
def moreEntries? : (fuel depth : Nat) → List Char → Option (List Entry × List Char)
  | 0, _, _ => none
  | fuel + 1, depth, cs => do
    let (path, name, rest) ← key? cs
    match rest with
    | '=' :: rest =>
      let (v, rest) ← value? fuel depth (skipSpace rest)
      match skipSpace rest with
      | ',' :: rest =>
        let (entries, rest) ← moreEntries? fuel depth rest
        return ((path, name, v) :: entries, rest)
      | '\x7d' :: rest => return ([(path, name, v)], rest)
      | _ => none
    | _ => none

end

/-- A line that matters. -/
inductive Line where
  | entry (path : List String) (name : String) (value : Toml)
  | table (path : List String) (name : String)
  | tableOf (path : List String) (name : String)

/-- Reads a line behind its leading blanks, up to what may end it. -/
def line? : List Char → Option (Line × List Char)
  | '[' :: '[' :: cs => do
    let (path, name, rest) ← key? cs
    match rest with
    | ']' :: ']' :: rest => return (.tableOf path name, rest)
    | _ => none
  | '[' :: cs => do
    let (path, name, rest) ← key? cs
    match rest with
    | ']' :: rest => return (.table path name, rest)
    | _ => none
  | cs => do
    let (path, name, rest) ← key? cs
    match rest with
    | '=' :: rest =>
      let rest := skipSpace rest
      let (v, rest) ← value? (2 * rest.length + 2) maxDepth rest
      return (.entry path name v, rest)
    | _ => none

/-- Reads the lines that matter.  Every round ends a line. -/
def lines? : (fuel : Nat) → List Char → Option (List Line)
  | 0, cs => if cs.isEmpty then some [] else none
  | fuel + 1, cs =>
    match expressionEnd? cs with
    | some [] => some []
    | some rest => lines? fuel rest
    | none => do
      let (line, rest) ← line? (skipSpace cs)
      let rest ← expressionEnd? rest
      let lines ← lines? fuel rest
      return line :: lines

/-- The header that opens a section; none for the entries before the first
header. -/
inductive Header where
  | root
  | table (path : List String) (name : String)
  | tableOf (path : List String) (name : String)

/-- Adds a section to the document. -/
def addSection? (header : Header) (entries : List Entry) (root : Members) : Option Members :=
  match header with
  | .root => addEntries? entries root
  | .table path name => addTable? path name entries root
  | .tableOf path name => addToTables? path name entries root

/-- The members of the document with these lines.  The entries of the open
section are kept last first. -/
def assemble? (header : Header) (entries : List Entry) (root : Members) :
    List Line → Option Members
  | [] => addSection? header entries.reverse root
  | .entry path name v :: lines => assemble? header ((path, name, v) :: entries) root lines
  | .table path name :: lines => do
    let root ← addSection? header entries.reverse root
    assemble? (.table path name) [] root lines
  | .tableOf path name :: lines => do
    let root ← addSection? header entries.reverse root
    assemble? (.tableOf path name) [] root lines

/-- Drops a byte order mark. -/
def skipMark : List Char → List Char
  | '\uFEFF' :: cs => cs
  | cs => cs

/-- The members of a document. -/
def parse? (text : String) : Option Members := do
  let cs := skipMark text.toList
  let lines ← lines? (cs.length + 1) cs
  assemble? .root [] [] lines

end TokenMarket.Toml
