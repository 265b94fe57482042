import TokenMarket.Text.Hex

/-!
# Blanks, comments and strings of TOML

A line of a TOML document ends in LF or CR LF.  A control character other
than the tab has no place in a document, not even in a comment.

Strings come in four kinds: with escapes or literal, on one line or on
several.  In a string on several lines a line end is one LF whatever it
was, a line end right behind the opening quotes is dropped, and one or two
quotes may stand right before the closing ones.
-/

namespace TokenMarket.Toml

/-- Characters that may occur in a comment or string. -/
def isText (c : Char) : Bool :=
  c == '\t' || (0x20 ≤ c.toNat && c.toNat != 0x7F)

/-- The blanks within a line. -/
def isSpace (c : Char) : Bool :=
  c == ' ' || c == '\t'

/-- Drops blanks. -/
def skipSpace (cs : List Char) : List Char :=
  cs.dropWhile isSpace

/-- Drops a line end. -/
def lineEnd? : List Char → Option (List Char)
  | '\n' :: rest => some rest
  | '\r' :: '\n' :: rest => some rest
  | _ => none

/-- Drops a comment, if there is one. -/
def skipComment : List Char → List Char
  | '#' :: rest => rest.dropWhile isText
  | cs => cs

/-- Drops blanks, comments and line ends.  A comment has to end with its
line. -/
def skipLines : (fuel : Nat) → List Char → List Char
  | 0, cs => cs
  | fuel + 1, cs =>
    match lineEnd? (skipComment (skipSpace cs)) with
    | some rest => skipLines fuel rest
    | none => skipSpace cs

/-- The end of an expression: blanks, a comment, and the end of the line or
of the document. -/
def expressionEnd? (cs : List Char) : Option (List Char) :=
  match skipComment (skipSpace cs) with
  | [] => some []
  | cs => lineEnd? cs

/-! ## Strings -/

/-- A character in front of the rest of a string. -/
def addChar (c : Option Char) (rest : Option (List Char × List Char)) :
    Option (List Char × List Char) :=
  match c, rest with
  | some c, some (s, out) => some (c :: s, out)
  | _, _ => none

/-- The character of a one-letter escape. -/
def escape? : Char → Option Char
  | 'b' => some '\x08'
  | 't' => some '\t'
  | 'n' => some '\n'
  | 'f' => some '\x0c'
  | 'r' => some '\r'
  | '"' => some '"'
  | '\\' => some '\\'
  | _ => none

/-- The character whose code the digits are. -/
def coded? (digits : List Char) : Option Char := do
  let values ← digits.mapM Hex.digitValue?
  let code := values.foldl (fun n d => 16 * n + d) 0
  if code.isValidChar then some (Char.ofNat code) else none

/-- Reads a string with escapes on one line, behind its opening quote. -/
def basic? : List Char → Option (List Char × List Char)
  | [] => none
  | '"' :: rest => some ([], rest)
  | '\\' :: 'u' :: a :: b :: c :: d :: rest => addChar (coded? [a, b, c, d]) (basic? rest)
  | '\\' :: 'U' :: a :: b :: c :: d :: e :: f :: g :: h :: rest =>
    addChar (coded? [a, b, c, d, e, f, g, h]) (basic? rest)
  | '\\' :: e :: rest => addChar (escape? e) (basic? rest)
  | c :: rest => if isText c && c != '\\' then addChar (some c) (basic? rest) else none

/-- Reads a literal string on one line, behind its opening quote. -/
def literal? : List Char → Option (List Char × List Char)
  | [] => none
  | '\'' :: rest => some ([], rest)
  | c :: rest => if isText c then addChar (some c) (literal? rest) else none

/-- What three closing quotes leave: up to two more quotes belong to the
string. -/
def closing (quote : Char) : List Char → List Char × List Char
  | a :: b :: rest =>
    if a = quote then
      if b = quote then ([quote, quote], rest) else ([quote], b :: rest)
    else ([], a :: b :: rest)
  | [a] => if a = quote then ([quote], []) else ([], [a])
  | [] => ([], [])

/-- Whether only blanks come before the end of the line. -/
def endsLine (cs : List Char) : Bool :=
  (lineEnd? (skipSpace cs)).isSome

/-- Reads a string with escapes on several lines, behind its opening
quotes.  While `joining`, blanks and line ends are dropped. -/
def multiBasic? (joining : Bool) : List Char → Option (List Char × List Char)
  | [] => none
  | '"' :: '"' :: '"' :: rest => some (closing '"' rest)
  | '\\' :: 'u' :: a :: b :: c :: d :: rest =>
    addChar (coded? [a, b, c, d]) (multiBasic? false rest)
  | '\\' :: 'U' :: a :: b :: c :: d :: e :: f :: g :: h :: rest =>
    addChar (coded? [a, b, c, d, e, f, g, h]) (multiBasic? false rest)
  | '\\' :: e :: rest =>
    if endsLine (e :: rest) then multiBasic? true (e :: rest)
    else addChar (escape? e) (multiBasic? false rest)
  | '\r' :: '\n' :: rest =>
    if joining then multiBasic? true rest else addChar (some '\n') (multiBasic? false rest)
  | c :: rest =>
    if joining && (isSpace c || c == '\n') then multiBasic? true rest
    else if c == '\n' || (isText c && c != '\\') then addChar (some c) (multiBasic? false rest)
    else none

/-- Reads a literal string on several lines, behind its opening quotes. -/
def multiLiteral? : List Char → Option (List Char × List Char)
  | [] => none
  | '\'' :: '\'' :: '\'' :: rest => some (closing '\'' rest)
  | '\r' :: '\n' :: rest => addChar (some '\n') (multiLiteral? rest)
  | c :: rest =>
    if c == '\n' || isText c then addChar (some c) (multiLiteral? rest) else none

/-- Drops a line end right behind opening quotes. -/
def skipFirstLineEnd (cs : List Char) : List Char :=
  (lineEnd? cs).getD cs

/-- Reads a string of any kind.  None if there is no string. -/
def string? : List Char → Option (List Char × List Char)
  | '"' :: '"' :: '"' :: rest => multiBasic? false (skipFirstLineEnd rest)
  | '"' :: rest => basic? rest
  | '\'' :: '\'' :: '\'' :: rest => multiLiteral? (skipFirstLineEnd rest)
  | '\'' :: rest => literal? rest
  | _ => none

/-! ## Keys -/

/-- Characters of a key without quotes. -/
def isBareKey (c : Char) : Bool :=
  c.isAlphanum || c == '_' || c == '-'

/-- Reads one part of a key. -/
def keyPart? : List Char → Option (String × List Char)
  | '"' :: rest => (basic? rest).map fun (s, out) => (String.ofList s, out)
  | '\'' :: rest => (literal? rest).map fun (s, out) => (String.ofList s, out)
  | cs =>
    match cs.takeWhile isBareKey with
    | [] => none
    | part => some (String.ofList part, cs.dropWhile isBareKey)

/-- Reads the parts of a key between dots.  Blanks around a part do not
count. -/
def keyParts? : (fuel : Nat) → List Char → Option (List String × List Char)
  | 0, _ => none
  | fuel + 1, cs => do
    let (part, rest) ← keyPart? (skipSpace cs)
    match skipSpace rest with
    | '.' :: rest =>
      let (parts, rest) ← keyParts? fuel rest
      return (part :: parts, rest)
    | rest => return ([part], rest)

/-- Nothing may be nested deeper than this, neither values nor the parts of
a key. -/
def maxDepth : Nat := 79

/-- Reads a key: the parts before the last one, the last one, and what
follows. -/
def key? (cs : List Char) : Option (List String × String × List Char) := do
  let (parts, rest) ← keyParts? (maxDepth + 1) cs
  match parts.reverse with
  | last :: before => if parts.length ≤ maxDepth then some (before.reverse, last, rest) else none
  | [] => none

end TokenMarket.Toml
