import TokenMarket.Json.Number
import TokenMarket.Text.Quoted

/-!
# JSON as text

Two layouts of a value.  The compact one has no blank anywhere.  The wide
one gives every item and member its own line, indented by two spaces a
level, and puts a space after the colon; an empty array or object stays on
one line.

In a string only the quote, the backslash and the controls below U+0020
are escaped.  All other characters stand for themselves.
-/

namespace TokenMarket.Json

/-- The form of one character inside a string. -/
def escapedChar (c : Char) : List Char :=
  if c = '"' then ['\\', '"']
  else if c = '\\' then ['\\', '\\']
  else if c = '\x08' then ['\\', 'b']
  else if c = '\x0c' then ['\\', 'f']
  else if c = '\n' then ['\\', 'n']
  else if c = '\r' then ['\\', 'r']
  else if c = '\t' then ['\\', 't']
  else if c.toNat < 0x20 then
    ['\\', 'u', '0', '0', Hex.digit (c.toNat / 16), Hex.digit (c.toNat % 16)]
  else [c]

/-- A string between its quotes. -/
def stringText (s : String) : List Char :=
  '"' :: s.toList.flatMap escapedChar ++ ['"']

/-- The text of a value that has no parts. -/
def boolText : Bool → List Char
  | true => ['t', 'r', 'u', 'e']
  | false => ['f', 'a', 'l', 's', 'e']

/-- The text of the value null. -/
def nullText : List Char := ['n', 'u', 'l', 'l']

/-! ## The compact layout -/

mutual

/-- The compact text of a value. -/
def compactChars : Json → List Char
  | null => nullText
  | bool b => boolText b
  | int n => intText n
  | real x => realText x
  | string s => stringText s
  | array [] => ['[', ']']
  | array (v :: rest) => '[' :: compactChars v ++ compactItems rest ++ [']']
  | object [] => ['\x7b', '\x7d']
  | object ((name, v) :: rest) =>
    '\x7b' :: stringText name ++ ':' :: compactChars v ++ compactMembers rest ++ ['\x7d']

/-- The items after the first, each behind a comma. -/
def compactItems : List Json → List Char
  | [] => []
  | v :: rest => ',' :: compactChars v ++ compactItems rest

/-- The members after the first, each behind a comma. -/
def compactMembers : List (String × Json) → List Char
  | [] => []
  | (name, v) :: rest =>
    ',' :: stringText name ++ ':' :: compactChars v ++ compactMembers rest

end

/-- The compact text of a value. -/
def compact (v : Json) : String :=
  String.ofList (compactChars v)

/-! ## The wide layout -/

/-- A new line, indented to the level. -/
def newLine (level : Nat) : List Char :=
  '\n' :: List.replicate (2 * level) ' '

mutual

/-- The wide text of a value whose first line stands at the level. -/
def wideChars (level : Nat) : Json → List Char
  | null => nullText
  | bool b => boolText b
  | int n => intText n
  | real x => realText x
  | string s => stringText s
  | array [] => ['[', ']']
  | array (v :: rest) =>
    '[' :: newLine (level + 1) ++ wideChars (level + 1) v ++ wideItems (level + 1) rest
      ++ newLine level ++ [']']
  | object [] => ['\x7b', '\x7d']
  | object ((name, v) :: rest) =>
    '\x7b' :: newLine (level + 1) ++ stringText name ++ ':' :: ' ' :: wideChars (level + 1) v
      ++ wideMembers (level + 1) rest ++ newLine level ++ ['\x7d']

/-- The items after the first, each behind a comma and on its line. -/
def wideItems (level : Nat) : List Json → List Char
  | [] => []
  | v :: rest => ',' :: newLine level ++ wideChars level v ++ wideItems level rest

/-- The members after the first, each behind a comma and on its line. -/
def wideMembers (level : Nat) : List (String × Json) → List Char
  | [] => []
  | (name, v) :: rest =>
    ',' :: newLine level ++ stringText name ++ ':' :: ' ' :: wideChars level v
      ++ wideMembers level rest

end

/-- The wide text of a value. -/
def wide (v : Json) : String :=
  String.ofList (wideChars 0 v)

end TokenMarket.Json
