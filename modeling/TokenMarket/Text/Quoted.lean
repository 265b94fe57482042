import TokenMarket.Text.Printable
import TokenMarket.Text.Hex

/-!
# Quoted text in messages

A message shows a value between quotes, so that blanks at its ends and
characters that do not show become visible.  The quote of the kind in use,
the backslash and the common controls have a short form; any other
character that does not show is written by its code in braces.
-/

namespace TokenMarket.Text

/-- The hexadecimal numeral of `n`, without leading zeros. -/
def hexNumeral (n : Nat) : List Char :=
  if n < 16 then [Hex.digit n] else hexNumeral (n / 16) ++ [Hex.digit (n % 16)]
termination_by n
decreasing_by omega

/-- The form of one character between quotes of the kind `mark`. -/
def quotedChar (mark c : Char) : List Char :=
  if c = mark ∨ c = '\\' then ['\\', c]
  else if c = '\x00' then ['\\', '0']
  else if c = '\t' then ['\\', 't']
  else if c = '\r' then ['\\', 'r']
  else if c = '\n' then ['\\', 'n']
  else if isPrintable c then [c]
  else ['\\', 'u', '\x7b'] ++ hexNumeral c.toNat ++ ['\x7d']

/-- A text between double quotes. -/
def quoted (s : String) : String :=
  String.ofList ('"' :: s.toList.flatMap (quotedChar '"') ++ ['"'])

/-- A character between single quotes. -/
def quotedSingle (c : Char) : String :=
  String.ofList ('\'' :: quotedChar '\'' c ++ ['\''])

end TokenMarket.Text
