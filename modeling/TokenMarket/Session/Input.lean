import TokenMarket.Text.Utf8

/-!
# Typed input

Input is a sequence of bytes and is read line by line.  A line ends with a
line feed, or with the input.  Its text is what is left without the line
feeds and carriage returns at its end, so both usual line ends give the
same text.  A line that is no UTF-8 has no text, and ends the session that
reads it.
-/

namespace TokenMarket

/-- A line of input: its text, or nothing if its bytes are no text. -/
abbrev InputLine := Option String

namespace Input

/-- Splits a sequence behind every line feed.  What follows the last one
is a line if it is not empty. -/
def chunks : List UInt8 → List (List UInt8)
  | [] => []
  | b :: bytes =>
    if b = 10 then [b] :: chunks bytes
    else
      match chunks bytes with
      | [] => [[b]]
      | chunk :: rest => (b :: chunk) :: rest

/-- A line without the marks at its end. -/
def dropLineEnd (cs : List Char) : List Char :=
  (cs.reverse.dropWhile fun c => c == '\n' || c == '\r').reverse

/-- The text of a line. -/
def lineText (chunk : List UInt8) : InputLine :=
  (Utf8.decode? chunk).map fun cs => String.ofList (dropLineEnd cs)

/-- The lines of an input. -/
def lines (bytes : List UInt8) : List InputLine :=
  (chunks bytes).map lineText

end Input

end TokenMarket
