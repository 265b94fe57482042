/-!
# Words of a shell command

A command line is a sequence of words.  `quote` writes one word so that a
POSIX shell reads it back unchanged, and `line` puts words behind each
other with one space between them.

A word of letters, digits and a few harmless marks stands as it is.  Any
other word goes between single quotes, where the shell takes everything
literally; only the single quote itself cannot stand there, so the quoted
part ends before it, the quote follows behind a backslash, and a new
quoted part begins.

`words?` is the shell's side: the rules by which the line falls into words
again.  Blanks between words separate them, single quotes take what is
between them literally, a backslash takes the next character literally,
and adjacent pieces join into one word.  An open quote or a backslash at
the end leaves no line to read.
-/

namespace TokenMarket.ShellWord

/-! ## Writing -/

/-- Characters that mean nothing to a shell. -/
def isPlain (c : Char) : Bool :=
  c.isAlphanum || ['-', '_', '.', '/', ':', '=', '@', '%', '+', ','].contains c

/-- The form of one character between single quotes. -/
def quotedChar (c : Char) : List Char :=
  if c = '\'' then ['\'', '\\', '\'', '\''] else [c]

/-- A word as it stands in a command. -/
def quote (word : List Char) : List Char :=
  if word ≠ [] ∧ word.all isPlain then word
  else '\'' :: word.flatMap quotedChar ++ ['\'']

/-- The words after the first of a line. -/
def tail : List (List Char) → List Char
  | [] => []
  | word :: rest => ' ' :: quote word ++ tail rest

/-- A command line: the program's name and its quoted arguments. -/
def line (program : List Char) (arguments : List (List Char)) : List Char :=
  program ++ tail arguments

/-! ## Reading -/

/-- Where the reader stands.  The characters of the current word are kept
last first. -/
inductive Place where
  /-- Between two words. -/
  | between
  /-- In a word, outside quotes. -/
  | inside (word : List Char)
  /-- In a word, between single quotes. -/
  | quoted (word : List Char)
  /-- In a word, behind a backslash. -/
  | escaped (word : List Char)
deriving DecidableEq, Repr

/-- The blanks that separate words. -/
def isSeparator (c : Char) : Bool :=
  c == ' ' || c == '\t' || c == '\n'

/-- Where an unquoted character leads that does not separate words. -/
def enter (word : List Char) (c : Char) : Place :=
  if c = '\'' then .quoted word else if c = '\\' then .escaped word else .inside (c :: word)

/-- The words of the rest of a line. -/
def wordsFrom? : Place → List Char → Option (List (List Char))
  | .between, [] => some []
  | .inside word, [] => some [word.reverse]
  | .quoted _, [] => none
  | .escaped _, [] => none
  | .between, c :: cs =>
    if isSeparator c then wordsFrom? .between cs else wordsFrom? (enter [] c) cs
  | .inside word, c :: cs =>
    if isSeparator c then (wordsFrom? .between cs).map (word.reverse :: ·)
    else wordsFrom? (enter word c) cs
  | .quoted word, c :: cs =>
    if c = '\'' then wordsFrom? (.inside word) cs else wordsFrom? (.quoted (c :: word)) cs
  | .escaped word, c :: cs => wordsFrom? (.inside (c :: word)) cs

/-- The words of a line. -/
def words? (line : List Char) : Option (List (List Char)) :=
  wordsFrom? .between line

end TokenMarket.ShellWord
