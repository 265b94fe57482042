import TokenMarket.Json.Binary64
import TokenMarket.Text.Hex
import TokenMarket.Text.Numeral
import TokenMarket.Toml.Value

/-!
# Numbers, dates and constants of TOML

A value that starts with none of the brackets and quotes is a single word.
The word as a whole has to be a constant, an integer, a float or a date;
what it means follows from its letters alone.

Integers have 64 bits with a sign.  A float must not be too large for the
binary format.  A date is checked against the calendar.
-/

namespace TokenMarket.Toml

/-- Characters of a word. -/
def isWordChar (c : Char) : Bool :=
  c.isAlphanum || c == '+' || c == '-' || c == '_' || c == '.' || c == ':'

/-! ## Numbers -/

/-- Drops the underscores of a run of digits.  Each has to stand between
two digits. -/
def plainDigits? (isDigit : Char → Bool) : List Char → Option (List Char)
  | [] => none
  | [c] => if isDigit c then some [c] else none
  | c :: '_' :: rest =>
    if isDigit c then (plainDigits? isDigit rest).map (c :: ·) else none
  | c :: rest => if isDigit c then (plainDigits? isDigit rest).map (c :: ·) else none

/-- Splits a sign off; true stands for minus. -/
def sign : List Char → Bool × List Char
  | '+' :: cs => (false, cs)
  | '-' :: cs => (true, cs)
  | cs => (false, cs)

/-- Reads decimal digits that do not start with a needless zero. -/
def wholeDigits? (cs : List Char) : Option (List Char) :=
  match plainDigits? Char.isDigit cs with
  | some ('0' :: _ :: _) => none
  | digits => digits

/-- An integer, if it has 64 bits. -/
def bounded? (n : Int) : Option Toml :=
  if Numeral.isSigned64 n then some (.integer n) else none

/-- Reads an integer to the base ten. -/
def decimal? (word : List Char) : Option Toml := do
  let (negative, cs) := sign word
  let digits ← wholeDigits? cs
  let n : Int := Numeral.valueOf digits
  bounded? (if negative then -n else n)

/-- Reads digits to another base. -/
def toBase? (base : Nat) (digitValue? : Char → Option Nat) (cs : List Char) : Option Toml := do
  let digits ← plainDigits? (fun c => (digitValue? c).isSome) cs
  bounded? (digits.foldl (fun n c => base * n + (digitValue? c).getD 0) 0 : Nat)

/-- The value of a digit to a base up to ten. -/
def lowDigit? (base : Nat) (c : Char) : Option Nat :=
  if c.isDigit ∧ Numeral.digitValue c < base then some (Numeral.digitValue c) else none

/-- Reads an integer to any base. -/
def integer? : List Char → Option Toml
  | '0' :: 'x' :: cs => toBase? 16 Hex.digitValue? cs
  | '0' :: 'o' :: cs => toBase? 8 (lowDigit? 8) cs
  | '0' :: 'b' :: cs => toBase? 2 (lowDigit? 2) cs
  | cs => decimal? cs

/-- Whether `digits * 10 ^ e` is too large for the binary format. -/
def isTooLarge (digits : List Char) (e : Int) : Bool :=
  let n := Numeral.valueOf digits
  let places : Int := (Numeral.digits n).length + e
  if n = 0 ∨ places < 300 then false
  else if places > 320 then true
  else (Binary64.roundRatio (n * Power.ten e.toNat) (Power.ten (-e).toNat)).isNone

/-- Reads the digits of an exponent. -/
def exponent? (cs : List Char) : Option Int := do
  let (negative, cs) := sign cs
  let digits ← plainDigits? Char.isDigit cs
  let n : Int := Numeral.valueOf digits
  return if negative then -n else n

/-- Reads a float.  Only a positive one can be too large. -/
def float? (word : List Char) : Option Toml := do
  let (negative, cs) := sign word
  if cs = ['i', 'n', 'f'] ∨ cs = ['n', 'a', 'n'] then some .float
  else
    let isMark := fun c => c == 'e' || c == 'E'
    let mantissa := cs.takeWhile (!isMark ·)
    let afterMark := cs.dropWhile (!isMark ·)
    let e ← match afterMark with
      | [] => some 0
      | _ :: digits => exponent? digits
    let whole ← wholeDigits? (mantissa.takeWhile (· != '.'))
    let fraction ← match mantissa.dropWhile (· != '.') with
      | [] => if afterMark = [] then none else some []
      | _ :: digits => plainDigits? Char.isDigit digits
    if !negative && isTooLarge (whole ++ fraction) (e - fraction.length) then none
    else some .float

/-! ## Dates -/

/-- Reads a number of exactly so many digits. -/
def fixed? (count : Nat) (cs : List Char) : Option (Nat × List Char) :=
  let digits := cs.take count
  if digits.length = count ∧ digits.all Char.isDigit then
    some (Numeral.valueOf digits, cs.drop count)
  else none

/-- Drops one character. -/
def mark? (c : Char) : List Char → Option (List Char)
  | d :: rest => if c = d then some rest else none
  | [] => none

/-- The number of days of a month. -/
def daysIn (year month : Nat) : Nat :=
  if month = 2 then
    if year % 4 = 0 ∧ (year % 100 ≠ 0 ∨ year % 400 = 0) then 29 else 28
  else if month = 4 ∨ month = 6 ∨ month = 9 ∨ month = 11 then 30
  else 31

/-- Reads a day. -/
def day? (cs : List Char) : Option (List Char) := do
  let (year, cs) ← fixed? 4 cs
  let cs ← mark? '-' cs
  let (month, cs) ← fixed? 2 cs
  let cs ← mark? '-' cs
  let (day, cs) ← fixed? 2 cs
  if 1 ≤ month ∧ month ≤ 12 ∧ 1 ≤ day ∧ day ≤ daysIn year month then some cs else none

/-- Drops the fraction of a second. -/
def fraction? : List Char → Option (List Char)
  | '.' :: cs =>
    match cs.takeWhile Char.isDigit with
    | [] => none
    | _ => some (cs.dropWhile Char.isDigit)
  | cs => some cs

/-- Reads hours and minutes. -/
def clock? (cs : List Char) : Option (List Char) := do
  let (hour, cs) ← fixed? 2 cs
  let cs ← mark? ':' cs
  let (minute, cs) ← fixed? 2 cs
  if hour ≤ 23 ∧ minute ≤ 59 then some cs else none

/-- Reads a time of day.  A minute may have a leap second. -/
def time? (cs : List Char) : Option (List Char) := do
  let cs ← clock? cs
  let cs ← mark? ':' cs
  let (second, cs) ← fixed? 2 cs
  if second ≤ 60 then fraction? cs else none

/-- Whether the rest of a moment is a distance from universal time, or
nothing. -/
def isOffset : List Char → Bool
  | [] => true
  | ['Z'] => true
  | ['z'] => true
  | '+' :: cs => clock? cs == some []
  | '-' :: cs => clock? cs == some []
  | _ => false

/-- Whether a word is a time of day, with an offset or without. -/
def isTimeWord (cs : List Char) : Bool :=
  (time? cs).any isOffset

/-- Reads a day, a moment or a time of day. -/
def date? (word : List Char) : Option Toml :=
  match day? word with
  | some [] => some .date
  | some ('T' :: cs) => if isTimeWord cs then some .date else none
  | some ('t' :: cs) => if isTimeWord cs then some .date else none
  | some _ => none
  | none => if time? word = some [] then some .date else none

/-! ## Words -/

/-- The value that a word stands for. -/
def wordValue? (word : List Char) : Option Toml :=
  if word = ['t', 'r', 'u', 'e'] then some (.boolean true)
  else if word = ['f', 'a', 'l', 's', 'e'] then some (.boolean false)
  else ((date? word).or (integer? word)).or (float? word)

/-- Reads a word.  A day and a time of day may have one blank between them
instead of a letter. -/
def word? (cs : List Char) : Option (Toml × List Char) := do
  let word := cs.takeWhile isWordChar
  let rest := cs.dropWhile isWordChar
  let value ← wordValue? word
  if day? word = some [] then
    match rest with
    | ' ' :: d :: more =>
      if d.isDigit then
        if isTimeWord ((d :: more).takeWhile isWordChar) then
          some (value, (d :: more).dropWhile isWordChar)
        else none
      else some (value, rest)
    | _ => some (value, rest)
  else some (value, rest)

end TokenMarket.Toml
