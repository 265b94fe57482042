/-!
# Decimal numerals

Numbers are written with the ten ASCII digits, the greatest place first.
`digits` writes the numeral without leading zeros and `valueOf` says
what any run of digits denotes, leading zeros included.

Two readers differ in what they let through.  `read?` takes digits only.
`readSigned?` also takes one plus sign in front of them.  Neither reads
the empty text, and neither trims.
-/

namespace TokenMarket.Numeral

/-- The digit of a number below ten. -/
def digit (n : Nat) : Char :=
  Char.ofNat (48 + n)

/-- The number that a digit stands for. -/
def digitValue (c : Char) : Nat :=
  c.toNat - 48

/-- The decimal numeral of `n`, without leading zeros. -/
def digits (n : Nat) : List Char :=
  if n < 10 then [digit n] else digits (n / 10) ++ [digit (n % 10)]
termination_by n
decreasing_by omega

/-- The decimal numeral as a text. -/
def decimal (n : Nat) : String :=
  String.ofList (digits n)

/-- The number that a run of digits denotes.  The empty run denotes 0. -/
def valueOf (cs : List Char) : Nat :=
  cs.foldl (fun v c => 10 * v + digitValue c) 0

/-- Reads one digit or more, and nothing else. -/
def read? (cs : List Char) : Option Nat :=
  if cs ≠ [] ∧ cs.all Char.isDigit then some (valueOf cs) else none

/-- Reads one digit or more, with at most one plus sign in front. -/
def readSigned? : List Char → Option Nat
  | '+' :: cs => read? cs
  | cs => read? cs

/-- The word of 64 bits that stands for an integer, if there is one. -/
def toWord64? : Int → Option UInt64
  | .ofNat n => if h : n < UInt64.size then some (UInt64.ofNatLT n h) else none
  | .negSucc _ => none

/-- Whether an integer has 64 bits with a sign: from -2^63 up, and below
2^63. -/
def isSigned64 (n : Int) : Bool :=
  -9223372036854775808 ≤ n && n < 9223372036854775808

/-- A signed numeral below 2^64. -/
def readWord64? (cs : List Char) : Option UInt64 :=
  (readSigned? cs).bind fun n => toWord64? n

/-- A signed numeral below 2^8. -/
def readByte? (cs : List Char) : Option UInt8 :=
  (readSigned? cs).bind fun n =>
    if h : n < UInt8.size then some (UInt8.ofNatLT n h) else none

/-- The value of a run of digits that may be empty, if it is below
2^256.  The empty run is 0. -/
def readWord256? (cs : List Char) : Option (BitVec 256) :=
  if cs.all Char.isDigit then
    if h : valueOf cs < 2 ^ 256 then some (BitVec.ofNatLT (valueOf cs) h) else none
  else none

end TokenMarket.Numeral
