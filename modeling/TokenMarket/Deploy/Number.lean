import TokenMarket.Error
import TokenMarket.Power
import TokenMarket.Text.Blank

/-!
# Numbers that a person types

A typed number is trimmed, and then it has to be digits and nothing else:
no sign, no blank inside, no other kind of digit.  Leading zeros are
allowed.  A number that does not fit its width is told apart from a text
that is no number, and is shown without the blanks around it.
-/

namespace TokenMarket.Number

/-- Reads a number below `bound`, which messages call `range`. -/
def readBelow (bound : Nat) (range argument text : String) :
    Except Error { n : Nat // n < bound } :=
  let digits := Text.trimBoth text.toList
  match Numeral.read? digits with
  | none =>
    .error (.invalidArgument argument ("'" ++ text ++ "' is not an unsigned decimal integer"))
  | some n =>
    if h : n < bound then .ok ⟨n, h⟩
    else .error (.argumentOutOfRange argument (String.ofList digits) range)

/-- Reads a number of 8 bits. -/
def readByte (argument text : String) : Except Error UInt8 :=
  (readBelow UInt8.size "0..=255" argument text).map fun n => UInt8.ofNatLT n.1 n.2

/-- Reads a number of 64 bits. -/
def readWord64 (argument text : String) : Except Error UInt64 :=
  (readBelow UInt64.size "0..2^64" argument text).map fun n => UInt64.ofNatLT n.1 n.2

/-- Reads a number of 256 bits. -/
def readWord256 (argument text : String) : Except Error (BitVec 256) :=
  (readBelow (2 ^ 256) "0..2^256" argument text).map fun n => BitVec.ofNatLT n.1 n.2

/-- Reads a number of 512 bits.  No operation calls it: a total is the only
argument of this width, and is worked out from two narrower numbers.  It is
for whoever describes a deploy with all its arguments as texts. -/
def readWord512 (argument text : String) : Except Error (BitVec 512) :=
  (readBelow (Power.two 512) "0..2^512" argument text).map fun n => BitVec.ofNat 512 n.1

/-- The greatest commission, in percent. -/
def maxCommission : Nat := 100

/-- A commission of at most a hundred percent. -/
def commission (n : UInt8) : Except Error UInt8 :=
  if n.toNat ≤ maxCommission then .ok n
  else .error (.argumentOutOfRange "comission" (Numeral.decimal n.toNat) "0..=100")

end TokenMarket.Number
