import TokenMarket.Power

/-!
# Binary floating point and its shortest decimals

A finite number in the 64-bit binary format is a sign, a significand below
2^53 and an exponent of two, at least -1074.  It is kept in lowest
exponent: a significand below 2^52 occurs with the exponent -1074 only.

Three groups of definitions follow.

* Rounding.  `roundRatio` rounds an exact quotient of natural numbers to
  the nearest number of the format, a tie to the even significand.  Product
  and quotient of two numbers are its instances, and there is no other
  arithmetic.
* Scaling by ten.  `scaleByTen` multiplies or divides by one power of ten
  of the format at a time.  It rounds after each step, so it is no correct
  reading of a decimal numeral; it is the reading that the data format's
  numbers get here.
* Shortest decimals.  `shortest` finds the fewest decimal digits that lie
  nearer to the number than to its neighbours in the format.  All
  comparisons are between natural numbers.
-/

namespace TokenMarket

/-- A finite number: `significand * 2 ^ exponent`, with a sign that zero
has as well. -/
structure Binary64 where
  negative : Bool
  significand : Nat
  exponent : Int
deriving DecidableEq, Repr

namespace Binary64

/-- Zero without a sign. -/
def zero : Binary64 := ⟨false, 0, -1074⟩

/-- The same number below zero. -/
def neg (x : Binary64) : Binary64 := { x with negative := !x.negative }

def isZero (x : Binary64) : Bool := x.significand == 0

/-! ## Rounding -/

/-- `num * 2 ^ e` over `den` as a quotient of natural numbers. -/
def shiftRatio (num den : Nat) (e : Int) : Nat × Nat :=
  if 0 ≤ e then (num * Power.two e.toNat, den) else (num, den * Power.two (-e).toNat)

/-- The nearest natural number to `num / den`, a tie to the even one. -/
def roundDiv (num den : Nat) : Nat :=
  let m := num / den
  let r := num % den
  if 2 * r > den ∨ (2 * r = den ∧ m % 2 = 1) then m + 1 else m

/-- The greatest `e` with `2 ^ e ≤ num / den`, for positive numbers. -/
def floorLog2 (num den : Nat) : Int :=
  let e : Int := (Nat.log2 num : Int) - (Nat.log2 den : Int)
  let (n, d) := shiftRatio num den (-e)
  if d ≤ n then e else e - 1

/-- The nearest number to `num / den`; none if it is too large for the
format. -/
def roundRatio (num den : Nat) : Option Binary64 :=
  if num = 0 then some zero
  else
    let q := max (floorLog2 num den - 52) (-1074)
    let (n, d) := shiftRatio num den (-q)
    let m := roundDiv n d
    let (m, q) := if m = Power.two 53 then (Power.two 52, q + 1) else (m, q)
    if q > 971 then none else some ⟨false, m, q⟩

/-- The product of two numbers without sign, rounded. -/
def mul (x y : Binary64) : Option Binary64 :=
  let (n, d) := shiftRatio (x.significand * y.significand) 1 (x.exponent + y.exponent)
  roundRatio n d

/-- The quotient of two numbers without sign, rounded. -/
def div (x y : Binary64) : Option Binary64 :=
  let (n, d) := shiftRatio x.significand y.significand (x.exponent - y.exponent)
  roundRatio n d

/-- The nearest number to a natural number. -/
def ofNat (n : Nat) : Option Binary64 := roundRatio n 1

/-! ## Scaling by ten -/

/-- The nearest number to a power of ten. -/
def tenPow (k : Nat) : Option Binary64 := ofNat (Power.ten k)

/-- The greatest power of ten that a step of scaling uses. -/
def stepPower : Nat := 308

/-- `x` divided that many times by the greatest step.  It stops at zero. -/
def divBySteps : (steps : Nat) → Binary64 → Option Binary64
  | 0, x => some x
  | steps + 1, x =>
    if x.isZero then some x
    else ((tenPow stepPower).bind x.div).bind (divBySteps steps)

/-- `x` divided by `10 ^ k`: by the greatest step while more than one step
is left, and last by what remains. -/
def divByTen (x : Binary64) (k : Nat) : Option Binary64 :=
  let steps := (k - 1) / stepPower
  (divBySteps steps x).bind fun y =>
    (tenPow (k - steps * stepPower)).bind y.div

/-- `x` times `10 ^ e`.  None if the outcome is too large; a positive
exponent beyond 308 is too large unless `x` is zero. -/
def scaleByTen (x : Binary64) (e : Int) : Option Binary64 :=
  if 0 ≤ e then
    if e ≤ stepPower then (tenPow e.toNat).bind x.mul
    else if x.isZero then some x else none
  else divByTen x (-e).toNat

/-! ## Shortest decimals -/

/-- Compares `a * 10 ^ p` with `b * 2 ^ s`. -/
def compareScaled (a : Nat) (p : Int) (b : Nat) (s : Int) : Ordering :=
  compare (a * Power.ten p.toNat * Power.two (-s).toNat)
    (b * Power.two s.toNat * Power.ten (-p).toNat)

/-- The greatest `e` with `10 ^ e ≤ m * 2 ^ q`, for positive `m`. -/
def floorLog10 (m : Nat) (q : Int) : Int :=
  let guess := ((Nat.log2 m : Int) + q) * 30103 / 100000
  if compareScaled 1 (guess + 1) m q != .gt then guess + 1
  else if compareScaled 1 guess m q != .gt then guess
  else guess - 1

/-- Whether the decimal `a * 10 ^ p` reads back as `m * 2 ^ q`.  The ends
of the interval of decimals that do belong to it when `m` is even.  Below
a power of two the interval is narrower. -/
def readsBack (m : Nat) (q : Int) (a : Nat) (p : Int) : Bool :=
  let low := if m = Power.two 52 ∧ q > -1074 then 4 * m - 1 else 4 * m - 2
  let high := 4 * m + 2
  let fromLow := compareScaled a p low (q - 2)
  let fromHigh := compareScaled a p high (q - 2)
  if m % 2 = 0 then fromLow != .lt && fromHigh != .gt
  else fromLow == .gt && fromHigh == .lt

/-- The best decimal with the last place `p`, if one reads back: of the
two neighbours of the number the nearer one, of equally near ones the even
one. -/
def bestAt (m : Nat) (q p : Int) : Option Nat :=
  let (n, d) := shiftRatio m 1 q
  let below := n * Power.ten (-p).toNat / (d * Power.ten p.toNat)
  let above := below + 1
  match readsBack m q below p, readsBack m q above p with
  | false, false => none
  | true, false => some below
  | false, true => some above
  | true, true =>
    match compareScaled (below + above) p (2 * m) q with
    | .gt => some below
    | .lt => some above
    | .eq => if below % 2 = 0 then some below else some above

/-- Searches the places from `p` downwards for the first that holds a
decimal that reads back. -/
def searchPlaces (m : Nat) (q : Int) : (steps : Nat) → (p : Int) → Nat × Int
  | 0, p => ((bestAt m q p).getD 0, p)
  | steps + 1, p =>
    match bestAt m q p with
    | some a => (a, p)
    | none => searchPlaces m q steps (p - 1)

/-- The decimal `a * 10 ^ p` with the fewest digits that reads back as the
positive number `m * 2 ^ q`.  Seventeen digits are always enough. -/
def shortest (m : Nat) (q : Int) : Nat × Int :=
  searchPlaces m q 17 (floorLog10 m q)

end Binary64

end TokenMarket
