/-!
# Hexadecimal bytes

Two digits a byte, the high half first.  Writing uses lower-case digits;
reading takes either case.  A text with an odd number of digits, or with
anything but digits, is no sequence of bytes.
-/

namespace TokenMarket.Hex

/-- The lower-case digit of a number below 16. -/
def digit (n : Nat) : Char :=
  if n < 10 then Char.ofNat (48 + n) else Char.ofNat (87 + n)

/-- The value of a digit of either case. -/
def digitValue? (c : Char) : Option Nat :=
  let n := c.toNat
  if 48 ≤ n ∧ n ≤ 57 then some (n - 48)
  else if 97 ≤ n ∧ n ≤ 102 then some (n - 87)
  else if 65 ≤ n ∧ n ≤ 70 then some (n - 55)
  else none

/-- A hexadecimal digit of either case. -/
def isDigit (c : Char) : Bool :=
  (digitValue? c).isSome

/-- The two digits of a byte. -/
def encodeByte (b : UInt8) : List Char :=
  [digit (b.toNat / 16), digit (b.toNat % 16)]

/-- The digits of all bytes, in order. -/
def encode (bytes : List UInt8) : List Char :=
  bytes.flatMap encodeByte

/-- The bytes that the digits stand for. -/
def decode : List Char → Option (List UInt8)
  | [] => some []
  | [_] => none
  | a :: b :: rest => do
    let high ← digitValue? a
    let low ← digitValue? b
    let bytes ← decode rest
    return UInt8.ofNat (16 * high + low) :: bytes

/-- Every byte takes two digits. -/
theorem length_of_decode {cs : List Char} {bytes : List UInt8} (h : decode cs = some bytes) :
    cs.length = 2 * bytes.length := by
  fun_induction decode cs generalizing bytes with
  | case1 => simp_all
  | case2 => simp at h
  | case3 a b rest ih =>
    simp only [Option.bind_eq_bind, Option.bind_eq_some_iff, Option.pure_def,
      Option.some.injEq] at h
    obtain ⟨high, _, low, _, tail, ht, rfl⟩ := h
    simp [ih ht]
    omega

end TokenMarket.Hex
