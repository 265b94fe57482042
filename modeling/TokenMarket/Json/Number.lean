import TokenMarket.Json.Value
import TokenMarket.Text.Numeral

/-!
# Numbers of JSON, read and written

A number in a text is a sign, whole digits, and optionally a fraction and
an exponent (`NumberText`).  The grammar is checked here once.  What the
digits mean is asked only of a number that is kept, by `value?`, because a
number that is skipped may be as large as it likes.

Reading.  An integer below 2^64, or from -2^63 up, stays exact.  Any other
number becomes binary: the leading digits are gathered into a word of 64
bits as long as they fit, the digits after them only count, and the word
is scaled by the power of ten that is left.  A negative zero is binary.

Writing.  A binary number is written with the fewest digits that read
back.  From 1e-5 up to 1e16 it is written in places, with `.0` if it is
whole.  Outside it has one digit before the point and an exponent with its
sign.
-/

namespace TokenMarket.Json

/-- A number as it is written. -/
structure NumberText where
  negative : Bool
  /-- One digit or more, without leading zeros. -/
  whole : List Char
  /-- The digits after the point; none if there is no point. -/
  fraction : List Char
  /-- The sign and the digits of the exponent. -/
  exponent : Option (Bool × List Char)
deriving DecidableEq, Repr

namespace NumberText

/-! ## The grammar -/

/-- Splits leading digits off. -/
def splitDigits (cs : List Char) : List Char × List Char :=
  (cs.takeWhile Char.isDigit, cs.dropWhile Char.isDigit)

/-- Reads the whole digits: `0`, or digits that do not start with `0`. -/
def whole? (cs : List Char) : Option (List Char × List Char) :=
  match splitDigits cs with
  | ([], _) => none
  | ('0' :: _ :: _, _) => none
  | (digits, rest) => some (digits, rest)

/-- Reads a point and the digits behind it, if there is a point. -/
def fraction? : List Char → Option (List Char × List Char)
  | '.' :: cs =>
    match splitDigits cs with
    | ([], _) => none
    | (digits, rest) => some (digits, rest)
  | cs => some ([], cs)

/-- Splits the sign of an exponent off; true stands for minus. -/
def exponentSign : List Char → Bool × List Char
  | '+' :: cs => (false, cs)
  | '-' :: cs => (true, cs)
  | cs => (false, cs)

/-- Reads the digits of an exponent, of which there must be one. -/
def exponentDigits? (cs : List Char) :
    Option (Option (Bool × List Char) × List Char) :=
  let (negative, cs) := exponentSign cs
  match splitDigits cs with
  | ([], _) => none
  | (digits, rest) => some (some (negative, digits), rest)

/-- Reads an exponent, if there is one. -/
def exponent? : List Char → Option (Option (Bool × List Char) × List Char)
  | 'e' :: cs => exponentDigits? cs
  | 'E' :: cs => exponentDigits? cs
  | cs => some (none, cs)

/-- Splits a leading minus off. -/
def minus : List Char → Bool × List Char
  | '-' :: cs => (true, cs)
  | cs => (false, cs)

/-- Reads a number off the front of a text. -/
def read? (cs : List Char) : Option (NumberText × List Char) := do
  let (negative, cs) := minus cs
  let (whole, cs) ← whole? cs
  let (fraction, cs) ← fraction? cs
  let (exponent, cs) ← exponent? cs
  return (⟨negative, whole, fraction, exponent⟩, cs)

theorem splitDigits_length (cs : List Char) :
    (splitDigits cs).1.length + (splitDigits cs).2.length = cs.length := by
  simp only [splitDigits]
  rw [← List.length_append, List.takeWhile_append_dropWhile]

theorem whole?_length {cs digits rest : List Char} (h : whole? cs = some (digits, rest)) :
    rest.length < cs.length := by
  have hl := splitDigits_length cs
  unfold whole? at h
  split at h
  · simp at h
  · simp at h
  · next d r hne _ heq =>
    simp only [heq] at hl
    obtain ⟨rfl, rfl⟩ := by simpa using h
    have : d.length ≠ 0 := fun hd => hne (List.length_eq_zero_iff.1 hd)
    omega

theorem fraction?_length {cs digits rest : List Char}
    (h : fraction? cs = some (digits, rest)) : rest.length ≤ cs.length := by
  unfold fraction? at h
  split at h
  · next cs =>
    have hl := splitDigits_length cs
    split at h
    · simp at h
    · next heq =>
      simp only [heq] at hl
      obtain ⟨_, rfl⟩ := by simpa using h
      simp; omega
  · obtain ⟨_, rfl⟩ := by simpa using h
    exact Nat.le_refl _

theorem exponentSign_length (cs : List Char) : (exponentSign cs).2.length ≤ cs.length := by
  unfold exponentSign
  split <;> simp

theorem exponentDigits?_length {cs rest : List Char} {e : Option (Bool × List Char)}
    (h : exponentDigits? cs = some (e, rest)) : rest.length ≤ cs.length := by
  have hs := exponentSign_length cs
  have hl := splitDigits_length (exponentSign cs).2
  unfold exponentDigits? at h
  simp only at h
  split at h
  · simp at h
  · next heq =>
    simp only [heq] at hl
    obtain ⟨_, rfl⟩ := by simpa using h
    omega

theorem exponent?_length {cs rest : List Char} {e : Option (Bool × List Char)}
    (h : exponent? cs = some (e, rest)) : rest.length ≤ cs.length := by
  unfold exponent? at h
  split at h
  · exact Nat.le_succ_of_le (exponentDigits?_length h)
  · exact Nat.le_succ_of_le (exponentDigits?_length h)
  · obtain ⟨_, rfl⟩ := by simpa using h
    exact Nat.le_refl _

theorem minus_length (cs : List Char) : (minus cs).2.length ≤ cs.length := by
  unfold minus
  split <;> simp

/-- A number takes at least one character. -/
theorem read?_length {cs rest : List Char} {n : NumberText} (h : read? cs = some (n, rest)) :
    rest.length < cs.length := by
  simp only [read?, Option.bind_eq_bind, Option.bind_eq_some_iff, Option.pure_def,
    Option.some.injEq, Prod.mk.injEq, Prod.exists] at h
  obtain ⟨_, r1, h1, _, r2, h2, _, r3, h3, _, rfl⟩ := h
  have := minus_length cs
  have := whole?_length h1
  have := fraction?_length h2
  have := exponent?_length h3
  omega

/-! ## What the digits mean -/

/-- Takes digits into a word as long as it stays below 2^64, and answers
the word and the digits that are left. -/
def gather : (word : Nat) → List Char → Nat × List Char
  | word, [] => (word, [])
  | word, c :: cs =>
    let next := 10 * word + Numeral.digitValue c
    if next < UInt64.size then gather next cs else (word, c :: cs)

/-- The power of ten that the exponent calls for. -/
def exponentValue : Option (Bool × List Char) → Int
  | none => 0
  | some (negative, digits) =>
    if negative then -(Numeral.valueOf digits : Int) else Numeral.valueOf digits

/-- The binary number that the text stands for.  None if it is too large. -/
def binary? (t : NumberText) : Option Binary64 :=
  let (word, left) := gather 0 t.whole
  let (word, unread) := gather word t.fraction
  let scale : Int := left.length + unread.length - t.fraction.length
    + exponentValue t.exponent
  let size := (Binary64.ofNat word).bind (Binary64.scaleByTen · scale)
  size.map fun x => if t.negative then x.neg else x

/-- The value of a number that is kept. -/
def value? (t : NumberText) : Option Json :=
  let n := Numeral.valueOf t.whole
  if t.fraction ≠ [] ∨ t.exponent.isSome then t.binary?.map .real
  else if t.negative then
    if 0 < n ∧ Numeral.isSigned64 (-n) then some (.int (-n)) else t.binary?.map .real
  else
    if n < UInt64.size then some (.int n) else t.binary?.map .real

end NumberText

/-! ## Writing -/

/-- The digits of `a` without the zeros at its end, and how many zeros
there were. -/
def dropZeros (digits : List Char) : List Char × Nat :=
  let kept := (digits.reverse.dropWhile (· == '0')).reverse
  (kept, digits.length - kept.length)

/-- Lays the digits out.  The point belongs `point` places after the start
of the digits; it may lie before or behind all of them. -/
def layout (digits : List Char) (point : Int) : List Char :=
  let count : Int := digits.length
  if count ≤ point ∧ point ≤ 16 then
    digits ++ List.replicate (point - count).toNat '0' ++ ['.', '0']
  else if 0 < point ∧ point ≤ 16 then
    digits.take point.toNat ++ '.' :: digits.drop point.toNat
  else if -5 < point ∧ point ≤ 0 then
    ['0', '.'] ++ List.replicate (-point).toNat '0' ++ digits
  else
    let exponent := point - 1
    let sign := if exponent < 0 then '-' else '+'
    let lead := match digits with
      | [] => []
      | [d] => [d]
      | d :: ds => d :: '.' :: ds
    lead ++ 'e' :: sign :: Numeral.digits exponent.natAbs

/-- The text of a binary number. -/
def realText (x : Binary64) : List Char :=
  let sign := if x.negative then ['-'] else []
  if x.isZero then sign ++ ['0', '.', '0']
  else
    let (a, p) := Binary64.shortest x.significand x.exponent
    let (digits, zeros) := dropZeros (Numeral.digits a)
    sign ++ layout digits (digits.length + zeros + p)

/-- The text of an integer. -/
def intText : Int → List Char
  | .ofNat n => Numeral.digits n
  | .negSucc n => '-' :: Numeral.digits (n + 1)

end TokenMarket.Json
