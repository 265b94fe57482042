import Mathlib.Data.List.Induction
import Mathlib.Data.Nat.Digits.Defs
import TokenMarket.Proofs.TypedNumber

/-!
# Typed numbers of three widths

A typed number is read as a byte or as a word of 64 or 256 bits.  The three readers take the
same texts for numbers, complain alike, and differ in their bound only.  `Width` names the
three, so that what they have in common is said once.

What a text denotes is said here without a reader: `Typed` is the form of a typed number,
and `typedValue` the sum of its digits, each times the power of ten of its place
(`Numeral.valueOf_eq_ofDigits`).  The sum is over all digits, however many there are, so a
long text is no reason to refuse it, and zeros in front count for nothing.

`Width.read_eq_ok_iff`, `Width.read_eq_error_iff` and `Width.exists_word_iff` are all that is
known of the widths.  `widths_decided` is the result.
-/

namespace TokenMarket

/-- A run of digits denotes the sum of its digits by their places, the units last. -/
theorem Numeral.valueOf_eq_ofDigits (cs : List Char) :
    valueOf cs = Nat.ofDigits 10 (cs.reverse.map digitValue) := by
  induction cs using List.reverseRecOn with
  | nil => rfl
  | append_singleton cs c ih =>
    rw [valueOf_append_singleton, ih, List.reverse_concat, List.map_cons, Nat.ofDigits_cons,
      Nat.add_comm]

namespace Number

/-- The text, without the blanks at its ends, is one digit or more and nothing else. -/
def Typed (text : String) : Prop :=
  Text.trimBoth text.toList ≠ [] ∧ ∀ c ∈ Text.trimBoth text.toList, c.isDigit = true

/-- The sum of the digits of a text by their places. -/
def typedValue (text : String) : Nat :=
  Nat.ofDigits 10 ((Text.trimBoth text.toList).reverse.map Numeral.digitValue)

theorem denotes_iff_typed {text : String} {n : Nat} :
    Denotes text n ↔ Typed text ∧ n = typedValue text := by
  rw [Denotes, Typed, typedValue, Numeral.valueOf_eq_ofDigits, and_assoc]

/-- The widths of typed numbers. -/
inductive Width where
  | byte
  | word64
  | word256
deriving DecidableEq

namespace Width

def bits : Width → Nat
  | byte => 8
  | word64 => 64
  | word256 => 256

/-- What messages call the numbers of the width. -/
def range : Width → String
  | byte => "0..=255"
  | word64 => "0..2^64"
  | word256 => "0..2^256"

/-- The words of the width. -/
abbrev Word : Width → Type
  | byte => UInt8
  | word64 => UInt64
  | word256 => BitVec 256

def toNat : (w : Width) → w.Word → Nat
  | byte, n => UInt8.toNat n
  | word64, n => UInt64.toNat n
  | word256, n => BitVec.toNat n

/-- The reader of the width. -/
def read : (w : Width) → (argument text : String) → Except Error w.Word
  | byte => readByte
  | word64 => readWord64
  | word256 => readWord256

/-- How a text is decided: whether it is a number, and then whether it has the width. -/
structure Decides (w : Width) (argument text : String) (answer : Except Error w.Word) :
    Prop where
  improper : ¬ Typed text → answer = .error
    (.invalidArgument argument ("'" ++ text ++ "' is not an unsigned decimal integer"))
  tooLarge : Typed text → Power.two w.bits ≤ typedValue text →
    answer = .error (.argumentOutOfRange argument (Text.trim text) w.range)
  exact : Typed text → typedValue text < Power.two w.bits →
    ∃ n, answer = .ok n ∧ w.toNat n = typedValue text

variable {v w : Width} {argument other text : String}

/-! ## What is known of the widths -/

theorem read_eq_ok_iff {n : w.Word} : w.read argument text = .ok n ↔ Denotes text (w.toNat n) := by
  cases w with
  | byte => exact readByte_eq_ok_iff
  | word64 => exact readWord64_eq_ok_iff
  | word256 => exact readWord256_eq_ok_iff

theorem read_eq_error_iff {e : Error} :
    w.read argument text = .error e ↔ Fault (Power.two w.bits) w.range argument text e := by
  cases w with
  | byte => exact readByte_eq_error_iff
  | word64 => exact readWord64_eq_error_iff
  | word256 => exact readWord256_eq_error_iff

/-- The words are the numbers below the bound. -/
theorem exists_word_iff {P : Nat → Prop} : (∃ n < Power.two w.bits, P n) ↔ ∃ n, P (w.toNat n) := by
  cases w with
  | byte => exact Numeral.exists_byte_iff
  | word64 => exact Numeral.exists_word64_iff
  | word256 => exact Numeral.exists_word256_iff

/-! ## All texts -/

theorem exists_read_iff :
    (∃ n, w.read argument text = .ok n) ↔ ∃ n < Power.two w.bits, Denotes text n := by
  simp only [read_eq_ok_iff, exists_word_iff]

theorem decides_read (w : Width) (argument text : String) :
    w.Decides argument text (w.read argument text) where
  improper h := by
    refine read_eq_error_iff.2 (.improper ?_)
    intro n hn
    exact h (denotes_iff_typed.1 hn).1
  tooLarge h hle := read_eq_error_iff.2 (.tooLarge (denotes_iff_typed.2 ⟨h, rfl⟩) hle)
  exact h hlt := by
    have hdenotes : Denotes text (typedValue text) := denotes_iff_typed.2 ⟨h, rfl⟩
    obtain ⟨n, hn⟩ := exists_read_iff.2 ⟨_, hlt, hdenotes⟩
    exact ⟨n, hn, (read_eq_ok_iff.1 hn).unique hdenotes⟩

/-- A wider reader reads what a narrower one does. -/
theorem exists_read_of_le (h : v.bits ≤ w.bits) (hread : ∃ m, v.read argument text = .ok m) :
    ∃ n, w.read other text = .ok n := by
  obtain ⟨n, hn, hdenotes⟩ := exists_read_iff.1 hread
  have hbound : Power.two v.bits ≤ Power.two w.bits := Nat.pow_le_pow_right (by decide) h
  exact exists_read_iff.2 ⟨n, Nat.lt_of_lt_of_le hn hbound, hdenotes⟩

end Width

/-- Every text is decided alike at every width: by its form, then by its value.  Two readers
never read one text as two numbers, a wider reader reads all that a narrower one reads, and
the numeral of a number is read as the number. -/
theorem widths_decided :
    (∀ (w : Width) argument text, w.Decides argument text (w.read argument text))
      ∧ (∀ (v w : Width) argument other text m n, v.read argument text = .ok m →
        w.read other text = .ok n → v.toNat m = w.toNat n)
      ∧ (∀ (v w : Width) argument other text m, v.bits ≤ w.bits → v.read argument text = .ok m →
        ∃ n, w.read other text = .ok n)
      ∧ ∀ (w : Width) argument n, w.read argument (Numeral.decimal (w.toNat n)) = .ok n := by
  refine ⟨Width.decides_read, ?_, ?_, ?_⟩
  · intro v w argument other text m n hm hn
    exact (Width.read_eq_ok_iff.1 hm).unique (Width.read_eq_ok_iff.1 hn)
  · intro v w argument other text m hle hm
    exact Width.exists_read_of_le hle ⟨m, hm⟩
  · intro w argument n
    exact Width.read_eq_ok_iff.2 (denotes_decimal _)

end Number

end TokenMarket
