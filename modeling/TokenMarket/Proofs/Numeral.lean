import TokenMarket.Power
import TokenMarket.Text.Numeral

/-!
# Decimal numerals read back

`Numeral.digits` writes a number and four readers take it in again.  The
writer never writes an empty text, never anything but digits, and never a
sign, so every reader finds the number that was written, as long as its
width can hold it.

What the readers have in common is a meaning without a width.  `Unsigned`
and `Signed` say which number a text denotes.  A reader of words answers
with the word of that number (`readWord64?_eq_some_iff`), and it has an
answer exactly if the number is below its bound
(`exists_readWord64?_iff`).  `exists_lt_iff` is the step between the two,
for all widths at once.
-/

namespace TokenMarket.Numeral

/-! ## One digit -/

theorem digitValue_digit {n : Nat} (h : n < 10) : digitValue (digit n) = n := by
  have hall : ∀ d, d < 10 → digitValue (digit d) = d := by decide
  exact hall n h

theorem isDigit_digit {n : Nat} (h : n < 10) : (digit n).isDigit = true := by
  have hall : ∀ d, d < 10 → (digit d).isDigit = true := by decide
  exact hall n h

/-! ## All digits -/

theorem digits_ne_nil (n : Nat) : digits n ≠ [] := by
  rw [digits]
  split <;> simp

theorem isDigit_of_mem_digits (n : Nat) : ∀ c ∈ digits n, c.isDigit = true := by
  fun_induction digits n with
  | case1 n h =>
    intro c hc
    rw [List.mem_singleton.1 hc]
    exact isDigit_digit h
  | case2 n h ih =>
    intro c hc
    rcases List.mem_append.1 hc with hc | hc
    · exact ih c hc
    · rw [List.mem_singleton.1 hc]
      exact isDigit_digit (Nat.mod_lt n (by decide))

/-- A numeral begins with a digit. -/
theorem exists_digits_cons (n : Nat) : ∃ c cs, digits n = c :: cs ∧ c.isDigit = true := by
  obtain ⟨c, cs, hcs⟩ := List.exists_cons_of_ne_nil (digits_ne_nil n)
  exact ⟨c, cs, hcs, isDigit_of_mem_digits n c (hcs ▸ List.mem_cons_self)⟩

/-- The codes of the digits. -/
theorem toNat_of_isDigit {c : Char} (h : c.isDigit = true) : 48 ≤ c.toNat ∧ c.toNat ≤ 57 := by
  simpa [Char.isDigit, UInt32.le_iff_toNat_le] using h

/-- A character that is no digit does not occur in a numeral. -/
theorem not_mem_digits {c : Char} (h : c.isDigit = false) (n : Nat) : c ∉ digits n := by
  intro hc
  rw [isDigit_of_mem_digits n c hc] at h
  exact Bool.noConfusion h

/-- A digit behind a run of digits takes the last place. -/
theorem valueOf_append_singleton (cs : List Char) (c : Char) :
    valueOf (cs ++ [c]) = 10 * valueOf cs + digitValue c := by
  simp [valueOf]

/-- A numeral denotes the number that was written. -/
theorem valueOf_digits (n : Nat) : valueOf (digits n) = n := by
  fun_induction digits n with
  | case1 n h =>
    have := digitValue_digit h
    simpa [valueOf] using this
  | case2 n h ih =>
    rw [valueOf_append_singleton, ih, digitValue_digit (Nat.mod_lt n (by decide))]
    omega

/-- A numeral of more than one digit does not start with zero. -/
theorem digits_zero_cons {n : Nat} {cs : List Char} (h : digits n = '0' :: cs) :
    cs = [] := by
  fun_induction digits n generalizing cs with
  | case1 n hn => exact (List.cons.inj h).2.symm
  | case2 n hn ih =>
    -- The leading digits would be those of a number below ten, and of zero.
    obtain ⟨lead, hlead⟩ : ∃ lead, digits (n / 10) = '0' :: lead := by
      cases hdigits : digits (n / 10) with
      | nil => exact absurd hdigits (digits_ne_nil _)
      | cons c lead =>
        rw [hdigits] at h
        exact ⟨lead, by rw [(List.cons.inj h).1]⟩
    obtain rfl := ih hlead
    have hzero : n / 10 = 0 := by
      rw [← valueOf_digits (n / 10), hlead]
      rfl
    omega

/-- The way in which a number is written: one digit or more, which denote it, and
no zero in front of others. -/
structure Canonical (cs : List Char) (n : Nat) : Prop where
  ne_nil : cs ≠ []
  isDigit : ∀ c ∈ cs, c.isDigit = true
  valueOf_eq : valueOf cs = n
  eq_zero : cs.head? = some '0' → cs = ['0']

theorem canonical_digits (n : Nat) : Canonical (digits n) n where
  ne_nil := digits_ne_nil n
  isDigit := isDigit_of_mem_digits n
  valueOf_eq := valueOf_digits n
  eq_zero := by
    intro h
    obtain ⟨cs, hcs⟩ := List.head?_eq_some_iff.1 h
    rw [hcs, digits_zero_cons hcs]

/-- Different numbers have different numerals. -/
theorem decimal_injective : Function.Injective decimal := by
  intro m n h
  have hdigits : digits m = digits n := String.ofList_injective h
  rw [← valueOf_digits m, hdigits, valueOf_digits]

/-! ## The readers -/

theorem read?_digits (n : Nat) : read? (digits n) = some n := by
  have hall : (digits n).all Char.isDigit = true := List.all_eq_true.2 (isDigit_of_mem_digits n)
  rw [read?, if_pos ⟨digits_ne_nil n, hall⟩, valueOf_digits]

theorem readSigned?_digits (n : Nat) : readSigned? (digits n) = some n := by
  cases hcs : digits n with
  | nil => exact absurd hcs (digits_ne_nil n)
  | cons c cs =>
    have hc : c ≠ '+' := by
      rintro rfl
      exact not_mem_digits (by decide) n (hcs ▸ List.mem_cons_self)
    have hread := read?_digits n
    rw [hcs] at hread
    unfold readSigned?
    split
    · next heq =>
      injection heq with hhead _
      exact absurd hhead hc
    · exact hread

/-! ## Meaning -/

/-- A numeral without a sign: one digit or more, which denote `n`. -/
def Unsigned (cs : List Char) (n : Nat) : Prop :=
  cs ≠ [] ∧ (∀ c ∈ cs, c.isDigit = true) ∧ n = valueOf cs

/-- A numeral of the signed form: one digit or more, with at most one plus
sign in front, which denotes `n`. -/
def Signed (cs : List Char) (n : Nat) : Prop :=
  ∃ run, (cs = run ∨ cs = '+' :: run) ∧ run ≠ [] ∧ (∀ c ∈ run, c.isDigit = true) ∧ n = valueOf run

theorem read?_eq_some_iff {cs : List Char} {n : Nat} :
    read? cs = some n ↔ Unsigned cs n := by
  rw [read?, Unsigned]
  split
  · next h =>
    obtain ⟨hne, hall⟩ := h
    simp only [Option.some.injEq]
    exact ⟨fun heq => ⟨hne, List.all_eq_true.1 hall, heq.symm⟩, fun heq => heq.2.2.symm⟩
  · next h =>
    simp only [reduceCtorEq, false_iff]
    rintro ⟨hne, hall, _⟩
    exact h ⟨hne, List.all_eq_true.2 hall⟩

/-- The signed reader takes the numerals of the signed form, and nothing
else. -/
theorem readSigned?_eq_some_iff {cs : List Char} {n : Nat} :
    readSigned? cs = some n ↔ Signed cs n := by
  have hplus : ('+').isDigit = false := by decide
  unfold readSigned?
  split
  · next run =>
    rw [read?_eq_some_iff]
    constructor
    · rintro ⟨hne, hall, hn⟩
      exact ⟨run, Or.inr rfl, hne, hall, hn⟩
    · rintro ⟨other, heq | heq, hne, hall, hn⟩
      · have hdigit := hall '+' (heq ▸ List.mem_cons_self)
        rw [hplus] at hdigit
        exact Bool.noConfusion hdigit
      · obtain rfl : run = other := List.tail_eq_of_cons_eq heq
        exact ⟨hne, hall, hn⟩
  · next hsign =>
    rw [read?_eq_some_iff]
    constructor
    · rintro ⟨hne, hall, hn⟩
      exact ⟨cs, Or.inl rfl, hne, hall, hn⟩
    · rintro ⟨run, rfl | rfl, hne, hall, hn⟩
      · exact ⟨hne, hall, hn⟩
      · exact absurd rfl (hsign run)

/-- A text denotes at most one number. -/
theorem Signed.unique {cs : List Char} {m n : Nat} (hm : Signed cs m) (hn : Signed cs n) :
    m = n := by
  rw [← readSigned?_eq_some_iff] at hm hn
  exact Option.some.inj (hm.symm.trans hn)

/-- There is a digit in every numeral. -/
theorem Unsigned.exists_isDigit {cs : List Char} {n : Nat} (h : Unsigned cs n) :
    ∃ c ∈ cs, c.isDigit = true := by
  obtain ⟨hne, hall, -⟩ := h
  obtain ⟨c, hc⟩ := List.exists_mem_of_ne_nil cs hne
  exact ⟨c, hc, hall c hc⟩

theorem Signed.exists_isDigit {cs : List Char} {n : Nat} (h : Signed cs n) :
    ∃ c ∈ cs, c.isDigit = true := by
  obtain ⟨run, hcs, hrun⟩ := h
  obtain ⟨c, hc, hdigit⟩ := Unsigned.exists_isDigit hrun
  rcases hcs with rfl | rfl
  · exact ⟨c, hc, hdigit⟩
  · exact ⟨c, List.mem_cons_of_mem '+' hc, hdigit⟩

/-- The empty text is no numeral, whatever the width. -/
theorem not_exists_signed_nil {bound : Nat} : ¬ ∃ n < bound, Signed [] n := by
  intro ⟨n, _, hn⟩
  obtain ⟨c, hc, -⟩ := hn.exists_isDigit
  exact List.not_mem_nil hc

theorem not_exists_unsigned_nil {bound : Nat} : ¬ ∃ n < bound, Unsigned [] n :=
  fun ⟨_, _, hn⟩ => hn.1 rfl

theorem unsigned_digits (n : Nat) : Unsigned (digits n) n :=
  ⟨digits_ne_nil n, isDigit_of_mem_digits n, (valueOf_digits n).symm⟩

theorem signed_digits (n : Nat) : Signed (digits n) n :=
  readSigned?_eq_some_iff.1 (readSigned?_digits n)

/-! ## Widths -/

/-- A number below the bound has a word, which is the one that stands for it, and other
numbers have none. -/
theorem word?_eq_some_iff {W : Type} {bound n : Nat} {w : W} (word : (n : Nat) → n < bound → W)
    (toNat : W → Nat) (hword : ∀ n h, toNat (word n h) = n) (hinj : Function.Injective toNat)
    (hlt : ∀ w, toNat w < bound) :
    (if h : n < bound then some (word n h) else none) = some w ↔ n = toNat w := by
  by_cases h : n < bound
  · rw [dif_pos h, Option.some.injEq, ← hinj.eq_iff, hword]
  · have hne : n ≠ toNat w := fun heq => h (heq ▸ hlt w)
    simp [dif_neg h, hne]

/-- An integer has the word that stands for it. -/
theorem toWord64?_eq_some_iff {n : Int} {w : UInt64} : toWord64? n = some w ↔ n = w.toNat := by
  cases n with
  | ofNat n =>
    refine (word?_eq_some_iff UInt64.ofNatLT UInt64.toNat (fun _ _ => UInt64.toNat_ofNatLT)
      (fun _ _ => UInt64.toNat_inj.1) UInt64.toNat_lt_size).trans ?_
    exact Int.ofNat_inj.symm
  | negSucc n => simp [toWord64?]

/-- The reader of words takes the numerals that denote a word. -/
theorem readWord64?_eq_some_iff {cs : List Char} {w : UInt64} :
    readWord64? cs = some w ↔ Signed cs w.toNat := by
  simp only [readWord64?, Option.bind_eq_some_iff, readSigned?_eq_some_iff, toWord64?_eq_some_iff,
    Int.ofNat_inj]
  exact ⟨fun ⟨n, hn, heq⟩ => heq ▸ hn, fun h => ⟨_, h, rfl⟩⟩

theorem readByte?_eq_some_iff {cs : List Char} {b : UInt8} :
    readByte? cs = some b ↔ Signed cs b.toNat := by
  have hbyte : ∀ n : Nat, (if h : n < UInt8.size then some (UInt8.ofNatLT n h) else none) = some b
      ↔ n = b.toNat := fun n =>
    word?_eq_some_iff UInt8.ofNatLT UInt8.toNat (fun _ _ => UInt8.toNat_ofNatLT)
      (fun _ _ => UInt8.toNat_inj.1) UInt8.toNat_lt_size
  simp only [readByte?, Option.bind_eq_some_iff, readSigned?_eq_some_iff, hbyte]
  exact ⟨fun ⟨n, hn, heq⟩ => heq ▸ hn, fun h => ⟨_, h, rfl⟩⟩

/-- No digits are read as 0 here, so the law of this reader is about the others. -/
theorem readWord256?_eq_some_iff {cs : List Char} {p : BitVec 256} (hne : cs ≠ []) :
    readWord256? cs = some p ↔ Unsigned cs p.toNat := by
  rw [readWord256?, Unsigned]
  split
  · next hall =>
    have hdigits := List.all_eq_true.1 hall
    refine (word?_eq_some_iff BitVec.ofNatLT BitVec.toNat (fun _ _ => BitVec.toNat_ofNatLT _ _)
      (fun _ _ => BitVec.toNat_inj.1) BitVec.isLt).trans ?_
    exact ⟨fun heq => ⟨hne, hdigits, heq.symm⟩, fun h => h.2.2.symm⟩
  · next hall =>
    simp only [reduceCtorEq, false_iff]
    exact fun h => hall (List.all_eq_true.2 h.2.1)

/-- The words of a type are the numbers below its bound. -/
theorem exists_lt_iff {W : Type} {toNat : W → Nat} {bound : Nat} {P : Nat → Prop}
    (hlt : ∀ w, toNat w < bound) (hword : ∀ n, n < bound → ∃ w, toNat w = n) :
    (∃ n < bound, P n) ↔ ∃ w, P (toNat w) := by
  constructor
  · intro ⟨n, hn, hP⟩
    obtain ⟨w, rfl⟩ := hword n hn
    exact ⟨w, hP⟩
  · intro ⟨w, hP⟩
    exact ⟨toNat w, hlt w, hP⟩

theorem exists_byte_iff {P : Nat → Prop} : (∃ n < UInt8.size, P n) ↔ ∃ b : UInt8, P b.toNat :=
  exists_lt_iff UInt8.toNat_lt_size fun n h => ⟨UInt8.ofNatLT n h, UInt8.toNat_ofNatLT⟩

theorem exists_word64_iff {P : Nat → Prop} : (∃ n < UInt64.size, P n) ↔ ∃ w : UInt64, P w.toNat :=
  exists_lt_iff UInt64.toNat_lt_size fun n h => ⟨UInt64.ofNatLT n h, UInt64.toNat_ofNatLT⟩

theorem exists_word256_iff {P : Nat → Prop} :
    (∃ n < Power.two 256, P n) ↔ ∃ w : BitVec 256, P w.toNat :=
  exists_lt_iff BitVec.isLt fun n h => ⟨BitVec.ofNatLT n h, BitVec.toNat_ofNatLT n h⟩

/-- A word is read where there is a numeral of one, and nowhere else. -/
theorem exists_readWord64?_iff {cs : List Char} :
    (∃ w, readWord64? cs = some w) ↔ ∃ n < UInt64.size, Signed cs n := by
  simp only [readWord64?_eq_some_iff, exists_word64_iff]

theorem exists_readByte?_iff {cs : List Char} :
    (∃ b, readByte? cs = some b) ↔ ∃ n < UInt8.size, Signed cs n := by
  simp only [readByte?_eq_some_iff, exists_byte_iff]

theorem exists_readWord256?_iff {cs : List Char} (hne : cs ≠ []) :
    (∃ p, readWord256? cs = some p) ↔ ∃ n < Power.two 256, Unsigned cs n := by
  simp only [readWord256?_eq_some_iff hne, exists_word256_iff]

theorem readWord64?_eq_none_iff {cs : List Char} :
    readWord64? cs = none ↔ ¬ ∃ n < UInt64.size, Signed cs n := by
  rw [← exists_readWord64?_iff, ← Option.isSome_iff_exists, Option.not_isSome_iff_eq_none]

end TokenMarket.Numeral
