import TokenMarket.Deploy.Number
import TokenMarket.Proofs.Blank
import TokenMarket.Proofs.Error
import TokenMarket.Proofs.Numeral

/-!
# What a typed number denotes

`Number.Denotes` says which number a text denotes, for any number of digits and
without a width.  The readers know a width each.  Their results and their
complaints are told here from what the text denotes, so that no later proof has to
look at digits again.

* `readBelow_eq_ok_iff` and `readBelow_eq_error_iff` settle all widths at once.
* The readers of words differ from `readBelow` in the type of the answer only, and
  `map_readBelow_eq_ok_iff` takes that step.
* A commission is a byte that is looked at once more, and may be above a hundred
  (`commission_eq_error_iff`).
-/

namespace TokenMarket.Number

/-- The text, without the blanks at its ends, is one digit or more, and they denote
the number. -/
def Denotes (text : String) (n : Nat) : Prop :=
  Text.trimBoth text.toList ≠ [] ∧ (∀ c ∈ Text.trimBoth text.toList, c.isDigit = true)
    ∧ n = Numeral.valueOf (Text.trimBoth text.toList)

/-- Why a text is no number below a bound.  Messages call the numbers below it the
range. -/
inductive Fault (bound : Nat) (range argument text : String) : Error → Prop
  /-- It denotes no number. -/
  | improper (h : ∀ n, ¬ Denotes text n) :
      Fault bound range argument text
        (.invalidArgument argument ("'" ++ text ++ "' is not an unsigned decimal integer"))
  /-- It denotes one that is too large. -/
  | tooLarge {n : Nat} (h : Denotes text n) (hn : bound ≤ n) :
      Fault bound range argument text (.argumentOutOfRange argument (Text.trim text) range)

/-- Why a text is no byte. -/
def ByteFault : (argument text : String) → Error → Prop := Fault UInt8.size "0..=255"

/-- Why a text is no number of 64 bits. -/
def Word64Fault : (argument text : String) → Error → Prop := Fault UInt64.size "0..2^64"

/-- Why a text is no number of 256 bits. -/
def Word256Fault : (argument text : String) → Error → Prop := Fault (Power.two 256) "0..2^256"

/-- The text denotes a byte that is more than a hundred percent. -/
def AboveHundred (text : String) (e : Error) : Prop :=
  ∃ n, Denotes text n ∧ 100 < n ∧ n ≤ 255
    ∧ e = .argumentOutOfRange "comission" (Numeral.decimal n) "0..=100"

variable {bound : Nat} {range argument text : String} {m n : Nat} {e : Error}

theorem Denotes.unique (hm : Denotes text m) (hn : Denotes text n) : m = n := by
  rw [hm.2.2, hn.2.2]

theorem read?_trimBoth_eq_some_iff :
    Numeral.read? (Text.trimBoth text.toList) = some n ↔ Denotes text n :=
  Numeral.read?_eq_some_iff

/-- The numeral of a number denotes it. -/
theorem denotes_decimal (n : Nat) : Denotes (Numeral.decimal n) n := by
  have hgraphic : ∀ c ∈ Numeral.digits n, Text.isBlank c = false := by
    intro c hc
    have hcode := Numeral.toNat_of_isDigit (Numeral.isDigit_of_mem_digits n c hc)
    exact Text.isBlank_of_graphic (by omega) (by omega)
  have htrim : Text.trimBoth (Numeral.decimal n).toList = Numeral.digits n := by
    rw [Numeral.decimal, String.toList_ofList, Text.trimBoth_of_not_isBlank hgraphic]
  rw [← read?_trimBoth_eq_some_iff, htrim, Numeral.read?_digits]

/-! ## All widths -/

theorem readBelow_eq_ok_iff {w : { n : Nat // n < bound }} :
    readBelow bound range argument text = .ok w ↔ Denotes text w.1 := by
  rw [← read?_trimBoth_eq_some_iff]
  simp only [readBelow]
  cases Numeral.read? (Text.trimBoth text.toList) with
  | none => simp
  | some n =>
    by_cases hn : n < bound
    · simp [hn, Subtype.ext_iff]
    · have hne : n ≠ w.1 := fun heq => hn (heq ▸ w.2)
      simp [hn, hne]

theorem readBelow_eq_error_iff :
    readBelow bound range argument text = .error e ↔ Fault bound range argument text e := by
  simp only [readBelow]
  cases hread : Numeral.read? (Text.trimBoth text.toList) with
  | none =>
    have hnone : ∀ n, ¬ Denotes text n := by
      intro n hn
      rw [← read?_trimBoth_eq_some_iff, hread] at hn
      simp at hn
    constructor
    · intro h
      obtain rfl := Except.error.inj h
      exact .improper hnone
    · intro h
      cases h with
      | improper => rfl
      | tooLarge hn => exact absurd hn (hnone _)
  | some n =>
    have hdenotes : Denotes text n := read?_trimBoth_eq_some_iff.1 hread
    by_cases hn : n < bound
    · simp only [dif_pos hn, reduceCtorEq, false_iff]
      intro h
      cases h with
      | improper hnone => exact hnone n hdenotes
      | tooLarge hm hle =>
        have := hm.unique hdenotes
        omega
    · simp only [dif_neg hn]
      constructor
      · intro h
        obtain rfl := Except.error.inj h
        exact .tooLarge hdenotes (by omega)
      · intro h
        cases h with
        | improper hnone => exact absurd hdenotes (hnone n)
        | tooLarge => rfl

/-- The bound does not matter to a reader that answers with words of another type,
one for each number below it. -/
theorem map_readBelow_eq_ok_iff {W : Type} {toNat : W → Nat} {f : { n : Nat // n < bound } → W}
    (hf : ∀ n, toNat (f n) = n.1) (hinj : Function.Injective toNat) (hlt : ∀ w, toNat w < bound)
    {w : W} : (readBelow bound range argument text).map f = .ok w ↔ Denotes text (toNat w) := by
  have hword : ∀ n, f n = w ↔ n = ⟨toNat w, hlt w⟩ := by
    intro n
    rw [← hinj.eq_iff, hf, Subtype.ext_iff]
  have hok : readBelow bound range argument text = .ok ⟨toNat w, hlt w⟩
      ↔ Denotes text (toNat w) := readBelow_eq_ok_iff
  rw [← hok]
  cases readBelow bound range argument text with
  | ok n => simp [Except.map, hword]
  | error e => simp [Except.map]

/-! ## Words -/

theorem readByte_eq_ok_iff {b : UInt8} : readByte argument text = .ok b ↔ Denotes text b.toNat :=
  map_readBelow_eq_ok_iff (fun _ => UInt8.toNat_ofNatLT) (fun _ _ => UInt8.toNat_inj.1)
    UInt8.toNat_lt_size

theorem readWord64_eq_ok_iff {w : UInt64} :
    readWord64 argument text = .ok w ↔ Denotes text w.toNat :=
  map_readBelow_eq_ok_iff (fun _ => UInt64.toNat_ofNatLT) (fun _ _ => UInt64.toNat_inj.1)
    UInt64.toNat_lt_size

theorem readWord256_eq_ok_iff {w : BitVec 256} :
    readWord256 argument text = .ok w ↔ Denotes text w.toNat :=
  map_readBelow_eq_ok_iff (fun _ => BitVec.toNat_ofNatLT _ _) (fun _ _ => BitVec.toNat_inj.1)
    BitVec.isLt

theorem readByte_eq_error_iff :
    readByte argument text = .error e ↔ ByteFault argument text e := by
  rw [readByte, Error.map_eq_error_iff, readBelow_eq_error_iff, ByteFault]

theorem readWord64_eq_error_iff :
    readWord64 argument text = .error e ↔ Word64Fault argument text e := by
  rw [readWord64, Error.map_eq_error_iff, readBelow_eq_error_iff, Word64Fault]

theorem readWord256_eq_error_iff :
    readWord256 argument text = .error e ↔ Word256Fault argument text e := by
  rw [readWord256, Error.map_eq_error_iff, readBelow_eq_error_iff, Word256Fault]

/-! ## Commissions -/

theorem commission_eq_ok_iff {b c : UInt8} : commission b = .ok c ↔ b = c ∧ c.toNat ≤ 100 := by
  by_cases hb : b.toNat ≤ maxCommission
  · rw [commission, if_pos hb, Except.ok.injEq]
    exact ⟨fun h => ⟨h, h ▸ hb⟩, And.left⟩
  · rw [commission, if_neg hb]
    simp only [reduceCtorEq, false_iff]
    rintro ⟨rfl, hc⟩
    exact hb hc

/-- A byte that was read is complained about if it is above a hundred. -/
theorem commission_eq_error_iff {b : UInt8} (hb : Denotes text b.toNat) :
    commission b = .error e ↔ AboveHundred text e := by
  have hlt : b.toNat < 256 := b.toNat_lt
  by_cases hle : b.toNat ≤ maxCommission
  · rw [commission, if_pos hle]
    simp only [reduceCtorEq, false_iff]
    rintro ⟨n, hn, hgt, -, -⟩
    have := hn.unique hb
    simp only [maxCommission] at hle
    omega
  · rw [commission, if_neg hle, Except.error.injEq]
    simp only [maxCommission] at hle
    constructor
    · rintro rfl
      exact ⟨b.toNat, hb, by omega, by omega, rfl⟩
    · rintro ⟨n, hn, -, -, rfl⟩
      rw [hn.unique hb]

end TokenMarket.Number
