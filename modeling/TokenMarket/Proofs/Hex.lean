import TokenMarket.Text.Hex

/-!
# Hexadecimal bytes read back

`Hex.encode` writes bytes in lower-case digits, and `Hex.decode` reads digits of
either case.  Reading what was written gives the bytes again.  Writing what was
read gives the text again only up to the case of its digits.

There are two groups.

* One digit.  `digit_of_digitValue?` is the second direction for a digit, and the
  bytes follow from it pair by pair.
* All digits.  `exists_decode_iff` says which texts are bytes, and
  `decode_eq_some_iff` which bytes a text is.  `decode_append` goes on behind bytes
  that were written.
-/

namespace TokenMarket.Hex

/-! ## One digit -/

/-- A digit of either case. -/
def Digit (c : Char) : Prop :=
  ('0' ≤ c ∧ c ≤ '9') ∨ ('a' ≤ c ∧ c ≤ 'f') ∨ ('A' ≤ c ∧ c ≤ 'F')

instance (c : Char) : Decidable (Digit c) :=
  inferInstanceAs (Decidable (_ ∨ _))

/-- A digit in the form in which bytes are written. -/
def LowerDigit (c : Char) : Prop :=
  ('0' ≤ c ∧ c ≤ '9') ∨ ('a' ≤ c ∧ c ≤ 'f')

instance (c : Char) : Decidable (LowerDigit c) :=
  inferInstanceAs (Decidable (_ ∨ _))

variable {c : Char} {n : Nat} {cs : List Char} {bytes : List UInt8}

theorem LowerDigit.digit (h : LowerDigit c) : Digit c := by
  rcases h with h | h
  · exact Or.inl h
  · exact Or.inr (Or.inl h)

/-- The codes of the digits. -/
theorem digit_iff_toNat :
    Digit c ↔ (48 ≤ c.toNat ∧ c.toNat ≤ 57) ∨ (97 ≤ c.toNat ∧ c.toNat ≤ 102)
      ∨ (65 ≤ c.toNat ∧ c.toNat ≤ 70) :=
  Iff.rfl

/-- The digits are the characters that have a value. -/
theorem isDigit_iff : isDigit c = true ↔ Digit c := by
  rw [digit_iff_toNat]
  simp only [isDigit, digitValue?]
  split
  · simp; omega
  split
  · simp; omega
  split
  · simp; omega
  · simp; omega

/-- A digit is read as the number that it was written for. -/
theorem digitValue?_digit (h : n < 16) : digitValue? (digit n) = some n := by
  have hall : ∀ d, d < 16 → digitValue? (digit d) = some d := by decide
  exact hall n h

/-- A number below 16 is written with a lower-case digit. -/
theorem lowerDigit_digit (h : n < 16) : LowerDigit (digit n) := by
  have hall : ∀ d, d < 16 → LowerDigit (digit d) := by decide
  exact hall n h

/-- The value of a digit is below 16, and is written as the digit in lower case. -/
theorem digit_of_digitValue? (h : digitValue? c = some n) : n < 16 ∧ digit n = c.toLower := by
  have hdigit : Digit c := isDigit_iff.1 (by rw [isDigit, h]; rfl)
  have hcode : c.toNat < 103 := by
    rw [digit_iff_toNat] at hdigit
    omega
  have hall : ∀ k, k < 103 → ∀ v ∈ digitValue? (Char.ofNat k),
      v < 16 ∧ digit v = (Char.ofNat k).toLower := by decide
  have hchar := hall c.toNat hcode n
  rw [Char.ofNat_toNat] at hchar
  exact hchar h

theorem toNat_toLower (c : Char) :
    c.toLower.toNat = if 65 ≤ c.toNat ∧ c.toNat ≤ 90 then c.toNat + 32 else c.toNat := by
  unfold Char.toLower
  simp only [Char.toNat, ge_iff_le, UInt32.le_iff_toNat_le]
  split
  · next h =>
    have hlow : 65 ≤ c.val.toNat := h.1
    have hhigh : c.val.toNat ≤ 90 := h.2
    have hdistance : ('a'.val - 'A'.val).toNat = 32 := rfl
    rw [if_pos ⟨hlow, hhigh⟩, UInt32.toNat_add, hdistance]
    omega
  · next h =>
    have hout : ¬ (65 ≤ c.val.toNat ∧ c.val.toNat ≤ 90) := h
    rw [if_neg hout]

/-- Only a digit has a digit as its lower-case form. -/
theorem digit_of_toLower (h : LowerDigit c.toLower) : Digit c := by
  have hlower := digit_iff_toNat.1 h.digit
  rw [toNat_toLower] at hlower
  rw [digit_iff_toNat]
  split at hlower <;> omega

/-- The other case of a digit is a digit, and the first case can be had back. -/
theorem toLower_toUpper (h : LowerDigit c) : Digit c.toUpper ∧ c.toUpper.toLower = c := by
  have hcode : c.toNat < 103 := by
    have := digit_iff_toNat.1 h.digit
    omega
  have hall : ∀ k, k < 103 → LowerDigit (Char.ofNat k) →
      Digit (Char.ofNat k).toUpper ∧ (Char.ofNat k).toUpper.toLower = Char.ofNat k := by decide
  have hchar := hall c.toNat hcode
  rw [Char.ofNat_toNat] at hchar
  exact hchar h

/-! ## All digits -/

/-- A text of bytes: digits of either case, and two for every byte. -/
def Paired (cs : List Char) : Prop :=
  2 ∣ cs.length ∧ ∀ c ∈ cs, Digit c

instance (cs : List Char) : Decidable (Paired cs) :=
  @instDecidableAnd _ _ inferInstance (List.decidableBAll Digit cs)

theorem paired_cons_cons {a b : Char} : Paired (a :: b :: cs) ↔ Digit a ∧ Digit b ∧ Paired cs := by
  have hlength : 2 ∣ (a :: b :: cs).length ↔ 2 ∣ cs.length := by
    simp only [List.length_cons]
    omega
  simp only [Paired, hlength, List.forall_mem_cons]
  constructor
  · intro ⟨heven, ha, hb, hrest⟩
    exact ⟨ha, hb, heven, hrest⟩
  · intro ⟨ha, hb, heven, hrest⟩
    exact ⟨heven, ha, hb, hrest⟩

theorem exists_digitValue?_iff : (∃ n, digitValue? c = some n) ↔ Digit c := by
  rw [← isDigit_iff, isDigit, Option.isSome_iff_exists]

/-- Exactly the texts of bytes are decoded. -/
theorem exists_decode_iff : (∃ bytes, decode cs = some bytes) ↔ Paired cs := by
  fun_induction decode cs with
  | case1 => simp [Paired]
  | case2 c => simp [Paired]
  | case3 a b rest ih =>
    rw [paired_cons_cons, ← ih, ← exists_digitValue?_iff, ← exists_digitValue?_iff]
    simp only [Option.bind_eq_bind, Option.bind_eq_some_iff, Option.pure_def, Option.some.injEq]
    constructor
    · rintro ⟨_, high, hhigh, low, hlow, bytes, hrest, -⟩
      exact ⟨⟨high, hhigh⟩, ⟨low, hlow⟩, bytes, hrest⟩
    · rintro ⟨⟨high, hhigh⟩, ⟨low, hlow⟩, bytes, hrest⟩
      exact ⟨_, high, hhigh, low, hlow, bytes, hrest, rfl⟩

theorem decode_eq_none_iff : decode cs = none ↔ ¬ Paired cs := by
  rw [← exists_decode_iff, ← Option.isSome_iff_exists, Option.not_isSome_iff_eq_none]

theorem paired_of_decode (h : decode cs = some bytes) : Paired cs :=
  exists_decode_iff.1 ⟨bytes, h⟩

/-- Every byte is written with two digits. -/
@[simp] theorem length_encode (bytes : List UInt8) : (encode bytes).length = 2 * bytes.length := by
  induction bytes with
  | nil => rfl
  | cons b bytes ih =>
    have hcons : (encode (b :: bytes)).length = (encode bytes).length + 2 := by
      simp [encode, encodeByte]
    rw [hcons, ih, List.length_cons]
    omega

@[simp] theorem encode_append (front back : List UInt8) :
    encode (front ++ back) = encode front ++ encode back :=
  List.flatMap_append

/-- The digits of the first bytes are the first digits. -/
theorem encode_take (count : Nat) (bytes : List UInt8) :
    encode (bytes.take count) = (encode bytes).take (2 * count) := by
  by_cases h : count ≤ bytes.length
  · have hlength : (encode (bytes.take count)).length = 2 * count := by
      rw [length_encode, List.length_take, Nat.min_eq_left h]
    have hsplit : encode bytes = encode (bytes.take count) ++ encode (bytes.drop count) := by
      rw [← encode_append, List.take_append_drop]
    rw [hsplit, ← hlength, List.take_left]
  · have hlength : (encode bytes).length ≤ 2 * count := by
      rw [length_encode]
      omega
    rw [List.take_of_length_le (by omega), List.take_of_length_le hlength]

/-- The digits of bytes are lower-case. -/
theorem lowerDigit_of_mem_encode (h : c ∈ encode bytes) : LowerDigit c := by
  obtain ⟨b, -, hb⟩ := List.mem_flatMap.1 h
  have hlt : b.toNat < 256 := b.toNat_lt
  simp only [encodeByte, List.mem_cons, List.not_mem_nil, or_false] at hb
  rcases hb with rfl | rfl
  · exact lowerDigit_digit (by omega)
  · exact lowerDigit_digit (by omega)

/-- The digits of bytes are decoded to the bytes, and what follows them goes on. -/
theorem decode_append (bytes : List UInt8) (tail : List Char) :
    decode (encode bytes ++ tail) = (decode tail).map (bytes ++ ·) := by
  induction bytes with
  | nil => simp [encode]
  | cons b bytes ih =>
    have hlt : b.toNat < 256 := b.toNat_lt
    have hhigh : digitValue? (digit (b.toNat / 16)) = some (b.toNat / 16) :=
      digitValue?_digit (by omega)
    have hlow : digitValue? (digit (b.toNat % 16)) = some (b.toNat % 16) :=
      digitValue?_digit (by omega)
    have hbyte : UInt8.ofNat (16 * (b.toNat / 16) + b.toNat % 16) = b := by
      rw [Nat.div_add_mod]
      exact UInt8.ofNat_toNat
    have hcons : encode (b :: bytes) ++ tail
        = digit (b.toNat / 16) :: digit (b.toNat % 16) :: (encode bytes ++ tail) := rfl
    rw [hcons, decode, hhigh, hlow, ih]
    cases decode tail with
    | none => rfl
    | some rest =>
      simp only [Option.bind_eq_bind, Option.bind_some, Option.map_some, hbyte]
      rfl

/-- The digits of bytes are decoded to the bytes. -/
theorem decode_encode (bytes : List UInt8) : decode (encode bytes) = some bytes := by
  simpa [decode] using decode_append bytes []

/-- Different bytes have different digits. -/
theorem encode_injective : Function.Injective encode := by
  intro front back h
  have hdecode := decode_encode front
  rw [h, decode_encode] at hdecode
  exact (Option.some.inj hdecode).symm

/-- Bytes that were read are written in the lower-case form of their digits. -/
theorem encode_of_decode (h : decode cs = some bytes) : encode bytes = cs.map Char.toLower := by
  fun_induction decode cs generalizing bytes with
  | case1 =>
    obtain rfl := Option.some.inj h
    rfl
  | case2 c => simp at h
  | case3 a b rest ih =>
    simp only [Option.bind_eq_bind, Option.bind_eq_some_iff, Option.pure_def,
      Option.some.injEq] at h
    obtain ⟨high, hhigh, low, hlow, tail, htail, rfl⟩ := h
    obtain ⟨hhlt, hhigh⟩ := digit_of_digitValue? hhigh
    obtain ⟨hllt, hlow⟩ := digit_of_digitValue? hlow
    have hbyte : (UInt8.ofNat (16 * high + low)).toNat = 16 * high + low := by
      rw [UInt8.toNat_ofNat']
      omega
    have hpair : encodeByte (UInt8.ofNat (16 * high + low)) = [a.toLower, b.toLower] := by
      rw [encodeByte, hbyte, ← hhigh, ← hlow, show (16 * high + low) / 16 = high by omega,
        show (16 * high + low) % 16 = low by omega]
    rw [encode, List.flatMap_cons, hpair, ← encode, ih htail]
    rfl

/-- Bytes are read from a text exactly if its lower-case form is their digits. -/
theorem decode_eq_some_iff : decode cs = some bytes ↔ cs.map Char.toLower = encode bytes := by
  constructor
  · intro h
    exact (encode_of_decode h).symm
  · intro h
    have hpaired : Paired cs := by
      constructor
      · have hlength := congrArg List.length h
        rw [List.length_map, length_encode] at hlength
        omega
      · intro c hc
        have hmem : c.toLower ∈ encode bytes := h ▸ List.mem_map_of_mem hc
        exact digit_of_toLower (lowerDigit_of_mem_encode hmem)
    obtain ⟨other, hother⟩ := exists_decode_iff.2 hpaired
    have hsame : encode other = encode bytes := (encode_of_decode hother).trans h
    rw [hother, encode_injective hsame]

/-- Written digits are in lower case already. -/
theorem map_toLower_encode (bytes : List UInt8) :
    (encode bytes).map Char.toLower = encode bytes :=
  (encode_of_decode (decode_encode bytes)).symm

end TokenMarket.Hex
