import TokenMarket.Power
import TokenMarket.Record.Bytes
import TokenMarket.Proofs.Blank
import TokenMarket.Proofs.Error
import TokenMarket.Proofs.Hex

/-!
# Words and records of bytes

A word is eight bytes with the low byte first, and a record is words and other bytes
one behind the other, in hexadecimal text.  There are three groups.

* Words.  `value` and `ofNat` undo each other, up to the number of bytes.  With it
  `wordAt_append` reads back a word that was written, and `take_add_word` writes back
  a word that was read.
* Texts.  `ofHex_append_iff` says which texts hold a layout, with anything behind it,
  and `Fault` why a text holds none.  Both take the size of the layout and know
  nothing of its fields.
* Records.  `Codec` is what all records of bytes have in common, and
  `Codec.of_reader` asks for nothing but the layout of the one at hand.
-/

namespace TokenMarket.Bytes

/-! ## Words -/

theorem length_ofNat (count n : Nat) : (ofNat count n).length = count := by
  induction count generalizing n with
  | zero => rfl
  | succ count ih => rw [ofNat, List.length_cons, ih]

/-- With a byte more there are 256 times as many numbers. -/
theorem two_mul_succ (count : Nat) : Power.two (8 * (count + 1)) = 256 * Power.two (8 * count) := by
  have hsplit : Power.two (8 * count + 8) = Power.two (8 * count) * Power.two 8 :=
    Nat.pow_add 2 (8 * count) 8
  rw [Nat.mul_succ, hsplit, Nat.mul_comm]

theorem value_lt (bytes : List UInt8) : value bytes < Power.two (8 * bytes.length) := by
  induction bytes with
  | nil => decide
  | cons b bytes ih =>
    have hb : b.toNat < 256 := b.toNat_lt
    rw [value, List.length_cons, two_mul_succ]
    omega

/-- A number is read from its low bytes, if they are all. -/
theorem value_ofNat {count n : Nat} (h : n < Power.two (8 * count)) :
    value (ofNat count n) = n := by
  induction count generalizing n with
  | zero =>
    have hzero : n = 0 := Nat.lt_one_iff.1 h
    rw [ofNat, value, hzero]
  | succ count ih =>
    have hlow : (UInt8.ofNat n).toNat = n % 256 := UInt8.toNat_ofNat'
    have hhigh : n / 256 < Power.two (8 * count) := by
      rw [two_mul_succ] at h
      omega
    rw [ofNat, value, hlow, ih hhigh]
    omega

/-- Bytes are the low bytes of their number. -/
theorem ofNat_value (bytes : List UInt8) : ofNat bytes.length (value bytes) = bytes := by
  induction bytes with
  | nil => rfl
  | cons b bytes ih =>
    have hb : b.toNat < 256 := b.toNat_lt
    have hlow : UInt8.ofNat (b.toNat + 256 * value bytes) = b := by
      rw [← UInt8.toNat_inj, UInt8.toNat_ofNat']
      omega
    have hhigh : (b.toNat + 256 * value bytes) / 256 = value bytes := by omega
    rw [List.length_cons, value, ofNat, hlow, hhigh, ih]

@[simp] theorem length_ofWord (n : UInt64) : (ofWord n).length = 8 :=
  length_ofNat 8 n.toNat

/-- Eight bytes are those of the word that they stand for. -/
theorem ofWord_ofNat_value {bytes : List UInt8} (h : bytes.length = 8) :
    ofWord (UInt64.ofNat (value bytes)) = bytes := by
  have hbound : value bytes < UInt64.size := by
    have hlt := value_lt bytes
    rwa [h] at hlt
  have hword : (UInt64.ofNat (value bytes)).toNat = value bytes := UInt64.toNat_ofNat_of_lt' hbound
  have hwrite := ofNat_value bytes
  rwa [h, ← hword] at hwrite

/-- The bytes of a word stand for it. -/
theorem ofNat_value_ofWord (n : UInt64) : UInt64.ofNat (value (ofWord n)) = n := by
  have hbound : n.toNat < Power.two (8 * 8) := n.toNat_lt
  rw [ofWord, value_ofNat hbound, UInt64.ofNat_toNat]

/-- A word is read back from where it was written. -/
theorem wordAt_append (front back : List UInt8) (n : UInt64) :
    wordAt (front ++ (ofWord n ++ back)) front.length = n := by
  have hword : (ofWord n ++ back).take 8 = ofWord n := List.take_left' (length_ofWord n)
  rw [wordAt, List.drop_left, hword, ofNat_value_ofWord]

variable {bytes : List UInt8} {position : Nat}

/-- A word that was read is written as the bytes it was read from. -/
theorem ofWord_wordAt (h : position + 8 ≤ bytes.length) :
    ofWord (wordAt bytes position) = (bytes.drop position).take 8 := by
  have hlength : ((bytes.drop position).take 8).length = 8 := by
    rw [List.length_take, List.length_drop]
    omega
  rw [wordAt, ofWord_ofNat_value hlength]

/-- With the next word, the bytes read so far are eight more. -/
theorem take_add_word (h : position + 8 ≤ bytes.length) :
    bytes.take (position + 8) = bytes.take position ++ ofWord (wordAt bytes position) := by
  rw [List.take_add, ofWord_wordAt h]

/-! ## Texts -/

/-- The text of a record without the blanks at its ends. -/
def digits (text : String) : List Char :=
  Text.trimBoth text.toList

/-- The text is bytes, and as many as the layout takes or more. -/
structure Holds (size : Nat) (text : String) : Prop where
  paired : Hex.Paired (digits text)
  long : 2 * size ≤ (digits text).length

/-- Why a text holds no layout of a size. -/
inductive Fault (record : String) (size : Nat) (text : String) : Error → Prop
  /-- It is not bytes, however short it is. -/
  | improper (h : ¬ Hex.Paired (digits text)) :
      Fault record size text (.invalidField record "bytes" text)
  /-- It is bytes, but not enough. -/
  | short (h : Hex.Paired (digits text)) (hshort : (digits text).length < 2 * size) :
      Fault record size text (.truncatedRecord record size ((digits text).length / 2))

variable {record text : String} {size : Nat} {e : Error}

theorem ofHex_eq_ok_iff :
    ofHex record text = .ok bytes ↔ Hex.decode (digits text) = some bytes := by
  rw [ofHex, ← digits]
  cases Hex.decode (digits text) with
  | none => simp
  | some other => simp

theorem ofHex_eq_error_iff :
    ofHex record text = .error e ↔ ¬ Hex.Paired (digits text)
      ∧ e = .invalidField record "bytes" text := by
  rw [ofHex, ← digits, ← Hex.decode_eq_none_iff]
  cases Hex.decode (digits text) with
  | none => simp [eq_comm]
  | some other => simp

/-- The texts of bytes that start with a layout are known by their first digits. -/
theorem ofHex_append_iff {layout : List UInt8} :
    (∃ tail, ofHex record text = .ok (layout ++ tail))
      ↔ Holds layout.length text
        ∧ Hex.encode layout = ((digits text).take (2 * layout.length)).map Char.toLower := by
  simp only [ofHex_eq_ok_iff]
  constructor
  · intro ⟨tail, htail⟩
    have hlower := Hex.decode_eq_some_iff.1 htail
    have hlength := Hex.length_of_decode htail
    rw [List.length_append] at hlength
    refine ⟨⟨Hex.paired_of_decode htail, by omega⟩, ?_⟩
    rw [List.map_take, hlower, ← Hex.encode_take, List.take_left]
  · intro ⟨⟨hpaired, hlong⟩, hdigits⟩
    obtain ⟨bytes, hbytes⟩ := Hex.exists_decode_iff.2 hpaired
    have hlower := Hex.decode_eq_some_iff.1 hbytes
    rw [List.map_take, hlower, ← Hex.encode_take] at hdigits
    have hfront : bytes.take layout.length = layout := (Hex.encode_injective hdigits).symm
    refine ⟨bytes.drop layout.length, ?_⟩
    rw [hbytes, ← List.take_append_drop layout.length bytes, hfront, List.drop_left]

theorem fault_iff :
    Fault record size text e ↔ ofHex record text = .error e
      ∨ ∃ bytes, ofHex record text = .ok bytes ∧ bytes.length < size
        ∧ e = .truncatedRecord record size bytes.length := by
  constructor
  · intro h
    cases h with
    | improper h => exact Or.inl (ofHex_eq_error_iff.2 ⟨h, rfl⟩)
    | short h hshort =>
      obtain ⟨bytes, hbytes⟩ := Hex.exists_decode_iff.2 h
      have hlength := Hex.length_of_decode hbytes
      have hcount : (digits text).length / 2 = bytes.length := by omega
      exact Or.inr ⟨bytes, ofHex_eq_ok_iff.2 hbytes, by omega, by rw [hcount]⟩
  · intro h
    rcases h with h | ⟨bytes, hbytes, hshort, rfl⟩
    · obtain ⟨himproper, rfl⟩ := ofHex_eq_error_iff.1 h
      exact .improper himproper
    · rw [ofHex_eq_ok_iff] at hbytes
      have hlength := Hex.length_of_decode hbytes
      have hcount : bytes.length = (digits text).length / 2 := by omega
      rw [hcount]
      exact .short (Hex.paired_of_decode hbytes) (by omega)

/-! ## Records -/

/-- A record of a fixed size, which is read from the start of the bytes of a text. -/
structure Codec {α : Type} (record : String) (size : Nat) (layout : α → List UInt8)
    (decode : String → Except Error α) : Prop where
  length_layout : ∀ r, (layout r).length = size
  /-- A text is read as a record exactly if its bytes start with those of the record. -/
  ok_iff : ∀ {text r}, decode text = .ok r ↔ ∃ tail, ofHex record text = .ok (layout r ++ tail)
  error_iff : ∀ {text e}, decode text = .error e ↔ Fault record size text e

namespace Codec

variable {α : Type} {layout : α → List UInt8} {reader : List UInt8 → Except Error α}
  {decode : String → Except Error α} {r : α}

theorem reader_eq_ok_iff (hlength : ∀ r, (layout r).length = size)
    (hinj : Function.Injective layout)
    (hshort : ∀ bytes, bytes.length < size →
      reader bytes = .error (.truncatedRecord record size bytes.length))
    (hlong : ∀ bytes, size ≤ bytes.length →
      ∃ r, reader bytes = .ok r ∧ layout r = bytes.take size) :
    reader bytes = .ok r ↔ ∃ tail, bytes = layout r ++ tail := by
  by_cases hsize : bytes.length < size
  · rw [hshort bytes hsize]
    simp only [reduceCtorEq, false_iff]
    intro ⟨tail, hbytes⟩
    rw [hbytes, List.length_append, hlength] at hsize
    omega
  · obtain ⟨other, hother, hlayout⟩ := hlong bytes (Nat.le_of_not_lt hsize)
    rw [hother, Except.ok.injEq]
    constructor
    · intro heq
      exact ⟨bytes.drop size, by rw [← heq, hlayout, List.take_append_drop]⟩
    · intro ⟨tail, hbytes⟩
      rw [hbytes, List.take_left' (hlength r)] at hlayout
      exact hinj hlayout

theorem reader_eq_error_iff
    (hshort : ∀ bytes, bytes.length < size →
      reader bytes = .error (.truncatedRecord record size bytes.length))
    (hlong : ∀ bytes, size ≤ bytes.length → ∃ r, reader bytes = .ok r) :
    reader bytes = .error e
      ↔ bytes.length < size ∧ e = .truncatedRecord record size bytes.length := by
  by_cases hsize : bytes.length < size
  · rw [hshort bytes hsize]
    simp [hsize, eq_comm]
  · obtain ⟨r, hr⟩ := hlong bytes (Nat.le_of_not_lt hsize)
    simp [hr, hsize]

/-- A reader that asks for enough bytes, and takes the first of them as the record, is
one of such records. -/
theorem of_reader (hlength : ∀ r, (layout r).length = size) (hinj : Function.Injective layout)
    (hshort : ∀ bytes, bytes.length < size →
      reader bytes = .error (.truncatedRecord record size bytes.length))
    (hlong : ∀ bytes, size ≤ bytes.length →
      ∃ r, reader bytes = .ok r ∧ layout r = bytes.take size) :
    Codec record size layout fun text => ofHex record text >>= reader where
  length_layout := hlength
  ok_iff := by
    intro text r
    simp only [Error.bind_eq_ok_iff, reader_eq_ok_iff hlength hinj hshort hlong]
    constructor
    · intro ⟨bytes, hbytes, tail, htail⟩
      exact ⟨tail, htail ▸ hbytes⟩
    · intro ⟨tail, htail⟩
      exact ⟨_, htail, tail, rfl⟩
  error_iff := by
    intro text e
    have hread : ∀ bytes, size ≤ bytes.length → ∃ r, reader bytes = .ok r := by
      intro bytes hsize
      obtain ⟨r, hr, -⟩ := hlong bytes hsize
      exact ⟨r, hr⟩
    rw [fault_iff]
    cases ofHex record text with
    | error why => simp
    | ok bytes => simp [reader_eq_error_iff hshort hread]

/-- The record of a text is the one that is written with the first digits. -/
theorem ok_iff_digits (h : Codec record size layout decode) :
    decode text = .ok r ↔ Holds size text
      ∧ Hex.encode (layout r) = ((digits text).take (2 * size)).map Char.toLower := by
  rw [h.ok_iff, ofHex_append_iff, h.length_layout]

/-- Every text of enough bytes is read. -/
theorem exists_ok_iff (h : Codec record size layout decode) :
    (∃ r, decode text = .ok r) ↔ Holds size text := by
  constructor
  · intro ⟨r, hr⟩
    exact (h.ok_iff_digits.1 hr).1
  · intro hholds
    cases hdecode : decode text with
    | ok r => exact ⟨r, rfl⟩
    | error e =>
      cases h.error_iff.1 hdecode with
      | improper himproper => exact absurd hholds.paired himproper
      | short _ hshort => exact absurd hholds.long (Nat.not_le.2 hshort)

/-- A record that was written is read back, with more bytes behind it and blanks
around it. -/
theorem decode_written (h : Codec record size layout decode) (r : α) {tail front back : List Char}
    (htail : Hex.Paired tail) (hfront : ∀ c ∈ front, Text.isBlank c = true)
    (hback : ∀ c ∈ back, Text.isBlank c = true) :
    decode (String.ofList (front ++ (Hex.encode (layout r) ++ tail) ++ back)) = .ok r := by
  obtain ⟨bytes, hbytes⟩ := Hex.exists_decode_iff.2 htail
  have hdecode : Hex.decode (Hex.encode (layout r) ++ tail) = some (layout r ++ bytes) := by
    rw [Hex.decode_append, hbytes]
    rfl
  have hcore : ∀ c ∈ Hex.encode (layout r) ++ tail, Text.isBlank c = false := by
    intro c hc
    exact Text.isBlank_of_hexDigit ((Hex.paired_of_decode hdecode).2 c hc)
  rw [h.ok_iff]
  refine ⟨bytes, ofHex_eq_ok_iff.2 ?_⟩
  rw [digits, String.toList_ofList, Text.trimBoth_append hfront hcore hback, hdecode]

end Codec

end TokenMarket.Bytes
