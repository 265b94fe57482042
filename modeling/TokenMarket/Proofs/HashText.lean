import TokenMarket.Hash
import TokenMarket.Proofs.Blank
import TokenMarket.Proofs.Hex

/-!
# What a text denotes as a hash

`Hash.Denotes` says which hash a text denotes: blanks at the ends and one tag do
not count, and neither does the case of the digits.  `Hash.parse` reads exactly
these texts, and `Hash.Fault` says what it complains about in the others.

The reader works on bytes and the meaning is about characters.  The two meet in
ASCII.  A character beyond it has no byte that is a digit, so it ends in a complaint
(`Utf8.map_byteChar_encode`), and the characters of digits have one byte each
(`Utf8.encode_ascii`).
-/

namespace TokenMarket

/-! ## ASCII -/

namespace Utf8

variable {b : UInt8} {c : Char} {cs : List Char}

theorem toNat_byteChar (b : UInt8) : (byteChar b).toNat = b.toNat := by
  have hlt : b.toNat < 256 := b.toNat_lt
  have hvalid : b.toNat.isValidChar := Or.inl (by omega)
  rw [byteChar, Char.ofNat, dif_pos hvalid]
  rfl

/-- A character of ASCII is the one of its byte. -/
theorem byteChar_ofNat (h : c.toNat < 128) : byteChar (UInt8.ofNat c.toNat) = c := by
  have hcode : (UInt8.ofNat c.toNat).toNat = c.toNat := by
    rw [UInt8.toNat_ofNat']
    omega
  rw [byteChar, hcode, Char.ofNat_toNat]

theorem utf8EncodeChar_ascii (h : c.toNat < 128) :
    String.utf8EncodeChar c = [UInt8.ofNat c.toNat] := by
  have hle : c.val.toNat ≤ 127 := Nat.le_of_lt_succ h
  rw [String.utf8EncodeChar, if_pos hle]
  rfl

/-- Beyond ASCII no byte of a character is one of ASCII. -/
theorem le_of_mem_utf8EncodeChar (h : 128 ≤ c.toNat) :
    ∀ b ∈ String.utf8EncodeChar c, 128 ≤ b.toNat := by
  have hcode : c.toNat = c.val.toNat := rfl
  rw [String.utf8EncodeChar]
  split
  · omega
  split
  · simp only [List.forall_mem_cons, UInt8.toNat_ofNat']
    refine ⟨?_, ?_, List.forall_mem_nil _⟩ <;> omega
  split
  · simp only [List.forall_mem_cons, UInt8.toNat_ofNat']
    refine ⟨?_, ?_, ?_, List.forall_mem_nil _⟩ <;> omega
  · simp only [List.forall_mem_cons, UInt8.toNat_ofNat']
    refine ⟨?_, ?_, ?_, ?_, List.forall_mem_nil _⟩ <;> omega

/-- A character of ASCII is one byte, which is its code. -/
theorem encode_ascii (h : ∀ c ∈ cs, c.toNat < 128) :
    encode cs = cs.map fun c => UInt8.ofNat c.toNat := by
  induction cs with
  | nil => rfl
  | cons c cs ih =>
    have hc : c.toNat < 128 := h c List.mem_cons_self
    have hcs : ∀ x ∈ cs, x.toNat < 128 := fun x hx => h x (List.mem_cons_of_mem c hx)
    rw [encode, List.flatMap_cons, utf8EncodeChar_ascii hc, ← encode, ih hcs]
    rfl

theorem ascii_of_encode (h : ∀ b ∈ encode cs, b.toNat < 128) : ∀ c ∈ cs, c.toNat < 128 := by
  intro c hc
  rcases Nat.lt_or_ge c.toNat 128 with hlt | hge
  · exact hlt
  · obtain ⟨b, hb⟩ := List.exists_mem_of_ne_nil _ (@String.utf8EncodeChar_ne_nil c)
    have hle := le_of_mem_utf8EncodeChar hge b hb
    have hlt := h b (List.mem_flatMap.2 ⟨c, hc, hb⟩)
    omega

/-- Bytes of ASCII, read as characters, are the text. -/
theorem map_byteChar_encode (h : ∀ b ∈ encode cs, b.toNat < 128) :
    (encode cs).map byteChar = cs := by
  have hascii := ascii_of_encode h
  rw [encode_ascii hascii, List.map_map]
  conv => rhs; rw [← List.map_id cs]
  apply List.map_congr_left
  intro c hc
  exact byteChar_ofNat (hascii c hc)

end Utf8

namespace Hash

/-! ## Meaning and faults -/

variable {kind : HashKind}

/-- The text, without the blanks at its ends and without one tag of the kind, is the
digits of the hash, in either case. -/
def Denotes (text : String) (h : Hash kind) : Prop :=
  ∃ digits, (Text.trimBoth text.toList = digits
      ∨ Text.trimBoth text.toList = kind.tag.toList ++ digits)
    ∧ digits.map Char.toLower = h.hex.toList

/-- The text, without the blanks at its ends and without one tag of the kind, is 64
digits of either case. -/
def Spelled (kind : HashKind) (text : String) : Prop :=
  ∃ digits, (Text.trimBoth text.toList = digits
      ∨ Text.trimBoth text.toList = kind.tag.toList ++ digits)
    ∧ digits.length = 64 ∧ ∀ c ∈ digits, Hex.Digit c

/-- Why a text is no hash: it has the wrong number of bytes, or a first byte among
them that is no digit. -/
inductive Fault (kind : HashKind) (text : String) : HashError → Prop
  | length {bytes : List UInt8} (hbytes : Utf8.encode (bare kind text.toList) = bytes)
      (hlength : bytes.length ≠ 64) : Fault kind text (.length bytes.length)
  | digit {before after : List UInt8} {b : UInt8}
      (hbytes : Utf8.encode (bare kind text.toList) = before ++ b :: after)
      (hlength : (before ++ b :: after).length = 64)
      (hbefore : ∀ x ∈ before, Hex.Digit (Utf8.byteChar x))
      (hb : ¬ Hex.Digit (Utf8.byteChar b)) : Fault kind text (.digit b before.length)

variable {text : String} {h : Hash kind} {e : HashError}

/-- A tag has a letter that is no digit. -/
theorem not_digit_tag (kind : HashKind) : ∃ c ∈ kind.tag.toList, ¬ Hex.Digit c := by
  cases kind with
  | account => exact ⟨'h', by decide, by decide⟩
  | contract => exact ⟨'h', by decide, by decide⟩

theorem digit_of_map_toLower {digits : List Char} {bytes : List UInt8}
    (hlower : digits.map Char.toLower = Hex.encode bytes) : ∀ c ∈ digits, Hex.Digit c :=
  (Hex.paired_of_decode (Hex.decode_eq_some_iff.2 hlower)).2

/-- The digits of hashes are 64 digits of either case. -/
theorem exists_hex_iff {digits : List Char} :
    (∃ h : Hash kind, digits.map Char.toLower = h.hex.toList)
      ↔ digits.length = 64 ∧ ∀ c ∈ digits, Hex.Digit c := by
  simp only [hex, String.toList_ofList]
  constructor
  · intro ⟨h, hlower⟩
    have hlength := congrArg List.length hlower
    rw [List.length_map, Hex.length_encode, h.length_bytes] at hlength
    exact ⟨hlength, digit_of_map_toLower hlower⟩
  · intro ⟨hlength, hdigits⟩
    obtain ⟨bytes, hbytes⟩ := Hex.exists_decode_iff.2 ⟨by rw [hlength]; decide, hdigits⟩
    have hsize : bytes.length = 32 := by
      have := Hex.length_of_decode hbytes
      omega
    exact ⟨⟨bytes, hsize⟩, Hex.decode_eq_some_iff.1 hbytes⟩

/-- Some hash is denoted where 64 digits are left. -/
theorem exists_denotes_iff : (∃ h : Hash kind, Denotes text h) ↔ Spelled kind text := by
  simp only [Denotes, Spelled, ← @exists_hex_iff kind]
  constructor
  · intro ⟨h, digits, htext, hlower⟩
    exact ⟨digits, htext, h, hlower⟩
  · intro ⟨digits, htext, h, hlower⟩
    exact ⟨h, digits, htext, hlower⟩

/-- What is left of a text is behind one tag, or the whole text if it has no tag. -/
theorem bare_eq_iff {cs rest : List Char} :
    bare kind cs = rest ↔ Text.trimBoth cs = kind.tag.toList ++ rest
      ∨ ¬ kind.tag.toList <+: rest ∧ Text.trimBoth cs = rest := by
  simp only [bare]
  cases hlead : Text.dropLead? kind.tag.toList (Text.trimBoth cs) with
  | some behind =>
    rw [Text.dropLead?_eq_some_iff.1 hlead, Option.getD_some]
    constructor
    · rintro rfl
      exact Or.inl rfl
    · rintro (h | ⟨hnone, h⟩)
      · exact List.append_cancel_left h
      · exact absurd ⟨behind, h⟩ hnone
  | none =>
    have hnone : ∀ behind, Text.trimBoth cs ≠ kind.tag.toList ++ behind := by
      intro behind h
      rw [Text.dropLead?_eq_some_iff.2 h] at hlead
      cases hlead
    rw [Option.getD_none]
    constructor
    · rintro rfl
      refine Or.inr ⟨?_, rfl⟩
      rintro ⟨behind, h⟩
      exact hnone behind h.symm
    · rintro (h | ⟨-, h⟩)
      · exact absurd h (hnone rest)
      · exact h

/-- Digits do not start with a tag. -/
theorem not_tag_prefix_digits {digits : List Char} (hdigits : ∀ c ∈ digits, Hex.Digit c) :
    ¬ kind.tag.toList <+: digits := by
  intro hleads
  obtain ⟨c, hc, hno⟩ := not_digit_tag kind
  exact hno (hdigits c (hleads.subset hc))

/-- The tag is no part of digits, so it does not matter in which order tag and
digits are looked at. -/
theorem denotes_iff :
    Denotes text h ↔ (bare kind text.toList).map Char.toLower = Hex.encode h.bytes := by
  have hhex : h.hex.toList = Hex.encode h.bytes := String.toList_ofList
  rw [Denotes, hhex]
  constructor
  · rintro ⟨digits, htext, hlower⟩
    have hbare : bare kind text.toList = digits := by
      rw [bare_eq_iff]
      rcases htext with htext | htext
      · exact Or.inr ⟨not_tag_prefix_digits (digit_of_map_toLower hlower), htext⟩
      · exact Or.inl htext
    rw [hbare, hlower]
  · intro hlower
    refine ⟨bare kind text.toList, ?_, hlower⟩
    rcases bare_eq_iff.1 rfl with htagged | ⟨-, hplain⟩
    · exact Or.inr htagged
    · exact Or.inl hplain

/-! ## The reader -/

theorem firstBad?_eq_none_iff {position : Nat} {digits : List UInt8} :
    firstBad? position digits = none ↔ ∀ b ∈ digits, Hex.Digit (Utf8.byteChar b) := by
  induction digits generalizing position with
  | nil => simp [firstBad?]
  | cons b digits ih =>
    rw [firstBad?, List.forall_mem_cons, ← @ih (position + 1), ← Hex.isDigit_iff]
    split
    · next hb => simp [hb]
    · next hb => simp [hb]

theorem firstBad?_eq_some_iff {position found : Nat} {digits : List UInt8} {b : UInt8} :
    firstBad? position digits = some (b, found) ↔ ∃ before after,
      digits = before ++ b :: after ∧ found = position + before.length
        ∧ (∀ x ∈ before, Hex.Digit (Utf8.byteChar x)) ∧ ¬ Hex.Digit (Utf8.byteChar b) := by
  induction digits generalizing position with
  | nil => simp [firstBad?]
  | cons d digits ih =>
    rw [firstBad?]
    split
    · next hd =>
      rw [ih]
      constructor
      · rintro ⟨before, after, rfl, rfl, hbefore, hb⟩
        refine ⟨d :: before, after, rfl, ?_, ?_, hb⟩
        · rw [List.length_cons]
          omega
        · exact List.forall_mem_cons.2 ⟨Hex.isDigit_iff.1 hd, hbefore⟩
      · rintro ⟨before, after, hsplit, rfl, hbefore, hb⟩
        cases before with
        | nil =>
          obtain ⟨rfl, -⟩ := List.cons.inj hsplit
          exact absurd (Hex.isDigit_iff.1 hd) hb
        | cons x before =>
          obtain ⟨rfl, rfl⟩ := List.cons.inj hsplit
          refine ⟨before, after, rfl, ?_, (List.forall_mem_cons.1 hbefore).2, hb⟩
          rw [List.length_cons]
          omega
    · next hd =>
      rw [Hex.isDigit_iff] at hd
      simp only [Option.some.injEq, Prod.mk.injEq]
      constructor
      · rintro ⟨rfl, rfl⟩
        exact ⟨[], digits, rfl, rfl, by simp, hd⟩
      · rintro ⟨before, after, hsplit, rfl, hbefore, -⟩
        cases before with
        | nil =>
          obtain ⟨rfl, -⟩ := List.cons.inj hsplit
          exact ⟨rfl, rfl⟩
        | cons x before =>
          obtain ⟨rfl, -⟩ := List.cons.inj hsplit
          exact absurd (hbefore d List.mem_cons_self) hd

/-- Sixty-four bytes that are digits make a hash. -/
theorem exists_ofDigits {digits : List UInt8} (hlength : digits.length = 64)
    (hdigits : ∀ b ∈ digits, Hex.Digit (Utf8.byteChar b)) :
    ∃ h : Hash kind, ofDigits kind digits = .ok h
      ∧ (digits.map Utf8.byteChar).map Char.toLower = Hex.encode h.bytes := by
  obtain ⟨h, hlower⟩ := (@exists_hex_iff kind (digits.map Utf8.byteChar)).2
    ⟨by rw [List.length_map, hlength], List.forall_mem_map.2 hdigits⟩
  rw [hex, String.toList_ofList] at hlower
  refine ⟨h, ?_, hlower⟩
  rw [ofDigits, if_neg (by simpa using hlength), firstBad?_eq_none_iff.2 hdigits,
    Hex.decode_eq_some_iff.2 hlower]
  simp only [dif_pos h.length_bytes]

/-- Digits of a hash take 64 bytes, all of which are digits. -/
theorem encode_bare (hlower : (bare kind text.toList).map Char.toLower = Hex.encode h.bytes) :
    (Utf8.encode (bare kind text.toList)).length = 64
      ∧ ∀ b ∈ Utf8.encode (bare kind text.toList), Hex.Digit (Utf8.byteChar b) := by
  have hdigits := digit_of_map_toLower hlower
  have hascii : ∀ c ∈ bare kind text.toList, c.toNat < 128 := by
    intro c hc
    have := Hex.digit_iff_toNat.1 (hdigits c hc)
    omega
  have hchars : (bare kind text.toList).length = 64 := by
    have := congrArg List.length hlower
    rw [List.length_map, Hex.length_encode, h.length_bytes] at this
    omega
  rw [Utf8.encode_ascii hascii]
  constructor
  · rw [List.length_map, hchars]
  · intro b hb
    obtain ⟨c, hc, rfl⟩ := List.mem_map.1 hb
    rw [Utf8.byteChar_ofNat (hascii c hc)]
    exact hdigits c hc

theorem ascii_of_digit {digits : List UInt8}
    (hdigits : ∀ b ∈ digits, Hex.Digit (Utf8.byteChar b)) : ∀ b ∈ digits, b.toNat < 128 := by
  intro b hb
  have := Hex.digit_iff_toNat.1 (hdigits b hb)
  rw [Utf8.toNat_byteChar] at this
  omega

theorem digits_of_ofDigits {digits : List UInt8} (hread : ofDigits kind digits = .ok h) :
    digits.length = 64 ∧ ∀ b ∈ digits, Hex.Digit (Utf8.byteChar b) := by
  rw [ofDigits] at hread
  split at hread
  · simp at hread
  next hlength =>
  refine ⟨by simpa using hlength, ?_⟩
  rw [← @firstBad?_eq_none_iff 0]
  cases hbad : firstBad? 0 digits with
  | none => rfl
  | some found => simp [hbad] at hread

/-- Exactly the texts that denote a hash are read as it. -/
theorem parse_eq_ok_iff : parse kind text = .ok h ↔ Denotes text h := by
  have hread : (Utf8.encode (bare kind text.toList)).length = 64
      ∧ (∀ b ∈ Utf8.encode (bare kind text.toList), Hex.Digit (Utf8.byteChar b)) →
      ∃ k : Hash kind, parse kind text = .ok k
        ∧ (bare kind text.toList).map Char.toLower = Hex.encode k.bytes := by
    rintro ⟨hlength, hdigits⟩
    obtain ⟨k, hk, hlower⟩ := @exists_ofDigits kind _ hlength hdigits
    rw [Utf8.map_byteChar_encode (ascii_of_digit hdigits)] at hlower
    exact ⟨k, hk, hlower⟩
  rw [denotes_iff]
  constructor
  · intro hparse
    obtain ⟨k, hk, hlower⟩ := hread (digits_of_ofDigits hparse)
    obtain rfl := Except.ok.inj (hk.symm.trans hparse)
    exact hlower
  · intro hlower
    obtain ⟨k, hk, hother⟩ := hread (encode_bare hlower)
    have hbytes := Hex.encode_injective (hother.symm.trans hlower)
    obtain ⟨_, _⟩ := k
    obtain ⟨_, _⟩ := h
    obtain rfl := hbytes
    exact hk

/-- Every other text has one fault, and the reader complains about it. -/
theorem parse_eq_error_iff : parse kind text = .error e ↔ Fault kind text e := by
  rw [parse]
  by_cases hlength : (Utf8.encode (bare kind text.toList)).length = 64
  · cases hbad : firstBad? 0 (Utf8.encode (bare kind text.toList)) with
    | some found =>
      obtain ⟨b, position⟩ := found
      rw [ofDigits, if_neg (by simpa using hlength), hbad, Except.error.injEq]
      constructor
      · rintro rfl
        obtain ⟨before, after, hsplit, rfl, hbefore, hb⟩ := firstBad?_eq_some_iff.1 hbad
        rw [Nat.zero_add]
        exact .digit hsplit (hsplit ▸ hlength) hbefore hb
      · intro hfault
        cases hfault with
        | length hbytes hother => exact absurd (hbytes ▸ hlength) hother
        | digit hsplit _ hbefore hb =>
          have hfirst := firstBad?_eq_some_iff.2 ⟨_, _, hsplit, (Nat.zero_add _).symm, hbefore, hb⟩
          obtain ⟨rfl, rfl⟩ := Prod.mk.inj (Option.some.inj (hbad.symm.trans hfirst))
          rfl
    | none =>
      have hdigits := firstBad?_eq_none_iff.1 hbad
      obtain ⟨k, hk, -⟩ := @exists_ofDigits kind _ hlength hdigits
      rw [hk]
      simp only [reduceCtorEq, false_iff]
      intro hfault
      cases hfault with
      | length hbytes hother => exact hother (hbytes ▸ hlength)
      | digit hsplit _ _ hb =>
        exact hb (hdigits _ (hsplit ▸ List.mem_append_right _ List.mem_cons_self))
  · rw [ofDigits, if_pos hlength, Except.error.injEq]
    constructor
    · rintro rfl
      exact .length rfl hlength
    · intro hfault
      cases hfault with
      | length hbytes => rw [hbytes]
      | digit hsplit hother => exact absurd (hsplit ▸ hother) hlength

/-- No character of a tag is blank. -/
theorem not_isBlank_tag (kind : HashKind) : ∀ c ∈ kind.tag.toList, Text.isBlank c = false := by
  have htag : kind.tag.toList.all (fun c => !Text.isBlank c) = true := by
    cases kind <;> decide
  intro c hc
  simpa using List.all_eq_true.1 htag c hc

/-- Different hashes have different digits. -/
theorem hex_injective : Function.Injective (hex : Hash kind → String) := by
  intro h k heq
  have hdigits : Hex.encode h.bytes = Hex.encode k.bytes := String.ofList_injective heq
  have hbytes : h.bytes = k.bytes := Hex.encode_injective hdigits
  obtain ⟨_, _⟩ := h
  obtain rfl := hbytes
  rfl

theorem lowerDigit_of_mem_hex {h : Hash kind} {c : Char} (hc : c ∈ h.hex.toList) :
    Hex.LowerDigit c := by
  rw [hex, String.toList_ofList] at hc
  exact Hex.lowerDigit_of_mem_encode hc

/-- What is written of a hash denotes it, bare or tagged. -/
theorem denotes_hex (h : Hash kind) : Denotes h.hex h := by
  have hhex : h.hex.toList = Hex.encode h.bytes := String.toList_ofList
  have hgraphic : ∀ c ∈ h.hex.toList, Text.isBlank c = false := fun _ hc =>
    Text.isBlank_of_hexDigit (lowerDigit_of_mem_hex hc).digit
  refine ⟨h.hex.toList, Or.inl (Text.trimBoth_of_not_isBlank hgraphic), ?_⟩
  rw [hhex, Hex.map_toLower_encode]

theorem not_isBlank_formatted (h : Hash kind) :
    ∀ c ∈ h.formatted.toList, Text.isBlank c = false := by
  intro c hc
  rw [formatted, String.toList_append] at hc
  rcases List.mem_append.1 hc with hc | hc
  · exact not_isBlank_tag kind c hc
  · exact Text.isBlank_of_hexDigit (lowerDigit_of_mem_hex hc).digit

theorem denotes_formatted (h : Hash kind) : Denotes h.formatted h := by
  have hhex : h.hex.toList = Hex.encode h.bytes := String.toList_ofList
  have hchars : h.formatted.toList = kind.tag.toList ++ Hex.encode h.bytes := by
    rw [formatted, String.toList_append, hhex]
  refine ⟨Hex.encode h.bytes, Or.inr ?_, ?_⟩
  · rw [Text.trimBoth_of_not_isBlank (not_isBlank_formatted h), hchars]
  · rw [hhex, Hex.map_toLower_encode]

end Hash

end TokenMarket
