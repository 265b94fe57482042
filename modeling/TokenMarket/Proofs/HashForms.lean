import TokenMarket.Proofs.HashText

/-!
# The forms in which a hash is written

A hash is written as 64 digits, in lower or in upper case, or as lower-case digits behind
the tag of its kind, and there may be blanks around each of these.  This module says that
all forms are read as the hash, and what is told of any other text.

There are four groups.

* What counts of a text.  `Core` takes the blanks at the ends away and then one tag, and
  `core_iff` says that the reader does the same.
* The decision.  `Decided` says for every text what is told of its core: a wrong length
  first, then the first byte that is no digit, and otherwise the hash.
* Written hashes.  `parse_padded` reads every form, and `parse_of_mem_core` refuses a core
  that holds more than digits.  A second tag is such a core, and so is the tag of another
  kind, because no tag starts with another.
* The result is `parse_forms`.
-/

namespace TokenMarket

/-! ## Texts and their characters -/

/-- The bytes of a text are those of its characters. -/
theorem Utf8.length_encode_toList (s : String) : (encode s.toList).length = s.utf8ByteSize := by
  have hsize : (String.ofList s.toList).utf8ByteSize
      = ((s.toList.flatMap String.utf8EncodeChar).toByteArray).size := rfl
  rw [String.ofList_toList, List.size_toByteArray] at hsize
  exact hsize.symm

theorem Text.toList_toLower (s : String) : s.toLower.toList = s.toList.map Char.toLower :=
  String.toList_map

theorem Text.toList_toUpper (s : String) : s.toUpper.toList = s.toList.map Char.toUpper :=
  String.toList_map

namespace Hash

variable {kind : HashKind} {text core : String}

/-! ## What counts of a text -/

/-- What counts of a text for the hashes of a kind.  Blanks at the ends are taken away, and
then one tag of the kind, if there is one. -/
inductive Core (kind : HashKind) (text core : String) : Prop
  | tagged (h : Text.trim text = kind.tag ++ core)
  | bare (hnone : ¬ kind.tag.toList <+: core.toList) (h : Text.trim text = core)

theorem core_iff : Core kind text core ↔ bare kind text.toList = core.toList := by
  have htrim : ∀ s : String, Text.trim text = s ↔ Text.trimBoth text.toList = s.toList := by
    intro s
    rw [← String.toList_inj, Text.trim, String.toList_ofList]
  rw [bare_eq_iff, ← String.toList_append, ← htrim, ← htrim]
  constructor
  · intro h
    cases h with
    | tagged h => exact Or.inl h
    | bare hnone h => exact Or.inr ⟨hnone, h⟩
  · rintro (h | ⟨hnone, h⟩)
    · exact .tagged h
    · exact .bare hnone h

/-- Something counts of every text. -/
theorem exists_core (kind : HashKind) (text : String) : ∃ core, Core kind text core :=
  ⟨String.ofList (bare kind text.toList), core_iff.2 String.toList_ofList.symm⟩

/-! ## The decision -/

/-- How a core is decided.  Its length is counted in bytes of UTF-8. -/
structure Decided (core : String) (answer : Except HashError (Hash kind)) : Prop where
  length_iff : ∀ got, answer = .error (.length got) ↔ core.utf8ByteSize = got ∧ got ≠ 64
  digit_iff : ∀ b position, answer = .error (.digit b position) ↔ core.utf8ByteSize = 64
    ∧ ∃ before after, Utf8.encode core.toList = before ++ b :: after ∧ before.length = position
      ∧ (∀ x ∈ before, Hex.Digit (Utf8.byteChar x)) ∧ ¬ Hex.Digit (Utf8.byteChar b)
  ok_iff : ∀ h, answer = .ok h ↔ h.hex = core.toLower

theorem denotes_iff_core {h : Hash kind} (hcore : Core kind text core) :
    Denotes text h ↔ h.hex = core.toLower := by
  rw [denotes_iff, core_iff.1 hcore, ← String.toList_inj, hex, String.toList_ofList,
    Text.toList_toLower, eq_comm]

theorem decided_parse (hcore : Core kind text core) : Decided core (parse kind text) where
  length_iff got := by
    rw [parse_eq_error_iff, ← Utf8.length_encode_toList, ← core_iff.1 hcore]
    constructor
    · intro hfault
      cases hfault with
      | length hbytes hne => exact ⟨congrArg List.length hbytes, hne⟩
    · rintro ⟨rfl, hne⟩
      exact .length rfl hne
  digit_iff b position := by
    rw [parse_eq_error_iff, ← Utf8.length_encode_toList, ← core_iff.1 hcore]
    constructor
    · intro hfault
      cases hfault with
      | digit hbytes hlength hbefore hb =>
        exact ⟨hbytes ▸ hlength, _, _, hbytes, rfl, hbefore, hb⟩
    · rintro ⟨hlength, before, after, hbytes, rfl, hbefore, hb⟩
      exact .digit hbytes (hbytes ▸ hlength) hbefore hb
  ok_iff h := by
    rw [parse_eq_ok_iff, denotes_iff_core hcore]

/-! ## Written hashes -/

/-- A core that holds more than digits is no hash. -/
theorem parse_of_mem_core (hcore : Core kind text core) {c : Char} (hc : c ∈ core.toList)
    (hdigit : ¬ Hex.Digit c) : ∃ e, parse kind text = .error e := by
  cases hparse : parse kind text with
  | error e => exact ⟨e, rfl⟩
  | ok h =>
    have hlower := denotes_iff.1 (parse_eq_ok_iff.1 hparse)
    rw [core_iff.1 hcore] at hlower
    exact absurd (digit_of_map_toLower hlower c hc) hdigit

/-- No tag starts with another. -/
theorem not_tag_prefix {other : HashKind} (h : other ≠ kind) (rest : List Char) :
    ¬ kind.tag.toList <+: other.tag.toList ++ rest := by
  have hlead : Text.dropLead? kind.tag.toList (other.tag.toList ++ rest) = none := by
    cases kind <;> cases other <;> first | rfl | exact absurd rfl h
  rintro ⟨back, hback⟩
  rw [Text.dropLead?_eq_some_iff.2 hback.symm] at hlead
  cases hlead

/-- The forms in which a hash is written. -/
def forms (h : Hash kind) : List String := [h.hex, h.hex.toUpper, h.formatted]

/-- Digits between blanks are their own core, because a tag holds more than digits. -/
theorem core_padded_digits {front digits back : String} (hfront : Text.isBlankText front = true)
    (hdigits : ∀ c ∈ digits.toList, Hex.Digit c) (hback : Text.isBlankText back = true) :
    Core kind (front ++ digits ++ back) digits := by
  refine .bare (not_tag_prefix_digits hdigits) ?_
  exact Text.trim_padded hfront (fun c hc => Text.isBlank_of_hexDigit (hdigits c hc)) hback

theorem toLower_hex (h : Hash kind) : h.hex.toLower = h.hex := by
  rw [← String.toList_inj, Text.toList_toLower, hex, String.toList_ofList, Hex.map_toLower_encode]

theorem toLower_toUpper_hex (h : Hash kind) : h.hex.toUpper.toLower = h.hex := by
  rw [← String.toList_inj, Text.toList_toLower, Text.toList_toUpper, List.map_map]
  conv => rhs; rw [← List.map_id h.hex.toList]
  apply List.map_congr_left
  intro c hc
  exact (Hex.toLower_toUpper (lowerDigit_of_mem_hex hc)).2

/-- What counts of a form are the digits, in one case or the other. -/
theorem core_form {h : Hash kind} {form : String} (hform : form ∈ h.forms) {front back : String}
    (hfront : Text.isBlankText front = true) (hback : Text.isBlankText back = true) :
    ∃ core, Core kind (front ++ form ++ back) core ∧ core.toLower = h.hex := by
  simp only [forms, List.mem_cons, List.not_mem_nil, or_false] at hform
  rcases hform with rfl | rfl | rfl
  · refine ⟨_, core_padded_digits hfront ?_ hback, toLower_hex h⟩
    exact fun c hc => (lowerDigit_of_mem_hex hc).digit
  · refine ⟨_, core_padded_digits hfront ?_ hback, toLower_toUpper_hex h⟩
    intro c hc
    rw [Text.toList_toUpper] at hc
    obtain ⟨d, hd, rfl⟩ := List.mem_map.1 hc
    exact (Hex.toLower_toUpper (lowerDigit_of_mem_hex hd)).1
  · refine ⟨h.hex, .tagged ?_, toLower_hex h⟩
    exact Text.trim_padded hfront (not_isBlank_formatted h) hback

/-- Blanks around a form do not matter, and neither does the form. -/
theorem parse_padded {h : Hash kind} {form : String} (hform : form ∈ h.forms)
    {front back : String} (hfront : Text.isBlankText front = true)
    (hback : Text.isBlankText back = true) : parse kind (front ++ form ++ back) = .ok h := by
  obtain ⟨core, hcore, hlower⟩ := core_form hform hfront hback
  exact parse_eq_ok_iff.2 ((denotes_iff_core hcore).2 hlower.symm)

/-- The tag of another kind stays, and is no digits. -/
theorem parse_other_formatted {other : HashKind} (hother : other ≠ kind) (h : Hash other)
    {front back : String} (hfront : Text.isBlankText front = true)
    (hback : Text.isBlankText back = true) :
    ∃ e, parse kind (front ++ h.formatted ++ back) = .error e := by
  obtain ⟨c, hc, hno⟩ := not_digit_tag other
  have hchars : h.formatted.toList = other.tag.toList ++ h.hex.toList := by
    rw [formatted, String.toList_append]
  have hcore : Core kind (front ++ h.formatted ++ back) h.formatted := by
    refine .bare ?_ (Text.trim_padded hfront (not_isBlank_formatted h) hback)
    rw [hchars]
    exact not_tag_prefix hother h.hex.toList
  exact parse_of_mem_core hcore (hchars ▸ List.mem_append_left h.hex.toList hc) hno

/-- One tag is taken away and not two. -/
theorem parse_repeated_tag {front : String} (hfront : Text.isBlankText front = true)
    (rest : String) : ∃ e, parse kind (front ++ kind.tag ++ kind.tag ++ rest) = .error e := by
  obtain ⟨c, hc, hno⟩ := not_digit_tag kind
  have hgraphic := not_isBlank_tag kind
  have hne : kind.tag.toList ≠ [] := List.ne_nil_of_mem hc
  have htrim : Text.trimBoth (front ++ kind.tag ++ kind.tag ++ rest).toList
      = kind.tag.toList ++ (kind.tag.toList ++ Text.trimEnd rest.toList) := by
    simp only [String.toList_append]
    rw [List.append_assoc, Text.trimBoth,
      Text.dropWhile_isBlank (List.all_eq_true.1 hfront) hgraphic hne,
      Text.trimEnd_append_left hgraphic hne, Text.trimEnd_append_left hgraphic hne]
  have hcore : Core kind (front ++ kind.tag ++ kind.tag ++ rest)
      (kind.tag ++ String.ofList (Text.trimEnd rest.toList)) := by
    refine .tagged ?_
    rw [← String.toList_inj, Text.trim, String.toList_ofList, htrim, String.toList_append,
      String.toList_append, String.toList_ofList]
  refine parse_of_mem_core hcore ?_ hno
  rw [String.toList_append]
  exact List.mem_append_left _ hc

/-! ## All texts -/

/-- Every text is decided by its core.  Hence a hash is read from each of its forms with any
blanks around it, and two texts that are read are read as one hash exactly if their cores
agree up to case.  A hash of another kind is not read from its tagged form, and no hash is
read behind two tags. -/
theorem parse_forms (kind : HashKind) :
    (∀ text, ∃ core, Core kind text core ∧ Decided core (parse kind text))
      ∧ (∀ (h : Hash kind) front form back, Text.isBlankText front = true → form ∈ h.forms →
        Text.isBlankText back = true → parse kind (front ++ form ++ back) = .ok h)
      ∧ (∀ text other core core' h h', Core kind text core → Core kind other core' →
        parse kind text = .ok h → parse kind other = .ok h' →
        (h = h' ↔ core.toLower = core'.toLower))
      ∧ (∀ (other : HashKind) (h : Hash other) front back, other ≠ kind →
        Text.isBlankText front = true → Text.isBlankText back = true →
        ∃ e, parse kind (front ++ h.formatted ++ back) = .error e)
      ∧ ∀ front rest, Text.isBlankText front = true →
        ∃ e, parse kind (front ++ kind.tag ++ kind.tag ++ rest) = .error e := by
  refine ⟨?_, ?_, ?_, ?_, ?_⟩
  · intro text
    obtain ⟨core, hcore⟩ := exists_core kind text
    exact ⟨core, hcore, decided_parse hcore⟩
  · intro h front form back hfront hform hback
    exact parse_padded hform hfront hback
  · intro text other core core' h h' hcore hcore' hparse hparse'
    have hhex := (denotes_iff_core hcore).1 (parse_eq_ok_iff.1 hparse)
    have hhex' := (denotes_iff_core hcore').1 (parse_eq_ok_iff.1 hparse')
    rw [← hhex, ← hhex', hex_injective.eq_iff]
  · intro other h front back hother hfront hback
    exact parse_other_formatted hother h hfront hback
  · intro front rest hfront
    exact parse_repeated_tag hfront rest

end Hash

end TokenMarket
