import TokenMarket.Text.Blank
import TokenMarket.Proofs.Hex

/-!
# Blanks at the ends of a text

A text that a person types may have blanks in front and behind, and `trimBoth`
takes them away.  What is left is the text in between, provided that there are
no blanks in it.  Numbers and hashes have none: they consist of graphic
characters of ASCII (`isBlank_of_graphic`).
-/

namespace TokenMarket.Text

/-- The visible characters of ASCII are not blank. -/
theorem isBlank_of_graphic {c : Char} (hlow : 0x21 ≤ c.toNat) (hhigh : c.toNat ≤ 0x7E) :
    isBlank c = false := by
  simp only [isBlank, Bool.or_eq_false_iff, Bool.and_eq_false_iff, decide_eq_false_iff_not,
    beq_eq_false_iff_ne]
  omega

theorem isBlank_of_hexDigit {c : Char} (h : Hex.Digit c) : isBlank c = false := by
  have hcode := Hex.digit_iff_toNat.1 h
  exact isBlank_of_graphic (by omega) (by omega)

variable {front core back : List Char}

/-- Leading blanks are dropped up to the first character that is none. -/
theorem dropWhile_isBlank (hfront : ∀ c ∈ front, isBlank c = true)
    (hcore : ∀ c ∈ core, isBlank c = false) (hne : core ≠ []) :
    (front ++ core ++ back).dropWhile isBlank = core ++ back := by
  rw [List.append_assoc, List.dropWhile_append_of_pos hfront]
  cases core with
  | nil => exact absurd rfl hne
  | cons c cs => rw [List.cons_append, List.dropWhile_cons_of_neg (by simp [hcore c])]

theorem trimEnd_append (hcore : ∀ c ∈ core, isBlank c = false)
    (hback : ∀ c ∈ back, isBlank c = true) : trimEnd (core ++ back) = core := by
  have hrest : ∀ c ∈ core.reverse, isBlank c = false := fun c hc => hcore c (List.mem_reverse.1 hc)
  have hblank : ∀ c ∈ back.reverse, isBlank c = true := fun c hc => hback c (List.mem_reverse.1 hc)
  rw [trimEnd, List.reverse_append, List.dropWhile_append_of_pos hblank]
  cases hcs : core.reverse with
  | nil => rw [List.reverse_eq_nil_iff.1 hcs]; rfl
  | cons c cs =>
    have hc : isBlank c = false := hrest c (hcs ▸ List.mem_cons_self)
    rw [List.dropWhile_cons_of_neg (by simp [hc]), ← hcs, List.reverse_reverse]

/-- Between blanks the text is left that holds none. -/
theorem trimBoth_append (hfront : ∀ c ∈ front, isBlank c = true)
    (hcore : ∀ c ∈ core, isBlank c = false) (hback : ∀ c ∈ back, isBlank c = true) :
    trimBoth (front ++ core ++ back) = core := by
  rw [trimBoth]
  by_cases hne : core = []
  · subst hne
    have hall : ∀ c ∈ front ++ back, isBlank c = true := by
      intro c hc
      rcases List.mem_append.1 hc with hc | hc
      · exact hfront c hc
      · exact hback c hc
    have hdrop : (front ++ back ++ []).dropWhile isBlank = [] :=
      List.dropWhile_append_of_pos hall
    rw [List.append_nil] at hdrop
    rw [List.append_nil, hdrop]
    rfl
  · rw [dropWhile_isBlank hfront hcore hne, trimEnd_append hcore hback]

/-- What is left has no characters but those of the text. -/
theorem mem_of_mem_trim {text : String} {c : Char} (h : c ∈ (trim text).toList) :
    c ∈ text.toList := by
  rw [trim, String.toList_ofList, trimBoth, trimEnd, List.mem_reverse] at h
  have hfront := List.mem_reverse.1 ((List.dropWhile_sublist _).mem h)
  exact (List.dropWhile_sublist _).mem hfront

/-- A text without blanks is left as it is. -/
theorem trimBoth_of_not_isBlank (hcore : ∀ c ∈ core, isBlank c = false) : trimBoth core = core := by
  have htrim := @trimBoth_append [] core [] (by simp) hcore (by simp)
  simpa using htrim

/-- Blanks around a text that holds none are taken away. -/
theorem trim_padded {front form back : String} (hfront : isBlankText front = true)
    (hform : ∀ c ∈ form.toList, isBlank c = false) (hback : isBlankText back = true) :
    trim (front ++ form ++ back) = form := by
  rw [trim, String.toList_append, String.toList_append,
    trimBoth_append (List.all_eq_true.1 hfront) hform (List.all_eq_true.1 hback),
    String.ofList_toList]

/-- Behind visible characters only the rest has an end to trim. -/
theorem trimEnd_append_left (hcore : ∀ c ∈ core, isBlank c = false) (hne : core ≠ [])
    (back : List Char) : trimEnd (core ++ back) = core ++ trimEnd back := by
  have hdrop : core.reverse.dropWhile isBlank = core.reverse := by
    cases hcs : core.reverse with
    | nil => exact absurd (List.reverse_eq_nil_iff.1 hcs) hne
    | cons c cs =>
      have hc : isBlank c = false := hcore c (List.mem_reverse.1 (hcs ▸ List.mem_cons_self))
      rw [List.dropWhile_cons_of_neg (by simp [hc])]
  rw [trimEnd, trimEnd, List.reverse_append, List.dropWhile_append, hdrop]
  split
  · next hempty =>
    rw [List.isEmpty_iff.1 hempty, List.reverse_nil, List.append_nil, List.reverse_reverse]
  · rw [List.reverse_append, List.reverse_reverse]

end TokenMarket.Text
