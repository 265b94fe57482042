import TokenMarket.Proofs.JsonText
import TokenMarket.Proofs.Numeral
import TokenMarket.Proofs.Split

/-!
# A word in the text of a value

Whether a value mentions a word is decided on its compact text, where the
strings of the value stand among brackets, numbers and escapes.  This
module shows that nothing is found there that is not in one of the strings
or member names, and that nothing in them is overlooked.

A `Word` begins with an upper-case letter and goes on with letters.  Two
facts about such words carry the argument.

* What the printer writes outside of the strings holds no upper-case
  letter, and so does every escape.  A word cannot begin there, so this
  text can be skipped (`infix_skip_iff`).
* A letter is never escaped, and a word cannot go on over the end of a
  string or over an escape (`prefix_escaped_iff`).
-/

namespace TokenMarket.Json

/-- A word: an upper-case letter, and letters after it. -/
def Word (w : List Char) : Prop :=
  ∃ first others, w = first :: others ∧ first.isUpper = true ∧ ∀ c ∈ others, c.isAlpha = true

theorem Word.ne_nil {w : List Char} (hw : Word w) : w ≠ [] := by
  obtain ⟨first, others, rfl, _⟩ := hw
  exact List.cons_ne_nil first others

theorem Word.isAlpha {w : List Char} (hw : Word w) : ∀ c ∈ w, c.isAlpha = true := by
  obtain ⟨first, others, rfl, hfirst, hothers⟩ := hw
  intro c hc
  rcases List.mem_cons.1 hc with rfl | hc
  · exact Bool.or_eq_true_iff.2 (Or.inl hfirst)
  · exact hothers c hc

/-! ## Text without upper-case letters -/

/-- A text in which no word can begin. -/
def Lower (cs : List Char) : Prop := ∀ c ∈ cs, c.isUpper = false

theorem Lower.cons {c : Char} {cs : List Char} (hc : c.isUpper = false) (hcs : Lower cs) :
    Lower (c :: cs) := by
  intro x hx
  rcases List.mem_cons.1 hx with rfl | hx
  · exact hc
  · exact hcs x hx

/-- A word that occurs behind such a text and in it occurs behind it. -/
theorem infix_skip_iff {w a : List Char} (hw : Word w) (ha : Lower a) (rest : List Char) :
    w <:+: a ++ rest ↔ w <:+: rest := by
  obtain ⟨first, others, rfl, hfirst, _⟩ := hw
  induction a with
  | nil => rfl
  | cons c a ih =>
    have hc : c.isUpper = false := ha c List.mem_cons_self
    have hne : first ≠ c := by
      rintro rfl
      rw [hfirst] at hc
      exact Bool.noConfusion hc
    rw [List.cons_append, List.infix_cons_iff, ih fun x hx => ha x (List.mem_cons_of_mem c hx),
      List.cons_prefix_cons]
    simp [hne]

/-! ## Numbers -/

theorem isUpper_of_isDigit {c : Char} (h : c.isDigit = true) : c.isUpper = false := by
  have hnine : '9'.val.toNat = 57 := rfl
  have hupper : 'A'.val.toNat = 65 := rfl
  simp only [Char.isDigit, Bool.and_eq_true, decide_eq_true_eq, UInt32.le_iff_toNat_le,
    ge_iff_le] at h
  have hbelow : ¬ 'A'.val ≤ c.val := by
    rw [UInt32.le_iff_toNat_le]
    omega
  exact decide_eq_false fun h => hbelow h.1

/-- What numbers are written with. -/
def Numeric (cs : List Char) : Prop :=
  ∀ c ∈ cs, c.isDigit = true ∨ c ∈ ['-', '+', '.', 'e']

theorem Numeric.append {a b : List Char} (ha : Numeric a) (hb : Numeric b) : Numeric (a ++ b) :=
  List.forall_mem_append.2 ⟨ha, hb⟩

theorem Numeric.cons {c : Char} {cs : List Char} (hc : c.isDigit = true ∨ c ∈ ['-', '+', '.', 'e'])
    (hcs : Numeric cs) : Numeric (c :: cs) :=
  List.forall_mem_cons.2 ⟨hc, hcs⟩

theorem Numeric.of_subset {a b : List Char} (h : a ⊆ b) (hb : Numeric b) : Numeric a :=
  fun c hc => hb c (h hc)

theorem numeric_digits (n : Nat) : Numeric (Numeral.digits n) := fun c hc =>
  Or.inl (Numeral.isDigit_of_mem_digits n c hc)

theorem numeric_intText (n : Int) : Numeric (intText n) := by
  cases n with
  | ofNat n => exact numeric_digits n
  | negSucc n => exact .cons (by decide) (numeric_digits (n + 1))

theorem numeric_zeros (n : Nat) : Numeric (List.replicate n '0') := by
  intro c hc
  rw [List.eq_of_mem_replicate hc]
  exact Or.inl (by decide)

/-- Laying digits out adds a point, zeros, and the exponent. -/
theorem numeric_layout {digits : List Char} (h : Numeric digits) (point : Int) :
    Numeric (layout digits point) := by
  unfold layout
  extract_lets count exponent sign lead
  have hlead : Numeric lead := by
    unfold lead
    split
    · exact h
    · exact h
    · next d ds _ =>
      obtain ⟨hd, hds⟩ := List.forall_mem_cons.1 h
      exact .cons hd (.cons (by decide) hds)
  by_cases hwhole : count ≤ point ∧ point ≤ 16
  · rw [if_pos hwhole]
    exact (h.append (numeric_zeros _)).append (by simp [Numeric])
  rw [if_neg hwhole]
  by_cases hinside : 0 < point ∧ point ≤ 16
  · rw [if_pos hinside]
    have htake : Numeric (digits.take point.toNat) := h.of_subset (List.take_subset _ _)
    have hdrop : Numeric (digits.drop point.toNat) := h.of_subset (List.drop_subset _ _)
    exact htake.append (.cons (by decide) hdrop)
  rw [if_neg hinside]
  by_cases hbefore : -5 < point ∧ point ≤ 0
  · rw [if_pos hbefore]
    have hzeros : Numeric (['0', '.'] ++ List.replicate (-point).toNat '0') :=
      .append (by simp [Numeric]) (numeric_zeros _)
    exact hzeros.append h
  · rw [if_neg hbefore]
    have hsign : sign ∈ ['-', '+', '.', 'e'] := by
      simp only [sign]
      split <;> decide
    exact hlead.append (.cons (c := 'e') (by decide) (.cons (Or.inr hsign) (numeric_digits _)))

theorem numeric_realText (x : Binary64) : Numeric (realText x) := by
  have hsign : Numeric (if x.negative then ['-'] else []) := by
    split <;> simp [Numeric]
  simp only [realText]
  split
  · exact hsign.append (by simp [Numeric])
  · refine hsign.append (numeric_layout ?_ _)
    have hkept : (dropZeros (Numeral.digits (Binary64.shortest x.significand x.exponent).1)).1
        ⊆ Numeral.digits (Binary64.shortest x.significand x.exponent).1 := by
      intro c hc
      simp only [dropZeros, List.mem_reverse] at hc
      exact List.mem_reverse.1 ((List.dropWhile_sublist _).subset hc)
    exact (numeric_digits _).of_subset hkept

/-- No word begins in a number. -/
theorem Numeric.lower {cs : List Char} (h : Numeric cs) : Lower cs := by
  have hmarks : ∀ c ∈ ['-', '+', '.', 'e'], c.isUpper = false := by simp
  intro c hc
  rcases h c hc with hdigit | hmark
  · exact isUpper_of_isDigit hdigit
  · exact hmarks c hmark

/-! ## Strings -/

theorem le_toNat_of_isAlpha {c : Char} (h : c.isAlpha = true) : 65 ≤ c.toNat := by
  have hval : c.toNat = c.val.toNat := rfl
  rcases Bool.or_eq_true_iff.1 h with h | h
  · have hupper : 'A'.val ≤ c.val := (of_decide_eq_true h).1
    rw [UInt32.le_iff_toNat_le] at hupper
    have hcode : 'A'.val.toNat = 65 := rfl
    omega
  · have hlower : 'a'.val ≤ c.val := of_decide_eq_true (Bool.and_eq_true_iff.1 h).1
    rw [UInt32.le_iff_toNat_le] at hlower
    have hcode : 'a'.val.toNat = 97 := rfl
    omega

/-- A letter stands for itself. -/
theorem escapedChar_of_isAlpha {c : Char} (h : c.isAlpha = true) : escapedChar c = [c] := by
  have hcode := le_toNat_of_isAlpha h
  refine escapedChar_of_ne ?_ ?_ (by omega)
  · rintro rfl
    exact absurd h (by decide)
  · rintro rfl
    exact absurd h (by decide)

theorem isUpper_of_escape? {e c : Char} (h : Token.escape? e = some c) : e.isUpper = false := by
  unfold Token.escape? at h
  split at h
  all_goals first
    | decide
    | simp at h

theorem isUpper_hexDigit {n : Nat} (h : n < 16) : (Hex.digit n).isUpper = false := by
  have hall : ∀ d, d < 16 → (Hex.digit d).isUpper = false := by decide
  exact hall n h

/-- Any other character has a form in which no word can begin, and at whose
front no word can go on. -/
theorem escapedChar_of_not_isAlpha {c : Char} (h : c.isAlpha = false) :
    Lower (escapedChar c) ∧ ∃ x xs, escapedChar c = x :: xs ∧ x.isAlpha = false := by
  rcases escapedChar_cases c with ⟨e, _, he, hform⟩ | ⟨hcontrol, hform⟩ | ⟨_, _, _, hform⟩
  · rw [hform]
    exact ⟨.cons (by decide) (.cons (isUpper_of_escape? he) (by simp [Lower])),
      _, _, rfl, by decide⟩
  · rw [hform]
    refine ⟨?_, _, _, rfl, by decide⟩
    have hhigh := isUpper_hexDigit (n := c.toNat / 16) (by omega)
    have hlow := isUpper_hexDigit (n := c.toNat % 16) (by omega)
    simp [Lower, hhigh, hlow]
  · rw [hform]
    have hupper : c.isUpper = false := (Bool.or_eq_false_iff.1 h).1
    exact ⟨.cons hupper (by simp [Lower]), _, _, rfl, h⟩

/-- A run of letters goes on inside of a string only. -/
theorem prefix_escaped_iff {v : List Char} (hv : ∀ c ∈ v, c.isAlpha = true)
    (cs rest : List Char) : v <+: cs.flatMap escapedChar ++ '"' :: rest ↔ v <+: cs := by
  induction v generalizing cs with
  | nil => simp
  | cons a v ih =>
    have ha : a.isAlpha = true := hv a List.mem_cons_self
    have hne : ∀ {x : Char}, x.isAlpha = false → a ≠ x := by
      rintro x hx rfl
      rw [ha] at hx
      exact Bool.noConfusion hx
    cases cs with
    | nil =>
      have := hne (x := '"') (by decide)
      simp [this]
    | cons c cs =>
      by_cases hc : c.isAlpha = true
      · rw [List.flatMap_cons, escapedChar_of_isAlpha hc, List.append_assoc, List.singleton_append,
          List.cons_prefix_cons, List.cons_prefix_cons,
          ih (fun x hx => hv x (List.mem_cons_of_mem a hx))]
      · rw [Bool.not_eq_true] at hc
        obtain ⟨_, x, xs, hform, hx⟩ := escapedChar_of_not_isAlpha hc
        rw [List.flatMap_cons, hform]
        simp [hne hx, hne hc]

/-- A word occurs among escaped characters where it occurs among the
characters themselves, by induction over them. -/
theorem infix_escaped_iff {w : List Char} (hw : Word w) (cs rest : List Char) :
    w <:+: cs.flatMap escapedChar ++ '"' :: rest ↔ w <:+: cs ∨ w <:+: rest := by
  induction cs with
  | nil =>
    have hskip := infix_skip_iff hw (a := ['"']) (by simp [Lower]) rest
    simpa [hw.ne_nil] using hskip
  | cons c cs ih =>
    by_cases hc : c.isAlpha = true
    · have hprefix := prefix_escaped_iff hw.isAlpha (c :: cs) rest
      rw [List.flatMap_cons, escapedChar_of_isAlpha hc, List.singleton_append, List.cons_append]
        at hprefix ⊢
      rw [List.infix_cons_iff, List.infix_cons_iff, hprefix, ih, or_assoc]
    · rw [Bool.not_eq_true] at hc
      have hupper : c.isUpper = false := (Bool.or_eq_false_iff.1 hc).1
      have hskip := infix_skip_iff hw (a := [c]) (.cons hupper (by simp [Lower])) cs
      rw [List.singleton_append] at hskip
      rw [List.flatMap_cons, List.append_assoc,
        infix_skip_iff hw (escapedChar_of_not_isAlpha hc).1, ih, hskip]

theorem infix_stringText_iff {w : List Char} (hw : Word w) (s : String) (rest : List Char) :
    w <:+: stringText s ++ rest ↔ w <:+: s.toList ∨ w <:+: rest := by
  have htext : stringText s ++ rest
      = ['"'] ++ (s.toList.flatMap escapedChar ++ '"' :: rest) := by
    simp [stringText]
  rw [htext, infix_skip_iff hw (by simp [Lower]), infix_escaped_iff hw]

/-! ## Values -/

variable {w : List Char}

/-- Whether a text holds the word. -/
def holds (w : List Char) (text : String) : Bool := Text.occursIn w text.toList

theorem holds_iff {text : String} : holds w text = true ↔ w <:+: text.toList := Text.occursIn_iff

mutual

theorem infix_compactChars_iff (hw : Word w) :
    (v : Json) → (rest : List Char) →
      (w <:+: compactChars v ++ rest ↔ anyText (holds w) v = true ∨ w <:+: rest)
  | .null, rest => by
    rw [compactChars, infix_skip_iff hw (by simp [Lower, nullText])]
    simp [anyText]
  | .bool b, rest => by
    rw [compactChars, infix_skip_iff hw (by cases b <;> simp [Lower, boolText])]
    simp [anyText]
  | .int n, rest => by
    rw [compactChars, infix_skip_iff hw ((numeric_intText n).lower)]
    simp [anyText]
  | .real x, rest => by
    rw [compactChars, infix_skip_iff hw ((numeric_realText x).lower)]
    simp [anyText]
  | .string s, rest => by
    rw [compactChars, infix_stringText_iff hw, anyText, holds_iff]
  | .array [], rest => by
    rw [compactChars, infix_skip_iff hw (by simp [Lower])]
    simp [anyText, anyTextItem]
  | .array (v :: items), rest => by
    have htext : compactChars (.array (v :: items)) ++ rest
        = ['['] ++ (compactChars v ++ (compactItems items ++ ([']'] ++ rest))) := by
      simp [compactChars]
    rw [htext, infix_skip_iff hw (by simp [Lower]), infix_compactChars_iff hw v,
      infix_compactItems_iff hw items, infix_skip_iff hw (by simp [Lower]), anyText, anyTextItem,
      Bool.or_eq_true, or_assoc]
  | .object [], rest => by
    rw [compactChars, infix_skip_iff hw (by simp [Lower])]
    simp [anyText, anyTextMember]
  | .object ((name, v) :: members), rest => by
    have htext : compactChars (.object ((name, v) :: members)) ++ rest
        = ['\x7b'] ++ (stringText name ++ ([':'] ++ (compactChars v ++ (compactMembers members
          ++ (['\x7d'] ++ rest))))) := by
      simp [compactChars]
    rw [htext, infix_skip_iff hw (by simp [Lower]), infix_stringText_iff hw,
      infix_skip_iff hw (by simp [Lower]), infix_compactChars_iff hw v,
      infix_compactMembers_iff hw members, infix_skip_iff hw (by simp [Lower]), anyText,
      anyTextMember, Bool.or_eq_true, Bool.or_eq_true, holds_iff, or_assoc, or_assoc]

theorem infix_compactItems_iff (hw : Word w) :
    (items : List Json) → (rest : List Char) →
      (w <:+: compactItems items ++ rest ↔ anyTextItem (holds w) items = true ∨ w <:+: rest)
  | [], rest => by simp [compactItems, anyTextItem]
  | v :: items, rest => by
    have htext : compactItems (v :: items) ++ rest
        = [','] ++ (compactChars v ++ (compactItems items ++ rest)) := by
      simp [compactItems]
    rw [htext, infix_skip_iff hw (by simp [Lower]), infix_compactChars_iff hw v,
      infix_compactItems_iff hw items, anyTextItem, Bool.or_eq_true, or_assoc]

theorem infix_compactMembers_iff (hw : Word w) :
    (members : List (String × Json)) → (rest : List Char) →
      (w <:+: compactMembers members ++ rest
        ↔ anyTextMember (holds w) members = true ∨ w <:+: rest)
  | [], rest => by simp [compactMembers, anyTextMember]
  | (name, v) :: members, rest => by
    have htext : compactMembers ((name, v) :: members) ++ rest
        = [','] ++ (stringText name ++ ([':'] ++ (compactChars v
          ++ (compactMembers members ++ rest)))) := by
      simp [compactMembers]
    rw [htext, infix_skip_iff hw (by simp [Lower]), infix_stringText_iff hw,
      infix_skip_iff hw (by simp [Lower]), infix_compactChars_iff hw v,
      infix_compactMembers_iff hw members, anyTextMember, Bool.or_eq_true, Bool.or_eq_true,
      holds_iff, or_assoc, or_assoc]

end

/-- A word is found in the compact text of a value exactly if it is found in
one of its strings or member names. -/
theorem holds_compact (hw : Word w) (v : Json) : holds w v.compact = anyText (holds w) v := by
  have h := infix_compactChars_iff hw v []
  rw [List.append_nil, List.infix_nil, or_iff_left hw.ne_nil] at h
  rw [Bool.eq_iff_iff, holds_iff, compact, String.toList_ofList, h]

end TokenMarket.Json
