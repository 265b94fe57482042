import TokenMarket.Proofs.JsonReadBack
import TokenMarket.Proofs.JsonWord

/-!
# Layouts of a value

The compact text of a value and the wide one differ in the blanks between the tokens,
and a reader drops these.  So one proof serves both, and it is about any `Layout`.

There are four groups.

* Tokens at the front of a text.  Of the tokens of a value only a number depends on what
  follows, so every lemma about a text says what does, `NumberText.Ends`.
* Layouts.  `Layout.scan?_chars` is the induction over the value.  `compact_chars` and
  `wide_chars` say that the two texts that are printed are laid out in this sense.
* Characters.  `Layout.clean_chars` says that no control stands in a text but the blanks of
  its layout, because every control in a string is written by visible characters.  In a
  wide text these are the line feeds, `wide_controls`.
* Values read back.  `Layout.tree_chars` goes on from the tokens to the tree,
  `Layout.parse?_chars` to the value, and `wide_injective` is what that means for a text that
  a person reads.
-/

namespace TokenMarket.Json

/-! ## Tokens at the front of a text -/

namespace Token

theorem scan?_openArray (rest : List Char) :
    scan? ('[' :: rest) = (scan? rest).map (.openArray :: ·) :=
  scan?_of_token? (by decide) rfl

theorem scan?_closeArray (rest : List Char) :
    scan? (']' :: rest) = (scan? rest).map (.closeArray :: ·) :=
  scan?_of_token? (by decide) rfl

theorem scan?_null (rest : List Char) :
    scan? (nullText ++ rest) = (scan? rest).map (.null :: ·) :=
  scan?_of_token? (by decide) rfl

theorem scan?_bool (b : Bool) (rest : List Char) :
    scan? (boolText b ++ rest) = (scan? rest).map (.bool b :: ·) := by
  cases b with
  | true => exact scan?_of_token? (by decide) rfl
  | false => exact scan?_of_token? (by decide) rfl

/-- A digit or a minus begins a number. -/
theorem token?_number {c : Char} (h : c.isDigit = true ∨ c = '-') (rest : List Char) :
    token? c rest = (NumberText.read? (c :: rest)).map fun (t, rest) => (.number t, rest) := by
  unfold token?
  split <;> first | rfl | exact absurd h (by decide)

theorem scan?_intText (n : Int) {rest : List Char} (hrest : NumberText.Ends rest) :
    scan? (intText n ++ rest) = (scan? rest).map (.number (.ofInt n) :: ·) := by
  obtain ⟨c, cs, hchars, hc⟩ : ∃ c cs, intText n = c :: cs ∧ (c.isDigit = true ∨ c = '-') := by
    cases n with
    | ofNat n =>
      obtain ⟨c, cs, hdigits, hc⟩ := Numeral.exists_digits_cons n
      exact ⟨c, cs, hdigits, Or.inl hc⟩
    | negSucc n => exact ⟨'-', _, rfl, Or.inr rfl⟩
  have hspace : isSpace c = false := by
    rcases hc with hc | rfl
    · have hne : ∀ x : Char, x.isDigit = false → c ≠ x := by
        rintro x hx rfl
        rw [hc] at hx
        cases hx
      simp [isSpace, hne ' ' rfl, hne '\t' rfl, hne '\n' rfl, hne '\r' rfl]
    · rfl
  have hread := NumberText.read?_intText n hrest
  rw [hchars, List.cons_append] at hread ⊢
  refine scan?_of_token? hspace ?_
  rw [token?_number hc, hread]
  rfl

end Token

open NumberText (Ends ends_cons)

theorem Token.scan?_blanks {blanks : List Char} (h : ∀ c ∈ blanks, isSpace c = true)
    (rest : List Char) : scan? (blanks ++ rest) = scan? rest := by
  induction blanks with
  | nil => rfl
  | cons c blanks ih =>
    obtain ⟨hc, hblanks⟩ := List.forall_mem_cons.1 h
    rw [List.cons_append, scan?, if_pos hc, ih hblanks]

/-- In front of blanks no number goes on. -/
theorem ends_blanks {blanks rest : List Char} (h : ∀ c ∈ blanks, Token.isSpace c = true)
    (hrest : Ends rest) : Ends (blanks ++ rest) := by
  cases blanks with
  | nil => exact hrest
  | cons c blanks =>
    have hc := (List.forall_mem_cons.1 h).1
    simp only [Token.isSpace, Bool.or_eq_true, beq_iff_eq] at hc
    refine ends_cons ?_ (blanks ++ rest)
    rcases hc with ((rfl | rfl) | rfl) | rfl <;> decide

/-! ## Layouts -/

/-- What stands between the tokens of a value: the blanks in front of an item or a
member of a level, and the blanks behind the colon of a member. -/
structure Layout where
  gap : Nat → List Char
  space : List Char
  isSpace_gap : ∀ level, ∀ c ∈ gap level, Token.isSpace c = true
  isSpace_space : ∀ c ∈ space, Token.isSpace c = true

namespace Layout

mutual

/-- The text of a value whose first line stands at the level. -/
def chars (l : Layout) (level : Nat) : Json → List Char
  | null => nullText
  | bool b => boolText b
  | int n => intText n
  | real x => realText x
  | string s => stringText s
  | array [] => ['[', ']']
  | array (v :: rest) =>
    '[' :: l.gap (level + 1) ++ chars l (level + 1) v ++ itemChars l (level + 1) rest
      ++ l.gap level ++ [']']
  | object [] => ['\x7b', '\x7d']
  | object ((name, v) :: rest) =>
    '\x7b' :: l.gap (level + 1) ++ stringText name ++ ':' :: l.space ++ chars l (level + 1) v
      ++ memberChars l (level + 1) rest ++ l.gap level ++ ['\x7d']

/-- The text of the items after the first. -/
def itemChars (l : Layout) (level : Nat) : List Json → List Char
  | [] => []
  | v :: rest => ',' :: l.gap level ++ chars l level v ++ itemChars l level rest

/-- The text of the members after the first. -/
def memberChars (l : Layout) (level : Nat) : List (String × Json) → List Char
  | [] => []
  | (name, v) :: rest =>
    ',' :: l.gap level ++ stringText name ++ ':' :: l.space ++ chars l level v
      ++ memberChars l level rest

end

variable (l : Layout)

theorem ends_gap (level : Nat) {rest : List Char} (hrest : Ends rest) :
    Ends (l.gap level ++ rest) :=
  ends_blanks (l.isSpace_gap level) hrest

/-- Behind an item no number goes on. -/
theorem ends_itemChars (level : Nat) (items : List Json) {rest : List Char} (hrest : Ends rest) :
    Ends (l.itemChars level items ++ rest) := by
  cases items with
  | nil => exact hrest
  | cons v items => exact ends_cons (by decide) _

theorem ends_memberChars (level : Nat) (members : List (String × Json)) {rest : List Char}
    (hrest : Ends rest) : Ends (l.memberChars level members ++ rest) := by
  cases members with
  | nil => exact hrest
  | cons p members => exact ends_cons (by decide) _

mutual

/-- The text of a value is scanned as its tokens, however it is laid out. -/
theorem scan?_chars (level : Nat) : (v : Json) → Whole v →
    {rest : List Char} → Ends rest →
      Token.scan? (l.chars level v ++ rest) = (Token.scan? rest).map (tokens v ++ ·)
  | .null, _, rest, _ => Token.scan?_null rest
  | .bool b, _, rest, _ => Token.scan?_bool b rest
  | .int n, _, _, hrest => Token.scan?_intText n hrest
  | .string s, _, rest, _ => Token.scan?_stringText s rest
  | .array [], _, rest, _ => by
    rw [chars, List.cons_append, List.cons_append, List.nil_append, Token.scan?_openArray,
      Token.scan?_closeArray, Option.map_map]
    rfl
  | .array (v :: items), h, rest, hrest => by
    have htext : l.chars level (.array (v :: items)) ++ rest
        = '[' :: (l.gap (level + 1) ++ (l.chars (level + 1) v ++ (l.itemChars (level + 1) items
          ++ (l.gap level ++ ']' :: rest)))) := by
      simp [chars]
    have hends : Ends (l.gap level ++ ']' :: rest) :=
      l.ends_gap level (ends_cons (by decide) rest)
    rw [htext, Token.scan?_openArray, Token.scan?_blanks (l.isSpace_gap _),
      scan?_chars _ v h.1 (l.ends_itemChars _ items hends), scan?_itemChars _ items h.2 hends,
      Token.scan?_blanks (l.isSpace_gap _), Token.scan?_closeArray]
    simp [tokens, Function.comp_def]
  | .object [], _, rest, _ => by
    rw [chars, List.cons_append, List.cons_append, List.nil_append, Token.scan?_openObject,
      Token.scan?_closeObject, Option.map_map]
    rfl
  | .object ((name, v) :: members), h, rest, hrest => by
    have htext : l.chars level (.object ((name, v) :: members)) ++ rest
        = '\x7b' :: (l.gap (level + 1) ++ (stringText name ++ ':' :: (l.space
          ++ (l.chars (level + 1) v ++ (l.memberChars (level + 1) members
          ++ (l.gap level ++ '\x7d' :: rest)))))) := by
      simp [chars]
    have hends : Ends (l.gap level ++ '\x7d' :: rest) :=
      l.ends_gap level (ends_cons (by decide) rest)
    rw [htext, Token.scan?_openObject, Token.scan?_blanks (l.isSpace_gap _),
      Token.scan?_stringText, Token.scan?_colon, Token.scan?_blanks l.isSpace_space,
      scan?_chars _ v h.1 (l.ends_memberChars _ members hends),
      scan?_memberChars _ members h.2 hends, Token.scan?_blanks (l.isSpace_gap _),
      Token.scan?_closeObject]
    simp [tokens, Function.comp_def]

theorem scan?_itemChars (level : Nat) : (items : List Json) →
    WholeItems items → {rest : List Char} → Ends rest →
      Token.scan? (l.itemChars level items ++ rest)
        = (Token.scan? rest).map (itemTokens items ++ ·)
  | [], _, rest, _ => by simp [itemChars, itemTokens]
  | v :: items, h, rest, hrest => by
    have htext : l.itemChars level (v :: items) ++ rest
        = ',' :: (l.gap level ++ (l.chars level v ++ (l.itemChars level items ++ rest))) := by
      simp [itemChars]
    rw [htext, Token.scan?_comma, Token.scan?_blanks (l.isSpace_gap _),
      scan?_chars _ v h.1 (l.ends_itemChars _ items hrest), scan?_itemChars _ items h.2 hrest]
    simp [itemTokens, Function.comp_def]

theorem scan?_memberChars (level : Nat) : (members : List (String × Json)) →
    WholeMembers members → {rest : List Char} → Ends rest →
      Token.scan? (l.memberChars level members ++ rest)
        = (Token.scan? rest).map (memberTokens members ++ ·)
  | [], _, rest, _ => by simp [memberChars, memberTokens]
  | (name, v) :: members, h, rest, hrest => by
    have htext : l.memberChars level ((name, v) :: members) ++ rest
        = ',' :: (l.gap level ++ (stringText name ++ ':' :: (l.space ++ (l.chars level v
          ++ (l.memberChars level members ++ rest))))) := by
      simp [memberChars]
    rw [htext, Token.scan?_comma, Token.scan?_blanks (l.isSpace_gap _), Token.scan?_stringText,
      Token.scan?_colon, Token.scan?_blanks l.isSpace_space,
      scan?_chars _ v h.1 (l.ends_memberChars _ members hrest),
      scan?_memberChars _ members h.2 hrest]
    simp [memberTokens, Function.comp_def]

end

/-- Nothing between the tokens. -/
def compact : Layout := ⟨fun _ => [], [], by simp, by simp⟩

/-- A line for every item and member. -/
def wide : Layout where
  gap := newLine
  space := [' ']
  isSpace_gap := by
    intro level c hc
    rcases List.mem_cons.1 hc with rfl | hc
    · rfl
    · rw [List.eq_of_mem_replicate hc]
      rfl
  isSpace_space := by simp [Token.isSpace]

theorem compact_gap (level : Nat) : compact.gap level = [] := rfl

theorem compact_space : compact.space = [] := rfl

theorem wide_gap (level : Nat) : wide.gap level = newLine level := rfl

theorem wide_space : wide.space = [' '] := rfl

mutual

theorem compact_chars (level : Nat) : (v : Json) → compact.chars level v = compactChars v
  | .null | .bool _ | .int _ | .real _ | .string _ | .array [] | .object [] => by
    simp [chars, compactChars]
  | .array (v :: rest) => by
    simp [chars, compactChars, compact_chars _ v, compact_itemChars _ rest, compact_gap]
  | .object ((name, v) :: rest) => by
    simp [chars, compactChars, compact_chars _ v, compact_memberChars _ rest, compact_gap,
      compact_space]

theorem compact_itemChars (level : Nat) : (items : List Json) →
    compact.itemChars level items = compactItems items
  | [] => rfl
  | v :: rest => by
    simp [itemChars, compactItems, compact_chars _ v, compact_itemChars _ rest, compact_gap]

theorem compact_memberChars (level : Nat) : (members : List (String × Json)) →
    compact.memberChars level members = compactMembers members
  | [] => rfl
  | (name, v) :: rest => by
    simp [memberChars, compactMembers, compact_chars _ v, compact_memberChars _ rest, compact_gap,
      compact_space]

end

mutual

theorem wide_chars (level : Nat) : (v : Json) → wide.chars level v = wideChars level v
  | .null | .bool _ | .int _ | .real _ | .string _ | .array [] | .object [] => by
    simp [chars, wideChars]
  | .array (v :: rest) => by
    simp [chars, wideChars, wide_chars _ v, wide_itemChars _ rest, wide_gap]
  | .object ((name, v) :: rest) => by
    simp [chars, wideChars, wide_chars _ v, wide_memberChars _ rest, wide_gap, wide_space]

theorem wide_itemChars (level : Nat) : (items : List Json) →
    wide.itemChars level items = wideItems level items
  | [] => rfl
  | v :: rest => by
    simp [itemChars, wideItems, wide_chars _ v, wide_itemChars _ rest, wide_gap]

theorem wide_memberChars (level : Nat) : (members : List (String × Json)) →
    wide.memberChars level members = wideMembers level members
  | [] => rfl
  | (name, v) :: rest => by
    simp [memberChars, wideMembers, wide_chars _ v, wide_memberChars _ rest, wide_gap, wide_space]

end

end Layout

/-! ## Characters -/

/-- A text without controls. -/
def Visible (cs : List Char) : Prop := ∀ c ∈ cs, 0x20 ≤ c.toNat

instance (cs : List Char) : Decidable (Visible cs) :=
  List.decidableBAll (fun c : Char => 0x20 ≤ c.toNat) cs

theorem visible_numeric {cs : List Char} (h : Numeric cs) : Visible cs := by
  have hmarks : Visible ['-', '+', '.', 'e'] := by decide
  intro c hc
  rcases h c hc with hdigit | hmark
  · have hcode := Numeral.toNat_of_isDigit hdigit
    omega
  · exact hmarks c hmark

/-- A control in a string is written by visible characters. -/
theorem visible_escapedChar (c : Char) : Visible (escapedChar c) := by
  rcases escapedChar_cases c with ⟨e, _, he, hform⟩ | ⟨hcontrol, hform⟩ | ⟨_, _, hvisible, hform⟩
  · unfold Token.escape? at he
    rw [hform]
    split at he
    all_goals first
      | decide
      | simp at he
  · have hall : ∀ d, d < 16 → Visible [Hex.digit d] := by decide
    have hdigits : Visible ([Hex.digit (c.toNat / 16)] ++ [Hex.digit (c.toNat % 16)]) :=
      List.forall_mem_append.2 ⟨hall _ (by omega), hall _ (by omega)⟩
    have hfront : Visible ['\\', 'u', '0', '0'] := by decide
    rw [hform]
    exact List.forall_mem_append.2 ⟨hfront, hdigits⟩
  · rw [hform]
    intro x hx
    rw [List.mem_singleton.1 hx]
    omega

theorem visible_stringText (s : String) : Visible (stringText s) := by
  intro c hc
  simp only [stringText, List.mem_append, List.mem_cons, List.mem_flatMap, List.not_mem_nil,
    or_false] at hc
  rcases hc with (rfl | ⟨x, _, hx⟩) | rfl
  · decide
  · exact visible_escapedChar x c hx
  · decide

namespace Layout

/-- The characters that stand between the tokens. -/
inductive Blank (l : Layout) (c : Char) : Prop
  | gap {level : Nat} (h : c ∈ l.gap level)
  | space (h : c ∈ l.space)

/-- A text without controls but those that stand between the tokens. -/
def Clean (l : Layout) (cs : List Char) : Prop := ∀ c ∈ cs, l.Blank c ∨ 0x20 ≤ c.toNat

variable {l : Layout}

theorem clean_append {a b : List Char} : l.Clean (a ++ b) ↔ l.Clean a ∧ l.Clean b :=
  List.forall_mem_append

theorem clean_of_visible {cs : List Char} (h : Visible cs) : l.Clean cs := fun c hc =>
  Or.inr (h c hc)

theorem clean_gap (level : Nat) : l.Clean (l.gap level) := fun _ hc => Or.inl (.gap hc)

theorem clean_open {mark : Char} (hmark : 0x20 ≤ mark.toNat) (level : Nat) :
    l.Clean (mark :: l.gap level) :=
  List.forall_mem_cons.2 ⟨Or.inr hmark, clean_gap level⟩

theorem clean_close {mark : Char} (hmark : 0x20 ≤ mark.toNat) : l.Clean [mark] :=
  List.forall_mem_singleton.2 (Or.inr hmark)

theorem clean_colon : l.Clean (':' :: l.space) :=
  List.forall_mem_cons.2 ⟨Or.inr (by decide), fun _ hc => Or.inl (.space hc)⟩

theorem clean_stringText (s : String) : l.Clean (stringText s) :=
  clean_of_visible (visible_stringText s)

mutual

/-- No control stands in the text of a value but the blanks of its layout. -/
theorem clean_chars (level : Nat) : (v : Json) → l.Clean (l.chars level v)
  | .null => by
    rw [chars]
    exact clean_of_visible (by decide)
  | .bool b => by
    rw [chars]
    exact clean_of_visible (by cases b <;> decide)
  | .int n => by
    rw [chars]
    exact clean_of_visible (visible_numeric (numeric_intText n))
  | .real x => by
    rw [chars]
    exact clean_of_visible (visible_numeric (numeric_realText x))
  | .string s => by
    rw [chars]
    exact clean_stringText s
  | .array [] => by
    rw [chars]
    exact clean_of_visible (by decide)
  | .array (v :: items) => by
    simp only [chars, clean_append]
    exact ⟨⟨⟨⟨clean_open (by decide) _, clean_chars _ v⟩, clean_itemChars _ items⟩,
      clean_gap level⟩, clean_close (by decide)⟩
  | .object [] => by
    rw [chars]
    exact clean_of_visible (by decide)
  | .object ((name, v) :: members) => by
    simp only [chars, clean_append]
    exact ⟨⟨⟨⟨⟨⟨clean_open (by decide) _, clean_stringText name⟩, clean_colon⟩,
      clean_chars _ v⟩, clean_memberChars _ members⟩, clean_gap level⟩, clean_close (by decide)⟩

theorem clean_itemChars (level : Nat) : (items : List Json) → l.Clean (l.itemChars level items)
  | [] => List.forall_mem_nil _
  | v :: items => by
    simp only [itemChars, clean_append]
    exact ⟨⟨clean_open (by decide) _, clean_chars _ v⟩, clean_itemChars _ items⟩

theorem clean_memberChars (level : Nat) :
    (members : List (String × Json)) → l.Clean (l.memberChars level members)
  | [] => List.forall_mem_nil _
  | (name, v) :: members => by
    simp only [memberChars, clean_append]
    exact ⟨⟨⟨⟨clean_open (by decide) _, clean_stringText name⟩, clean_colon⟩,
      clean_chars _ v⟩, clean_memberChars _ members⟩

end

end Layout

/-- The only controls of the wide text are the line feeds between its lines. -/
theorem wide_controls {v : Json} {c : Char} (hc : c ∈ v.wide.toList) (hcontrol : c.toNat < 0x20) :
    c = '\n' := by
  rw [wide, String.toList_ofList, ← Layout.wide_chars] at hc
  rcases Layout.clean_chars 0 v c hc with hblank | hvisible
  · cases hblank with
    | gap h =>
      refine (List.mem_cons.1 h).resolve_right fun hspace => ?_
      rw [List.eq_of_mem_replicate hspace] at hcontrol
      exact absurd hcontrol (by decide)
    | space h =>
      rw [List.mem_singleton.1 h] at hcontrol
      exact absurd hcontrol (by decide)
  · omega

/-! ## Values read back -/

/-- The text of a value has the tree of the value, however it is laid out.  Blanks may follow
it. -/
theorem Layout.tree_chars (l : Layout) (level : Nat) {v : Json} (h : Whole v)
    {blanks : List Char} (hblanks : ∀ c ∈ blanks, Token.isSpace c = true) :
    Tree.parse? (l.chars level v ++ blanks) = some (Tree.ofJson v) := by
  have hends : NumberText.Ends (blanks ++ []) := ends_blanks hblanks NumberText.ends_nil
  have hscan := l.scan?_chars level v h hends
  have hbuild := build_tokens v h [] []
  have hnone : Token.scan? [] = some [] := by rw [Token.scan?]
  rw [Token.scan?_blanks hblanks, List.append_nil, hnone, Option.map_some, List.append_nil] at hscan
  rw [List.append_nil] at hbuild
  rw [Tree.parse?, hscan, Option.bind_some, hbuild]
  rfl

/-- The text of a readable value is read as the value. -/
theorem Layout.parse?_chars (l : Layout) (level : Nat) {v : Json} (h : Readable maxLevels v)
    {blanks : List Char} (hblanks : ∀ c ∈ blanks, Token.isSpace c = true) :
    parse? (String.ofList (l.chars level v ++ blanks)) = some v := by
  rw [parse?, String.toList_ofList, l.tree_chars level h.whole hblanks]
  exact value?_ofJson v h

/-- The compact text of a readable value is read as the value. -/
theorem parse?_compact {v : Json} (h : Readable maxLevels v) : parse? v.compact = some v := by
  have hparse := Layout.compact.parse?_chars 0 h (List.forall_mem_nil _)
  rwa [List.append_nil, Layout.compact_chars] at hparse

/-- So is the wide text. -/
theorem parse?_wide {v : Json} (h : Readable maxLevels v) : parse? v.wide = some v := by
  have hparse := Layout.wide.parse?_chars 0 h (List.forall_mem_nil _)
  rwa [List.append_nil, Layout.wide_chars] at hparse

/-- The end of the last line makes no difference. -/
theorem parse?_wide_line {v : Json} (h : Readable maxLevels v) :
    parse? (v.wide ++ "\n") = some v := by
  have hend : ∀ c ∈ ['\n'], Token.isSpace c = true := by simp [Token.isSpace]
  have hparse := Layout.wide.parse?_chars 0 h hend
  rw [Layout.wide_chars, String.ofList_append] at hparse
  exact hparse

theorem wide_injective {v w : Json} (hv : Readable maxLevels v) (hw : Readable maxLevels w)
    (h : v.wide = w.wide) : v = w := by
  have hparse := parse?_wide hv
  rw [h, parse?_wide hw] at hparse
  exact (Option.some.inj hparse).symm

end TokenMarket.Json
