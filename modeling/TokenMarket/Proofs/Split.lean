import TokenMarket.Text.Split

/-!
# Parts that hold no separator come back

`Text.splitOn` and `Text.joinWith` undo each other on parts that do not
hold the separator.  A text is peeled from the front: the part up to the
first separator is the first part, and the rest is split by itself.

`splitOn_eq_iff` puts both directions together.  The parts of a text are
the parts without a separator that it is joined of, and there are no
others.

`Text.occursIn` is the library's relation `<:+:` between lists.
-/

namespace TokenMarket.Text

theorem splitOn_ne_nil (separator : Char) (cs : List Char) : splitOn separator cs ≠ [] := by
  fun_cases splitOn separator cs <;> simp

theorem joinWith_cons {separator part : List Char} {rest : List (List Char)} (h : rest ≠ []) :
    joinWith separator (part :: rest) = part ++ separator ++ joinWith separator rest := by
  cases rest with
  | nil => exact absurd rfl h
  | cons next others => rfl

/-- A text without the separator is one part. -/
theorem splitOn_of_not_mem {separator : Char} {part : List Char} (h : separator ∉ part) :
    splitOn separator part = [part] := by
  induction part with
  | nil => rfl
  | cons c cs ih =>
    have hc : c ≠ separator := fun heq => h (by simp [heq])
    have hcs : separator ∉ cs := fun hmem => h (by simp [hmem])
    rw [splitOn, if_neg hc, ih hcs]

/-- A separator cuts a text, and each side is split by itself. -/
theorem splitOn_append_separator (separator : Char) (front rest : List Char) :
    splitOn separator (front ++ separator :: rest)
      = splitOn separator front ++ splitOn separator rest := by
  induction front with
  | nil => simp [splitOn]
  | cons c cs ih =>
    rw [List.cons_append, splitOn, splitOn, ih]
    by_cases hc : c = separator
    · rw [if_pos hc, if_pos hc, List.cons_append]
    · obtain ⟨part, parts, hparts⟩ := List.exists_cons_of_ne_nil (splitOn_ne_nil separator cs)
      rw [if_neg hc, if_neg hc, hparts]
      rfl

/-- The part in front of the first separator is the first part. -/
theorem splitOn_append {separator : Char} {part : List Char} (h : separator ∉ part)
    (rest : List Char) :
    splitOn separator (part ++ separator :: rest) = part :: splitOn separator rest := by
  rw [splitOn_append_separator, splitOn_of_not_mem h, List.singleton_append]

/-- Parts without the separator come back from the joined text. -/
theorem splitOn_joinWith {separator : Char} {parts : List (List Char)} (hne : parts ≠ [])
    (h : ∀ part ∈ parts, separator ∉ part) :
    splitOn separator (joinWith [separator] parts) = parts := by
  induction parts with
  | nil => exact absurd rfl hne
  | cons part rest ih =>
    have hpart : separator ∉ part := h part (by simp)
    have hrest : ∀ x ∈ rest, separator ∉ x := fun x hx => h x (by simp [hx])
    by_cases hmore : rest = []
    · rw [hmore]
      exact splitOn_of_not_mem hpart
    · rw [joinWith_cons hmore, List.append_assoc, List.singleton_append, splitOn_append hpart,
        ih hmore hrest]

/-- No part holds the separator. -/
theorem not_mem_of_mem_splitOn {separator : Char} {cs part : List Char}
    (h : part ∈ splitOn separator cs) : separator ∉ part := by
  fun_induction splitOn separator cs generalizing part with
  | case1 => simp_all
  | case2 cs ih =>
    rcases List.mem_cons.1 h with heq | h
    · rw [heq]
      exact List.not_mem_nil
    · exact ih h
  | case3 c cs hc hsplit => exact absurd hsplit (splitOn_ne_nil separator cs)
  | case4 c cs hc first parts hsplit ih =>
    rw [hsplit] at ih
    rcases List.mem_cons.1 h with heq | h
    · rw [heq]
      intro hmem
      rcases List.mem_cons.1 hmem with heq | hmem
      · exact hc heq.symm
      · exact ih List.mem_cons_self hmem
    · exact ih (List.mem_cons_of_mem first h)

/-- A part has no characters but those of the text. -/
theorem mem_of_mem_splitOn {separator : Char} {cs part : List Char} {c : Char}
    (h : part ∈ splitOn separator cs) (hc : c ∈ part) : c ∈ cs := by
  fun_induction splitOn separator cs generalizing part with
  | case1 => simp_all
  | case2 cs ih =>
    rcases List.mem_cons.1 h with rfl | h
    · cases hc
    · exact List.mem_cons_of_mem _ (ih h hc)
  | case3 d cs hd hsplit => exact absurd hsplit (splitOn_ne_nil separator cs)
  | case4 d cs hd first parts hsplit ih =>
    rw [hsplit] at ih
    rcases List.mem_cons.1 h with rfl | h
    · rcases List.mem_cons.1 hc with rfl | hc
      · exact List.mem_cons_self
      · exact List.mem_cons_of_mem _ (ih List.mem_cons_self hc)
    · exact List.mem_cons_of_mem _ (ih (List.mem_cons_of_mem first h) hc)

/-- The text is its parts with the separator between them. -/
theorem joinWith_splitOn (separator : Char) (cs : List Char) :
    joinWith [separator] (splitOn separator cs) = cs := by
  fun_induction splitOn separator cs with
  | case1 => rfl
  | case2 cs ih =>
    rw [joinWith_cons (splitOn_ne_nil separator cs), ih]
    rfl
  | case3 c cs hc hsplit => exact absurd hsplit (splitOn_ne_nil separator cs)
  | case4 c cs hc first parts hsplit ih =>
    rw [hsplit] at ih
    rw [← ih]
    cases parts with
    | nil => rfl
    | cons next others => rfl

/-- There is a part more than there are separators. -/
theorem length_splitOn (separator : Char) (cs : List Char) :
    (splitOn separator cs).length = cs.count separator + 1 := by
  fun_induction splitOn separator cs with
  | case1 => rfl
  | case2 cs ih => rw [List.length_cons, ih, List.count_cons_self]
  | case3 c cs hc hsplit => exact absurd hsplit (splitOn_ne_nil separator cs)
  | case4 c cs hc first parts hsplit ih =>
    rw [hsplit] at ih
    rw [List.count_cons_of_ne hc, ← ih, List.length_cons, List.length_cons]

/-- The parts of a text are those without the separator that it is joined of. -/
theorem splitOn_eq_iff {separator : Char} {cs : List Char} {parts : List (List Char)} :
    splitOn separator cs = parts ↔ parts ≠ [] ∧ (∀ part ∈ parts, separator ∉ part)
      ∧ cs = joinWith [separator] parts := by
  constructor
  · intro h
    rw [← h]
    exact ⟨splitOn_ne_nil separator cs, fun part => not_mem_of_mem_splitOn,
      (joinWith_splitOn separator cs).symm⟩
  · intro ⟨hne, hparts, hcs⟩
    rw [hcs, splitOn_joinWith hne hparts]

/-- The part in front of the first separator, and the text behind it, belong to
one text only. -/
theorem append_separator_inj {separator : Char} {a b front back : List Char}
    (ha : separator ∉ a) (hb : separator ∉ b) (h : a ++ separator :: front = b ++ separator :: back) :
    a = b ∧ front = back := by
  induction a generalizing b with
  | nil =>
    cases b with
    | nil => exact ⟨rfl, (List.cons.inj h).2⟩
    | cons c b => exact absurd ((List.cons.inj h).1 ▸ List.mem_cons_self) hb
  | cons c a ih =>
    cases b with
    | nil => exact absurd ((List.cons.inj h).1 ▸ List.mem_cons_self) ha
    | cons d b =>
      obtain ⟨rfl, htail⟩ := List.cons.inj h
      obtain ⟨rfl, hback⟩ := ih (fun hmem => ha (List.mem_cons_of_mem c hmem))
        (fun hmem => hb (List.mem_cons_of_mem c hmem)) htail
      exact ⟨rfl, hback⟩

/-- A part occurs in a text when the text has it somewhere as a whole. -/
theorem occursIn_iff {part cs : List Char} : occursIn part cs = true ↔ part <:+: cs := by
  induction cs with
  | nil => simp [occursIn]
  | cons c cs ih =>
    rw [occursIn, Bool.or_eq_true, ih, List.isPrefixOf_iff_prefix, List.infix_cons_iff]

end TokenMarket.Text
