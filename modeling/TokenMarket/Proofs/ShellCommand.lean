import TokenMarket.Deploy.Basic

/-!
# A shell reads a command as it was meant

A person copies the command of a deploy into a shell.  What the shell runs
is not the line but the words that it finds in it, and a line may also make
it do something else first: expand a name, match files, leave out the rest
as a comment.  This module shows that neither can go wrong, whatever the
texts of the deploy are.

There are three groups.

* The words.  `wordsFrom?_quoted` reads one quoted word to its end, by
  induction over its characters, and `wordsFrom?_tail` reads all words
  behind the first, by induction over the words.  Both are stated for a
  reader that already stands inside a word, because that is where the
  induction leaves it.
* The characters outside the quotes.  `exposed` collects them, and
  `exposed_quote` says what a quoted word adds: plain characters, or quotes
  behind a backslash.
* The command.  `Deploy.command_reads_back` puts both together.
-/

namespace TokenMarket

namespace ShellWord

/-! ## The words -/

/-- A plain character separates no words. -/
theorem isSeparator_of_isPlain {c : Char} (h : isPlain c = true) : isSeparator c = false := by
  cases hs : isSeparator c with
  | false => rfl
  | true =>
    simp only [isSeparator, Bool.or_eq_true, beq_iff_eq] at hs
    rcases hs with (rfl | rfl) | rfl <;> exact absurd h (by decide)

/-- A plain character is no quote and no backslash. -/
theorem ne_of_isPlain {c : Char} (h : isPlain c = true) : c ≠ '\'' ∧ c ≠ '\\' := by
  constructor
  · rintro rfl
    exact absurd h (by decide)
  · rintro rfl
    exact absurd h (by decide)

/-- A plain character that begins or goes on a word belongs to it. -/
theorem enter_of_isPlain {c : Char} (word : List Char) (h : isPlain c = true) :
    enter word c = .inside (c :: word) := by
  obtain ⟨hq, hb⟩ := ne_of_isPlain h
  rw [enter, if_neg hq, if_neg hb]

/-- Plain characters inside a word are taken one by one. -/
theorem wordsFrom?_plain (word acc rest : List Char) (h : ∀ c ∈ word, isPlain c = true) :
    wordsFrom? (.inside acc) (word ++ rest) = wordsFrom? (.inside (word.reverse ++ acc)) rest := by
  induction word generalizing acc with
  | nil => rfl
  | cons c cs ih =>
    have hc : isPlain c = true := h c (by simp)
    have hcs : ∀ x ∈ cs, isPlain x = true := fun x hx => h x (by simp [hx])
    rw [List.cons_append, wordsFrom?, isSeparator_of_isPlain hc, enter_of_isPlain acc hc]
    simpa using ih (c :: acc) hcs

/-- Between single quotes a reader comes to the closing quote with all
characters of the word, its own quotes included. -/
theorem wordsFrom?_quoted (word acc rest : List Char) :
    wordsFrom? (.quoted acc) (word.flatMap quotedChar ++ '\'' :: rest)
      = wordsFrom? (.inside (word.reverse ++ acc)) rest := by
  induction word generalizing acc with
  | nil => simp [wordsFrom?]
  | cons c cs ih =>
    rw [List.flatMap_cons, List.append_assoc]
    by_cases hc : c = '\''
    · -- The quote leaves the quoted part, and the next part starts behind it.
      subst hc
      have hsep : isSeparator '\\' = false ∧ isSeparator '\'' = false := by decide
      have hstep : wordsFrom? (.quoted acc)
            (quotedChar '\'' ++ (cs.flatMap quotedChar ++ '\'' :: rest))
          = wordsFrom? (.quoted ('\'' :: acc)) (cs.flatMap quotedChar ++ '\'' :: rest) := by
        simp [quotedChar, wordsFrom?, enter, hsep]
      rw [hstep, ih]
      simp
    · have hstep : wordsFrom? (.quoted acc)
            (quotedChar c ++ (cs.flatMap quotedChar ++ '\'' :: rest))
          = wordsFrom? (.quoted (c :: acc)) (cs.flatMap quotedChar ++ '\'' :: rest) := by
        simp [quotedChar, wordsFrom?, hc]
      rw [hstep, ih]
      simp

/-- The form in which a word is written, in its two cases. -/
theorem quote_cases (word : List Char) :
    (word ≠ [] ∧ (∀ c ∈ word, isPlain c = true) ∧ quote word = word)
      ∨ quote word = '\'' :: word.flatMap quotedChar ++ ['\''] := by
  rw [quote]
  split
  · next h => exact Or.inl ⟨h.1, by simpa using h.2, rfl⟩
  · exact Or.inr rfl

/-- A word that starts behind a separator is read to its end. -/
theorem wordsFrom?_quote (word rest : List Char) :
    wordsFrom? .between (quote word ++ rest) = wordsFrom? (.inside word.reverse) rest := by
  rcases quote_cases word with ⟨hne, hplain, heq⟩ | heq
  · rw [heq]
    cases word with
    | nil => exact absurd rfl hne
    | cons c cs =>
      have hc : isPlain c = true := hplain c (by simp)
      rw [List.cons_append, wordsFrom?, isSeparator_of_isPlain hc, enter_of_isPlain [] hc]
      simpa using wordsFrom?_plain cs [c] rest fun x hx => hplain x (by simp [hx])
  · have henter : wordsFrom? .between (quote word ++ rest)
        = wordsFrom? (.quoted []) (word.flatMap quotedChar ++ '\'' :: rest) := by
      rw [heq]
      simp [wordsFrom?, enter, show isSeparator '\'' = false by decide]
    rw [henter, wordsFrom?_quoted]
    simp

/-- A reader at the end of one word finds the words behind it. -/
theorem wordsFrom?_tail (words : List (List Char)) (acc : List Char) :
    wordsFrom? (.inside acc) (tail words) = some (acc.reverse :: words) := by
  induction words generalizing acc with
  | nil => rfl
  | cons word rest ih =>
    have hspace : isSeparator ' ' = true := by decide
    rw [tail, List.cons_append, wordsFrom?, if_pos hspace, wordsFrom?_quote, ih]
    simp

/-- A line of a plain program name and any arguments reads back. -/
theorem words?_line (program : List Char) (arguments : List (List Char))
    (hne : program ≠ []) (hplain : ∀ c ∈ program, isPlain c = true) :
    words? (line program arguments) = some (program :: arguments) := by
  have hquote : quote program = program := by
    rw [quote, if_pos ⟨hne, by simpa using hplain⟩]
  have hread := wordsFrom?_quote program (tail arguments)
  rw [hquote, wordsFrom?_tail, List.reverse_reverse] at hread
  exact hread

/-- A word is written with its own characters, and with what it takes to quote them. -/
theorem mem_quote {word : List Char} {c : Char} (h : c ∈ quote word) :
    c ∈ word ∨ c = '\'' ∨ c = '\\' := by
  rcases quote_cases word with ⟨_, _, heq⟩ | heq
  · rw [heq] at h
    exact Or.inl h
  · simp only [heq, List.mem_append, List.mem_cons, List.mem_flatMap, List.not_mem_nil,
      or_false] at h
    rcases h with (rfl | ⟨x, hx, hc⟩) | rfl
    · exact Or.inr (Or.inl rfl)
    · by_cases hquote : x = '\''
      · rw [quotedChar, if_pos hquote] at hc
        exact Or.inr (by simpa [or_comm] using hc)
      · rw [quotedChar, if_neg hquote, List.mem_singleton] at hc
        exact Or.inl (hc ▸ hx)
    · exact Or.inr (Or.inl rfl)

theorem mem_tail {words : List (List Char)} {c : Char} (h : c ∈ tail words) :
    (∃ word ∈ words, c ∈ word) ∨ c ∈ [' ', '\'', '\\'] := by
  induction words with
  | nil => cases h
  | cons word rest ih =>
    rw [tail, List.cons_append, List.mem_cons, List.mem_append] at h
    rcases h with rfl | h | h
    · exact Or.inr (by decide)
    · rcases mem_quote h with hword | rfl | rfl
      · exact Or.inl ⟨word, List.mem_cons_self, hword⟩
      · exact Or.inr (by decide)
      · exact Or.inr (by decide)
    · exact (ih h).imp_left fun ⟨other, hother, hc⟩ => ⟨other, List.mem_cons_of_mem word hother, hc⟩

/-- So is a line, with spaces between the words. -/
theorem mem_line {program : List Char} {arguments : List (List Char)} {c : Char}
    (h : c ∈ line program arguments) :
    c ∈ program ∨ (∃ word ∈ arguments, c ∈ word) ∨ c ∈ [' ', '\'', '\\'] :=
  (List.mem_append.1 h).imp_right mem_tail

/-! ## The characters outside the quotes -/

/-- A character that does not stand between single quotes: by itself, or
taken by a backslash. -/
inductive Exposed where
  | bare (c : Char)
  | escaped (c : Char)
deriving DecidableEq, Repr

/-- The part of a line that a character stands in. -/
inductive Region where
  | outside
  /-- Between single quotes. -/
  | quoted
  /-- Behind a backslash. -/
  | escaped
deriving DecidableEq, Repr

/-- The characters of a line outside single quotes, the quotes left out.
A backslash at the end of the line takes nothing and is bare itself. -/
def exposed : Region → List Char → List Exposed
  | .outside, [] => []
  | .quoted, [] => []
  | .escaped, [] => [.bare '\\']
  | .outside, c :: cs =>
    if c = '\'' then exposed .quoted cs
    else if c = '\\' then exposed .escaped cs
    else .bare c :: exposed .outside cs
  | .quoted, c :: cs => if c = '\'' then exposed .outside cs else exposed .quoted cs
  | .escaped, c :: cs => .escaped c :: exposed .outside cs

/-- Whether a shell takes an exposed character of a word for itself. -/
def Exposed.IsLiteral : Exposed → Prop
  | .bare c => c.isAlphanum = true ∨ c ∈ ['-', '_', '.', '/', ':', '=', '@', '%', '+', ',']
  | .escaped c => c = '\''

theorem isLiteral_bare {c : Char} (h : isPlain c = true) : (Exposed.bare c).IsLiteral := by
  simpa [isPlain, Exposed.IsLiteral] using h

/-- A space is no character of a word. -/
theorem ne_space_of_isLiteral {e : Exposed} (h : e.IsLiteral) : e ≠ .bare ' ' := by
  rintro rfl
  revert h
  simp only [Exposed.IsLiteral]
  decide

/-- A plain word is exposed as a whole. -/
theorem exposed_plain (word rest : List Char) (h : ∀ c ∈ word, isPlain c = true) :
    exposed .outside (word ++ rest) = word.map .bare ++ exposed .outside rest := by
  induction word with
  | nil => rfl
  | cons c cs ih =>
    obtain ⟨hq, hb⟩ := ne_of_isPlain (h c (by simp))
    rw [List.cons_append, exposed, if_neg hq, if_neg hb, ih fun x hx => h x (by simp [hx])]
    rfl

/-- Of a word between quotes only its own quotes are exposed, each behind
a backslash. -/
theorem exposed_quoted (word rest : List Char) :
    exposed .quoted (word.flatMap quotedChar ++ '\'' :: rest)
      = List.replicate (word.count '\'') (.escaped '\'') ++ exposed .outside rest := by
  induction word with
  | nil => simp [exposed]
  | cons c cs ih =>
    rw [List.flatMap_cons, List.append_assoc]
    by_cases hc : c = '\''
    · subst hc
      rw [List.count_cons_self, List.replicate_succ, List.cons_append, ← ih]
      simp [quotedChar, exposed]
    · rw [List.count_cons_of_ne hc, ← ih]
      simp [quotedChar, exposed, hc]

/-- A word exposes literal characters only. -/
theorem exposed_quote (word rest : List Char) :
    ∃ es, exposed .outside (quote word ++ rest) = es ++ exposed .outside rest
      ∧ ∀ e ∈ es, e.IsLiteral := by
  rcases quote_cases word with ⟨_, hplain, heq⟩ | heq
  · refine ⟨word.map .bare, ?_, ?_⟩
    · rw [heq, exposed_plain word rest hplain]
    · intro e he
      obtain ⟨c, hc, rfl⟩ := List.mem_map.1 he
      exact isLiteral_bare (hplain c hc)
  · refine ⟨List.replicate (word.count '\'') (.escaped '\''), ?_, ?_⟩
    · rw [heq, ← exposed_quoted]
      simp [exposed]
    · intro e he
      rw [List.eq_of_mem_replicate he]
      rfl

/-- The words behind the first expose literal characters, and one space
for each word. -/
theorem exposed_tail (words : List (List Char)) :
    (∀ e ∈ exposed .outside (tail words), e = .bare ' ' ∨ e.IsLiteral)
      ∧ (exposed .outside (tail words)).count (.bare ' ') = words.length := by
  induction words with
  | nil => simp [tail, exposed]
  | cons word rest ih =>
    obtain ⟨es, heq, hes⟩ := exposed_quote word (tail rest)
    have hexposed : exposed .outside (tail (word :: rest))
        = .bare ' ' :: (es ++ exposed .outside (tail rest)) := by
      rw [tail, List.cons_append, exposed, if_neg (by decide), if_neg (by decide), heq]
    have hcount : es.count (.bare ' ') = 0 :=
      List.count_eq_zero.2 fun hmem => ne_space_of_isLiteral (hes _ hmem) rfl
    rw [hexposed]
    constructor
    · intro e he
      simp only [List.mem_cons, List.mem_append] at he
      rcases he with rfl | he | he
      · exact Or.inl rfl
      · exact Or.inr (hes e he)
      · exact ih.1 e he
    · rw [List.count_cons_self, List.count_append, hcount, ih.2]
      simp

/-- Outside the quotes of a line there are literal characters, and the
spaces between its words. -/
theorem exposed_line (program : List Char) (arguments : List (List Char))
    (hplain : ∀ c ∈ program, isPlain c = true) :
    (∀ e ∈ exposed .outside (line program arguments), e = .bare ' ' ∨ e.IsLiteral)
      ∧ (exposed .outside (line program arguments)).count (.bare ' ') = arguments.length := by
  have htail := exposed_tail arguments
  have hbare : ∀ e ∈ program.map Exposed.bare, e.IsLiteral := by
    intro e he
    obtain ⟨c, hc, rfl⟩ := List.mem_map.1 he
    exact isLiteral_bare (hplain c hc)
  have hcount : (program.map Exposed.bare).count (.bare ' ') = 0 :=
    List.count_eq_zero.2 fun hmem => ne_space_of_isLiteral (hbare _ hmem) rfl
  rw [line, exposed_plain program _ hplain]
  constructor
  · intro e he
    rcases List.mem_append.1 he with he | he
    · exact Or.inr (hbare e he)
    · exact htail.1 e he
  · rw [List.count_append, hcount, htail.2]
    simp

end ShellWord

/-! ## The command -/

/-- The name of the signing program needs no quotes. -/
theorem Deploy.program_plain : ∀ c ∈ Deploy.program.toList, ShellWord.isPlain c = true :=
  List.all_eq_true.1 (by decide)

/-- A shell reads the command of a deploy as the signing program and its
arguments, word by word.  Outside single quotes the line holds nothing but
letters, digits, harmless marks, quotes behind a backslash, and one space
in front of every argument. -/
theorem Deploy.command_reads_back (d : Deploy) :
    ShellWord.words? d.command.toList
        = some (Deploy.program.toList :: d.arguments.map String.toList)
      ∧ (∀ e ∈ ShellWord.exposed .outside d.command.toList, e = .bare ' ' ∨ e.IsLiteral)
      ∧ (ShellWord.exposed .outside d.command.toList).count (.bare ' ') = d.arguments.length := by
  have hcommand : d.command.toList
      = ShellWord.line Deploy.program.toList (d.arguments.map String.toList) := by
    rw [Deploy.command, String.toList_ofList]
  have hexposed :=
    ShellWord.exposed_line Deploy.program.toList (d.arguments.map String.toList)
      Deploy.program_plain
  rw [List.length_map] at hexposed
  rw [hcommand]
  refine ⟨?_, hexposed⟩
  exact ShellWord.words?_line _ _ (by decide) Deploy.program_plain

end TokenMarket
