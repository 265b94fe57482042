/-!
# Colours in a text for a terminal

A terminal does not show everything that it is sent.  An escape character
and a bracket begin a sequence of control, and what switches colours on and
off goes on with numbers, which semicolons separate, and ends with the
letter `m`.

`strip` is the text without these sequences.  It deletes only what is such
a sequence from the escape character to the letter.  A bracket or a number
elsewhere stays, and so does a sequence that is not ended.
-/

namespace TokenMarket.Ansi

/-- The character that begins a sequence. -/
def escape : Char := '\x1b'

/-- What may stand between the bracket and the letter at the end. -/
def isParameter (c : Char) : Bool := c.isDigit || c == ';'

/-- A sequence that switches colours. -/
def IsSequence (cs : List Char) : Prop :=
  ∃ parameters, (∀ c ∈ parameters, isParameter c = true)
    ∧ cs = escape :: '[' :: (parameters ++ ['m'])

/-- What follows on a sequence at the front of a text, if there is one. -/
def behind? : List Char → Option (List Char)
  | c :: '[' :: cs =>
    if c = escape then
      match cs.dropWhile isParameter with
      | 'm' :: rest => some rest
      | _ => none
    else none
  | _ => none

/-- A sequence is found with what follows it. -/
theorem behind?_append {s : List Char} (h : IsSequence s) (rest : List Char) :
    behind? (s ++ rest) = some rest := by
  obtain ⟨parameters, hparameters, rfl⟩ := h
  have hdrop : (parameters ++ ['m'] ++ rest).dropWhile isParameter = 'm' :: rest := by
    rw [List.append_assoc, List.dropWhile_append_of_pos hparameters]
    rfl
  simp only [List.cons_append, behind?, if_pos, hdrop]

/-- Nothing else is found. -/
theorem exists_sequence_of_behind? {cs rest : List Char} (h : behind? cs = some rest) :
    ∃ s, IsSequence s ∧ cs = s ++ rest := by
  unfold behind? at h
  split at h
  next c cs =>
    split at h
    next hc =>
      split at h
      next hm =>
        obtain rfl := Option.some.inj h
        have hcut := List.takeWhile_append_dropWhile (p := isParameter) (l := cs)
        rw [hm] at hcut
        refine ⟨_, ⟨cs.takeWhile isParameter, List.all_eq_true.1 List.all_takeWhile, rfl⟩, ?_⟩
        rw [List.cons_append, List.cons_append, List.append_assoc, List.singleton_append, hcut, hc]
      next => cases h
    next => cases h
  next => cases h

theorem behind?_length {cs rest : List Char} (h : behind? cs = some rest) :
    rest.length < cs.length := by
  obtain ⟨s, ⟨parameters, -, rfl⟩, rfl⟩ := exists_sequence_of_behind? h
  simp only [List.length_append, List.length_cons]
  omega

/-- The text without its sequences. -/
def strip (cs : List Char) : List Char :=
  match cs with
  | [] => []
  | c :: rest =>
    match _ : behind? (c :: rest) with
    | some after => strip after
    | none => c :: strip rest
termination_by cs.length
decreasing_by
  · exact behind?_length ‹_›
  · exact Nat.lt_succ_self rest.length

end TokenMarket.Ansi
