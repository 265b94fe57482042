import TokenMarket.Proofs.Blank
import TokenMarket.Proofs.Selection

/-!
# What a typed text picks

A text that is typed to pick an identity is trimmed, and then it is the number
of a place in the list, or a name.  `Selection` is about the names of a valid
configuration.  This module is about every text and every list: names may be
repeated, be empty, or look like numbers.

There are three groups.

* Names.  `FirstNamed` is the first owner of a name.
* The decision.  `select_eq_ok_iff` says which identity is picked, and
  `select_eq_error_iff` when none is.
* Places.  `numbered_of_lt` says that each place has numbers, with or without
  zeros in front, and `not_numbered_of_signed` that other numbers have no place.
  `numbered_append` lets the list grow.  `select_decided` puts all of it together.
-/

namespace TokenMarket

/-- Zeros in front of a run of digits count for nothing. -/
theorem Numeral.valueOf_zeros (zeros : Nat) (cs : List Char) :
    valueOf (List.replicate zeros '0' ++ cs) = valueOf cs := by
  induction zeros with
  | zero => rfl
  | succ zeros ih => rw [← ih, List.replicate_succ, List.cons_append]; rfl

namespace Registry

variable {r : Registry} {text name : String} {i j : Identity}

/-! ## Names -/

/-- The identity has the name, and none in front of it has. -/
def FirstNamed (r : Registry) (name : String) (i : Identity) : Prop :=
  ∃ before after, r = before ++ i :: after ∧ i.name = name ∧ ∀ j ∈ before, j.name ≠ name

theorem firstNamed_iff : r.named? name = some i ↔ r.FirstNamed name i :=
  find?_key_eq_some_iff

theorem named?_eq_none_iff : r.named? name = none ↔ ∀ i ∈ r, i.name ≠ name := by
  simp only [named?, List.find?_eq_none, beq_iff_eq, ne_eq]

/-! ## The decision -/

theorem atPlace?_eq_none_iff : r.atPlace? text.toList = none ↔ ∀ j, ¬ r.Numbered text j := by
  simp only [← atPlace?_eq_some_iff, Option.eq_none_iff_forall_ne_some]

/-- A place has one identity, and a text is the number of one place. -/
theorem Numbered.unique (hi : r.Numbered text i) (hj : r.Numbered text j) : i = j := by
  rw [← atPlace?_eq_some_iff] at hi hj
  exact Option.some.inj (hi.symm.trans hj)

/-- The place is looked for first, and then the name. -/
theorem select_eq (r : Registry) (text : String) :
    r.select text = match r.atPlace? (Text.trim text).toList with
      | some i => .ok i
      | none => match r.named? (Text.trim text) with
        | some i => .ok i
        | none => .error (.unknownIdentity (Text.trim text)) := by
  simp only [select, Text.trim, String.toList_ofList]
  cases r.atPlace? (Text.trimBoth text.toList) with
  | some i => rfl
  | none => rfl

theorem select_eq_ok_iff :
    r.select text = .ok i ↔ r.Numbered (Text.trim text) i
      ∨ (∀ j, ¬ r.Numbered (Text.trim text) j) ∧ r.FirstNamed (Text.trim text) i := by
  rw [select_eq]
  cases hplace : r.atPlace? (Text.trim text).toList with
  | some k =>
    have hk : r.Numbered (Text.trim text) k := atPlace?_eq_some_iff.1 hplace
    rw [Except.ok.injEq]
    constructor
    · intro hi
      subst hi
      exact Or.inl hk
    · intro h
      rcases h with hi | ⟨hnone, -⟩
      · exact hk.unique hi
      · exact absurd hk (hnone k)
  | none =>
    have hnone := atPlace?_eq_none_iff.1 hplace
    rw [← firstNamed_iff]
    cases r.named? (Text.trim text) with
    | some k => simp [hnone]
    | none => simp [hnone]

/-- Nobody is picked who is not in the list. -/
theorem mem_of_select (h : r.select text = .ok i) : i ∈ r := by
  rcases select_eq_ok_iff.1 h with ⟨n, _, _, hplace⟩ | ⟨_, before, after, rfl, _⟩
  · exact List.mem_of_getElem? hplace
  · exact List.mem_append_right before List.mem_cons_self

theorem select_eq_error_iff {e : Error} :
    r.select text = .error e ↔ (∀ j, ¬ r.Numbered (Text.trim text) j)
      ∧ (∀ i ∈ r, i.name ≠ Text.trim text) ∧ e = .unknownIdentity (Text.trim text) := by
  rw [select_eq, ← atPlace?_eq_none_iff, ← named?_eq_none_iff]
  cases r.atPlace? (Text.trim text).toList with
  | some k => simp
  | none =>
    cases r.named? (Text.trim text) with
    | some k => simp
    | none => simp [eq_comm]

/-! ## Places -/

/-- A number is that of a place from 1 up to the length of the list. -/
theorem numbered_iff {n : Nat} (h : Numeral.Signed text.toList n) :
    r.Numbered text i ↔ 1 ≤ n ∧ r[n - 1]? = some i := by
  constructor
  · intro ⟨m, hm, hplace⟩
    rwa [hm.unique h] at hplace
  · exact fun hplace => ⟨n, h, hplace⟩

theorem not_numbered_of_signed {n : Nat} (h : Numeral.Signed text.toList n)
    (hn : n = 0 ∨ r.length < n) : ¬ r.Numbered text i := by
  rw [numbered_iff h]
  intro ⟨hone, hplace⟩
  obtain ⟨hlt, -⟩ := List.getElem?_eq_some_iff.1 hplace
  omega

/-- Identities behind the list change no place in it. -/
theorem numbered_append (h : r.Numbered text i) (more : Registry) :
    Numbered (r ++ more) text i := by
  obtain ⟨n, hn, hone, hplace⟩ := h
  obtain ⟨hlt, -⟩ := List.getElem?_eq_some_iff.1 hplace
  exact ⟨n, hn, hone, by rw [List.getElem?_append_left hlt, hplace]⟩

/-- The number of a place, with zeros in front. -/
def placeText (zeros place : Nat) : String :=
  String.ofList (List.replicate zeros '0' ++ Numeral.digits (place + 1))

theorem isDigit_placeText {zeros place : Nat} :
    ∀ c ∈ (placeText zeros place).toList, c.isDigit = true := by
  intro c hc
  rw [placeText, String.toList_ofList] at hc
  rcases List.mem_append.1 hc with hc | hc
  · rw [(List.mem_replicate.1 hc).2]
    decide
  · exact Numeral.isDigit_of_mem_digits _ c hc

theorem trim_placeText (zeros place : Nat) :
    Text.trim (placeText zeros place) = placeText zeros place := by
  have hblank : ∀ c ∈ (placeText zeros place).toList, Text.isBlank c = false := by
    intro c hc
    have hcode := Numeral.toNat_of_isDigit (isDigit_placeText c hc)
    exact Text.isBlank_of_graphic (by omega) (by omega)
  rw [Text.trim, Text.trimBoth_of_not_isBlank hblank, String.ofList_toList]

theorem numbered_of_lt {place : Nat} (h : place < r.length) (zeros : Nat) :
    r.Numbered (placeText zeros place) r[place] := by
  have hvalue : place + 1 = Numeral.valueOf (placeText zeros place).toList := by
    rw [placeText, String.toList_ofList, Numeral.valueOf_zeros, Numeral.valueOf_digits]
  have hne : (placeText zeros place).toList ≠ [] := by
    rw [placeText, String.toList_ofList]
    exact List.append_ne_nil_of_right_ne_nil _ (Numeral.digits_ne_nil _)
  refine ⟨place + 1, ⟨_, Or.inl rfl, hne, isDigit_placeText, hvalue⟩, by omega, ?_⟩
  exact List.getElem?_eq_getElem h

/-- What a text picks, whatever the identities.

A number of a place picks the identity there, and another text the first identity
of that name; if there is neither, the complaint has the text without the blanks
at its ends.  So every place can be picked by its number, zero and the numbers
beyond the list are names like other texts, and a list that grows at its end
leaves the numbers of its places alone. -/
theorem select_decided (r : Registry) (text : String) :
    (∀ i, r.select text = .ok i ↔ r.Numbered (Text.trim text) i
        ∨ (∀ j, ¬ r.Numbered (Text.trim text) j) ∧ r.FirstNamed (Text.trim text) i)
      ∧ (∀ e, r.select text = .error e ↔ (∀ j, ¬ r.Numbered (Text.trim text) j)
        ∧ (∀ i ∈ r, i.name ≠ Text.trim text) ∧ e = .unknownIdentity (Text.trim text))
      ∧ (∀ zeros place (h : place < r.length), r.select (placeText zeros place) = .ok r[place])
      ∧ (∀ n, Numeral.Signed (Text.trim text).toList n → n = 0 ∨ r.length < n →
        ∀ i, r.select text = .ok i ↔ r.FirstNamed (Text.trim text) i)
      ∧ ∀ i, r.Numbered (Text.trim text) i → ∀ more : Registry,
        Registry.select (r ++ more) text = r.select text := by
  refine ⟨fun i => select_eq_ok_iff, fun e => select_eq_error_iff, ?_, ?_, ?_⟩
  · intro zeros place h
    exact select_of_numbered (trim_placeText zeros place) (numbered_of_lt h zeros)
  · intro n hn hbeyond i
    have hnone : ∀ j, ¬ r.Numbered (Text.trim text) j := fun j => not_numbered_of_signed hn hbeyond
    rw [select_eq_ok_iff]
    exact ⟨fun h => (h.resolve_left (hnone i)).2, fun h => Or.inr ⟨hnone, h⟩⟩
  · intro i hi more
    rw [select_eq_ok_iff.2 (Or.inl hi), select_eq_ok_iff.2 (Or.inl (numbered_append hi more))]

/-- Of two identities of one name the first is picked, also where the name is a
number beyond the list. -/
example : Registry.select [⟨"7", Config.demoAccount1, "a.pem"⟩, ⟨"7", Config.demoAccount2, "b.pem"⟩]
    " 7 " = .ok ⟨"7", Config.demoAccount1, "a.pem"⟩ := by rfl

end Registry

end TokenMarket
