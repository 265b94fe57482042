import Mathlib.Data.List.TakeWhile
import TokenMarket.Proofs.Blank
import TokenMarket.Proofs.Error
import TokenMarket.Proofs.Selection

/-!
# What is wrong with a configuration

A configuration is checked setting by setting, and the first one that is wrong
is reported.  The check of the identities walks along their names and
remembers what it has seen.  This module says what it finds without the walk:
the names are pairwise different, or one of them is the first that occurred
before.

There are three groups.

* Blank texts.  `Text.trim_eq_empty_iff` says that a text is blank if nothing is
  left of it between the blanks at its ends.
* Repeated names.  `firstRepeated?_eq_some_iff` is the induction over the names.
  It is stated for any names that were seen before, and `exists_repeated_iff`
  forgets which name is repeated first.  So far as that goes, the order of the
  names does not count.
* Configurations.  `validate_eq_error_iff` lists what can be wrong in the order
  in which it counts, and `validate_decided` puts it beside what a valid
  configuration guarantees.
-/

namespace TokenMarket

/-! ## Blank texts -/

theorem Text.trim_eq_empty_iff {s : String} : trim s = "" ↔ isBlankText s = true := by
  rw [trim, String.ofList_eq_empty_iff, isBlankText, List.all_eq_true]
  constructor
  · intro h c hc
    rw [trimBoth, trimEnd, List.reverse_eq_nil_iff, List.dropWhile_eq_nil_iff] at h
    rw [← List.takeWhile_append_dropWhile (p := isBlank) (l := s.toList)] at hc
    rcases List.mem_append.1 hc with hc | hc
    · exact List.mem_takeWhile_imp hc
    · exact h c (List.mem_reverse.2 hc)
  · intro h
    have hblank := @trimBoth_append s.toList [] [] h (by simp) (by simp)
    simpa using hblank

/-! ## Repeated names -/

namespace Config

/-- A name is reported if it occurred before, and none of the names in front of
it did. -/
theorem firstRepeated?_eq_some_iff {seen names : List String} {name : String} :
    firstRepeated? seen names = some name ↔ ∃ front back, names = front ++ name :: back
      ∧ (name ∈ front ∨ name ∈ seen) ∧ front.Nodup ∧ ∀ other ∈ front, other ∉ seen := by
  induction names generalizing seen with
  | nil => simp [firstRepeated?]
  | cons first rest ih =>
    rw [firstRepeated?]
    by_cases hseen : first ∈ seen
    · rw [if_pos (List.contains_iff_mem.2 hseen), Option.some.injEq]
      constructor
      · rintro rfl
        exact ⟨[], rest, rfl, Or.inr hseen, List.nodup_nil, by simp⟩
      · rintro ⟨front, back, hnames, -, -, hfresh⟩
        cases front with
        | nil => exact (List.cons.inj hnames).1
        | cons other front =>
          obtain ⟨rfl, -⟩ := List.cons.inj hnames
          exact absurd hseen (hfresh first List.mem_cons_self)
    · rw [if_neg fun h => hseen (List.contains_iff_mem.1 h), ih]
      constructor
      · rintro ⟨front, back, rfl, hname, hnodup, hfresh⟩
        have hfirst : first ∉ front := fun hmem => hfresh first hmem List.mem_cons_self
        refine ⟨first :: front, back, rfl, ?_, List.nodup_cons.2 ⟨hfirst, hnodup⟩, ?_⟩
        · simp only [List.mem_cons] at hname ⊢
          tauto
        · rw [List.forall_mem_cons]
          exact ⟨hseen, fun other hmem h => hfresh other hmem (List.mem_cons_of_mem first h)⟩
      · rintro ⟨front, back, hnames, hname, hnodup, hfresh⟩
        cases front with
        | nil =>
          obtain ⟨rfl, -⟩ := List.cons.inj hnames
          exact absurd (hname.resolve_left List.not_mem_nil) hseen
        | cons other front =>
          obtain ⟨rfl, rfl⟩ := List.cons.inj hnames
          obtain ⟨hfirst, hnodup⟩ := List.nodup_cons.1 hnodup
          refine ⟨front, back, rfl, ?_, hnodup, ?_⟩
          · simp only [List.mem_cons] at hname ⊢
            tauto
          · intro x hx hmem
            rcases List.mem_cons.1 hmem with rfl | hmem
            · exact hfirst hx
            · exact hfresh x (List.mem_cons_of_mem first hx) hmem

/-- The first identity in the list whose name occurred before.  In front of it all names
are different. -/
def FirstRepeated (r : Registry) (i : Identity) : Prop :=
  ∃ front back, r = front ++ i :: back ∧ (∃ j ∈ front, j.name = i.name)
    ∧ (front.map (·.name)).Nodup

theorem firstRepeated?_names_iff {r : Registry} {name : String} :
    firstRepeated? [] (r.map (·.name)) = some name ↔ ∃ i, FirstRepeated r i ∧ i.name = name := by
  rw [firstRepeated?_eq_some_iff]
  constructor
  · rintro ⟨front, back, hnames, hname, hnodup, -⟩
    obtain ⟨before, after, rfl, rfl, hafter⟩ := List.map_eq_append_iff.1 hnames
    obtain ⟨i, rest, rfl, rfl, -⟩ := List.map_eq_cons_iff.1 hafter
    have hmem := List.mem_map.1 (hname.resolve_right List.not_mem_nil)
    exact ⟨i, ⟨before, rest, rfl, hmem, hnodup⟩, rfl⟩
  · rintro ⟨i, ⟨front, back, rfl, hmem, hnodup⟩, rfl⟩
    exact ⟨front.map (·.name), back.map (·.name), by simp, Or.inl (List.mem_map.2 hmem), hnodup,
      by simp⟩

/-- A name is repeated if the names are not pairwise different. -/
theorem exists_repeated_iff {r : Registry} :
    (∃ i, FirstRepeated r i) ↔ ¬ (r.map (·.name)).Nodup := by
  have hnames : (r.map (·.name)).Nodup ↔ firstRepeated? [] (r.map (·.name)) = none := by
    rw [firstRepeated?_eq_none_iff]
    simp
  rw [hnames, ← ne_eq, Option.ne_none_iff_exists']
  simp only [firstRepeated?_names_iff]
  exact ⟨fun ⟨i, hi⟩ => ⟨i.name, i, hi, rfl⟩, fun ⟨_, i, hi, _⟩ => ⟨i, hi⟩⟩

/-! ## Configurations -/

/-- What can be wrong with a configuration, in the order in which it counts. -/
def flaws (c : Config) : List (ConfigError → Prop) :=
  [fun e => Text.trim c.node.address = "" ∧ e = .invalid "node.address" "cannot be empty",
    fun e => c.node.requestTimeoutMs = 0 ∧ e = .invalid "node.request_timeout_ms" "cannot be 0",
    fun e => Text.trim c.chainName = "" ∧ e = .invalid "chain_name" "cannot be empty",
    fun e => c.identities = [] ∧ e = .invalid "identities" "at least one identity is required",
    fun e => ∃ i, FirstRepeated c.identities i
      ∧ e = .invalid "identities" ("duplicate name " ++ i.name)]

variable {c : Config} {e : ConfigError}

/-- A configuration is refused for the first of its flaws. -/
theorem validate_eq_error_iff : c.validate = .error e ↔ FirstOf c.flaws e := by
  simp only [flaws, Text.trim_eq_empty_iff]
  rw [validate]
  refine Error.check_eq_error_iff (Error.check_eq_error_iff (Error.check_eq_error_iff
    (Error.check_eq_error_iff ?_)))
  cases hfirst : firstRepeated? [] (c.identities.map (·.name)) with
  | some name =>
    obtain ⟨i, hi, rfl⟩ := firstRepeated?_names_iff.1 hfirst
    simp only [FirstOf, and_false, or_false, Except.error.injEq]
    constructor
    · rintro rfl
      exact ⟨i, hi, rfl⟩
    · rintro ⟨j, hj, rfl⟩
      have hsame := hfirst.symm.trans (firstRepeated?_names_iff.2 ⟨j, hj, rfl⟩)
      rw [Option.some.inj hsame]
  | none =>
    simp only [FirstOf, and_false, or_false, reduceCtorEq, false_iff]
    rintro ⟨i, hi, -⟩
    rw [firstRepeated?_names_iff.2 ⟨i, hi, rfl⟩] at hfirst
    cases hfirst

theorem eq_nil_iff_of_perm {r others : Registry} (h : others.Perm r) : others = [] ↔ r = [] := by
  rw [← List.length_eq_zero_iff, h.length_eq, List.length_eq_zero_iff]

/-- Identities in another order have the same flaws, but for the name that is repeated
first. -/
theorem exists_error_of_perm {others : Registry} (h : others.Perm c.identities) {field : String}
    (herror : ∃ reason, c.validate = .error (.invalid field reason)) :
    ∃ reason, { c with identities := others }.validate = .error (.invalid field reason) := by
  have hrepeated : (∃ i, FirstRepeated others i) ↔ ∃ i, FirstRepeated c.identities i := by
    rw [exists_repeated_iff, exists_repeated_iff, (h.map (·.name)).nodup_iff]
  obtain ⟨reason, herror⟩ := herror
  simp only [validate_eq_error_iff, flaws, FirstOf, eq_nil_iff_of_perm h] at herror ⊢
  obtain h | ⟨h1, h | ⟨h2, h | ⟨h3, h | ⟨h4, h | ⟨-, h⟩⟩⟩⟩⟩ := herror
  · exact ⟨reason, Or.inl h⟩
  · exact ⟨reason, Or.inr ⟨h1, Or.inl h⟩⟩
  · exact ⟨reason, Or.inr ⟨h1, Or.inr ⟨h2, Or.inl h⟩⟩⟩
  · exact ⟨reason, Or.inr ⟨h1, Or.inr ⟨h2, Or.inr ⟨h3, Or.inl h⟩⟩⟩⟩
  · obtain ⟨i, hi, heq⟩ := h
    obtain ⟨j, hj⟩ := hrepeated.2 ⟨i, hi⟩
    obtain ⟨rfl, -⟩ := ConfigError.invalid.inj heq
    exact ⟨_, Or.inr ⟨h1, Or.inr ⟨h2, Or.inr ⟨h3, Or.inr ⟨h4, Or.inl ⟨j, hj, rfl⟩⟩⟩⟩⟩⟩
  · exact h.elim

/-- A configuration is valid exactly if its address and the name of its chain are not blank,
its time limit is not zero, and it has identities, of which no two have one name.  Otherwise
the first flaw is reported, and for a repeated name that of the first identity whose name
occurred before.  The order of the identities decides about no more than that name. -/
theorem validate_decided (c : Config) :
    (c.validate = .ok () ↔ Text.trim c.node.address ≠ "" ∧ c.node.requestTimeoutMs ≠ 0
        ∧ Text.trim c.chainName ≠ "" ∧ c.identities ≠ [] ∧ (c.identities.map (·.name)).Nodup)
      ∧ (∀ e, c.validate = .error e ↔ FirstOf c.flaws e)
      ∧ ∀ others : Registry, others.Perm c.identities →
        ({ c with identities := others }.validate = .ok () ↔ c.validate = .ok ())
          ∧ ∀ field, (∃ reason, { c with identities := others }.validate
              = .error (.invalid field reason))
            ↔ ∃ reason, c.validate = .error (.invalid field reason) := by
  refine ⟨?_, fun e => validate_eq_error_iff, ?_⟩
  · simp only [validate_eq_ok_iff, ne_eq, Text.trim_eq_empty_iff, Bool.not_eq_true]
  · intro others h
    constructor
    · simp only [validate_eq_ok_iff, ne_eq, eq_nil_iff_of_perm h, (h.map (·.name)).nodup_iff]
    · intro field
      exact ⟨exists_error_of_perm (c := { c with identities := others }) h.symm,
        exists_error_of_perm h⟩

/-- Of two repeated names that is reported which is repeated first, not which occurs first. -/
example : validate { identities := [⟨"a", demoAccount1, "1.pem"⟩, ⟨"b", demoAccount2, "2.pem"⟩,
      ⟨"b", demoAccount3, "3.pem"⟩, ⟨"a", demoAccount1, "4.pem"⟩] }
    = .error (.invalid "identities" "duplicate name b") := by rfl

end Config

end TokenMarket
