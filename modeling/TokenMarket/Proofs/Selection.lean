import Mathlib.Data.List.Nodup
import TokenMarket.Config.Sources
import TokenMarket.Proofs.Numeral

/-!
# Picking an identity by its name

A person types a place in the list of identities or the name of one.  A
name may look like a place, or may have blanks at its ends that typing
loses.  A valid configuration rules out neither; it only rules out that two
identities have one name.  This module says which identity the name of an
identity picks.

There are three groups.

* Valid configurations.  `validate_eq_ok_iff` lists what they guarantee, the
  last of which is that names differ.
* The two ways to pick.  `atPlace?_eq_some_iff` says which texts are places,
  and `named?_eq_some_iff` that a name leads to its only owner.  The place
  wins (`select_of_numbered`), and where there is no place the name leads to
  its owner (`select_of_unnumbered`).
* Names.  `Config.select_own_name` says both of a valid configuration, and what
  follows for the names of the others.
-/

namespace TokenMarket

/-! ## Valid configurations -/

namespace Config

/-- No name is repeated when the names differ from each other and from
those that were seen before. -/
theorem firstRepeated?_eq_none_iff {seen names : List String} :
    firstRepeated? seen names = none ↔ names.Nodup ∧ ∀ name ∈ names, name ∉ seen := by
  induction names generalizing seen with
  | nil => simp [firstRepeated?]
  | cons name rest ih =>
    rw [firstRepeated?, List.nodup_cons]
    by_cases hseen : name ∈ seen
    · rw [if_pos (List.contains_iff_mem.2 hseen)]
      simp [hseen]
    · rw [if_neg (fun h => hseen (List.contains_iff_mem.1 h)), ih]
      constructor
      · rintro ⟨hnodup, hrest⟩
        have hfresh : name ∉ rest := fun hmem => hrest name hmem List.mem_cons_self
        refine ⟨⟨hfresh, hnodup⟩, ?_⟩
        intro other hother
        rcases List.mem_cons.1 hother with rfl | hother
        · exact hseen
        · exact fun hmem => hrest other hother (List.mem_cons_of_mem name hmem)
      · rintro ⟨⟨hfresh, hnodup⟩, hall⟩
        refine ⟨hnodup, ?_⟩
        intro other hother hmem
        rcases List.mem_cons.1 hmem with rfl | hmem
        · exact hfresh hother
        · exact hall other (List.mem_cons_of_mem name hother) hmem

/-- What a valid configuration guarantees. -/
theorem validate_eq_ok_iff {c : Config} :
    c.validate = .ok () ↔ Text.isBlankText c.node.address = false
      ∧ c.node.requestTimeoutMs ≠ 0 ∧ Text.isBlankText c.chainName = false
      ∧ c.identities ≠ [] ∧ (c.identities.map (·.name)).Nodup := by
  have hnames : (c.identities.map (·.name)).Nodup
      ↔ firstRepeated? [] (c.identities.map (·.name)) = none := by
    rw [firstRepeated?_eq_none_iff]
    simp
  rw [hnames, validate]
  split
  · next h => simp [h]
  next haddress =>
  split
  · next h => simp [h]
  next htimeout =>
  split
  · next h => simp [h]
  next hchain =>
  split
  · next h => simp [h]
  next hidentities =>
  cases firstRepeated? [] (c.identities.map (·.name)) with
  | some name => simp
  | none => simp [haddress, htimeout, hchain, hidentities]

end Config

/-! ## The two ways to pick -/

namespace Registry

variable {r : Registry}

/-- A search in the list ends at the first identity that has the key. -/
theorem find?_key_eq_some_iff {α : Type} [BEq α] [LawfulBEq α] {key : Identity → α} {a : α}
    {i : Identity} : r.find? (key · == a) = some i ↔
      ∃ before after, r = before ++ i :: after ∧ key i = a ∧ ∀ j ∈ before, key j ≠ a := by
  simp only [List.find?_eq_some_iff_append, beq_iff_eq, Bool.not_eq_true', beq_eq_false_iff_ne]
  constructor
  · rintro ⟨hkey, before, after, hr, hbefore⟩
    exact ⟨before, after, hr, hkey, hbefore⟩
  · rintro ⟨before, after, hr, hkey, hbefore⟩
    exact ⟨hkey, before, after, hr, hbefore⟩

/-- The text is the number of the identity's place in the list, counted
from 1. -/
def Numbered (r : Registry) (text : String) (i : Identity) : Prop :=
  ∃ n, Numeral.Signed text.toList n ∧ 1 ≤ n ∧ r[n - 1]? = some i

theorem atPlace?_eq_some_iff {text : String} {i : Identity} :
    r.atPlace? text.toList = some i ↔ r.Numbered text i := by
  simp only [atPlace?, Option.bind_eq_some_iff, Numeral.readSigned?_eq_some_iff, Numbered]
  constructor
  · rintro ⟨n, hn, hi⟩
    by_cases hzero : n = 0
    · simp [hzero] at hi
    · rw [if_neg hzero] at hi
      exact ⟨n, hn, by omega, hi⟩
  · rintro ⟨n, hn, hone, hi⟩
    exact ⟨n, hn, by rw [if_neg (by omega), hi]⟩

/-- Where the names differ, a name has one owner. -/
theorem named?_eq_some_iff (hnames : (r.map (·.name)).Nodup) {name : String} {i : Identity} :
    r.named? name = some i ↔ i ∈ r ∧ i.name = name := by
  constructor
  · intro h
    exact ⟨List.mem_of_find?_eq_some h, by simpa using List.find?_some h⟩
  · rintro ⟨hi, rfl⟩
    obtain ⟨j, hj⟩ : ∃ j, r.named? i.name = some j := by
      rw [← Option.isSome_iff_exists, named?, List.find?_isSome]
      exact ⟨i, hi, beq_self_eq_true i.name⟩
    have hmem : j ∈ r := List.mem_of_find?_eq_some hj
    have hname : j.name = i.name := by simpa using List.find?_some hj
    rw [hj, List.inj_on_of_nodup_map hnames hmem hi hname]

/-- A text without blanks at its ends picks by place, and else by name. -/
theorem select_of_trimmed {text : String} (h : Text.trim text = text) :
    r.select text = match (r.atPlace? text.toList).or (r.named? text) with
      | some i => .ok i
      | none => .error (.unknownIdentity text) := by
  have hchars : Text.trimBoth text.toList = text.toList := by
    rw [← String.toList_inj, Text.trim, String.toList_ofList] at h
    exact h
  have hselect : r.select text = match (r.atPlace? (Text.trimBoth text.toList)).or
        (r.named? (String.ofList (Text.trimBoth text.toList))) with
      | some i => .ok i
      | none => .error (.unknownIdentity (String.ofList (Text.trimBoth text.toList))) := rfl
  rw [hselect, hchars, String.ofList_toList]

/-- A number of a place picks the identity at the place. -/
theorem select_of_numbered {text : String} (htrim : Text.trim text = text) {i : Identity}
    (h : r.Numbered text i) : r.select text = .ok i := by
  rw [select_of_trimmed htrim, atPlace?_eq_some_iff.2 h, Option.some_or]

/-- A name that is the number of no place picks its owner. -/
theorem select_of_unnumbered (hnames : (r.map (·.name)).Nodup) {i : Identity} (hi : i ∈ r)
    (htrim : Text.trim i.name = i.name) (h : ∀ j, ¬ r.Numbered i.name j) :
    r.select i.name = .ok i := by
  have hplace : r.atPlace? i.name.toList = none :=
    Option.eq_none_iff_forall_not_mem.2 fun j hj => h j (atPlace?_eq_some_iff.1 hj)
  have hown : r.named? i.name = some i := (named?_eq_some_iff hnames).2 ⟨hi, rfl⟩
  rw [select_of_trimmed htrim, hplace, hown, Option.none_or]

end Registry

/-! ## Names -/

namespace Config

/-- What the name of an identity picks, if it has no blanks at its ends.
The identity at the place that the name is the number of comes first, and
without such a place the name picks its own identity.  So the name of
another identity picks this one only as the number of its place. -/
theorem select_own_name {c : Config} (hvalid : c.validate = .ok ()) {i : Identity}
    (hi : i ∈ c.identities) (htrim : Text.trim i.name = i.name) :
    (∀ j, c.identities.Numbered i.name j → c.identities.select i.name = .ok j)
      ∧ ((∀ j, ¬ c.identities.Numbered i.name j) → c.identities.select i.name = .ok i)
      ∧ ∀ k ∈ c.identities, Text.trim k.name = k.name → c.identities.select k.name = .ok i →
        k = i ∨ c.identities.Numbered k.name i := by
  have hnames := (validate_eq_ok_iff.1 hvalid).2.2.2.2
  refine ⟨fun j => Registry.select_of_numbered htrim,
    Registry.select_of_unnumbered hnames hi htrim, ?_⟩
  intro k hmem hk hselect
  by_cases hnumber : ∃ j, c.identities.Numbered k.name j
  · obtain ⟨j, hj⟩ := hnumber
    have hplace := Registry.select_of_numbered hk hj
    obtain rfl : j = i := Except.ok.inj (hplace.symm.trans hselect)
    exact Or.inr hj
  · have hself := Registry.select_of_unnumbered hnames hmem hk fun j hj => hnumber ⟨j, hj⟩
    exact Or.inl (Except.ok.inj (hself.symm.trans hselect))

/-- An identity whose name is a number beyond the list. -/
def thirdOfTwo : Identity := ⟨"3", demoAccount1, "keys/three.pem"⟩

/-- An identity whose name is the number of its own place. -/
def secondOfTwo : Identity := ⟨"+02", demoAccount2, "keys/two.pem"⟩

/-- Names that are numbers, neither of which is the place of another. -/
def numerals : Config := { identities := [thirdOfTwo, secondOfTwo] }

theorem select_own_name_numerals :
    numerals.validate = .ok () ∧ thirdOfTwo ∈ numerals.identities
      ∧ Text.trim thirdOfTwo.name = thirdOfTwo.name
      ∧ numerals.identities.select thirdOfTwo.name = .ok thirdOfTwo := by
  have hvalid : numerals.validate = .ok () := by rfl
  have hmem : thirdOfTwo ∈ numerals.identities := List.mem_cons_self
  have htrim : Text.trim thirdOfTwo.name = thirdOfTwo.name := by rfl
  have hplace : numerals.identities.atPlace? thirdOfTwo.name.toList = none := by rfl
  refine ⟨hvalid, hmem, htrim, (select_own_name hvalid hmem htrim).2.1 ?_⟩
  intro j hj
  rw [← Registry.atPlace?_eq_some_iff, hplace] at hj
  exact absurd hj (by simp)

/-- An identity whose name is the number of another's place. -/
def numberNamed : Identity := ⟨"2", demoAccount1, "keys/number.pem"⟩

/-- An identity whose name begins with a blank. -/
def blankNamed : Identity := ⟨" bob", demoAccount2, "keys/bob.pem"⟩

/-- Valid, though no name leads to its own identity. -/
def lookalikes : Config := { identities := [numberNamed, blankNamed] }

/-- A name may pick another identity or none, in a valid configuration. -/
theorem not_select_own_name_lookalikes :
    lookalikes.validate = .ok ()
      ∧ lookalikes.identities.select numberNamed.name = .ok blankNamed
      ∧ lookalikes.identities.select blankNamed.name = .error (.unknownIdentity "bob")
      ∧ ¬ ∀ i ∈ lookalikes.identities, lookalikes.identities.select i.name = .ok i := by
  have hnumber : lookalikes.identities.select numberNamed.name = .ok blankNamed := by rfl
  refine ⟨by rfl, hnumber, by rfl, ?_⟩
  intro hall
  have hown := hall numberNamed List.mem_cons_self
  rw [hnumber] at hown
  exact absurd (Except.ok.inj hown) (by decide)

end Config

end TokenMarket
