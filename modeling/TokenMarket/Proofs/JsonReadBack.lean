import Mathlib.Data.List.Induction
import Mathlib.Data.String.Basic
import TokenMarket.Proofs.JsonText
import TokenMarket.Proofs.Numeral

/-!
# JSON values read back

The text of a value is read as the value.  That is not so for every value:
the text cannot say how large an integer was allowed to be, in which order
the members of an object stood, or that nesting has no bound.  `Readable`
lists what is needed, and what the program writes as a record has it.

The way back goes over the tokens and over the tree of the text, as the
reader does, and each part of the way is an induction over the value.  This
module goes the way from the tokens on; the text of a value, however it is
laid out, has these tokens.

* Integers.  A number is read up to the first character that cannot go on
  with it, so every lemma about text says what follows, `NumberText.Ends`.
* Members in order.  `ofMembers_of_ordered` says that sorting changes nothing
  where the names are in order, and `Ordered.insertMember` that they always
  are after it.
* Readable values.  `readable_ofMembers` is the rule for records.
* From the tokens to the tree (`build_tokens`) and from the tree to the value
  (`value?_ofJson`).
-/

namespace TokenMarket.Json

/-! ## Integers -/

namespace NumberText

/-- An integer as it is written. -/
def ofInt (n : Int) : NumberText :=
  ⟨decide (n < 0), Numeral.digits n.natAbs, [], none⟩

/-- A text at the front of which no number goes on. -/
def Ends (rest : List Char) : Prop :=
  ∀ c ∈ rest.head?, c.isDigit = false ∧ c ≠ '.' ∧ c ≠ 'e' ∧ c ≠ 'E'

theorem ends_nil : Ends [] := fun _ h => by cases h

theorem ends_cons {c : Char} (h : c.isDigit = false ∧ c ≠ '.' ∧ c ≠ 'e' ∧ c ≠ 'E')
    (rest : List Char) : Ends (c :: rest) := by
  intro d hd
  obtain rfl : c = d := Option.some.inj hd
  exact h

theorem splitDigits_append {run rest : List Char} (hrun : ∀ c ∈ run, c.isDigit = true)
    (hrest : Ends rest) : splitDigits (run ++ rest) = (run, rest) := by
  have hfront : rest.takeWhile Char.isDigit = [] := by
    cases rest with
    | nil => rfl
    | cons c rest => simp [(hrest c rfl).1]
  have hback : rest.dropWhile Char.isDigit = rest := by
    cases rest with
    | nil => rfl
    | cons c rest => simp [(hrest c rfl).1]
  rw [splitDigits, List.takeWhile_append_of_pos hrun, List.dropWhile_append_of_pos hrun, hfront,
    hback, List.append_nil]

theorem whole?_digits (n : Nat) {rest : List Char} (hrest : Ends rest) :
    whole? (Numeral.digits n ++ rest) = some (Numeral.digits n, rest) := by
  rw [whole?, splitDigits_append (Numeral.isDigit_of_mem_digits n) hrest]
  split
  · next heq => exact absurd (Prod.mk.inj heq).1 (Numeral.digits_ne_nil n)
  · next heq => cases Numeral.digits_zero_cons (Prod.mk.inj heq).1
  · next heq =>
    obtain ⟨rfl, rfl⟩ := Prod.mk.inj heq
    rfl

theorem fraction?_ends {rest : List Char} (hrest : Ends rest) :
    fraction? rest = some ([], rest) := by
  unfold fraction?
  split
  · exact absurd rfl (hrest _ rfl).2.1
  · rfl

theorem exponent?_ends {rest : List Char} (hrest : Ends rest) :
    exponent? rest = some (none, rest) := by
  unfold exponent?
  split
  · exact absurd rfl (hrest _ rfl).2.2.1
  · exact absurd rfl (hrest _ rfl).2.2.2
  · rfl

theorem minus_digits (n : Nat) (rest : List Char) :
    minus (Numeral.digits n ++ rest) = (false, Numeral.digits n ++ rest) := by
  unfold minus
  split
  · next heq =>
    exfalso
    cases hdigits : Numeral.digits n with
    | nil => exact Numeral.digits_ne_nil n hdigits
    | cons c cs =>
      rw [hdigits] at heq
      obtain rfl := (List.cons.inj heq).1
      exact Numeral.not_mem_digits (by decide) n (hdigits ▸ List.mem_cons_self)
  · rfl

/-- The text of an integer is read as the number that it is. -/
theorem read?_intText (n : Int) {rest : List Char} (hrest : Ends rest) :
    read? (intText n ++ rest) = some (ofInt n, rest) := by
  cases n with
  | ofNat n =>
    rw [intText, read?, minus_digits]
    simp [whole?_digits n hrest, fraction?_ends hrest, exponent?_ends hrest, ofInt]
  | negSucc n =>
    rw [intText, read?, List.cons_append, minus]
    simp [whole?_digits (n + 1) hrest, fraction?_ends hrest, exponent?_ends hrest, ofInt]

/-- An integer that fits 64 bits, with or without a sign, keeps its value. -/
theorem value?_ofInt {n : Int} (hlow : -9223372036854775808 ≤ n)
    (hhigh : n < 18446744073709551616) : (ofInt n).value? = some (.int n) := by
  have hwhole : (ofInt n).value? = if decide (n < 0) = true then
      if 0 < n.natAbs ∧ Numeral.isSigned64 (-(n.natAbs : Int)) = true then
        some (.int (-(n.natAbs : Int)))
      else (ofInt n).binary?.map .real
    else if n.natAbs < UInt64.size then some (.int n.natAbs)
    else (ofInt n).binary?.map .real := by
    rw [value?, ofInt, Numeral.valueOf_digits]
    rfl
  rw [hwhole]
  by_cases hneg : n < 0
  · have habs : -(n.natAbs : Int) = n := by omega
    have hsigned : Numeral.isSigned64 n = true := by
      simp only [Numeral.isSigned64, Bool.and_eq_true, decide_eq_true_eq]
      omega
    rw [if_pos (decide_eq_true hneg), habs, if_pos ⟨by omega, hsigned⟩]
  · have habs : (n.natAbs : Int) = n := by omega
    have hsize : n.natAbs < UInt64.size := by
      simp only [UInt64.size]
      omega
    rw [if_neg (by simpa using hneg), if_pos hsize, habs]

end NumberText

/-! ## Members in order -/

/-- The members are in the order of their names, each of which is there once. -/
def Ordered (members : List (String × Json)) : Prop :=
  members.Pairwise fun p q => p.1 < q.1

/-- Behind smaller names a member is put last. -/
theorem insertMember_last {name : String} {members : List (String × Json)}
    (h : ∀ p ∈ members, p.1 < name) (v : Json) :
    insertMember name v members = members ++ [(name, v)] := by
  induction members with
  | nil => rfl
  | cons p rest ih =>
    have hp : p.1 < name := h p List.mem_cons_self
    rw [insertMember, if_neg hp.ne', if_neg hp.not_gt,
      ih fun q hq => h q (List.mem_cons_of_mem p hq), List.cons_append]

/-- An object is built member by member. -/
theorem ofMembers_eq (members : List (String × Json)) :
    ofMembers members = .object (members.foldl (fun ms p => insertMember p.1 p.2 ms) []) :=
  rfl

/-- Members in the order of their names stay as they are. -/
theorem ofMembers_of_ordered {members : List (String × Json)} (h : Ordered members) :
    ofMembers members = .object members := by
  rw [ofMembers_eq]
  congr 1
  induction members using List.reverseRecOn with
  | nil => rfl
  | append_singleton front p ih =>
    rw [Ordered, List.pairwise_append] at h
    have hlast : ∀ q ∈ front, q.1 < p.1 := fun q hq => h.2.2 q hq p List.mem_cons_self
    rw [List.foldl_append, ih h.1]
    exact insertMember_last hlast p.2

/-- A member is put among the others. -/
theorem mem_insertMember {name : String} {v : Json} {members : List (String × Json)}
    {p : String × Json} (h : p ∈ insertMember name v members) : p = (name, v) ∨ p ∈ members := by
  induction members with
  | nil => exact Or.inl (List.mem_singleton.1 h)
  | cons q rest ih =>
    rw [insertMember] at h
    split at h
    · rcases List.mem_cons.1 h with h | h
      · exact Or.inl h
      · exact Or.inr (List.mem_cons_of_mem q h)
    · split at h
      · rcases List.mem_cons.1 h with h | h
        · exact Or.inl h
        · exact Or.inr h
      · rcases List.mem_cons.1 h with h | h
        · exact Or.inr (h ▸ List.mem_cons_self)
        · exact (ih h).imp_right (List.mem_cons_of_mem q)

/-- The names stay in order. -/
theorem Ordered.insertMember {name : String} {v : Json} {members : List (String × Json)}
    (h : Ordered members) : Ordered (insertMember name v members) := by
  induction members with
  | nil => exact List.pairwise_singleton _ _
  | cons q rest ih =>
    obtain ⟨hq, hrest⟩ := List.pairwise_cons.1 h
    rw [Json.insertMember]
    split
    · next heq => exact List.pairwise_cons.2 ⟨fun p hp => heq ▸ hq p hp, hrest⟩
    · next hne =>
      split
      · next hlt =>
        refine List.pairwise_cons.2 ⟨?_, h⟩
        intro p hp
        rcases List.mem_cons.1 hp with rfl | hp
        · exact hlt
        · exact lt_trans hlt (hq p hp)
      · next hge =>
        refine List.pairwise_cons.2 ⟨?_, ih hrest⟩
        intro p hp
        rcases mem_insertMember hp with rfl | hp
        · exact lt_of_le_of_ne (not_lt.1 hge) (Ne.symm hne)
        · exact hq p hp

/-- The first member either has the name, or does not count. -/
theorem lookup_cons_member (name n : String) (v : Json) (rest : List (String × Json)) :
    List.lookup name ((n, v) :: rest) = if name = n then some v else List.lookup name rest := by
  rw [List.lookup_cons]
  by_cases h : name = n
  · simp [h]
  · rw [if_neg h, beq_eq_false_iff_ne.2 h]

/-- The member that was put in is found, and the others are found as before. -/
theorem lookup_insertMember (name other : String) (v : Json) (members : List (String × Json)) :
    (insertMember other v members).lookup name
      = if name = other then some v else members.lookup name := by
  induction members with
  | nil => exact lookup_cons_member name other v []
  | cons p rest ih =>
    obtain ⟨n, w⟩ := p
    rw [insertMember]
    split
    · next heq =>
      rw [lookup_cons_member, lookup_cons_member, heq]
      split <;> rfl
    · next hne =>
      split
      · exact lookup_cons_member name other v _
      · rw [lookup_cons_member, lookup_cons_member, ih]
        by_cases h : name = n
        · rw [if_pos h, if_pos h, if_neg fun heq => hne (heq.symm.trans h)]
        · rw [if_neg h, if_neg h]

/-- An object has the last member of a name. -/
theorem get?_ofMembers (members : List (String × Json)) (name : String) :
    (ofMembers members).get? name = members.reverse.lookup name := by
  rw [ofMembers_eq, get?]
  induction members using List.reverseRecOn with
  | nil => rfl
  | append_singleton front p ih =>
    rw [List.foldl_append, List.foldl_cons, List.foldl_nil, lookup_insertMember, ih,
      List.reverse_append]
    exact (lookup_cons_member name p.1 p.2 front.reverse).symm

/-- Where the names differ, each member is found under its name. -/
theorem get?_ofMembers_of_mem {members : List (String × Json)}
    (hnodup : (members.map Prod.fst).Nodup) {name : String} {v : Json} (h : (name, v) ∈ members) :
    (ofMembers members).get? name = some v := by
  rw [get?_ofMembers, List.lookup_eq_some_iff]
  obtain ⟨front, back, rfl⟩ := List.append_of_mem h
  refine ⟨back.reverse, front.reverse, by simp, ?_⟩
  intro p hp
  rw [List.map_append, List.map_cons, List.nodup_append, List.nodup_cons] at hnodup
  have hne : name ≠ p.1 := by
    intro heq
    exact hnodup.2.1.1 (List.mem_map.2 ⟨p, List.mem_reverse.1 hp, heq.symm⟩)
  simpa using hne

/-- Objects of the same names, which differ from each other, are equal only if their members
are. -/
theorem ofMembers_inj {members others : List (String × Json)}
    (h : ofMembers members = ofMembers others)
    (hnames : members.map Prod.fst = others.map Prod.fst)
    (hnodup : (members.map Prod.fst).Nodup) : members = others := by
  have hfound : ∀ ms : List (String × Json), (ms.map Prod.fst).Nodup →
      (ms.map Prod.fst).map (fun name => (name, ((ofMembers ms).get? name).getD .null)) = ms := by
    intro ms hms
    rw [List.map_map]
    refine (List.map_congr_left fun p hp => ?_).trans (List.map_id ms)
    simp [get?_ofMembers_of_mem hms hp]
  rw [← hfound members hnodup, ← hfound others (hnames ▸ hnodup), h, hnames]

/-! ## Readable values -/

mutual

/-- A value without binary numbers.  Its text has the structure of the value, whatever the
order of its members and however long its integers. -/
def Whole : Json → Prop
  | null | bool _ | int _ | string _ => True
  | real _ => False
  | array items => WholeItems items
  | object members => WholeMembers members

/-- `Whole` for the items of an array. -/
def WholeItems : List Json → Prop
  | [] => True
  | v :: rest => Whole v ∧ WholeItems rest

/-- `Whole` for the members of an object. -/
def WholeMembers : List (String × Json) → Prop
  | [] => True
  | (_, v) :: rest => Whole v ∧ WholeMembers rest

end

mutual

/-- A value that keeps its text: its integers fit 64 bits (from -2^63 up, and
below 2^64), it has no binary numbers, the members of its objects are in the
order of their names, and no more than so many levels of arrays and objects
are nested. -/
def Readable (levels : Nat) : Json → Prop
  | null | bool _ | string _ => True
  | int n => -9223372036854775808 ≤ n ∧ n < 18446744073709551616
  | real _ => False
  | array items => levels ≠ 0 ∧ ReadableItems (levels - 1) items
  | object members => levels ≠ 0 ∧ Ordered members ∧ ReadableMembers (levels - 1) members

/-- `Readable` for the items of an array. -/
def ReadableItems (levels : Nat) : List Json → Prop
  | [] => True
  | v :: rest => Readable levels v ∧ ReadableItems levels rest

/-- `Readable` for the members of an object. -/
def ReadableMembers (levels : Nat) : List (String × Json) → Prop
  | [] => True
  | (_, v) :: rest => Readable levels v ∧ ReadableMembers levels rest

end

mutual

theorem Readable.whole {levels : Nat} : {v : Json} → Readable levels v → Whole v
  | .null, _ | .bool _, _ | .int _, _ | .string _, _ => trivial
  | .array _, h => ReadableItems.whole h.2
  | .object _, h => ReadableMembers.whole h.2.2

theorem ReadableItems.whole {levels : Nat} :
    {items : List Json} → ReadableItems levels items → WholeItems items
  | [], _ => trivial
  | _ :: _, h => ⟨Readable.whole h.1, ReadableItems.whole h.2⟩

theorem ReadableMembers.whole {levels : Nat} :
    {members : List (String × Json)} → ReadableMembers levels members → WholeMembers members
  | [], _ => trivial
  | (_, _) :: _, h => ⟨Readable.whole h.1, ReadableMembers.whole h.2⟩

end

theorem readableMembers_iff {levels : Nat} {members : List (String × Json)} :
    ReadableMembers levels members ↔ ∀ p ∈ members, Readable levels p.2 := by
  induction members with
  | nil => simp [ReadableMembers]
  | cons p rest ih => simp [ReadableMembers, ih]

theorem readableItems_iff {levels : Nat} {items : List Json} :
    ReadableItems levels items ↔ ∀ v ∈ items, Readable levels v := by
  induction items with
  | nil => simp [ReadableItems]
  | cons v rest ih => simp [ReadableItems, ih]

theorem readable_ofWord (levels : Nat) (n : UInt64) : (ofWord n).Readable levels := by
  have hlt := n.toNat_lt
  simp only [ofWord, Readable]
  omega

theorem readable_ofByte (levels : Nat) (n : UInt8) : (ofByte n).Readable levels := by
  have hlt := n.toNat_lt
  simp only [ofByte, Readable]
  omega

/-- Members that are put in one after the other stand in order, and no values
come in but theirs. -/
theorem Ordered.foldl_insertMember {members before : List (String × Json)} {P : Json → Prop}
    (horder : Ordered before) (hbefore : ∀ p ∈ before, P p.2) (h : ∀ p ∈ members, P p.2) :
    Ordered (members.foldl (fun ms p => Json.insertMember p.1 p.2 ms) before)
      ∧ ∀ p ∈ members.foldl (fun ms p => Json.insertMember p.1 p.2 ms) before, P p.2 := by
  induction members generalizing before with
  | nil => exact ⟨horder, hbefore⟩
  | cons q rest ih =>
    refine ih horder.insertMember ?_ fun p hp => h p (List.mem_cons_of_mem q hp)
    intro p hp
    rcases mem_insertMember hp with rfl | hp
    · exact h q List.mem_cons_self
    · exact hbefore p hp

/-- An object that is built of readable members is readable. -/
theorem readable_ofMembers {levels : Nat} {members : List (String × Json)}
    (h : ∀ p ∈ members, Readable levels p.2) : Readable (levels + 1) (ofMembers members) := by
  obtain ⟨horder, hvalues⟩ :=
    Ordered.foldl_insertMember List.Pairwise.nil (fun p hp => absurd hp List.not_mem_nil) h
  exact ⟨Nat.succ_ne_zero levels, horder, readableMembers_iff.2 hvalues⟩

/-! ## Tokens and trees of values -/

mutual

/-- The tokens of a value without binary numbers. -/
def tokens : Json → List Token
  | null => [.null]
  | bool b => [.bool b]
  | int n => [.number (.ofInt n)]
  | real _ => []
  | string s => [.string (s.toList.map .char)]
  | array [] => [.openArray, .closeArray]
  | array (v :: rest) => .openArray :: tokens v ++ itemTokens rest ++ [.closeArray]
  | object [] => [.openObject, .closeObject]
  | object ((name, v) :: rest) =>
    .openObject :: .string (name.toList.map .char) :: .colon :: tokens v ++ memberTokens rest
      ++ [.closeObject]

/-- The tokens of the items after the first. -/
def itemTokens : List Json → List Token
  | [] => []
  | v :: rest => .comma :: tokens v ++ itemTokens rest

/-- The tokens of the members after the first. -/
def memberTokens : List (String × Json) → List Token
  | [] => []
  | (name, v) :: rest =>
    .comma :: .string (name.toList.map .char) :: .colon :: tokens v ++ memberTokens rest

end

mutual

/-- The tree of a value without binary numbers. -/
def Tree.ofJson : Json → Tree
  | .null => .null
  | .bool b => .bool b
  | .int n => .number (.ofInt n)
  | .real _ => .null
  | .string s => .ofText s
  | .array items => .array (Tree.ofItems items)
  | .object members => .object (Tree.ofMemberValues members)

/-- The trees of the items of an array. -/
def Tree.ofItems : List Json → List Tree
  | [] => []
  | v :: rest => Tree.ofJson v :: Tree.ofItems rest

/-- The trees of the members of an object. -/
def Tree.ofMemberValues : List (String × Json) → List (List Piece × Tree)
  | [] => []
  | (name, v) :: rest => (name.toList.map .char, Tree.ofJson v) :: Tree.ofMemberValues rest

end

/-! ## From the tokens to the tree -/

/-- Where an array or a value may come, only the end of the array is told
apart. -/
theorem build_firstItem {t : Token} (ht : t ≠ .closeArray) (outer : List Tree.Frame)
    (ts : List Token) :
    Tree.build .firstItem (.array [] :: outer) (t :: ts)
      = Tree.build .value (.array [] :: outer) (t :: ts) := by
  cases t <;> first | rfl | exact absurd rfl ht

/-- A value does not begin with the end of an array. -/
theorem tokens_cons {v : Json} (h : Whole v) :
    ∃ t ts, tokens v = t :: ts ∧ t ≠ .closeArray := by
  match v, h with
  | .null, _ => exact ⟨_, _, rfl, by simp⟩
  | .bool b, _ => exact ⟨_, _, rfl, by simp⟩
  | .int n, _ => exact ⟨_, _, rfl, by simp⟩
  | .string s, _ => exact ⟨_, _, rfl, by simp⟩
  | .array [], _ => exact ⟨_, _, rfl, by simp⟩
  | .array (v :: rest), _ => exact ⟨_, _, rfl, by simp⟩
  | .object [], _ => exact ⟨_, _, rfl, by simp⟩
  | .object ((name, v) :: rest), _ => exact ⟨_, _, rfl, by simp⟩

mutual

/-- The tokens of a value are built to its tree. -/
theorem build_tokens : (v : Json) → Whole v → (outer : List Tree.Frame) →
    (ts : List Token) →
      Tree.build .value outer (tokens v ++ ts) = Tree.build (.after (Tree.ofJson v)) outer ts
  | .null, _, _, _ => rfl
  | .bool b, _, _, _ => rfl
  | .int n, _, _, _ => rfl
  | .string s, _, _, _ => rfl
  | .array [], _, _, _ => rfl
  | .array (v :: items), h, outer, ts => by
    obtain ⟨t, front, htokens, ht⟩ := tokens_cons h.1
    have htail : tokens (.array (v :: items)) ++ ts
        = .openArray :: (tokens v ++ (itemTokens items ++ .closeArray :: ts)) := by
      simp [tokens]
    have hvalue := build_tokens v h.1 (.array [] :: outer) (itemTokens items ++ .closeArray :: ts)
    rw [htokens, List.cons_append, ← build_firstItem ht, ← List.cons_append, ← htokens,
      build_itemTokens items h.2 [] (Tree.ofJson v) outer ts] at hvalue
    rw [htail]
    exact hvalue
  | .object [], _, _, _ => rfl
  | .object ((name, v) :: members), h, outer, ts => by
    have htail : tokens (.object ((name, v) :: members)) ++ ts
        = .openObject :: .string (name.toList.map .char) :: .colon
          :: (tokens v ++ (memberTokens members ++ .closeObject :: ts)) := by
      simp [tokens]
    have hvalue := build_tokens v h.1 (.object [] (name.toList.map .char) :: outer)
      (memberTokens members ++ .closeObject :: ts)
    rw [build_memberTokens members h.2] at hvalue
    rw [htail]
    exact hvalue

theorem build_itemTokens : (items : List Json) → WholeItems items →
    (before : List Tree) → (t : Tree) → (outer : List Tree.Frame) → (ts : List Token) →
      Tree.build (.after t) (.array before :: outer) (itemTokens items ++ .closeArray :: ts)
        = Tree.build (.after (.array ((t :: before).reverse ++ Tree.ofItems items))) outer ts
  | [], _, before, t, outer, ts => by
    rw [Tree.ofItems, List.append_nil]
    rfl
  | v :: items, h, before, t, outer, ts => by
    have htail : itemTokens (v :: items) ++ .closeArray :: ts
        = .comma :: (tokens v ++ (itemTokens items ++ .closeArray :: ts)) := by
      simp [itemTokens]
    have hvalue := build_tokens v h.1 (.array (t :: before) :: outer)
      (itemTokens items ++ .closeArray :: ts)
    rw [build_itemTokens items h.2, List.reverse_cons, List.append_assoc] at hvalue
    rw [htail]
    exact hvalue

theorem build_memberTokens : (members : List (String × Json)) → WholeMembers members →
    (before : List (List Piece × Tree)) → (name : List Piece) →
      (t : Tree) → (outer : List Tree.Frame) → (ts : List Token) →
        Tree.build (.after t) (.object before name :: outer)
            (memberTokens members ++ .closeObject :: ts)
          = Tree.build (.after (.object (((name, t) :: before).reverse
            ++ Tree.ofMemberValues members))) outer ts
  | [], _, before, name, t, outer, ts => by
    rw [Tree.ofMemberValues, List.append_nil]
    rfl
  | (next, v) :: members, h, before, name, t, outer, ts => by
    have htail : memberTokens ((next, v) :: members) ++ .closeObject :: ts
        = .comma :: .string (next.toList.map .char) :: .colon
          :: (tokens v ++ (memberTokens members ++ .closeObject :: ts)) := by
      simp [memberTokens]
    have hvalue := build_tokens v h.1 (.object ((name, t) :: before) (next.toList.map .char) :: outer)
      (memberTokens members ++ .closeObject :: ts)
    rw [build_memberTokens members h.2, List.reverse_cons, List.append_assoc] at hvalue
    rw [htail]
    exact hvalue

end

/-! ## From the tree to the value -/

mutual

/-- The tree of a value means the value. -/
theorem value?_ofJson {levels : Nat} : (v : Json) → Readable levels v →
    (Tree.ofJson v).value? levels = some v
  | .null, _ => rfl
  | .bool b, _ => rfl
  | .int n, h => NumberText.value?_ofInt h.1 h.2
  | .string s, _ => Tree.value?_ofText levels s
  | .array items, h => by
    rw [Tree.ofJson, Tree.value?, if_neg h.1, values?_ofItems items h.2]
    rfl
  | .object members, h => by
    rw [Tree.ofJson, Tree.value?, if_neg h.1, memberValues?_ofMemberValues members h.2.2,
      Option.map_some, ofMembers_of_ordered h.2.1]

theorem values?_ofItems {levels : Nat} : (items : List Json) → ReadableItems levels items →
    Tree.values? levels (Tree.ofItems items) = some items
  | [], _ => rfl
  | v :: items, h => by
    simp [Tree.ofItems, Tree.values?, value?_ofJson v h.1, values?_ofItems items h.2]

theorem memberValues?_ofMemberValues {levels : Nat} : (members : List (String × Json)) →
    ReadableMembers levels members →
      Tree.memberValues? levels (Tree.ofMemberValues members) = some members
  | [], _ => rfl
  | (name, v) :: members, h => by
    simp [Tree.ofMemberValues, Tree.memberValues?, value?_ofJson v h.1,
      memberValues?_ofMemberValues members h.2]

end

end TokenMarket.Json
