import TokenMarket.Record.Fields
import TokenMarket.Proofs.Error
import TokenMarket.Proofs.Split

/-!
# Records of fields taken apart

A record of fields is decided in two steps, and neither of them depends on what the
fields are for.

* The cut.  `Cut` says which fields a text has, without cutting it.  A text has one
  list of fields (`splitOn_eq_iff`), and one field more than it has separators.
* The rows.  A `Row` is a field that has to be read, with the condition under which it
  can be.  `Decided` says what reading a list of rows comes to: a record if all rows
  are good, and otherwise the complaint about the first that is not.  There is a rule
  for no row and a rule for one row more, so a reader of records has to say only which
  rows it goes through.
-/

namespace TokenMarket.Fields

/-! ## The cut -/

/-- The text is the fields with separators between them, and none inside. -/
structure Cut (text : String) (fields : List (List Char)) : Prop where
  ne_nil : fields ≠ []
  free : ∀ field ∈ fields, separator ∉ field
  joined : text.toList = join fields

variable {text : String} {fields : List (List Char)}

theorem splitOn_eq_iff : Text.splitOn separator text.toList = fields ↔ Cut text fields := by
  rw [Text.splitOn_eq_iff]
  constructor
  · intro ⟨hne, hfree, hjoined⟩
    exact ⟨hne, hfree, hjoined⟩
  · intro h
    exact ⟨h.ne_nil, h.free, h.joined⟩

/-- Every text has fields. -/
theorem exists_cut (text : String) : ∃ fields, Cut text fields :=
  ⟨_, splitOn_eq_iff.1 rfl⟩

theorem Cut.length_eq (h : Cut text fields) :
    fields.length = text.toList.count separator + 1 := by
  rw [← splitOn_eq_iff.2 h, Text.length_splitOn]

/-- Fields without the separator are those of the text that is joined of them. -/
theorem cut_join (hne : fields ≠ []) (hfree : ∀ field ∈ fields, separator ∉ field) :
    Cut (String.ofList (join fields)) fields :=
  ⟨hne, hfree, String.toList_ofList⟩

/-- Five fields have four separators between them. -/
theorem Cut.count_eq {a b c d e : List Char} (h : Cut text [a, b, c, d, e]) :
    text.toList.count separator = 4 :=
  (Nat.succ.inj h.length_eq).symm

/-- The texts with four separators are those with five fields. -/
theorem count_eq_iff :
    text.toList.count separator = 4 ↔ ∃ a b c d e, Cut text [a, b, c, d, e] := by
  constructor
  · intro h
    obtain ⟨fields, hcut⟩ := exists_cut text
    have hlength := hcut.length_eq
    rw [h] at hlength
    match fields, hlength with
    | [a, b, c, d, e], _ => exact ⟨a, b, c, d, e, hcut⟩
  · intro ⟨a, b, c, d, e, hcut⟩
    exact hcut.count_eq

/-- If all texts with fewer separators or more are complained about, a text that is
read has five fields. -/
theorem exists_cut_of_ok {α : Type} {answer : Except Error α} {complaint : Error} {r : α}
    (hother : text.toList.count separator ≠ 4 → answer = .error complaint) (h : answer = .ok r) :
    ∃ a b c d e, Cut text [a, b, c, d, e] := by
  by_cases hcount : text.toList.count separator = 4
  · exact count_eq_iff.1 hcount
  · rw [hother hcount] at h
    simp at h

/-! ## The rows -/

/-- A field that has to be read, and when it can be. -/
structure Row where
  name : String
  text : List Char
  Good : Prop

/-- The complaint about a field shows it as it is. -/
def Row.complaint (record : String) (row : Row) : Error :=
  .invalidField record row.name (String.ofList row.text)

/-- Of some rows, the first that is no good.  `FirstOf` would tell the complaint about it
and not the row. -/
def FirstBad (rows : List Row) (row : Row) : Prop :=
  ∃ before after, rows = before ++ row :: after ∧ (∀ r ∈ before, r.Good) ∧ ¬ row.Good

/-- What reading some rows comes to. -/
structure Decided {α : Type} (record : String) (rows : List Row) (Denotes : α → Prop)
    (answer : Except Error α) : Prop where
  /-- There is a record exactly if every row is good. -/
  exists_ok_iff : (∃ r, answer = .ok r) ↔ ∀ row ∈ rows, row.Good
  /-- The record is the one that the fields denote. -/
  ok_iff : ∀ r, answer = .ok r ↔ Denotes r
  /-- The complaint is about the first row that is no good. -/
  error_iff : ∀ e, answer = .error e ↔ ∃ row, FirstBad rows row ∧ e = row.complaint record

variable {α β : Type} {record name : String} {field : List Char} {Good : Prop} {rows : List Row}
  {row : Row}

theorem firstBad_cons {first : Row} :
    FirstBad (first :: rows) row ↔ row = first ∧ ¬ first.Good ∨ first.Good ∧ FirstBad rows row := by
  refine exists_first_cons.trans (or_congr ?_ Iff.rfl)
  constructor
  · rintro ⟨rfl, hbad⟩
    exact ⟨rfl, hbad⟩
  · rintro ⟨rfl, hbad⟩
    exact ⟨rfl, hbad⟩

theorem read_eq_ok_iff {reader : List Char → Option α} {a : α} :
    read record name reader field = .ok a ↔ reader field = some a := by
  rw [read]
  cases reader field with
  | none => simp
  | some b => simp

/-- Without rows there is nothing to complain about. -/
theorem decided_pure (record : String) (a : α) : Decided record [] (fun r => r = a) (pure a) where
  exists_ok_iff := ⟨fun _ => by simp, fun _ => ⟨a, rfl⟩⟩
  ok_iff r := by
    simp only [pure, Except.pure, Except.ok.injEq]
    exact eq_comm
  error_iff e := by simp [FirstBad, pure, Except.pure]

/-- A row in front is read first.  If it is good, the answer is that of the other rows,
and otherwise the complaint about it. -/
theorem decided_read {reader : List Char → Option α} {Denotes : α → β → Prop}
    {next : α → Except Error β} (hgood : (∃ a, reader field = some a) ↔ Good)
    (hnext : ∀ a, reader field = some a → Decided record rows (Denotes a) (next a)) :
    Decided record (⟨name, field, Good⟩ :: rows)
      (fun r => ∃ a, reader field = some a ∧ Denotes a r)
      (read record name reader field >>= next) := by
  cases hread : reader field with
  | none =>
    have hbad : ¬ Good := by
      rw [← hgood, hread]
      simp
    have hanswer : read record name reader field >>= next
        = .error (.invalidField record name (String.ofList field)) := by
      rw [read, hread]
      rfl
    rw [hanswer]
    refine ⟨by simp [hbad], by simp, fun e => ?_⟩
    simp [firstBad_cons, hbad, Row.complaint, eq_comm]
  | some a =>
    have hfirst : Good := hgood.1 ⟨a, hread⟩
    have hanswer : read record name reader field >>= next = next a := by
      rw [read, hread]
      rfl
    have hdecided := hnext a hread
    rw [hanswer]
    refine ⟨?_, fun r => ?_, fun e => ?_⟩
    · rw [hdecided.exists_ok_iff, List.forall_mem_cons]
      exact ⟨fun h => ⟨hfirst, h⟩, fun h => h.2⟩
    · rw [hdecided.ok_iff]
      simp
    · rw [hdecided.error_iff]
      simp [firstBad_cons, hfirst]

/-- A first bad row without text is told by its name alone. -/
theorem Decided.error_of_empty {Denotes : α → Prop} {answer : Except Error α}
    (h : Decided record rows Denotes answer) (hbad : FirstBad rows row) (hempty : row.text = []) :
    answer = .error (.invalidField record row.name "") := by
  have hcomplaint : row.complaint record = .invalidField record row.name "" := by
    rw [Row.complaint, hempty, String.ofList_nil]
  rw [h.error_iff]
  exact ⟨row, hbad, hcomplaint.symm⟩

/-- The same record may be denoted in other words. -/
theorem Decided.congr {Denotes Denotes' : α → Prop} {answer : Except Error α}
    (h : Decided record rows Denotes answer) (hsame : ∀ r, Denotes r ↔ Denotes' r) :
    Decided record rows Denotes' answer where
  exists_ok_iff := h.exists_ok_iff
  ok_iff r := (h.ok_iff r).trans (hsame r)
  error_iff := h.error_iff

end TokenMarket.Fields
