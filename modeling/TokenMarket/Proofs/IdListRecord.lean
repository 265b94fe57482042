import Mathlib.Data.List.Forall2
import TokenMarket.Proofs.Error
import TokenMarket.Proofs.Numeral
import TokenMarket.Record.IdList

/-!
# Lists of ids decoded

A list of ids mixes two ways to write a number, and a bad item may stand at any
place of it.  An id that gets lost or changes its place would hide a holding, so
the list is either read in full and in order, or refused for its first bad item.

There are two groups.

* Items.  `Denotes` says without a reader which number an item stands for, and
  `id?_eq_some_iff` that the reader agrees.
* Lists.  The inductions over the items are `decodeItems_eq_ok_iff` and
  `decodeItems_eq_error_iff`.  `decode_decided` says both of any value, and that
  ids come back however each of them was written.  `decode_encode` is the case of
  ids that are all written as numbers.
-/

namespace TokenMarket.IdList

/-! ## Items -/

/-- The number that an item stands for: it is written as a number, or as a text of
digits with at most one plus sign in front. -/
def Denotes (v : Json) (n : Nat) : Prop :=
  v = .int n ∨ ∃ text, v = .string text ∧ Numeral.Signed text.toList n

/-- An item that stands for an id. -/
def IsId (v : Json) : Prop := ∃ n < UInt64.size, Denotes v n

variable {v : Json} {w : UInt64}

/-- The reader takes an item as the number that it stands for. -/
theorem id?_eq_some_iff : id? v = some w ↔ Denotes v w.toNat := by
  cases v with
  | int n => simp [id?, Denotes, Numeral.toWord64?_eq_some_iff]
  | string s => simp [id?, Denotes, Numeral.readWord64?_eq_some_iff]
  | _ => simp [id?, Denotes]

theorem isId_of_id? (h : id? v = some w) : IsId v :=
  ⟨w.toNat, UInt64.toNat_lt_size w, id?_eq_some_iff.1 h⟩

theorem id?_eq_none_iff : id? v = none ↔ ¬ IsId v := by
  rw [IsId, Numeral.exists_word64_iff, ← Option.not_isSome_iff_eq_none, Option.isSome_iff_exists]
  simp only [id?_eq_some_iff]

/-! ## Lists -/

variable {items : List Json} {ids : List UInt64} {e : Error}

/-- Items are read in order and in full. -/
theorem decodeItems_eq_ok_iff :
    decodeItems items = .ok ids ↔ List.Forall₂ (fun item id => Denotes item id.toNat) items ids := by
  induction items generalizing ids with
  | nil => simp [decodeItems, eq_comm]
  | cons item rest ih =>
    rw [decodeItems, List.forall₂_cons_left_iff]
    cases hitem : id? item with
    | none =>
      simp only [reduceCtorEq, false_iff]
      rintro ⟨id, others, hid, -⟩
      exact id?_eq_none_iff.1 hitem ⟨id.toNat, UInt64.toNat_lt_size id, hid⟩
    | some n =>
      have hn : ∀ id : UInt64, Denotes item id.toNat ↔ id = n := by
        intro id
        rw [← id?_eq_some_iff, hitem, Option.some.injEq, eq_comm]
      simp only [Error.map_eq_ok_iff, ih, hn]
      constructor
      · rintro ⟨others, hothers, rfl⟩
        exact ⟨n, others, rfl, hothers, rfl⟩
      · rintro ⟨id, others, rfl, hothers, rfl⟩
        exact ⟨others, hothers, rfl⟩

/-- Items are read if each of them stands for an id. -/
theorem exists_decodeItems_iff :
    (∃ ids, decodeItems items = .ok ids) ↔ ∀ item ∈ items, IsId item := by
  induction items with
  | nil => simp [decodeItems]
  | cons item rest ih =>
    rw [List.forall_mem_cons, ← ih, decodeItems]
    cases hitem : id? item with
    | none => simp [id?_eq_none_iff.1 hitem]
    | some n => simp [isId_of_id? hitem, Error.map_eq_ok_iff]

/-- The first item that is no id is the one that is reported. -/
theorem decodeItems_eq_error_iff :
    decodeItems items = .error e ↔ ∃ item front back, items = front ++ item :: back
      ∧ (∀ other ∈ front, IsId other) ∧ ¬ IsId item ∧ e = invalid item := by
  induction items with
  | nil => simp [decodeItems]
  | cons first rest ih =>
    rw [decodeItems]
    simp only [exists_first_cons]
    cases hfirst : id? first with
    | none =>
      have hbad := id?_eq_none_iff.1 hfirst
      simp [hbad, eq_comm]
    | some n =>
      have hgood := isId_of_id? hfirst
      simp [hgood, exists_or, Error.map_eq_error_iff, ih]

theorem decode_array (items : List Json) : decode (.array items) = decodeItems items := rfl

/-- What is no array is reported as a whole. -/
theorem decode_of_not_array (h : ∀ items, v ≠ .array items) : decode v = .error (invalid v) := by
  cases v with
  | array items => exact absurd rfl (h items)
  | _ => rfl

/-- An id as a value, written as a text or as a number. -/
def written (asText : Bool) (id : UInt64) : Json :=
  if asText then .string (Numeral.decimal id.toNat) else .ofWord id

theorem denotes_written (asText : Bool) (id : UInt64) : Denotes (written asText id) id.toNat := by
  cases asText with
  | true =>
    refine Or.inr ⟨_, rfl, ?_⟩
    rw [Numeral.decimal, String.toList_ofList]
    exact Numeral.signed_digits id.toNat
  | false => exact Or.inl rfl

/-- Ids come back however each of them was written. -/
theorem decode_written (ids : List (Bool × UInt64)) :
    decode (.array (ids.map fun (asText, id) => written asText id)) = .ok (ids.map Prod.snd) := by
  rw [decode_array, decodeItems_eq_ok_iff, List.forall₂_map_left_iff, List.forall₂_map_right_iff,
    List.forall₂_same]
  exact fun p _ => denotes_written p.1 p.2

/-- The array of ids is read as the ids. -/
theorem decode_encode (ids : List UInt64) : decode (encode ids) = .ok ids := by
  have hids : (ids.map (Prod.mk false)).map Prod.snd = ids := by
    rw [List.map_map]
    exact List.map_id ids
  have hwritten := decode_written (ids.map (Prod.mk false))
  rwa [hids, List.map_map] at hwritten

/-- A value is a list of ids if it is an array of items that stand for numbers below 2^64,
and it is read as these numbers, one for each item and in the order of the items.  Any other
value is refused: it is shown as a whole if it is no array, and else its first bad item is.
So ids come back as they were, repeated ones included, however each of them was written. -/
theorem decode_decided :
    (∀ v, (∀ ids, decode v = .ok ids ↔ ∃ items, v = .array items
          ∧ List.Forall₂ (fun item id => Denotes item id.toNat) items ids)
        ∧ ((∃ ids, decode v = .ok ids) ↔ ∃ items, v = .array items
          ∧ ∀ item ∈ items, ∃ n < UInt64.size, Denotes item n)
        ∧ ∀ e, decode v = .error e ↔
          ((∀ items, v ≠ .array items) ∧ e = .invalidField "id list" "parsed" v.compact)
            ∨ ∃ item front back, v = .array (front ++ item :: back)
              ∧ (∀ other ∈ front, IsId other) ∧ ¬ IsId item
              ∧ e = .invalidField "id list" "parsed" item.compact)
      ∧ ∀ ids : List (Bool × UInt64),
        decode (.array (ids.map fun (asText, id) => written asText id)) = .ok (ids.map Prod.snd) := by
  constructor
  · intro v
    by_cases harray : ∃ items, v = .array items
    · obtain ⟨items, rfl⟩ := harray
      rw [decode_array]
      refine ⟨fun ids => ?_, ?_, fun e => ?_⟩
      · simp [decodeItems_eq_ok_iff]
      · simp [exists_decodeItems_iff, IsId]
      · simp [decodeItems_eq_error_iff, invalid]
    · have hnone : ∀ items, v ≠ .array items := fun items h => harray ⟨items, h⟩
      rw [decode_of_not_array hnone]
      refine ⟨fun ids => ?_, ?_, fun e => ?_⟩
      · simp [hnone]
      · simp [hnone]
      · simp [hnone, invalid, eq_comm]
  · exact decode_written

/-- One id in three spellings. -/
example : decode (.array [.int 5, .string "+05", .string "5"]) = .ok [5, 5, 5] := by rfl

end TokenMarket.IdList
