import TokenMarket.Proofs.JsonLayout
import TokenMarket.Rpc.Envelope

/-!
# Envelopes read from their texts

What an answer is taken for depends on the envelope in its body.  This module says which
bodies have which envelope, without the reader of envelopes.  The members may stand in any
order and any layout, and members of other names do not count.  A null stands for a result
or an error that there is none of.

There are two groups.

* Records.  The tree of an object gives the members of a record name by name, and a value in
  it is the value that was written.
* Envelopes.  `RemoteError.Written` and `Envelope.Written` list the members, and
  `Envelope.Written.parse?_chars` says that the reader finds the envelope in their text.
  `resultBody` and `refusalBody` are the shortest bodies with a result and with an error.
-/

namespace TokenMarket

/-! ## Records -/

namespace Json

variable {members : List (String × Json)}

theorem Tree.ofMemberValues_eq_map :
    Tree.ofMemberValues members
      = (members.map fun p => (p.1, Tree.ofJson p.2)).map fun p => (p.1.toList.map .char, p.2) := by
  induction members with
  | nil => rfl
  | cons p rest ih =>
    rw [Tree.ofMemberValues, ih]
    rfl

/-- The only member of a name does not depend on what the members are worth. -/
theorem single?_map {α β : Type} (f : α → β) (members : List (String × α)) (name : String) :
    single? (members.map fun p => (p.1, f p.2)) name
      = (single? members name).map (Option.map f) := by
  have hfilter : (members.map fun p => (p.1, f p.2)).filter (·.1 == name)
      = (members.filter (·.1 == name)).map fun p => (p.1, f p.2) := List.filter_map
  rw [single?, single?, hfilter]
  generalize members.filter (·.1 == name) = found
  match found with
  | [] => rfl
  | [_] => rfl
  | _ :: _ :: _ => rfl

/-- The tree of an object gives the members of a record. -/
theorem Tree.slots?_ofJson (names : List String) :
    Tree.slots? names (Tree.ofJson (.object members))
      = names.mapM fun name => (single? members name).map (Option.map Tree.ofJson) := by
  have hread : (single? (members.map fun p => (p.1, Tree.ofJson p.2)))
      = fun name => (single? members name).map (Option.map Tree.ofJson) :=
    funext (single?_map Tree.ofJson members)
  rw [Tree.ofJson, Tree.ofMemberValues_eq_map, ← hread]
  exact Tree.slots?_ofMembers names _

/-- The value in a slot is the one that was written. -/
theorem slotValue?_ofJson {levels : Nat} {v : Json} (h : Readable levels v) :
    slotValue? levels (some (Tree.ofJson v)) = some (some v) :=
  congrArg (Option.map some) (value?_ofJson v h)

theorem slotValue?_map_ofJson {levels : Nat} {slot : Option Json}
    (h : ∀ v ∈ slot, Readable levels v) : slotValue? levels (slot.map Tree.ofJson) = some slot := by
  cases slot with
  | none => rfl
  | some v => exact slotValue?_ofJson (h v rfl)

/-- A text inside of objects that have one member each. -/
def nested (text : String) : (names : List String) → Json
  | [] => .string text
  | name :: names => .object [(name, nested text names)]

theorem readable_nested (text : String) {names : List String} {levels : Nat}
    (h : names.length ≤ levels) : (nested text names).Readable levels := by
  induction names generalizing levels with
  | nil => trivial
  | cons name names ih =>
    rw [List.length_cons] at h
    exact ⟨by omega, List.pairwise_singleton _ _, ih (by omega), trivial⟩

theorem present_nested (text : String) (names : List String) :
    present (some (nested text names)) = some (nested text names) := by
  cases names <;> rfl

end Json

/-! ## Envelopes -/

namespace Rpc

open Json (single? present maxLevels)

/-- An error is written as an object of these members.  Its code has 64 bits and a sign. -/
structure RemoteError.Written (e : RemoteError) (members : List (String × Json)) : Prop where
  code : single? members "code" = some (some (.int e.code))
  isSigned64_code : Numeral.isSigned64 e.code = true
  message : single? members "message" = some (some (.string e.message))
  data : ∃ slot, single? members "data" = some slot ∧ (∀ v ∈ slot, v.Readable (maxLevels - 2))
    ∧ present slot = e.data

/-- The member for the error of an envelope. -/
inductive ErrorSlot : Option RemoteError → Option Json → Prop
  | absent : ErrorSlot none none
  | null : ErrorSlot none (some .null)
  | error {e : RemoteError} {members : List (String × Json)} (h : e.Written members) :
      ErrorSlot (some e) (some (.object members))

/-- An envelope is written as an object of these members. -/
structure Envelope.Written (e : Envelope) (members : List (String × Json)) : Prop where
  result : ∃ slot, single? members "result" = some slot
    ∧ (∀ v ∈ slot, v.Readable (maxLevels - 1)) ∧ present slot = e.result
  error : ∃ slot, single? members "error" = some slot ∧ ErrorSlot e.error slot
  whole : Json.WholeMembers members

theorem RemoteError.Written.ofTree? {e : RemoteError} {members : List (String × Json)}
    (h : e.Written members) : ofTree? (Json.Tree.ofJson (.object members)) = some e := by
  obtain ⟨data, hdata, hreadable, hpresent⟩ := h.data
  have hcode : Json.Readable (maxLevels - 2) (.int e.code) := by
    have hsigned := h.isSigned64_code
    simp only [Numeral.isSigned64, Bool.and_eq_true, decide_eq_true_eq] at hsigned
    simp only [Json.Readable]
    omega
  have hslots : (Json.Tree.ofJson (.object members)).slots? memberNames
      = some ([some (.int e.code), some (.string e.message), data].map
        (Option.map Json.Tree.ofJson)) := by
    rw [Json.Tree.slots?_ofJson]
    simp [memberNames, h.code, h.message, hdata]
  have hvalues : ([some (.int e.code), some (.string e.message), data].map
        (Option.map Json.Tree.ofJson)).mapM (Json.slotValue? (maxLevels - 2))
      = some [some (.int e.code), some (.string e.message), data] := by
    have hmessage : Json.Readable (maxLevels - 2) (.string e.message) := trivial
    simp [Json.slotValue?_ofJson hcode, Json.slotValue?_ofJson hmessage,
      Json.slotValue?_map_ofJson hreadable]
  rw [RemoteError.ofTree?, hslots, Option.bind_eq_bind, Option.bind_some, hvalues]
  simp [ofSlots?, h.isSigned64_code, hpresent]

theorem ErrorSlot.error? {e : Option RemoteError} {slot : Option Json} (h : ErrorSlot e slot) :
    Envelope.error? (slot.map Json.Tree.ofJson) = some e := by
  cases h with
  | absent | null => rfl
  | error h => exact congrArg (Option.map some) h.ofTree?

/-- The reader finds an envelope in its text, however that is laid out. -/
theorem Envelope.Written.parse?_chars {e : Envelope} {members : List (String × Json)}
    (h : e.Written members) (l : Json.Layout) (level : Nat) {blanks : List Char}
    (hblanks : ∀ c ∈ blanks, Json.Token.isSpace c = true) :
    Envelope.parse? (String.ofList (l.chars level (.object members) ++ blanks)) = some e := by
  obtain ⟨result, hresult, hreadable, hpresent⟩ := h.result
  obtain ⟨error, herror, hslot⟩ := h.error
  have hslots : (Json.Tree.ofJson (.object members)).slots? memberNames
      = some [result.map Json.Tree.ofJson, error.map Json.Tree.ofJson] := by
    rw [Json.Tree.slots?_ofJson]
    simp [memberNames, hresult, herror]
  rw [parse?, String.toList_ofList, l.tree_chars level (v := .object members) h.whole hblanks]
  simp [hslots, Json.slotValue?_map_ofJson hreadable, hslot.error?, hpresent]

/-- So it does in the shortest text. -/
theorem Envelope.Written.parse?_compact {e : Envelope} {members : List (String × Json)}
    (h : e.Written members) : Envelope.parse? (Json.object members).compact = some e := by
  have hparse := h.parse?_chars .compact 0 (List.forall_mem_nil _)
  rwa [List.append_nil, Json.Layout.compact_chars] at hparse

/-- The body of an answer with a text inside of its result. -/
def resultBody (text : String) (names : List String) : String :=
  (Json.nested text ("result" :: names)).compact

theorem parse?_resultBody (text : String) {names : List String} (h : names.length ≤ 126) :
    Envelope.parse? (resultBody text names) = some ⟨some (Json.nested text names), none⟩ := by
  have hreadable := Json.readable_nested text h
  refine Envelope.Written.parse?_compact ⟨⟨_, rfl, ?_, Json.present_nested text names⟩,
    ⟨none, rfl, .absent⟩, hreadable.whole, trivial⟩
  intro v hv
  exact Option.some.inj hv ▸ hreadable

/-- The body of an answer with an error. -/
def refusalBody (message : String) : String :=
  (Json.object [("error", .object [("code", .int (-32003)), ("message", .string message)])]).compact

theorem parse?_refusalBody (message : String) :
    Envelope.parse? (refusalBody message) = some ⟨none, some ⟨-32003, message, none⟩⟩ := by
  have herror : RemoteError.Written ⟨-32003, message, none⟩
      [("code", .int (-32003)), ("message", .string message)] :=
    ⟨rfl, rfl, rfl, ⟨none, rfl, by simp, rfl⟩⟩
  exact Envelope.Written.parse?_compact ⟨⟨none, rfl, by simp, rfl⟩, ⟨_, rfl, .error herror⟩,
    ⟨trivial, trivial, trivial⟩, trivial⟩

end Rpc

end TokenMarket
