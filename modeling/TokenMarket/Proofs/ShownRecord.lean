import TokenMarket.Proofs.HashText
import TokenMarket.Proofs.JsonLayout
import TokenMarket.Proofs.Selection
import TokenMarket.Session.Event
import TokenMarket.Session.View

/-!
# What a session shows of a record determines the record

People copy ids, hashes and prices from the screen into orders.  So the text of a
record must have one reading only.  That is not obvious: names and addresses of
tokens are any texts and may look like JSON, an account is shown with a name that
anyone may have chosen, and a price can be larger than the numbers of JSON.

There are three groups.

* Accounts.  The digits come first and are 64, so no name behind them can hide them.
  `describe_inj` needs no registry for that, so it allows two of them.
* Views.  Each view is readable, and equal views have equal ids and records.
* Printed records.  `Event.render_record_inj` takes the colours away, `View.ReadBack` says
  what a reader of the text finds, and `View.records_determined` is the result.
-/

namespace TokenMarket

/-! ## Accounts -/

theorem Hash.length_hex {kind : HashKind} (h : Hash kind) : h.hex.toList.length = 64 := by
  rw [hex, String.toList_ofList, Hex.length_encode, h.length_bytes]

namespace Registry

variable {r others : Registry} {h k : AccountHash} {i : Identity}

/-- The identity owns the account, and none in front of it does. -/
def FirstOwner (r : Registry) (h : AccountHash) (i : Identity) : Prop :=
  ∃ before after, r = before ++ i :: after ∧ i.account = h ∧ ∀ j ∈ before, j.account ≠ h

theorem owner?_eq_some_iff : r.owner? h = some i ↔ r.FirstOwner h i :=
  find?_key_eq_some_iff

theorem owner?_eq_none_iff : r.owner? h = none ↔ ∀ i ∈ r, i.account ≠ h := by
  simp only [owner?, List.find?_eq_none, beq_iff_eq, ne_eq]

/-- How an account is shown: its 64 digits, and behind them the name of its first owner in
the registry, if it has one there. -/
structure Shows (r : Registry) (h : AccountHash) (text : String) : Prop where
  length_digits : h.hex.toList.length = 64
  label : (∀ i ∈ r, i.account ≠ h) ∧ text = h.hex
    ∨ ∃ i, r.FirstOwner h i ∧ text = h.hex ++ " (" ++ i.name ++ ")"

theorem shows_describe (r : Registry) (h : AccountHash) : r.Shows h (r.describe h) where
  length_digits := h.length_hex
  label := by
    rw [describe]
    cases howner : r.owner? h with
    | some i => exact Or.inr ⟨i, owner?_eq_some_iff.1 howner, rfl⟩
    | none => exact Or.inl ⟨owner?_eq_none_iff.1 howner, rfl⟩

/-- An account of two names has the first. -/
example :
    let h : AccountHash := ⟨List.replicate 32 3, rfl⟩
    describe [⟨"a", h, "x"⟩, ⟨"b", h, "y"⟩] h = h.hex ++ " (a)" := by
  decide +kernel

/-- The digits are the first 64 characters. -/
theorem Shows.take_eq {text : String} (hshows : r.Shows h text) :
    text.toList.take 64 = h.hex.toList := by
  rw [← hshows.length_digits]
  rcases hshows.label with ⟨-, rfl⟩ | ⟨i, -, rfl⟩
  · exact List.take_length
  · rw [String.append_assoc, String.append_assoc, String.toList_append, List.take_left]

/-- The text of an account determines it. -/
theorem describe_inj (heq : r.describe h = others.describe k) : h = k := by
  have hdigits : h.hex.toList = k.hex.toList := by
    rw [← (shows_describe r h).take_eq, ← (shows_describe others k).take_eq, heq]
  exact Hash.hex_injective (String.toList_inj.1 hdigits)

end Registry

/-! ## Views -/

namespace View

open Json (Readable ofMembers_inj readable_ofMembers readable_ofWord readable_ofByte)

theorem ofWord_inj {m n : UInt64} (h : Json.ofWord m = Json.ofWord n) : m = n := by
  have hnat : m.toNat = n.toNat := Int.ofNat_inj.1 (Json.int.inj h)
  exact UInt64.toNat_inj.1 hnat

theorem ofByte_inj {m n : UInt8} (h : Json.ofByte m = Json.ofByte n) : m = n := by
  have hnat : m.toNat = n.toNat := Int.ofNat_inj.1 (Json.int.inj h)
  exact UInt8.toNat_inj.1 hnat

theorem account_inj {r others : Registry} {h k : AccountHash}
    (heq : account r h = account others k) : h = k :=
  Registry.describe_inj (Json.string.inj heq)

variable {r others : Registry} {id id' : UInt64}

theorem token_inj {t u : Token} (heq : token t = token u) : t = u := by
  have hmembers := ofMembers_inj heq rfl (by simp)
  simp only [List.cons.injEq, Prod.mk.injEq, true_and, and_true, Json.string.injEq] at hmembers
  obtain ⟨hname, huri, hchecksum, hprice, hcommission⟩ := hmembers
  obtain ⟨_, _, _, _, _⟩ := t
  obtain ⟨_, _, _, _, _⟩ := u
  obtain rfl := hname
  obtain rfl := huri
  obtain rfl := hchecksum
  obtain rfl := BitVec.toNat_inj.1 (Numeral.decimal_injective hprice)
  obtain rfl := ofByte_inj hcommission
  rfl

theorem holder_inj {h k : Holder} (heq : holder h = holder k) : h = k := by
  have hmembers := ofMembers_inj heq rfl (by simp)
  simp only [List.cons.injEq, Prod.mk.injEq, true_and, and_true] at hmembers
  obtain ⟨hremaining, hamount, htokenId, htoken⟩ := hmembers
  obtain ⟨⟨_, _, _⟩, _⟩ := h
  obtain ⟨⟨_, _, _⟩, _⟩ := k
  obtain rfl := ofWord_inj hremaining
  obtain rfl := ofWord_inj hamount
  obtain rfl := ofWord_inj htokenId
  obtain rfl := token_inj htoken
  rfl

theorem request_inj {q p : Request} (heq : request r id q = request others id' p) :
    id = id' ∧ q = p := by
  have hmembers := ofMembers_inj heq rfl (by simp)
  simp only [List.cons.injEq, Prod.mk.injEq, true_and, and_true] at hmembers
  obtain ⟨hid, hholderId, hamount, hcommission, hproducer, hpublisher⟩ := hmembers
  obtain ⟨_, _, _, _, _⟩ := q
  obtain ⟨_, _, _, _, _⟩ := p
  obtain rfl := ofWord_inj hholderId
  obtain rfl := ofWord_inj hamount
  obtain rfl := ofByte_inj hcommission
  obtain rfl := account_inj hproducer
  obtain rfl := account_inj hpublisher
  exact ⟨ofWord_inj hid, rfl⟩

theorem approved_inj {h k : ApprovedHolding} (heq : approved r id h = approved others id' k) :
    id = id' ∧ h = k := by
  have hmembers := ofMembers_inj heq rfl (by simp)
  simp only [List.cons.injEq, Prod.mk.injEq, true_and, and_true] at hmembers
  obtain ⟨hid, hholderId, hamount, howner, hpublisher, htokenId, hpercentage⟩ := hmembers
  obtain ⟨_, _, _, _, _, _⟩ := h
  obtain ⟨_, _, _, _, _, _⟩ := k
  obtain rfl := ofWord_inj hholderId
  obtain rfl := ofWord_inj hamount
  obtain rfl := account_inj howner
  obtain rfl := account_inj hpublisher
  obtain rfl := ofWord_inj htokenId
  obtain rfl := ofByte_inj hpercentage
  exact ⟨ofWord_inj hid, rfl⟩

theorem readable_token (t : Token) (levels : Nat) : (token t).Readable (levels + 1) := by
  refine readable_ofMembers fun p hp => ?_
  simp only [List.mem_cons, List.not_mem_nil, or_false] at hp
  rcases hp with rfl | rfl | rfl | rfl | rfl
  · trivial
  · trivial
  · trivial
  · trivial
  · exact readable_ofByte levels t.commission

theorem readable_holder (h : Holder) : (holder h).Readable Json.maxLevels := by
  refine @readable_ofMembers 126 _ fun p hp => ?_
  simp only [List.mem_cons, List.not_mem_nil, or_false] at hp
  rcases hp with rfl | rfl | rfl | rfl
  · exact readable_ofWord 126 h.record.remaining
  · exact readable_ofWord 126 h.record.amount
  · exact readable_ofWord 126 h.record.tokenId
  · exact readable_token h.token 125

theorem readable_request (r : Registry) (id : UInt64) (q : Request) :
    (request r id q).Readable Json.maxLevels := by
  refine @readable_ofMembers 126 _ fun p hp => ?_
  simp only [List.mem_cons, List.not_mem_nil, or_false] at hp
  rcases hp with rfl | rfl | rfl | rfl | rfl | rfl
  · exact readable_ofWord 126 id
  · exact readable_ofWord 126 q.holderId
  · exact readable_ofWord 126 q.amount
  · exact readable_ofByte 126 q.commission
  · trivial
  · trivial

theorem readable_approved (r : Registry) (id : UInt64) (h : ApprovedHolding) :
    (approved r id h).Readable Json.maxLevels := by
  refine @readable_ofMembers 126 _ fun p hp => ?_
  simp only [List.mem_cons, List.not_mem_nil, or_false] at hp
  rcases hp with rfl | rfl | rfl | rfl | rfl | rfl | rfl
  · exact readable_ofWord 126 id
  · exact readable_ofWord 126 h.holderId
  · exact readable_ofWord 126 h.amount
  · trivial
  · trivial
  · exact readable_ofWord 126 h.tokenId
  · exact readable_ofByte 126 h.percentage

end View

/-! ## Printed records -/

namespace Event

theorem render_record (colored : Bool) (view : Json) :
    (record view).render colored = Span.render colored ⟨some .cyan, view.wide⟩ ++ "\n" := by
  simp [render, spans, line, Span.render]

/-- The colours hide nothing. -/
theorem render_record_inj {colored : Bool} {view other : Json}
    (h : (record view).render colored = (record other).render colored) :
    view.wide = other.wide := by
  rw [render_record, render_record, String.append_left_inj] at h
  cases colored with
  | false => exact h
  | true =>
    simp only [Span.render, if_true] at h
    exact (String.append_right_inj _).1 ((String.append_left_inj _).1 h)

theorem parse?_render_record {view : Json} (h : view.Readable Json.maxLevels) :
    Json.parse? ((record view).render false) = some view := by
  rw [render_record]
  exact Json.parse?_wide_line h

end Event

namespace View

/-- A view is an object that is read from its text, and from the line that is printed for it.
Each of the accounts is a member of it, and is shown as an account. -/
structure ReadBack (r : Registry) (view : Json) (accounts : List (String × AccountHash)) :
    Prop where
  parse_text : Json.parse? view.wide = some view
  parse_line : Json.parse? ((Event.record view).render false) = some view
  isObject : view.isObject = true
  accounts : ∀ p ∈ accounts, ∃ text, view.get? p.1 = some (.string text) ∧ r.Shows p.2 text

theorem readBack_ofMembers {r : Registry} {members : List (String × Json)}
    {accounts : List (String × AccountHash)} (h : (Json.ofMembers members).Readable Json.maxLevels)
    (hnodup : (members.map Prod.fst).Nodup)
    (haccounts : ∀ p ∈ accounts, (p.1, account r p.2) ∈ members) :
    ReadBack r (Json.ofMembers members) accounts where
  parse_text := Json.parse?_wide h
  parse_line := Event.parse?_render_record h
  isObject := by
    rw [Json.ofMembers_eq]
    rfl
  accounts p hp :=
    ⟨r.describe p.2, Json.get?_ofMembers_of_mem hnodup (haccounts p hp), r.shows_describe p.2⟩

theorem readBack_request (r : Registry) (id : UInt64) (q : Request) :
    ReadBack r (request r id q) [("producer", q.producer), ("publisher", q.publisher)] :=
  readBack_ofMembers (readable_request r id q) (by simp) (by simp)

theorem readBack_approved (r : Registry) (id : UInt64) (h : ApprovedHolding) :
    ReadBack r (approved r id h) [("owner", h.owner), ("publisher", h.publisher)] :=
  readBack_ofMembers (readable_approved r id h) (by simp) (by simp)

/-- Views that are printed alike are the same view. -/
theorem eq_of_render {view other : Json} (hview : view.Readable Json.maxLevels)
    (hother : other.Readable Json.maxLevels) {colored : Bool}
    (h : (Event.record view).render colored = (Event.record other).render colored) :
    view = other :=
  Json.wide_injective hview hother (Event.render_record_inj h)

/-- What is said of the records that a session with these identities prints, with colours
or without. -/
structure Determined (r : Registry) : Prop where
  /-- Equal texts are of one request. -/
  of_request : ∀ (colored : Bool) (id id' : UInt64) (q q' : Request),
    (Event.record (request r id q)).render colored
      = (Event.record (request r id' q')).render colored → id = id' ∧ q = q'
  of_approved : ∀ (colored : Bool) (id id' : UInt64) (h h' : ApprovedHolding),
    (Event.record (approved r id h)).render colored
      = (Event.record (approved r id' h')).render colored → id = id' ∧ h = h'
  of_token : ∀ (colored : Bool) (t t' : Token),
    (Event.record (token t)).render colored = (Event.record (token t')).render colored → t = t'
  of_holder : ∀ (colored : Bool) (h h' : Holder),
    (Event.record (holder h)).render colored
      = (Event.record (holder h')).render colored → h = h'
  /-- The text is read as an object with both accounts. -/
  read_request : ∀ (id : UInt64) (q : Request),
    ReadBack r (request r id q) [("producer", q.producer), ("publisher", q.publisher)]
  read_approved : ∀ (id : UInt64) (h : ApprovedHolding),
    ReadBack r (approved r id h) [("owner", h.owner), ("publisher", h.publisher)]
  read_token : ∀ t : Token, ReadBack r (token t) []
  read_holder : ∀ h : Holder, ReadBack r (holder h) []

/-- What is printed of a record determines it, with every identity registry. -/
theorem records_determined (r : Registry) : Determined r where
  of_request _ id id' q q' h :=
    request_inj (eq_of_render (readable_request r id q) (readable_request r id' q') h)
  of_approved _ id id' h h' heq :=
    approved_inj (eq_of_render (readable_approved r id h) (readable_approved r id' h') heq)
  of_token _ t t' h := token_inj (eq_of_render (readable_token t 126) (readable_token t' 126) h)
  of_holder _ h h' heq := holder_inj (eq_of_render (readable_holder h) (readable_holder h') heq)
  read_request := readBack_request r
  read_approved := readBack_approved r
  read_token t := readBack_ofMembers (readable_token t 126) (by simp) (List.forall_mem_nil _)
  read_holder h := readBack_ofMembers (readable_holder h) (by simp) (List.forall_mem_nil _)

end View

end TokenMarket
