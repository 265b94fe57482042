import TokenMarket.Proofs.Error
import TokenMarket.State.Repository

/-!
# Reads are a function of the content

A repository asks its node one question after the other, and what it
answers is put together from what the node said.  If the node always tells
the same content, the answer of a read is a function of that content: it
does not depend on the questions before, on the roots, or on anything else
that the node keeps.

This module says so once for every node, in three steps.

* `Content` is what a node can tell, and `Content.read` the answer of a
  read in terms of it.  No node and no monad occurs there.
* `Assurance` is a way to be sure of the answers of computations in a
  monad.  It asks for no more than the two rules by which computations are
  put together, so it fits a node in memory and a node behind a network.
* `Repository.Shows` says of a node that it tells a content, and
  `Repository.read_answers` goes through the reads over such a node.
-/

namespace TokenMarket

/-! ## The content -/

/-- What the dictionaries hold, and what named keys stand for. -/
structure Content where
  item : (dictionary key : String) → Option StoredValue
  namedKey : (account : AccountHash) → (path : List String) → Option Json

namespace Content

variable (c : Content)

/-- The entry of a dictionary, or that there is none. -/
def lookup (dictionary key : String) : Except Error StoredValue :=
  match c.item dictionary key with
  | some value => .ok value
  | none => .error (.notFound dictionary key)

/-- The value of a named key, or that there is none. -/
def namedKeyValue (account : AccountHash) (path : List String) : Except Error Json :=
  match c.namedKey account path with
  | some value => .ok value
  | none => .error (.notFound account.formatted (pathText path))

/-- The text of an entry, read by the decoder of its record. -/
def decodeText {α : Type} (record : String) (decode : String → Except Error α)
    (value : StoredValue) : Except Error α :=
  match value.parsed with
  | .string text => decode text
  | other => .error (.invalidField record "parsed" other.compact)

def token (id : UInt64) : Except Error Token := do
  let value ← c.lookup "metadatas" (Numeral.decimal id.toNat)
  decodeText "token" Token.decode value

def holder (id : UInt64) : Except Error Holder := do
  let value ← c.lookup "holders" (Numeral.decimal id.toNat)
  let record ← HolderRecord.decode value.bytes
  let token ← c.token record.tokenId
  return ⟨record, token⟩

def request (id : UInt64) : Except Error Request := do
  let value ← c.lookup "request_objects" (Numeral.decimal id.toNat)
  decodeText "request" Request.decode value

def approved (id : UInt64) : Except Error ApprovedHolding := do
  let value ← c.lookup "approved" (Numeral.decimal id.toNat)
  ApprovedHolding.decode value.bytes

/-- The dictionary of a list of ids. -/
def listName : AccountList → String
  | .producerRequests => "producer_requests"
  | .publisherRequests => "publiser_requests"
  | .holders => "owners"
  | .publisherApproved => "publishers_approved"
  | .producerApproved => "producers_approved"

def ids (list : AccountList) (account : AccountHash) : Except Error (List UInt64) := do
  let value ← c.lookup (listName list) account.hex
  IdList.decode value.parsed

/-- The record of every id, in order, or the first failure. -/
def withIds {α : Type} (read : UInt64 → Except Error α) :
    List UInt64 → Except Error (List (UInt64 × α))
  | [] => .ok []
  | id :: rest => do
    let record ← read id
    let records ← withIds read rest
    return (id, record) :: records

/-- The answer of a read. -/
def read : (r : Read) → Except Error r.Answer
  | .token id => c.token id
  | .holder id => c.holder id
  | .request id => c.request id
  | .approved id => c.approved id
  | .ids list account => c.ids list account
  | .namedKey account name => c.namedKeyValue account [name]
  | .holdings account => c.ids .holders account >>= withIds c.holder
  | .incoming account => c.ids .producerRequests account >>= withIds c.request
  | .outgoing account => c.ids .publisherRequests account >>= withIds c.request

end Content

/-! ## Being sure of an answer -/

/-- A way to be sure of the answers of computations.  `Ensures x P` says
that every answer of `x` has the property `P`. -/
structure Assurance (m : Type → Type) [Monad m] where
  Ensures : {α : Type} → m α → (α → Prop) → Prop
  ensures_pure : ∀ {α : Type} {a : α} {P : α → Prop}, P a → Ensures (pure a) P
  ensures_bind : ∀ {α β : Type} {x : m α} {f : α → m β} {P : α → Prop} {Q : β → Prop},
    Ensures x P → (∀ a, P a → Ensures (f a) Q) → Ensures (x >>= f) Q

namespace Assurance

/-- Over a state with an invariant: every answer from a state of the
invariant has the property, and the invariant is kept. -/
def keeping {σ : Type} (Inv : σ → Prop) : Assurance (StateM σ) where
  Ensures x P := ∀ s, Inv s → P (x s).1 ∧ Inv (x s).2
  ensures_pure := fun h _ hs => ⟨h, hs⟩
  ensures_bind := fun {_ _ x _ _ _} hx hf s hs =>
    have hstep := hx s hs
    hf (x s).1 hstep.1 (x s).2 hstep.2

variable {m : Type → Type} [Monad m] (A : Assurance m)

/-- With one more state on top, of which nothing is known. -/
def withState (σ : Type) : Assurance (StateT σ m) where
  Ensures x P := ∀ s, A.Ensures (x s) fun p => P p.1
  ensures_pure := fun h _ => A.ensures_pure h
  ensures_bind := fun hx hf s => A.ensures_bind (hx s) fun p hp => hf p.1 hp p.2

/-- The computation is sure to give this answer, or this failure. -/
def Answers {α : Type} (x : ExceptT Error m α) (a : Except Error α) : Prop :=
  A.Ensures x.run (· = a)

variable {A} {α β : Type}

/-- The rule for a step that can fail: a failure goes through to the end. -/
theorem ensures_step {x : ExceptT Error m α} {f : α → ExceptT Error m β}
    {P : Except Error α → Prop} {Q : Except Error β → Prop} (hx : A.Ensures x.run P)
    (hok : ∀ a, P (.ok a) → A.Ensures (f a).run Q)
    (herror : ∀ e, P (.error e) → Q (.error e)) : A.Ensures (x >>= f).run Q := by
  rw [ExceptT.run_bind]
  refine A.ensures_bind hx ?_
  intro a ha
  cases a with
  | ok a => exact hok a ha
  | error e => exact A.ensures_pure (herror e ha)

theorem answers_pure (a : α) : A.Answers (pure a) (.ok a) :=
  A.ensures_pure rfl

/-- A step without a question gives what it computes. -/
theorem answers_lift (a : Except Error α) : A.Answers (liftM a : ExceptT Error m α) a :=
  A.ensures_pure rfl

theorem answers_bind {x : ExceptT Error m α} {f : α → ExceptT Error m β} {a : Except Error α}
    {g : α → Except Error β} (hx : A.Answers x a) (hf : ∀ v, A.Answers (f v) (g v)) :
    A.Answers (x >>= f) (a >>= g) := by
  refine ensures_step hx ?_ ?_
  · rintro v rfl
    exact hf v
  · rintro e rfl
    rfl

end Assurance

/-! ## The reads -/

namespace Repository

open Assurance

variable {m : Type → Type} [Monad m] {A : Assurance m} {r : Repository m} {c : Content}

/-- The node of the repository tells a content.  It has a root at any time,
and what it says does not depend on the root that is asked of. -/
structure Shows (A : Assurance m) (r : Repository m) (c : Content) : Prop where
  root : A.Ensures r.node.currentRoot.run fun a => ∃ root, a = .ok root
  lookup : ∀ root dictionary key,
    A.Answers (r.node.lookup root r.contract dictionary key) (c.lookup dictionary key)
  namedKey : ∀ root account path,
    A.Answers (r.node.namedKey root account path) (c.namedKeyValue account path)

/-- A question of a root that was just fetched is answered as the question
is of any root. -/
theorem fetched_answers {α : Type} {ask : String → ExceptT Error m α} {a : Except Error α}
    (h : Shows A r c) (hask : ∀ root, A.Answers (ask root) a) :
    A.Answers (r.node.currentRoot >>= ask) a := by
  refine ensures_step h.root ?_ ?_
  · intro root _
    exact hask root
  · rintro e ⟨root, hroot⟩
    cases hroot

theorem lookup_answers (h : Shows A r c) (dictionary key : String) :
    A.Answers (r.lookup dictionary key) (c.lookup dictionary key) :=
  fetched_answers h fun root => h.lookup root dictionary key

theorem namedKey_answers (h : Shows A r c) (account : AccountHash) (name : String) :
    A.Answers (r.namedKey account name) (c.namedKeyValue account [name]) :=
  fetched_answers h fun root => h.namedKey root account [name]

theorem textOf_bind {α : Type} (record : String) (decode : String → Except Error α)
    (value : StoredValue) :
    (textOf record value >>= decode) = Content.decodeText record decode value := by
  cases h : value.parsed <;> simp [textOf, Content.decodeText, Json.text?, h]

theorem answers_text {α : Type} (record : String) (decode : String → Except Error α)
    (value : StoredValue) :
    A.Answers (do let text ← textOf record value; decode text : ExceptT Error m α)
      (Content.decodeText record decode value) := by
  rw [← textOf_bind]
  exact answers_bind (answers_lift _) fun text => answers_lift (decode text)

theorem token_answers (h : Shows A r c) (id : UInt64) : A.Answers (r.token id) (c.token id) :=
  answers_bind (lookup_answers h _ _) fun value => answers_text "token" Token.decode value

theorem holder_answers (h : Shows A r c) (id : UInt64) : A.Answers (r.holder id) (c.holder id) := by
  refine answers_bind (lookup_answers h _ _) fun value => ?_
  refine answers_bind (answers_lift _) fun record => ?_
  refine answers_bind (token_answers h record.tokenId) fun token => ?_
  exact answers_pure _

theorem request_answers (h : Shows A r c) (id : UInt64) :
    A.Answers (r.request id) (c.request id) :=
  answers_bind (lookup_answers h _ _) fun value => answers_text "request" Request.decode value

theorem approved_answers (h : Shows A r c) (id : UInt64) :
    A.Answers (r.approved id) (c.approved id) :=
  answers_bind (lookup_answers h _ _) fun _ => answers_lift _

theorem ids_answers (h : Shows A r c) (list : AccountList) (account : AccountHash) :
    A.Answers (r.ids list account) (c.ids list account) := by
  have hname : Dictionary.ofList list = Content.listName list := by
    cases list <;> rfl
  rw [ids, hname]
  exact answers_bind (lookup_answers h _ _) fun _ => answers_lift _

/-- The records of a list of ids, by induction over the list. -/
theorem withIds_answers {α : Type} {read : UInt64 → ExceptT Error m α}
    {pureRead : UInt64 → Except Error α} (h : ∀ id, A.Answers (read id) (pureRead id))
    (ids : List UInt64) : A.Answers (withIds read ids) (Content.withIds pureRead ids) := by
  induction ids with
  | nil => exact answers_pure []
  | cons id rest ih =>
    refine answers_bind (h id) fun record => ?_
    exact answers_bind ih fun records => answers_pure _

theorem listed_answers {α : Type} {read : UInt64 → ExceptT Error m α}
    {pureRead : UInt64 → Except Error α} (h : Shows A r c)
    (hread : ∀ id, A.Answers (read id) (pureRead id)) (list : AccountList)
    (account : AccountHash) :
    A.Answers (r.listed list account read) (c.ids list account >>= Content.withIds pureRead) :=
  answers_bind (ids_answers h list account) fun ids => withIds_answers hread ids

/-- All reads are answered from the content. -/
theorem read_answers (h : Shows A r c) (q : Read) : A.Answers (r.read q) (c.read q) := by
  cases q with
  | token id => exact token_answers h id
  | holder id => exact holder_answers h id
  | request id => exact request_answers h id
  | approved id => exact approved_answers h id
  | ids list account => exact ids_answers h list account
  | namedKey account name => exact namedKey_answers h account name
  | holdings account => exact listed_answers h (holder_answers h) .holders account
  | incoming account => exact listed_answers h (request_answers h) .producerRequests account
  | outgoing account => exact listed_answers h (request_answers h) .publisherRequests account

/-! ## Reads in a row -/

/-- A read together with its answer. -/
abbrev Answered := (q : Read) × Except Error q.Answer

/-- Answers reads one after the other.  A failure does not end the row. -/
def readAll (r : Repository m) : List Read → m (List Answered)
  | [] => return []
  | q :: rest => do
    let answer ← (r.read q).run
    let answers ← readAll r rest
    return ⟨q, answer⟩ :: answers

/-- All answers in a row are those of the content. -/
theorem readAll_ensures (h : Shows A r c) (reads : List Read) :
    A.Ensures (r.readAll reads) (· = reads.map fun q => ⟨q, c.read q⟩) := by
  induction reads with
  | nil => exact A.ensures_pure rfl
  | cons q rest ih =>
    refine A.ensures_bind (read_answers h q) ?_
    rintro answer rfl
    refine A.ensures_bind ih ?_
    rintro answers rfl
    exact A.ensures_pure rfl

end Repository

end TokenMarket
