import TokenMarket.Proofs.Reads

/-!
# Reads as inquiries

A read asks one question after the other, each under a root that is fetched
for it alone, and a question may depend on the replies before it.  This
module separates what is asked from how it is asked.

* An `Inquiry` is what a read asks: a tree with a question at every node and
  a branch for every reply.  `Inquiry.ofRead` is the inquiry of each read,
  and no node and no root occurs there.
* `Inquiry.pursue` asks the questions of an inquiry of a repository.

`read_eq_pursue` says that every read pursues its inquiry, over any lawful
monad.  What is to be shown of all reads at once, of their logs in
particular, is then shown of one question and carried over by induction on
the inquiry.
-/

namespace TokenMarket

/-- What can be asked of a node under a root. -/
inductive Question where
  | item (dictionary key : String)
  | namedKey (account : AccountHash) (path : List String)
deriving DecidableEq

/-- The type of what is replied. -/
abbrev Question.Reply : Question → Type
  | item _ _ => StoredValue
  | namedKey _ _ => Json

/-- Questions in a row, each of which may depend on the replies before it. -/
inductive Inquiry (α : Type) : Type where
  | done (result : Except Error α)
  | ask (q : Question) (next : q.Reply → Inquiry α)

namespace Inquiry

variable {α β : Type}

/-! ## What the reads ask -/

/-- Goes on with another inquiry. -/
def bind : Inquiry α → (α → Inquiry β) → Inquiry β
  | done (.ok a), f => f a
  | done (.error e), _ => done (.error e)
  | ask q next, f => ask q fun reply => (next reply).bind f

/-- Asks for an entry and decodes it. -/
def item (dictionary key : String) (decode : StoredValue → Except Error α) : Inquiry α :=
  ask (.item dictionary key) fun value => done (decode value)

def token (id : UInt64) : Inquiry Token :=
  item "metadatas" (Numeral.decimal id.toNat) (Content.decodeText "token" Token.decode)

def holder (id : UInt64) : Inquiry Holder :=
  (item "holders" (Numeral.decimal id.toNat) fun value => HolderRecord.decode value.bytes).bind
    fun record => (token record.tokenId).bind fun token => done (.ok ⟨record, token⟩)

def request (id : UInt64) : Inquiry Request :=
  item "request_objects" (Numeral.decimal id.toNat) (Content.decodeText "request" Request.decode)

def approved (id : UInt64) : Inquiry ApprovedHolding :=
  item "approved" (Numeral.decimal id.toNat) fun value => ApprovedHolding.decode value.bytes

def ids (list : AccountList) (account : AccountHash) : Inquiry (List UInt64) :=
  item (Content.listName list) account.hex fun value => IdList.decode value.parsed

/-- One inquiry for every id, in order. -/
def withIds (read : UInt64 → Inquiry α) : List UInt64 → Inquiry (List (UInt64 × α))
  | [] => done (.ok [])
  | id :: rest =>
    (read id).bind fun record => (withIds read rest).bind fun records =>
      done (.ok ((id, record) :: records))

/-- What a read asks. -/
def ofRead : (r : Read) → Inquiry r.Answer
  | .token id => token id
  | .holder id => holder id
  | .request id => request id
  | .approved id => approved id
  | .ids list account => ids list account
  | .namedKey account name => ask (.namedKey account [name]) fun value => done (.ok value)
  | .holdings account => (ids .holders account).bind (withIds holder)
  | .incoming account => (ids .producerRequests account).bind (withIds request)
  | .outgoing account => (ids .publisherRequests account).bind (withIds request)

/-- No read is answered without a question. -/
theorem ofRead_asks (r : Read) : ∃ q next, ofRead r = ask q next := by
  cases r <;> exact ⟨_, _, rfl⟩

end Inquiry

/-! ## Asking -/

namespace Repository

variable {m : Type → Type} [Monad m] (r : Repository m)

/-- Asks a question under a root that is fetched for it. -/
def answer : (q : Question) → ExceptT Error m q.Reply
  | .item dictionary key => r.lookup dictionary key
  | .namedKey account path => do
    let root ← r.node.currentRoot
    r.node.namedKey root account path

end Repository

namespace Inquiry

variable {m : Type → Type} [Monad m] {α β : Type}

/-- Asks the questions of an inquiry until there is a result.  The first
failure ends it. -/
def pursue (r : Repository m) : Inquiry α → ExceptT Error m α
  | done result => liftM result
  | ask q next => do
    let reply ← r.answer q
    pursue r (next reply)

variable [LawfulMonad m] (r : Repository m)

/-- A step without a question either goes on at once or is the end. -/
theorem liftM_bind (result : Except Error α) (f : α → ExceptT Error m β) :
    (liftM result >>= f : ExceptT Error m β) = match result with
      | .ok a => f a
      | .error e => liftM (Except.error e : Except Error β) := by
  apply ExceptT.ext
  cases result with
  | ok a => exact pure_bind _ _
  | error e => exact pure_bind _ _

theorem pursue_bind (x : Inquiry α) (f : α → Inquiry β) :
    (x.bind f).pursue r = x.pursue r >>= fun a => (f a).pursue r := by
  induction x with
  | done result =>
    rw [pursue, liftM_bind]
    cases result <;> rfl
  | ask q next ih => simp only [bind, pursue, bind_assoc, ih]

omit [LawfulMonad m] in
theorem pursue_item (dictionary key : String) (decode : StoredValue → Except Error α) :
    (item dictionary key decode).pursue r
      = r.lookup dictionary key >>= fun value => liftM (decode value) :=
  rfl

/-- Reading the text of an entry and decoding it are one step. -/
theorem liftM_decodeText (record : String) (decode : String → Except Error α)
    (value : StoredValue) :
    (do let text ← Repository.textOf record value; decode text : ExceptT Error m α)
      = liftM (Content.decodeText record decode value) := by
  rw [← Repository.textOf_bind]
  rw [liftM_bind]
  cases Repository.textOf record value <;> rfl

theorem token_pursue (id : UInt64) : r.token id = (token id).pursue r := by
  simp only [Repository.token, liftM_decodeText]
  rfl

theorem holder_pursue (id : UInt64) : r.holder id = (holder id).pursue r := by
  simp only [Repository.holder, holder, pursue_bind, pursue_item, bind_assoc, token_pursue]
  rfl

theorem request_pursue (id : UInt64) : r.request id = (request id).pursue r := by
  simp only [Repository.request, liftM_decodeText]
  rfl

omit [LawfulMonad m] in
theorem ids_pursue (list : AccountList) (account : AccountHash) :
    r.ids list account = (ids list account).pursue r := by
  cases list <;> rfl

theorem withIds_pursue {read : UInt64 → ExceptT Error m α} {asked : UInt64 → Inquiry α}
    (h : ∀ id, read id = (asked id).pursue r) (ids : List UInt64) :
    Repository.withIds read ids = (withIds asked ids).pursue r := by
  induction ids with
  | nil => rfl
  | cons id rest ih =>
    simp only [Repository.withIds, withIds, pursue_bind, h, ih]
    rfl

theorem listed_pursue {read : UInt64 → ExceptT Error m α} {asked : UInt64 → Inquiry α}
    (h : ∀ id, read id = (asked id).pursue r) (list : AccountList) (account : AccountHash) :
    r.listed list account read = ((ids list account).bind (withIds asked)).pursue r := by
  simp only [Repository.listed, pursue_bind, ids_pursue, withIds_pursue r h]

/-- Every read pursues its inquiry. -/
theorem read_eq_pursue (q : Read) : r.read q = (ofRead q).pursue r := by
  cases q with
  | token id => exact token_pursue r id
  | holder id => exact holder_pursue r id
  | request id => exact request_pursue r id
  | approved id => rfl
  | ids list account => exact ids_pursue r list account
  | namedKey account name =>
    exact (bind_pure (r.namedKey account name)).symm
  | holdings account => exact listed_pursue r (holder_pursue r) .holders account
  | incoming account => exact listed_pursue r (request_pursue r) .producerRequests account
  | outgoing account => exact listed_pursue r (request_pursue r) .publisherRequests account

end Inquiry

end TokenMarket
