import Mathlib.Data.List.Forall2
import TokenMarket.Proofs.FreshRoots
import TokenMarket.Proofs.RecordFaults

/-!
# Composite reads walk along a list

A composite read fetches a list of ids of an account and then reads the record of each,
in the order of the list.  This module says what such a read of a node in memory answers
and what it looks up, for every content of the node: all records if all can be read, and
otherwise the first failure, with nothing looked up behind it.

There are four groups.

* Inquiries in a row.  `result_bind` and `questions_bind` take the answer and the questions
  of a composite inquiry apart.
* Rows of ids.  `withIds_eq_ok_iff` and `withIds_eq_error_iff` say what reading along a row
  comes to, and `trail` is what is visited on the way.  `trail_append` is its law: behind
  ids that can be read the walk goes on.
* Walks.  `Walk` puts the two together, and `walk_listed` is the walk along any list.
* The node.  `holder_questions` says what one holding looks up, and `read_failsAs` carries
  the faults of a record over to the node.  `composite_walks` is the result.
-/

namespace TokenMarket

/-! ## Inquiries in a row -/

namespace Inquiry

variable {α β : Type} (c : Content)

theorem result_item (dictionary key : String) (decode : StoredValue → Except Error α) :
    (item dictionary key decode).result c = c.lookup dictionary key >>= decode := by
  simp only [item, result, Content.reply]
  cases c.lookup dictionary key <;> rfl

/-- An entry that is decoded is the only question. -/
theorem questions_item (dictionary key : String) (decode : StoredValue → Except Error α) :
    (item dictionary key decode).questions c = [.item dictionary key] := by
  simp only [item, questions]
  split <;> rfl

theorem result_bind (x : Inquiry α) (f : α → Inquiry β) :
    (x.bind f).result c = x.result c >>= fun a => (f a).result c := by
  induction x with
  | done result => cases result <;> rfl
  | ask q next ih =>
    simp only [bind, result]
    cases c.reply q with
    | ok reply => exact ih reply
    | error e => rfl

/-- What follows a result is asked behind the questions that led to it, and not at all
if they led to a failure. -/
theorem questions_bind (x : Inquiry α) (f : α → Inquiry β) :
    (x.bind f).questions c = x.questions c ++ match x.result c with
      | .ok a => (f a).questions c
      | .error _ => [] := by
  induction x with
  | done result => cases result <;> rfl
  | ask q next ih =>
    simp only [bind, questions, result]
    cases c.reply q with
    | ok reply => exact congrArg (q :: ·) (ih reply)
    | error e => rfl

theorem result_withIds (asked : UInt64 → Inquiry α) (ids : List UInt64) :
    (withIds asked ids).result c = Content.withIds (fun id => (asked id).result c) ids := by
  induction ids with
  | nil => rfl
  | cons id rest ih =>
    simp only [withIds, Content.withIds, result_bind, ih]
    rfl

end Inquiry

/-! ## Rows of ids -/

section Rows

variable {α β : Type} {read : UInt64 → Except Error α} {visits : UInt64 → List β}
  {ids front back : List UInt64} {id : UInt64} {e : Error}

/-- Of the ids in a row, the one behind `front` is the first that cannot be read. -/
structure FailsFirst (read : UInt64 → Except Error α) (ids front : List UInt64) (id : UInt64)
    (e : Error) : Prop where
  split : ∃ back, ids = front ++ id :: back
  before : ∀ i ∈ front, ∃ a, read i = .ok a
  failure : read id = .error e

/-- A row is read if each of its ids is, and the answer pairs each id with its record. -/
theorem withIds_eq_ok_iff {pairs : List (UInt64 × α)} :
    Content.withIds read ids = .ok pairs
      ↔ List.Forall₂ (fun id pair => pair.1 = id ∧ read id = .ok pair.2) ids pairs := by
  induction ids generalizing pairs with
  | nil => simp [Content.withIds, eq_comm]
  | cons id rest ih =>
    simp only [Content.withIds, Error.bind_eq_ok_iff, List.forall₂_cons_left_iff, ih]
    constructor
    · rintro ⟨record, hrecord, records, hrecords, hpairs⟩
      exact ⟨(id, record), records, ⟨rfl, hrecord⟩, hrecords, (Except.ok.inj hpairs).symm⟩
    · rintro ⟨⟨_, record⟩, records, ⟨rfl, hrecord⟩, hrecords, rfl⟩
      exact ⟨record, hrecord, records, hrecords, rfl⟩

/-- Behind an id that can be read, the first failure is that of the rest. -/
theorem failsFirst_cons {a : α} {rest : List UInt64} (h : read id = .ok a) {last : UInt64} :
    (∃ front, FailsFirst read (id :: rest) front last e)
      ↔ ∃ front, FailsFirst read rest front last e := by
  constructor
  · rintro ⟨front, ⟨back, hsplit⟩, hbefore, hfailure⟩
    cases front with
    | nil =>
      obtain ⟨rfl, -⟩ := List.cons.inj hsplit
      rw [h] at hfailure
      cases hfailure
    | cons first front =>
      exact ⟨front, ⟨back, (List.cons.inj hsplit).2⟩,
        fun i hi => hbefore i (List.mem_cons_of_mem first hi), hfailure⟩
  · rintro ⟨front, ⟨back, rfl⟩, hbefore, hfailure⟩
    exact ⟨id :: front, ⟨back, rfl⟩, List.forall_mem_cons.2 ⟨⟨a, h⟩, hbefore⟩, hfailure⟩

theorem failsFirst_head {why : Error} {rest : List UInt64} (h : read id = .error why) :
    (∃ front last, FailsFirst read (id :: rest) front last e) ↔ why = e := by
  constructor
  · rintro ⟨front, last, ⟨back, hsplit⟩, hbefore, hfailure⟩
    cases front with
    | nil =>
      obtain ⟨rfl, -⟩ := List.cons.inj hsplit
      exact Except.error.inj (h.symm.trans hfailure)
    | cons first front =>
      obtain ⟨rfl, -⟩ := List.cons.inj hsplit
      obtain ⟨a, ha⟩ := hbefore id List.mem_cons_self
      rw [h] at ha
      cases ha
  · rintro rfl
    exact ⟨[], id, ⟨rest, rfl⟩, by simp, h⟩

/-- A row that is not read fails as its first id that cannot be read. -/
theorem withIds_eq_error_iff :
    Content.withIds read ids = .error e ↔ ∃ front id, FailsFirst read ids front id e := by
  induction ids with
  | nil =>
    constructor
    · intro h
      cases h
    · rintro ⟨front, id, ⟨back, hsplit⟩, -, -⟩
      cases front <;> cases hsplit
  | cons id rest ih =>
    rw [Content.withIds]
    cases hread : read id with
    | error why =>
      rw [Error.error_bind, failsFirst_head hread, Except.error.injEq]
    | ok record =>
      rw [Error.ok_bind, exists_comm]
      simp only [failsFirst_cons hread]
      rw [exists_comm, ← ih]
      cases Content.withIds read rest with
      | ok records => simp [pure, Except.pure]
      | error why => simp

/-- What is visited along a row of ids.  Reading an id visits some places, and the next id
is gone to only if it was read. -/
def trail (read : UInt64 → Except Error α) (visits : UInt64 → List β) : List UInt64 → List β
  | [] => []
  | id :: rest => visits id ++ match read id with
    | .ok _ => trail read visits rest
    | .error _ => []

/-- Behind ids that can be read the walk goes on. -/
theorem trail_append (h : ∀ i ∈ front, ∃ a, read i = .ok a) (back : List UInt64) :
    trail read visits (front ++ back) = front.flatMap visits ++ trail read visits back := by
  induction front with
  | nil => rfl
  | cons id rest ih =>
    obtain ⟨⟨a, ha⟩, hrest⟩ := List.forall_mem_cons.1 h
    rw [List.cons_append, trail, ha, ih hrest, List.flatMap_cons, List.append_assoc]

/-- If all ids can be read, all of them are visited. -/
theorem trail_of_ok (h : ∀ i ∈ ids, ∃ a, read i = .ok a) :
    trail read visits ids = ids.flatMap visits := by
  have hall : trail read visits (ids ++ []) = ids.flatMap visits ++ trail read visits [] :=
    trail_append h []
  rwa [List.append_nil, trail, List.append_nil] at hall

/-- Nothing is visited behind the first id that cannot be read. -/
theorem trail_of_failsFirst (h : FailsFirst read ids front id e) :
    trail read visits ids = front.flatMap visits ++ visits id := by
  obtain ⟨back, rfl⟩ := h.split
  rw [trail_append h.before, trail, h.failure, List.append_nil]

end Rows

/-! ## Walks -/

/-- A walk along a list of ids.  The list answers `listed` and one id answers `read`, and
`visits` is what is looked up for one id.  The walk itself answers `answer`, and `looked` is
all that is looked up behind the list. -/
structure Walk {α : Type} (listed : Except Error (List UInt64)) (read : UInt64 → Except Error α)
    (visits : UInt64 → List (String × String)) (answer : Except Error (List (UInt64 × α)))
    (looked : List (String × String)) : Prop where
  ok_iff : ∀ pairs, answer = .ok pairs ↔ ∃ ids, listed = .ok ids
    ∧ List.Forall₂ (fun id pair => pair.1 = id ∧ read id = .ok pair.2) ids pairs
  error_iff : ∀ e, answer = .error e ↔ listed = .error e
    ∨ ∃ ids front id, listed = .ok ids ∧ FailsFirst read ids front id e
  unlisted : ∀ e, listed = .error e → looked = []
  complete : ∀ ids, listed = .ok ids → (∀ id ∈ ids, ∃ a, read id = .ok a) →
    looked = ids.flatMap visits
  stopped : ∀ ids front id e, listed = .ok ids → FailsFirst read ids front id e →
    looked = front.flatMap visits ++ visits id

section

variable {α : Type} {listed : Except Error (List UInt64)} {read : UInt64 → Except Error α}
  {visits : UInt64 → List (String × String)}

/-- What is looked up behind a list. -/
def trailBehind (listed : Except Error (List UInt64)) (read : UInt64 → Except Error α)
    (visits : UInt64 → List (String × String)) : List (String × String) :=
  match listed with
  | .ok ids => trail read visits ids
  | .error _ => []

/-- The list is followed, and the rest is up to its ids. -/
theorem walk_trail :
    Walk listed read visits (listed >>= Content.withIds read) (trailBehind listed read visits) where
  ok_iff pairs := by
    rw [Error.bind_eq_ok_iff]
    simp only [withIds_eq_ok_iff]
  error_iff e := by
    cases listed with
    | error why => simp
    | ok ids => simp [withIds_eq_error_iff]
  unlisted e h := by rw [h, trailBehind]
  complete ids h hall := by
    rw [h, trailBehind]
    exact trail_of_ok hall
  stopped ids front id e h hfails := by
    rw [h, trailBehind]
    exact trail_of_failsFirst hfails

/-- What the list and its ids answer determines the answer of a walk. -/
theorem Walk.answer_unique {answer other : Except Error (List (UInt64 × α))}
    {looked passed : List (String × String)} (h : Walk listed read visits answer looked)
    (hother : Walk listed read visits other passed) : answer = other := by
  cases answer with
  | ok pairs => exact ((hother.ok_iff pairs).2 ((h.ok_iff pairs).1 rfl)).symm
  | error e => exact ((hother.error_iff e).2 ((h.error_iff e).1 rfl)).symm

end

/-! ## The node -/

namespace Memory

variable (contract : ContractHash) (s : Memory)

/-- The question for an entry of a dictionary. -/
def entryQuestion (entry : String × String) : Question := .item entry.1 entry.2

/-- The blocks of a read that looks up entries.  A node out of order refuses the first root,
and no entry is looked up. -/
def entryBlocks (entries : List (String × String)) : List Block :=
  if s.failing then [.refused] else (entries.map entryQuestion).map .asked

/-- What is looked up to read a holding: its record, and the token that the record names if
it can be decoded. -/
def holderVisits (id : UInt64) : List (String × String) :=
  ("holders", Numeral.decimal id.toNat) ::
    match s.item? "holders" (Numeral.decimal id.toNat) with
    | none => []
    | some value => match HolderRecord.decode value.bytes with
      | .ok record => [("metadatas", Numeral.decimal record.tokenId.toNat)]
      | .error _ => []

/-- What is looked up to read a request: its record. -/
def requestVisits (id : UInt64) : List (String × String) :=
  [("request_objects", Numeral.decimal id.toNat)]

/-- The token is asked for behind a record that can be decoded. -/
theorem holder_questions (id : UInt64) :
    (Inquiry.holder id).questions s.content = (s.holderVisits id).map entryQuestion := by
  have htoken : ∀ record : HolderRecord, ((Inquiry.token record.tokenId).bind fun token =>
      Inquiry.done (.ok (⟨record, token⟩ : Holder))).questions s.content
      = [.item "metadatas" (Numeral.decimal record.tokenId.toNat)] := by
    intro record
    rw [Inquiry.questions_bind, Inquiry.token, Inquiry.questions_item]
    split <;> rfl
  rw [Inquiry.holder, Inquiry.questions_bind, Inquiry.questions_item, Inquiry.result_item,
    Content.lookup]
  simp only [htoken, holderVisits, List.map_cons]
  have hitem : s.content.item = s.item? := rfl
  rw [hitem]
  cases s.item? "holders" (Numeral.decimal id.toNat) with
  | none => rfl
  | some value =>
    simp only [Error.ok_bind]
    cases HolderRecord.decode value.bytes <;> rfl

theorem request_questions (id : UInt64) :
    (Inquiry.request id).questions s.content = (requestVisits id).map entryQuestion :=
  Inquiry.questions_item _ _ _ _

variable {α : Type} {asked : UInt64 → Inquiry α} {visits : UInt64 → List (String × String)}

/-- The questions along a row of ids, given those of each. -/
theorem withIds_questions (hvisits : ∀ id, (asked id).questions s.content
      = (visits id).map entryQuestion) (ids : List UInt64) :
    (Inquiry.withIds asked ids).questions s.content
      = (trail (fun id => (asked id).result s.content) visits ids).map entryQuestion := by
  induction ids with
  | nil => rfl
  | cons id rest ih =>
    rw [Inquiry.withIds, Inquiry.questions_bind, hvisits, trail, List.map_append]
    congr 1
    cases (asked id).result s.content with
    | error e => rfl
    | ok record =>
      simp only [Inquiry.questions_bind, ih]
      split <;> simp [Inquiry.questions]

theorem ids_questions (c : Content) (list : AccountList) (account : AccountHash) :
    (Inquiry.ids list account).questions c
      = [entryQuestion (Content.listName list, account.hex)] :=
  Inquiry.questions_item _ _ _ _

/-- The questions of a read that follows a list: the list, and what is behind it. -/
theorem listed_questions (list : AccountList) (account : AccountHash)
    (hvisits : ∀ id, (asked id).questions s.content = (visits id).map entryQuestion) :
    ((Inquiry.ids list account).bind (Inquiry.withIds asked)).questions s.content
      = ((Content.listName list, account.hex) :: trailBehind
          ((Inquiry.ids list account).result s.content) (fun id => (asked id).result s.content)
          visits).map entryQuestion := by
  rw [Inquiry.questions_bind, ids_questions, List.map_cons, List.singleton_append]
  congr 1
  cases (Inquiry.ids list account).result s.content with
  | ok ids => exact withIds_questions s hvisits ids
  | error e => rfl

/-- The log of the node lists the entries that were looked up. -/
theorem lookups_afterBlocks (s : Memory) (entries : List (String × String)) :
    (s.afterBlocks ((entries.map entryQuestion).map .asked)).lookups = s.lookups ++ entries := by
  induction entries generalizing s with
  | nil => rw [List.map_nil, List.map_nil, afterBlocks_nil, List.append_nil]
  | cons entry rest ih =>
    have hfirst : (s.afterBlocks [.asked (entryQuestion entry)]).lookups = s.lookups ++ [entry] := by
      simp [lookups, afterBlocks, Block.log, entryQuestion, Call.ofQuestion]
    rw [List.map_cons, List.map_cons, ← List.singleton_append, afterBlocks_append, ih, hfirst,
      List.append_assoc, List.singleton_append]

/-- A run of a node walks along a list, and its log shows the walk: the list itself is looked
up first, each entry has its own root, and nothing else is asked. -/
structure Walks {α : Type} (s : Memory) (entry : String × String)
    (listed : Except Error (List UInt64)) (read : UInt64 → Except Error α)
    (visits : UInt64 → List (String × String))
    (run : Except Error (List (UInt64 × α)) × Memory) (looked : List (String × String)) : Prop where
  walk : Walk listed read visits run.1 looked
  calls : run.2.calls = s.calls ++ Block.log s.roots (s.entryBlocks (entry :: looked))
  lookups : run.2.lookups = s.lookups ++ if s.failing then [] else entry :: looked

/-- A read that follows a list of an account walks along it. -/
theorem walks_listed (list : AccountList) (account : AccountHash)
    (hvisits : ∀ id, (asked id).questions s.content = (visits id).map entryQuestion) :
    ∃ looked, Walks s (Content.listName list, account.hex)
      (((Inquiry.ids list account).pursue (repository contract)).run s).1
      (fun id => (((asked id).pursue (repository contract)).run s).1) visits
      ((((Inquiry.ids list account).bind (Inquiry.withIds asked)).pursue
        (repository contract)).run s) looked := by
  cases hfailing : s.failing with
  | true =>
    have hids : ((Inquiry.ids list account).pursue (repository contract)).run s
        = (.error outOfOrder, s.afterBlocks [.refused]) := pursue_failing contract _ _ s hfailing
    have hrun : (((Inquiry.ids list account).bind (Inquiry.withIds asked)).pursue
          (repository contract)).run s
        = (.error outOfOrder, s.afterBlocks [.refused]) := pursue_failing contract _ _ s hfailing
    rw [hids, hrun]
    refine ⟨[], walk_trail, ?_, ?_⟩
    · rw [entryBlocks, if_pos hfailing]
      rfl
    · simp [lookups, afterBlocks, hfailing, Block.log]
  | false =>
    have hread : (fun id => (((asked id).pursue (repository contract)).run s).1)
        = fun id => (asked id).result s.content := by
      funext id
      rw [pursue_run contract _ s hfailing]
    have hanswer : ((Inquiry.ids list account).bind (Inquiry.withIds asked)).result s.content
        = (Inquiry.ids list account).result s.content
          >>= Content.withIds fun id => (asked id).result s.content := by
      simp only [Inquiry.result_bind, Inquiry.result_withIds]
    rw [pursue_run contract _ s hfailing, pursue_run contract _ s hfailing, hread, hanswer,
      listed_questions s list account hvisits]
    refine ⟨_, walk_trail, ?_, ?_⟩
    · rw [entryBlocks, if_neg (by simp [hfailing])]
      rfl
    · rw [lookups_afterBlocks, if_neg (by simp [hfailing])]

/-- What a node in order can complain about, and its own complaint, is all that a read of it
fails with. -/
theorem read_failsAs {P : Error → Prop} {q : Read} (hdown : P outOfOrder)
    (h : Error.FailsAs P (s.content.read q)) :
    Error.FailsAs P (((repository contract).read q).run s).1 := by
  cases hfailing : s.failing with
  | true =>
    obtain ⟨question, next, hasks⟩ := Inquiry.ofRead_asks q
    rw [Inquiry.read_eq_pursue, hasks, pursue_failing contract question next s hfailing]
    exact Error.failsAs_error hdown
  | false =>
    have hanswer : (((repository contract).read q).run s).1 = s.content.read q :=
      (read_run contract s hfailing q).1
    rw [hanswer]
    exact h

/-- A composite read of a node in memory is an exact walk along its list.  It has an answer
if the list and every record on it has one, with each id and its record in the order of the
list; otherwise it fails as the first of them, and nothing is looked up behind that.  What
fails is the node, an entry, or the record of an entry.  Since requests to an account and
requests of an account are read alike, equal lists of ids lead to equal answers. -/
theorem composite_walks :
    let run := fun q : Read => ((repository contract).read q).run s
    (∀ account, ∃ looked, Walks s ("owners", account.hex) (run (.ids .holders account)).1
        (fun id => (run (.holder id)).1) s.holderVisits (run (.holdings account)) looked)
      ∧ (∀ account, ∃ looked, Walks s ("producer_requests", account.hex)
        (run (.ids .producerRequests account)).1 (fun id => (run (.request id)).1) requestVisits
        (run (.incoming account)) looked)
      ∧ (∀ account, ∃ looked, Walks s ("publiser_requests", account.hex)
        (run (.ids .publisherRequests account)).1 (fun id => (run (.request id)).1) requestVisits
        (run (.outgoing account)) looked)
      ∧ (∀ list account, Error.FailsAs (EntryFault (Content.listName list) "id list")
        (run (.ids list account)).1)
      ∧ (∀ id, Error.FailsAs (fun e => EntryFault "holders" "holder" e
        ∨ EntryFault "metadatas" "token" e) (run (.holder id)).1)
      ∧ (∀ id, Error.FailsAs (EntryFault "request_objects" "request") (run (.request id)).1)
      ∧ ∀ producer publisher, (run (.ids .producerRequests producer)).1
          = (run (.ids .publisherRequests publisher)).1 →
        (run (.incoming producer)).1 = (run (.outgoing publisher)).1 := by
  intro run
  have hrun : ∀ q, run q = ((Inquiry.ofRead q).pursue (repository contract)).run s := by
    intro q
    rw [← Inquiry.read_eq_pursue]
  have hincoming : ∀ account, ∃ looked, Walks s ("producer_requests", account.hex)
      (run (.ids .producerRequests account)).1 (fun id => (run (.request id)).1) requestVisits
      (run (.incoming account)) looked := by
    intro account
    simp only [hrun]
    exact walks_listed contract s .producerRequests account (request_questions s)
  have houtgoing : ∀ account, ∃ looked, Walks s ("publiser_requests", account.hex)
      (run (.ids .publisherRequests account)).1 (fun id => (run (.request id)).1) requestVisits
      (run (.outgoing account)) looked := by
    intro account
    simp only [hrun]
    exact walks_listed contract s .publisherRequests account (request_questions s)
  refine ⟨?_, hincoming, houtgoing, ?_, ?_, ?_, ?_⟩
  · intro account
    simp only [hrun]
    exact walks_listed contract s .holders account (holder_questions s)
  · intro list account
    exact read_failsAs contract s (.unavailable _) (s.content.ids_failsAs list account)
  · intro id
    exact read_failsAs contract s (Or.inl (.unavailable _)) (s.content.holder_failsAs id)
  · intro id
    exact read_failsAs contract s (.unavailable _) (s.content.request_failsAs id)
  · intro producer publisher hlists
    obtain ⟨_, hproducer⟩ := hincoming producer
    obtain ⟨_, hpublisher⟩ := houtgoing publisher
    have hwalk := hproducer.walk
    rw [hlists] at hwalk
    exact hwalk.answer_unique hpublisher.walk

end Memory

end TokenMarket
