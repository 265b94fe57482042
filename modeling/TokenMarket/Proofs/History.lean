import TokenMarket.Proofs.IdListRecord
import TokenMarket.Proofs.Reads
import TokenMarket.State.Memory

/-!
# What a node in memory answers after any history

A node in memory is filled and read in turns.  It keeps a log, it counts
the roots that it handed out, and it never forgets an entry that another
one replaced, so there is much that a read could see and must not.  This
module shows that a read sees one thing only: what was put last under the
key that it asks for.

There are three groups.

* Histories.  A `Step` puts something into the node or reads from it, and
  `play` runs the steps and collects the answers.  `Content.after` is the
  content that a history leaves, said without any node: of each key the
  last entry counts.
* The step lemmas.  `Content.item_after` says that an entry stays until it
  is replaced, so that a list of ids is read as it was put in
  (`Content.ids_after`).  `content_apply` is the case of a step that puts
  something in, and `Memory.shows` that of a step that reads.
* The run.  `play_state` follows a whole history by induction, and
  `play_answer` is the answer of any read in it.
-/

namespace TokenMarket

/-! ## Histories -/

/-- Something that is put into a node. -/
inductive Seeding where
  | item (dictionary key : String) (value : StoredValue)
  | text (dictionary key content : String)
  | bytes (dictionary key hex : String)
  | ids (dictionary key : String) (list : List UInt64)
  | namedKey (account : AccountHash) (path : List String) (value : Json)

/-- A step of a history. -/
inductive Step where
  | seed (s : Seeding)
  | read (q : Read)

namespace Seeding

/-- The node with it. -/
def apply (s : Memory) : Seeding → Memory
  | .item dictionary key value => s.insert dictionary key value
  | .text dictionary key content => s.insertText dictionary key content
  | .bytes dictionary key hex => s.insertBytes dictionary key hex
  | .ids dictionary key list => s.insertIds dictionary key list
  | .namedKey account path value => s.insertNamedKey account path value

/-- The dictionary, the key and the entry that is put there. -/
def entry? : Seeding → Option (String × String × StoredValue)
  | .item dictionary key value => some (dictionary, key, value)
  | .text dictionary key content => some (dictionary, key, .ofText content)
  | .bytes dictionary key hex => some (dictionary, key, .ofBytes hex)
  | .ids dictionary key list => some (dictionary, key, .ofValue "List<U64>" (IdList.encode list))
  | .namedKey _ _ _ => none

end Seeding

namespace Step

/-- Whether the step is a read. -/
def isRead : Step → Bool
  | .seed _ => false
  | .read _ => true

/-- The entry that the step puts under exactly this key. -/
def item? (dictionary key : String) : Step → Option StoredValue
  | .seed s =>
    match s.entry? with
    | some (d, k, value) => if d = dictionary ∧ k = key then some value else none
    | none => none
  | .read _ => none

/-- The value that the step gives to exactly this named key. -/
def namedKey? (account : AccountHash) (path : List String) : Step → Option Json
  | .seed (.namedKey a p value) => if a = account ∧ p = path then some value else none
  | _ => none

end Step

/-- The content after a history: under each key what was put there last,
or else what was there before. -/
def Content.after (c : Content) (steps : List Step) : Content where
  item dictionary key :=
    (steps.reverse.findSome? (Step.item? dictionary key)).or (c.item dictionary key)
  namedKey account path :=
    (steps.reverse.findSome? (Step.namedKey? account path)).or (c.namedKey account path)

/-- Runs a history and collects the answers of its reads. -/
def play (r : Repository (StateM Memory)) : List Step → StateM Memory (List Repository.Answered)
  | [] => return []
  | .seed s :: rest => do
    modify s.apply
    play r rest
  | .read q :: rest => do
    let answer ← (r.read q).run
    let answers ← play r rest
    return ⟨q, answer⟩ :: answers

/-! ## One step -/

namespace Content

theorem after_nil (c : Content) : c.after [] = c := by
  simp [after]

theorem after_cons (c : Content) (step : Step) (rest : List Step) :
    c.after (step :: rest) = (c.after [step]).after rest := by
  simp [after, List.findSome?_append, Option.or_assoc]

/-- A read leaves the content as it is. -/
theorem after_read (c : Content) (q : Read) : c.after [.read q] = c := by
  simp [after, Step.item?, Step.namedKey?]

/-- What was put under a key stays there until something else is put there. -/
theorem item_after {dictionary key : String} {step : Step} {value : StoredValue} {rest : List Step}
    (hstep : step.item? dictionary key = some value)
    (hrest : ∀ later ∈ rest, later.item? dictionary key = none) (c : Content)
    (before : List Step) :
    (c.after (before ++ step :: rest)).item dictionary key = some value := by
  have hnone : rest.reverse.findSome? (Step.item? dictionary key) = none :=
    List.findSome?_eq_none_iff.2 fun later hlater => hrest later (List.mem_reverse.1 hlater)
  simp [after, List.findSome?_append, hnone, hstep]

/-- The ids that were put in for an account are read back, whatever else was put in. -/
theorem ids_after {list : AccountList} {account : AccountHash} {rest : List Step}
    (hrest : ∀ later ∈ rest, later.item? (listName list) account.hex = none) (c : Content)
    (before : List Step) (ids : List UInt64) :
    (c.after (before ++ .seed (.ids (listName list) account.hex ids) :: rest)).read
      (.ids list account) = .ok ids := by
  have hstep : Step.item? (listName list) account.hex
      (.seed (.ids (listName list) account.hex ids))
        = some (.ofValue "List<U64>" (IdList.encode ids)) := if_pos ⟨rfl, rfl⟩
  have hitem := item_after hstep hrest c before
  rw [read, Content.ids, lookup, hitem]
  exact IdList.decode_encode ids

end Content

namespace Memory

/-- What the node can tell. -/
def content (s : Memory) : Content := ⟨s.item?, s.namedKey?⟩

/-- The first entry of a list of entries either has the key, or does not
count. -/
theorem lookup_cons_pair {α β γ : Type} [BEq α] [LawfulBEq α] [DecidableEq α] [BEq β]
    [LawfulBEq β] [DecidableEq β] (a x : α) (b y : β) (v : γ) (rest : List ((α × β) × γ)) :
    List.lookup (a, b) (((x, y), v) :: rest)
      = if x = a ∧ y = b then some v else List.lookup (a, b) rest := by
  by_cases h : x = a ∧ y = b
  · obtain ⟨rfl, rfl⟩ := h
    simp
  · have hne : ((a, b) == (x, y)) = false := by
      rw [beq_eq_false_iff_ne]
      intro heq
      injection heq with ha hb
      exact h ⟨ha.symm, hb.symm⟩
    rw [if_neg h, List.lookup_cons, hne]

theorem item?_insert (s : Memory) (dictionary key d k : String) (value : StoredValue) :
    (s.insert d k value).item? dictionary key
      = if d = dictionary ∧ k = key then some value else s.item? dictionary key :=
  lookup_cons_pair dictionary d key k value s.items

theorem namedKey?_insertNamedKey (s : Memory) (account a : AccountHash) (path p : List String)
    (value : Json) :
    (s.insertNamedKey a p value).namedKey? account path
      = if a = account ∧ p = path then some value else s.namedKey? account path :=
  lookup_cons_pair account a path p value s.namedKeys

/-- An entry changes what its dictionary holds under its key, and nothing
else. -/
theorem content_insert (s : Memory) (d k : String) (value : StoredValue) :
    (s.insert d k value).content = s.content.after [.seed (.item d k value)] := by
  have hitem : (s.insert d k value).item?
      = fun dictionary key => if d = dictionary ∧ k = key then some value
        else s.item? dictionary key := by
    funext dictionary key
    exact item?_insert s dictionary key d k value
  have hkeys : (s.insert d k value).namedKey? = s.namedKey? := rfl
  simp only [content, hitem, hkeys, Content.after, List.reverse_singleton,
    List.findSome?_cons, List.findSome?_nil, Step.item?, Step.namedKey?, Seeding.entry?]
  congr 1
  funext dictionary key
  split <;> rfl

/-- What is put in changes the content by the one entry that it is. -/
theorem content_apply (s : Memory) (x : Seeding) :
    (x.apply s).content = s.content.after [.seed x] := by
  cases x with
  | item d k value => exact content_insert s d k value
  | text d k t => exact content_insert s d k (.ofText t)
  | bytes d k hex => exact content_insert s d k (.ofBytes hex)
  | ids d k list => exact content_insert s d k (.ofValue "List<U64>" (IdList.encode list))
  | namedKey a p value =>
    have hkeys : (s.insertNamedKey a p value).namedKey?
        = fun account path => if a = account ∧ p = path then some value
          else s.namedKey? account path := by
      funext account path
      exact namedKey?_insertNamedKey s account a path p value
    have hitem : (s.insertNamedKey a p value).item? = s.item? := rfl
    simp only [Seeding.apply, content, hitem, hkeys, Content.after, List.reverse_singleton,
      List.findSome?_cons, List.findSome?_nil, Step.item?, Step.namedKey?, Seeding.entry?]
    congr 1
    funext account path
    split <;> rfl

/-- What a node in order answers comes from its content, and its content
stays. -/
def Holds (c : Content) (s : Memory) : Prop :=
  s.failing = false ∧ s.content = c

/-- A question to a node in order is logged, which no content depends on,
and answered. -/
theorem ask_ensures {c : Content} {α : Type} {call : Call}
    {answer : Memory → Except Error α × Memory} {P : Except Error α → Prop}
    (h : ∀ s, Holds c s → P (answer s).1 ∧ Holds c (answer s).2) :
    (Assurance.keeping (Holds c)).Ensures (ask call answer).run P := by
  intro s hs
  have hlog : Holds c (s.log call) := hs
  have hrun : (ask call answer).run s = answer (s.log call) := by
    simp [ask, ExceptT.run, hlog.1]
  rw [hrun]
  exact h (s.log call) hlog

/-- A node in order tells its content, and keeps it. -/
theorem shows (c : Content) (contract : ContractHash) :
    Repository.Shows (Assurance.keeping (Holds c)) ⟨Memory.node, contract⟩ c where
  root := by
    simp only [node]
    refine ask_ensures ?_
    intro s hs
    exact ⟨⟨_, rfl⟩, hs⟩
  lookup root dictionary key := by
    simp only [Assurance.Answers, node]
    refine ask_ensures ?_
    rintro s ⟨hfailing, rfl⟩
    cases hitem : s.item? dictionary key with
    | some value => exact ⟨by simp [content, Content.lookup, hitem], hfailing, rfl⟩
    | none => exact ⟨by simp [content, Content.lookup, hitem], hfailing, rfl⟩
  namedKey root account path := by
    simp only [Assurance.Answers, node]
    refine ask_ensures ?_
    rintro s ⟨hfailing, rfl⟩
    cases hkey : s.namedKey? account path with
    | some value => exact ⟨by simp [content, Content.namedKeyValue, hkey], hfailing, rfl⟩
    | none => exact ⟨by simp [content, Content.namedKeyValue, hkey], hfailing, rfl⟩

/-! ## The run -/

variable (contract : ContractHash)

/-- A read over a node in order is answered from the content of the node. -/
theorem read_run (s : Memory) (h : s.failing = false) (q : Read) :
    (((⟨node, contract⟩ : Repository (StateM Memory)).read q).run s).1 = s.content.read q
      ∧ Holds s.content (((⟨node, contract⟩ : Repository (StateM Memory)).read q).run s).2 :=
  Repository.read_answers (shows s.content contract) q s ⟨h, rfl⟩

end Memory

open Memory

variable (contract : ContractHash)

/-- The node after a history has the content that the history leaves. -/
theorem play_state (steps : List Step) (s : Memory) (h : s.failing = false) :
    Holds (s.content.after steps) ((play ⟨Memory.node, contract⟩ steps).run s).2 := by
  induction steps generalizing s with
  | nil =>
    rw [Content.after_nil]
    exact ⟨h, rfl⟩
  | cons step rest ih =>
    rw [Content.after_cons]
    cases step with
    | seed x =>
      rw [← content_apply]
      have hx : (x.apply s).failing = false := by
        cases x <;> exact h
      exact ih (x.apply s) hx
    | read q =>
      obtain ⟨_, hfailing, hcontent⟩ := read_run contract s h q
      rw [Content.after_read, ← hcontent]
      exact ih _ hfailing

/-- The answers of a history that is run in two parts. -/
theorem play_append (r : Repository (StateM Memory)) (first second : List Step) (s : Memory) :
    ((play r (first ++ second)).run s).1
      = ((play r first).run s).1 ++ ((play r second).run ((play r first).run s).2).1 := by
  induction first generalizing s with
  | nil => rfl
  | cons step rest ih =>
    cases step with
    | seed x => exact ih (x.apply s)
    | read q => exact congrArg (_ :: ·) (ih _)

/-- A history has as many answers as reads. -/
theorem play_length (r : Repository (StateM Memory)) (steps : List Step) (s : Memory) :
    ((play r steps).run s).1.length = steps.countP Step.isRead := by
  induction steps generalizing s with
  | nil => rfl
  | cons step rest ih =>
    cases step with
    | seed x => exact ih (x.apply s)
    | read q =>
      rw [List.countP_cons_of_pos rfl]
      exact congrArg (· + 1) (ih _)

/-- The answer of any read in a history is that of the content which the
steps before it leave.  Nothing else has a part in it: no other key, no
read before, and nothing that comes after. -/
theorem play_answer (start : Memory) (hstart : start.failing = false) (before after : List Step)
    (q : Read) :
    ((play ⟨Memory.node, contract⟩ (before ++ .read q :: after)).run start).1[
        before.countP Step.isRead]? = some ⟨q, (start.content.after before).read q⟩ := by
  obtain ⟨hfailing, hcontent⟩ := play_state contract before start hstart
  have hlength := play_length ⟨Memory.node, contract⟩ before start
  rw [play_append, ← hlength, List.getElem?_append_right (Nat.le_refl _), Nat.sub_self,
    ← hcontent]
  have hread := (read_run contract _ hfailing q).1
  rw [← hread]
  rfl

/-- The second read of a holding sees its record, and the token as it was put in last
before.  The second read of a list of ids sees the list that replaced the first, with an id
that is in it twice. -/
theorem play_answer_replaced :
    ((play ⟨Memory.node, ⟨List.replicate 32 7, rfl⟩⟩
      ([.seed (.text "metadatas" "7" "old,u,c,1,2"), .read (.holder 12),
        .seed (.bytes "holders" "12" "010000000000000002000000000000000700000000000000"),
        .seed (.text "request_objects" "7" "x"), .seed (.text "metadatas" "7" "new,u,c,300,4")]
        ++ .read (.holder 12) :: [.seed (.text "metadatas" "7" "late,u,c,1,2")])).run {}).1[1]?
      = some ⟨.holder 12, .ok ⟨⟨1, 2, 7⟩, ⟨"new", "u", "c", 300, 4⟩⟩⟩
    ∧ let account : AccountHash := ⟨List.replicate 32 3, rfl⟩
      ((play ⟨Memory.node, ⟨List.replicate 32 7, rfl⟩⟩
        ([.seed (.ids "owners" account.hex [1, 2]), .read (.ids .holders account),
          .seed (.ids "owners" account.hex [12, 7, 12]),
          .seed (.ids "producer_requests" account.hex [9])]
          ++ .read (.ids .holders account) :: [.seed (.ids "owners" account.hex [3])])).run {}).1[
            1]? = some ⟨.ids .holders account, .ok [12, 7, 12]⟩ := by
  constructor
  · refine (play_answer _ {} rfl _ _ (.holder 12)).trans ?_
    have hkeys : Numeral.decimal 12 = "12" ∧ Numeral.decimal 7 = "7" := by decide +kernel
    have hrecord : HolderRecord.decode "010000000000000002000000000000000700000000000000"
        = .ok ⟨1, 2, 7⟩ := rfl
    simp only [Content.read, Content.holder, Content.token, Content.lookup, UInt64.reduceToNat,
      hkeys.1]
    simp only [Content.after, List.reverse_cons, List.reverse_nil, List.nil_append,
      List.cons_append, List.findSome?_cons, Step.item?, Seeding.entry?]
    simp [StoredValue.ofBytes, hrecord, hkeys.2]
    rfl
  · intro account
    refine (play_answer _ {} rfl _ _ (.ids .holders account)).trans ?_
    have hlater : ∀ later ∈ [Step.seed (.ids "producer_requests" account.hex [9])],
        later.item? (Content.listName .holders) account.hex = none := by
      simp [Step.item?, Seeding.entry?, Content.listName]
    have hread := Content.ids_after hlater (Memory.content {})
      [.seed (.ids "owners" account.hex [1, 2]), .read (.ids .holders account)] [12, 7, 12]
    exact congrArg (fun answer => some (⟨.ids .holders account, answer⟩ : Repository.Answered))
      hread

end TokenMarket
