import TokenMarket.Proofs.History
import TokenMarket.Proofs.Inquiry
import TokenMarket.Proofs.Numeral

/-!
# No root is used twice

A node in memory logs what it is asked.  This module says how the log of any
row of reads looks, with the node put in and out of order between them: it
is a sequence of blocks.  A block is a question for a root, and behind it the
one question that the root was fetched for.  While the node is out of order
the root is refused, and the block and the read end there.

There are four groups.

* Blocks.  `Memory.Block.log` writes blocks out as questions, with the roots
  counted on, and `Inquiry.questions` is what an inquiry asks of a content.
* One read.  `pursue_run` is the induction over an inquiry: from a node in
  order it takes exactly one block for each question.  `pursue_failing` is
  the case of a node out of order.
* The run.  `readSwitching_run` follows reads in a row.
* What a block guarantees.  `log_lookup_preceded` and `lookupRoots_nodup` read
  it off the log, and `readSwitching_calls` is the result.
-/

namespace TokenMarket

/-! ## Blocks -/

namespace Memory

/-- The log entry of a question under a root. -/
def Call.ofQuestion (root : String) : Question → Call
  | .item dictionary key => .lookup root dictionary key
  | .namedKey account path => .namedKey account path

/-- A question for a root, and what came of it. -/
inductive Block where
  /-- There was no root. -/
  | refused
  /-- The root was used for this question. -/
  | asked (q : Question)

/-- Whether there was a root. -/
def Block.isAsked : Block → Bool
  | .refused => false
  | .asked _ => true

/-- The questions of blocks in a row, after so many roots were handed out. -/
def Block.log : (roots : Nat) → List Block → List Call
  | _, [] => []
  | n, .refused :: rest => .root :: log n rest
  | n, .asked q :: rest => .root :: .ofQuestion (rootName (n + 1)) q :: log (n + 1) rest

end Memory

/-- What a content replies to a question. -/
def Content.reply (c : Content) : (q : Question) → Except Error q.Reply
  | .item dictionary key => c.lookup dictionary key
  | .namedKey account path => c.namedKeyValue account path

namespace Inquiry

variable {α : Type}

/-- What is asked of a content. -/
def questions (c : Content) : Inquiry α → List Question
  | done _ => []
  | ask q next => q :: match c.reply q with
    | .ok reply => (next reply).questions c
    | .error _ => []

/-- What a content answers. -/
def result (c : Content) : Inquiry α → Except Error α
  | done a => a
  | ask q next => match c.reply q with
    | .ok reply => (next reply).result c
    | .error e => .error e

end Inquiry

/-- Reads in a row, before each of which the node is put out of order, or in
order again. -/
def readSwitching (r : Repository (StateM Memory)) :
    List (Bool × Read) → StateM Memory (List Repository.Answered)
  | [] => return []
  | (failing, q) :: rest => do
    modify fun s => { s with failing }
    let answer ← (r.read q).run
    let answers ← readSwitching r rest
    return ⟨q, answer⟩ :: answers

/-! ## One read -/

/-- A step over a state that can fail: a failure is the end, and its state
stays. -/
theorem run_bind_state {σ α β : Type} (x : ExceptT Error (StateM σ) α)
    (f : α → ExceptT Error (StateM σ) β) (s : σ) :
    (x >>= f).run s = match x.run s with
      | (.ok a, t) => (f a).run t
      | (.error e, t) => (.error e, t) := by
  have hstep : ∀ (y : StateM σ (Except Error α)) (g : Except Error α → StateM σ (Except Error β)),
      (y >>= g) s = g (y s).1 (y s).2 := fun _ _ => rfl
  rw [ExceptT.run_bind, hstep]
  obtain ⟨answer, t⟩ := x.run s
  cases answer <;> rfl

namespace Memory

variable {α : Type} (contract : ContractHash)

/-- The node in memory as a repository of a contract. -/
abbrev repository : Repository (StateM Memory) := ⟨node, contract⟩

theorem ask_run (s : Memory) (h : s.failing = false) (call : Call)
    (answer : Memory → Except Error α × Memory) :
    (ask call answer).run s = answer (s.log call) := by
  have hlog : (s.log call).failing = false := h
  simp [ask, ExceptT.run, hlog]

/-- The node after a root was handed out. -/
def withRoot (s : Memory) : Memory :=
  { s with roots := s.roots + 1, calls := s.calls ++ [.root] }

theorem currentRoot_run (s : Memory) (h : s.failing = false) :
    node.currentRoot.run s = (.ok (rootName (s.roots + 1)), s.withRoot) := by
  rw [node, ask_run s h]
  rfl

theorem lookup_run (s : Memory) (h : s.failing = false) (root dictionary key : String) :
    (node.lookup root contract dictionary key).run s
      = (s.content.lookup dictionary key, s.log (.lookup root dictionary key)) := by
  rw [node, ask_run s h]
  have hitem : (s.log (.lookup root dictionary key)).item? dictionary key
      = s.content.item dictionary key := rfl
  rw [Content.lookup, hitem]
  cases s.content.item dictionary key <;> rfl

theorem namedKey_run (s : Memory) (h : s.failing = false) (root : String)
    (account : AccountHash) (path : List String) :
    (node.namedKey root account path).run s
      = (s.content.namedKeyValue account path, s.log (.namedKey account path)) := by
  rw [node, ask_run s h]
  have hkey : (s.log (.namedKey account path)).namedKey? account path
      = s.content.namedKey account path := rfl
  rw [Content.namedKeyValue, hkey]
  cases s.content.namedKey account path <;> rfl

/-- The roots are counted on from one block to the next. -/
theorem Block.log_append (roots : Nat) (first second : List Block) :
    Block.log roots (first ++ second)
      = Block.log roots first ++ Block.log (roots + first.countP isAsked) second := by
  induction first generalizing roots with
  | nil => rfl
  | cons block rest ih =>
    cases block with
    | refused => simp [Block.log, ih, isAsked]
    | asked q =>
      have hcount : roots + (asked q :: rest).countP isAsked = roots + 1 + rest.countP isAsked := by
        rw [List.countP_cons_of_pos rfl]
        omega
      rw [hcount]
      simp [Block.log, ih]

/-- The node after blocks. -/
def afterBlocks (s : Memory) (blocks : List Block) : Memory :=
  { s with
    roots := s.roots + blocks.countP Block.isAsked
    calls := s.calls ++ Block.log s.roots blocks }

theorem afterBlocks_nil (s : Memory) : s.afterBlocks [] = s := by
  simp [afterBlocks, Block.log]

theorem afterBlocks_append (s : Memory) (first second : List Block) :
    s.afterBlocks (first ++ second) = (s.afterBlocks first).afterBlocks second := by
  simp [afterBlocks, Block.log_append, Nat.add_assoc]

/-- A question to a node in order is one block. -/
theorem answer_run (s : Memory) (h : s.failing = false) (q : Question) :
    ((repository contract).answer q).run s = (s.content.reply q, s.afterBlocks [.asked q]) := by
  have hroot : s.withRoot.failing = false := h
  have hlog : ∀ call, s.withRoot.log call
      = { s with roots := s.roots + 1, calls := s.calls ++ [.root, call] } := by
    intro call
    simp [withRoot, log]
  cases q with
  | item dictionary key =>
    rw [Repository.answer, Repository.lookup, run_bind_state, currentRoot_run s h]
    change (node.lookup (rootName (s.roots + 1)) contract dictionary key).run s.withRoot = _
    rw [lookup_run contract s.withRoot hroot, hlog]
    rfl
  | namedKey account path =>
    rw [Repository.answer, run_bind_state, currentRoot_run s h]
    change (node.namedKey (rootName (s.roots + 1)) account path).run s.withRoot = _
    rw [namedKey_run s.withRoot hroot, hlog]
    rfl

/-- From a node in order, an inquiry is answered from the content, and takes
one block for each question, by induction over the inquiry. -/
theorem pursue_run (x : Inquiry α) (s : Memory) (h : s.failing = false) :
    (x.pursue (repository contract)).run s
      = (x.result s.content, s.afterBlocks ((x.questions s.content).map .asked)) := by
  induction x generalizing s with
  | done result =>
    rw [Inquiry.questions, List.map_nil, afterBlocks_nil]
    rfl
  | ask q next ih =>
    rw [Inquiry.pursue, run_bind_state, answer_run contract s h, Inquiry.result, Inquiry.questions]
    cases hreply : s.content.reply q with
    | ok reply =>
      have hcontent : (s.afterBlocks [.asked q]).content = s.content := rfl
      have hnext := ih reply (s.afterBlocks [.asked q]) h
      rw [hcontent, ← afterBlocks_append, List.singleton_append, ← List.map_cons] at hnext
      exact hnext
    | error e => rfl

/-- A node out of order refuses the root, and nothing more is asked. -/
theorem pursue_failing (q : Question) (next : q.Reply → Inquiry α) (s : Memory)
    (h : s.failing = true) :
    ((Inquiry.ask q next).pursue (repository contract)).run s
      = (.error outOfOrder, s.afterBlocks [.refused]) := by
  have hroot : node.currentRoot.run s = (.error outOfOrder, s.afterBlocks [.refused]) := by
    have hlog : (s.log .root).failing = true := h
    simp [node, ask, ExceptT.run, hlog]
    rfl
  rw [Inquiry.pursue, run_bind_state]
  cases q <;> simp only [Repository.answer, Repository.lookup, run_bind_state, hroot]

/-! ## The run -/

/-- The blocks of a read. -/
def blocks (c : Content) : Bool × Read → List Block
  | (true, _) => [.refused]
  | (false, q) => ((Inquiry.ofRead q).questions c).map .asked

/-- The answer of a read. -/
def switchedAnswer (c : Content) : Bool × Read → Repository.Answered
  | (true, q) => ⟨q, .error (.nodeUnavailable "Mock failure")⟩
  | (false, q) => ⟨q, (Inquiry.ofRead q).result c⟩

/-- One read, with the node put into or out of order before it. -/
theorem read_switched (s : Memory) (failing : Bool) (q : Read) :
    (⟨q, (((repository contract).read q).run { s with failing }).1⟩ : Repository.Answered)
        = switchedAnswer s.content (failing, q)
      ∧ (((repository contract).read q).run { s with failing }).2
        = { s.afterBlocks (blocks s.content (failing, q)) with failing } := by
  rw [Inquiry.read_eq_pursue]
  cases failing with
  | false =>
    rw [pursue_run contract _ _ rfl]
    exact ⟨rfl, rfl⟩
  | true =>
    obtain ⟨question, next, hasks⟩ := Inquiry.ofRead_asks q
    rw [hasks, pursue_failing contract question next _ rfl]
    exact ⟨rfl, rfl⟩

/-- Reads in a row: the blocks of one read after those of the other. -/
theorem readSwitching_run (steps : List (Bool × Read)) (s : Memory) :
    ((readSwitching (repository contract) steps).run s).1
        = steps.map (switchedAnswer s.content)
      ∧ ∃ failing, ((readSwitching (repository contract) steps).run s).2
        = { s.afterBlocks (steps.flatMap (blocks s.content)) with failing } := by
  induction steps generalizing s with
  | nil => exact ⟨rfl, s.failing, by rw [List.flatMap_nil, afterBlocks_nil]; rfl⟩
  | cons step rest ih =>
    obtain ⟨failing, q⟩ := step
    obtain ⟨hanswer, hstate⟩ := read_switched contract s failing q
    obtain ⟨hanswers, last, hlast⟩ :=
      ih { s.afterBlocks (blocks s.content (failing, q)) with failing }
    have hrun : (readSwitching (repository contract) ((failing, q) :: rest)).run s
        = (⟨q, (((repository contract).read q).run { s with failing }).1⟩
            :: ((readSwitching (repository contract) rest).run
              (((repository contract).read q).run { s with failing }).2).1,
          ((readSwitching (repository contract) rest).run
            (((repository contract).read q).run { s with failing }).2).2) := rfl
    rw [hrun, hanswer, hstate]
    constructor
    · exact congrArg (_ :: ·) hanswers
    · refine ⟨last, hlast.trans ?_⟩
      rw [List.flatMap_cons, afterBlocks_append]
      rfl

/-! ## What a block guarantees -/

theorem rootName_injective {m n : Nat} (h : rootName m = rootName n) : m = n := by
  have hchars := congrArg String.toList h
  simp only [rootName, Numeral.decimal, String.toList_append, String.toList_ofList,
    List.append_cancel_left_eq] at hchars
  rw [← Numeral.valueOf_digits m, hchars, Numeral.valueOf_digits]

/-- Whether the question was asked under a root. -/
def Call.isQuestion : Call → Bool
  | .root => false
  | .lookup _ _ _ => true
  | .namedKey _ _ => true

/-- The root that a lookup carries. -/
def Call.root? : Call → Option String
  | .lookup fetched _ _ => some fetched
  | _ => none

/-- Right before a lookup a root was fetched, and the lookup carries this
root: its number is that of the questions so far. -/
theorem log_lookup_preceded {n i : Nat} {blocks : List Block} {root dictionary key : String}
    (h : (Block.log n blocks)[i]? = some (.lookup root dictionary key)) :
    ∃ j, i = j + 1 ∧ (Block.log n blocks)[j]? = some .root
      ∧ root = rootName (n + ((Block.log n blocks).take (i + 1)).countP Call.isQuestion) := by
  induction blocks generalizing n i with
  | nil => simp [Block.log] at h
  | cons block rest ih =>
    cases block with
    | refused =>
      cases i with
      | zero => simp [Block.log] at h
      | succ i =>
        obtain ⟨j, rfl, hroot, hname⟩ := ih (by simpa [Block.log] using h)
        exact ⟨j + 1, rfl, by simpa [Block.log] using hroot,
          by simpa [Block.log, Call.isQuestion] using hname⟩
    | asked q =>
      match i with
      | 0 => simp [Block.log] at h
      | 1 =>
        cases q with
        | item d k =>
          obtain ⟨rfl, _⟩ : rootName (n + 1) = root ∧ _ := by
            simpa [Block.log, Call.ofQuestion] using h
          exact ⟨0, rfl, rfl, by simp [Block.log, Call.ofQuestion, Call.isQuestion]⟩
        | namedKey account path => simp [Block.log, Call.ofQuestion] at h
      | i + 2 =>
        obtain ⟨j, rfl, hroot, hname⟩ := ih (by simpa [Block.log] using h)
        refine ⟨j + 2, rfl, by simpa [Block.log] using hroot, ?_⟩
        have hquestion : (Call.ofQuestion (rootName (n + 1)) q).isQuestion = true := by
          cases q <;> rfl
        have hcount : ((Block.log n (.asked q :: rest)).take (j + 1 + 2 + 1)).countP Call.isQuestion
            = ((Block.log (n + 1) rest).take (j + 1 + 1)).countP Call.isQuestion + 1 :=
          List.countP_cons_of_pos hquestion
        rw [hname, hcount]
        congr 1
        omega

/-- The roots of the lookups in a log. -/
def lookupRoots (calls : List Call) : List String := calls.filterMap Call.root?

/-- Only the lookup of an entry adds a root, which is the one of its block. -/
theorem lookupRoots_asked (n : Nat) (q : Question) (rest : List Block) :
    lookupRoots (Block.log n (.asked q :: rest))
        = rootName (n + 1) :: lookupRoots (Block.log (n + 1) rest)
      ∨ lookupRoots (Block.log n (.asked q :: rest)) = lookupRoots (Block.log (n + 1) rest) := by
  cases q with
  | item dictionary key => exact Or.inl rfl
  | namedKey account path => exact Or.inr rfl

/-- The roots in a log are later than those handed out before. -/
theorem lookupRoots_later {n : Nat} {blocks : List Block} {root : String}
    (h : root ∈ lookupRoots (Block.log n blocks)) : ∃ m, n < m ∧ root = rootName m := by
  induction blocks generalizing n with
  | nil => simp [Block.log, lookupRoots] at h
  | cons block rest ih =>
    cases block with
    | refused => exact ih h
    | asked q =>
      have hlater : root ∈ lookupRoots (Block.log (n + 1) rest) →
          ∃ m, n < m ∧ root = rootName m := by
        intro hmem
        obtain ⟨m, hm, hname⟩ := ih hmem
        exact ⟨m, by omega, hname⟩
      rcases lookupRoots_asked n q rest with hroots | hroots
      · rw [hroots] at h
        rcases List.mem_cons.1 h with hname | hmem
        · exact ⟨n + 1, by omega, hname⟩
        · exact hlater hmem
      · rw [hroots] at h
        exact hlater h

/-- No root occurs in two lookups. -/
theorem lookupRoots_nodup (n : Nat) (blocks : List Block) :
    (lookupRoots (Block.log n blocks)).Nodup := by
  induction blocks generalizing n with
  | nil => exact List.nodup_nil
  | cons block rest ih =>
    cases block with
    | refused => exact ih n
    | asked q =>
      have hnew : rootName (n + 1) ∉ lookupRoots (Block.log (n + 1) rest) := by
        intro hmem
        obtain ⟨m, hm, hname⟩ := lookupRoots_later hmem
        have := rootName_injective hname
        omega
      rcases lookupRoots_asked n q rest with hroots | hroots
      · rw [hroots]
        exact List.nodup_cons.2 ⟨hnew, ih (n + 1)⟩
      · rw [hroots]
        exact ih (n + 1)

/-- The log of reads in a row over a node that is put out of order, and in
order again, at will.  A read of a node out of order is one refused root and
tells that the node cannot be asked; any other read takes a root for each of
its questions.  Every lookup stands right behind the root that it carries,
and no two lookups carry the same one. -/
theorem readSwitching_calls (items : List ((String × String) × StoredValue))
    (namedKeys : List ((AccountHash × List String) × Json)) (steps : List (Bool × Read)) :
    let start : Memory := { items, namedKeys }
    let run := (readSwitching (repository contract) steps).run start
    run.2.calls = Block.log 0 (steps.flatMap (blocks start.content))
      ∧ run.1 = steps.map (switchedAnswer start.content)
      ∧ (∀ i root dictionary key, run.2.calls[i]? = some (.lookup root dictionary key) →
          ∃ j, i = j + 1 ∧ run.2.calls[j]? = some .root
            ∧ root = rootName ((run.2.calls.take (i + 1)).countP Call.isQuestion))
      ∧ (lookupRoots run.2.calls).Nodup := by
  intro start run
  obtain ⟨hanswers, failing, hstate⟩ := readSwitching_run contract steps start
  have hcalls : run.2.calls = Block.log 0 (steps.flatMap (blocks start.content)) := by
    rw [hstate]
    exact List.nil_append _
  rw [hcalls]
  refine ⟨rfl, hanswers, ?_, lookupRoots_nodup 0 _⟩
  intro i root dictionary key h
  have hpreceded := log_lookup_preceded h
  rwa [Nat.zero_add] at hpreceded

end Memory

end TokenMarket
