import TokenMarket.Proofs.FreshRoots
import TokenMarket.Proofs.SignedCommands

/-!
# Sessions have no memory

Between two commands a session keeps nothing but who is logged in, the lines
that are left and the node.  The node in memory does change with every read:
it counts its roots and logs its questions.  This module shows that no
command can tell.  So what a session shows behind a command is what a new
session of the same identity shows on the same lines.

There are five groups.

* Alike nodes.  Two nodes are `Alike` if they hold the same.  A computation is
  `Blind` if it cannot tell alike nodes apart, and `blind_bind` is the rule for
  one step behind another.
* Blind sessions.  `Dialogue.blind_run` is the induction over a dialogue, and
  `Session.blind_play` the one over the lines that are left.
* Turns.  `Dialogue.run_extend` says that a dialogue depends on no line behind
  those that it reads.  `Session.play_again` and `Session.play_last` split a
  session behind its first turn.
* Commands.  `Commands` lists the commands that came to an end, and
  `Commands.play` takes a session apart into them and what is left.
* Sessions.  A `Paused` session is a point between two commands.
  `Desk.play_memoryless` compares it with new sessions and with other paused
  ones.
-/

namespace TokenMarket

/-- A step behind another begins where the first one led. -/
theorem run_bind_of_run {σ α β : Type} {x : StateM σ α} {s t : σ} {a : α}
    (h : x.run s = (a, t)) (f : α → StateM σ β) : (x >>= f).run s = (f a).run t := by
  rw [StateT.run_bind, h]
  rfl

/-! ## Alike nodes -/

namespace Memory

variable {α β : Type} {s t u : Memory}

/-- Nodes that hold the same and are both in order or both out of order.
They may have been asked different things before. -/
structure Alike (s t : Memory) : Prop where
  content : s.content = t.content
  failing : s.failing = t.failing

theorem Alike.refl (s : Memory) : s.Alike s := ⟨rfl, rfl⟩

theorem Alike.symm (h : s.Alike t) : t.Alike s := ⟨h.content.symm, h.failing.symm⟩

theorem Alike.trans (h : s.Alike t) (h' : t.Alike u) : s.Alike u :=
  ⟨h.content.trans h'.content, h.failing.trans h'.failing⟩

theorem alike_afterBlocks (s : Memory) (blocks : List Block) : (s.afterBlocks blocks).Alike s :=
  ⟨rfl, rfl⟩

/-- A computation that cannot tell alike nodes apart: it has the same result
and asks the same questions. -/
def Blind (x : StateM Memory α) : Prop :=
  ∀ s t : Memory, s.Alike t → (x.run s).1 = (x.run t).1
    ∧ ∃ blocks, (x.run s).2 = s.afterBlocks blocks ∧ (x.run t).2 = t.afterBlocks blocks

theorem blind_pure (a : α) : Blind (pure a) :=
  fun s t _ => ⟨rfl, [], s.afterBlocks_nil.symm, t.afterBlocks_nil.symm⟩

theorem blind_bind {x : StateM Memory α} {f : α → StateM Memory β} (hx : Blind x)
    (hf : ∀ a, Blind (f a)) : Blind (x >>= f) := by
  intro s t h
  have hrun : ∀ v : Memory, x.run v = ((x.run v).1, (x.run v).2) := fun _ => rfl
  obtain ⟨hresult, first, hs, ht⟩ := hx s t h
  rw [run_bind_of_run (hrun s), run_bind_of_run (hrun t), hs, ht, hresult]
  have hmiddle : (s.afterBlocks first).Alike (t.afterBlocks first) :=
    ((alike_afterBlocks s first).trans h).trans (alike_afterBlocks t first).symm
  obtain ⟨hresult', second, hs', ht'⟩ := hf (x.run t).1 _ _ hmiddle
  refine ⟨hresult', first ++ second, ?_, ?_⟩
  · rw [hs', afterBlocks_append]
  · rw [ht', afterBlocks_append]

theorem Blind.alike {x : StateM Memory α} (hx : Blind x) {a : α} (h : x.run s = (a, t)) :
    t.Alike s := by
  obtain ⟨-, blocks, hs, -⟩ := hx s s (.refl s)
  rw [h] at hs
  obtain rfl : t = s.afterBlocks blocks := hs
  exact alike_afterBlocks s blocks

/-- Reads are answered from the content. -/
theorem blind_read (contract : ContractHash) (q : Read) :
    Blind ((repository contract).read q).run := by
  intro s t h
  rw [Inquiry.read_eq_pursue]
  simp only [StateT.run]
  cases hfailing : s.failing with
  | false =>
    have hfailing' : t.failing = false := h.failing ▸ hfailing
    rw [pursue_run contract _ s hfailing, pursue_run contract _ t hfailing', h.content]
    exact ⟨rfl, _, rfl, rfl⟩
  | true =>
    have hfailing' : t.failing = true := h.failing ▸ hfailing
    obtain ⟨question, next, hasks⟩ := Inquiry.ofRead_asks q
    rw [hasks, pursue_failing contract question next s hfailing,
      pursue_failing contract question next t hfailing']
    exact ⟨rfl, _, rfl, rfl⟩

end Memory

open Memory (Blind blind_pure blind_bind)

/-! ## Blind sessions -/

/-- A world in which a node in memory answers for a contract. -/
def memoryWorld (contract : ContractHash) (files : String → Except FileError String) :
    Dialogue.World (StateM Memory) :=
  ⟨(Memory.repository contract).read, files⟩

section Blind

variable {α : Type} (contract : ContractHash) (files : String → Except FileError String)

theorem Dialogue.blind_run (d : Dialogue α) (input : List InputLine) :
    Blind (d.run (memoryWorld contract files) input) := by
  induction d generalizing input with
  | done a => exact blind_pure _
  | say e next ih => exact blind_bind (ih input) fun r => blind_pure _
  | ask prompt next ih =>
    match input with
    | [] => exact blind_bind (ih none []) fun r => blind_pure _
    | some line :: rest => exact blind_bind (ih (some line) rest) fun r => blind_pure _
    | none :: rest => exact blind_pure _
  | file path next ih => exact ih _ input
  | read q next ih => exact blind_bind (Memory.blind_read contract q) fun answer => ih answer input

theorem Session.blind_play (s : Session) (input : List InputLine) :
    Blind (s.play (memoryWorld contract files) input) := by
  induction hlength : input.length using Nat.strongRecOn generalizing input with
  | ind n ih =>
    rw [Session.play]
    refine blind_bind (Dialogue.blind_run contract files s.turn input) ?_
    rintro ⟨events, rest, result⟩
    cases result with
    | none => exact blind_pure _
    | some flow =>
      cases flow with
      | again =>
        by_cases hrest : rest.length < input.length
        · simp only [dif_pos hrest]
          exact blind_bind (ih _ (hlength ▸ hrest) rest rfl) fun t => blind_pure _
        · simp only [dif_neg hrest]
          exact blind_pure _
      | _ => exact blind_pure _

end Blind

/-! ## Turns -/

section Turns

variable {σ α : Type} {w : Dialogue.World (StateM σ)}

namespace Dialogue

/-- The run, had there been no more lines than it read. -/
def Run.alone (r : Run α) : Run α := { r with rest := [] }

theorem Run.rest_after (e : Event) (r : Run α) : (r.after e).rest = r.rest := rfl

theorem run_say (e : Event) (next : Dialogue α) (input : List InputLine) (t : σ) :
    ((say e next).run w input).run t
      = (((next.run w input).run t).1.after e, ((next.run w input).run t).2) :=
  rfl

theorem run_ask_nil (prompt : String) (next : Option String → Dialogue α) (t : σ) :
    ((ask prompt next).run w []).run t
      = ((((next none).run w []).run t).1.after (.prompt prompt),
        (((next none).run w []).run t).2) :=
  rfl

theorem run_ask_cons (prompt line : String) (next : Option String → Dialogue α)
    (rest : List InputLine) (t : σ) :
    ((ask prompt next).run w (some line :: rest)).run t
      = ((((next (some line)).run w rest).run t).1.after (.prompt prompt),
        (((next (some line)).run w rest).run t).2) :=
  rfl

/-- A dialogue goes the same way before other lines than those that it leaves.  If it
leaves none then it may have come to the end, and there must be no others. -/
theorem run_extend (d : Dialogue α) (input : List InputLine) (t : σ) :
    ∃ lines, input = lines ++ ((d.run w input).run t).1.rest
      ∧ ∀ other, (((d.run w input).run t).1.rest = [] → other = []) →
        (d.run w (lines ++ other)).run t
          = ({ ((d.run w input).run t).1 with rest := other }, ((d.run w input).run t).2) := by
  induction d generalizing input t with
  | done a => exact ⟨[], rfl, fun _ _ => rfl⟩
  | say e next ih =>
    obtain ⟨lines, hinput, hother⟩ := ih input t
    refine ⟨lines, hinput, fun other hends => ?_⟩
    rw [run_say, run_say, hother other hends]
    rfl
  | ask prompt next ih =>
    match input with
    | [] =>
      obtain ⟨lines, hinput, hother⟩ := ih none [] t
      obtain ⟨rfl, hrest⟩ := List.append_eq_nil_iff.1 hinput.symm
      refine ⟨[], hinput, fun other hends => ?_⟩
      obtain rfl := hends hrest
      have hsame := hother [] fun _ => rfl
      exact congrArg (fun out => (out.1.after (.prompt prompt), out.2)) hsame
    | some line :: rest =>
      obtain ⟨lines, hinput, hother⟩ := ih (some line) rest t
      refine ⟨some line :: lines, congrArg (some line :: ·) hinput, fun other hends => ?_⟩
      rw [List.cons_append, run_ask_cons, run_ask_cons, hother other hends]
      rfl
    | none :: rest => exact ⟨[none], rfl, fun _ _ => rfl⟩
  | file path next ih => exact ih _ input t
  | read q next ih => exact ih _ input _

/-- A dialogue goes the same way on the lines alone that it takes. -/
theorem run_alone (d : Dialogue α) (input : List InputLine) (t : σ) :
    ∃ lines, input = lines ++ ((d.run w input).run t).1.rest
      ∧ (d.run w lines).run t
        = (((d.run w input).run t).1.alone, ((d.run w input).run t).2) := by
  obtain ⟨lines, hinput, hother⟩ := d.run_extend (w := w) input t
  have halone := hother [] fun _ => rfl
  rw [List.append_nil] at halone
  exact ⟨lines, hinput, halone⟩

end Dialogue

namespace Session

variable {s : Session} {input : List InputLine} {t u : σ} {r : Dialogue.Run Flow}

/-- A turn shows the menu, asks for a choice and performs it. -/
theorem turn_eq (s : Session) :
    s.turn = .say .menu (.ask "Enter your choice : " fun
      | none => .done .over
      | some line => s.perform (Text.trim line)) :=
  congrArg (Dialogue.say .menu) (congrArg (Dialogue.ask _) (funext fun line => by cases line <;> rfl))

/-- A turn behind which the session goes on has read its choice. -/
theorem turn_shortens (h : (s.turn.run w input).run t = (r, u)) (hagain : r.result = some .again) :
    r.rest.length < input.length := by
  rw [turn_eq, Dialogue.run_say] at h
  rcases input with _ | ⟨_ | line, rest⟩
  · rw [Dialogue.run_ask_nil] at h
    rw [← (Prod.mk.inj h).1] at hagain
    cases hagain
  · rw [← (Prod.mk.inj h).1] at hagain
    cases hagain
  · rw [Dialogue.run_ask_cons] at h
    obtain ⟨lines, hrest, -⟩ := Dialogue.run_alone (w := w) (s.perform (Text.trim line)) rest t
    have hlength := congrArg List.length hrest
    rw [← (Prod.mk.inj h).1]
    simp only [Dialogue.Run.rest_after, List.length_cons, List.length_append] at hlength ⊢
    omega

/-- The session behind a turn after which it goes on. -/
theorem play_again (h : (s.turn.run w input).run t = (r, u)) (hagain : r.result = some .again) :
    (s.play w input).run t
      = (⟨r.events ++ ((s.play w r.rest).run u).1.events, ((s.play w r.rest).run u).1.ending⟩,
        ((s.play w r.rest).run u).2) := by
  have hrest := turn_shortens h hagain
  obtain ⟨events, rest, result⟩ := r
  obtain rfl : result = some .again := hagain
  rw [Session.play, run_bind_of_run h]
  simp only [dif_pos hrest]
  rfl

/-- The last turn of a session. -/
theorem play_last (h : (s.turn.run w input).run t = (r, u)) (hlast : r.result ≠ some .again) :
    ((s.play w input).run t).1.events = r.events := by
  obtain ⟨events, rest, result⟩ := r
  rw [Session.play, run_bind_of_run h]
  cases result with
  | none => rfl
  | some flow =>
    cases flow with
    | again => exact absurd rfl hlast
    | _ => rfl

end Session

end Turns

/-! ## Commands -/

/-- A command that came to an end: the lines that it took, which are its choice
and the answers to its prompts, and what it showed. -/
structure Finished where
  lines : List InputLine
  shown : List Event

/-- From these lines and this state on, commands came to an end one after the
other, and left those lines and that state. -/
inductive Commands {σ : Type} (w : Dialogue.World (StateM σ)) (s : Session) :
    List InputLine → σ → List Finished → List InputLine → σ → Prop
  | none {input : List InputLine} {t : σ} : Commands w s input t [] input t
  | more {input lines rest : List InputLine} {t u v : σ} {done : List Finished}
      (r : Dialogue.Run Flow) (hturn : (s.turn.run w input).run t = (r, u))
      (hagain : r.result = some .again) (hlines : input = lines ++ r.rest)
      (hnext : Commands w s r.rest u done rest v) :
      Commands w s input t (⟨lines, r.events⟩ :: done) rest v

namespace Commands

section

variable {σ : Type} {w : Dialogue.World (StateM σ)} {s : Session} {input rest : List InputLine}
  {t u : σ} {done : List Finished}

/-- A session shows what its commands show, and behind them what the session
shows that is left. -/
theorem play (h : Commands w s input t done rest u) :
    (s.play w input).run t
      = (⟨done.flatMap Finished.shown ++ ((s.play w rest).run u).1.events,
          ((s.play w rest).run u).1.ending⟩, ((s.play w rest).run u).2) := by
  induction h with
  | none => rfl
  | more _ hturn hagain _ _ ih =>
    rw [Session.play_again hturn hagain, ih, List.flatMap_cons, List.append_assoc]

/-- All commands of a session come to an end but the last. -/
theorem exists_last (w : Dialogue.World (StateM σ)) (s : Session) (input : List InputLine)
    (t : σ) :
    ∃ done rest u, Commands w s input t done rest u
      ∧ ((s.turn.run w rest).run u).1.result ≠ some .again := by
  induction hlength : input.length using Nat.strongRecOn generalizing input t with
  | ind n ih =>
    by_cases hagain : ((s.turn.run w input).run t).1.result = some .again
    · have hrest := Session.turn_shortens (w := w) rfl hagain
      obtain ⟨lines, hlines, -⟩ := Dialogue.run_alone (w := w) s.turn input t
      obtain ⟨done, rest, u, hnext, hlast⟩ := ih _ (hlength ▸ hrest) _ _ rfl
      exact ⟨_, rest, u, .more _ rfl hagain hlines hnext, hlast⟩
    · exact ⟨[], input, t, .none, hagain⟩

end

section

variable {contract : ContractHash} {files : String → Except FileError String} {s : Session}
  {input rest : List InputLine} {t u : Memory} {done : List Finished}

/-- Commands leave the node as it is, but for what it was asked. -/
theorem alike (h : Commands (memoryWorld contract files) s input t done rest u) : u.Alike t := by
  induction h with
  | none => exact .refl _
  | more _ hturn _ _ _ ih => exact ih.trans ((Dialogue.blind_run contract files _ _).alike hturn)

/-- A command shows what it shows on its own lines alone, over any node that
holds the same. -/
theorem shown_alone (h : Commands (memoryWorld contract files) s input t done rest u)
    {other : Memory} (hother : other.Alike t) :
    ∀ command ∈ done, ((s.turn.run (memoryWorld contract files) command.lines).run other).1
      = ⟨command.shown, [], some .again⟩ := by
  induction h with
  | none => exact fun command hcommand => absurd hcommand List.not_mem_nil
  | @more input lines _ t _ _ _ r hturn hagain hlines _ ih =>
    intro command hcommand
    rcases List.mem_cons.1 hcommand with rfl | hcommand
    · obtain ⟨alone, hinput, halone⟩ :=
        Dialogue.run_alone (w := memoryWorld contract files) s.turn input t
      rw [hturn] at hinput halone
      obtain rfl : lines = alone := List.append_cancel_right (hlines.symm.trans hinput)
      rw [(Dialogue.blind_run contract files s.turn lines other t hother).1, halone,
        Dialogue.Run.alone, hagain]
    · have hnode := (Dialogue.blind_run contract files _ _).alike hturn
      exact ih (hother.trans hnode.symm) command hcommand

end

end Commands

/-! ## Sessions -/

namespace Desk

/-- A login leads to a session of the desk. -/
theorem login_session {σ : Type} {c : Config} {w : Dialogue.World (StateM σ)}
    {given : Option String} {input lines : List InputLine} {t u : σ} {told : List Event}
    {s : Session}
    (h : (((Desk.ofConfig c).login given).run w input).run t = (⟨told, lines, some (some s)⟩, u)) :
    s = ⟨Terms.ofConfig c, c.identities, s.user⟩ := by
  obtain ⟨-, -, -, selected, -, hsession⟩ :=
    Dialogue.run_always (w := w) (always_login c w.file given) input t
  rw [h] at hsession
  obtain ⟨user, -, hs⟩ := Option.map_eq_some_iff.1 hsession.symm
  rw [← hs]

/-- A text that picks an identity logs it in without a question. -/
theorem login_given {σ : Type} {c : Config} {user : Identity} {slot : String}
    (h : c.identities.select slot = .ok user) (w : Dialogue.World (StateM σ))
    (input : List InputLine) (t : σ) :
    (((Desk.ofConfig c).login (some slot)).run w input).run t
      = (⟨[.welcome user.name], input, some (some ⟨Terms.ofConfig c, c.identities, user⟩)⟩, t) := by
  have hlogin : (Desk.ofConfig c).login (some slot)
      = .say (.welcome user.name) (.done (some ⟨Terms.ofConfig c, c.identities, user⟩)) := by
    rw [login, Desk.slot]
    change Dialogue.bind (.done slot) _ = _
    simp only [Dialogue.bind, ofConfig, h]
    rfl
  rw [hlogin]
  rfl

theorem play_login {σ : Type} {c : Config} {w : Dialogue.World (StateM σ)}
    {given : Option String} {input lines : List InputLine} {t u : σ} {told : List Event}
    {s : Session}
    (h : (((Desk.ofConfig c).login given).run w input).run t = (⟨told, lines, some (some s)⟩, u)) :
    ((Desk.ofConfig c).play w given input).run t
      = (⟨told ++ ((s.play w lines).run u).1.events, ((s.play w lines).run u).1.ending⟩,
        ((s.play w lines).run u).2) := by
  rw [Desk.play, run_bind_of_run h]
  rfl

/-- A point of a session over a node in memory at which no command is going
on.  An identity logged in, which showed `told`, some commands came to an end,
and those lines and that node are left. -/
structure Paused (c : Config) (contract : ContractHash) (files : String → Except FileError String)
    (start : Memory) (given : Option String) (input : List InputLine) where
  told : List Event
  session : Session
  lines : List InputLine
  entered : Memory
  login : (((Desk.ofConfig c).login given).run (memoryWorld contract files) input).run start
    = (⟨told, lines, some (some session)⟩, entered)
  done : List Finished
  rest : List InputLine
  node : Memory
  commands : Commands (memoryWorld contract files) session lines entered done rest node

variable {c : Config} {contract : ContractHash} {files : String → Except FileError String}
  {start : Memory} {given : Option String} {input : List InputLine}

/-- What was shown up to the point. -/
def Paused.shown (p : Paused c contract files start given input) : List Event :=
  p.told ++ p.done.flatMap Finished.shown

/-- What is still to come. -/
def Paused.remainder (p : Paused c contract files start given input) : Transcript :=
  ((p.session.play (memoryWorld contract files) p.rest).run p.node).1

/-- The whole session is what was shown and what is still to come. -/
theorem Paused.play_eq (p : Paused c contract files start given input) :
    ((Desk.ofConfig c).play (memoryWorld contract files) given input).run start
      = (⟨p.shown ++ p.remainder.events, p.remainder.ending⟩,
        ((p.session.play (memoryWorld contract files) p.rest).run p.node).2) := by
  rw [play_login p.login, p.commands.play, shown, List.append_assoc]
  rfl

/-- The node is as it was before the login, but for what it was asked. -/
theorem Paused.alike (p : Paused c contract files start given input) : p.node.Alike start :=
  p.commands.alike.trans ((Dialogue.blind_run contract files _ _).alike p.login)

/-- A session has no memory of what was done in it.

Whatever the commands before a point were, what comes behind it is what a new
session shows behind its login, if that login picks the same identity and the
node holds the same.  So two sessions of one identity with the same lines left
go on alike, and ask the node the same.  Each command shows what it would show
on its own lines alone, and a session is a row of commands behind its login,
each of which but the last comes to an end. -/
theorem play_memoryless (c : Config) (contract : ContractHash)
    (files : String → Except FileError String) (start : Memory) (given : Option String)
    (input : List InputLine) :
    (∀ told s lines t, (((Desk.ofConfig c).login given).run (memoryWorld contract files)
          input).run start = (⟨told, lines, some (some s)⟩, t) →
        ∃ p : Paused c contract files start given input,
          p.told = told ∧ p.session = s ∧ p.lines = lines
            ∧ ((s.turn.run (memoryWorld contract files) p.rest).run p.node).1.result ≠ some .again
            ∧ p.remainder.events
              = ((s.turn.run (memoryWorld contract files) p.rest).run p.node).1.events)
      ∧ ∀ p : Paused c contract files start given input,
        (((Desk.ofConfig c).play (memoryWorld contract files) given input).run start).1
            = ⟨p.shown ++ p.remainder.events, p.remainder.ending⟩
          ∧ (∀ command ∈ p.done, ∀ other : Memory, other.Alike start →
            ((p.session.turn.run (memoryWorld contract files) command.lines).run other).1
              = ⟨command.shown, [], some .again⟩)
          ∧ (∀ other : Memory, other.Alike start → ∀ slot,
            c.identities.select slot = .ok p.session.user →
            (((Desk.ofConfig c).play (memoryWorld contract files) (some slot) p.rest).run other).1
              = ⟨.welcome p.session.user.name :: p.remainder.events, p.remainder.ending⟩)
          ∧ ∀ (start' : Memory) (given' : Option String) (input' : List InputLine)
            (q : Paused c contract files start' given' input'), start'.Alike start →
            q.session.user = p.session.user → q.rest = p.rest →
            q.remainder = p.remainder ∧ ∃ blocks,
              (((Desk.ofConfig c).play (memoryWorld contract files) given input).run start).2
                  = p.node.afterBlocks blocks
                ∧ (((Desk.ofConfig c).play (memoryWorld contract files) given' input').run
                  start').2 = q.node.afterBlocks blocks := by
  have hblind := fun (s : Session) lines => s.blind_play contract files lines
  constructor
  · intro told s lines t hlogin
    obtain ⟨done, rest, node, hcommands, hlast⟩ :=
      Commands.exists_last (memoryWorld contract files) s lines t
    exact ⟨⟨told, s, lines, t, hlogin, done, rest, node, hcommands⟩, rfl, rfl, rfl, hlast,
      Session.play_last rfl hlast⟩
  · intro p
    refine ⟨by rw [p.play_eq], ?_, ?_, ?_⟩
    · intro command hcommand other hother
      have hentered := (Dialogue.blind_run contract files _ _).alike p.login
      exact p.commands.shown_alone (hother.trans hentered.symm) command hcommand
    · intro other hother slot hslot
      have hsame := hother.trans p.alike.symm
      rw [play_login (login_given hslot _ _ _), ← login_session p.login,
        (hblind p.session p.rest other p.node hsame).1]
      rfl
    · intro start' given' input' q hstart huser hrest
      have hsame : p.node.Alike q.node := (p.alike.trans hstart.symm).trans q.alike.symm
      have hsession : q.session = p.session := by
        rw [login_session q.login, login_session p.login, huser]
      obtain ⟨hremainder, blocks, hp, hq⟩ := hblind p.session p.rest p.node q.node hsame
      rw [p.play_eq, q.play_eq, Paused.remainder, Paused.remainder, hsession, hrest]
      exact ⟨hremainder.symm, blocks, hp, hq⟩

/-- A node out of order. -/
def outOfOrder : Memory := { failing := true }

/-- The first identity chose something that is not in the menu, asked a node
out of order for a token, and is about to leave. -/
def leaving : Paused {} Config.defaultContract (fun _ => .error .missing) outOfOrder (some "1")
    [some "99", some "10", some "5", some "0"] where
  told := [.welcome "acc1"]
  session := ⟨Terms.ofConfig {}, Config.demoIdentities,
    ⟨"acc1", Config.demoAccount1, "keys/acc1_secret_key.pem"⟩⟩
  lines := [some "99", some "10", some "5", some "0"]
  entered := outOfOrder
  login := rfl
  done := [
    ⟨[some "99"], [.menu, .prompt "Enter your choice : ", .unknownChoice "99"]⟩,
    ⟨[some "10", some "5"], [.menu, .prompt "Enter your choice : ",
      .prompt "Enter the token_id : ", .failure (.marketplace (.nodeUnavailable "Mock failure"))]⟩]
  rest := [some "0"]
  node := { failing := true, calls := [.root] }
  commands :=
    .more ⟨[.menu, .prompt "Enter your choice : ", .unknownChoice "99"],
        [some "10", some "5", some "0"], some .again⟩ rfl rfl rfl
      (.more ⟨[.menu, .prompt "Enter your choice : ", .prompt "Enter the token_id : ",
          .failure (.marketplace (.nodeUnavailable "Mock failure"))],
        [some "0"], some .again⟩ rfl rfl rfl .none)

/-- A new session goes on like this one. -/
theorem play_memoryless_leaving :
    Config.demoIdentities.select "acc1" = .ok leaving.session.user
      ∧ leaving.remainder.events = [.menu, .prompt "Enter your choice : "]
      ∧ (((Desk.ofConfig {}).play (memoryWorld Config.defaultContract fun _ => .error .missing)
          (some "acc1") [some "0"]).run outOfOrder).1
        = ⟨.welcome "acc1" :: leaving.remainder.events, leaving.remainder.ending⟩ := by
  have hslot : Config.demoIdentities.select "acc1" = .ok leaving.session.user := by rfl
  have hlast : leaving.remainder.events = [.menu, .prompt "Enter your choice : "] :=
    Session.play_last rfl (by decide)
  have hall := (play_memoryless {} Config.defaultContract (fun _ => .error .missing) outOfOrder
    (some "1") [some "99", some "10", some "5", some "0"]).2 leaving
  exact ⟨hslot, hlast, hall.2.2.1 outOfOrder (.refl _) "acc1" hslot⟩

end Desk

end TokenMarket
