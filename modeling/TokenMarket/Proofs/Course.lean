import TokenMarket.Proofs.Memoryless

/-!
# The course of a session

`Minutes` is about all the ways in which a dialogue can go.  This module is about
the way in which it does go, over any reader: what a turn makes of the run of its
command, and where in a session a turn begins.

There are three groups.

* Dialogues in a row.  `Dialogue.run_bind` plays one dialogue behind another, on the
  lines that are left.
* Turns.  A turn begins with the menu and the choice.  `turn_nil`, `turn_exit`,
  `turn_unknown` and `turn_command` are its four ways to go on.
* Points.  A `Desk.Point` is a point of a session at which a turn begins, with all
  that led to it.  The first one is `Point.behindLogin`, and `Point.play_eq` splits
  the session at any of them.
-/

namespace TokenMarket

/-! ## Dialogues in a row -/

namespace Dialogue

variable {σ α β : Type} {w : World (StateM σ)}

/-- What becomes of a run whose result is followed up.  Without a result nothing
follows. -/
def Run.follow (next : α → List InputLine → σ → Run β × σ) : Run α × σ → Run β × σ
  | (⟨events, rest, some a⟩, t) =>
    ({ (next a rest t).1 with events := events ++ (next a rest t).1.events }, (next a rest t).2)
  | (⟨events, rest, none⟩, t) => (⟨events, rest, none⟩, t)

theorem Run.follow_after (next : α → List InputLine → σ → Run β × σ) (e : Event)
    (out : Run α × σ) :
    follow next (out.1.after e, out.2) = ((follow next out).1.after e, (follow next out).2) := by
  obtain ⟨⟨events, rest, result⟩, t⟩ := out
  cases result <;> rfl

/-- A dialogue behind another is played on the lines that are left. -/
theorem run_bind (d : Dialogue α) (f : α → Dialogue β) (input : List InputLine) (t : σ) :
    ((d >>= f).run w input).run t
      = Run.follow (fun a rest u => ((f a).run w rest).run u) ((d.run w input).run t) := by
  have hsay : ∀ e (next : Dialogue α), bind (say e next) f = say e (bind next f) := fun _ _ => rfl
  have hask : ∀ prompt (next : Option String → Dialogue α),
      bind (ask prompt next) f = ask prompt fun line => bind (next line) f := fun _ _ => rfl
  change ((d.bind f).run w input).run t = _
  induction d generalizing input t with
  | done a => rfl
  | say e next ih => rw [hsay, run_say, ih, run_say, Run.follow_after]
  | ask prompt next ih =>
    rw [hask]
    match input with
    | [] => rw [run_ask_nil, ih, run_ask_nil, Run.follow_after]
    | some line :: rest => rw [run_ask_cons, ih, run_ask_cons, Run.follow_after]
    | none :: rest => rfl
  | file path next ih => exact ih _ input t
  | read q next ih => exact ih _ input _

end Dialogue

/-! ## Turns -/

/-- What is shown of the result of a command: a failure is reported. -/
def Command.report : Option (Except Problem Unit) → List Event
  | some (.error p) => [.failure p]
  | _ => []

theorem MenuEntry.ofChoice?_eq_exit_iff {choice : String} :
    ofChoice? choice = some exit ↔ choice = "0" := by
  unfold ofChoice?
  split <;> simp_all

namespace Session

variable {σ : Type} {w : Dialogue.World (StateM σ)} {s : Session} {input lines : List InputLine}
  {line : String} {t u : σ}

/-- The first events of a turn. -/
def opening : List Event := [.menu, .prompt "Enter your choice : "]

/-- At the end of the input the session is over. -/
theorem turn_nil (s : Session) (t : σ) :
    (s.turn.run w []).run t = (⟨opening, [], some .over⟩, t) := by
  rw [turn_eq]
  rfl

theorem turn_cons {r : Dialogue.Run Flow}
    (h : ((s.perform (Text.trim line)).run w lines).run t = (r, u)) :
    (s.turn.run w (some line :: lines)).run t
      = ({ r with events := opening ++ r.events }, u) := by
  rw [turn_eq, Dialogue.run_say, Dialogue.run_ask_cons, h]
  rfl

theorem turn_exit (h : Text.trim line = "0") :
    (s.turn.run w (some line :: lines)).run t = (⟨opening, lines, some .over⟩, t) := by
  have hrun : ((s.perform (Text.trim line)).run w lines).run t = (⟨[], lines, some .over⟩, t) := by
    rw [h]
    rfl
  exact turn_cons hrun

/-- What is not in the menu is told. -/
theorem turn_unknown (h : MenuEntry.ofChoice? (Text.trim line) = none) :
    (s.turn.run w (some line :: lines)).run t
      = (⟨opening ++ [.unknownChoice (Text.trim line)], lines, some .again⟩, t) := by
  have hrun : ((s.perform (Text.trim line)).run w lines).run t
      = (⟨[.unknownChoice (Text.trim line)], lines, some .again⟩, t) := by
    rw [perform, h]
    rfl
  exact turn_cons hrun

/-- Behind an entry the turn is the command, and a report if the command fails.  Only a
line that is no text keeps the session from going on. -/
theorem turn_command {entry : MenuEntry} {r : Dialogue.Run (Except Problem Unit)}
    (hentry : MenuEntry.ofChoice? (Text.trim line) = some entry) (hexit : entry ≠ .exit)
    (h : ((s.command entry).run.run w lines).run t = (r, u)) :
    (s.turn.run w (some line :: lines)).run t
      = (⟨opening ++ (r.events ++ Command.report r.result), r.rest,
          r.result.map fun _ => .again⟩, u) := by
  have hrun : ((s.perform (Text.trim line)).run w lines).run t
      = (⟨r.events ++ Command.report r.result, r.rest, r.result.map fun _ => .again⟩, u) := by
    rw [perform, hentry]
    cases entry with
    | exit => exact absurd rfl hexit
    | _ =>
      simp only
      rw [Dialogue.run_bind, h]
      obtain ⟨events, rest, result⟩ := r
      match result with
      | none => simp [Dialogue.Run.follow, Command.report]
      | some (.ok ()) => rfl
      | some (.error p) => rfl
  exact turn_cons hrun

/-- The last turn of a session. -/
theorem play_over {r : Dialogue.Run Flow} (h : (s.turn.run w input).run t = (r, u))
    (hover : r.result = some .over) :
    (s.play w input).run t = (⟨r.events, .finished⟩, u) := by
  obtain ⟨events, rest, result⟩ := r
  obtain rfl : result = some .over := hover
  rw [Session.play, run_bind_of_run h]
  rfl

end Session

/-! ## Points -/

namespace Desk

/-- A point of a session at which a turn begins.  An identity logged in, which showed
`told`, some commands came to an end, and those lines and that state are left. -/
structure Point {σ : Type} (c : Config) (w : Dialogue.World (StateM σ)) (given : Option String)
    (input : List InputLine) (start : σ) where
  told : List Event
  session : Session
  lines : List InputLine
  entered : σ
  login : (((Desk.ofConfig c).login given).run w input).run start
    = (⟨told, lines, some (some session)⟩, entered)
  done : List Finished
  rest : List InputLine
  state : σ
  commands : Commands w session lines entered done rest state

namespace Point

/-- The point behind a login with a given text. -/
def behindLogin {σ : Type} {c : Config} {slot : String} {user : Identity}
    (h : c.identities.select slot = .ok user) (w : Dialogue.World (StateM σ))
    (input : List InputLine) (start : σ) : Point c w (some slot) input start where
  told := [.welcome user.name]
  session := ⟨Terms.ofConfig c, c.identities, user⟩
  lines := input
  entered := start
  login := login_given h w input start
  done := []
  rest := input
  state := start
  commands := .none

variable {σ : Type} {c : Config} {w : Dialogue.World (StateM σ)} {given : Option String}
  {input : List InputLine} {start : σ}

/-- What was shown up to the point. -/
def shown (p : Point c w given input start) : List Event :=
  p.told ++ p.done.flatMap Finished.shown

/-- The whole session is what was shown and what is still to come. -/
theorem play_eq (p : Point c w given input start) :
    ((Desk.ofConfig c).play w given input).run start
      = (⟨p.shown ++ ((p.session.play w p.rest).run p.state).1.events,
          ((p.session.play w p.rest).run p.state).1.ending⟩,
        ((p.session.play w p.rest).run p.state).2) := by
  rw [play_login p.login, p.commands.play, shown, List.append_assoc]

end Point

end Desk

/-- The first identity without a configuration. -/
theorem select_demo : ({} : Config).identities.select "1"
    = .ok ⟨"acc1", Config.demoAccount1, "keys/acc1_secret_key.pem"⟩ := rfl

/-- A world with a node in memory and without files. -/
def bareWorld : Dialogue.World (StateM Memory) :=
  memoryWorld Config.defaultContract fun _ => .error .missing

end TokenMarket
