import TokenMarket.Proofs.Course
import TokenMarket.Proofs.InputText
import TokenMarket.Proofs.Places

/-!
# How a session ends

A session ends for one of three reasons: nobody logs in, somebody leaves, or the
input is used up.  Nothing that goes wrong behind the login is among them, whatever
the reader answers and whatever the files hold.  This module proves that, and says
how many menus are shown on the way.

There are four groups.

* Texts.  A dialogue on lines that are texts comes to a result.
* Turns.  `turn_again_iff` says which turns are followed by another.
* Commands.  Each took a line and showed one menu, and `Commands.extend` plays them
  in front of other lines.
* Sessions.  `Ended` lists the reasons, and `Ends` is all that is said of the end of
  a session.
-/

namespace TokenMarket

/-! ## Texts -/

section Texts

variable {σ α : Type} {w : Dialogue.World (StateM σ)} {input : List InputLine} {t : σ}

/-- All of the lines are texts. -/
def Texts (lines : List InputLine) : Prop := ∀ line ∈ lines, line.isSome

theorem Texts.of_append {first second : List InputLine} (h : Texts (first ++ second)) :
    Texts second :=
  fun line hline => h line (List.mem_append_right first hline)

/-- Only a line that is no text keeps a dialogue from its result. -/
theorem Dialogue.run_texts (d : Dialogue α) (h : Texts input) :
    ∃ a, ((d.run w input).run t).1.result = some a := by
  induction d generalizing input t with
  | done a => exact ⟨a, rfl⟩
  | say e next ih => exact ih h
  | ask prompt next ih =>
    match input with
    | [] => exact ih none h
    | some line :: rest => exact ih (some line) (List.forall_mem_cons.1 h).2
    | none :: rest => cases (List.forall_mem_cons.1 h).1
  | file path next ih => exact ih _ h
  | read q next ih => exact ih _ h

end Texts

/-! ## Turns -/

namespace Session

variable {σ : Type} {w : Dialogue.World (StateM σ)} {s : Session} {input : List InputLine} {t : σ}

/-- Another turn follows as long as there are choices and none is to exit. -/
theorem turn_again_iff (h : Texts input) :
    ((s.turn.run w input).run t).1.result = some .again
      ↔ ∃ line lines, input = some line :: lines ∧ Text.trim line ≠ "0" := by
  rcases input with _ | ⟨_ | line, lines⟩
  · rw [turn_nil]
    simp
  · cases (List.forall_mem_cons.1 h).1
  have hlines : Texts lines := (List.forall_mem_cons.1 h).2
  by_cases hzero : Text.trim line = "0"
  · rw [turn_exit hzero]
    simp [hzero]
  have hagain : ((s.turn.run w (some line :: lines)).run t).1.result = some .again := by
    cases hentry : MenuEntry.ofChoice? (Text.trim line) with
    | none => rw [turn_unknown hentry]
    | some entry =>
      have hexit : entry ≠ .exit := by
        intro h
        subst h
        exact hzero (MenuEntry.ofChoice?_eq_exit_iff.1 hentry)
      obtain ⟨result, hresult⟩ := (s.command entry).run.run_texts (w := w) (t := t) hlines
      obtain ⟨r, u, hrun⟩ : ∃ r u, ((s.command entry).run.run w lines).run t = (r, u) :=
        ⟨_, _, rfl⟩
      rw [hrun] at hresult
      rw [turn_command hentry hexit hrun]
      exact congrArg (Option.map fun _ => Flow.again) hresult
  simp [hagain, hzero]

/-- The last turn shows its menu and no more. -/
theorem play_last_texts (h : Texts input)
    (hlast : ((s.turn.run w input).run t).1.result ≠ some .again) :
    (s.play w input).run t = (⟨opening, .finished⟩, t)
      ∧ (input = [] ∨ ∃ line lines, input = some line :: lines ∧ Text.trim line = "0") := by
  rcases input with _ | ⟨_ | line, lines⟩
  · exact ⟨play_over (turn_nil s t) rfl, Or.inl rfl⟩
  · cases (List.forall_mem_cons.1 h).1
  · have hzero : Text.trim line = "0" := by
      by_contra hzero
      exact hlast ((turn_again_iff h).2 ⟨line, lines, rfl, hzero⟩)
    exact ⟨play_over (turn_exit hzero) rfl, Or.inr ⟨line, lines, rfl, hzero⟩⟩

end Session

/-! ## Commands -/

/-- Whether an event is the menu. -/
def Event.isMenu : Event → Bool
  | menu => true
  | _ => false

theorem Plain.countP_menu {minutes : List Remark} (h : Plain minutes) :
    (minutes.map Remark.event).countP Event.isMenu = 0 := by
  apply List.countP_eq_zero.2
  intro e he hmenu
  obtain ⟨r, hr, rfl⟩ := List.mem_map.1 he
  have hplain := h r hr
  cases hevent : r.event with
  | menu =>
    rw [hevent] at hplain
    exact hplain
  | _ =>
    rw [hevent] at hmenu
    cases hmenu

/-- The minutes of a turn have one menu. -/
theorem Turn.countP_menu {c : Config} {files : String → Except FileError String}
    {user : Identity} {turn : List Remark} (h : Turn c files user turn) :
    (turn.map Remark.event).countP Event.isMenu = 1 := by
  have hbody : ∀ {body : List Remark}, Plain body → ∀ last : List Remark,
      (last.map Remark.event).countP Event.isMenu = 0 →
      ((.said .menu :: body ++ last).map Remark.event).countP Event.isMenu = 1 := by
    intro body hplain last hlast
    rw [List.map_append, List.countP_append, hlast, List.map_cons, List.countP_cons,
      hplain.countP_menu]
    rfl
  cases h with
  | @plain body hplain => exact List.append_nil body ▸ hbody hplain [] rfl
  | failed hplain => exact hbody hplain _ rfl
  | signed hsigned =>
    cases hsigned with
    | @intro line _ asked _ _ hasked =>
      have hchoice : (Remark.asked "Enter your choice : " (some line)).event.Plain :=
        Event.plain_prompt (by decide)
      exact hbody (hasked.cons hchoice) _ rfl

namespace Commands

variable {σ : Type} {w : Dialogue.World (StateM σ)} {s : Session} {input rest : List InputLine}
  {t u : σ} {done : List Finished}

/-- The commands took the lines up to those that are left. -/
theorem lines_eq (h : Commands w s input t done rest u) :
    input = done.flatMap Finished.lines ++ rest := by
  induction h with
  | none => rfl
  | more _ _ _ hlines _ ih => rw [hlines, ih, List.flatMap_cons, List.append_assoc, ← ih]

/-- Each command took a line. -/
theorem length_le (h : Commands w s input t done rest u) :
    done.length + rest.length ≤ input.length := by
  induction h with
  | none => exact Nat.le_of_eq (Nat.zero_add _)
  | more r hturn hagain _ _ ih =>
    have hshorter := Session.turn_shortens hturn hagain
    rw [List.length_cons]
    omega

/-- Each command showed one menu. -/
theorem countP_menu {c : Config} (hs : s = ⟨Terms.ofConfig c, c.identities, s.user⟩)
    (h : Commands w s input t done rest u) :
    (done.flatMap Finished.shown).countP Event.isMenu = done.length := by
  induction h with
  | none => rfl
  | @more input _ _ t _ _ _ r hturn _ _ _ ih =>
    have hways : Dialogue.Always w.file (⟨Terms.ofConfig c, c.identities, s.user⟩ : Session).turn
        fun turn _ => Turn c w.file s.user turn := always_turn
    rw [← hs] at hways
    obtain ⟨turn, hevents, -, hform⟩ := Dialogue.run_always (w := w) hways input t
    rw [hturn] at hevents
    rw [List.flatMap_cons, List.countP_append, ih, hevents, hform.countP_menu, List.length_cons,
      Nat.add_comm]

/-- If lines are left, then the commands go the same way before any others. -/
theorem extend (h : Commands w s input t done rest u) (hne : rest ≠ []) (other : List InputLine) :
    Commands w s (done.flatMap Finished.lines ++ other) t done other u := by
  induction h with
  | none => exact .none
  | @more input lines rest t _ _ done r hturn hagain hlines hnext ih =>
    have hleft : r.rest ≠ [] := by
      rw [hnext.lines_eq]
      exact List.append_ne_nil_of_right_ne_nil _ hne
    obtain ⟨taken, hinput, hother⟩ := Dialogue.run_extend (w := w) s.turn input t
    rw [hturn] at hinput hother
    obtain rfl : lines = taken := List.append_cancel_right (hlines.symm.trans hinput)
    -- The turn leaves the lines of the later commands, so it did not see the end.
    rw [List.flatMap_cons, List.append_assoc]
    have hturn' := hother (done.flatMap Finished.lines ++ other) fun h => absurd h hleft
    exact .more ⟨r.events, done.flatMap Finished.lines ++ other, r.result⟩ hturn' hagain rfl
      (ih hne)

end Commands

/-! ## Sessions -/

namespace Desk

section Sessions

variable {σ : Type} {c : Config} {w : Dialogue.World (StateM σ)} {given : Option String}
  {input : List InputLine} {start : σ}

variable (c w given input start) in
/-- A login shows no menu. -/
theorem login_menus :
    ((((Desk.ofConfig c).login given).run w input).run start).1.events.countP Event.isMenu = 0 := by
  obtain ⟨minutes, hevents, -, selected, hlogin, -⟩ :=
    Dialogue.run_always (w := w) (always_login c w.file given) input start
  rw [hevents]
  cases hlogin with
  | unread => rfl
  | refused hpicked _ => cases hpicked <;> rfl
  | welcome hpicked _ => cases hpicked <;> rfl

variable (c w given start) in
/-- The text that picks an identity is found without the reader. -/
theorem slot_texts (h : Texts input) :
    ∃ asked text rest, Picked c.identities given asked text ∧ Heard asked input rest
      ∧ (((Desk.ofConfig c).slot given).run w input).run start
        = (⟨asked.map Remark.event, rest, some text⟩, start) := by
  cases given with
  | some text => exact ⟨[], text, input, .given, .nil, rfl⟩
  | none =>
    rcases input with _ | ⟨_ | line, lines⟩
    · exact ⟨_, _, [], .asked, .ended .nil, rfl⟩
    · cases (List.forall_mem_cons.1 h).1
    · exact ⟨_, _, lines, .asked, .line .nil, rfl⟩

variable (c w given start) in
/-- Somebody logs in, or nobody is known by the text.  The reader is not asked. -/
theorem login_texts (h : Texts input) :
    (∃ told lines s, (((Desk.ofConfig c).login given).run w input).run start
        = (⟨told, lines, some (some s)⟩, start))
      ∨ ∃ asked text rest, Picked c.identities given asked text ∧ Heard asked input rest
        ∧ c.identities.select text = .error (.unknownIdentity (Text.trim text))
        ∧ (((Desk.ofConfig c).login given).run w input).run start
          = (⟨asked.map Remark.event
              ++ [.failure (.marketplace (.unknownIdentity (Text.trim text)))], rest, some none⟩,
            start) := by
  obtain ⟨asked, text, rest, hpicked, hheard, hslot⟩ := slot_texts c w given start h
  rw [login, Dialogue.run_bind, hslot]
  cases hselect : c.identities.select text with
  | ok user =>
    left
    simp only [Dialogue.Run.follow, ofConfig, hselect]
    exact ⟨_, _, _, rfl⟩
  | error e =>
    right
    obtain ⟨-, -, rfl⟩ := Registry.select_eq_error_iff.1 hselect
    refine ⟨asked, text, rest, hpicked, hheard, hselect, ?_⟩
    simp only [Dialogue.Run.follow, ofConfig, hselect]
    rfl

namespace Point

/-- The lines up to those that are left, before any others, lead to the same point. -/
theorem extend (p : Point c w given input start) :
    ∃ taken, input = taken ++ p.rest ∧ (p.rest ≠ [] → ∀ other,
      ∃ q : Point c w given (taken ++ other) start,
        q.shown = p.shown ∧ q.session = p.session ∧ q.rest = other ∧ q.state = p.state) := by
  obtain ⟨first, hinput, hother⟩ :=
    Dialogue.run_extend (w := w) ((Desk.ofConfig c).login given) input start
  rw [p.login] at hinput hother
  have hlines := p.commands.lines_eq
  refine ⟨first ++ p.done.flatMap Finished.lines, ?_, fun hne other => ?_⟩
  · rw [List.append_assoc, ← hlines]
    exact hinput
  · have hleft : p.lines ≠ [] := by
      rw [hlines]
      exact List.append_ne_nil_of_right_ne_nil _ hne
    have hlogin := hother (p.done.flatMap Finished.lines ++ other) fun h => absurd h hleft
    rw [← List.append_assoc] at hlogin
    exact ⟨⟨p.told, p.session, _, p.entered, hlogin, p.done, other, p.state,
      p.commands.extend hne other⟩, rfl, rfl, rfl, rfl⟩

theorem countP_menu (p : Point c w given input start) :
    p.shown.countP Event.isMenu = p.done.length := by
  have htold := login_menus c w given input start
  rw [p.login] at htold
  have hdone := p.commands.countP_menu (login_session p.login)
  rw [shown, List.countP_append, htold, hdone, Nat.zero_add]

/-- There were no more commands than lines. -/
theorem length_done_le (p : Point c w given input start) : p.done.length ≤ input.length := by
  obtain ⟨first, hinput, -⟩ :=
    Dialogue.run_extend (w := w) ((Desk.ofConfig c).login given) input start
  rw [p.login] at hinput
  have hlength : input.length = first.length + p.lines.length :=
    (congrArg List.length hinput).trans List.length_append
  have hdone := p.commands.length_le
  omega

theorem texts (p : Point c w given input start) (h : Texts input) : Texts p.rest := by
  obtain ⟨taken, hinput, -⟩ := p.extend
  rw [hinput] at h
  exact h.of_append

end Point

/-- The reasons for which a session ends, with what is shown and the state of the reader. -/
inductive Ended (c : Config) (w : Dialogue.World (StateM σ)) (given : Option String)
    (input : List InputLine) (start : σ) : Transcript × σ → Prop
  /-- Nobody logged in.  That is told, and nothing was read. -/
  | refused {asked : List Remark} {text : String} {rest : List InputLine}
      (hpicked : Picked c.identities given asked text) (hheard : Heard asked input rest)
      (hselect : c.identities.select text = .error (.unknownIdentity (Text.trim text))) :
      Ended c w given input start (⟨asked.map Remark.event
        ++ [.failure (.marketplace (.unknownIdentity (Text.trim text)))], .finished⟩, start)
  /-- The choice was to exit. -/
  | left (p : Point c w given input start) {line : String} {rest : List InputLine}
      (hrest : p.rest = some line :: rest) (hzero : Text.trim line = "0") :
      Ended c w given input start (⟨p.shown ++ Session.opening, .finished⟩, p.state)
  /-- There was no choice any more. -/
  | usedUp (p : Point c w given input start) (hrest : p.rest = []) :
      Ended c w given input start (⟨p.shown ++ Session.opening, .finished⟩, p.state)

/-- A session of which all lines are texts has one of the reasons to end. -/
theorem play_ended (h : Texts input) :
    Ended c w given input start (((Desk.ofConfig c).play w given input).run start) := by
  rcases login_texts c w given start h with
    ⟨told, lines, s, hlogin⟩ | ⟨asked, text, rest, hpicked, hheard, hselect, hlogin⟩
  · -- The last turn tells why the session ends.
    obtain ⟨done, rest, u, hcommands, hlast⟩ := Commands.exists_last w s lines start
    let p : Point c w given input start :=
      ⟨told, s, lines, start, hlogin, done, rest, u, hcommands⟩
    obtain ⟨hplay, hwhy⟩ := Session.play_last_texts (p.texts h) hlast
    rw [p.play_eq, hplay]
    rcases hwhy with hrest | ⟨line, rest, hrest, hzero⟩
    · exact .usedUp p hrest
    · exact .left p hrest hzero
  · rw [play, run_bind_of_run hlogin]
    exact .refused hpicked hheard hselect

/-- A session shows a menu for each of its commands, and one more. -/
theorem Ended.countP_menu_le {out : Transcript × σ} (h : Ended c w given input start out) :
    out.1.events.countP Event.isMenu ≤ input.length + 1 := by
  have hpoint : ∀ p : Point c w given input start,
      (p.shown ++ Session.opening).countP Event.isMenu ≤ input.length + 1 := by
    intro p
    rw [List.countP_append, p.countP_menu]
    exact Nat.succ_le_succ p.length_done_le
  cases h with
  | refused hpicked => cases hpicked <;> exact Nat.zero_le _
  | left p _ _ => exact hpoint p
  | usedUp p _ => exact hpoint p

/-- Whoever leaves does not read the lines behind the choice. -/
theorem Point.play_exit (p : Point c w given input start) {line : String} {rest : List InputLine}
    (hrest : p.rest = some line :: rest) (hzero : Text.trim line = "0") :
    ∃ taken, input = taken ++ some line :: rest ∧ ∀ other,
      ((Desk.ofConfig c).play w given (taken ++ some line :: other)).run start
        = ((Desk.ofConfig c).play w given input).run start := by
  have hplay : ∀ other, (p.session.play w (some line :: other)).run p.state
      = (⟨Session.opening, .finished⟩, p.state) :=
    fun other => Session.play_over (Session.turn_exit hzero) rfl
  obtain ⟨taken, hinput, hother⟩ := p.extend
  refine ⟨taken, hrest ▸ hinput, fun other => ?_⟩
  -- Before other lines there is the same point, and the session is split at both.
  obtain ⟨q, hshown, hsession, hleft, hstate⟩ := hother (by simp [hrest]) (some line :: other)
  rw [q.play_eq, p.play_eq, hshown, hsession, hleft, hstate, hrest, hplay, hplay]

/-- What is said of the end of a session. -/
structure Ends (c : Config) (w : Dialogue.World (StateM σ)) (given : Option String)
    (input : List InputLine) (start : σ) : Prop where
  /-- The session ends for one of the reasons. -/
  ended : Ended c w given input start (((Desk.ofConfig c).play w given input).run start)
  /-- Behind the login it goes on until there is no choice or the choice is to exit. -/
  again : ∀ p : Point c w given input start,
    ((p.session.turn.run w p.rest).run p.state).1.result = some .again
      ↔ ∃ line rest, p.rest = some line :: rest ∧ Text.trim line ≠ "0"
  /-- A turn behind which it goes on takes a line. -/
  takes : ∀ p : Point c w given input start,
    ((p.session.turn.run w p.rest).run p.state).1.result = some .again →
      ∃ lines, lines ≠ [] ∧ p.rest = lines ++ ((p.session.turn.run w p.rest).run p.state).1.rest
  /-- There is at most one more menu than there are lines. -/
  menus : (((Desk.ofConfig c).play w given input).run start).1.events.countP Event.isMenu
    ≤ input.length + 1
  /-- Lines behind the choice to exit are left, and it does not matter which they are. -/
  exit : ∀ (p : Point c w given input start) {line : String} {rest : List InputLine},
    p.rest = some line :: rest → Text.trim line = "0" →
      (p.session.turn.run w p.rest).run p.state = (⟨Session.opening, rest, some .over⟩, p.state)
        ∧ ∃ taken, input = taken ++ some line :: rest ∧ ∀ other,
          ((Desk.ofConfig c).play w given (taken ++ some line :: other)).run start
            = ((Desk.ofConfig c).play w given input).run start

end Sessions

/-- A session ends, and nothing but the login, an exit or the input can end it. -/
theorem play_ends {σ : Type} (c : Config) (w : Dialogue.World (StateM σ)) (given : Option String)
    {input : List UInt8} (htext : (Utf8.decode? input).isSome) (start : σ) :
    Ends c w given (Input.lines input) start where
  ended := play_ended (Input.isSome_of_mem_lines htext)
  again p := Session.turn_again_iff (p.texts (Input.isSome_of_mem_lines htext))
  takes p hagain := by
    have hshorter := Session.turn_shortens (w := w) rfl hagain
    obtain ⟨lines, hrest, -⟩ := Dialogue.run_extend (w := w) p.session.turn p.rest p.state
    refine ⟨lines, ?_, hrest⟩
    intro hnil
    subst hnil
    exact absurd (congrArg List.length hrest) (Nat.ne_of_gt hshorter)
  menus := (play_ended (Input.isSome_of_mem_lines htext)).countP_menu_le
  exit p _ _ hrest hzero := ⟨hrest ▸ Session.turn_exit hzero, p.play_exit hrest hzero⟩

/-- A token is looked up in vain, somebody leaves, and a line is left over. -/
theorem play_ends_leaving :
    (Utf8.decode? [49, 48, 10, 53, 10, 48, 10, 120]).isSome
      ∧ Ends {} bareWorld (some "1") (Input.lines [49, 48, 10, 53, 10, 48, 10, 120]) {} := by
  have htext : (Utf8.decode? [49, 48, 10, 53, 10, 48, 10, 120]).isSome := by decide +kernel
  exact ⟨htext, play_ends {} bareWorld (some "1") htext {}⟩

end Desk

end TokenMarket
