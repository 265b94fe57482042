import TokenMarket.Session.Run

/-!
# The minutes of a dialogue

What a dialogue shows depends on the lines that are typed, on files, and on
a reader that may answer anything.  This module is about all the ways a
dialogue can go.

There are three groups.

* Minutes.  A `Remark` is an event, or a prompt together with the answer to
  it.  The minutes of a run are its remarks in order, and `Heard` says that
  their answers are the lines of an input.
* All ways.  `Dialogue.Always` says that a property holds of the minutes and
  the result of a dialogue in whichever way it goes; only the files are
  given.  `always_bind` is the rule for a dialogue behind another, and
  `run_minutes` turns such a property into one of an actual run.
* Sessions.  `play_turns` cuts the minutes of a session into turns: what
  always holds of one turn holds of each of them.  The induction is on the
  lines that are left.
-/

namespace TokenMarket

/-! ## Minutes -/

/-- Something that is said or asked in a dialogue. -/
inductive Remark where
  | said (e : Event)
  /-- A prompt and the line behind it; at the end of the input there is none. -/
  | asked (prompt : String) (answer : Option String)
  /-- A prompt and a line that is no text. -/
  | unread (prompt : String)

namespace Remark

/-- What is shown of a remark. -/
def event : Remark → Event
  | said e => e
  | asked prompt _ => .prompt prompt
  | unread prompt => .prompt prompt

/-- The prompt of a remark and the text that the answer stands for. -/
def answer? : Remark → Option (String × String)
  | asked prompt line => some (prompt, line.getD "")
  | _ => none

end Remark

/-- The prompts in minutes with the answers to them, in order. -/
def answers (minutes : List Remark) : List (String × String) :=
  minutes.filterMap Remark.answer?

/-- The answers in the minutes are the lines of the input, up to the lines
that are left. -/
inductive Heard : List Remark → (input rest : List InputLine) → Prop
  | nil {input : List InputLine} : Heard [] input input
  | said {e : Event} {minutes : List Remark} {input rest : List InputLine}
      (h : Heard minutes input rest) : Heard (.said e :: minutes) input rest
  | line {prompt text : String} {minutes : List Remark} {input rest : List InputLine}
      (h : Heard minutes input rest) :
      Heard (.asked prompt (some text) :: minutes) (some text :: input) rest
  | ended {prompt : String} {minutes : List Remark} {rest : List InputLine}
      (h : Heard minutes [] rest) : Heard (.asked prompt none :: minutes) [] rest
  | unread {prompt : String} {minutes : List Remark} {input rest : List InputLine}
      (h : Heard minutes input rest) : Heard (.unread prompt :: minutes) (none :: input) rest

theorem Heard.append {first second : List Remark} {input middle rest : List InputLine}
    (hfirst : Heard first input middle) (hsecond : Heard second middle rest) :
    Heard (first ++ second) input rest := by
  induction hfirst with
  | nil => exact hsecond
  | said _ ih => exact .said (ih hsecond)
  | line _ ih => exact .line (ih hsecond)
  | ended _ ih => exact .ended (ih hsecond)
  | unread _ ih => exact .unread (ih hsecond)

/-! ## All ways -/

namespace Dialogue

variable {α β : Type} {files : String → Except FileError String}

/-- In whichever way the dialogue goes, its minutes and its result have the
property.  There is no result if a line is no text. -/
def Always (files : String → Except FileError String) :
    Dialogue α → (List Remark → Option α → Prop) → Prop
  | done a, P => P [] (some a)
  | say e next, P => Always files next fun minutes => P (.said e :: minutes)
  | ask prompt next, P => P [.unread prompt] none
    ∧ ∀ line, Always files (next line) fun minutes => P (.asked prompt line :: minutes)
  | file path next, P => Always files (next (files path)) P
  | read _ next, P => ∀ answer, Always files (next answer) P

theorem Always.mono {d : Dialogue α} {P Q : List Remark → Option α → Prop}
    (hd : Always files d P) (h : ∀ minutes a, P minutes a → Q minutes a) : Always files d Q := by
  induction d generalizing P Q with
  | done a => exact h _ _ hd
  | say e next ih => exact ih hd fun _ _ => h _ _
  | ask prompt next ih => exact ⟨h _ _ hd.1, fun line => ih line (hd.2 line) fun _ _ => h _ _⟩
  | file path next ih => exact ih _ hd h
  | read q next ih => exact fun answer => ih answer (hd answer) h

/-- A dialogue behind another, by induction over the first. -/
theorem always_bind {d : Dialogue α} {f : α → Dialogue β} {P : List Remark → Option β → Prop}
    (h : Always files d fun first a => match a with
      | some a => Always files (f a) fun second => P (first ++ second)
      | none => P first none) : Always files (d >>= f) P := by
  change Always files (d.bind f) P
  induction d generalizing P with
  | done a => exact h
  | say e next ih => exact ih h
  | ask prompt next ih => exact ⟨h.1, fun line => ih line (h.2 line)⟩
  | file path next ih => exact ih _ h
  | read q next ih => exact fun answer => ih answer (h answer)

/-- Dialogues can be put together in any order. -/
instance : LawfulMonad Dialogue := LawfulMonad.mk' Dialogue
  (by
    intro α d
    change d.bind done = d
    induction d with
    | done a => rfl
    | say e next ih => exact congrArg _ ih
    | ask prompt next ih => exact congrArg _ (funext ih)
    | file path next ih => exact congrArg _ (funext ih)
    | read q next ih => exact congrArg _ (funext ih))
  (fun _ _ => rfl)
  (by
    intro α β γ d f g
    change (d.bind f).bind g = d.bind fun a => (f a).bind g
    induction d with
    | done a => rfl
    | say e next ih => exact congrArg _ ih
    | ask prompt next ih => exact congrArg _ (funext ih)
    | file path next ih => exact congrArg _ (funext ih)
    | read q next ih => exact congrArg _ (funext ih))

/-- The minutes of a dialogue as it is played on lines. -/
def minutes {σ : Type} (w : World (StateM σ)) : Dialogue α → List InputLine → σ → List Remark
  | done _, _, _ => []
  | say e next, input, t => .said e :: minutes w next input t
  | ask prompt next, [], t => .asked prompt none :: minutes w (next none) [] t
  | ask prompt next, some line :: rest, t =>
    .asked prompt (some line) :: minutes w (next (some line)) rest t
  | ask prompt _, none :: _, _ => [.unread prompt]
  | file path next, input, t => minutes w (next (w.file path)) input t
  | read q next, input, t =>
    minutes w (next ((w.reader q).run.run t).1) input ((w.reader q).run.run t).2

/-- The minutes are what is shown and heard, and what always holds holds of them. -/
theorem run_minutes {σ : Type} {w : World (StateM σ)} {d : Dialogue α}
    {P : List Remark → Option α → Prop} (h : Always w.file d P) (input : List InputLine) (t : σ) :
    ((d.run w input).run t).1.events = (d.minutes w input t).map Remark.event
      ∧ Heard (d.minutes w input t) input ((d.run w input).run t).1.rest
      ∧ P (d.minutes w input t) ((d.run w input).run t).1.result := by
  induction d generalizing P input t with
  | done a => exact ⟨rfl, .nil, h⟩
  | say e next ih =>
    obtain ⟨hevents, hheard, hP⟩ := ih h input t
    exact ⟨congrArg (e :: ·) hevents, .said hheard, hP⟩
  | ask prompt next ih =>
    match input with
    | [] =>
      obtain ⟨hevents, hheard, hP⟩ := ih none (h.2 none) [] t
      exact ⟨congrArg (_ :: ·) hevents, .ended hheard, hP⟩
    | some line :: rest =>
      obtain ⟨hevents, hheard, hP⟩ := ih (some line) (h.2 (some line)) rest t
      exact ⟨congrArg (_ :: ·) hevents, .line hheard, hP⟩
    | none :: rest => exact ⟨rfl, .unread .nil, h.1⟩
  | file path next ih => exact ih _ h input t
  | read q next ih => exact ih _ (h _) input _

/-- What always holds holds of a run: its events and the lines that it read
are those of some minutes with the property. -/
theorem run_always {σ : Type} {w : World (StateM σ)} {d : Dialogue α}
    {P : List Remark → Option α → Prop} (h : Always w.file d P) (input : List InputLine) (s : σ) :
    ∃ minutes, ((d.run w input).run s).1.events = minutes.map Remark.event
      ∧ Heard minutes input ((d.run w input).run s).1.rest
      ∧ P minutes ((d.run w input).run s).1.result :=
  ⟨d.minutes w input s, run_minutes h input s⟩

end Dialogue

/-! ## Sessions -/

/-- A session is its first turn, and behind it the session on the lines that
the turn left. -/
theorem Session.play_run {σ : Type} (w : Dialogue.World (StateM σ)) (s : Session)
    (input : List InputLine) (t : σ) :
    ((s.play w input).run t).1.events = ((s.turn.run w input).run t).1.events
      ∨ ((s.turn.run w input).run t).1.rest.length < input.length
        ∧ ((s.play w input).run t).1.events = ((s.turn.run w input).run t).1.events
          ++ ((s.play w ((s.turn.run w input).run t).1.rest).run
            ((s.turn.run w input).run t).2).1.events := by
  have hstep : ∀ f : Dialogue.Run Flow → StateM σ Transcript,
      ((s.turn.run w input >>= f).run t)
        = (f ((s.turn.run w input).run t).1).run ((s.turn.run w input).run t).2 := fun _ => rfl
  rw [Session.play, hstep]
  generalize (s.turn.run w input).run t = out
  obtain ⟨⟨events, rest, result⟩, u⟩ := out
  match result with
  | none => exact Or.inl rfl
  | some .over => exact Or.inl rfl
  | some .again =>
    by_cases hrest : rest.length < input.length
    · right
      refine ⟨hrest, ?_⟩
      simp only [dif_pos hrest]
      rfl
    · left
      simp only [dif_neg hrest]
      rfl

/-- The minutes of a session behind its login, turn by turn. -/
theorem Session.play_turns {σ : Type} {w : Dialogue.World (StateM σ)} {s : Session}
    {P : List Remark → Option Flow → Prop} (h : Dialogue.Always w.file s.turn P)
    (input : List InputLine) (t : σ) :
    ∃ (turns : List (List Remark)) (rest : List InputLine),
      ((s.play w input).run t).1.events = turns.flatten.map Remark.event
        ∧ Heard turns.flatten input rest ∧ ∀ turn ∈ turns, ∃ flow, P turn flow := by
  induction hlength : input.length using Nat.strongRecOn generalizing input t with
  | ind n ih =>
    obtain ⟨turn, hevents, hheard, hP⟩ := Dialogue.run_always h input t
    rcases Session.play_run w s input t with hplay | ⟨hrest, hplay⟩
    · refine ⟨[turn], _, by simpa [hplay] using hevents, by simpa using hheard, ?_⟩
      intro other hother
      rw [List.mem_singleton.1 hother]
      exact ⟨_, hP⟩
    · obtain ⟨turns, rest, hevents', hheard', hP'⟩ := ih _ (hlength ▸ hrest) _
        ((s.turn.run w input).run t).2 rfl
      refine ⟨turn :: turns, rest, ?_, ?_, ?_⟩
      · rw [hplay, hevents, hevents', List.flatten_cons, List.map_append]
      · exact hheard.append hheard'
      · intro other hother
        rcases List.mem_cons.1 hother with rfl | hother
        · exact ⟨_, hP⟩
        · exact hP' other hother

end TokenMarket
