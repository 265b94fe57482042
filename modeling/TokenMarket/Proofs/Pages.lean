import Mathlib.Tactic.Choose
import TokenMarket.Proofs.LineEnds
import TokenMarket.Session.Console

/-!
# What is written as it goes is what was collected

A session can be played in two ways.  `Desk.play` collects the events, and their text is
made of all of them at the end.  `Desk.playOn` writes each event on a page before it asks
the next question, as a terminal does.  This module proves that nothing else is different.

There are four groups.

* Painted events.  With the paint of a session their text is the one of `renderEvents`.
* Dialogues.  `Console.play_onPage` is the induction over a dialogue.
* Sessions.  `Written` says of a session that is collected and one that is written that
  both do the same.  It has one rule for the end of a session and one for a dialogue with
  the session behind it, and `Session.written_playOn` is the induction over the lines that
  are left.
* Sittings.  A `Sitting` is what came of a session on a page, with the list of its reads.
  `Desk.sitting_eq` says which part of it depends on the paint.
-/

namespace TokenMarket

/-! ## Painted events -/

section Painted

variable {paint : Paint} {colored : Bool}

theorem Span.painted_of (s : Span) : s.painted (.of colored) = s.render colored := by
  obtain ⟨color, text⟩ := s
  cases color with
  | none => rfl
  | some color => rfl

theorem paintEvents_of (events : List Event) :
    paintEvents (.of colored) events = renderEvents colored events := by
  have hspans : Span.painted (.of colored) = Span.render colored := funext Span.painted_of
  have hevent : Event.painted (.of colored) = Event.render colored := by
    funext e
    rw [Event.painted, Event.render, hspans]
  rw [paintEvents, renderEvents, hevent]

@[simp] theorem paintEvents_nil : paintEvents paint [] = "" := rfl

theorem paintEvents_cons (e : Event) (events : List Event) :
    paintEvents paint (e :: events) = e.painted paint ++ paintEvents paint events :=
  String.join_cons

theorem paintEvents_append (first second : List Event) :
    paintEvents paint (first ++ second) = paintEvents paint first ++ paintEvents paint second := by
  rw [paintEvents, List.map_append, String.join_append]
  rfl

end Painted

/-! ## Dialogues -/

section Dialogues

variable {m : Type → Type} [Monad m] [LawfulMonad m] {α : Type}

/-- The page behind a dialogue that went like this. -/
def Dialogue.Run.page (paint : Paint) (written : String) (r : Run α) : Page :=
  ⟨written ++ paintEvents paint r.events, r.rest⟩

theorem Dialogue.Run.page_after (paint : Paint) (written : String) (e : Event) (r : Run α) :
    (r.after e).page paint written = r.page paint (written ++ e.painted paint) := by
  simp only [page, after, paintEvents_cons, String.append_assoc]

namespace Console

variable (paint : Paint) (w : Dialogue.World m)

omit [LawfulMonad m] in
theorem display_onPage (e : Event) (p : Page) :
    ((onPage paint w).display e).run p = pure ((), ⟨p.written ++ e.painted paint, p.rest⟩) :=
  StateT.run_modify ..

omit [LawfulMonad m] in
theorem line_onPage (p : Page) : (onPage paint w).line.run p = pure p.next :=
  StateT.run_modifyGet ..

theorem reader_onPage (q : Read) (p : Page) :
    ((onPage paint w).reader q).run.run p = (·, p) <$> (w.reader q).run :=
  (StateT.run_lift ..).trans (bind_pure_comp ..)

/-- The rest of a dialogue behind an event. -/
theorem map_shown (e : Event) (written : String) (x : m (Dialogue.Run α)) :
    (fun r => (r.result, r.page paint (written ++ e.painted paint))) <$> x
      = (fun r => (r.result, r.page paint written))
        <$> (do return (← x).after e : m (Dialogue.Run α)) := by
  rw [bind_pure_comp, Functor.map_map]
  exact congrArg (· <$> x) (funext fun r => by rw [Dialogue.Run.page_after]; rfl)

/-- A dialogue on a page goes as it goes on the lines of the page. -/
theorem play_onPage (d : Dialogue α) (written : String) (input : List InputLine) :
    ((onPage paint w).play d).run ⟨written, input⟩
      = (fun r => (r.result, r.page paint written)) <$> d.run w input := by
  induction d generalizing written input with
  | done a => simp [play, Dialogue.run, Dialogue.Run.page]
  | say e next ih =>
    rw [play, StateT.run_bind, display_onPage, pure_bind, ih, map_shown]
    rfl
  | ask prompt next ih =>
    rw [play, StateT.run_bind, display_onPage, pure_bind, StateT.run_bind, line_onPage, pure_bind]
    match input with
    | [] =>
      simp only [Page.next, ih, map_shown]
      rfl
    | some line :: rest =>
      simp only [Page.next, ih, map_shown]
      rfl
    | none :: rest => simp [Page.next, Dialogue.run, Dialogue.Run.page, paintEvents_cons]
  | file path next ih =>
    rw [play, Dialogue.run, ← ih, StateT.run_bind, onPage, StateT.run_pure, pure_bind]
  | read q next ih =>
    rw [play, Dialogue.run, StateT.run_bind, reader_onPage, bind_map_left, map_bind]
    exact bind_congr fun answer => ih answer written input

end Console

end Dialogues

/-! ## Sessions -/

section Sessions

variable {m : Type → Type} [Monad m]

/-- A transcript with other events in front. -/
def Transcript.behind (events : List Event) (t : Transcript) : Transcript :=
  ⟨events ++ t.events, t.ending⟩

/-- A session that is collected and one that is written are the same: both come with a list
of lines that were not read, and what is written is what was collected. -/
def Written (collected : m Transcript) (writing : Paint → String → m (Ending × Page)) : Prop :=
  ∃ both : m (Transcript × List InputLine), collected = Prod.fst <$> both
    ∧ ∀ paint written, writing paint written
      = (fun out => (out.1.ending, ⟨written ++ paintEvents paint out.1.events, out.2⟩)) <$> both

variable [LawfulMonad m] {α : Type}

theorem written_pure (events : List Event) (ending : Ending) (rest : List InputLine) :
    Written (pure ⟨events, ending⟩ : m Transcript) fun paint written =>
      pure (ending, ⟨written ++ paintEvents paint events, rest⟩) :=
  ⟨pure (⟨events, ending⟩, rest), by rw [map_pure], fun paint written => by rw [map_pure]⟩

/-- What was written already stands in front. -/
theorem Written.behind {collected : m Transcript} {writing : Paint → String → m (Ending × Page)}
    (h : Written collected writing) (events : List Event) :
    Written (Transcript.behind events <$> collected) fun paint written =>
      writing paint (written ++ paintEvents paint events) := by
  obtain ⟨both, rfl, hwriting⟩ := h
  refine ⟨(fun out => (out.1.behind events, out.2)) <$> both, ?_, fun paint written => ?_⟩
  · rw [Functor.map_map, Functor.map_map]
  · simp only [hwriting, Functor.map_map, Transcript.behind, paintEvents_append,
      String.append_assoc]

/-- A dialogue with a session behind it. -/
theorem written_dialogue {w : Dialogue.World m} (d : Dialogue α) (input : List InputLine)
    {f : Dialogue.Run α → m Transcript} {g : Paint → String → Option α × Page → m (Ending × Page)}
    (h : ∀ r, Written (f r) fun paint written =>
      g paint written (r.result, ⟨written ++ paintEvents paint r.events, r.rest⟩)) :
    Written (d.run w input >>= f) fun paint written =>
      ((Console.onPage paint w).play d).run ⟨written, input⟩ >>= g paint written := by
  choose both hcollected hwriting using h
  refine ⟨d.run w input >>= both, ?_, fun paint written => ?_⟩
  · rw [map_bind]
    exact bind_congr hcollected
  · simp only [Console.play_onPage, bind_map_left, map_bind]
    exact bind_congr fun r => hwriting r paint written

/-- A session that is written shows what was collected.  The induction is on the lines that
are left. -/
theorem Session.written_playOn (w : Dialogue.World m) (s : Session) (input : List InputLine) :
    Written (s.play w input) fun paint written => s.playOn paint w ⟨written, input⟩ := by
  induction hlength : input.length using Nat.strongRecOn generalizing input with
  | ind n ih =>
    unfold play playOn
    refine written_dialogue (w := w) s.turn input ?_
    rintro ⟨events, rest, flow⟩
    match flow with
    | none => exact written_pure events .unreadable rest
    | some .over => exact written_pure events .finished rest
    | some .again =>
      by_cases hrest : rest.length < input.length
      · simp only [dif_pos hrest, bind_pure_comp]
        exact (ih _ (hlength ▸ hrest) rest rfl).behind events
      · simp only [dif_neg hrest]
        exact written_pure events .finished rest

/-- The same from the login on. -/
theorem Desk.written_playOn (d : Desk) (w : Dialogue.World m) (given : Option String)
    (input : List InputLine) :
    Written (d.play w given input) fun paint written =>
      d.playOn paint w given ⟨written, input⟩ := by
  simp only [play, playOn]
  refine written_dialogue (w := w) (d.login given) input ?_
  rintro ⟨events, rest, result⟩
  match result with
  | none => exact written_pure events .unreadable rest
  | some none => exact written_pure events .finished rest
  | some (some s) =>
    simp only [bind_pure_comp]
    exact (s.written_playOn w rest).behind events

end Sessions

/-! ## Sittings -/

/-- What came of a session on a page. -/
structure Sitting (σ : Type) where
  /-- What was written. -/
  output : String
  /-- The lines that were not read. -/
  rest : List InputLine
  ending : Ending
  /-- The reads, in order. -/
  reads : List Read
  /-- The state that the reader was left in. -/
  state : σ

namespace Desk

variable {σ : Type}

/-- Plays a session from its login on a blank page. -/
def sitting (d : Desk) (paint : Paint) (w : Dialogue.World (StateM σ)) (given : Option String)
    (input : List InputLine) (start : σ) : Sitting σ :=
  let (((ending, page), reads), state) :=
    ((d.playOn paint w.noted given (.blank input)).run []).run start
  { output := page.written, rest := page.rest, ending, reads, state }

/-- Of a sitting nothing but the output depends on the paint, and the output is what was
collected in that paint. -/
theorem sitting_eq (d : Desk) (w : Dialogue.World (StateM σ)) (given : Option String)
    (input : List InputLine) (start : σ) :
    ∃ rest reads, ∀ paint, d.sitting paint w given input start
      = { output := paintEvents paint ((d.play w given input).run start).1.events, rest,
          ending := ((d.play w given input).run start).1.ending, reads,
          state := ((d.play w given input).run start).2 } := by
  obtain ⟨both, hcollected, hwriting⟩ := d.written_playOn w.noted given input
  have hplay : (d.play w given input).run start
      = (((both.run []).run start).1.1.1, ((both.run []).run start).2) := by
    rw [← notes_play d w given input [], hcollected]
    rfl
  refine ⟨((both.run []).run start).1.1.2, ((both.run []).run start).1.2, fun paint => ?_⟩
  simp only [sitting, Page.blank, hwriting, hplay, String.empty_append]
  rfl

/-- In the paint of a session the output is the text of its events. -/
theorem output_sitting (d : Desk) (colored : Bool) (w : Dialogue.World (StateM σ))
    (given : Option String) (input : List InputLine) (start : σ) :
    (d.sitting (.of colored) w given input start).output
      = renderEvents colored ((d.play w given input).run start).1.events := by
  obtain ⟨rest, reads, hsitting⟩ := d.sitting_eq w given input start
  rw [hsitting, paintEvents_of]

end Desk

end TokenMarket
