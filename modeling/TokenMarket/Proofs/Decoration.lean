import TokenMarket.Proofs.Course
import TokenMarket.Proofs.EscapeFree
import TokenMarket.Proofs.Inventory
import TokenMarket.Proofs.Pages

/-!
# Colours are decoration

A session can be shown in colours or plainly.  Both show texts from outside, and some of
them may look like colours.  This module shows that the sequences of the colours can be
deleted again, and that the plain session is left, if no text from outside has an escape
character.

There are two groups.

* Events.  `Event.From.clear` looks at the places that the texts of an event come from, and
  `Desk.play_clear` is about all events of a session.
* Sittings.  `Desk.sitting_decorated` is the result.
-/

namespace TokenMarket

open Ansi (NoEscape)

/-! ## Events -/

/-- An event is clear if the texts that it takes from its sources are. -/
theorem Event.From.clear {src : Sources} {e : Event} (h : e.From src)
    (hnames : ∀ name, src.names name → NoEscape name)
    (hchoices : ∀ choice, src.choices choice → NoEscape choice)
    (hdeploys : ∀ d, src.deploys d → NoEscape d.command) : e.Clear := by
  cases e with
  | prompt text => exact clear_prompt (h.not_mem (by decide))
  | menu => exact clear_menu
  | welcome name => exact clear_welcome (hnames name h)
  | heading text => exact clear_heading (h.not_mem (by decide))
  | record view => exact clear_record view
  | deploy d => exact clear_deploy (hdeploys d h)
  | failure p => trivial
  | unknownChoice choice => exact clear_unknownChoice (hchoices choice h)

/-- A session shows no escape character but in a failure. -/
theorem Desk.play_clear {σ : Type} {c : Config} (hc : c.EscapeFree)
    (w : Dialogue.World (StateM σ)) (given : Option String) {input : List InputLine}
    (hinput : ∀ line, some line ∈ input → NoEscape line) (t : σ) :
    ∀ e ∈ (((Desk.ofConfig c).play w given input).run t).1.events, e.Clear := by
  intro e he
  refine (Desk.play_from c w given input t e he).clear ?_ ?_ ?_
  · rintro _ ⟨user, huser, rfl⟩
    exact (hc.identities user huser).1
  · rintro _ ⟨line, hline, rfl⟩
    exact fun hmem => hinput line hline (Text.mem_of_mem_trim hmem)
  · rintro d ⟨user, huser, order, hd⟩
    exact Terms.noEscape_command hc (hc.identities user huser).2 hd

/-! ## Sittings -/

/-- Colours are decoration.

If the input, the configuration and the texts of the failures have no escape characters, then
a session in colours and the plain one make the same reads, leave the same lines unread and
the reader in the same state, and end in the same way.  Delete the sequences that switch
colours from what the one writes, and what the other writes is left.  The paint may be any
that puts a text between such sequences.  Nothing is asked of what the reader answers and of
what the files hold.  A record is shown with its controls escaped, and the metadata of a
deploy has none. -/
theorem Desk.sitting_decorated {σ : Type} (c : Config) (w : Dialogue.World (StateM σ))
    (given : Option String) (input : List InputLine) (start : σ) (paint : Paint)
    (hpaint : paint.Styles) (hconfig : c.EscapeFree)
    (hinput : ∀ line, some line ∈ input → NoEscape line)
    (herrors : ∀ p, .failure p ∈ (((Desk.ofConfig c).play w given input).run start).1.events →
      NoEscape p.message) :
    let colored := (Desk.ofConfig c).sitting paint w given input start
    let plain := (Desk.ofConfig c).sitting (.of false) w given input start
    colored.reads = plain.reads ∧ colored.rest = plain.rest ∧ colored.ending = plain.ending
      ∧ colored.state = plain.state ∧ Ansi.strip colored.output.toList = plain.output.toList
      ∧ ∀ b, ((Desk.ofConfig c).sitting (.of b) w given input start).output
        = renderEvents b (((Desk.ofConfig c).play w given input).run start).1.events := by
  intro colored plain
  obtain ⟨rest, reads, hsitting⟩ := (Desk.ofConfig c).sitting_eq w given input start
  have hfree : ∀ e ∈ (((Desk.ofConfig c).play w given input).run start).1.events, e.EscapeFree := by
    intro e he
    refine (Desk.play_clear hconfig w given hinput start e he).escapeFree ?_
    rintro p rfl
    exact herrors p he
  have hstrip : Ansi.strip colored.output.toList = plain.output.toList := by
    simp only [colored, plain, hsitting, paintEvents_of]
    exact strip_paintEvents hpaint hfree
  refine ⟨?_, ?_, ?_, ?_, hstrip, fun b => output_sitting _ b w given input start⟩
  all_goals simp only [colored, plain, hsitting]

/-- Somebody with a name that looks like a part of a colour. -/
def Identity.bracketed : Identity := ⟨"[1m;7", Config.demoAccount1, "keys/[0m.pem"⟩

def Config.bracketed : Config := { identities := [.bracketed] }

def Session.bracketed : Session := ⟨Terms.ofConfig .bracketed, [.bracketed], .bracketed⟩

/-- A world without a node, which says so in such words. -/
def absentWorld : Dialogue.World (StateM Unit) where
  reader _ := ExceptT.mk (pure (.error (.nodeUnavailable "[38;5;9m")))
  file _ := .error .missing

/-- A login, a choice that looks like a part of a colour, and a question to the node. -/
def bracketedInput : List InputLine := [some "1", some "[31m", some "10", some "5"]

/-- What is shown then.  At the end of the input another turn has begun. -/
def bracketedEvents : List Event :=
  [.prompt (Session.slotPrompt "Login using user" [.bracketed]), .welcome "[1m;7",
    .menu, .prompt "Enter your choice : ", .unknownChoice "[31m",
    .menu, .prompt "Enter your choice : ", .prompt "Enter the token_id : ",
    .failure (.marketplace (.nodeUnavailable "[38;5;9m")),
    .menu, .prompt "Enter your choice : "]

theorem Desk.play_bracketed : (((Desk.ofConfig .bracketed).play absentWorld none
    bracketedInput).run ()).1.events = bracketedEvents := by
  have hlogin : (((Desk.ofConfig .bracketed).login none).run absentWorld bracketedInput).run ()
      = (⟨[.prompt (Session.slotPrompt "Login using user" [.bracketed]), .welcome "[1m;7"],
          [some "[31m", some "10", some "5"], some (some .bracketed)⟩, ()) := rfl
  have hunknown : (Session.bracketed.turn.run absentWorld
      [some "[31m", some "10", some "5"]).run ()
      = (⟨[.menu, .prompt "Enter your choice : ", .unknownChoice "[31m"],
          [some "10", some "5"], some .again⟩, ()) := rfl
  have hfailed : (Session.bracketed.turn.run absentWorld [some "10", some "5"]).run ()
      = (⟨[.menu, .prompt "Enter your choice : ", .prompt "Enter the token_id : ",
          .failure (.marketplace (.nodeUnavailable "[38;5;9m"))], [], some .again⟩, ()) := rfl
  have hover : (Session.bracketed.turn.run absentWorld []).run ()
      = (⟨[.menu, .prompt "Enter your choice : "], [], some .over⟩, ()) := rfl
  rw [play_login hlogin, Session.play_again hunknown rfl, Session.play_again hfailed rfl,
    Session.play_over hover rfl]
  rfl

/-- Nothing but the colours is deleted where the texts from outside look like colours. -/
theorem Desk.sitting_decorated_brackets :
    let colored := (Desk.ofConfig .bracketed).sitting (.of true) absentWorld none bracketedInput ()
    let plain := (Desk.ofConfig .bracketed).sitting (.of false) absentWorld none bracketedInput ()
    colored.reads = plain.reads ∧ Ansi.strip colored.output.toList = plain.output.toList
      ∧ colored.output = renderEvents true bracketedEvents
      ∧ plain.output = renderEvents false bracketedEvents := by
  have hconfig : Config.bracketed.EscapeFree := by
    refine ⟨by decide, by decide, by decide, by decide, ?_⟩
    rw [Config.bracketed, List.forall_mem_singleton]
    decide
  have hinput : ∀ line, some line ∈ bracketedInput → NoEscape line := by
    simp only [bracketedInput, List.mem_cons, Option.some.injEq, List.not_mem_nil, or_false]
    rintro line (rfl | rfl | rfl | rfl) <;> decide
  have herrors : ∀ p, .failure p ∈ (((Desk.ofConfig .bracketed).play absentWorld none
      bracketedInput).run ()).1.events → NoEscape p.message := by
    intro p hp
    rw [play_bracketed] at hp
    obtain rfl : p = .marketplace (.nodeUnavailable "[38;5;9m") := by
      simpa [bracketedEvents] using hp
    decide
  obtain ⟨hreads, -, -, -, hstrip, houtput⟩ := sitting_decorated .bracketed absentWorld none
    bracketedInput () (.of true) (Paint.styles_of true) hconfig hinput herrors
  rw [play_bracketed] at houtput
  exact ⟨hreads, hstrip, houtput true, houtput false⟩

end TokenMarket
