import TokenMarket.Session.Event
import TokenMarket.Session.Input
import TokenMarket.State.Read

/-!
# Dialogues

A dialogue is what a program says and asks before it comes to a result.
It can show an event, ask a person for a line, ask for the text of a file,
and read from the marketplace.  Each question carries the dialogue that
follows for every possible answer.

A dialogue does nothing by itself.  `Dialogue.run` plays it against lines
that are given beforehand and a reader in any monad, and collects what it
shows.  The same dialogue can be played at a terminal.  A dialogue is a
finite tree along every branch, so playing it ends.
-/

namespace TokenMarket

/-- A program that shows, asks and reads. -/
inductive Dialogue (α : Type) : Type where
  | done (result : α)
  | say (event : Event) (next : Dialogue α)
  /-- Asks for a line; at the end of the input there is none. -/
  | ask (prompt : String) (next : Option String → Dialogue α)
  | file (path : String) (next : Except FileError String → Dialogue α)
  | read (r : Read) (next : Except Error r.Answer → Dialogue α)

namespace Dialogue

variable {α β : Type}

/-- Goes on with another dialogue. -/
def bind : Dialogue α → (α → Dialogue β) → Dialogue β
  | done a, f => f a
  | say e next, f => say e (bind next f)
  | ask prompt next, f => ask prompt fun line => bind (next line) f
  | file path next, f => file path fun text => bind (next text) f
  | read r next, f => read r fun answer => bind (next answer) f

instance : Monad Dialogue where
  pure := done
  bind := bind

/-! ## The steps of a dialogue -/

/-- Shows an event. -/
def tell (e : Event) : Dialogue Unit := say e (done ())

/-- Asks for a line. -/
def askLine (prompt : String) : Dialogue (Option String) := ask prompt done

/-- Asks for a text.  At the end of the input it is empty. -/
def askText (prompt : String) : Dialogue String :=
  ask prompt fun line => done (line.getD "")

/-! ## Playing a dialogue -/

/-- What a dialogue is played against. -/
structure World (m : Type → Type) where
  reader : Reader m
  file : String → Except FileError String

/-- How a dialogue went. -/
structure Run (α : Type) where
  /-- What it showed, in order. -/
  events : List Event
  /-- The lines that it did not read. -/
  rest : List InputLine
  /-- The result.  There is none if a line was no text. -/
  result : Option α

/-- The run with an event before it. -/
def Run.after (e : Event) (r : Run α) : Run α :=
  { r with events := e :: r.events }

/-- Plays a dialogue. -/
def run {m : Type → Type} [Monad m] (w : World m) : Dialogue α → List InputLine → m (Run α)
  | done a, input => pure ⟨[], input, some a⟩
  | say e next, input => return (← run w next input).after e
  | ask prompt next, input =>
    match input with
    | [] => return (← run w (next none) []).after (.prompt prompt)
    | some line :: rest => return (← run w (next (some line)) rest).after (.prompt prompt)
    | none :: rest => pure ⟨[.prompt prompt], rest, none⟩
  | file path next, input => run w (next (w.file path)) input
  | read r next, input => do
    let answer ← (w.reader r).run
    run w (next answer) input

end Dialogue

end TokenMarket
