import TokenMarket.Session.Run

/-!
# Sessions that are written as they go

`Session/Run` collects what a session shows, and whoever called it decides
later how that looks.  A person has to see a question before the answer is
typed.  So at a console every event is written when it is shown, in the
colours of the console, and every line is read when it is asked for.

A console works in any monad.  The terminal of the program is one.  A
`Page` is another, for lines that are given beforehand: it keeps what was
written, and the lines that were not read yet.
-/

namespace TokenMarket

/-- How a text looks in a colour. -/
abbrev Paint := Color → String → String

/-- The paint of a session with colours or without. -/
def Paint.of (colored : Bool) : Paint :=
  fun color text => Span.render colored ⟨some color, text⟩

/-- The text of a span.  Only what has a colour is painted. -/
def Span.painted (paint : Paint) (s : Span) : String :=
  match s.color with
  | some color => paint color s.text
  | none => s.text

/-- The text of an event. -/
def Event.painted (paint : Paint) (e : Event) : String :=
  String.join (e.spans.map (Span.painted paint))

/-- The text of a sequence of events. -/
def paintEvents (paint : Paint) (events : List Event) : String :=
  String.join (events.map (Event.painted paint))

/-- Where a session takes place. -/
structure Console (m : Type → Type) where
  paint : Paint
  write : String → m Unit
  /-- Reads a line.  There is none at the end of the input. -/
  line : m (Option InputLine)
  file : String → m (Except FileError String)
  reader : Reader m

namespace Console

variable {m : Type → Type} [Monad m]

/-- Shows an event. -/
def display (c : Console m) (e : Event) : m Unit :=
  c.write (e.painted c.paint)

/-- Plays a dialogue.  There is no result if a line was no text. -/
def play {α : Type} (c : Console m) : Dialogue α → m (Option α)
  | .done a => return some a
  | .say e next => do
    c.display e
    c.play next
  | .ask prompt next => do
    c.display (.prompt prompt)
    match ← c.line with
    | none => c.play (next none)
    | some none => return none
    | some (some line) => c.play (next (some line))
  | .file path next => do
    let text ← c.file path
    c.play (next text)
  | .read r next => do
    let answer ← (c.reader r).run
    c.play (next answer)

end Console

/-! ## Pages -/

/-- What was written, and the lines that were not read yet. -/
structure Page where
  written : String
  rest : List InputLine

/-- A page before anything is written. -/
def Page.blank (input : List InputLine) : Page := ⟨"", input⟩

/-- The next line of a page, and the page behind it. -/
def Page.next : Page → Option InputLine × Page
  | ⟨written, []⟩ => (none, ⟨written, []⟩)
  | ⟨written, line :: rest⟩ => (some line, ⟨written, rest⟩)

/-- The console of a page. -/
def Console.onPage {m : Type → Type} [Monad m] (paint : Paint) (w : Dialogue.World m) :
    Console (StateT Page m) where
  paint
  write text := modify fun p => { p with written := p.written ++ text }
  line := modifyGet Page.next
  file path := return w.file path
  reader q := ExceptT.mk (StateT.lift (w.reader q).run)

section Pages

variable {m : Type → Type} [Monad m] (paint : Paint) (w : Dialogue.World m)

/-- Plays turns on a page until the session is over. -/
def Session.playOn (s : Session) (p : Page) : m (Ending × Page) := do
  let (flow, q) ← ((Console.onPage paint w).play s.turn).run p
  match flow with
  | none => return (.unreadable, q)
  | some .over => return (.finished, q)
  | some .again =>
    if _ : q.rest.length < p.rest.length then s.playOn q
    else return (.finished, q)
termination_by p.rest.length

/-- Plays a session on a page from its login. -/
def Desk.playOn (d : Desk) (given : Option String) (p : Page) : m (Ending × Page) := do
  let (login, q) ← ((Console.onPage paint w).play (d.login given)).run p
  match login with
  | none => return (.unreadable, q)
  | some none => return (.finished, q)
  | some (some s) => s.playOn paint w q

end Pages

end TokenMarket
