import TokenMarket.Session.Menu

/-!
# Sessions from login to exit

A session begins with a login and goes on with turns.  A turn shows the
menu, asks for a choice and carries it out; a command that fails is
reported, and the turn is over like any other.  The session ends when the
choice is to exit, when the input is used up, when the login fails, or when
a line of input is no text.

`Session.play` plays the turns against lines that are given beforehand.
Every turn but the last reads at least its choice, so the lines that are
left get fewer, and that is why playing ends.
-/

namespace TokenMarket

/-- How a turn ended. -/
inductive Flow where
  /-- Another turn follows. -/
  | again
  /-- The session is over. -/
  | over
deriving DecidableEq, Repr

/-- How a session ended. -/
inductive Ending where
  | finished
  /-- A line of the input was no text. -/
  | unreadable
deriving DecidableEq, Repr

/-- What a session showed, and how it ended. -/
structure Transcript where
  events : List Event
  ending : Ending

/-- A session before its login. -/
structure Desk where
  terms : Terms
  identities : Registry

namespace Desk

/-- The desk of a configuration. -/
def ofConfig (c : Config) : Desk :=
  ⟨Terms.ofConfig c, c.identities⟩

/-- The text that picks an identity, asked for unless it is given. -/
def slot (d : Desk) : Option String → Dialogue String
  | some text => .done text
  | none => .askText (Session.slotPrompt "Login using user" d.identities)

/-- Logs an identity in.  There is no session if there is no such
identity. -/
def login (d : Desk) (given : Option String) : Dialogue (Option Session) := do
  let text ← d.slot given
  match d.identities.select text with
  | .error e =>
    Dialogue.tell (.failure (.marketplace e))
    return none
  | .ok user =>
    Dialogue.tell (.welcome user.name)
    return some ⟨d.terms, d.identities, user⟩

end Desk

namespace Session

/-- Carries a choice out. -/
def perform (s : Session) (choice : String) : Dialogue Flow :=
  match MenuEntry.ofChoice? choice with
  | none => do
    Dialogue.tell (.unknownChoice choice)
    return .again
  | some .exit => return .over
  | some entry => do
    match ← (s.command entry).run with
    | .ok () => return .again
    | .error p =>
      Dialogue.tell (.failure p)
      return .again

/-- One turn. -/
def turn (s : Session) : Dialogue Flow := do
  Dialogue.tell .menu
  match ← Dialogue.askLine "Enter your choice : " with
  | none => return .over
  | some line => s.perform (Text.trim line)

variable {m : Type → Type} [Monad m]

/-- Plays turns until the session is over. -/
def play (w : Dialogue.World m) (s : Session) (input : List InputLine) : m Transcript := do
  let r ← s.turn.run w input
  match r.result with
  | none => return ⟨r.events, .unreadable⟩
  | some .over => return ⟨r.events, .finished⟩
  | some .again =>
    if _ : r.rest.length < input.length then
      let t ← play w s r.rest
      return ⟨r.events ++ t.events, t.ending⟩
    else return ⟨r.events, .finished⟩
termination_by input.length

end Session

/-- Plays a session from its login. -/
def Desk.play {m : Type → Type} [Monad m] (d : Desk) (w : Dialogue.World m)
    (given : Option String) (input : List InputLine) : m Transcript := do
  let r ← (d.login given).run w input
  match r.result with
  | none => return ⟨r.events, .unreadable⟩
  | some none => return ⟨r.events, .finished⟩
  | some (some s) =>
    let t ← s.play w r.rest
    return ⟨r.events ++ t.events, t.ending⟩

end TokenMarket
