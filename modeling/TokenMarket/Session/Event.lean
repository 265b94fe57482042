import TokenMarket.Deploy.Basic
import TokenMarket.Error
import TokenMarket.Files
import TokenMarket.Json.Printer

/-!
# What a session shows

A session is a sequence of events: the menu, a prompt, a record, the
command of a deploy, and so on.  Only `Event.spans` decides how an event
looks.  It cuts the event into spans of text, each with its colour or
without one, and `Span.render` writes a span with or without the control
sequences of a terminal.  The text of a span is the same either way.
-/

namespace TokenMarket

/-- Why a command of a session failed. -/
inductive Problem where
  | marketplace (e : Error)
  /-- A file of metadata could not be read. -/
  | metadataFile (path reason : String)
  /-- A record could not be shown. -/
  | render (reason : String)
  /-- The input or the output of the session failed. -/
  | terminal (reason : String)
deriving DecidableEq, Repr

namespace Problem

/-- The short name of the cause. -/
def kind : Problem → String
  | marketplace e => e.kind
  | metadataFile _ _ => "MetadataFile"
  | render _ => "Render"
  | terminal _ => "Io"

/-- The sentence that tells the cause. -/
def message : Problem → String
  | marketplace e => e.message
  | metadataFile path reason => "cannot read " ++ path ++ ": " ++ reason
  | render reason => reason
  | terminal reason => reason

end Problem

/-- Something that a session shows. -/
inductive Event where
  /-- A question; the answer is typed behind it. -/
  | prompt (text : String)
  | menu
  /-- The name of the identity that was chosen. -/
  | welcome (name : String)
  | heading (text : String)
  | record (view : Json)
  | deploy (d : Deploy)
  | failure (p : Problem)
  | unknownChoice (choice : String)

/-- The colours of a session. -/
inductive Color where
  | red
  | green
  | yellow
  | magenta
  | cyan
deriving DecidableEq, Repr

/-- The number of a colour in the palette of a terminal. -/
def Color.number : Color → Nat
  | red => 9
  | green => 10
  | yellow => 11
  | magenta => 13
  | cyan => 14

/-- A piece of text in one colour, or in none. -/
structure Span where
  color : Option Color
  text : String
deriving DecidableEq, Repr

/-- The text of a span.  With colours, a coloured span is bold between
control sequences of the terminal. -/
def Span.render (colored : Bool) (s : Span) : String :=
  match s.color with
  | some color =>
    if colored then
      "\x1b[38;5;" ++ Numeral.decimal color.number ++ "m\x1b[1m" ++ s.text ++ "\x1b[0m"
    else s.text
  | none => s.text

/-- The menu. -/
def menuText : String :=
"
\\------------ NFT Client Menu ------------/

    1) Deploy Contract
    2) Mint token
    3) Publish Request
    4) View Request Object
    5) View My incoming requests
    6) View My outgoing requests
    7) View My tokens
    8) Approve Request
    9) Buy Token
    10) Get Metadata by token_id
    11) Get Holder by holder_id
    12) Cancel Request
    13) Get Approved holding by approved_id
    14) Disapprove
    15) Query my named key
    0) exit

/------------ NFT Client Menu ------------\\
"

namespace Event

/-- A line in one colour. -/
def line (color : Color) (text : String) : List Span :=
  [⟨some color, text⟩, ⟨none, "\n"⟩]

/-- How an event looks. -/
def spans : Event → List Span
  | prompt text => [⟨some .yellow, text⟩]
  | menu => line .green menuText
  | welcome name => line .cyan ("Logged in as " ++ name)
  | heading text => line .green text
  | record view => line .cyan view.wide
  | deploy d =>
    line .yellow "Copy the cmd :" ++ ⟨none, "\t"⟩ :: line .magenta d.command
  | failure p => line .red (p.kind ++ ": " ++ p.message)
  | unknownChoice choice => line .red ("Invalid choice: " ++ choice)

/-- The text of an event. -/
def render (colored : Bool) (e : Event) : String :=
  String.join (e.spans.map (Span.render colored))

end Event

/-- The text of a sequence of events. -/
def renderEvents (colored : Bool) (events : List Event) : String :=
  String.join (events.map (Event.render colored))

end TokenMarket
