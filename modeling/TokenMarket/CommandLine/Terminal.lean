import TokenMarket.Session.Console

/-!
# Sessions at a terminal

The console of a person.  Each line is read from the input when it is asked
for, and each text goes to the output at once.
-/

namespace TokenMarket

/-- Where a person types and reads. -/
structure Terminal where
  input : IO.FS.Stream
  output : IO.FS.Stream
  colored : Bool

/-- The number of an error of the system, which may come with a minus
sign. -/
def systemNumber (code : UInt32) : Nat :=
  min code.toNat (-code).toNat

/-- The cause of a failure to read a file. -/
def FileError.ofIO : IO.Error → FileError
  | .noFileOrDirectory _ _ _ => .missing
  | .inappropriateType _ code details =>
    if systemNumber code = 20 then .notDirectory
    else if systemNumber code = 21 then .isDirectory
    else .other details
  | .permissionDenied _ code _ =>
    .other ("Permission denied (os error " ++ Numeral.decimal (systemNumber code) ++ ")")
  | e => .other e.toString

/-- Reads the text of a file. -/
def readFile (path : String) : IO (Except FileError String) := do
  try return fileText (← IO.FS.readBinFile path).toList
  catch e => return .error (.ofIO e)

namespace Terminal

/-- Reads bytes up to the end of the line, behind those read before. -/
partial def readChunk (t : Terminal) (before : ByteArray) : IO ByteArray := do
  let next ← t.input.read 1
  match next.toList with
  | [] => return before
  | [10] => return before ++ next
  | _ => t.readChunk (before ++ next)

/-- Reads a line.  There is none at the end of the input. -/
def readLine (t : Terminal) : IO (Option InputLine) := do
  let chunk ← t.readChunk ByteArray.empty
  return if chunk.isEmpty then none else some (Input.lineText chunk.toList)

/-- Writes a text, to be seen at once. -/
def write (t : Terminal) (text : String) : IO Unit := do
  t.output.putStr text
  t.output.flush

/-- What goes on in a session: the number of the next message to the node
changes, and so does the outside world. -/
abbrev Talk := StateT Nat IO

/-- The console at which the person sits. -/
def console (t : Terminal) (reader : Reader Talk) : Console Talk where
  paint := .of t.colored
  write text := t.write text
  line := t.readLine
  file path := readFile path
  reader

/-- Plays turns until the session is over. -/
partial def playTurns (t : Terminal) (reader : Reader Talk) (s : Session) : Talk Ending := do
  match ← (t.console reader).play s.turn with
  | none => return .unreadable
  | some .over => return .finished
  | some .again => t.playTurns reader s

/-- Plays a session from its login. -/
def playSession (t : Terminal) (reader : Reader Talk) (d : Desk) (given : Option String) :
    Talk Ending := do
  match ← (t.console reader).play (d.login given) with
  | none => return .unreadable
  | some none => return .finished
  | some (some s) => t.playTurns reader s

end Terminal

end TokenMarket
