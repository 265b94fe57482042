import TokenMarket.CommandLine.Connection
import TokenMarket.CommandLine.Program
import TokenMarket.CommandLine.Terminal

/-!
# The command line

Reads the arguments, the environment and the configuration file, and plays
a session at the terminal.  Colours are used if the output is a terminal.
Complaints go to the error output.
-/

namespace TokenMarket

/-- How the program is called. -/
def usage : String :=
  "usage: ndpc-shell [-c PATH] [-n ADDR] [-u SLOT] [-v]\n\n"
    ++ "  -c, --config PATH  configuration file\n"
    ++ "  -n, --node ADDR    address of the node\n"
    ++ "  -u, --user SLOT    slot or name of the identity that logs in\n"
    ++ "  -v, --verbose      tell every message to the node\n"

/-- The variables of the environment that override settings. -/
def readEnvironment : IO (List (String × String)) := do
  let found ← Config.overrides.mapM fun o => do
    return (← IO.getEnv o.variableName).map (o.variableName, ·)
  return found.filterMap id

/-- The configuration of a call. -/
def readConfig (o : Options) : IO (Except ConfigError Config) := do
  let found ← readEnvironment
  let file ← match o.config with
    | some path => readFile path
    | none => pure (.error .missing)
  return Program.configuration o (fun name => found.lookup name) fun _ => file

/-- Tells every message before it is carried. -/
def announced (transport : Rpc.Transport IO) : Rpc.Transport IO := fun url message => do
  IO.eprintln (message.query.method ++ " -> " ++ url)
  transport url message

/-- Plays the session of a call. -/
def converse (o : Options) (c : Config) : IO Ending := do
  let output ← IO.getStdout
  let terminal : Terminal := ⟨← IO.getStdin, output, ← output.isTty⟩
  let transport := Connection.transport c.node
  let repository := Program.repository c (if o.verbose then announced transport else transport)
  (terminal.playSession repository.read (Desk.ofConfig c) o.user).run' Rpc.firstId

/-- Tells why the program failed. -/
def complain (reason : String) : IO UInt32 := do
  IO.eprintln ("Error: " ++ reason)
  return Program.failed.toUInt32

end TokenMarket

open TokenMarket in
/-- Runs the program. -/
def main (arguments : List String) : IO UInt32 := do
  match Options.parse? arguments with
  | none =>
    IO.eprint usage
    return Program.improperCall.toUInt32
  | some o =>
    match ← readConfig o with
    | .error e => complain e.message
    | .ok c =>
      match ← converse o c with
      | .finished => return 0
      | .unreadable => complain notTextMessage
