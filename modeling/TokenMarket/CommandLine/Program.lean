import TokenMarket.CommandLine.Options
import TokenMarket.Config.Sources
import TokenMarket.Rpc.Node
import TokenMarket.Session.Run
import TokenMarket.State.Repository

/-!
# The program

From the arguments of a call to its output.  An improper call and an
unusable configuration end the program before anything is shown and before
any message is sent.  A login that fails ends it too, but that is a session
like others, and no failure of the program.
-/

namespace TokenMarket

/-- What a call of the program is given. -/
structure Invocation where
  arguments : List String
  environment : String → Option String
  file : String → Except FileError String
  input : List InputLine

/-- What a call of the program comes to. -/
structure Report where
  status : Nat
  output : String
  /-- Why the program failed, if it did. -/
  complaint : Option String
deriving DecidableEq, Repr

namespace Program

/-- The status of an improper call. -/
def improperCall : Nat := 2

/-- The status of a failure. -/
def failed : Nat := 1

/-- The configuration of a call. -/
def configuration (o : Options) (environment : String → Option String)
    (file : String → Except FileError String) : Except ConfigError Config :=
  Config.load (o.config.map fun path => (path, file path)) environment o.node

/-- The repository of a configuration. -/
def repository {m : Type → Type} [Monad m] (c : Config) (transport : Rpc.Transport m) :
    Repository (StateT Nat m) :=
  ⟨Rpc.node c.node transport, c.contract⟩

/-- What a session comes to. -/
def report (colored : Bool) (t : Transcript) : Report :=
  let output := renderEvents colored t.events
  match t.ending with
  | .finished => ⟨0, output, none⟩
  | .unreadable => ⟨failed, output, some notTextMessage⟩

/-- Runs a call whose input is given beforehand. -/
def run {m : Type → Type} [Monad m] (transport : Rpc.Transport m) (call : Invocation) :
    m Report :=
  match Options.parse? call.arguments with
  | none => return ⟨improperCall, "", none⟩
  | some o =>
    match configuration o call.environment call.file with
    | .error e => return ⟨failed, "", some e.message⟩
    | .ok c => do
      let w : Dialogue.World (StateT Nat m) := ⟨(repository c transport).read, call.file⟩
      let (t, _) ← ((Desk.ofConfig c).play w o.user call.input).run Rpc.firstId
      return report false t

end Program

end TokenMarket
