import TokenMarket.Config.Decode

/-!
# From the sources of settings to a usable configuration

Settings come from four sources.  The built-in defaults are the weakest,
then comes the file, then the environment, and an address on the command
line is the strongest.  `load` merges them in that order and lets only a
valid configuration through.

Some variables of the environment are hashes or numbers and can be wrong.
`override` applies the variables in a fixed order and stops at the first
wrong one; what it had applied before stays applied.
-/

namespace TokenMarket.Config

/-! ## The environment -/

/-- A variable of the environment and the setting that it overrides. -/
structure Override where
  variableName : String
  apply : String → Config → Except ConfigError Config

/-- The variables, in the order in which they are applied. -/
def overrides : List Override := [
  ⟨"NDPC_NODE_ADDRESS", fun text c => .ok { c with node := { c.node with address := text } }⟩,
  ⟨"NDPC_CHAIN_NAME", fun text c => .ok { c with chainName := text }⟩,
  ⟨"NDPC_CONTRACT_HASH", fun text c =>
    match Hash.parse .contract text with
    | .ok contract => .ok { c with contract := contract }
    | .error e => .error (.invalid "NDPC_CONTRACT_HASH" e.message)⟩,
  ⟨"NDPC_TIMEOUT_MS", fun text c =>
    match Numeral.readWord64? text.toList with
    | some ms => .ok { c with node := { c.node with requestTimeoutMs := ms } }
    | none => .error (.invalid "NDPC_TIMEOUT_MS" ("not a number: " ++ text))⟩]

/-- Applies overrides in order, up to the first that is wrong. -/
def applyAll (env : String → Option String) :
    List Override → Config → Config × Except ConfigError Unit
  | [], c => (c, .ok ())
  | o :: rest, c =>
    match env o.variableName with
    | none => applyAll env rest c
    | some text =>
      match o.apply text c with
      | .ok c => applyAll env rest c
      | .error e => (c, .error e)

/-- Applies the variables of the environment. -/
def override (env : String → Option String) (c : Config) : Config × Except ConfigError Unit :=
  applyAll env overrides c

/-! ## Validity -/

/-- The first text that occurred before, in a list or in `seen`. -/
def firstRepeated? (seen : List String) : List String → Option String
  | [] => none
  | s :: rest => if seen.contains s then some s else firstRepeated? (s :: seen) rest

/-- Whether a configuration can be used, and else the first thing that is
wrong with it. -/
def validate (c : Config) : Except ConfigError Unit :=
  if Text.isBlankText c.node.address then
    .error (.invalid "node.address" "cannot be empty")
  else if c.node.requestTimeoutMs = 0 then
    .error (.invalid "node.request_timeout_ms" "cannot be 0")
  else if Text.isBlankText c.chainName then
    .error (.invalid "chain_name" "cannot be empty")
  else if c.identities = [] then
    .error (.invalid "identities" "at least one identity is required")
  else
    match firstRepeated? [] (c.identities.map (·.name)) with
    | some name => .error (.invalid "identities" ("duplicate name " ++ name))
    | none => .ok ()

/-! ## All sources -/

/-- A configuration file: its path, and its text or why it has none. -/
abbrev Source := String × Except FileError String

/-- Merges the sources and checks the outcome. -/
def load (file : Option Source) (env : String → Option String) (address : Option String) :
    Except ConfigError Config := do
  let c ← match file with
    | none => .ok {}
    | some (path, content) => ofFile path content
  let (c, applied) := override env c
  applied
  let c := match address with
    | none => c
    | some text => { c with node := { c.node with address := text } }
  c.validate
  return c

end TokenMarket.Config
