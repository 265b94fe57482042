import TokenMarket.Text.Blank

/-!
# Command-line options

The program takes four options, each by a long name and by a letter, each
at most once, and no other arguments.

| Long        | Letter | Value | Meaning                                       |
|-------------|--------|-------|-----------------------------------------------|
| `--config`  | `-c`   | yes   | configuration file                            |
| `--node`    | `-n`   | yes   | address of the node                           |
| `--user`    | `-u`   | yes   | slot or name of the identity that logs in     |
| `--verbose` | `-v`   | no    | tell more in the log                          |

A value follows as the next argument, behind an equals sign, or right
behind the letter.  As the next argument it must not start with a dash,
except for a single dash.  Letters may stand together behind one dash; the
first that takes a value ends the group.
-/

namespace TokenMarket

/-- The options of a call. -/
structure Options where
  config : Option String := none
  node : Option String := none
  user : Option String := none
  verbose : Bool := false
deriving DecidableEq, Repr

namespace Options

/-- The options that take a value. -/
inductive Name where
  | config
  | node
  | user
deriving DecidableEq, Repr

/-- What an option is. -/
inductive Kind where
  | valued (name : Name)
  | verbose
deriving DecidableEq, Repr

/-- The option of a long name. -/
def ofLong? (name : List Char) : Option Kind :=
  if name = "config".toList then some (.valued .config)
  else if name = "node".toList then some (.valued .node)
  else if name = "user".toList then some (.valued .user)
  else if name = "verbose".toList then some .verbose
  else none

/-- The option of a letter. -/
def ofLetter? : Char → Option Kind
  | 'c' => some (.valued .config)
  | 'n' => some (.valued .node)
  | 'u' => some (.valued .user)
  | 'v' => some .verbose
  | _ => none

/-- Sets an option to a value, unless it is set already.  A path must not
be empty. -/
def set? (o : Options) (name : Name) (value : List Char) : Option Options :=
  let text := String.ofList value
  match name with
  | .config => if o.config.isSome ∨ text = "" then none else some { o with config := some text }
  | .node => if o.node.isSome then none else some { o with node := some text }
  | .user => if o.user.isSome then none else some { o with user := some text }

/-- Asks for a fuller log, unless that was done already. -/
def setVerbose? (o : Options) : Option Options :=
  if o.verbose then none else some { o with verbose := true }

/-- The options so far, and the option whose value has to come next. -/
abbrev State := Options × Option Name

/-- Takes the letters behind a dash. -/
def letters? (o : Options) : List Char → Option State
  | [] => some (o, none)
  | c :: rest =>
    match ofLetter? c with
    | none => none
    | some .verbose => (setVerbose? o).bind fun o => letters? o rest
    | some (.valued name) =>
      match rest with
      | [] => some (o, some name)
      | '=' :: value => (set? o name value).map (·, none)
      | value => (set? o name value).map (·, none)

/-- Takes what stands behind two dashes. -/
def long? (o : Options) (word : List Char) : Option State :=
  let name := word.takeWhile (· != '=')
  match ofLong? name, word.dropWhile (· != '=') with
  | some (.valued name), [] => some (o, some name)
  | some (.valued name), _ :: value => (set? o name value).map (·, none)
  | some .verbose, [] => (setVerbose? o).map (·, none)
  | _, _ => none

/-- Takes the arguments from a state on. -/
def parseFrom? : State → List (List Char) → Option Options
  | (o, none), [] => some o
  | (_, some _), [] => none
  | (o, none), ['-', '-'] :: rest => if rest = [] then some o else none
  | (o, none), ('-' :: '-' :: word) :: rest => (long? o word).bind fun s => parseFrom? s rest
  | (_, none), ['-'] :: _ => none
  | (o, none), ('-' :: word) :: rest => (letters? o word).bind fun s => parseFrom? s rest
  | (_, none), _ :: _ => none
  | (o, some name), value :: rest =>
    if value.head? = some '-' ∧ value ≠ ['-'] then none
    else (set? o name value).bind fun o => parseFrom? (o, none) rest

/-- The options of a call, or nothing if the call is no proper one. -/
def parse? (arguments : List String) : Option Options :=
  parseFrom? ({}, none) (arguments.map String.toList)

end Options

end TokenMarket
