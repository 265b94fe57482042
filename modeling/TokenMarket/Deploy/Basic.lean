import TokenMarket.Deploy.Argument
import TokenMarket.Text.ShellWord

/-!
# Deploys

A deploy is everything that an external signer has to know to build, sign
and send one transaction.  The client only describes it, in two ways: as a
JSON record (`toJson`), and as the call of a command-line program
(`arguments`, `command`) that a person copies into a shell.
-/

namespace TokenMarket

/-- What a deploy runs. -/
inductive DeployTarget where
  /-- An entry point of the installed contract. -/
  | storedContract (contract : ContractHash) (entryPoint : String)
  /-- A module that runs in the caller's own context. -/
  | sessionModule (path : String)
deriving DecidableEq

/-- A transaction that has not been signed. -/
structure Deploy where
  chainName : String
  nodeAddress : String
  /-- The path of the secret key that is to sign. -/
  signer : String
  /-- What may be spent on running it. -/
  payment : UInt64
  target : DeployTarget
  args : List Argument
deriving DecidableEq

namespace DeployTarget

/-- The entry point, if there is one. -/
def entryPoint? : DeployTarget → Option String
  | storedContract _ entryPoint => some entryPoint
  | sessionModule _ => none

/-- The command-line arguments that name the target. -/
def arguments : DeployTarget → List String
  | storedContract contract entryPoint =>
    ["--session-hash", contract.formatted, "--session-entry-point", entryPoint]
  | sessionModule path => ["--session-path", path]

/-- The target as a record. -/
def toJson : DeployTarget → Json
  | storedContract contract entryPoint =>
    .ofMembers
      [("kind", .string "stored_contract"), ("contract", .string contract.hex),
        ("entry_point", .string entryPoint)]
  | sessionModule path =>
    .ofMembers [("kind", .string "session_wasm"), ("path", .string path)]

end DeployTarget

namespace Deploy

/-- The program that signs and sends deploys. -/
def program : String := "casper-client"

/-- The command-line arguments of the signing program. -/
def arguments (d : Deploy) : List String :=
  ["put-deploy", "--node-address", d.nodeAddress, "--chain-name", d.chainName,
    "--secret-key", d.signer, "--payment-amount", Numeral.decimal d.payment.toNat]
    ++ d.target.arguments
    ++ d.args.flatMap fun a => ["--session-arg", a.simple]

/-- The command that signs and sends the deploy, in one line for a shell. -/
def command (d : Deploy) : String :=
  String.ofList (ShellWord.line program.toList (d.arguments.map String.toList))

/-- The deploy as a record. -/
def toJson (d : Deploy) : Json :=
  .ofMembers
    [("chain_name", .string d.chainName), ("node_address", .string d.nodeAddress),
      ("signer", .string d.signer), ("payment", .ofWord d.payment),
      ("target", d.target.toJson), ("args", .array (d.args.map Argument.toJson))]

end Deploy

end TokenMarket
