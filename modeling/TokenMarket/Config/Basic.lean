import TokenMarket.Identity
import TokenMarket.Json.Value

/-!
# Configuration

Where the node is, which contract is meant, what a deploy may cost, and who
can act.  Every setting has a default, so an empty configuration is one for
the public test network.
-/

namespace TokenMarket

/-- How the node is reached. -/
structure NodeConfig where
  address : String := "http://195.201.174.222:7777"
  requestTimeoutMs : UInt64 := 10000
  connectTimeoutMs : UInt64 := 3000
deriving DecidableEq

/-- Where the modules are that deploys run. -/
structure Artifacts where
  contractModule : String := "deploy/contract.wasm"
  sessionModule : String := "deploy/session.wasm"
deriving DecidableEq

/-- What each kind of deploy may cost, in motes. -/
structure Payments where
  deployContract : UInt64 := 130420060000
  mint : UInt64 := 5300000000
  publishRequest : UInt64 := 3500000000
  approveRequest : UInt64 := 8931000000
  buy : UInt64 := 15013050000
  cancelRequest : UInt64 := 8931000000
  disapprove : UInt64 := 8931000000
deriving DecidableEq

namespace Config

/-- The contract of the public test network. -/
def defaultContract : ContractHash where
  bytes := [
    0x7f, 0x2f, 0xb7, 0x64, 0xe6, 0x19, 0xc0, 0x14, 0x30, 0x40, 0xbe, 0xcc, 0x8b, 0x46, 0xe1, 0x86,
    0x1e, 0x7b, 0x72, 0xd3, 0x1f, 0x4e, 0x55, 0xce, 0xa2, 0x49, 0x43, 0x5f, 0xee, 0x05, 0xeb, 0x80]
  length_bytes := rfl

/-- The first account for trying things out. -/
def demoAccount1 : AccountHash where
  bytes := [
    0x95, 0xdc, 0xc5, 0x0a, 0xd4, 0x93, 0x51, 0xdd, 0x97, 0xaa, 0xb4, 0x67, 0x8d, 0x99, 0x26, 0xde,
    0x18, 0x98, 0x1a, 0xb6, 0x11, 0x90, 0x3c, 0x14, 0x53, 0x41, 0xdf, 0x25, 0x23, 0x00, 0xe8, 0x8a]
  length_bytes := rfl

/-- The second account for trying things out. -/
def demoAccount2 : AccountHash where
  bytes := [
    0x8e, 0x11, 0xeb, 0xbc, 0xdf, 0x47, 0xec, 0xc0, 0xfc, 0xdf, 0x19, 0x08, 0x82, 0xa1, 0xc2, 0x55,
    0x02, 0xa4, 0xee, 0x17, 0xb1, 0xeb, 0xf4, 0x9d, 0xf0, 0xc0, 0x76, 0x47, 0x8b, 0xbc, 0xaf, 0x7d]
  length_bytes := rfl

/-- The third account for trying things out. -/
def demoAccount3 : AccountHash where
  bytes := [
    0x87, 0xb6, 0x7c, 0x36, 0x0a, 0xa7, 0xd4, 0x71, 0x8d, 0x0a, 0x47, 0xca, 0xa2, 0xc9, 0x65, 0x3d,
    0x0b, 0xeb, 0xe3, 0x5f, 0xcc, 0xcf, 0x7f, 0x98, 0xda, 0x5d, 0xf9, 0xd8, 0xa6, 0x8e, 0x6b, 0x1b]
  length_bytes := rfl

/-- The identities for trying things out. -/
def demoIdentities : Registry := [
  ⟨"acc1", demoAccount1, "keys/acc1_secret_key.pem"⟩,
  ⟨"acc2", demoAccount2, "keys/acc2_secret_key.pem"⟩,
  ⟨"acc3", demoAccount3, "keys/acc3_secret_key.pem"⟩]

end Config

/-- The settings of the client. -/
structure Config where
  node : NodeConfig := {}
  chainName : String := "casper-test"
  contract : ContractHash := Config.defaultContract
  artifacts : Artifacts := {}
  payments : Payments := {}
  identities : Registry := Config.demoIdentities
deriving DecidableEq

/-- Why there is no usable configuration. -/
inductive ConfigError where
  /-- The file could not be read. -/
  | unreadable (path reason : String)
  /-- The file is no configuration. -/
  | malformed (reason : String)
  /-- A setting has a value that it must not have. -/
  | invalid (field reason : String)
deriving DecidableEq, Repr

namespace ConfigError

/-- The short name of the cause. -/
def kind : ConfigError → String
  | unreadable _ _ => "Io"
  | malformed _ => "Parse"
  | invalid _ _ => "Invalid"

/-- The sentence that tells the cause. -/
def message : ConfigError → String
  | unreadable path reason => "Failed to read config " ++ path ++ ": " ++ reason
  | malformed reason => "Failed to parse config: " ++ reason
  | invalid field reason => "Invalid config value " ++ field ++ ": " ++ reason

end ConfigError

namespace NodeConfig

/-- The address without the slashes at its end. -/
def host (n : NodeConfig) : List Char :=
  (n.address.toList.reverse.dropWhile (· == '/')).reverse

/-- Where the node takes requests. -/
def rpcUrl (n : NodeConfig) : String :=
  String.ofList (n.host ++ "/rpc".toList)

end NodeConfig

end TokenMarket
