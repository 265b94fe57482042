import TokenMarket.Config.Basic
import TokenMarket.Files
import TokenMarket.Toml.Document

/-!
# Configuration files

A configuration file is a TOML document.  Every setting may be missing and
has its default then; unknown settings are skipped.  An identity is the
exception: it has no defaults, so all of its members are needed.

A group of settings may be given as an array, by position.  Items beyond
the last setting are skipped.  A date in the place of a group is a group
without any known setting.
-/

namespace TokenMarket

namespace Toml

/-- The first items of an array, and nothing for those that it lacks. -/
def positional (count : Nat) (items : List Toml) : List (Option Toml) :=
  (List.range count).map (items[·]?)

/-- The settings of a group, in the order of the names. -/
def slots? (names : List String) : Toml → Option (List (Option Toml))
  | .table _ members => some (names.map (member? members))
  | .array items => some (positional names.length items)
  | .tables items => some (positional names.length (items.map (Toml.table .header)))
  | .date => some (names.map fun _ => none)
  | _ => none

/-- A text. -/
def toText? : Toml → Option String
  | .string s => some s
  | _ => none

/-- A number of 64 bits without a sign. -/
def toWord? : Toml → Option UInt64
  | .integer n => Numeral.toWord64? n
  | _ => none

/-- A hash, as a text. -/
def toHash? (kind : HashKind) (v : Toml) : Option (Hash kind) :=
  v.toText?.bind fun text => (Hash.parse kind text).toOption

/-- The items of an array. -/
def toItems? : Toml → Option (List Toml)
  | .array items => some items
  | .tables items => some (items.map (Toml.table .header))
  | _ => none

/-- A setting that may be missing. -/
def settingOr {α : Type} (default : α) (read? : Toml → Option α) : Option Toml → Option α
  | none => some default
  | some v => read? v

end Toml

open Toml (settingOr)

/-- Reads the settings of the node. -/
def NodeConfig.ofToml? (v : Toml) : Option NodeConfig := do
  let standard : NodeConfig := {}
  match ← v.slots? ["address", "request_timeout_ms", "connect_timeout_ms"] with
  | [address, requestTimeoutMs, connectTimeoutMs] => do
    let address ← settingOr standard.address Toml.toText? address
    let requestTimeoutMs ← settingOr standard.requestTimeoutMs Toml.toWord? requestTimeoutMs
    let connectTimeoutMs ← settingOr standard.connectTimeoutMs Toml.toWord? connectTimeoutMs
    return ⟨address, requestTimeoutMs, connectTimeoutMs⟩
  | _ => none

/-- Reads the settings of the modules. -/
def Artifacts.ofToml? (v : Toml) : Option Artifacts := do
  let standard : Artifacts := {}
  match ← v.slots? ["contract_wasm", "session_wasm"] with
  | [contractModule, sessionModule] => do
    let contractModule ← settingOr standard.contractModule Toml.toText? contractModule
    let sessionModule ← settingOr standard.sessionModule Toml.toText? sessionModule
    return ⟨contractModule, sessionModule⟩
  | _ => none

/-- Reads the payments. -/
def Payments.ofToml? (v : Toml) : Option Payments := do
  let standard : Payments := {}
  match ← v.slots? ["deploy_contract", "mint", "publish_request", "approve_request", "buy",
      "cancel_request", "disapprove"] with
  | [deployContract, mint, publishRequest, approveRequest, buy, cancelRequest, disapprove] => do
    let deployContract ← settingOr standard.deployContract Toml.toWord? deployContract
    let mint ← settingOr standard.mint Toml.toWord? mint
    let publishRequest ← settingOr standard.publishRequest Toml.toWord? publishRequest
    let approveRequest ← settingOr standard.approveRequest Toml.toWord? approveRequest
    let buy ← settingOr standard.buy Toml.toWord? buy
    let cancelRequest ← settingOr standard.cancelRequest Toml.toWord? cancelRequest
    let disapprove ← settingOr standard.disapprove Toml.toWord? disapprove
    return ⟨deployContract, mint, publishRequest, approveRequest, buy, cancelRequest, disapprove⟩
  | _ => none

/-- Reads an identity. -/
def Identity.ofToml? (v : Toml) : Option Identity := do
  match ← v.slots? ["name", "account_hash", "secret_key"] with
  | [some name, some account, some secretKey] => do
    let name ← name.toText?
    let account ← account.toHash? .account
    let secretKey ← secretKey.toText?
    return ⟨name, account, secretKey⟩
  | _ => none

/-- Reads identities. -/
def Registry.ofToml? (v : Toml) : Option Registry :=
  v.toItems?.bind (·.mapM Identity.ofToml?)

namespace Config

/-- Reads a configuration. -/
def ofToml? (v : Toml) : Option Config := do
  let standard : Config := {}
  match ← v.slots? ["node", "chain_name", "contract_hash", "artifacts", "payments",
      "identities"] with
  | [node, chainName, contract, artifacts, payments, identities] => do
    let node ← settingOr standard.node NodeConfig.ofToml? node
    let chainName ← settingOr standard.chainName Toml.toText? chainName
    let contract ← settingOr standard.contract (Toml.toHash? .contract) contract
    let artifacts ← settingOr standard.artifacts Artifacts.ofToml? artifacts
    let payments ← settingOr standard.payments Payments.ofToml? payments
    let identities ← settingOr standard.identities Registry.ofToml? identities
    return ⟨node, chainName, contract, artifacts, payments, identities⟩
  | _ => none

/-- Reads a configuration from the text of a file. -/
def parse (text : String) : Except ConfigError Config :=
  match (Toml.parse? text).bind fun members => ofToml? (.table .header members) with
  | some c => .ok c
  | none => .error (.malformed "<toml error>")

/-- Reads a configuration from a file. -/
def ofFile (path : String) (content : Except FileError String) : Except ConfigError Config :=
  match content with
  | .ok text => parse text
  | .error e => .error (.unreadable path e.message)

end Config

end TokenMarket
