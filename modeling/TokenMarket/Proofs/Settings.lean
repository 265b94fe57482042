import Mathlib.Data.List.Nodup
import TokenMarket.Config.Decode

/-!
# The settings of a configuration, one by one

A configuration nests groups of settings: the node, the modules and the
payments.  A theorem about where a setting comes from should not repeat
itself for every group and every member.  `Setting` names the fifteen
settings, and each of the functions on it is one table: where the setting
stands in a configuration, where it stands in a file, and how its text is
read.

There are two groups.

* Settings.  `Config.eq_of_get` says that the settings are all there is to a
  configuration.
* The file.  `Toml.slots?_eq_some` looks a group up by name, whether a file
  gives it as a table or as an array.  From it `Config.ofToml?_setting` says
  of every setting that a configuration read from a file has the value that
  stands in the file, or its default where nothing stands.
-/

namespace TokenMarket

/-! ## Settings -/

/-- The settings of a configuration. -/
inductive Setting where
  | address
  | requestTimeout
  | connectTimeout
  | chainName
  | contract
  | contractModule
  | sessionModule
  | installPayment
  | mintPayment
  | publishPayment
  | approvePayment
  | buyPayment
  | cancelPayment
  | disapprovePayment
  | identities
deriving DecidableEq, Repr

namespace Setting

/-- The type of the value. -/
abbrev Value : Setting → Type
  | address | chainName | contractModule | sessionModule => String
  | contract => ContractHash
  | identities => Registry
  | requestTimeout | connectTimeout | installPayment | mintPayment | publishPayment
  | approvePayment | buyPayment | cancelPayment | disapprovePayment => UInt64

/-- The value in a configuration. -/
def get : (s : Setting) → Config → s.Value
  | address, c => c.node.address
  | requestTimeout, c => c.node.requestTimeoutMs
  | connectTimeout, c => c.node.connectTimeoutMs
  | chainName, c => c.chainName
  | contract, c => c.contract
  | contractModule, c => c.artifacts.contractModule
  | sessionModule, c => c.artifacts.sessionModule
  | installPayment, c => c.payments.deployContract
  | mintPayment, c => c.payments.mint
  | publishPayment, c => c.payments.publishRequest
  | approvePayment, c => c.payments.approveRequest
  | buyPayment, c => c.payments.buy
  | cancelPayment, c => c.payments.cancelRequest
  | disapprovePayment, c => c.payments.disapprove
  | identities, c => c.identities

end Setting

/-- A configuration is its settings. -/
theorem Config.eq_of_get {c d : Config} (h : ∀ s : Setting, s.get c = s.get d) : c = d := by
  obtain ⟨⟨_, _, _⟩, _, _, ⟨_, _⟩, ⟨_, _, _, _, _, _, _⟩, _⟩ := c
  obtain ⟨⟨_, _, _⟩, _, _, ⟨_, _⟩, ⟨_, _, _, _, _, _, _⟩, _⟩ := d
  obtain rfl := h .address
  obtain rfl := h .requestTimeout
  obtain rfl := h .connectTimeout
  obtain rfl := h .chainName
  obtain rfl := h .contract
  obtain rfl := h .contractModule
  obtain rfl := h .sessionModule
  obtain rfl := h .installPayment
  obtain rfl := h .mintPayment
  obtain rfl := h .publishPayment
  obtain rfl := h .approvePayment
  obtain rfl := h .buyPayment
  obtain rfl := h .cancelPayment
  obtain rfl := h .disapprovePayment
  obtain rfl := h .identities
  rfl

/-! ## The file -/

namespace Toml

/-- What a group holds under one of its names: in a table the member of the
name, in an array the item at the place of the name. -/
def under? (names : List String) (name : String) : Toml → Option Toml
  | .table _ members => member? members name
  | .array items => items[names.idxOf name]?
  | .tables items => (items.map (Toml.table .header))[names.idxOf name]?
  | _ => none

variable {names : List String}

theorem positional_eq (hnodup : names.Nodup) (items : List Toml) :
    positional names.length items = names.map fun name => items[names.idxOf name]? := by
  apply List.ext_getElem
  · simp [positional]
  · intro i hi _
    have hlt : i < names.length := by simpa [positional] using hi
    simp [positional, hnodup.idxOf_getElem i hlt]

/-- The settings of a group are what it holds under its names. -/
theorem slots?_eq_some (hnodup : names.Nodup) {v : Toml} {slots : List (Option Toml)}
    (h : v.slots? names = some slots) : slots = names.map fun name => v.under? names name := by
  cases v with
  | table origin members => exact (Option.some.inj h).symm
  | array items => exact (Option.some.inj h).symm.trans (positional_eq hnodup items)
  | tables items => exact (Option.some.inj h).symm.trans (positional_eq hnodup _)
  | date => exact (Option.some.inj h).symm
  | string | integer | float | boolean => exact absurd h (by simp [slots?])

end Toml

namespace Setting

/-! The names in a file.  An array of a group gives them in this order. -/

def rootNames : List String :=
  ["node", "chain_name", "contract_hash", "artifacts", "payments", "identities"]

def nodeNames : List String := ["address", "request_timeout_ms", "connect_timeout_ms"]

def artifactNames : List String := ["contract_wasm", "session_wasm"]

def paymentNames : List String :=
  ["deploy_contract", "mint", "publish_request", "approve_request", "buy", "cancel_request",
    "disapprove"]

/-- The group that a setting belongs to, with the names of the group. -/
def group? : Setting → Option (String × List String)
  | address | requestTimeout | connectTimeout => some ("node", nodeNames)
  | contractModule | sessionModule => some ("artifacts", artifactNames)
  | installPayment | mintPayment | publishPayment | approvePayment | buyPayment | cancelPayment
  | disapprovePayment => some ("payments", paymentNames)
  | chainName | contract | identities => none

/-- The name in a file. -/
def name : Setting → String
  | address => "address"
  | requestTimeout => "request_timeout_ms"
  | connectTimeout => "connect_timeout_ms"
  | chainName => "chain_name"
  | contract => "contract_hash"
  | contractModule => "contract_wasm"
  | sessionModule => "session_wasm"
  | installPayment => "deploy_contract"
  | mintPayment => "mint"
  | publishPayment => "publish_request"
  | approvePayment => "approve_request"
  | buyPayment => "buy"
  | cancelPayment => "cancel_request"
  | disapprovePayment => "disapprove"
  | identities => "identities"

/-- What a document holds for a setting. -/
def raw? (s : Setting) (document : Toml) : Option Toml :=
  match s.group? with
  | some (group, names) => (document.under? rootNames group).bind (·.under? names s.name)
  | none => document.under? rootNames s.name

/-- The value that a document means. -/
def decode? : (s : Setting) → Toml → Option s.Value
  | address | chainName | contractModule | sessionModule => Toml.toText?
  | contract => Toml.toHash? .contract
  | identities => Registry.ofToml?
  | requestTimeout | connectTimeout | installPayment | mintPayment | publishPayment
  | approvePayment | buyPayment | cancelPayment | disapprovePayment => Toml.toWord?

end Setting

open Toml (settingOr)

section File

variable {v : Toml} {s : Setting}

theorem NodeConfig.ofToml?_setting {n : NodeConfig} (h : ofToml? v = some n)
    (hs : s.group? = some ("node", Setting.nodeNames)) :
    settingOr (s.get {}) s.decode? (v.under? Setting.nodeNames s.name)
      = some (s.get { node := n }) := by
  obtain ⟨slots, hslots, h⟩ := Option.bind_eq_some_iff.1 h
  obtain rfl := Toml.slots?_eq_some (by decide) hslots
  simp only [List.map_cons, List.map_nil, Option.bind_eq_bind, Option.bind_eq_some_iff] at h
  obtain ⟨address, haddress, requestTimeout, hrequest, connectTimeout, hconnect, h⟩ := h
  obtain rfl := Option.some.inj h
  cases s with
  | address => exact haddress
  | requestTimeout => exact hrequest
  | connectTimeout => exact hconnect
  | _ => simp [Setting.group?] at hs

theorem Artifacts.ofToml?_setting {a : Artifacts} (h : ofToml? v = some a)
    (hs : s.group? = some ("artifacts", Setting.artifactNames)) :
    settingOr (s.get {}) s.decode? (v.under? Setting.artifactNames s.name)
      = some (s.get { artifacts := a }) := by
  obtain ⟨slots, hslots, h⟩ := Option.bind_eq_some_iff.1 h
  obtain rfl := Toml.slots?_eq_some (by decide) hslots
  simp only [List.map_cons, List.map_nil, Option.bind_eq_bind, Option.bind_eq_some_iff] at h
  obtain ⟨contractModule, hcontract, sessionModule, hsession, h⟩ := h
  obtain rfl := Option.some.inj h
  cases s with
  | contractModule => exact hcontract
  | sessionModule => exact hsession
  | _ => simp [Setting.group?] at hs

theorem Payments.ofToml?_setting {p : Payments} (h : ofToml? v = some p)
    (hs : s.group? = some ("payments", Setting.paymentNames)) :
    settingOr (s.get {}) s.decode? (v.under? Setting.paymentNames s.name)
      = some (s.get { payments := p }) := by
  obtain ⟨slots, hslots, h⟩ := Option.bind_eq_some_iff.1 h
  obtain rfl := Toml.slots?_eq_some (by decide) hslots
  simp only [List.map_cons, List.map_nil, Option.bind_eq_bind, Option.bind_eq_some_iff] at h
  obtain ⟨install, hinstall, mint, hmint, publish, hpublish, approve, happrove, buy, hbuy,
    cancel, hcancel, disapprove, hdisapprove, h⟩ := h
  obtain rfl := Option.some.inj h
  cases s with
  | installPayment => exact hinstall
  | mintPayment => exact hmint
  | publishPayment => exact hpublish
  | approvePayment => exact happrove
  | buyPayment => exact hbuy
  | cancelPayment => exact hcancel
  | disapprovePayment => exact hdisapprove
  | _ => simp [Setting.group?] at hs

/-- A member of a group has its default where the group is missing. -/
theorem Toml.settingOr_under {α β : Type} {d a : α} {ofToml? : Toml → Option α}
    {slot : Option Toml} (hslot : settingOr d ofToml? slot = some a) {names : List String}
    {name : String} {decode? : Toml → Option β} (f : α → β)
    (hmember : ∀ v b, ofToml? v = some b →
      settingOr (f d) decode? (v.under? names name) = some (f b)) :
    settingOr (f d) decode? (slot.bind (·.under? names name)) = some (f a) := by
  cases slot with
  | none => exact congrArg (some ∘ f) (Option.some.inj hslot)
  | some v => exact hmember v a hslot

/-- Every setting has the value that the file holds for it, or else its
default. -/
theorem Config.ofToml?_setting {c : Config} (h : ofToml? v = some c) (s : Setting) :
    settingOr (s.get {}) s.decode? (s.raw? v) = some (s.get c) := by
  obtain ⟨slots, hslots, h⟩ := Option.bind_eq_some_iff.1 h
  obtain rfl := Toml.slots?_eq_some (by decide) hslots
  simp only [List.map_cons, List.map_nil, Option.bind_eq_bind, Option.bind_eq_some_iff] at h
  obtain ⟨node, hnode, chainName, hchain, contract, hcontract, artifacts, hartifacts, payments,
    hpayments, identities, hidentities, h⟩ := h
  obtain rfl := Option.some.inj h
  cases s with
  | chainName => exact hchain
  | contract => exact hcontract
  | identities => exact hidentities
  | address | requestTimeout | connectTimeout =>
    exact Toml.settingOr_under hnode (fun n => Setting.get _ { node := n })
      fun _ _ h => NodeConfig.ofToml?_setting h rfl
  | contractModule | sessionModule =>
    exact Toml.settingOr_under hartifacts (fun a => Setting.get _ { artifacts := a })
      fun _ _ h => Artifacts.ofToml?_setting h rfl
  | installPayment | mintPayment | publishPayment | approvePayment | buyPayment | cancelPayment
  | disapprovePayment =>
    exact Toml.settingOr_under hpayments (fun p => Setting.get _ { payments := p })
      fun _ _ h => Payments.ofToml?_setting h rfl

end File

end TokenMarket
