import TokenMarket.Config.Sources
import TokenMarket.Proofs.HashText
import TokenMarket.Proofs.WrittenSheet

/-!
# Configurations that are written down

A configuration can be written as a file with all of its settings.  This module shows that a
file of this kind is read as the configuration that was written, so that a client which loads
it has these settings and no others.

There are two groups.

* Groups.  Every group of settings has its entries, and is read back from a table of them.
* Files.  `Config.sheet` puts the groups together, and `Config.parse_sheet` reads the file
  back.  `Config.load_sheet` is about a client that has the file and nothing else.
-/

namespace TokenMarket

open Toml (Datum Sheet SoundEntries membersOf)
open Numeral (isSigned64)

/-! ## Groups -/

theorem Toml.toWord?_integer (w : UInt64) : toWord? (.integer w.toNat) = some w :=
  Numeral.toWord64?_eq_some_iff.2 rfl

theorem Toml.toHash?_string {kind : HashKind} (h : Hash kind) :
    toHash? kind (.string h.formatted) = some h := by
  rw [toHash?, toText?, Option.bind_some, Hash.parse_eq_ok_iff.2 h.denotes_formatted]
  rfl

/-- The entries of a group. -/
def NodeConfig.entries (n : NodeConfig) : List (String × Datum) :=
  [("address", .text n.address), ("request_timeout_ms", .number n.requestTimeoutMs.toNat),
    ("connect_timeout_ms", .number n.connectTimeoutMs.toNat)]

theorem NodeConfig.sound_entries {n : NodeConfig}
    (hrequest : isSigned64 n.requestTimeoutMs.toNat = true)
    (hconnect : isSigned64 n.connectTimeoutMs.toNat = true) : SoundEntries n.entries := by
  have hnames : n.entries.map Prod.fst
      = ["address", "request_timeout_ms", "connect_timeout_ms"] := rfl
  refine .of_names hnames (by decide) (by decide) ?_
  simp only [entries, List.forall_mem_cons]
  exact ⟨trivial, hrequest, hconnect, by simp⟩

theorem NodeConfig.ofToml?_entries (n : NodeConfig) :
    ofToml? (.table .header (membersOf n.entries)) = some n := by
  simp [ofToml?, Toml.slots?, Toml.member?, membersOf, entries, List.lookup_cons, Toml.settingOr,
    Datum.toml, Toml.toText?, Toml.toWord?_integer]

def Artifacts.entries (a : Artifacts) : List (String × Datum) :=
  [("contract_wasm", .text a.contractModule), ("session_wasm", .text a.sessionModule)]

theorem Artifacts.sound_entries (a : Artifacts) : SoundEntries a.entries := by
  have hnames : a.entries.map Prod.fst = ["contract_wasm", "session_wasm"] := rfl
  refine .of_names hnames (by decide) (by decide) ?_
  simp only [entries, List.forall_mem_cons]
  exact ⟨trivial, trivial, by simp⟩

theorem Artifacts.ofToml?_entries (a : Artifacts) :
    ofToml? (.table .header (membersOf a.entries)) = some a := by
  simp [ofToml?, Toml.slots?, Toml.member?, membersOf, entries, List.lookup_cons, Toml.settingOr,
    Datum.toml, Toml.toText?]

def Payments.entries (p : Payments) : List (String × Datum) :=
  [("deploy_contract", .number p.deployContract.toNat), ("mint", .number p.mint.toNat),
    ("publish_request", .number p.publishRequest.toNat),
    ("approve_request", .number p.approveRequest.toNat), ("buy", .number p.buy.toNat),
    ("cancel_request", .number p.cancelRequest.toNat),
    ("disapprove", .number p.disapprove.toNat)]

/-- The amounts. -/
def Payments.amounts (p : Payments) : List UInt64 :=
  [p.deployContract, p.mint, p.publishRequest, p.approveRequest, p.buy, p.cancelRequest,
    p.disapprove]

theorem Payments.sound_entries {p : Payments} (h : ∀ n ∈ p.amounts, isSigned64 n.toNat = true) :
    SoundEntries p.entries := by
  have hnames : p.entries.map Prod.fst = ["deploy_contract", "mint", "publish_request",
      "approve_request", "buy", "cancel_request", "disapprove"] := rfl
  refine .of_names hnames (by decide) (by decide) ?_
  simp only [amounts, List.forall_mem_cons] at h
  obtain ⟨hinstall, hmint, hpublish, happrove, hbuy, hcancel, hdisapprove, -⟩ := h
  simp only [entries, List.forall_mem_cons]
  exact ⟨hinstall, hmint, hpublish, happrove, hbuy, hcancel, hdisapprove, by simp⟩

theorem Payments.ofToml?_entries (p : Payments) :
    ofToml? (.table .header (membersOf p.entries)) = some p := by
  simp [ofToml?, Toml.slots?, Toml.member?, membersOf, entries, List.lookup_cons, Toml.settingOr,
    Datum.toml, Toml.toWord?_integer]

def Identity.entries (user : Identity) : List (String × Datum) :=
  [("name", .text user.name), ("account_hash", .text user.account.formatted),
    ("secret_key", .text user.secretKey)]

theorem Identity.sound_entries (user : Identity) : SoundEntries user.entries := by
  have hnames : user.entries.map Prod.fst = ["name", "account_hash", "secret_key"] := rfl
  refine .of_names hnames (by decide) (by decide) ?_
  simp only [entries, List.forall_mem_cons]
  exact ⟨trivial, trivial, trivial, by simp⟩

theorem Identity.ofToml?_entries (user : Identity) :
    ofToml? (.table .header (membersOf user.entries)) = some user := by
  simp [ofToml?, Toml.slots?, Toml.member?, membersOf, entries, List.lookup_cons, Datum.toml,
    Toml.toText?, Toml.toHash?_string]

theorem Registry.ofToml?_entries (identities : Registry) :
    ofToml? (.tables ((identities.map Identity.entries).map membersOf)) = some identities := by
  rw [ofToml?, Toml.toItems?, Option.bind_some]
  induction identities with
  | nil => rfl
  | cons user identities ih =>
    rw [List.map_cons, List.map_cons, List.map_cons, List.mapM_cons, user.ofToml?_entries, ih]
    rfl

/-! ## Files -/

namespace Config

/-- A file with all settings. -/
def sheet (c : Config) : Sheet where
  entries := [("chain_name", .text c.chainName), ("contract_hash", .text c.contract.formatted)]
  tables := [("node", c.node.entries), ("artifacts", c.artifacts.entries),
    ("payments", c.payments.entries)]
  arrayName := "identities"
  items := c.identities.map Identity.entries

/-- The settings can stand in a file, where numbers have 64 bits with a sign and an array of
tables has a table. -/
structure Writable (c : Config) : Prop where
  requestTimeout : isSigned64 c.node.requestTimeoutMs.toNat = true
  connectTimeout : isSigned64 c.node.connectTimeoutMs.toNat = true
  payments : ∀ n ∈ c.payments.amounts, isSigned64 n.toNat = true
  identities : c.identities ≠ []

variable {c : Config}

theorem sound_sheet (h : c.Writable) : c.sheet.Sound := by
  have hnames : c.sheet.names
      = ["chain_name", "contract_hash", "node", "artifacts", "payments", "identities"] := rfl
  have hfirst : c.sheet.entries.map Prod.fst = ["chain_name", "contract_hash"] := rfl
  refine ⟨by rw [hnames]; decide, by rw [hnames]; decide, ?_⟩
  rw [Sheet.groups, List.forall_mem_cons, List.forall_mem_append]
  refine ⟨.of_names hfirst (by decide) (by decide) ?_, ?_, ?_⟩
  · simp only [sheet, List.forall_mem_cons]
    exact ⟨trivial, trivial, by simp⟩
  · simp only [sheet, List.map_cons, List.map_nil, List.forall_mem_cons]
    exact ⟨NodeConfig.sound_entries h.requestTimeout h.connectTimeout,
      c.artifacts.sound_entries, Payments.sound_entries h.payments, by simp⟩
  · simp only [sheet, List.forall_mem_map]
    exact fun user _ => user.sound_entries

/-- The members of the file are the settings. -/
theorem ofToml?_members (h : c.identities ≠ []) :
    ofToml? (.table .header c.sheet.members) = some c := by
  have hitems : (c.identities.map Identity.entries).map membersOf ≠ [] := by simpa using h
  have hslots : Toml.slots? ["node", "chain_name", "contract_hash", "artifacts", "payments",
      "identities"] (.table .header c.sheet.members)
      = some [some (.table .header (membersOf c.node.entries)), some (.string c.chainName),
        some (.string c.contract.formatted), some (.table .header (membersOf c.artifacts.entries)),
        some (.table .header (membersOf c.payments.entries)),
        some (.tables ((c.identities.map Identity.entries).map membersOf))] := by
    rw [Sheet.members, Toml.withTables, sheet, if_neg hitems]
    rfl
  simp only [ofToml?, hslots, Option.bind_eq_bind, Option.bind_some, Toml.settingOr,
    c.node.ofToml?_entries, Toml.toText?, Toml.toHash?_string, c.artifacts.ofToml?_entries,
    c.payments.ofToml?_entries, Registry.ofToml?_entries]
  rfl

/-- A file with all settings is read as the configuration. -/
theorem parse_sheet (h : c.Writable) : parse c.sheet.text = .ok c := by
  rw [parse, Sheet.parse?_text (sound_sheet h), Option.bind_some, ofToml?_members h.identities]

/-- A client that has the file and nothing else has its settings. -/
theorem load_sheet (h : c.Writable) (hvalid : c.validate = .ok ()) (path : String) :
    load (some (path, .ok c.sheet.text)) (fun _ => none) none = .ok c := by
  simp only [load, ofFile, parse_sheet h]
  change (do c.validate; return c : Except ConfigError Config) = _
  rw [hvalid]
  rfl

-- The default settings can stand in a file.
example : ({} : Config).Writable :=
  ⟨by decide, by decide, List.all_eq_true.1 (by decide), by decide⟩

end Config

end TokenMarket
