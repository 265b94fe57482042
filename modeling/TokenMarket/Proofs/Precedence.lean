import TokenMarket.CommandLine.Program
import TokenMarket.Proofs.Error
import TokenMarket.Proofs.Numeral
import TokenMarket.Proofs.Settings

/-!
# The strongest source of a setting decides

Four sources give values to settings: the defaults, the file, the
environment and the command line.  The program merges them one after the
other, and a later source overrides an earlier one.  This module turns that
order of steps around.  It says of each setting on its own which source
decides over it, and of a failure which fault it reports.

There are three groups.

* Layers.  `Layered` is what one source does to one value.  Two layers are a
  layer, `Layered.or`, in which the stronger one comes first.
* The environment.  `applyAll_overridden` is the induction over the variables.
  Its invariant is that the variables so far have been applied and that all
  other settings are as they were.  A wrong variable ends the induction, and
  the invariant then says where.
* All sources.  `load_outcome` puts the layers on top of each other, and
  `load_strongest` reads it in both directions.  That is possible because at
  most one configuration follows the sources, `Follows.unique`, and a fault
  has one wording, `faults_unique`.
-/

namespace TokenMarket

/-! ## Layers -/

/-- What a source says of a setting, over the value before it: nothing, and
the value stays, or the value after it.  A source may also say something that
is no value, and then there is no value after it. -/
def Layered {α : Type} (said : Option (Option α)) (before after : α) : Prop :=
  said.getD (some before) = some after

namespace Layered

variable {α : Type} {said : Option (Option α)} {x y z : α}

theorem or {strong weak : Option (Option α)} (hweak : Layered weak x y)
    (hstrong : Layered strong y z) : Layered (strong.or weak) x z := by
  rw [Layered, Option.getD_or, hweak, hstrong]

theorem unique (hy : Layered said x y) (hz : Layered said x z) : y = z :=
  Option.some.inj (hy.symm.trans hz)

/-- A source that said it once may say it again. -/
theorem again (h : Layered said x y) : Layered said y y := by
  cases said with
  | none => rfl
  | some value => exact h

end Layered

/-! ## The environment -/

namespace Setting

variable {env : String → Option String} {s : Setting} {e : ConfigError}

/-- Gives a setting another value. -/
def put : (s : Setting) → s.Value → Config → Config
  | address, v, c => { c with node := { c.node with address := v } }
  | requestTimeout, v, c => { c with node := { c.node with requestTimeoutMs := v } }
  | connectTimeout, v, c => { c with node := { c.node with connectTimeoutMs := v } }
  | chainName, v, c => { c with chainName := v }
  | contract, v, c => { c with contract := v }
  | contractModule, v, c => { c with artifacts := { c.artifacts with contractModule := v } }
  | sessionModule, v, c => { c with artifacts := { c.artifacts with sessionModule := v } }
  | installPayment, v, c => { c with payments := { c.payments with deployContract := v } }
  | mintPayment, v, c => { c with payments := { c.payments with mint := v } }
  | publishPayment, v, c => { c with payments := { c.payments with publishRequest := v } }
  | approvePayment, v, c => { c with payments := { c.payments with approveRequest := v } }
  | buyPayment, v, c => { c with payments := { c.payments with buy := v } }
  | cancelPayment, v, c => { c with payments := { c.payments with cancelRequest := v } }
  | disapprovePayment, v, c => { c with payments := { c.payments with disapprove := v } }
  | identities, v, c => { c with identities := v }

theorem get_put (s : Setting) (v : s.Value) (c : Config) : s.get (s.put v c) = v := by
  cases s <;> rfl

theorem get_put_of_ne {s t : Setting} (h : t ≠ s) (v : s.Value) (c : Config) :
    t.get (s.put v c) = t.get c := by
  cases s <;> cases t <;> first | rfl | exact absurd rfl h

/-- The contract that the text of a variable means. -/
def readContract (text : String) : Except ConfigError ContractHash :=
  (Hash.parse .contract text).mapError fun why => .invalid "NDPC_CONTRACT_HASH" why.message

/-- The time limit that the text of a variable means. -/
def readTimeout (text : String) : Except ConfigError UInt64 :=
  match Numeral.readWord64? text.toList with
  | some ms => .ok ms
  | none => .error (.invalid "NDPC_TIMEOUT_MS" ("not a number: " ++ text))

/-- The variable that overrides a setting, and how its text is read. -/
def reader? : (s : Setting) → Option (String × (String → Except ConfigError s.Value))
  | address => some ("NDPC_NODE_ADDRESS", .ok)
  | chainName => some ("NDPC_CHAIN_NAME", .ok)
  | contract => some ("NDPC_CONTRACT_HASH", readContract)
  | requestTimeout => some ("NDPC_TIMEOUT_MS", readTimeout)
  | _ => none

/-- The settings that have a variable, in the order in which the variables are
applied. -/
def overridable : List Setting := [address, chainName, contract, requestTimeout]

/-- The variable of a setting, as an override. -/
def override? (s : Setting) : Option Config.Override :=
  s.reader?.map fun (name, read) => ⟨name, fun text c => (read text).map fun v => s.put v c⟩

/-- The variables that the program applies. -/
theorem overrides_eq : Config.overrides = overridable.filterMap override? := by
  refine congrArg₂ List.cons rfl (congrArg₂ List.cons rfl
    (congrArg₂ List.cons (congrArg (Config.Override.mk _) ?_)
      (congrArg₂ List.cons (congrArg (Config.Override.mk _) ?_) rfl)))
  · funext text c
    simp only [readContract]
    cases Hash.parse .contract text <;> rfl
  · funext text c
    simp only [readTimeout]
    cases Numeral.readWord64? text.toList <;> rfl

/-- What the environment says of a setting. -/
def byVariable (s : Setting) (env : String → Option String) : Option (Option s.Value) :=
  s.reader?.bind fun (name, read) => (env name).map fun text => (read text).toOption

/-- The variable of a setting has a text that is no value of it.  Only a hash
and a number below 2^64 can be wrong. -/
def Refuses (env : String → Option String) : Setting → ConfigError → Prop
  | contract, e => ∃ text why, env "NDPC_CONTRACT_HASH" = some text
    ∧ Hash.parse .contract text = .error why ∧ e = .invalid "NDPC_CONTRACT_HASH" why.message
  | requestTimeout, e => ∃ text, env "NDPC_TIMEOUT_MS" = some text
    ∧ (¬ ∃ n < UInt64.size, Numeral.Signed text.toList n)
    ∧ e = .invalid "NDPC_TIMEOUT_MS" ("not a number: " ++ text)
  | _, _ => False

theorem readContract_eq_error_iff {text : String} :
    readContract text = .error e ↔ ∃ why, Hash.parse .contract text = .error why
      ∧ e = .invalid "NDPC_CONTRACT_HASH" why.message := by
  rw [readContract]
  cases Hash.parse .contract text with
  | ok hash => simp [Except.mapError]
  | error why => simp [Except.mapError, eq_comm]

theorem readTimeout_eq_error_iff {text : String} :
    readTimeout text = .error e ↔ (¬ ∃ n < UInt64.size, Numeral.Signed text.toList n)
      ∧ e = .invalid "NDPC_TIMEOUT_MS" ("not a number: " ++ text) := by
  rw [← Numeral.readWord64?_eq_none_iff, readTimeout]
  cases Numeral.readWord64? text.toList with
  | some ms => simp
  | none => simp [eq_comm]

theorem refuses_iff :
    s.Refuses env e ↔ ∃ name read text, s.reader? = some (name, read) ∧ env name = some text
      ∧ read text = .error e := by
  cases s with
  | contract => simp [Refuses, reader?, readContract_eq_error_iff]
  | requestTimeout => simp [Refuses, reader?, readTimeout_eq_error_iff]
  | _ => simp [Refuses, reader?]

/-- A wrong text leaves a setting without a value. -/
theorem Refuses.not_layered {v w : s.Value} (h : s.Refuses env e) :
    ¬ Layered (s.byVariable env) v w := by
  obtain ⟨name, read, text, hreader, henv, hread⟩ := refuses_iff.1 h
  simp [Layered, byVariable, hreader, henv, hread, Except.toOption]

theorem Refuses.unique {f : ConfigError} (he : s.Refuses env e) (hf : s.Refuses env f) :
    e = f := by
  obtain ⟨name, read, text, hreader, henv, hread⟩ := refuses_iff.1 he
  obtain ⟨_, _, _, hreader', henv', hread'⟩ := refuses_iff.1 hf
  obtain ⟨rfl, rfl⟩ := Prod.mk.inj (Option.some.inj (hreader.symm.trans hreader'))
  obtain rfl := Option.some.inj (henv.symm.trans henv')
  exact Except.error.inj (hread.symm.trans hread')

end Setting

namespace Config

open Setting (override? overridable)

variable {env : String → Option String} {c c' : Config}

/-- The variables of these settings have been applied, and no others. -/
def Applied (env : String → Option String) (done : List Setting) (c c' : Config) : Prop :=
  (∀ s ∈ done, Layered (s.byVariable env) (s.get c) (s.get c'))
    ∧ ∀ s ∉ done, s.get c' = s.get c

/-- One variable is applied, and others after it. -/
theorem Applied.cons {s : Setting} {done : List Setting} {c₁ c₂ c₃ : Config} (hs : s ∉ done)
    (hfirst : Applied env [s] c₁ c₂) (hrest : Applied env done c₂ c₃) :
    Applied env (s :: done) c₁ c₃ := by
  constructor
  · intro t ht
    rcases List.mem_cons.1 ht with rfl | ht
    · rw [hrest.2 t hs]
      exact hfirst.1 t List.mem_cons_self
    · have hne : t ∉ [s] := fun hmem => hs (List.mem_singleton.1 hmem ▸ ht)
      rw [← hfirst.2 t hne]
      exact hrest.1 t ht
  · intro t ht
    obtain ⟨hne, hnot⟩ := not_or.1 (List.mem_cons.not.1 ht)
    rw [hrest.2 t hnot, hfirst.2 t (by simpa using hne)]

/-- What becomes of a configuration when the variables of some settings are
applied in order: all of them, or those before the first that is wrong. -/
def Overridden (env : String → Option String) (settings : List Setting) (c c' : Config) :
    Except ConfigError Unit → Prop
  | .ok () => Applied env settings c c'
  | .error e => ∃ done failing rest, settings = done ++ failing :: rest ∧ failing.Refuses env e
    ∧ Applied env done c c'

/-- One variable is wrong, or it is applied and the others follow. -/
theorem applyAll_cons (s : Setting) (settings : List Setting) (c : Config) :
    (∃ e, s.Refuses env e
      ∧ applyAll env ((s :: settings).filterMap override?) c = (c, .error e))
    ∨ ∃ c₁, Applied env [s] c c₁
      ∧ applyAll env ((s :: settings).filterMap override?) c
        = applyAll env (settings.filterMap override?) c₁ := by
  cases hreader : s.reader? with
  | none =>
    refine Or.inr ⟨c, ⟨?_, fun _ _ => rfl⟩, ?_⟩
    · intro t ht
      obtain rfl := List.mem_singleton.1 ht
      simp [Layered, Setting.byVariable, hreader]
    · rw [List.filterMap_cons_none (by simp [override?, hreader])]
  | some reader =>
    obtain ⟨name, read⟩ := reader
    have hcons := List.filterMap_cons_some (l := settings)
      (show override? s = some ⟨name, fun text c => (read text).map fun v => s.put v c⟩ by
        simp [override?, hreader])
    rw [hcons, applyAll]
    cases henv : env name with
    | none =>
      refine Or.inr ⟨c, ⟨?_, fun _ _ => rfl⟩, rfl⟩
      intro t ht
      obtain rfl := List.mem_singleton.1 ht
      simp [Layered, Setting.byVariable, hreader, henv]
    | some text =>
      cases hread : read text with
      | error e =>
        refine Or.inl ⟨e, Setting.refuses_iff.2 ⟨name, read, text, hreader, henv, hread⟩, ?_⟩
        simp [hread, Except.map]
      | ok v =>
        refine Or.inr ⟨s.put v c, ⟨?_, ?_⟩, by simp [hread, Except.map]⟩
        · intro t ht
          obtain rfl := List.mem_singleton.1 ht
          simp [Layered, Setting.byVariable, hreader, henv, hread, Except.toOption,
            Setting.get_put]
        · intro t ht
          exact Setting.get_put_of_ne (by simpa using ht) v c

/-- Variables are applied in order, up to the first that is wrong. -/
theorem applyAll_overridden {settings : List Setting} (hnodup : settings.Nodup) (c : Config) :
    Overridden env settings c (applyAll env (settings.filterMap override?) c).1
      (applyAll env (settings.filterMap override?) c).2 := by
  induction settings generalizing c with
  | nil => exact ⟨fun s hs => absurd hs List.not_mem_nil, fun _ _ => rfl⟩
  | cons s settings ih =>
    obtain ⟨hs, hnodup⟩ := List.nodup_cons.1 hnodup
    rcases @applyAll_cons env s settings c with ⟨e, hrefuses, heq⟩ | ⟨c₁, hfirst, heq⟩
    · rw [heq]
      exact ⟨[], s, settings, rfl, hrefuses, fun t ht => absurd ht List.not_mem_nil,
        fun _ _ => rfl⟩
    · rw [heq]
      have hrest := ih hnodup c₁
      generalize applyAll env (settings.filterMap override?) c₁ = outcome at hrest
      obtain ⟨c₂, _ | _⟩ := outcome
      · obtain ⟨done, failing, rest, rfl, hrefuses, happlied⟩ := hrest
        have hdone : s ∉ done := fun h => hs (List.mem_append_left _ h)
        exact ⟨s :: done, failing, rest, rfl, hrefuses, hfirst.cons hdone happlied⟩
      · exact hfirst.cons hs hrest

theorem override_overridden (env : String → Option String) (c : Config) :
    Overridden env overridable c (override env c).1 (override env c).2 := by
  rw [override, Setting.overrides_eq]
  exact applyAll_overridden (by decide) c

/-- Where all variables are right, they decide over every setting, and
applying them again changes nothing. -/
theorem override_ok {c c' : Config} (h : override env c = (c', .ok ())) :
    (∀ s : Setting, Layered (s.byVariable env) (s.get c) (s.get c'))
      ∧ override env c' = (c', .ok ()) := by
  have happlied : Applied env overridable c c' := by
    have := override_overridden env c
    rwa [h] at this
  have hall : ∀ s : Setting, Layered (s.byVariable env) (s.get c) (s.get c') := by
    intro s
    by_cases hs : s ∈ overridable
    · exact happlied.1 s hs
    · rw [happlied.2 s hs]
      have hnone : s.reader? = none := by
        cases s <;> first | rfl | exact absurd (by decide) hs
      simp [Layered, Setting.byVariable, hnone]
  refine ⟨hall, ?_⟩
  have hagain := override_overridden env c'
  generalize override env c' = outcome at hagain
  obtain ⟨c'', e | _⟩ := outcome
  · obtain ⟨done, failing, rest, -, hrefuses, -⟩ := hagain
    exact absurd (hall failing) hrefuses.not_layered
  · have heq : c'' = c' := by
      apply eq_of_get
      intro s
      by_cases hs : s ∈ overridable
      · exact (hagain.1 s hs).unique (hall s).again
      · exact hagain.2 s hs
    rw [heq]

/-! ## All sources -/

/-- The document of a file, if there is one. -/
def document? : Option Source → Option Toml
  | some (_, .ok text) => (Toml.parse? text).map (.table .header)
  | _ => none

end Config

namespace Setting

/-- What a file says of a setting. -/
def byFile (s : Setting) (file : Option Config.Source) : Option (Option s.Value) :=
  ((Config.document? file).bind s.raw?).map s.decode?

/-- What the command line says of a setting. -/
def byFlag : (s : Setting) → Option String → Option (Option s.Value)
  | address, flag => flag.map some
  | _, _ => none

/-- What the strongest source says that says anything of a setting. -/
def byStrongest (s : Setting) (file : Option Config.Source) (env : String → Option String)
    (flag : Option String) : Option (Option s.Value) :=
  (s.byFlag flag).or ((s.byVariable env).or (s.byFile file))

end Setting

namespace Config

/-- Every setting has the value that its strongest source says, or its
default. -/
def Follows (file : Option Source) (env : String → Option String) (flag : Option String)
    (c : Config) : Prop :=
  ∀ s : Setting, Layered (s.byStrongest file env flag) (s.get {}) (s.get c)

/-- The file cannot be read, or is no configuration. -/
def FileFault (file : Option Source) (e : ConfigError) : Prop :=
  ∃ path content, file = some (path, content)
    ∧ ((∃ why, content = .error why ∧ e = .unreadable path why.message)
      ∨ (∃ text, content = .ok text) ∧ (document? file).bind ofToml? = none
        ∧ e = .malformed "<toml error>")

/-- The merged configuration is not valid. -/
def Invalid (file : Option Source) (env : String → Option String) (flag : Option String)
    (e : ConfigError) : Prop :=
  ∃ c, Follows file env flag c ∧ c.validate = .error e

/-- What can be wrong with the sources, in the order in which it counts. -/
def faults (file : Option Source) (env : String → Option String) (flag : Option String) :
    List (ConfigError → Prop) :=
  [FileFault file, Setting.contract.Refuses env, Setting.requestTimeout.Refuses env,
    Invalid file env flag]

open Setting (overridable)

variable {file : Option Source} {env : String → Option String} {flag : Option String}
  {c : Config} {e : ConfigError}

theorem Follows.unique {d : Config} (hc : Follows file env flag c) (hd : Follows file env flag d) :
    c = d :=
  eq_of_get fun s => (hc s).unique (hd s)

/-- Each fault has one wording. -/
theorem faults_unique : ∀ fault ∈ faults file env flag, ∀ e f, fault e → fault f → e = f := by
  intro fault hfault e f he hf
  simp only [faults, List.mem_cons, List.not_mem_nil, or_false] at hfault
  rcases hfault with rfl | rfl | rfl | rfl
  · obtain ⟨path, content, rfl, ⟨why, rfl, rfl⟩ | ⟨⟨text, rfl⟩, -, rfl⟩⟩ := he
    · obtain ⟨_, _, heq, ⟨_, rfl, rfl⟩ | ⟨⟨_, rfl⟩, -, rfl⟩⟩ := hf
      · cases heq; rfl
      · cases heq
    · obtain ⟨_, _, heq, ⟨_, rfl, rfl⟩ | ⟨⟨_, rfl⟩, -, rfl⟩⟩ := hf
      · cases heq
      · rfl
  · exact he.unique hf
  · exact he.unique hf
  · obtain ⟨c, hc, he⟩ := he
    obtain ⟨d, hd, hf⟩ := hf
    rw [hc.unique hd] at he
    exact Except.error.inj (he.symm.trans hf)

/-- The configuration of the file alone. -/
def ofSource : Option Source → Except ConfigError Config
  | none => .ok {}
  | some (path, content) => ofFile path content

/-- The configuration with the address of the command line. -/
def withFlag (flag : Option String) (c : Config) : Config :=
  match flag with
  | none => c
  | some text => { c with node := { c.node with address := text } }

theorem ofSource_text (path text : String) :
    ofSource (some (path, .ok text))
      = match (document? (some (path, .ok text))).bind ofToml? with
        | some c => .ok c
        | none => .error (.malformed "<toml error>") := by
  rw [document?, Option.bind_map]
  rfl

theorem ofSource_eq_ok (h : ofSource file = .ok c) :
    (∀ e, ¬ FileFault file e) ∧ ∀ s : Setting, Layered (s.byFile file) (s.get {}) (s.get c) := by
  rcases file with _ | ⟨path, why | text⟩
  · obtain rfl := Except.ok.inj h
    refine ⟨?_, fun s => rfl⟩
    rintro e ⟨_, _, hfile, -⟩
    cases hfile
  · cases h
  · rw [ofSource_text] at h
    cases hread : (document? (some (path, .ok text))).bind ofToml? with
    | none => simp [hread] at h
    | some d =>
      obtain rfl : d = c := by simpa [hread] using h
      refine ⟨?_, ?_⟩
      · rintro e ⟨_, _, hfile, ⟨_, rfl, -⟩ | ⟨-, hnone, -⟩⟩
        · cases hfile
        · rw [hread] at hnone
          cases hnone
      · intro s
        obtain ⟨v, hv, hd⟩ := Option.bind_eq_some_iff.1 hread
        have hsetting := ofToml?_setting hd s
        rw [Layered, Setting.byFile, hv, Option.bind_some]
        cases hraw : s.raw? v with
        | none => rwa [hraw] at hsetting
        | some slot => rwa [hraw] at hsetting

theorem ofSource_eq_error (h : ofSource file = .error e) : FileFault file e := by
  rcases file with _ | ⟨path, why | text⟩
  · cases h
  · obtain rfl := Except.error.inj h
    exact ⟨path, .error why, rfl, Or.inl ⟨why, rfl, rfl⟩⟩
  · rw [ofSource_text] at h
    cases hread : (document? (some (path, .ok text))).bind ofToml? with
    | some d => simp [hread] at h
    | none =>
      obtain rfl : ConfigError.malformed "<toml error>" = e := by simpa [hread] using h
      exact ⟨path, .ok text, rfl, Or.inr ⟨⟨text, rfl⟩, hread, rfl⟩⟩

theorem withFlag_layered (flag : Option String) (c : Config) (s : Setting) :
    Layered (s.byFlag flag) (s.get c) (s.get (withFlag flag c)) := by
  cases flag <;> cases s <;> rfl

theorem load_eq (file : Option Source) (env : String → Option String) (flag : Option String) :
    load file env flag = do
      let c ← ofSource file
      let (c, applied) := override env c
      applied
      (withFlag flag c).validate
      return withFlag flag c := by
  rcases file with _ | ⟨path, content⟩ <;> cases flag <;> rfl

/-- The contract is looked at before the time limit. -/
theorem refuses_first {done rest : List Setting} {failing : Setting} {c' : Config}
    {others : List (ConfigError → Prop)} (horder : overridable = done ++ failing :: rest)
    (hrefuses : failing.Refuses env e) (happlied : Applied env done c c') :
    FirstOf (Setting.contract.Refuses env :: Setting.requestTimeout.Refuses env :: others) e := by
  cases failing with
  | contract => exact Or.inl hrefuses
  | requestTimeout =>
    have hlast : overridable.Pairwise fun s t => s = .requestTimeout → t ≠ .contract := by decide
    rw [horder, List.pairwise_append, List.pairwise_cons] at hlast
    have hrest : Setting.contract ∉ rest := fun hmem => hlast.2.1.1 _ hmem rfl rfl
    have hdone : Setting.contract ∈ done := by
      have hmem : Setting.contract ∈ overridable := by decide
      rw [horder] at hmem
      simpa [hrest] using hmem
    exact Or.inr ⟨fun f hf => hf.not_layered (happlied.1 _ hdone), Or.inl hrefuses⟩
  | _ => exact hrefuses.elim

/-- What a load comes to: a valid configuration that follows the sources, or
the first fault. -/
theorem load_outcome (file : Option Source) (env : String → Option String)
    (flag : Option String) :
    (∃ c, load file env flag = .ok c ∧ (∀ fault ∈ faults file env flag, ∀ e, ¬ fault e)
      ∧ Follows file env flag c ∧ c.validate = .ok ())
    ∨ ∃ e, load file env flag = .error e ∧ FirstOf (faults file env flag) e := by
  rw [load_eq]
  cases hfile : ofSource file with
  | error e => exact Or.inr ⟨e, rfl, Or.inl (ofSource_eq_error hfile)⟩
  | ok c₀ =>
  obtain ⟨hreadable, hbase⟩ := ofSource_eq_ok hfile
  have hover := override_overridden env c₀
  cases henv : override env c₀ with
  | mk c₁ applied =>
  rw [henv] at hover
  cases applied with
  | error e =>
    obtain ⟨done, failing, rest, horder, hrefuses, happlied⟩ := hover
    exact Or.inr ⟨e, by simp [henv], Or.inr ⟨hreadable, refuses_first horder hrefuses happlied⟩⟩
  | ok _ =>
  obtain ⟨hall, -⟩ := override_ok henv
  have hfollows : Follows file env flag (withFlag flag c₁) := by
    intro s
    exact ((hbase s).or (hall s)).or (withFlag_layered flag c₁ s)
  have hright : ∀ s : Setting, ∀ e, ¬ s.Refuses env e := fun s e h => h.not_layered (hall s)
  cases hvalid : (withFlag flag c₁).validate with
  | error e =>
    refine Or.inr ⟨e, by simp [henv, hvalid], Or.inr ⟨hreadable, Or.inr ⟨hright .contract,
      Or.inr ⟨hright .requestTimeout, Or.inl ⟨_, hfollows, hvalid⟩⟩⟩⟩⟩
  | ok _ =>
    refine Or.inl ⟨withFlag flag c₁, by simp [henv, hvalid], ?_, hfollows, hvalid⟩
    intro fault hfault
    simp only [faults, List.mem_cons, List.not_mem_nil, or_false] at hfault
    rcases hfault with rfl | rfl | rfl | rfl
    · exact hreadable
    · exact hright .contract
    · exact hright .requestTimeout
    · rintro e ⟨d, hd, hinvalid⟩
      rw [hd.unique hfollows, hvalid] at hinvalid
      cases hinvalid

/-- A load succeeds exactly where nothing is wrong with the sources, and then
every setting follows its strongest source and the configuration is valid.
Otherwise it fails with the first fault, and the program ends without output
and without a request.

The variables decide over the settings that have one, and a second time they
change nothing.  Where one is wrong, exactly those before it are applied. -/
theorem load_strongest (file : Option Source) (env : String → Option String)
    (flag : Option String) :
    (∀ c, load file env flag = .ok c ↔
        (∀ fault ∈ faults file env flag, ∀ e, ¬ fault e)
          ∧ Follows file env flag c ∧ c.validate = .ok ())
      ∧ (∀ e, load file env flag = .error e ↔ FirstOf (faults file env flag) e)
      ∧ (∀ (m : Type → Type) [Monad m] (transport : Rpc.Transport m) (call : Invocation)
          (o : Options) (e : ConfigError), Options.parse? call.arguments = some o →
          o.config.map (fun path => (path, call.file path)) = file →
          call.environment = env → o.node = flag → load file env flag = .error e →
          Program.run transport call = pure ⟨Program.failed, "", some e.message⟩)
      ∧ (∀ c c', override env c = (c', .ok ()) →
          (∀ s : Setting, Layered (s.byVariable env) (s.get c) (s.get c'))
            ∧ override env c' = (c', .ok ()))
      ∧ ∀ c c' e, override env c = (c', .error e) →
          ∃ done failing rest, overridable = done ++ failing :: rest ∧ failing.Refuses env e
            ∧ (∀ s ∈ done, Layered (s.byVariable env) (s.get c) (s.get c'))
            ∧ ∀ s ∉ done, s.get c' = s.get c := by
  have hok : ∀ c, load file env flag = .ok c →
      (∀ fault ∈ faults file env flag, ∀ e, ¬ fault e)
        ∧ Follows file env flag c ∧ c.validate = .ok () := by
    intro c h
    rcases load_outcome file env flag with ⟨d, hd, houtcome⟩ | ⟨e, he, -⟩
    · obtain rfl := Except.ok.inj (hd.symm.trans h)
      exact houtcome
    · cases he.symm.trans h
  have herror : ∀ e, load file env flag = .error e → FirstOf (faults file env flag) e := by
    intro e h
    rcases load_outcome file env flag with ⟨d, hd, -⟩ | ⟨f, hf, hfirst⟩
    · cases hd.symm.trans h
    · obtain rfl := Except.error.inj (hf.symm.trans h)
      exact hfirst
  refine ⟨fun c => ⟨hok c, ?_⟩, fun e => ⟨herror e, ?_⟩, ?_, fun c c' => override_ok, ?_⟩
  · rintro ⟨hnone, hfollows, -⟩
    cases hload : load file env flag with
    | ok d => rw [(hok d hload).2.1.unique hfollows]
    | error e =>
      obtain ⟨fault, hmem, hfault⟩ := (herror e hload).mem
      exact absurd hfault (hnone fault hmem e)
  · intro hfirst
    cases hload : load file env flag with
    | ok d =>
      obtain ⟨fault, hmem, hfault⟩ := hfirst.mem
      exact absurd hfault ((hok d hload).1 fault hmem e)
    | error f => rw [(herror f hload).unique faults_unique hfirst]
  · rintro m _ transport call o e hparse rfl rfl rfl hload
    have hconfiguration :
        Program.configuration o call.environment call.file = .error e := hload
    simp only [Program.run, hparse, hconfiguration]
  · intro c c' e h
    have := override_overridden env c
    rwa [h] at this

-- A variable decides over one of the two settings of a file.
example : load
    (some ("client.toml", .ok "chain_name = 'casper'\n[node]\nrequest_timeout_ms = 500\n"))
    (fun name => if name = "NDPC_CHAIN_NAME" then some "local" else none) none
    = .ok { node := { requestTimeoutMs := 500 }, chainName := "local" } := by
  decide +kernel

-- A text without quotes is no value, and then the file is no document.
example : load (some ("client.toml", .ok "chain_name = casper\n")) (fun _ => none) none
    = .error (.malformed "<toml error>") := by
  decide +kernel

end Config

end TokenMarket
