import TokenMarket.Proofs.EnvelopeText
import TokenMarket.Proofs.History
import TokenMarket.Proofs.Split
import TokenMarket.Rpc.Node

/-!
# A remote node stands for the node in memory

Every read of the marketplace is tried out over a node in memory, and used
over a remote one.  This module shows that the one can stand for the
other: behind a transport that serves what the node in memory holds, all
reads give the same answers, the failures included.

There are four groups.

* What it means to serve.  `Faithful` says of each question which outcomes
  are true to the node in memory.  It says nothing of roots but that there
  is one, nothing of the rest of an answer, and in a refusal only the mark
  counts.  `Serves` asks this of every message of a run.
* One question.  `rootOf_faithful`, `itemOf_faithful` and
  `namedKeyOf_faithful` read a faithful outcome as what the node in memory
  would have said.
* The run.  `shows` turns this into a statement about the node, after
  which nothing remote is left, and `readAll_eq` compares two runs.
* A node that serves.  `sampleTransport` counts its messages and never keeps
  a root, and still serves `sampleMemory`.
-/

namespace TokenMarket.Rpc

/-! ## What it means to serve -/

/-- The outcome is an answer of success with this result and no error. -/
def Outcome.Carries (o : Outcome) (v : Json) : Prop :=
  ∃ status body, o = .response status body ∧ 200 ≤ status ∧ status < 300
    ∧ Envelope.parse? body = some ⟨some v, none⟩

/-- The outcome is an answer, of whatever status, with an error whose
message has the mark for a missing value. -/
def Outcome.DeniesValue (o : Outcome) : Prop :=
  ∃ status body result e, o = .response status body
    ∧ Envelope.parse? body = some ⟨result, some e⟩
    ∧ missingMark.toList <:+: e.message.toList

/-- The outcomes of a question that are true to the node in memory. -/
def Faithful (memory : Memory) : Query → Outcome → Prop
  | .stateRoot, o => ∃ v root, o.Carries v
      ∧ v.get? "state_root_hash" = some (.string root) ∧ root ≠ ""
  | .dictionaryItem _ _ dictionary key, o =>
    match memory.item? dictionary key with
    | some value => ∃ v stored content, o.Carries v ∧ v.get? "stored_value" = some stored
        ∧ stored.isObject = true ∧ stored.get? "CLValue" = some content
        ∧ StoredValue.ofJson? content = some value
    | none => o.DeniesValue
  | .namedKey _ account path, o =>
    match memory.namedKey? account path with
    | some value => ∃ v, o.Carries v ∧ v.get? "stored_value" = some value
    | none => o.DeniesValue

/-- From every state of the invariant on, the transport gives faithful
outcomes to all messages that come to the address.  The invariant stands
for whatever the other side is like: it may change with every message. -/
def Serves {σ : Type} (transport : Transport (StateM σ)) (url : String) (memory : Memory)
    (Inv : σ → Prop) : Prop :=
  ∀ msg s, Inv s →
    Faithful memory msg.query (transport url msg s).1 ∧ Inv (transport url msg s).2

/-! ## One question -/

/-- The result of an answer of success. -/
theorem Query.result_of_carries {o : Outcome} {v : Json} (q : Query) (url : String)
    (h : o.Carries v) : q.result url o = .ok v := by
  obtain ⟨status, body, rfl, hlow, hhigh, hparse⟩ := h
  have hsuccess : isSuccess status = true := by
    simp [isSuccess, hlow, hhigh]
  simp [result, bodyResult, hparse, hsuccess]

/-- A denied value is one that is not found, whatever else the answer
holds. -/
theorem Query.result_of_deniesValue {o : Outcome} {q : Query} {dictionary key : String}
    (url : String) (hq : q.target? = some (dictionary, key)) (h : o.DeniesValue) :
    q.result url o = .error (.notFound dictionary key) := by
  obtain ⟨status, body, found, e, rfl, hparse, hmark⟩ := h
  have hmissing : e.saysMissing = true := by
    have hmentions : mentionsMissing e.message = true := Text.occursIn_iff.2 hmark
    rw [RemoteError.saysMissing, hmentions, Bool.true_or]
  simp [result, bodyResult, hparse, refusal, hq, hmissing]

variable {memory : Memory} {o : Outcome}

/-- A faithful answer has a root. -/
theorem rootOf_faithful (url : String) (h : Faithful memory .stateRoot o) :
    ∃ root, rootOf url o = .ok root := by
  obtain ⟨v, root, hv, hroot, hne⟩ := h
  refine ⟨root, ?_⟩
  simp [rootOf, Query.result_of_carries _ url hv, rootIn?, hroot, hne]

/-- A faithful answer holds the entry of the node in memory, or that there
is none. -/
theorem itemOf_faithful {root : String} {contract : ContractHash} {dictionary key : String}
    (url : String) (h : Faithful memory (.dictionaryItem root contract dictionary key) o) :
    itemOf root contract dictionary key url o = memory.content.lookup dictionary key := by
  simp only [Faithful] at h
  cases hitem : memory.item? dictionary key with
  | some value =>
    rw [hitem] at h
    obtain ⟨v, stored, content, hv, hstored, hobject, hcontent, hvalue⟩ := h
    simp [itemOf, Query.result_of_carries _ url hv, Query.storedValue, hstored, hobject, hcontent,
      hvalue, Memory.content, Content.lookup, hitem]
  | none =>
    rw [hitem] at h
    have htarget : (Query.dictionaryItem root contract dictionary key).target?
        = some (dictionary, key) := rfl
    simp [itemOf, Query.result_of_deniesValue url htarget h, Memory.content, Content.lookup, hitem]

/-- A faithful answer holds the value of the named key, if that is an
object, or that there is none. -/
theorem namedKeyOf_faithful {root : String} {account : AccountHash} {path : List String}
    (url : String)
    (hobject : ∀ value, memory.namedKey? account path = some value → value.isObject = true)
    (h : Faithful memory (.namedKey root account path) o) :
    namedKeyOf root account path url o = memory.content.namedKeyValue account path := by
  simp only [Faithful] at h
  cases hkey : memory.namedKey? account path with
  | some value =>
    rw [hkey] at h
    obtain ⟨v, hv, hvalue⟩ := h
    simp [namedKeyOf, Query.result_of_carries _ url hv, Query.storedValue, hvalue,
      hobject value hkey, Memory.content, Content.namedKeyValue, hkey]
  | none =>
    rw [hkey] at h
    have htarget : (Query.namedKey root account path).target?
        = some (account.formatted, pathText path) := rfl
    simp [namedKeyOf, Query.result_of_deniesValue url htarget h, Memory.content,
      Content.namedKeyValue, hkey]

/-! ## The run -/

variable {σ : Type} {transport : Transport (StateM σ)} {Inv : σ → Prop} {config : NodeConfig}

/-- A message that is sent has a faithful outcome, under whatever number. -/
theorem send_ensures (h : Serves transport config.rpcUrl memory Inv) (q : Query) :
    ((Assurance.keeping Inv).withState Nat).Ensures (send transport config.rpcUrl q)
      (Faithful memory q) := by
  intro id s hs
  exact h ⟨id, q⟩ s hs

/-- The remote node tells the content of the node in memory. -/
theorem shows (contract : ContractHash) (h : Serves transport config.rpcUrl memory Inv)
    (hobject : ∀ account path value,
      memory.namedKey? account path = some value → value.isObject = true) :
    Repository.Shows ((Assurance.keeping Inv).withState Nat) ⟨node config transport, contract⟩
      memory.content where
  root := by
    refine Assurance.ensures_bind _ (send_ensures h .stateRoot) ?_
    intro o ho
    exact Assurance.ensures_pure _ (rootOf_faithful config.rpcUrl ho)
  lookup root dictionary key := by
    refine Assurance.ensures_bind _
      (send_ensures h (.dictionaryItem root contract dictionary key)) ?_
    intro o ho
    exact Assurance.ensures_pure _ (itemOf_faithful config.rpcUrl ho)
  namedKey root account path := by
    refine Assurance.ensures_bind _ (send_ensures h (.namedKey root account path)) ?_
    intro o ho
    exact Assurance.ensures_pure _ (namedKeyOf_faithful config.rpcUrl (hobject account path) ho)

/-- Over a remote node behind a transport that serves a node in memory,
reads in a row are answered, one by one, as over the node in memory. -/
theorem readAll_eq (contract : ContractHash) (hfailing : memory.failing = false)
    (hobject : ∀ account path value,
      memory.namedKey? account path = some value → value.isObject = true)
    (hserves : Serves transport config.rpcUrl memory Inv) (reads : List Read) (id : Nat) (s : σ)
    (hs : Inv s) :
    ((((⟨node config transport, contract⟩ : Repository (StateT Nat (StateM σ))).readAll reads).run
        id).run s).1.1
      = (((⟨Memory.node, contract⟩ : Repository (StateM Memory)).readAll reads).run memory).1 := by
  have hremote := Repository.readAll_ensures (shows contract hserves hobject) reads id s hs
  have hlocal := Repository.readAll_ensures (Memory.shows memory.content contract) reads memory
    ⟨hfailing, rfl⟩
  exact hremote.1.trans hlocal.1.symm

/-! ## A node that serves -/

/-- A node in memory with a token and a named key. -/
def sampleMemory : Memory :=
  (Memory.insert {} "metadatas" "7" ⟨.null, "", .string "snow,uri,sum,300,5"⟩).insertNamedKey
    Config.demoAccount1 ["package"] (.nested "hash" ["ContractPackage"])

/-- What the other side of `sampleTransport` says after so many messages.
Refusals come under any status. -/
def sampleOutcome (count : Nat) : Query → Outcome
  | .stateRoot =>
    .response 200 (resultBody (if count % 2 = 0 then "even" else "odd") ["state_root_hash"])
  | .dictionaryItem _ _ dictionary key =>
    if "metadatas" = dictionary ∧ "7" = key then
      .response 203 (resultBody "snow,uri,sum,300,5" ["stored_value", "CLValue", "parsed"])
    else .response 500 (refusalBody "state query failed: ValueNotFound")
  | .namedKey _ account path =>
    if Config.demoAccount1 = account ∧ ["package"] = path then
      .response 200 (resultBody "hash" ["stored_value", "ContractPackage"])
    else .response 200 (refusalBody "ValueNotFound")

/-- A transport to a node that counts the messages and changes its root
with each of them. -/
def sampleTransport : Transport (StateM Nat) := fun _ msg count =>
  (sampleOutcome count msg.query, count + 1)

theorem carries_resultBody {status : Nat} (hlow : 200 ≤ status) (hhigh : status < 300)
    (text : String) {names : List String} (h : names.length ≤ 126) :
    Outcome.Carries (.response status (resultBody text names)) (.nested text names) :=
  ⟨status, _, rfl, hlow, hhigh, parse?_resultBody text h⟩

theorem deniesValue_refusalBody (status : Nat) {message : String}
    (h : missingMark.toList <:+: message.toList) :
    Outcome.DeniesValue (.response status (refusalBody message)) :=
  ⟨status, _, none, _, rfl, parse?_refusalBody message, h⟩

theorem sampleOutcome_root (count : Nat) :
    Faithful sampleMemory .stateRoot (sampleOutcome count .stateRoot) := by
  refine ⟨_, _, carries_resultBody (by decide) (by decide) _ (by decide), rfl, ?_⟩
  split <;> decide

theorem sampleOutcome_item (count : Nat) (root : String) (contract : ContractHash)
    (dictionary key : String) :
    Faithful sampleMemory (.dictionaryItem root contract dictionary key)
      (sampleOutcome count (.dictionaryItem root contract dictionary key)) := by
  have hitem : sampleMemory.item? dictionary key
      = if "metadatas" = dictionary ∧ "7" = key then
          some ⟨.null, "", .string "snow,uri,sum,300,5"⟩
        else none :=
    Memory.item?_insert {} dictionary key "metadatas" "7" _
  by_cases h : "metadatas" = dictionary ∧ "7" = key
  · rw [if_pos h] at hitem
    simp only [Faithful, hitem]
    rw [sampleOutcome, if_pos h]
    refine ⟨_, _, _, carries_resultBody (by decide) (by decide) _ ?_, rfl, rfl, rfl, rfl⟩
    decide
  · rw [if_neg h] at hitem
    simp only [Faithful, hitem]
    rw [sampleOutcome, if_neg h]
    exact deniesValue_refusalBody 500 ⟨"state query failed: ".toList, [], by decide⟩

theorem sampleOutcome_namedKey (count : Nat) (root : String) (account : AccountHash)
    (path : List String) :
    Faithful sampleMemory (.namedKey root account path)
      (sampleOutcome count (.namedKey root account path)) := by
  have hkey : sampleMemory.namedKey? account path
      = if Config.demoAccount1 = account ∧ ["package"] = path then
          some (.nested "hash" ["ContractPackage"])
        else none :=
    Memory.namedKey?_insertNamedKey _ account Config.demoAccount1 path ["package"] _
  by_cases h : Config.demoAccount1 = account ∧ ["package"] = path
  · rw [if_pos h] at hkey
    simp only [Faithful, hkey]
    rw [sampleOutcome, if_pos h]
    refine ⟨_, carries_resultBody (by decide) (by decide) _ ?_, rfl⟩
    decide
  · rw [if_neg h] at hkey
    simp only [Faithful, hkey]
    rw [sampleOutcome, if_neg h]
    exact deniesValue_refusalBody 200 ⟨[], [], by decide⟩

theorem sampleTransport_serves (url : String) :
    Serves sampleTransport url sampleMemory fun _ => True := by
  rintro ⟨id, q⟩ count -
  refine ⟨?_, trivial⟩
  cases q with
  | stateRoot => exact sampleOutcome_root count
  | dictionaryItem root contract dictionary key =>
    exact sampleOutcome_item count root contract dictionary key
  | namedKey root account path => exact sampleOutcome_namedKey count root account path

/-- All named keys of `sampleMemory` are objects. -/
theorem sampleMemory_isObject (account : AccountHash) (path : List String) (value : Json)
    (h : sampleMemory.namedKey? account path = some value) : value.isObject = true := by
  rw [sampleMemory, Memory.namedKey?_insertNamedKey] at h
  split at h
  · cases h
    rfl
  · cases h

/-- Over the node that changes its root all the time, the token is read as it
stands in memory, and what memory does not hold is not found. -/
theorem readAll_eq_sample :
    ((((⟨node {} sampleTransport, Config.defaultContract⟩
          : Repository (StateT Nat (StateM Nat))).readAll
        [.token 7, .ids .holders Config.demoAccount1, .namedKey Config.demoAccount1 "package",
          .token 8]).run firstId).run 0).1.1
      = [⟨.token 7, .ok ⟨"snow", "uri", "sum", 300, 5⟩⟩,
        ⟨.ids .holders Config.demoAccount1,
          .error (.notFound "owners" Config.demoAccount1.hex)⟩,
        ⟨.namedKey Config.demoAccount1 "package", .ok (.nested "hash" ["ContractPackage"])⟩,
        ⟨.token 8, .error (.notFound "metadatas" "8")⟩] := by
  have hserves := sampleTransport_serves ({} : NodeConfig).rpcUrl
  rw [readAll_eq Config.defaultContract rfl sampleMemory_isObject hserves _ firstId 0 trivial]
  have hlocal : ∀ reads, _ := fun reads => Repository.readAll_ensures
    (Memory.shows sampleMemory.content Config.defaultContract) reads sampleMemory ⟨rfl, rfl⟩
  rw [StateT.run, (hlocal _).1]
  have hkeys : Numeral.decimal 7 = "7" ∧ Numeral.decimal 8 = "8" := by decide +kernel
  simp only [List.map_cons, List.map_nil, Content.read, Content.token, UInt64.reduceToNat, hkeys]
  exact rfl

end TokenMarket.Rpc
