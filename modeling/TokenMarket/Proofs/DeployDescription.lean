import TokenMarket.Proofs.CheckedOrder
import TokenMarket.Proofs.JsonLayout
import TokenMarket.Proofs.Split

/-!
# The two descriptions of a deploy

A deploy is described by a command line and by a record.  Whoever gets one
of them signs what the other one says.  This module shows that both say the
same, and that neither leaves anything out: a deploy can be told from its
command line alone, and from its record alone.

That is not obvious for the command line.  The word of an argument is a name,
a type and a text with marks between them, and the text may hold the same
marks.  But it comes last, and neither the name nor the type holds the mark
that ends it (`Argument.simple_inj`).

* Hashes and arguments.  Values are told apart by their type and their text.
  An account and a contract have one type, and the tags of their hashes differ.
* The command line.  `Deploy.arguments_inj` takes it apart from the front.
* The record.  `Deploy.argumentsOf?` writes the command line from the record,
  and looks at nothing else.
* The record as text.  `Deploy.readable_toJson` says that the record can be
  read from its text, and `Deploy.descriptions_determine` is the result.
-/

namespace TokenMarket

/-! ## Hashes -/

namespace Hash

variable {kind : HashKind}

theorem formatted_injective : Function.Injective (formatted : Hash kind → String) := by
  intro h k heq
  have hchars := congrArg String.toList heq
  rw [formatted, formatted, String.toList_append, String.toList_append] at hchars
  exact hex_injective (String.toList_inj.1 (List.append_cancel_left hchars))

/-- The tags tell an account from a contract. -/
theorem formatted_account_ne (h : AccountHash) (k : ContractHash) : h.formatted ≠ k.formatted := by
  intro heq
  have hhead := congrArg (fun s : String => s.toList.head?) heq
  rw [formatted, formatted, String.toList_append, String.toList_append] at hhead
  simp [HashKind.tag] at hhead

end Hash

/-! ## Arguments -/

/-- The type and the text of a value are the value. -/
theorem ArgumentValue.eq_of_text {v w : ArgumentValue} (htype : v.typeName = w.typeName)
    (htext : v.text = w.text) : v = w := by
  cases v with
  | string s =>
    cases w with
    | string t => exact congrArg string htext
    | _ => simp [typeName] at htype
  | u8 n =>
    cases w with
    | u8 m => exact congrArg u8 (UInt8.toNat_inj.1 (Numeral.decimal_injective htext))
    | _ => simp [typeName] at htype
  | u64 n =>
    cases w with
    | u64 m => exact congrArg u64 (UInt64.toNat_inj.1 (Numeral.decimal_injective htext))
    | _ => simp [typeName] at htype
  | u256 n =>
    cases w with
    | u256 m => exact congrArg u256 (BitVec.toNat_inj.1 (Numeral.decimal_injective htext))
    | _ => simp [typeName] at htype
  | u512 n =>
    cases w with
    | u512 m => exact congrArg u512 (BitVec.toNat_inj.1 (Numeral.decimal_injective htext))
    | _ => simp [typeName] at htype
  | account h =>
    cases w with
    | account k => exact congrArg account (Hash.formatted_injective htext)
    | contract k => exact absurd htext (Hash.formatted_account_ne h k)
    | _ => simp [typeName] at htype
  | contract h =>
    cases w with
    | contract k => exact congrArg contract (Hash.formatted_injective htext)
    | account k => exact absurd htext.symm (Hash.formatted_account_ne k h)
    | _ => simp [typeName] at htype

/-- No type holds the mark that ends types. -/
theorem ArgumentValue.not_mem_typeName (v : ArgumentValue) : '=' ∉ v.typeName.toList := by
  cases v <;> simp [typeName]

namespace Argument

theorem toList_simple (a : Argument) :
    a.simple.toList = a.name.toList ++ ':' :: (a.value.typeName.toList
      ++ '=' :: '\'' :: (a.value.text.toList ++ ['\''])) := by
  simp [simple]

/-- The name ends at the first colon and the type at the first equals sign
behind it.  What comes then is the text, whatever is in it. -/
theorem simple_inj {a b : Argument} (ha : ':' ∉ a.name.toList) (hb : ':' ∉ b.name.toList)
    (h : a.simple = b.simple) : a = b := by
  have hchars := congrArg String.toList h
  rw [toList_simple, toList_simple] at hchars
  obtain ⟨hname, hvalue⟩ := Text.append_separator_inj ha hb hchars
  obtain ⟨htype, htext⟩ := Text.append_separator_inj a.value.not_mem_typeName
    b.value.not_mem_typeName hvalue
  have hvalues : a.value = b.value := ArgumentValue.eq_of_text (String.toList_inj.1 htype)
    (String.toList_inj.1 (List.append_cancel_right (List.cons.inj htext).2))
  obtain ⟨_, _⟩ := a
  obtain rfl := String.toList_inj.1 hname
  obtain rfl := hvalues
  rfl

end Argument

/-! ## The command line -/

namespace Deploy

/-- No name of an argument holds the character that ends names. -/
def Named (d : Deploy) : Prop := ∀ a ∈ d.args, ':' ∉ a.name.toList

/-- The words of arguments are those of no other arguments. -/
theorem words_inj {as bs : List Argument} (ha : ∀ a ∈ as, ':' ∉ a.name.toList)
    (hb : ∀ b ∈ bs, ':' ∉ b.name.toList)
    (h : as.flatMap (fun a => ["--session-arg", a.simple])
      = bs.flatMap fun b => ["--session-arg", b.simple]) : as = bs := by
  induction as generalizing bs with
  | nil =>
    cases bs with
    | nil => rfl
    | cons b bs => simp at h
  | cons a as ih =>
    cases bs with
    | nil => simp at h
    | cons b bs =>
      simp only [List.flatMap_cons, List.cons_append, List.nil_append, List.cons.injEq,
        true_and] at h
      obtain ⟨hword, hrest⟩ := h
      rw [Argument.simple_inj (ha a List.mem_cons_self) (hb b List.mem_cons_self) hword,
        ih (fun x hx => ha x (List.mem_cons_of_mem a hx))
          (fun x hx => hb x (List.mem_cons_of_mem b hx)) hrest]

/-- A deploy is determined by its command line. -/
theorem arguments_inj {d e : Deploy} (hd : d.Named) (he : e.Named)
    (h : d.arguments = e.arguments) : d = e := by
  obtain ⟨_, _, _, payment, target, args⟩ := d
  obtain ⟨_, _, _, payment', target', args'⟩ := e
  simp only [arguments, List.cons_append, List.nil_append, List.cons.injEq, true_and] at h
  obtain ⟨rfl, rfl, rfl, hpayment, htail⟩ := h
  obtain rfl : payment = payment' := UInt64.toNat_inj.1 (Numeral.decimal_injective hpayment)
  cases target with
  | storedContract contract entryPoint =>
    cases target' with
    | storedContract contract' entryPoint' =>
      simp only [DeployTarget.arguments, List.cons_append, List.nil_append, List.cons.injEq,
        true_and] at htail
      obtain ⟨hcontract, rfl, hargs⟩ := htail
      obtain rfl := Hash.formatted_injective hcontract
      obtain rfl : args = args' := words_inj hd he hargs
      rfl
    | sessionModule path => simp [DeployTarget.arguments] at htail
  | sessionModule path =>
    cases target' with
    | storedContract contract entryPoint => simp [DeployTarget.arguments] at htail
    | sessionModule path' =>
      simp only [DeployTarget.arguments, List.cons_append, List.nil_append, List.cons.injEq,
        true_and] at htail
      obtain ⟨rfl, hargs⟩ := htail
      obtain rfl : args = args' := words_inj hd he hargs
      rfl

end Deploy

/-! ## The record -/

/-- The text of a member. -/
def Json.textAt? (v : Json) (name : String) : Option String :=
  (v.get? name).bind text?

/-- The word of an argument, from its record: name, type and value. -/
def Argument.wordOf? (a : Json) : Option String := do
  let name ← a.textAt? "name"
  let type ← a.textAt? "cl_type"
  let value ← a.textAt? "value"
  return name ++ ":" ++ type ++ "='" ++ value ++ "'"

/-- The arguments that name a target, from its record. -/
def DeployTarget.argumentsOf? (t : Json) : Option (List String) := do
  match ← t.textAt? "kind" with
  | "stored_contract" =>
    let contract ← t.textAt? "contract"
    let entryPoint ← t.textAt? "entry_point"
    return ["--session-hash", "hash-" ++ contract, "--session-entry-point", entryPoint]
  | "session_wasm" =>
    let path ← t.textAt? "path"
    return ["--session-path", path]
  | _ => none

/-- The command line of a deploy, from its record.  The payment is written as
the record writes it. -/
def Deploy.argumentsOf? (d : Json) : Option (List String) := do
  let nodeAddress ← d.textAt? "node_address"
  let chainName ← d.textAt? "chain_name"
  let signer ← d.textAt? "signer"
  let payment ← d.get? "payment"
  let target ← d.get? "target"
  let targetArguments ← DeployTarget.argumentsOf? target
  let args ← d.get? "args"
  let items ← args.items?
  let words ← items.mapM Argument.wordOf?
  return ["put-deploy", "--node-address", nodeAddress, "--chain-name", chainName,
    "--secret-key", signer, "--payment-amount", payment.compact]
    ++ targetArguments ++ words.flatMap fun word => ["--session-arg", word]

theorem Argument.wordOf?_toJson (a : Argument) : wordOf? a.toJson = some a.simple := by
  simp [wordOf?, toJson, Json.textAt?, Json.get?_ofMembers, Json.lookup_cons_member, Json.text?,
    simple]

theorem DeployTarget.argumentsOf?_toJson (t : DeployTarget) :
    argumentsOf? t.toJson = some t.arguments := by
  cases t with
  | storedContract contract entryPoint =>
    simp [argumentsOf?, toJson, Json.textAt?, Json.get?_ofMembers, Json.lookup_cons_member,
      Json.text?, arguments, Hash.formatted, HashKind.tag]
  | sessionModule path =>
    simp [argumentsOf?, toJson, Json.textAt?, Json.get?_ofMembers, Json.lookup_cons_member,
      Json.text?, arguments]

/-- The payment is written in decimal. -/
theorem Json.compact_ofWord (n : UInt64) : (ofWord n).compact = Numeral.decimal n.toNat := by
  rw [compact, ofWord, compactChars]
  rfl

theorem Deploy.argumentsOf?_toJson (d : Deploy) : argumentsOf? d.toJson = some d.arguments := by
  have hwords : ∀ args : List Argument,
      (args.map Argument.toJson).mapM Argument.wordOf? = some (args.map Argument.simple) := by
    intro args
    induction args with
    | nil => rfl
    | cons a rest ih => simp [Argument.wordOf?_toJson, ih]
  simp [argumentsOf?, toJson, Json.textAt?, Json.get?_ofMembers, Json.lookup_cons_member,
    Json.text?, Json.items?, DeployTarget.argumentsOf?_toJson, hwords, Json.compact_ofWord,
    arguments, List.flatMap_map]

/-! ## The record as text -/

theorem Argument.readable_toJson (a : Argument) (levels : Nat) :
    a.toJson.Readable (levels + 1) := by
  refine Json.readable_ofMembers fun p hp => ?_
  simp only [List.mem_cons, List.not_mem_nil, or_false] at hp
  rcases hp with rfl | rfl | rfl <;> trivial

theorem DeployTarget.readable_toJson (t : DeployTarget) (levels : Nat) :
    t.toJson.Readable (levels + 1) := by
  cases t with
  | storedContract contract entryPoint =>
    refine Json.readable_ofMembers fun p hp => ?_
    simp only [List.mem_cons, List.not_mem_nil, or_false] at hp
    rcases hp with rfl | rfl | rfl <;> trivial
  | sessionModule path =>
    refine Json.readable_ofMembers fun p hp => ?_
    simp only [List.mem_cons, List.not_mem_nil, or_false] at hp
    rcases hp with rfl | rfl <;> trivial

theorem Deploy.readable_toJson (d : Deploy) : d.toJson.Readable Json.maxLevels := by
  have hitems : Json.ReadableItems 125 (d.args.map Argument.toJson) := by
    rw [Json.readableItems_iff]
    intro v hv
    obtain ⟨a, -, rfl⟩ := List.mem_map.1 hv
    exact a.readable_toJson 124
  refine @Json.readable_ofMembers 126 _ fun p hp => ?_
  simp only [List.mem_cons, List.not_mem_nil, or_false] at hp
  rcases hp with rfl | rfl | rfl | rfl | rfl | rfl
  · trivial
  · trivial
  · trivial
  · exact Json.readable_ofWord 126 d.payment
  · exact d.target.readable_toJson 125
  · exact ⟨by decide, hitems⟩

theorem Terms.exists_ofConfig (t : Terms) : ∃ c, ofConfig c = t :=
  ⟨{ chainName := t.chainName, node := { address := t.nodeAddress }, contract := t.contract,
     artifacts := t.artifacts, payments := t.payments }, rfl⟩

/-- No argument of a deploy that was built has a colon in its name. -/
theorem Terms.build_named {t : Terms} {signer : String} {order : Order} {d : Deploy}
    (h : t.build signer order = .ok d) : d.Named := by
  obtain ⟨c, rfl⟩ := t.exists_ofConfig
  have hnames : ∀ p ∈ order.wire, ':' ∉ p.1.toList := by
    cases order <;> simp only [Order.wire] <;> decide
  intro a ha
  exact hnames _ (mem_wire h ha)

/-- Both descriptions of a deploy say the same and leave nothing out.

The command line can be read off the record, and the record off its text.
Deploys without a colon in the names of their arguments have one command line
exactly if they have one record, and exactly if they are one deploy.  All
deploys that are built are of this kind. -/
theorem Deploy.descriptions_determine :
    (∀ d : Deploy, Json.parse? d.toJson.compact = some d.toJson
        ∧ argumentsOf? d.toJson = some d.arguments)
      ∧ (∀ d e : Deploy, d.Named → e.Named →
        (d.arguments = e.arguments ↔ d.toJson.compact = e.toJson.compact)
          ∧ (d.toJson.compact = e.toJson.compact ↔ d = e))
      ∧ ∀ (t : Terms) (signer : String) (order : Order) (d : Deploy),
        t.build signer order = .ok d → d.Named := by
  have hread : ∀ d : Deploy, Json.parse? d.toJson.compact = some d.toJson :=
    fun d => Json.parse?_compact d.readable_toJson
  refine ⟨fun d => ⟨hread d, argumentsOf?_toJson d⟩, ?_, fun t signer order d => Terms.build_named⟩
  intro d e hd he
  have hrecord : d.toJson.compact = e.toJson.compact → d.arguments = e.arguments := by
    intro h
    have hvalue : d.toJson = e.toJson := by
      rw [← Option.some.injEq, ← hread d, h, hread e]
    rw [← Option.some.injEq, ← argumentsOf?_toJson d, hvalue, argumentsOf?_toJson e]
  refine ⟨⟨?_, hrecord⟩, ⟨fun h => arguments_inj hd he (hrecord h), ?_⟩⟩
  · intro h
    rw [arguments_inj hd he h]
  · rintro rfl
    rfl

end TokenMarket
