import TokenMarket.Proofs.Answers
import TokenMarket.Proofs.Inquiry

/-!
# What a remote node is sent

A read over a remote node becomes messages: for every question of its
inquiry one that asks for a root, and one that asks the question under this
root.  This module says which messages a row of reads sends, whatever
becomes of them.  The transport is any function of its own state, so an
outcome may depend on everything that was sent before.

There are three groups.

* The log.  `recorded` is a transport that writes its exchanges down, and
  `Sent` says which exchanges an inquiry takes.  It is about the members of a
  message, not about the query that it was made from.
* One step.  `Logs` is a statement on a computation and the exchanges that
  it adds to the log; `logs_bind` puts two of them together.
* The run.  `pursue_logs` is the induction over an inquiry, and
  `readAll_sent` is the log of reads in a row.
-/

namespace TokenMarket

/-- The value at the end of a path of member names. -/
def Json.at? (v : Json) : (path : List String) → Option Json
  | [] => some v
  | name :: path => (v.get? name).bind fun inner => inner.at? path

namespace Rpc

/-! ## The log -/

/-- A message, where it was sent, and what became of it. -/
structure Exchange where
  url : String
  message : Message
  outcome : Outcome

/-- A transport that writes down what it carries. -/
def recorded {σ : Type} (transport : Transport (StateM σ)) :
    Transport (StateM (σ × List Exchange)) := fun url message (s, log) =>
  let (outcome, t) := transport url message s
  (outcome, t, log ++ [⟨url, message, outcome⟩])

namespace Exchange

/-- The message asks for a root. -/
def AsksRoot (x : Exchange) : Prop :=
  x.message.toJson.at? ["method"] = some (.string "chain_get_state_root_hash")
    ∧ x.message.toJson.at? ["params"] = none

/-- The message asks a question of the contract, or of an account, under a
root. -/
def Asks (x : Exchange) (contract : ContractHash) (root : String) : Question → Prop
  | .item dictionary key =>
    let identifier := ["params", "dictionary_identifier", "ContractNamedKey"]
    x.message.toJson.at? ["method"] = some (.string "state_get_dictionary_item")
      ∧ x.message.toJson.at? ["params", "state_root_hash"] = some (.string root)
      ∧ x.message.toJson.at? (identifier ++ ["key"]) = some (.string ("hash-" ++ contract.hex))
      ∧ x.message.toJson.at? (identifier ++ ["dictionary_name"]) = some (.string dictionary)
      ∧ x.message.toJson.at? (identifier ++ ["dictionary_item_key"]) = some (.string key)
  | .namedKey account path =>
    x.message.toJson.at? ["method"] = some (.string "query_global_state")
      ∧ x.message.toJson.at? ["params", "state_identifier", "StateRootHash"]
        = some (.string root)
      ∧ x.message.toJson.at? ["params", "key"]
        = some (.string ("account-hash-" ++ account.hex))
      ∧ x.message.toJson.at? ["params", "path"] = some (.array (path.map .string))

end Exchange

/-- Where the reply to a question stands in a stored value. -/
def content : (q : Question) → Json → Option q.Reply
  | .item _ _ => itemContent
  | .namedKey _ _ => some

/-- The exchanges that an inquiry takes.  A question is asked in the message
right after the one that gave its root, and without a root or a reply
nothing more is sent. -/
inductive Sent (contract : ContractHash) {α : Type} : Inquiry α → List Exchange → Prop
  | done {result : Except Error α} : Sent contract (.done result) []
  | noRoot {q : Question} {next : q.Reply → Inquiry α} {x : Exchange} (hx : x.AsksRoot)
      (hnone : ∀ root, ¬ x.outcome.GivesRoot root) : Sent contract (.ask q next) [x]
  | noReply {q : Question} {next : q.Reply → Inquiry α} {x y : Exchange} {root : String}
      (hx : x.AsksRoot) (hroot : x.outcome.GivesRoot root) (hy : y.Asks contract root q)
      (hnone : ∀ reply, ¬ y.outcome.Holds (content q) reply) : Sent contract (.ask q next) [x, y]
  | reply {q : Question} {next : q.Reply → Inquiry α} {x y : Exchange} {root : String}
      {reply : q.Reply} {rest : List Exchange} (hx : x.AsksRoot)
      (hroot : x.outcome.GivesRoot root) (hy : y.Asks contract root q)
      (hreply : y.outcome.Holds (content q) reply) (hrest : Sent contract (next reply) rest) :
      Sent contract (.ask q next) (x :: y :: rest)

/-- The exchanges of reads in a row. -/
inductive SentAll (contract : ContractHash) : List Read → List Exchange → Prop
  | nil : SentAll contract [] []
  | cons {q : Read} {reads : List Read} {first rest : List Exchange}
      (hfirst : Sent contract (Inquiry.ofRead q) first) (hrest : SentAll contract reads rest) :
      SentAll contract (q :: reads) (first ++ rest)

/-- The exchanges have one address, and their messages are numbered on. -/
def Numbered (url : String) : (id : Nat) → List Exchange → Prop
  | _, [] => True
  | id, x :: rest => x.url = url ∧ x.message.id = id ∧ Numbered url (id + 1) rest

/-- The number of a message is written in it, whatever the query is. -/
theorem Message.at?_id (m : Message) : m.toJson.at? ["id"] = some (.int m.id) := by
  cases m with
  | mk id query => cases query <;> rfl

theorem numbered_append {url : String} {id : Nat} {first second : List Exchange}
    (hfirst : Numbered url id first) (hsecond : Numbered url (id + first.length) second) :
    Numbered url id (first ++ second) := by
  induction first generalizing id with
  | nil => exact hsecond
  | cons x rest ih =>
    refine ⟨hfirst.1, hfirst.2.1, ih hfirst.2.2 ?_⟩
    rw [List.length_cons] at hsecond
    rwa [Nat.add_right_comm]

theorem numbered_getElem? {url : String} {id k : Nat} {log : List Exchange} {x : Exchange}
    (h : Numbered url id log) (hx : log[k]? = some x) :
    x.url = url ∧ x.message.id = id + k := by
  induction log generalizing id k with
  | nil => simp at hx
  | cons y rest ih =>
    cases k with
    | zero =>
      obtain rfl : y = x := by simpa using hx
      exact ⟨h.1, h.2.1⟩
    | succ k =>
      obtain ⟨hurl, hid⟩ := ih h.2.2 (by simpa using hx)
      exact ⟨hurl, by omega⟩

/-! ## One step -/

section

variable {σ α β : Type} {url : String}

/-- Wherever the computation starts, the exchanges that it adds to the log
are numbered on, and have the property together with the result. -/
def Logs (url : String) (x : StateT Nat (StateM (σ × List Exchange)) α)
    (P : List Exchange → α → Prop) : Prop :=
  ∀ id s log, ∃ added, ((x.run id).run (s, log)).1.2 = id + added.length
    ∧ ((x.run id).run (s, log)).2.2 = log ++ added ∧ Numbered url id added
    ∧ P added ((x.run id).run (s, log)).1.1

theorem logs_pure {a : α} {P : List Exchange → α → Prop} (h : P [] a) :
    Logs url (pure a : StateT Nat (StateM (σ × List Exchange)) α) P := fun _ _ log =>
  ⟨[], rfl, (List.append_nil log).symm, trivial, h⟩

theorem Logs.mono {x : StateT Nat (StateM (σ × List Exchange)) α}
    {P Q : List Exchange → α → Prop} (hx : Logs url x P) (h : ∀ added a, P added a → Q added a) :
    Logs url x Q := by
  intro id s log
  obtain ⟨added, hid, hlog, hnumbered, hP⟩ := hx id s log
  exact ⟨added, hid, hlog, hnumbered, h _ _ hP⟩

theorem logs_bind {x : StateT Nat (StateM (σ × List Exchange)) α}
    {f : α → StateT Nat (StateM (σ × List Exchange)) β} {P : List Exchange → α → Prop}
    {Q : List Exchange → β → Prop} (hx : Logs url x P)
    (hf : ∀ first a, P first a → Logs url (f a) fun second => Q (first ++ second)) :
    Logs url (x >>= f) Q := by
  intro id s log
  obtain ⟨first, hid, hlog, hfirst, hP⟩ := hx id s log
  have hrun : ((x >>= f).run id).run (s, log)
      = ((f ((x.run id).run (s, log)).1.1).run ((x.run id).run (s, log)).1.2).run
          ((x.run id).run (s, log)).2 := rfl
  rw [hrun]
  generalize (x.run id).run (s, log) = out at hid hlog hP
  obtain ⟨⟨a, next⟩, t, log'⟩ := out
  obtain rfl : next = id + first.length := hid
  obtain rfl : log' = log ++ first := hlog
  obtain ⟨second, hid', hlog', hsecond, hQ⟩ := hf first a hP (id + first.length) t (log ++ first)
  refine ⟨first ++ second, ?_, ?_, numbered_append hfirst hsecond, hQ⟩
  · rw [hid', List.length_append, Nat.add_assoc]
  · rw [hlog', List.append_assoc]

/-- The rule for a step that can fail. -/
theorem logs_step {x : ExceptT Error (StateT Nat (StateM (σ × List Exchange))) α}
    {f : α → ExceptT Error (StateT Nat (StateM (σ × List Exchange))) β}
    {P : List Exchange → Except Error α → Prop} {Q : List Exchange → Except Error β → Prop}
    (hx : Logs url x.run P)
    (hok : ∀ first a, P first (.ok a) → Logs url (f a).run fun second => Q (first ++ second))
    (herror : ∀ first e, P first (.error e) → Q first (.error e)) : Logs url (x >>= f).run Q := by
  rw [ExceptT.run_bind]
  refine logs_bind hx ?_
  intro first a ha
  cases a with
  | ok a => exact hok first a ha
  | error e =>
    refine logs_pure ?_
    rw [List.append_nil]
    exact herror first e ha

/-- A question is one exchange. -/
theorem logs_send (transport : Transport (StateM σ)) (query : Query) :
    Logs url (send (recorded transport) url query)
      fun added o => ∃ id, added = [⟨url, ⟨id, query⟩, o⟩] := by
  intro id s log
  exact ⟨[⟨url, ⟨id, query⟩, (transport url ⟨id, query⟩ s).1⟩], rfl, rfl, ⟨rfl, rfl, trivial⟩,
    id, rfl⟩

variable {config : NodeConfig} (transport : Transport (StateM σ)) (contract : ContractHash)

theorem logs_currentRoot :
    Logs config.rpcUrl (node config (recorded transport)).currentRoot.run
      fun added a => ∃ x : Exchange, added = [x] ∧ x.AsksRoot
        ∧ a = rootOf config.rpcUrl x.outcome := by
  refine logs_bind (logs_send transport .stateRoot) ?_
  rintro _ o ⟨id, rfl⟩
  exact logs_pure ⟨_, rfl, ⟨rfl, rfl⟩, rfl⟩

/-- An entry that is asked for under a root. -/
theorem logs_lookup (root dictionary key : String) :
    Logs config.rpcUrl ((node config (recorded transport)).lookup root contract dictionary key).run
      fun added a => ∃ y : Exchange, added = [y] ∧ y.Asks contract root (.item dictionary key)
        ∧ ∀ v, a = .ok v ↔ y.outcome.Holds itemContent v := by
  refine logs_bind (logs_send transport (.dictionaryItem root contract dictionary key)) ?_
  rintro _ o ⟨id, rfl⟩
  exact logs_pure ⟨_, rfl, ⟨rfl, rfl, rfl, rfl, rfl⟩,
    (itemOf_toldApart root contract dictionary key config.rpcUrl o).value⟩

/-- A named key that is asked for under a root. -/
theorem logs_namedKey (root : String) (account : AccountHash) (path : List String) :
    Logs config.rpcUrl ((node config (recorded transport)).namedKey root account path).run
      fun added a => ∃ y : Exchange, added = [y] ∧ y.Asks contract root (.namedKey account path)
        ∧ ∀ v, a = .ok v ↔ y.outcome.Holds some v := by
  refine logs_bind (logs_send transport (.namedKey root account path)) ?_
  rintro _ o ⟨id, rfl⟩
  exact logs_pure ⟨_, rfl, ⟨rfl, rfl, rfl, rfl⟩,
    (namedKeyOf_toldApart root account path config.rpcUrl o).value⟩

/-- The remote node as a repository of a contract. -/
abbrev repository (config : NodeConfig) : Repository (StateT Nat (StateM (σ × List Exchange))) :=
  ⟨node config (recorded transport), contract⟩

/-- What a question adds to the log. -/
inductive Answered (q : Question) : List Exchange → Except Error q.Reply → Prop
  | noRoot {x : Exchange} {e : Error} (hx : x.AsksRoot)
      (hnone : ∀ root, ¬ x.outcome.GivesRoot root) : Answered q [x] (.error e)
  | answer {x y : Exchange} {root : String} {a : Except Error q.Reply} (hx : x.AsksRoot)
      (hroot : x.outcome.GivesRoot root) (hy : y.Asks contract root q)
      (ha : ∀ v, a = .ok v ↔ y.outcome.Holds (content q) v) : Answered q [x, y] a

theorem logs_answer (q : Question) :
    Logs config.rpcUrl ((repository transport contract config).answer q).run
      (Answered contract q) := by
  have hnext : ∀ ask : String → ExceptT Error (StateT Nat (StateM (σ × List Exchange))) q.Reply,
      (∀ root, Logs config.rpcUrl (ask root).run fun added a => ∃ y : Exchange, added = [y]
        ∧ y.Asks contract root q ∧ ∀ v, a = .ok v ↔ y.outcome.Holds (content q) v) →
      Logs config.rpcUrl ((node config (recorded transport)).currentRoot >>= ask).run
        (Answered contract q) := by
    intro ask hask
    refine logs_step (logs_currentRoot transport) ?_ ?_
    · rintro _ root ⟨x, rfl, hx, hroot⟩
      refine (hask root).mono ?_
      rintro _ a ⟨y, rfl, hy, ha⟩
      exact .answer hx (rootOf_eq_ok_iff.1 hroot.symm) hy ha
    · rintro _ e ⟨x, rfl, hx, hroot⟩
      refine .noRoot hx ?_
      intro root hgives
      have hok : rootOf config.rpcUrl x.outcome = .ok root := rootOf_eq_ok_iff.2 hgives
      rw [← hroot] at hok
      cases hok
  cases q with
  | item dictionary key => exact hnext _ fun root => logs_lookup transport contract root dictionary key
  | namedKey account path => exact hnext _ fun root => logs_namedKey transport contract root account path

/-- The exchanges of an inquiry, by induction over it. -/
theorem pursue_logs (x : Inquiry α) :
    Logs config.rpcUrl (x.pursue (repository transport contract config)).run
      fun added _ => Sent contract x added := by
  induction x with
  | done result => exact logs_pure .done
  | ask q next ih =>
    refine logs_step (logs_answer transport contract q) ?_ ?_
    · intro first reply hfirst
      refine (ih reply).mono ?_
      intro rest _ hrest
      cases hfirst with
      | answer hx hroot hy ha => exact .reply hx hroot hy ((ha reply).1 rfl) hrest
    · intro first e hfirst
      cases hfirst with
      | noRoot hx hnone => exact .noRoot hx hnone
      | answer hx hroot hy ha =>
        refine .noReply hx hroot hy ?_
        intro reply hreply
        cases (ha reply).2 hreply

/-! ## The run -/

theorem readAll_logs (reads : List Read) :
    Logs config.rpcUrl ((repository transport contract config).readAll reads)
      fun added _ => SentAll contract reads added := by
  induction reads with
  | nil => exact logs_pure .nil
  | cons q rest ih =>
    have hread : Logs config.rpcUrl ((repository transport contract config).read q).run
        fun added _ => Sent contract (Inquiry.ofRead q) added := by
      rw [Inquiry.read_eq_pursue]
      exact pursue_logs transport contract (Inquiry.ofRead q)
    refine logs_bind hread ?_
    intro first answer hfirst
    refine logs_bind (ih.mono fun _ _ h => SentAll.cons hfirst h) ?_
    intro second answers hsecond
    refine logs_pure ?_
    rw [List.append_nil]
    exact hsecond

end

/-- Every message asks for a root, or stands right behind the exchange that
gave the root which it carries. -/
def Preceded (contract : ContractHash) (log : List Exchange) : Prop :=
  ∀ (k : Nat) (y : Exchange), log[k]? = some y → y.AsksRoot
    ∨ ∃ j x root q, k = j + 1 ∧ log[j]? = some x ∧ x.AsksRoot ∧ x.outcome.GivesRoot root
      ∧ y.Asks contract root q

variable {contract : ContractHash}

theorem preceded_append {first second : List Exchange} (hfirst : Preceded contract first)
    (hsecond : Preceded contract second) : Preceded contract (first ++ second) := by
  intro k y hy
  by_cases hk : k < first.length
  · rw [List.getElem?_append_left hk] at hy
    refine (hfirst k y hy).imp_right ?_
    rintro ⟨j, x, root, q, rfl, hx, h⟩
    exact ⟨j, x, root, q, rfl, by rwa [List.getElem?_append_left (by omega)], h⟩
  · rw [List.getElem?_append_right (by omega)] at hy
    refine (hsecond _ y hy).imp_right ?_
    rintro ⟨j, x, root, q, hj, hx, h⟩
    have hplace : first.length + j - first.length = j := by omega
    exact ⟨first.length + j, x, root, q, by omega,
      by rwa [List.getElem?_append_right (by omega), hplace], h⟩

/-- A root and what is asked under it. -/
theorem preceded_pair {x y : Exchange} {root : String} {q : Question} (hx : x.AsksRoot)
    (hroot : x.outcome.GivesRoot root) (hy : y.Asks contract root q) :
    Preceded contract [x, y] := by
  intro k z hz
  match k with
  | 0 =>
    obtain rfl : x = z := by simpa using hz
    exact Or.inl hx
  | 1 =>
    obtain rfl : y = z := by simpa using hz
    exact Or.inr ⟨0, x, root, q, rfl, rfl, hx, hroot, hy⟩
  | k + 2 => simp at hz

theorem Sent.preceded {α : Type} {x : Inquiry α} {log : List Exchange}
    (h : Sent contract x log) : Preceded contract log := by
  induction h with
  | done => intro k y hy; simp at hy
  | @noRoot _ _ x hx =>
    intro k y hy
    left
    rw [List.mem_singleton.1 (List.mem_of_getElem? hy)]
    exact hx
  | noReply hx hroot hy => exact preceded_pair hx hroot hy
  | reply hx hroot hy _ _ ih => exact preceded_append (preceded_pair hx hroot hy) ih

theorem SentAll.preceded {reads : List Read} {log : List Exchange}
    (h : SentAll contract reads log) : Preceded contract log := by
  induction h with
  | nil => intro k y hy; simp at hy
  | cons hfirst _ ih => exact preceded_append hfirst.preceded ih

/-- The address of a configuration is its host and slashes. -/
theorem host_cases (config : NodeConfig) :
    ∃ slashes, config.address.toList = config.host ++ List.replicate slashes '/'
      ∧ config.host.getLast? ≠ some '/' := by
  have hsplit := List.takeWhile_append_dropWhile (p := (· == '/')) (l := config.address.toList.reverse)
  have hslashes : config.address.toList.reverse.takeWhile (· == '/')
      = List.replicate (config.address.toList.reverse.takeWhile (· == '/')).length '/' := by
    refine List.eq_replicate_of_mem ?_
    intro c hc
    exact beq_iff_eq.1 (List.all_eq_true.1 List.all_takeWhile c hc)
  refine ⟨(config.address.toList.reverse.takeWhile (· == '/')).length, ?_, ?_⟩
  · rw [NodeConfig.host, ← List.reverse_replicate, ← hslashes, ← List.reverse_append, hsplit,
      List.reverse_reverse]
  · rw [NodeConfig.host, List.getLast?_reverse]
    intro hhead
    have := List.head?_dropWhile_not (· == '/') config.address.toList.reverse
    rw [hhead] at this
    simp at this

/-- What reads in a row send, from the first message of the node on.  The
messages are numbered from 1 and go to one address.  Each read takes the
exchanges of its inquiry; a question carries the root that the exchange right
before it gave, and without a root the read sends nothing more. -/
theorem readAll_sent {σ : Type} (config : NodeConfig) (transport : Transport (StateM σ))
    (contract : ContractHash) (reads : List Read) (s : σ) :
    let log := ((((repository transport contract config).readAll reads).run firstId).run
      (s, [])).2.2
    SentAll contract reads log ∧ Preceded contract log
      ∧ (∀ (k : Nat) (x : Exchange), log[k]? = some x →
          x.message.toJson.at? ["id"] = some (.int ((k : Int) + 1))
            ∧ x.url = String.ofList config.host ++ "/rpc")
      ∧ ∃ slashes, config.address.toList = config.host ++ List.replicate slashes '/'
        ∧ config.host.getLast? ≠ some '/' := by
  intro log
  obtain ⟨added, _, hlog, hnumbered, hsent⟩ :=
    readAll_logs transport contract reads firstId s []
  obtain rfl : log = added := hlog
  refine ⟨hsent, hsent.preceded, ?_, host_cases config⟩
  intro k x hx
  obtain ⟨hurl, hid⟩ := numbered_getElem? hnumbered hx
  have hnumber : (x.message.id : Int) = (k : Int) + 1 := by
    rw [hid, firstId]
    omega
  rw [Message.at?_id, hnumber, hurl, NodeConfig.rpcUrl, String.ofList_append, String.ofList_toList]
  exact ⟨rfl, rfl⟩

end Rpc

end TokenMarket
