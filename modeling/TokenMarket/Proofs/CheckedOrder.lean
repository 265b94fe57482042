import TokenMarket.Deploy.Order
import TokenMarket.Proofs.HashText
import TokenMarket.Proofs.MintedToken
import TokenMarket.Proofs.ShellCommand
import TokenMarket.Proofs.TypedNumber

/-!
# An order is built exactly if every text of it is good

An order consists of texts that a person typed, and several of them may be bad at
once.  This module says of every order which deploy it makes, and which complaint
it leads to when it makes none.

Both sides are tables with one row for each kind of order.

* `Order.Denotes` lists the arguments of the deploy, with the names and types of
  the wire in their order.  Each value is the number or the hash that a text of
  the order denotes.
* `Order.faults` lists what can be wrong, in the order in which it counts.

`Terms.build_eq_ok_iff` and `Terms.build_eq_error_iff` say that building follows the
tables.  Each goes through the steps of an order, where a step is the reading of one
text, and cites what is known of that reader.  `Terms.build_decided` puts them
together, and `Terms.buy_total_exact` is more explicit about the total of a purchase.
-/

namespace TokenMarket

/-! ## Single texts -/

/-- Why a text is no account. -/
def Terms.AccountFault (argument text : String) (e : Error) : Prop :=
  ∃ why, Hash.Fault .account text why ∧ e = .invalidArgument argument why.message

theorem Terms.readAccount_eq_ok_iff {argument text : String} {account : AccountHash} :
    readAccount argument text = .ok account ↔ Hash.Denotes text account := by
  rw [← Hash.parse_eq_ok_iff, readAccount]
  cases Hash.parse .account text with
  | ok other => simp
  | error why => simp

theorem Terms.readAccount_eq_error_iff {argument text : String} {e : Error} :
    readAccount argument text = .error e ↔ AccountFault argument text e := by
  simp only [AccountFault, ← Hash.parse_eq_error_iff, readAccount]
  cases Hash.parse .account text with
  | ok account => simp
  | error why => simp [eq_comm]

/-- A product is exact where there are the bits of both factors. -/
theorem toNat_ofNat_mul {a b m n k : Nat} (ha : a < Power.two m) (hb : b < Power.two n)
    (hk : m + n ≤ k) : (BitVec.ofNat k (a * b)).toNat = a * b := by
  have hfits : a * b < Power.two k :=
    calc
      a * b < Power.two m * Power.two n := Nat.mul_lt_mul'' ha hb
      _ = Power.two (m + n) := (Nat.pow_add 2 m n).symm
      _ ≤ Power.two k := Nat.pow_le_pow_right (by decide) hk
  rw [BitVec.toNat_ofNat]
  exact Nat.mod_eq_of_lt hfits

/-- No purchase is too large for its total. -/
theorem Terms.toNat_total (amount : UInt64) (price : BitVec 256) :
    (total amount price).toNat = amount.toNat * price.toNat :=
  toNat_ofNat_mul (m := 64) (n := 256) amount.toNat_lt price.isLt (by decide)

/-! ## The tables -/

namespace Order

/-- What running the order may cost. -/
def payment (p : Payments) : Order → UInt64
  | install => p.deployContract
  | mint _ => p.mint
  | publish _ => p.publishRequest
  | approve _ => p.approveRequest
  | buy _ => p.buy
  | cancel _ => p.cancelRequest
  | disapprove _ => p.disapprove

/-- What the order runs: a module, or an entry point of the contract. -/
def target (c : Config) : Order → DeployTarget
  | install => .sessionModule c.artifacts.contractModule
  | mint _ => .storedContract c.contract "mint"
  | publish _ => .storedContract c.contract "publish_request"
  | approve _ => .storedContract c.contract "approve"
  | buy _ => .sessionModule c.artifacts.sessionModule
  | cancel _ => .storedContract c.contract "cancel_request"
  | disapprove _ => .storedContract c.contract "disapprove"

/-- The arguments that an order means for a contract.  It means none if one of its
texts is no good. -/
inductive Denotes (contract : ContractHash) : Order → List Argument → Prop
  | install : Denotes contract .install []
  | mint {order : MintOrder} {price : BitVec 256} {amount : UInt64}
      (hmetadata : ∀ p ∈ order.metadata.fields, Metadata.Clean p.2)
      (hprice : Number.Denotes order.price price.toNat)
      (hamount : Number.Denotes order.amount amount.toNat) :
      Denotes contract (.mint order)
        [⟨"metadata", .string order.metadata.literal⟩, ⟨"price", .u256 price⟩,
          ⟨"amount", .u64 amount⟩, ⟨"recipient", .account order.recipient⟩]
  | publish {order : PublishOrder} {producer : AccountHash} {amount holderId : UInt64}
      {commission : UInt8} (hproducer : Hash.Denotes order.producer producer)
      (hamount : Number.Denotes order.amount amount.toNat)
      (hholder : Number.Denotes order.holderId holderId.toNat)
      (hcommission : Number.Denotes order.commission commission.toNat)
      (hpercent : commission.toNat ≤ 100) :
      Denotes contract (.publish order)
        [⟨"producer-account", .account producer⟩, ⟨"amount", .u64 amount⟩,
          ⟨"holder_id", .u64 holderId⟩, ⟨"comission", .u8 commission⟩]
  | approve {text : String} {requestId : UInt64}
      (hrequest : Number.Denotes text requestId.toNat) :
      Denotes contract (.approve text) [⟨"request_id", .u64 requestId⟩]
  | buy {order : BuyOrder} {amount approvedId : UInt64} {price : BitVec 256}
      {total : BitVec 512} (hamount : Number.Denotes order.amount amount.toNat)
      (happroved : Number.Denotes order.approvedId approvedId.toNat)
      (hprice : Number.Denotes order.price price.toNat)
      (htotal : total.toNat = amount.toNat * price.toNat) :
      Denotes contract (.buy order)
        [⟨"amount", .u512 total⟩, ⟨"approved_id", .u64 approvedId⟩,
          ⟨"contract_hash", .contract contract⟩, ⟨"cnt", .u64 amount⟩]
  | cancel {text : String} {requestId : UInt64}
      (hrequest : Number.Denotes text requestId.toNat) :
      Denotes contract (.cancel text) [⟨"request_id", .u64 requestId⟩]
  | disapprove {order : DisapproveOrder} {amount approvedId : UInt64} {publisher : AccountHash}
      (hamount : Number.Denotes order.amount amount.toNat)
      (happroved : Number.Denotes order.approvedId approvedId.toNat)
      (hpublisher : Hash.Denotes order.publisher publisher) :
      Denotes contract (.disapprove order)
        [⟨"amount", .u64 amount⟩, ⟨"approved_id", .u64 approvedId⟩,
          ⟨"publisher-account", .account publisher⟩]

/-- What can be wrong with an order, in the order in which it counts.  A commission
has two ways to be too large. -/
def faults : Order → List (Error → Prop)
  | install => []
  | mint order =>
    [order.metadata.Fault, Number.Word256Fault "price" order.price,
      Number.Word64Fault "amount" order.amount]
  | publish order =>
    [Terms.AccountFault "producer-account" order.producer,
      Number.Word64Fault "amount" order.amount, Number.Word64Fault "holder_id" order.holderId,
      Number.ByteFault "comission" order.commission, Number.AboveHundred order.commission]
  | approve requestId | cancel requestId => [Number.Word64Fault "request_id" requestId]
  | buy order =>
    [Number.Word64Fault "amount" order.amount,
      Number.Word64Fault "approved_id" order.approvedId,
      Number.Word256Fault "price" order.price]
  | disapprove order =>
    [Number.Word64Fault "amount" order.amount,
      Number.Word64Fault "approved_id" order.approvedId,
      Terms.AccountFault "publisher-account" order.publisher]

/-- The names and the types of the arguments, in the order of the wire. -/
def wire : Order → List (String × String)
  | install => []
  | mint _ => [("metadata", "String"), ("price", "u256"), ("amount", "u64"), ("recipient", "key")]
  | publish _ =>
    [("producer-account", "key"), ("amount", "u64"), ("holder_id", "u64"), ("comission", "u8")]
  | approve _ | cancel _ => [("request_id", "u64")]
  | buy _ => [("amount", "u512"), ("approved_id", "u64"), ("contract_hash", "key"), ("cnt", "u64")]
  | disapprove _ => [("amount", "u64"), ("approved_id", "u64"), ("publisher-account", "key")]

theorem Denotes.wire {contract : ContractHash} {order : Order} {args : List Argument}
    (h : order.Denotes contract args) :
    args.map (fun a => (a.name, a.value.typeName)) = order.wire := by
  cases h <;> rfl

end Order

/-! ## Building -/

namespace Terms

variable {c : Config} {signer : String} {order : Order} {d : Deploy} {e : Error}

/-- A deploy is built of the arguments that the order means. -/
theorem build_eq_ok_iff :
    (ofConfig c).build signer order = .ok d ↔ ∃ args, order.Denotes c.contract args
      ∧ d = ⟨c.chainName, c.node.address, signer, order.payment c.payments, order.target c,
        args⟩ := by
  cases order with
  | install =>
    simp only [build, Except.ok.injEq]
    constructor
    · rintro rfl
      exact ⟨_, .install, rfl⟩
    · rintro ⟨args, hmeans, rfl⟩
      cases hmeans with
      | install => rfl
  | mint order =>
    simp only [build, mint, Error.bind_eq_ok_iff, Metadata.mintable_eq_ok_iff,
      Number.readWord256_eq_ok_iff, Number.readWord64_eq_ok_iff, pure, Except.pure,
      Except.ok.injEq]
    constructor
    · rintro ⟨literal, ⟨hmetadata, rfl⟩, price, hprice, amount, hamount, rfl⟩
      exact ⟨_, .mint hmetadata hprice hamount, rfl⟩
    · rintro ⟨args, hmeans, rfl⟩
      cases hmeans with
      | mint hmetadata hprice hamount => exact ⟨_, ⟨hmetadata, rfl⟩, _, hprice, _, hamount, rfl⟩
  | publish order =>
    simp only [build, publish, Error.bind_eq_ok_iff, readAccount_eq_ok_iff,
      Number.readWord64_eq_ok_iff, Number.readByte_eq_ok_iff, Number.commission_eq_ok_iff, pure,
      Except.pure, Except.ok.injEq]
    constructor
    · rintro ⟨producer, hproducer, amount, hamount, holderId, hholder, percent, hcommission,
        commission, ⟨rfl, hpercent⟩, rfl⟩
      exact ⟨_, .publish hproducer hamount hholder hcommission hpercent, rfl⟩
    · rintro ⟨args, hmeans, rfl⟩
      cases hmeans with
      | publish hproducer hamount hholder hcommission hpercent =>
        exact ⟨_, hproducer, _, hamount, _, hholder, _, hcommission, _, ⟨rfl, hpercent⟩, rfl⟩
  | approve requestId =>
    simp only [build, approve, Error.bind_eq_ok_iff, Number.readWord64_eq_ok_iff, pure,
      Except.pure, Except.ok.injEq]
    constructor
    · rintro ⟨requestId, hrequest, rfl⟩
      exact ⟨_, .approve hrequest, rfl⟩
    · rintro ⟨args, hmeans, rfl⟩
      cases hmeans with
      | approve hrequest => exact ⟨_, hrequest, rfl⟩
  | buy order =>
    simp only [build, buy, Error.bind_eq_ok_iff, Number.readWord64_eq_ok_iff,
      Number.readWord256_eq_ok_iff, pure, Except.pure, Except.ok.injEq]
    constructor
    · rintro ⟨amount, hamount, approvedId, happroved, price, hprice, rfl⟩
      exact ⟨_, .buy hamount happroved hprice (toNat_total amount price), rfl⟩
    · rintro ⟨args, hmeans, rfl⟩
      cases hmeans with
      | @buy _ amount _ price _ hamount happroved hprice htotal =>
        have hexact := BitVec.toNat_inj.1 ((toNat_total amount price).trans htotal.symm)
        exact ⟨_, hamount, _, happroved, _, hprice, by rw [hexact]; rfl⟩
  | cancel requestId =>
    simp only [build, cancel, Error.bind_eq_ok_iff, Number.readWord64_eq_ok_iff, pure,
      Except.pure, Except.ok.injEq]
    constructor
    · rintro ⟨requestId, hrequest, rfl⟩
      exact ⟨_, .cancel hrequest, rfl⟩
    · rintro ⟨args, hmeans, rfl⟩
      cases hmeans with
      | cancel hrequest => exact ⟨_, hrequest, rfl⟩
  | disapprove order =>
    simp only [build, disapprove, Error.bind_eq_ok_iff, Number.readWord64_eq_ok_iff,
      readAccount_eq_ok_iff, pure, Except.pure, Except.ok.injEq]
    constructor
    · rintro ⟨amount, hamount, approvedId, happroved, publisher, hpublisher, rfl⟩
      exact ⟨_, .disapprove hamount happroved hpublisher, rfl⟩
    · rintro ⟨args, hmeans, rfl⟩
      cases hmeans with
      | disapprove hamount happroved hpublisher =>
        exact ⟨_, hamount, _, happroved, _, hpublisher, rfl⟩

/-- The arguments of a deploy are on the wire of its order. -/
theorem mem_wire (h : (ofConfig c).build signer order = .ok d) {a : Argument} (ha : a ∈ d.args) :
    (a.name, a.value.typeName) ∈ order.wire := by
  obtain ⟨args, hmeans, rfl⟩ := build_eq_ok_iff.1 h
  rw [← hmeans.wire]
  exact List.mem_map_of_mem ha

/-- No deploy is built where something is wrong, and the first fault is told. -/
theorem build_eq_error_iff :
    (ofConfig c).build signer order = .error e ↔ FirstOf order.faults e := by
  cases order with
  | install => simp [build, Order.faults, FirstOf]
  | mint order =>
    refine Error.bind_eq_error_iff (fun e => Metadata.mintable_eq_error_iff) (fun literal _ => ?_) e
    refine Error.bind_eq_error_iff (fun e => Number.readWord256_eq_error_iff) (fun price _ => ?_)
    refine Error.bind_eq_error_iff (fun e => Number.readWord64_eq_error_iff) (fun amount _ => ?_)
    exact Error.pure_eq_error_iff _
  | publish order =>
    refine Error.bind_eq_error_iff (fun e => readAccount_eq_error_iff) (fun producer _ => ?_) e
    refine Error.bind_eq_error_iff (fun e => Number.readWord64_eq_error_iff) (fun amount _ => ?_)
    refine Error.bind_eq_error_iff (fun e => Number.readWord64_eq_error_iff) (fun holderId _ => ?_)
    refine Error.bind_eq_error_iff (fun e => Number.readByte_eq_error_iff)
      (fun percent hpercent => ?_)
    have hdenotes := Number.readByte_eq_ok_iff.1 hpercent
    refine Error.bind_eq_error_iff (fun e => Number.commission_eq_error_iff hdenotes)
      (fun commission _ => ?_)
    exact Error.pure_eq_error_iff _
  | approve requestId | cancel requestId =>
    refine Error.bind_eq_error_iff (fun e => Number.readWord64_eq_error_iff)
      (fun requestId _ => ?_) e
    exact Error.pure_eq_error_iff _
  | buy order =>
    refine Error.bind_eq_error_iff (fun e => Number.readWord64_eq_error_iff) (fun amount _ => ?_) e
    refine Error.bind_eq_error_iff (fun e => Number.readWord64_eq_error_iff)
      (fun approvedId _ => ?_)
    refine Error.bind_eq_error_iff (fun e => Number.readWord256_eq_error_iff) (fun price _ => ?_)
    exact Error.pure_eq_error_iff _
  | disapprove order =>
    refine Error.bind_eq_error_iff (fun e => Number.readWord64_eq_error_iff) (fun amount _ => ?_) e
    refine Error.bind_eq_error_iff (fun e => Number.readWord64_eq_error_iff)
      (fun approvedId _ => ?_)
    refine Error.bind_eq_error_iff (fun e => readAccount_eq_error_iff) (fun publisher _ => ?_)
    exact Error.pure_eq_error_iff _

/-- Every order is decided by its texts.  It makes a deploy exactly if it denotes
arguments, and then the deploy has these, with the names and types of the wire, and
from the configuration what the order may cost and what it runs.  Otherwise the
complaint is the first of its faults. -/
theorem build_decided (c : Config) (signer : String) (order : Order) :
    (∀ d, (ofConfig c).build signer order = .ok d ↔ ∃ args, order.Denotes c.contract args
        ∧ d = ⟨c.chainName, c.node.address, signer, order.payment c.payments, order.target c,
          args⟩)
      ∧ (∀ d, (ofConfig c).build signer order = .ok d →
        d.args.map (fun a => (a.name, a.value.typeName)) = order.wire)
      ∧ ∀ e, (ofConfig c).build signer order = .error e ↔ FirstOf order.faults e := by
  refine ⟨fun d => build_eq_ok_iff, fun d hd => ?_, fun e => build_eq_error_iff⟩
  obtain ⟨args, hmeans, rfl⟩ := build_eq_ok_iff.1 hd
  exact hmeans.wire

end Terms

/-! ## The total of a purchase -/

/-- A shell finds every argument of a deploy as a word of the command, behind the
option for arguments. -/
theorem Deploy.words_of_argument {d : Deploy} {a : Argument} (h : a ∈ d.args) :
    ∃ front back, ShellWord.words? d.command.toList
      = some (front ++ "--session-arg".toList :: a.simple.toList :: back) := by
  obtain ⟨before, after, hargs⟩ := List.append_of_mem h
  have hcommand : d.command.toList
      = ShellWord.line Deploy.program.toList (d.arguments.map String.toList) := by
    rw [Deploy.command, String.toList_ofList]
  have hwords := ShellWord.words?_line Deploy.program.toList (d.arguments.map String.toList)
    (by decide) Deploy.program_plain
  rw [hcommand, hwords, arguments, hargs, List.flatMap_append, List.flatMap_cons]
  simp only [List.map_append, List.map_cons, List.cons_append, List.nil_append,
    ← List.append_assoc]
  simp only [← List.cons_append]
  exact ⟨_, _, rfl⟩

namespace Number

variable {text : String}

theorem exists_word64_iff :
    (∃ n < Power.two 64, Denotes text n) ↔ ∃ w : UInt64, Denotes text w.toNat :=
  Numeral.exists_word64_iff

theorem exists_word256_iff :
    (∃ n < Power.two 256, Denotes text n) ↔ ∃ w : BitVec 256, Denotes text w.toNat :=
  Numeral.exists_word256_iff

end Number

namespace Terms

variable {c : Config} {signer : String} {order : BuyOrder} {d : Deploy}

theorem buy_eq_ok_iff :
    (ofConfig c).buy signer order = .ok d ↔
      ∃ (amount approvedId : UInt64) (price : BitVec 256) (total : BitVec 512),
        Number.Denotes order.amount amount.toNat
          ∧ Number.Denotes order.approvedId approvedId.toNat
          ∧ Number.Denotes order.price price.toNat
          ∧ total.toNat = amount.toNat * price.toNat
          ∧ d = ⟨c.chainName, c.node.address, signer, c.payments.buy,
            .sessionModule c.artifacts.sessionModule,
            [⟨"amount", .u512 total⟩, ⟨"approved_id", .u64 approvedId⟩,
              ⟨"contract_hash", .contract c.contract⟩, ⟨"cnt", .u64 amount⟩]⟩ := by
  have hbuild : (ofConfig c).buy signer order = .ok d ↔ _ :=
    @build_eq_ok_iff c signer (.buy order) d
  rw [hbuild]
  constructor
  · rintro ⟨args, hmeans, rfl⟩
    cases hmeans with
    | buy hamount happroved hprice htotal =>
      exact ⟨_, _, _, _, hamount, happroved, hprice, htotal, rfl⟩
  · rintro ⟨amount, approvedId, price, total, hamount, happroved, hprice, htotal, rfl⟩
    exact ⟨_, .buy hamount happroved hprice htotal, rfl⟩

/-- The command of a purchase has the total among its words. -/
theorem words_of_buy (h : (ofConfig c).buy signer order = .ok d) {n p : Nat}
    (hn : Number.Denotes order.amount n) (hp : Number.Denotes order.price p) :
    ∃ front back, ShellWord.words? d.command.toList
      = some (front ++ "--session-arg".toList
        :: ("amount:u512='".toList ++ Numeral.digits (n * p) ++ ['\'']) :: back) := by
  obtain ⟨amount, approvedId, price, total, hamount, -, hprice, htotal, rfl⟩ := buy_eq_ok_iff.1 h
  have hproduct : total.toNat = n * p := by
    rw [htotal, hn.unique hamount, hp.unique hprice]
  have hword : (Argument.mk "amount" (.u512 total)).simple.toList
      = "amount:u512='".toList ++ Numeral.digits (n * p) ++ ['\''] := by
    simp [Argument.simple, ArgumentValue.typeName, ArgumentValue.text, Numeral.decimal, hproduct]
  rw [← hword]
  exact Deploy.words_of_argument List.mem_cons_self

/-- A purchase is decided by its three texts, and its total is exact.  The deploy pays
the product of the two numbers, however large they are, and the command says the
product in its canonical numeral. -/
theorem buy_total_exact (c : Config) (signer : String) (order : BuyOrder) :
    ((∃ d, (ofConfig c).buy signer order = .ok d) ↔
        (∃ n < Power.two 64, Number.Denotes order.amount n)
          ∧ (∃ n < Power.two 64, Number.Denotes order.approvedId n)
          ∧ ∃ n < Power.two 256, Number.Denotes order.price n)
      ∧ (∀ d, (ofConfig c).buy signer order = .ok d ↔
        ∃ (amount approvedId : UInt64) (price : BitVec 256) (total : BitVec 512),
          Number.Denotes order.amount amount.toNat
            ∧ Number.Denotes order.approvedId approvedId.toNat
            ∧ Number.Denotes order.price price.toNat
            ∧ total.toNat = amount.toNat * price.toNat
            ∧ d = ⟨c.chainName, c.node.address, signer, c.payments.buy,
              .sessionModule c.artifacts.sessionModule,
              [⟨"amount", .u512 total⟩, ⟨"approved_id", .u64 approvedId⟩,
                ⟨"contract_hash", .contract c.contract⟩, ⟨"cnt", .u64 amount⟩]⟩)
      ∧ (∀ d n p, (ofConfig c).buy signer order = .ok d → Number.Denotes order.amount n →
        Number.Denotes order.price p → ∃ front numeral back,
          ShellWord.words? d.command.toList = some (front ++ "--session-arg".toList
              :: ("amount:u512='".toList ++ numeral ++ ['\'']) :: back)
            ∧ Numeral.Canonical numeral (n * p))
      ∧ ∀ e, (ofConfig c).buy signer order = .error e ↔
        FirstOf [Number.Word64Fault "amount" order.amount,
          Number.Word64Fault "approved_id" order.approvedId,
          Number.Word256Fault "price" order.price] e := by
  refine ⟨?_, fun d => buy_eq_ok_iff, ?_, fun e => @build_eq_error_iff c signer (.buy order) e⟩
  · simp only [Number.exists_word64_iff, Number.exists_word256_iff, buy_eq_ok_iff]
    constructor
    · rintro ⟨d, amount, approvedId, price, total, hamount, happroved, hprice, -⟩
      exact ⟨⟨amount, hamount⟩, ⟨approvedId, happroved⟩, price, hprice⟩
    · rintro ⟨⟨amount, hamount⟩, ⟨approvedId, happroved⟩, price, hprice⟩
      exact ⟨_, amount, approvedId, price, _, hamount, happroved, hprice,
        toNat_total amount price, rfl⟩
  · intro d n p hd hn hp
    obtain ⟨front, back, hwords⟩ := words_of_buy hd hn hp
    exact ⟨front, _, back, hwords, Numeral.canonical_digits (n * p)⟩

end Terms

end TokenMarket
