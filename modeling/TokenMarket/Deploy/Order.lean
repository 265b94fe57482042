import TokenMarket.Config.Basic
import TokenMarket.Deploy.Basic
import TokenMarket.Deploy.Number
import TokenMarket.Record.Metadata

/-!
# From orders to deploys

An order is what a person wants from the marketplace, in the texts that
were typed.  `Terms.build` makes the deploy of it for a signer, or tells
the first text that cannot be used.  Nothing is built before all texts of
an order have been read, so no deploy is ever half right.

| Order      | Runs               | Arguments                                     |
|------------|--------------------|-----------------------------------------------|
| `install`  | contract module    | none                                          |
| `mint`     | `mint`             | metadata, price, amount, recipient            |
| `publish`  | `publish_request`  | producer-account, amount, holder_id, comission|
| `approve`  | `approve`          | request_id                                    |
| `buy`      | session module     | amount, approved_id, contract_hash, cnt       |
| `cancel`   | `cancel_request`   | request_id                                    |
| `disapprove` | `disapprove`     | amount, approved_id, publisher-account        |

Minting has a rule of its own.  The contract cuts the metadata apart at the
double quotes and joins the pieces with commas, so no text of the metadata
may hold a character that has a meaning in either form.
-/

namespace TokenMarket

/-- What to mint, for whom, and at which price. -/
structure MintOrder where
  metadata : Metadata
  price : String
  amount : String
  recipient : AccountHash
deriving DecidableEq

/-- Which holding to ask for, how much of it, and for which commission. -/
structure PublishOrder where
  producer : String
  amount : String
  holderId : String
  commission : String
deriving DecidableEq, Repr

/-- How much of which approved holding to buy, at which price apiece. -/
structure BuyOrder where
  amount : String
  approvedId : String
  price : String
deriving DecidableEq, Repr

/-- How much of which approved holding to take back, and from whom. -/
structure DisapproveOrder where
  amount : String
  approvedId : String
  publisher : String
deriving DecidableEq, Repr

/-- What a person wants from the marketplace. -/
inductive Order where
  /-- Put the contract on the chain. -/
  | install
  | mint (order : MintOrder)
  | publish (order : PublishOrder)
  | approve (requestId : String)
  | buy (order : BuyOrder)
  | cancel (requestId : String)
  | disapprove (order : DisapproveOrder)
deriving DecidableEq

namespace Metadata

/-- Characters that metadata must not hold: the two quotes, the comma, the
backslash, and the control characters. -/
def isReserved (c : Char) : Bool :=
  c == '"' || c == '\'' || c == ',' || c == '\\'
    || c.toNat < 0x20 || (0x7F ≤ c.toNat && c.toNat < 0xA0)

/-- The texts under the names that messages use. -/
def fields (m : Metadata) : List (String × String) :=
  [("name", m.name), ("token_uri", m.tokenUri), ("checksum", m.checksum)]

/-- The first text with a reserved character, and the first such character
in it. -/
def firstReserved? : List (String × String) → Option (String × Char)
  | [] => none
  | (field, text) :: rest =>
    match text.toList.find? isReserved with
    | some c => some (field, c)
    | none => firstReserved? rest

/-- The literal that is minted. -/
def mintable (m : Metadata) : Except Error String :=
  match firstReserved? m.fields with
  | some (field, c) =>
    .error (.invalidArgument "metadata"
      (field ++ " contains reserved character " ++ Text.quotedSingle c))
  | none => .ok m.literal

end Metadata

/-- What every deploy takes from the configuration. -/
structure Terms where
  chainName : String
  nodeAddress : String
  contract : ContractHash
  artifacts : Artifacts
  payments : Payments
deriving DecidableEq

namespace Terms

/-- The terms of a configuration. -/
def ofConfig (c : Config) : Terms :=
  ⟨c.chainName, c.node.address, c.contract, c.artifacts, c.payments⟩

/-- Reads an account that was typed. -/
def readAccount (argument text : String) : Except Error AccountHash :=
  match Hash.parse .account text with
  | .ok account => .ok account
  | .error e => .error (.invalidArgument argument e.message)

/-- A deploy that calls the contract. -/
def call (t : Terms) (signer : String) (payment : UInt64) (entryPoint : String)
    (args : List Argument) : Deploy :=
  ⟨t.chainName, t.nodeAddress, signer, payment, .storedContract t.contract entryPoint, args⟩

/-- A deploy that runs a module. -/
def run (t : Terms) (signer : String) (payment : UInt64) (path : String)
    (args : List Argument) : Deploy :=
  ⟨t.chainName, t.nodeAddress, signer, payment, .sessionModule path, args⟩

/-- Puts the contract on the chain. -/
def install (t : Terms) (signer : String) : Deploy :=
  t.run signer t.payments.deployContract t.artifacts.contractModule []

/-- Mints a token. -/
def mint (t : Terms) (signer : String) (order : MintOrder) : Except Error Deploy := do
  let metadata ← order.metadata.mintable
  let price ← Number.readWord256 "price" order.price
  let amount ← Number.readWord64 "amount" order.amount
  return t.call signer t.payments.mint "mint"
    [⟨"metadata", .string metadata⟩, ⟨"price", .u256 price⟩, ⟨"amount", .u64 amount⟩,
      ⟨"recipient", .account order.recipient⟩]

/-- Publishes a request. -/
def publish (t : Terms) (signer : String) (order : PublishOrder) : Except Error Deploy := do
  let producer ← readAccount "producer-account" order.producer
  let amount ← Number.readWord64 "amount" order.amount
  let holderId ← Number.readWord64 "holder_id" order.holderId
  let percent ← Number.readByte "comission" order.commission
  let commission ← Number.commission percent
  return t.call signer t.payments.publishRequest "publish_request"
    [⟨"producer-account", .account producer⟩, ⟨"amount", .u64 amount⟩,
      ⟨"holder_id", .u64 holderId⟩, ⟨"comission", .u8 commission⟩]

/-- Approves a request. -/
def approve (t : Terms) (signer requestId : String) : Except Error Deploy := do
  let requestId ← Number.readWord64 "request_id" requestId
  return t.call signer t.payments.approveRequest "approve" [⟨"request_id", .u64 requestId⟩]

/-- What `amount` pieces cost in total.  Words of 64 and of 256 bits make a
product of 320 bits at most, so 512 bits hold it exactly. -/
def total (amount : UInt64) (price : BitVec 256) : BitVec 512 :=
  BitVec.ofNat 512 (amount.toNat * price.toNat)

/-- Buys from an approved holding. -/
def buy (t : Terms) (signer : String) (order : BuyOrder) : Except Error Deploy := do
  let amount ← Number.readWord64 "amount" order.amount
  let approvedId ← Number.readWord64 "approved_id" order.approvedId
  let price ← Number.readWord256 "price" order.price
  return t.run signer t.payments.buy t.artifacts.sessionModule
    [⟨"amount", .u512 (total amount price)⟩, ⟨"approved_id", .u64 approvedId⟩,
      ⟨"contract_hash", .contract t.contract⟩, ⟨"cnt", .u64 amount⟩]

/-- Takes a request back. -/
def cancel (t : Terms) (signer requestId : String) : Except Error Deploy := do
  let requestId ← Number.readWord64 "request_id" requestId
  return t.call signer t.payments.cancelRequest "cancel_request" [⟨"request_id", .u64 requestId⟩]

/-- Takes an approval back. -/
def disapprove (t : Terms) (signer : String) (order : DisapproveOrder) :
    Except Error Deploy := do
  let amount ← Number.readWord64 "amount" order.amount
  let approvedId ← Number.readWord64 "approved_id" order.approvedId
  let publisher ← readAccount "publisher-account" order.publisher
  return t.call signer t.payments.disapprove "disapprove"
    [⟨"amount", .u64 amount⟩, ⟨"approved_id", .u64 approvedId⟩,
      ⟨"publisher-account", .account publisher⟩]

/-- The deploy of an order. -/
def build (t : Terms) (signer : String) : Order → Except Error Deploy
  | .install => .ok (t.install signer)
  | .mint order => t.mint signer order
  | .publish order => t.publish signer order
  | .approve requestId => t.approve signer requestId
  | .buy order => t.buy signer order
  | .cancel requestId => t.cancel signer requestId
  | .disapprove order => t.disapprove signer order

end Terms

end TokenMarket
