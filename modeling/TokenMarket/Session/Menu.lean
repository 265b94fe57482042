import TokenMarket.Deploy.Order
import TokenMarket.Session.Dialogue
import TokenMarket.Session.View

/-!
# The commands of the menu

Each entry of the menu is a command, and a command is a dialogue that may
fail.  A command that changes something asks for the texts of an order,
builds the deploy of it for the identity that is logged in, and shows the
deploy's command.  A command that looks something up reads it and shows
its view.

A list is read in full before anything of it is shown.  So a command shows
all of a list, or the reason why it could not be read.
-/

namespace TokenMarket

/-- The entries of the menu. -/
inductive MenuEntry where
  | install
  | mint
  | publish
  | viewRequest
  | incoming
  | outgoing
  | holdings
  | approve
  | buy
  | viewToken
  | viewHolder
  | cancel
  | viewApproved
  | disapprove
  | namedKey
  | exit
deriving DecidableEq, Repr

/-- The entry that a choice names. -/
def MenuEntry.ofChoice? : String → Option MenuEntry
  | "1" => some install
  | "2" => some mint
  | "3" => some publish
  | "4" => some viewRequest
  | "5" => some incoming
  | "6" => some outgoing
  | "7" => some holdings
  | "8" => some approve
  | "9" => some buy
  | "10" => some viewToken
  | "11" => some viewHolder
  | "12" => some cancel
  | "13" => some viewApproved
  | "14" => some disapprove
  | "15" => some namedKey
  | "0" => some exit
  | _ => none

/-- A dialogue that may fail. -/
abbrev Command (α : Type) := ExceptT Problem Dialogue α

namespace Command

/-- Shows an event. -/
def display (e : Event) : Command Unit :=
  ExceptT.lift (Dialogue.tell e)

/-- Asks for a text. -/
def ask (prompt : String) : Command String :=
  ExceptT.lift (Dialogue.askText prompt)

/-- Goes on with a result of the marketplace, or fails with its error. -/
def ofExcept {α : Type} (result : Except Error α) : Command α :=
  ExceptT.mk (.done (result.mapError .marketplace))

/-- Reads from the marketplace. -/
def read (r : Read) : Command r.Answer :=
  ExceptT.mk (.read r fun answer => .done (answer.mapError .marketplace))

/-- Reads the text of a metadata file. -/
def metadataText (path : String) : Command String :=
  ExceptT.mk (.file path fun text =>
    .done (text.mapError fun e => .metadataFile path e.message))

/-- Asks for an id. -/
def askId (argument prompt : String) : Command UInt64 := do
  let text ← ask prompt
  ofExcept (Number.readWord64 argument text)

/-- Shows events in order. -/
def displayAll : List Event → Command Unit
  | [] => return ()
  | e :: rest => do
    display e
    displayAll rest

end Command

/-- A session behind its login. -/
structure Session where
  terms : Terms
  identities : Registry
  user : Identity

namespace Session

open Command

/-- The prompt that asks for one of the identities. -/
def slotPrompt (label : String) (identities : Registry) : String :=
  label ++ " [1-" ++ Numeral.decimal identities.length ++ "] : "

/-- Builds the deploy of an order and shows its command. -/
def place (s : Session) (order : Order) : Command Unit := do
  let d ← ofExcept (s.terms.build s.user.secretKey order)
  display (.deploy d)

/-- The requests of a list as views. -/
def requestViews (s : Session) (requests : List (UInt64 × Request)) : List Event :=
  requests.map fun (id, q) => .record (View.request s.identities id q)

/-- Lists the requests to the user. -/
def showIncoming (s : Session) : Command Unit := do
  let requests ← read (.incoming s.user.account)
  display (.heading "Your incoming requests : ")
  displayAll (s.requestViews requests)

/-- Lists the requests of the user. -/
def showOutgoing (s : Session) : Command Unit := do
  let requests ← read (.outgoing s.user.account)
  display (.heading "Your outgoing requests : ")
  displayAll (s.requestViews requests)

/-- Lists the holdings of the user. -/
def showHoldings (s : Session) : Command Unit := do
  let holdings ← read (.holdings s.user.account)
  display (.heading "Your tokens : ")
  displayAll (holdings.map fun (_, h) => .record (View.holder h))

/-- Asks for the texts of a mint order. -/
def askMint (s : Session) : Command MintOrder := do
  let path ← ask "Metadata path : "
  let text ← metadataText path
  let metadata ← ofExcept (Metadata.parse text)
  let amount ← ask "Amount : "
  let slot ← ask (slotPrompt "Recipient" s.identities)
  let recipient ← ofExcept (s.identities.select slot)
  let price ← ask "Price : "
  return ⟨metadata, price, amount, recipient.account⟩

/-- Asks for the texts of a publish order. -/
def askPublish : Command PublishOrder := do
  let commission ← ask "Enter your expected comission [0-100]: "
  let holderId ← ask "Enter holder_id : "
  let amount ← ask "Enter amount to request: "
  let producer ← ask "Enter producer's account-hash : "
  return ⟨producer, amount, holderId, commission⟩

/-- Asks for the texts of a buy order. -/
def askBuy : Command BuyOrder := do
  let amount ← ask "Enter the amount : "
  let approvedId ← ask "Enter the approved_id : "
  let price ← ask "Enter the price : "
  return ⟨amount, approvedId, price⟩

/-- Asks for the texts of a disapprove order. -/
def askDisapprove : Command DisapproveOrder := do
  let approvedId ← ask "Enter the approved_id : "
  let amount ← ask "Enter the amount : "
  let publisher ← ask "Enter publisher's account-hash : "
  return ⟨amount, approvedId, publisher⟩

/-- Asks which request is meant. -/
def requestPrompt : String := "Enter the request_id : "

/-- The command of an entry. -/
def command (s : Session) : MenuEntry → Command Unit
  | .install => s.place .install
  | .mint => do
    let order ← s.askMint
    s.place (.mint order)
  | .publish => do
    let order ← askPublish
    s.place (.publish order)
  | .viewRequest => do
    let id ← askId "request_id" requestPrompt
    let q ← read (.request id)
    display (.record (View.request s.identities id q))
  | .incoming => s.showIncoming
  | .outgoing => s.showOutgoing
  | .holdings => s.showHoldings
  | .approve => do
    s.showIncoming
    let requestId ← ask requestPrompt
    s.place (.approve requestId)
  | .buy => do
    let order ← askBuy
    s.place (.buy order)
  | .viewToken => do
    let id ← askId "token_id" "Enter the token_id : "
    let t ← read (.token id)
    display (.record (View.token t))
  | .viewHolder => do
    let id ← askId "holder_id" "Enter the holder_id : "
    let h ← read (.holder id)
    display (.record (View.holder h))
  | .cancel => do
    s.showOutgoing
    let requestId ← ask requestPrompt
    s.place (.cancel requestId)
  | .viewApproved => do
    let id ← askId "approved_id" "Enter the approved_id : "
    let h ← read (.approved id)
    display (.record (View.approved s.identities id h))
  | .disapprove => do
    let order ← askDisapprove
    s.place (.disapprove order)
  | .namedKey => do
    let name ← ask "Enter the named key : "
    let v ← read (.namedKey s.user.account (Text.trim name))
    display (.record v)
  | .exit => return ()

end Session

end TokenMarket
