import TokenMarket.Json.Printer
import TokenMarket.Json.Record
import TokenMarket.Text.Split

/-!
# Envelopes

The body of an answer is an envelope with a result, an error, or both.  A
null counts as neither.  An error has a code and a message, and may carry
further data.
-/

namespace TokenMarket.Rpc

/-- An error that a node reports. -/
structure RemoteError where
  code : Int
  message : String
  data : Option Json
deriving Repr

/-- The content of an answer. -/
structure Envelope where
  result : Option Json
  error : Option RemoteError
deriving Repr

/-- What a node says in an error when there is nothing under the key.  Any
other error is a refusal. -/
def missingMark : String := "ValueNotFound"

/-- Whether a text holds the mark. -/
def mentionsMissing (text : String) : Bool :=
  Text.occursIn missingMark.toList text.toList

namespace RemoteError

/-- Whether the error says that there is nothing under the key: in its
message, or anywhere in the text of its data. -/
def saysMissing (e : RemoteError) : Bool :=
  mentionsMissing e.message || e.data.any fun v => mentionsMissing v.compact

/-- The members of an error, in the order of their positions. -/
def memberNames : List String := ["code", "message", "data"]

/-- The error with these members.  The code has 64 bits and a sign. -/
def ofSlots? : List (Option Json) → Option RemoteError
  | [some (.int code), some (.string message), data] =>
    if Numeral.isSigned64 code then some ⟨code, message, Json.present data⟩ else none
  | _ => none

/-- Reads an error. -/
def ofTree? (t : Json.Tree) : Option RemoteError := do
  let slots ← t.slots? memberNames
  let slots ← slots.mapM (Json.slotValue? (Json.maxLevels - 2))
  ofSlots? slots

end RemoteError

namespace Envelope

/-- The members of an envelope, in the order of their positions. -/
def memberNames : List String := ["result", "error"]

/-- Reads the error of an envelope, if there is one. -/
def error? : Option Json.Tree → Option (Option RemoteError)
  | none => some none
  | some .null => some none
  | some t => (RemoteError.ofTree? t).map some

/-- Reads an envelope from the body of an answer. -/
def parse? (body : String) : Option Envelope := do
  let tree ← Json.Tree.parse? body.toList
  match ← tree.slots? memberNames with
  | [result, error] => do
    let result ← Json.slotValue? (Json.maxLevels - 1) result
    let error ← error? error
    return ⟨Json.present result, error⟩
  | _ => none

end Envelope

end TokenMarket.Rpc
