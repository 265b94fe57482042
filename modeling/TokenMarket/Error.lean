import TokenMarket.Text.Quoted
import TokenMarket.Text.Numeral

/-!
# Failures of the marketplace client

`Error` lists the causes for which a read or a deploy can fail, from the
node that does not answer to the number that does not fit.  A cause is
never turned into another on its way to the reader, so one table of
wordings serves every part of the client.

Two functions show an error: `kind` is its short name and `message` its
sentence.  Values that come from outside are quoted in the sentence, so
that their ends can be seen; names that the client chose itself are not.
-/

namespace TokenMarket

/-- Why a read or a deploy failed. -/
inductive Error where
  /-- The node could not be asked, or gave no answer that could be used. -/
  | nodeUnavailable (reason : String)
  /-- The node holds nothing under the key. -/
  | notFound (dictionary key : String)
  /-- The node answered with something other than what was asked for. -/
  | malformedResponse (reason : String)
  /-- The node refused the request. -/
  | nodeRejected (code : Int) (message : String)
  /-- A record of bytes is shorter than its layout. -/
  | truncatedRecord (record : String) (expected got : Nat)
  /-- A record of fields has too few or too many of them. -/
  | fieldCountMismatch (record : String) (expected got : Nat)
  /-- One field of a record cannot be read. -/
  | invalidField (record field value : String)
  /-- A number is well written and too large. -/
  | argumentOutOfRange (argument value bound : String)
  /-- An argument cannot be read. -/
  | invalidArgument (argument reason : String)
  /-- No identity goes by this slot or name. -/
  | unknownIdentity (slot : String)
deriving DecidableEq, Repr

namespace Error

/-- The short name of the cause. -/
def kind : Error → String
  | nodeUnavailable _ => "NodeUnavailable"
  | notFound _ _ => "NotFound"
  | malformedResponse _ => "MalformedResponse"
  | nodeRejected _ _ => "NodeRejected"
  | truncatedRecord _ _ _ => "TruncatedRecord"
  | fieldCountMismatch _ _ _ => "FieldCountMismatch"
  | invalidField _ _ _ => "InvalidField"
  | argumentOutOfRange _ _ _ => "ArgumentOutOfRange"
  | invalidArgument _ _ => "InvalidArgument"
  | unknownIdentity _ => "UnknownIdentity"

/-- An integer in decimal, with a minus sign if it is negative. -/
def decimalInt : Int → String
  | .ofNat n => Numeral.decimal n
  | .negSucc n => "-" ++ Numeral.decimal (n + 1)

/-- The sentence that tells the cause. -/
def message : Error → String
  | nodeUnavailable reason => "Node unavailable: " ++ reason
  | notFound dictionary key => "Not found: " ++ dictionary ++ "[" ++ key ++ "]"
  | malformedResponse reason => "Malformed response: " ++ reason
  | nodeRejected code text =>
    "Node rejected request (" ++ decimalInt code ++ "): " ++ text
  | truncatedRecord record expected got =>
    "Truncated " ++ record ++ " record: expected " ++ Numeral.decimal expected
      ++ " bytes, got " ++ Numeral.decimal got
  | fieldCountMismatch record expected got =>
    "Field count mismatch in " ++ record ++ " record: expected "
      ++ Numeral.decimal expected ++ ", got " ++ Numeral.decimal got
  | invalidField record field value =>
    "Invalid " ++ field ++ " in " ++ record ++ " record: " ++ Text.quoted value
  | argumentOutOfRange argument value bound =>
    "Argument " ++ argument ++ " out of range: " ++ Text.quoted value
      ++ " (" ++ bound ++ ")"
  | invalidArgument argument reason =>
    "Invalid argument " ++ argument ++ ": " ++ reason
  | unknownIdentity slot => "Unknown identity: " ++ slot

end Error

end TokenMarket
