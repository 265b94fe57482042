import TokenMarket.Error
import TokenMarket.Hash

/-!
# Identities

An identity is an account with a name and the path of its secret key.  The
registry lists them in a fixed order.  A person picks one by its place in
the list, counted from 1, or by its name; where a text could be either,
the place wins.
-/

namespace TokenMarket

/-- An account that a person can act as. -/
structure Identity where
  name : String
  account : AccountHash
  /-- The path of the secret key. -/
  secretKey : String
deriving DecidableEq

/-- The identities, in order. -/
abbrev Registry := List Identity

namespace Registry

/-- The identity at the place that a numeral names. -/
def atPlace? (r : Registry) (slot : List Char) : Option Identity :=
  (Numeral.readSigned? slot).bind fun n => if n = 0 then none else r[n - 1]?

/-- The first identity of a name. -/
def named? (r : Registry) (name : String) : Option Identity :=
  r.find? (·.name == name)

/-- The identity that a typed text picks. -/
def select (r : Registry) (text : String) : Except Error Identity :=
  let slot := Text.trimBoth text.toList
  match (r.atPlace? slot).or (r.named? (String.ofList slot)) with
  | some identity => .ok identity
  | none => .error (.unknownIdentity (String.ofList slot))

/-- The first identity of an account. -/
def owner? (r : Registry) (account : AccountHash) : Option Identity :=
  r.find? (·.account == account)

/-- How an account is shown: its digits, and its name if it has one. -/
def describe (r : Registry) (account : AccountHash) : String :=
  match r.owner? account with
  | some identity => account.hex ++ " (" ++ identity.name ++ ")"
  | none => account.hex

end Registry

end TokenMarket
