import TokenMarket.Text.Blank
import TokenMarket.Text.Numeral
import TokenMarket.Text.Split

/-!
# Addresses

An address has a scheme, a host, perhaps the number of a service at the
host, and what is asked for there.  `isAbsolute` tells whether a text has
the outer form of an address at all.  `Address.parse?` reads the addresses
that a message can be sent to without encryption.
-/

namespace TokenMarket.Http

/-- Whether a text names a scheme and a host. -/
def isAbsolute (text : String) : Bool :=
  Text.occursIn "://".toList text.toList

/-- Where a message goes. -/
structure Address where
  host : String
  /-- The number of the service at the host. -/
  service : UInt16
  /-- What is asked for at the host.  It starts with a slash. -/
  target : String
deriving DecidableEq, Repr

namespace Address

/-- The service when an address names none. -/
def defaultService : UInt16 := 80

/-- Reads the number of a service. -/
def service? (cs : List Char) : Option UInt16 :=
  (Numeral.read? cs).bind fun n =>
    if h : n < UInt16.size then some (UInt16.ofNatLT n h) else none

/-- Splits the number of the service off a host.  A host between brackets
may hold colons itself. -/
def hostAndService? (cs : List Char) : Option (List Char × UInt16) :=
  let inBrackets := cs.head? = some '['
  let host := if inBrackets then (cs.drop 1).takeWhile (· != ']') else cs.takeWhile (· != ':')
  let rest := if inBrackets then (cs.dropWhile (· != ']')).drop 1 else cs.dropWhile (· != ':')
  if host = [] then none
  else
    match rest with
    | [] => some (host, defaultService)
    | ':' :: digits => (service? digits).map (host, ·)
    | _ => none

/-- Whether a character ends the host of an address. -/
def endsHost (c : Char) : Bool :=
  c == '/' || c == '?' || c == '#'

/-- What is asked for, from what follows the host.  A mark for a place in
the answer is not sent. -/
def targetOf (cs : List Char) : String :=
  let sent := cs.takeWhile (· != '#')
  String.ofList (if sent.head? = some '/' then sent else '/' :: sent)

/-- Reads an address. -/
def parse? (text : String) : Option Address := do
  let rest ← Text.dropLead? "http://".toList text.toList
  let (host, service) ← hostAndService? (rest.takeWhile (!endsHost ·))
  return ⟨String.ofList host, service, targetOf (rest.dropWhile (!endsHost ·))⟩

/-- The host and the service, as a message names them. -/
def authority (a : Address) : String :=
  let host := if a.host.toList.contains ':' then "[" ++ a.host ++ "]" else a.host
  if a.service = defaultService then host else host ++ ":" ++ Numeral.decimal a.service.toNat

end Address

end TokenMarket.Http
