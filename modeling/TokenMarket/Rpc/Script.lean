import TokenMarket.Http.Address
import TokenMarket.Rpc.Query

/-!
# A transport that follows a script

A stand-in for the network.  One host is served: its messages are logged,
and get the outcomes of the script one after the other, and a fixed one
after its end.  Nobody listens at any other address, and a text that is no
absolute address cannot be used at all.
-/

namespace TokenMarket.Rpc

/-- What the script still holds, and the messages that it answered. -/
structure Script where
  /-- The address of the host that is served, without a path. -/
  host : String
  /-- Whether anybody listens there. -/
  listening : Bool
  /-- The outcomes of the next messages. -/
  outcomes : List Outcome
  /-- The outcome of every message after the last of the script. -/
  afterwards : Outcome
  /-- The paths and the messages that were answered, in order. -/
  log : List (String × Message) := []

namespace Script

/-- The path of an address at the host. -/
def path? (s : Script) (url : String) : Option String :=
  match Text.dropLead? s.host.toList url.toList with
  | some ('/' :: rest) => some (String.ofList ('/' :: rest))
  | _ => none

/-- The complaint about an exchange that failed in no particular way. -/
def brokenReason : String := "<transport error>"

/-- Carries a message. -/
def transport : Transport (StateM Script) := fun url message s =>
  match s.path? url with
  | some path =>
    if s.listening then
      match s.outcomes with
      | [] => (s.afterwards, { s with log := s.log ++ [(path, message)] })
      | outcome :: rest =>
        (outcome, { s with outcomes := rest, log := s.log ++ [(path, message)] })
    else (.unreachable, s)
  | none => (if Http.isAbsolute url then .unreachable else .broken brokenReason, s)

end Script

end TokenMarket.Rpc
