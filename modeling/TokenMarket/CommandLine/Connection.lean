import Std.Async.DNS
import Std.Async.TCP
import Std.Async.Timer
import TokenMarket.Http.Exchange
import TokenMarket.Rpc.Node

/-!
# Messages over the network

The transport of the program.  Every message gets a connection of its own,
which is given up when it takes too long to open, or when the answer takes
too long to arrive.  What the bytes of an exchange mean is decided in
`Http/Exchange`.
-/

namespace TokenMarket.Connection

open Std.Async Std.Net

/-- Waits for a result, but no longer than so many milliseconds. -/
def within {α : Type} (milliseconds : UInt64) (action : Async α) : Async (Option α) :=
  Async.race (do return some (← action)) do
    sleep (Std.Time.Millisecond.Offset.ofNat milliseconds.toNat)
    return none

/-- The places in the network that an address stands for. -/
def endpoints (a : Http.Address) : Async (List SocketAddress) := do
  let hosts ← match IPv4Addr.ofString a.host, IPv6Addr.ofString a.host with
    | some ip, _ => pure #[IPAddr.v4 ip]
    | none, some ip => pure #[IPAddr.v6 ip]
    | none, none => DNS.getAddrInfo a.host (Numeral.decimal a.service.toNat)
  return hosts.toList.map fun
    | .v4 ip => .v4 ⟨ip, a.service⟩
    | .v6 ip => .v6 ⟨ip, a.service⟩

/-- Opens a connection to the first place that takes one. -/
def openFirst : List SocketAddress → Async (Option TCP.Socket.Client)
  | [] => return none
  | place :: rest => do
    try
      let client ← TCP.Socket.Client.mk
      client.connect place
      return some client
    catch _ => openFirst rest

/-- Opens a connection to an address. -/
def openTo (a : Http.Address) : Async (Option TCP.Socket.Client) := do
  try openFirst (← endpoints a)
  catch _ => return none

/-- Receives bytes until they are an answer, or can be none any more. -/
partial def receive (client : TCP.Socket.Client) (arrived : List UInt8) : Async Rpc.Outcome := do
  let next ← client.recv? 65536
  let arrived := arrived ++ (next.map (·.toList)).getD []
  match Http.Response.read next.isNone arrived with
  | .partly => receive client arrived
  | .broken => return .broken "the answer is no proper one"
  | .complete r => return .response r.status r.body

/-- Exchanges a message for an answer. -/
def exchange (config : NodeConfig) (a : Http.Address) (body : String) : Async Rpc.Outcome := do
  match ← within config.connectTimeoutMs (openTo a) with
  | none => return .timedOut
  | some none => return .unreachable
  | some (some client) =>
    try
      client.send ⟨(Http.request a body).toArray⟩
      receive client []
    catch e => return .broken e.toString

/-- Carries messages over the network. -/
def transport (config : NodeConfig) : Rpc.Transport IO := fun url message => do
  match Http.Address.parse? url with
  | none =>
    return if Http.isAbsolute url then .unreachable else .broken "the address is not absolute"
  | some a =>
    let answer ← (within config.requestTimeoutMs (exchange config a message.toJson.compact)).block
    return answer.getD .timedOut

end TokenMarket.Connection
