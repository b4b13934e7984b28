import WsRelay.Error
import WsRelay.Framing.Basic
import WsRelay.Peer.Endpoint
import WsRelay.Text.Cut
import WsRelay.Text.Digits
/-! # Routes

A `Route` says where a connection is to go, as configured: a transport, a host that may carry a
scheme and a port, and the framing of what comes back.  `Route.endpoint` works out the endpoint to
connect to. -/

namespace WsRelay

/-- Where a connection goes, and how the bytes that come back are framed. -/
structure Route (σ : Type) where
  transport : Transport := .detect
  host : String
  port : Option String := none
  framing : Framing σ
  framingConfig : String := ""
  /-- Which of the client's offers is accepted. -/
  protocol : Option Nat := none

namespace Route

variable {σ : Type}

/-- The transport to use and the host without its scheme. -/
def target (route : Route σ) : Transport × String :=
  match route.transport with
  | .detect => Transport.ofHost route.host
  | transport => (transport, route.host)

/-- The host and port of a network peer; the port option, if set, goes before a port after the
host. -/
def hostAndPort (route : Route σ) (host : String) : Except Error (String × Nat) :=
  let (name, suffix) := Endpoint.cutPort host
  match route.port.or suffix with
  | none => .error (.peerConnect route.host "no port given")
  | some port =>
    match Text.port? (Text.trim port) with
    | none => .error (.peerConnect route.host ("invalid port '" ++ port ++ "'"))
    | some n => .ok (name, n)

/-- The endpoint to connect to. -/
def endpoint (route : Route σ) : Except Error Endpoint :=
  let (transport, host) := route.target
  if host = "" then .error (.peerConnect route.host "empty peer address")
  else match transport with
    | .unixStream => .ok (.unixStream host)
    | .unixDatagram => .ok (.unixDatagram host)
    | .fifoTx => .ok (.fifoTx host)
    | .fifoRx => .ok (.fifoRx host)
    | .udp => (route.hostAndPort host).map fun (name, port) => .udp name port
    | .tcp | .detect => (route.hostAndPort host).map fun (name, port) => .tcp name port

/-- The name of the offer that is accepted. -/
def protocolName? (route : Route σ) (offers : List String) : Option String :=
  route.protocol.bind (offers[·]?)

end Route

end WsRelay
