import WsRelay.Peer.Transport
/-! # Addresses of peers

An `Endpoint` is an address to connect to.  `Endpoint.display` writes it as a host with a scheme
and a port, and `Endpoint.cutPort` takes the port off such a host. -/

namespace WsRelay

/-- An address to connect to. -/
inductive Endpoint where
  /-- The host is without brackets. -/
  | tcp (host : String) (port : Nat)
  | udp (host : String) (port : Nat)
  | unixStream (path : String)
  | unixDatagram (path : String)
  | fifoTx (path : String)
  | fifoRx (path : String)
deriving DecidableEq, Repr

namespace Endpoint

/-- A host and a port; a host with colons of its own stands in brackets. -/
def hostPort (host : String) (port : Nat) : String :=
  if Text.contains host ":" then "[" ++ host ++ "]:" ++ toString port
  else host ++ ":" ++ toString port

/-- The address with its scheme. -/
def display : Endpoint → String
  | tcp host port => Transport.tcp.scheme ++ hostPort host port
  | udp host port => Transport.udp.scheme ++ hostPort host port
  | unixStream path => Transport.unixStream.scheme ++ path
  | unixDatagram path => Transport.unixDatagram.scheme ++ path
  | fifoTx path => Transport.fifoTx.scheme ++ path
  | fifoRx path => Transport.fifoRx.scheme ++ path

/-- The host in brackets at the front, and what follows the closing bracket. -/
def bracketed? (host : String) : Option (String × String) :=
  (Text.stripStart? "[" host).bind (Text.cut? ']')

/-- A host and the port after it.  Brackets are taken off; the colons of a bare IPv6 address do
not lead to a port. -/
def cutPort (host : String) : String × Option String :=
  match bracketed? host with
  | some (literal, tail) => (literal, Text.stripStart? ":" tail)
  | none =>
    match Text.cut? ':' host with
    | some (name, port) => if Text.contains port ":" then (host, none) else (name, some port)
    | none => (host, none)

end Endpoint

end WsRelay
