import WsRelay.Text.Cut
/-! # Transports

How the relay talks to a peer.  A host may name its transport by a scheme in front of it; a host
without a scheme is reached over TCP. -/

namespace WsRelay

/-- How a peer is reached. -/
inductive Transport where
  /-- As the scheme of the host says. -/
  | detect
  | tcp
  | udp
  | unixStream
  | unixDatagram
  /-- A named pipe that is written to. -/
  | fifoTx
  /-- A named pipe that is read from. -/
  | fifoRx
deriving DecidableEq, Repr

namespace Transport

/-- The scheme in front of a host. -/
def scheme : Transport → String
  | detect | tcp => "tcp://"
  | udp => "udp://"
  | unixStream => "unix://"
  | unixDatagram => "unix-dgram://"
  | fifoTx => "fifotx://"
  | fifoRx => "fiforx://"

/-- The transport's name. -/
def name : Transport → String
  | detect => "detect"
  | tcp => "tcp-client"
  | udp => "udp-client"
  | unixStream => "unix-stream"
  | unixDatagram => "unix-datagram"
  | fifoTx => "fifo-tx"
  | fifoRx => "fifo-rx"

/-- The transports with a scheme of their own. -/
def withScheme : List Transport :=
  [unixDatagram, fifoTx, fifoRx, unixStream, tcp, udp]

/-- The transport of a name. -/
def ofName? (name : String) : Option Transport :=
  (detect :: withScheme).find? (·.name == name)

/-- The transport a host names, and the host without the scheme. -/
def ofHost (host : String) : Transport × String :=
  (withScheme.findSome? fun t => (Text.stripStart? t.scheme host).map (t, ·)).getD (tcp, host)

/-- The address is a host and a port. -/
def hasPort : Transport → Bool
  | tcp | udp => true
  | _ => false

end Transport

end WsRelay
