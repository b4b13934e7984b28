import WsRelay.Connection.Socket
import WsRelay.Peer.Backend
import WsRelay.Termination
/-! # Connections

A `Connection` is one client, the peer it is relayed to, and what has been read from either and
not yet been passed on.  It goes through four phases: the request line, the header lines, frames
in both directions, and the end.  Before the upgrade a client is sent an answer to its request,
after the upgrade frames (`Reply`).

This module holds the state, the handles of what waits for a socket to become readable, and the
end of a connection (`close`, `release`).  `WsRelay.Connection.Client` and
`WsRelay.Connection.Peer` hold what happens when a socket has become readable. -/

namespace WsRelay

/-! ### What a client is sent -/

/-- One thing sent to a client. -/
inductive Reply where
  /-- The upgrade is granted. -/
  | switching (accept : String) (protocol : Option String)
  /-- The upgrade is refused. -/
  | status (line : String)
  | frame (opcode : Opcode) (payload : Bytes)
deriving DecidableEq, Repr

namespace Reply

/-- The reply on the wire. -/
def bytes : Reply → Bytes
  | switching accept protocol => Utf8.encode (Handshake.switching accept protocol)
  | status line => Utf8.encode (Handshake.statusLine line)
  | frame opcode payload => Frame.encode opcode payload

/-- The close frame for a code and a reason. -/
def goodbye (code : CloseCode) (reason : String) : Reply :=
  frame .close (code.payload reason)

end Reply

/-! ### One client and its peer -/

/-- How far a connection has come. -/
inductive Phase where
  /-- The request line is awaited. -/
  | requestLine
  /-- Header lines are awaited. -/
  | headers
  /-- Frames and peer bytes are relayed. -/
  | relaying
  | closed
deriving DecidableEq, Repr

/-- What becomes of a connection after one of its sockets was readable. -/
inductive Verdict where
  | continue
  | close (termination : Termination)
deriving DecidableEq, Repr

/-- A verdict, or the failure that stands in its way. -/
abbrev Outcome := Except Error Verdict

/-- The verdict of an outcome: a failure closes the connection in its own way. -/
def Outcome.verdict : Outcome → Verdict
  | .ok verdict => verdict
  | .error e => .close e.termination

/-- Names one wait for a socket to become readable. -/
abbrev Watch := Nat

/-- How many bytes of a client, and of a peer, are held at most. -/
def bufferCapacity : Nat := 16384

/-- One client and its peer. -/
structure Connection (σ : Type) where
  id : SlotId
  /-- The client's address. -/
  address : String := ""
  phase : Phase := .requestLine
  /-- What waits to be read from the client. -/
  fromClient : Inlet := {}
  toClient : Outlet Reply := {}
  /-- Bytes of the client not yet used. -/
  clientBuffer : Bytes := []
  /-- What comes of connecting to an address. -/
  dial : Endpoint → Except IoFault PeerSocket
  peer : Option PeerSocket := none
  toPeer : Outlet Bytes := {}
  /-- Bytes of the peer not yet used. -/
  peerBuffer : Bytes := []
  request : Handshake.Request := {}
  route : Option (Route σ) := none
  memory : Memory σ := .empty
  clientWatch : Option Watch := none
  peerWatch : Option Watch := none
  /-- The waits that were called off. -/
  aborted : List Watch := []

namespace Connection

variable {σ : Type}

/-! ### Waits -/

/-- The wait for a side's socket. -/
def watch? (c : Connection σ) : Side → Option Watch
  | .client => c.clientWatch
  | .peer => c.peerWatch

/-- With another wait, or none, for a side's socket. -/
def withWatch (c : Connection σ) (side : Side) (watch : Option Watch) : Connection σ :=
  match side with
  | .client => { c with clientWatch := watch }
  | .peer => { c with peerWatch := watch }

/-- Notes a wait for a side's socket; the one before it is called off. -/
def beginWatch (c : Connection σ) (side : Side) (watch : Watch) : Connection σ :=
  { c.withWatch side (some watch) with aborted := c.aborted ++ (c.watch? side).toList }

/-- Forgets the wait for a side's socket once the socket is readable. -/
def endWatch (c : Connection σ) (side : Side) : Connection σ :=
  c.withWatch side none

/-! ### The end -/

/-- Gives everything up: the waits, the peer, what the framing remembers and what was read. -/
def release (c : Connection σ) : Connection σ :=
  { c with
    aborted := c.aborted ++ c.clientWatch.toList ++ c.peerWatch.toList
    clientWatch := none
    peerWatch := none
    memory := match c.route with
      | some route => route.framing.teardown c.memory
      | none => c.memory
    route := none
    peer := none
    clientBuffer := []
    peerBuffer := []
    phase := .closed }

/-- The last thing a client is sent: a status before the upgrade, a close frame after it. -/
def goodbye? (phase : Phase) (termination : Termination) : Option Reply :=
  match termination, phase with
  | .close code reason, .relaying => some (Reply.goodbye code reason)
  | .http status, .headers => some (.status status)
  | _, _ => none

/-- Tells the client why the connection ends, if there is a way to, and ends it. -/
def close (c : Connection σ) (termination : Termination) : Connection σ :=
  if c.phase = .closed then c
  else
    let c := match goodbye? c.phase termination with
      | some reply => { c with toClient := (c.toClient.offer reply).2 }
      | none => c
    c.release

end Connection

end WsRelay
