import Std.Async.DNS
import Std.Async.Signal
import Std.Async.TCP
import Std.Async.UDP
import Std.Sync.CancellationToken
import Std.Sync.Channel
import WsRelay.Gateway.Delivery
import WsRelay.Startup
/-! # The program

Reads the command line, sets the relay up, and serves until it is interrupted.

The gateway decides everything; this module gives it real sockets.  Each wait of the gateway is one
read in the background, whose outcome is sent to a channel.  The outcomes are taken from the channel
one by one, turned into events, and what the connections sent is written out after each of them.

Peers are reached over TCP and UDP and through pipes that are written to.  Sockets in the file
system and pipes that are read from are refused. -/

open Std.Async
open Std.Net

namespace WsRelay.Program

/-- The sockets of a peer. -/
inductive PeerLink where
  | tcp (socket : TCP.Socket.Client)
  | udp (socket : UDP.Socket)
  | pipe (handle : IO.FS.Handle)

/-- The sockets of a connection. -/
structure Link where
  id : SlotId
  client : TCP.Socket.Client
  peer : Option PeerLink := none
  /-- Set when the connection has ended. -/
  ended : Std.CancellationToken

/-- What the rest of the program is told. -/
inductive Notice where
  | accepted (socket : TCP.Socket.Client)
  /-- A read is over: bytes, or the end of the stream. -/
  | input (wait : Wait) (result : Except IO.Error (Option ByteArray))
  | interrupted
deriving Inhabited

/-- The relay at work. -/
structure Relay where
  gateway : Gateway Empty
  links : List Link := []
  /-- The first wait for which no read has been started. -/
  nextRead : Watch := 0
  notices : Std.Channel Notice

/-! ### Sockets -/

/-- The most bytes one read brings: as many as a datagram can have. -/
def readLimit : UInt64 := 65536

/-- A byte string as the sockets take it. -/
def pack (bytes : Bytes) : ByteArray :=
  ⟨bytes.toArray⟩

/-- The failure of a system call. -/
def fault (e : IO.Error) : IoFault :=
  match e with
  | .noFileOrDirectory .. => .notFound
  | .inappropriateType _ code _ | .invalidArgument _ code _ =>
    if code = 20 then .notDirectory
    else if code = 21 then .isDirectory
    else if code = 36 then .nameTooLong
    else .other e.toString
  | e => .other e.toString

/-- An address with its port. -/
def socketAddress (port : Nat) : IPAddr → SocketAddress
  | .v4 address => .v4 ⟨address, UInt16.ofNat port⟩
  | .v6 address => .v6 ⟨address, UInt16.ofNat port⟩

/-- The first of the addresses of a host with which `use` succeeds. -/
def firstAddress {α : Type} (host : String) (port : Nat) (use : SocketAddress → IO α) :
    IO α := do
  let mut failure := IO.userError ("no address found for " ++ host)
  for address in ← Async.block (DNS.getAddrInfo host (toString port)) do
    try
      return ← use (socketAddress port address)
    catch e => failure := e
  throw failure

/-- The wildcard address of the family of another. -/
def wildcard : SocketAddress → SocketAddress
  | .v4 _ => .v4 ⟨.ofParts 0 0 0 0, 0⟩
  | .v6 _ => .v6 ⟨.ofParts 0 0 0 0 0 0 0 0, 0⟩

/-- Connects to a peer. -/
def connect : Endpoint → IO (PeerLink × PeerSocket)
  | .tcp host port => firstAddress host port fun address => do
      let socket ← TCP.Socket.Client.mk
      Async.block (socket.connect address)
      socket.noDelay
      return (.tcp socket, .stream {})
  | .udp host port => firstAddress host port fun address => do
      let socket ← UDP.Socket.mk
      socket.bind (wildcard address)
      socket.connect address
      return (.udp socket, .datagram [] .more)
  | .fifoTx path => do
    return (.pipe (← IO.FS.Handle.mk path .readWrite), .pipeIn)
  | .unixStream _ | .unixDatagram _ | .fifoRx _ =>
    throw (IO.userError IoFault.unsupported.message)

/-- Sends a payload to a peer. -/
def PeerLink.send (link : PeerLink) (payload : Bytes) : IO Unit :=
  match link with
  | .tcp socket => if payload.isEmpty then pure () else Async.block (socket.send (pack payload))
  | .udp socket => Async.block (socket.send (pack payload))
  | .pipe handle => do
    handle.write (pack payload)
    handle.flush

/-- Reads one side of a connection once; nothing comes of it if the connection ends before. -/
def Link.read? (link : Link) (side : Side) : Async (Option (Option ByteArray)) :=
  let ended := Selectable.case link.ended.selector fun _ => pure none
  match side, link.peer with
  | .client, _ =>
    Selectable.one #[ended, .case (link.client.recvSelector readLimit) fun d => pure (some d)]
  | .peer, some (.tcp socket) =>
    Selectable.one #[ended, .case (socket.recvSelector readLimit) fun d => pure (some d)]
  | .peer, some (.udp socket) =>
    Selectable.one #[ended, .case (socket.recvSelector readLimit) fun d => pure (some (some d.1))]
  | .peer, _ => pure none

/-- Ends the sockets of a connection. -/
def Link.close (link : Link) : IO Unit := do
  try Async.block link.client.shutdown catch _ => pure ()
  match link.peer with
  | some (.tcp socket) => try Async.block socket.shutdown catch _ => pure ()
  | _ => pure ()
  link.ended.cancel

/-! ### Serving -/

namespace Relay

/-- The sockets of a connection. -/
def link? (r : Relay) (id : SlotId) : Option Link :=
  r.links.find? (·.id == id)

/-- Starts the read that a wait stands for. -/
def startRead (r : Relay) (wait : Wait) : IO Unit := do
  match r.link? wait.id with
  | none => pure ()
  | some link =>
    let report (result : Except IO.Error (Option ByteArray)) : Async Unit := do
      discard (r.notices.send (.input wait result))
    discard <| Async.toIO do
      try
        match ← link.read? wait.side with
        | none => pure ()
        | some data => report (.ok data)
      catch e => report (.error e)

/-- Writes out what a connection has sent.  A write that fails is noticed by the next read. -/
def deliver (r : Relay) (delivery : Delivery) : IO Unit := do
  match r.link? delivery.id with
  | none => pure ()
  | some link =>
    try
      for reply in delivery.toClient do
        Async.block (link.client.send (pack reply.bytes))
      for payload in delivery.toPeer do
        link.peer.forM (·.send payload)
    catch _ => pure ()
    if delivery.last then link.close

/-- The relay with its gateway changed: what was sent is written out, and new waits begin. -/
def follow (r : Relay) (gateway : Gateway Empty) : IO Relay := do
  let deliveries := gateway.deliveries
  deliveries.forM r.deliver
  let gateway := gateway.delivered
  for wait in gateway.waits do
    if r.nextRead ≤ wait.watch then r.startRead wait
  let ended := (deliveries.filter (·.last)).map (·.id)
  return { r with
    gateway
    links := r.links.filter fun link => !ended.contains link.id
    nextRead := gateway.nextWatch }

/-- Adds a client. -/
def accept (r : Relay) (client : TCP.Socket.Client) : IO Relay := do
  let address ← client.getPeerName
  let gateway := r.gateway.step (.accept
    { address := address.ipAddr.toString ++ ":" ++ toString address.port
      dial := fun _ => .error .unsupported })
  let ended ← Std.CancellationToken.new
  let known := r.links.map (·.id)
  let links := (gateway.connections.ids.filter (!known.contains ·)).map fun id =>
    { id, client, ended : Link }
  { r with links := r.links ++ links }.follow gateway

/-- Connects a connection to its peer, if it is about to ask for that. -/
def dial (r : Relay) (id : SlotId) : IO Relay := do
  let asked := (r.gateway.connections.get? id).bind (·.target? r.gateway.backend.route)
  match asked with
  | none => return r
  | some address =>
    let (peer, result) : Option PeerLink × Except IoFault PeerSocket ←
      try
        let (link, socket) ← connect address
        pure (some link, .ok socket)
      catch e => pure (none, .error (fault e))
    return { r with
      links := r.links.map fun link => if link.id = id then { link with peer } else link
      gateway := { r.gateway with
        connections := r.gateway.connections.modify id fun c => { c with dial := fun _ => result } } }

/-- Goes on after a read. -/
def input (r : Relay) (wait : Wait) (result : Except IO.Error (Option ByteArray)) :
    IO Relay := do
  let event : Event := match result with
    | .ok (some data) => .arrive wait.id wait.side data.toList
    | .ok none => .hangUp wait.id wait.side .ended
    | .error e => .hangUp wait.id wait.side (.failed (fault e))
  let r := { r with gateway := r.gateway.step event }
  let r ← if wait.side = .client then r.dial wait.id else pure r
  r.follow (r.gateway.step (.ready wait.watch none))

/-- Serves until the program is interrupted. -/
partial def serve (r : Relay) : IO Unit := do
  match ← r.notices.sync.recv with
  | .accepted client => serve (← try r.accept client catch _ => pure r)
  | .input wait result => serve (← r.input wait result)
  | .interrupted => discard (r.follow r.gateway.shutdown)

end Relay

/-- Reports every client that connects. -/
partial def acceptClients (server : TCP.Socket.Server) (notices : Std.Channel Notice) :
    Async Unit := do
  try
    let client ← server.accept
    client.noDelay
    discard (notices.send (.accepted client))
  catch _ => pure ()
  acceptClients server notices

/-- Reports an interrupt. -/
def awaitInterrupt (notices : Std.Channel Notice) : Async Unit := do
  let waiter ← Signal.Waiter.mk .sigint false
  discard (await (← waiter.wait))
  discard (notices.send .interrupted)

/-- How many clients may wait to be accepted. -/
def backlog : UInt32 := 1024

/-- Serves with these settings. -/
def run (settings : Settings) (backend : SinglePeer Empty) : IO UInt32 := do
  try
    let server ← firstAddress settings.listen settings.port fun address => do
      let server ← TCP.Socket.Server.mk
      server.bind address
      server.listen backlog
      return server
    let notices : Std.Channel Notice ← Std.Channel.new
    discard <| Async.toIO (acceptClients server notices)
    discard <| Async.toIO (awaitInterrupt notices)
    Relay.serve { gateway := { backend := backend.toBackend }, notices }
    return 0
  catch e =>
    IO.eprint (Startup.Failure.report
      ⟨.listen settings.listen settings.port, .io (fault e)⟩)
    return 1

/-- Reads the configuration file a command line names. -/
def readConfig (line : CommandLine) : IO (Except IoFault Bytes) := do
  match line.config with
  | none => return .ok []
  | some path =>
    try
      return .ok (← IO.FS.readBinFile path).toList
    catch e => return .error (fault e)

/-- Runs the program with its arguments. -/
def start (args : List String) : IO UInt32 := do
  match CommandLine.parse args with
  | .error .displayHelp => IO.print CommandLine.helpText; return 0
  | .error .displayVersion => IO.print CommandLine.versionText; return 0
  | .error stop =>
    IO.eprint ("error: " ++ stop.message ++ "\n\nFor more information, try '--help'.\n")
    return 2
  | .ok line =>
    let content ← readConfig line
    match Startup.prepare line (fun _ => content) (FramingTable.standard : FramingTable Empty) with
    | .error failure => IO.eprint failure.report; return 1
    | .ok (settings, backend) => run settings backend

end WsRelay.Program

def main (args : List String) : IO UInt32 :=
  WsRelay.Program.start args
