import WsRelay.Connection.Client
import WsRelay.Connection.Peer
/-! # The gateway

The gateway holds every connection and one wait per socket that is watched.  One thing happens at
a time: a client is accepted, or a wait is over because its socket is readable or has failed.  A
connection that is not to be closed has its sockets watched again; one that is closed gives up its
slot, and its waits are called off.  A wait that was called off, or whose connection is gone,
changes nothing when it is over. -/

namespace WsRelay

/-- A wait for one socket of a connection. -/
structure Wait where
  watch : Watch
  id : SlotId
  side : Side
deriving DecidableEq, Repr

/-- The sockets of a client that is accepted, and what comes of connecting it to a peer. -/
structure Accepted where
  address : String := ""
  fromClient : Inlet := {}
  toClient : Outlet Reply := {}
  toPeer : Outlet Bytes := {}
  dial : Endpoint → Except IoFault PeerSocket

/-- Every connection, and what is waited for. -/
structure Gateway (σ : Type) where
  backend : Backend σ
  connections : Slots (Connection σ) := {}
  /-- The waits that are not over. -/
  waits : List Wait := []
  /-- The waits that were called off. -/
  aborted : List Watch := []
  /-- The name of the next wait. -/
  nextWatch : Watch := 0
  /-- The connections that were closed, in order. -/
  finished : List (Connection σ) := []

/-- What happens to a gateway. -/
inductive Event where
  /-- A client is accepted. -/
  | accept (client : Accepted)
  /-- A wait is over, with the failure of its socket if there is one. -/
  | ready (watch : Watch) (fault : Option IoFault)
  /-- Bytes arrive at a socket. -/
  | arrive (id : SlotId) (side : Side) (bytes : Bytes)
  /-- The other end of a socket ends its stream, or the socket fails. -/
  | hangUp (id : SlotId) (side : Side) (tail : Tail)

namespace Gateway

variable {σ : Type}

/-- Starts a wait for a side of a connection. -/
def await (g : Gateway σ) (id : SlotId) (side : Side) : Gateway σ :=
  { g with
    connections := g.connections.modify id (·.beginWatch side g.nextWatch)
    waits := g.waits ++ [⟨g.nextWatch, id, side⟩]
    nextWatch := g.nextWatch + 1 }

/-- A side of the connection is to be watched and is not. -/
def lacksWatch (c : Connection σ) : Side → Bool
  | .client => c.clientWatch.isNone
  | .peer => c.peerWatch.isNone && c.peer.any (·.isReadable)

/-- Watches a side of a connection, if it is to be watched and is not. -/
def watchSide (g : Gateway σ) (id : SlotId) (side : Side) : Gateway σ :=
  match g.connections.get? id with
  | none => g
  | some c => if lacksWatch c side then g.await id side else g

/-- Watches both sockets of a connection. -/
def watch (g : Gateway σ) (id : SlotId) : Gateway σ :=
  (g.watchSide id .client).watchSide id .peer

/-- Adds a connection for an accepted client, and watches it. -/
def accept (g : Gateway σ) (client : Accepted) : Gateway σ :=
  let (id, connections) := g.connections.add fun id =>
    { id
      address := client.address
      fromClient := client.fromClient
      toClient := client.toClient
      toPeer := client.toPeer
      dial := client.dial }
  { g with connections }.watch id

/-- Closes a connection and takes it out. -/
def close (g : Gateway σ) (id : SlotId) (termination : Termination) : Gateway σ :=
  match g.connections.remove id with
  | (none, _) => g
  | (some c, connections) =>
    let c := c.close termination
    { g with
      connections
      aborted := g.aborted ++ c.aborted
      finished := g.finished ++ [c] }

/-- Why a side's socket failing closes its connection. -/
def waitError (side : Side) (fault : IoFault) : Error :=
  match side with
  | .client => .io fault
  | .peer => .peerIo fault

/-- What a connection does when the wait for one of its sockets is over. -/
def handle (router : Connection.Router σ) (side : Side) (fault : Option IoFault)
    (c : Connection σ) : Verdict × Connection σ :=
  match fault, side with
  | some fault, side => (.close (waitError side fault).termination, c)
  | none, .client => c.readClient router
  | none, .peer => c.readPeer

/-- A wait is over. -/
def ready (g : Gateway σ) (watch : Watch) (fault : Option IoFault) : Gateway σ :=
  match g.waits.find? (·.watch == watch) with
  | none => g
  | some wait =>
    let g := { g with waits := g.waits.filter (·.watch != watch) }
    if g.aborted.contains watch then g
    else match g.connections.get? wait.id with
      | none => g
      | some c =>
        let (verdict, c) := handle g.backend.route wait.side fault (c.endWatch wait.side)
        let g := { g with connections := g.connections.modify wait.id fun _ => c }
        match verdict with
        | .continue => g.watch wait.id
        | .close termination => g.close wait.id termination

/-- What arrives at a connection's socket. -/
def deliver (side : Side) (bytes : Bytes) (c : Connection σ) : Connection σ :=
  match side with
  | .client => { c with fromClient := c.fromClient.arrive bytes }
  | .peer => { c with peer := c.peer.map (·.arrive bytes) }

/-- What a connection's socket meets once nothing waits. -/
def endSide (side : Side) (tail : Tail) (c : Connection σ) : Connection σ :=
  match side with
  | .client => { c with fromClient := { c.fromClient with tail } }
  | .peer => { c with peer := c.peer.map (·.withTail tail) }

/-- The gateway after an event. -/
def step (g : Gateway σ) : Event → Gateway σ
  | .accept client => g.accept client
  | .ready watch fault => g.ready watch fault
  | .arrive id side bytes =>
    { g with connections := g.connections.modify id (deliver side bytes) }
  | .hangUp id side tail =>
    { g with connections := g.connections.modify id (endSide side tail) }

/-- The gateway after events, one after the other. -/
def run (g : Gateway σ) (events : List Event) : Gateway σ :=
  events.foldl step g

/-- Closes every connection, in the order of their slots, and gives everything up. -/
def shutdown (g : Gateway σ) : Gateway σ :=
  let g := g.connections.ids.foldl (fun g id => g.close id (.close .goingAway "Shutting down")) g
  { g with waits := [], backend := g.backend.reset }

end Gateway

end WsRelay
