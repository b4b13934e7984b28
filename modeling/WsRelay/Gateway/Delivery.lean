import WsRelay.Gateway
/-! # Between a gateway and real sockets

A program that has real sockets connects to a peer before the connection asks for it.  It finds out
what is going to be asked for by letting the connection do its work as if nothing could be
connected to (`Connection.target?`).

The connections of a gateway keep what they have sent in their outlets.  The program takes it out
(`deliveries`) and goes on with a gateway that has forgotten it, and has forgotten the connections
that were closed and the waits that were called off (`delivered`). -/

namespace WsRelay.Connection

variable {σ : Type}

/-- What becomes of a connection that is not connected to a peer. -/
def unconnected : Verdict :=
  .close (Error.noPeer "").termination

/-- The address that is connected to when what waits from the client is read. -/
def target? (router : Router σ) (c : Connection σ) : Option Endpoint :=
  let (verdict, after) := { c with dial := fun _ => .error .unsupported }.readClient router
  if verdict = unconnected then (router after.enquiry).bind (·.endpoint.toOption) else none

end WsRelay.Connection

namespace WsRelay

/-- What a connection has sent since the last delivery. -/
structure Delivery where
  id : SlotId
  toClient : List Reply
  toPeer : List Bytes
  /-- The connection was closed. -/
  last : Bool
deriving DecidableEq, Repr

namespace Gateway

variable {σ : Type}

/-- What one connection has sent. -/
def deliveryOf (last : Bool) (c : Connection σ) : Delivery :=
  ⟨c.id, c.toClient.taken, c.toPeer.taken, last⟩

/-- What every connection has sent. -/
def deliveries (g : Gateway σ) : List Delivery :=
  g.finished.map (deliveryOf true)
    ++ (g.connections.ids.filterMap g.connections.get?).map (deliveryOf false)

/-- The connection with its outlets emptied. -/
def emptied (c : Connection σ) : Connection σ :=
  { c with
    toClient := { c.toClient with latest := [] }
    toPeer := { c.toPeer with latest := [] } }

/-- The wait can still lead to something. -/
def isLive (g : Gateway σ) (wait : Wait) : Bool :=
  !g.aborted.contains wait.watch && (g.connections.get? wait.id).isSome

/-- The gateway after a delivery. -/
def delivered (g : Gateway σ) : Gateway σ :=
  { g with
    connections := g.connections.ids.foldl (fun s id => s.modify id emptied) g.connections
    waits := g.waits.filter g.isLive
    aborted := []
    finished := [] }

end Gateway

end WsRelay
