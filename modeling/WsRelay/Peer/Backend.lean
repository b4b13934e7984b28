import WsRelay.Config.Settings
import WsRelay.Framing.Table
import WsRelay.Handshake
import WsRelay.Peer.Route
import WsRelay.Slots
/-! # Finding the peer of a connection

A backend is asked for the peer of every connection that is to be upgraded; a gateway knows no more
of it than its answers (`Backend`).  There is one backend, `defaultpeer`, which sends every
connection to the same peer (`SinglePeer`); its options say where that is, which subprotocol it
speaks and how its bytes are framed. -/

namespace WsRelay

/-- What a backend is told about a connection. -/
structure Enquiry where
  id : SlotId
  /-- The client's address. -/
  client : String
  path : String
  /-- The subprotocols on offer. -/
  protocols : List String
  headers : List Handshake.Header
deriving DecidableEq, Repr

/-- A backend, as far as a gateway knows it. -/
structure Backend (σ : Type) where
  /-- The peer of a connection; `none` refuses it one. -/
  route : Enquiry → Option (Route σ)
  /-- The same once the backend has given up what it holds. -/
  routeAtRest : Enquiry → Option (Route σ)

/-- The backend once it has given up what it holds, at the end of the relay's work. -/
def Backend.reset {σ : Type} (b : Backend σ) : Backend σ :=
  { b with route := b.routeAtRest }

/-- The backend that has one peer for every connection. -/
structure SinglePeer (σ : Type) where
  peer : Route σ
  /-- The subprotocol to accept; `*` accepts the first offer. -/
  protocol : Option String := none
  framings : FramingTable σ

namespace SinglePeer

variable {σ : Type}

/-- The peer before any option is set. -/
def startPeer : Route σ :=
  { host := "tcp://localhost", port := some "5900", framing := ⟨"auto", Framing.auto⟩ }

/-- The backend before any option is set. -/
def new (framings : FramingTable σ) : SinglePeer σ :=
  { peer := startPeer, framings }

/-- The backend with an option set. -/
def set (b : SinglePeer σ) (key value : String) : Except Error (SinglePeer σ) :=
  if key = "host" then .ok { b with peer := { b.peer with host := value, transport := .detect } }
  else if key = "port" then .ok { b with peer := { b.peer with port := some value } }
  else if key = "protocol" then .ok { b with protocol := some value }
  else if key = "framing" then
    .ok { b with peer := { b.peer with framing := b.framings.find (some value) } }
  else if key = "framing-config" then
    .ok { b with peer := { b.peer with framingConfig := value } }
  else .error (.config ("Unknown " ++ defaultBackend ++ " option '" ++ key ++ "'"))

/-- Which offer is accepted, if any. -/
def chooseOffer? (b : SinglePeer σ) (offers : List String) : Option Nat :=
  match b.protocol with
  | none => none
  | some wanted =>
    if wanted = "*" ∧ offers ≠ [] then some 0
    else offers.findIdx? (Text.sameIgnoringCase · wanted)

/-- The peer of a connection. -/
def route (b : SinglePeer σ) (request : Enquiry) : Option (Route σ) :=
  some { b.peer with protocol := b.chooseOffer? request.protocols }

/-- Back to the peer before any option was set, at the end of the relay's work. -/
def reset (b : SinglePeer σ) : SinglePeer σ :=
  { b with peer := startPeer, protocol := none }

/-- What a gateway knows of the backend. -/
def toBackend (b : SinglePeer σ) : Backend σ :=
  { route := b.route, routeAtRest := b.reset.route }

/-- The backend the settings name, with its options set in order. -/
def ofSettings (settings : Settings) (framings : FramingTable σ) :
    Except Error (SinglePeer σ) :=
  if settings.backend = defaultBackend then
    settings.options.foldlM (fun b (key, value) => b.set key value) (new framings)
  else .error (.unknownBackend settings.backend)

end SinglePeer

end WsRelay
