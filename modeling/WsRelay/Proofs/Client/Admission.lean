import WsRelay.Proofs.Client.Lines
import WsRelay.Proofs.Connection.Coherence
import WsRelay.Proofs.Peer.Addresses
/-! # Who is admitted

An `Opening` is what a client sends to ask for an upgrade: a request line, header lines and an empty
line; and what it meets: the backend, and what its peer's and its own sockets do.

However the bytes are cut, the client is admitted under six conditions (`Opening.Admitted`), and the
first that fails decides what becomes of the connection (`Opening.Refused`, `opening_outcome`). -/

namespace WsRelay

/-- Whatever is wrong with the address of a peer, the client is told the same. -/
theorem Route.endpoint_error {σ : Type} {route : Route σ} {e : Error}
    (h : route.endpoint = .error e) : e.termination = .http "500 Peer connection failed" := by
  obtain ⟨message, rfl⟩ := endpoint_error_eq h
  rfl

namespace Connection

variable {σ : Type} (router : Router σ)

/-! ### The peer -/

/-- A peer is known for a connection, and it can be connected to. -/
def PeerReached (router : Router σ) (dial : Endpoint → Except IoFault PeerSocket)
    (enquiry : Enquiry) : Prop :=
  ∃ route address socket, router enquiry = some route ∧ route.endpoint = .ok address ∧
    dial address = .ok socket

/-- The peer is reached, or the client is told that it is not. -/
theorem connectPeer_eq (c : Connection σ) :
    (PeerReached router c.dial c.enquiry →
        ∃ route socket, c.connectPeer router = .ok (route, socket)) ∧
      (¬ PeerReached router c.dial c.enquiry → ∃ e, c.connectPeer router = .error e ∧
        e.termination = .http "500 Peer connection failed") := by
  unfold connectPeer
  refine ⟨?_, fun h => ?_⟩
  · rintro ⟨route, address, socket, hroute, haddress, hsocket⟩
    rw [hroute]
    dsimp only
    rw [haddress]
    dsimp only
    rw [hsocket]
    exact ⟨_, _, rfl⟩
  · cases hroute : router c.enquiry with
    | none => exact ⟨_, rfl, rfl⟩
    | some route =>
        dsimp only
        cases haddress : route.endpoint with
        | error e => exact ⟨e, rfl, Route.endpoint_error haddress⟩
        | ok address =>
            dsimp only
            cases hsocket : c.dial address with
            | error fault => exact ⟨_, rfl, rfl⟩
            | ok socket => exact absurd ⟨route, address, socket, hroute, haddress, hsocket⟩ h

/-- The peer that is reached is the one that the backend names. -/
theorem connectPeer_route {c : Connection σ} {route : Route σ} {socket : PeerSocket}
    (h : c.connectPeer router = .ok (route, socket)) : router c.enquiry = some route := by
  unfold connectPeer at h
  split at h
  · cases h
  · next hroute =>
    split at h
    · cases h
    · split at h
      · cases h
      · cases h
        exact hroute

end Connection

/-! ### The opening -/

open Handshake Connection

/-- A request for an upgrade, line by line, and what it meets. -/
structure Opening (σ : Type) where
  id : SlotId
  /-- The client's address. -/
  address : String
  /-- How the backend answers. -/
  router : Router σ
  /-- What comes of connecting to an address. -/
  dial : Endpoint → Except IoFault PeerSocket
  /-- Whether the client's socket takes what is offered to it as number `n`. -/
  accepts : Nat → Bool
  /-- The request line. -/
  line : Bytes
  /-- The header lines. -/
  headers : List Bytes
  /-- A line ends where its line end first stands, and fits into the buffer with it. -/
  fits : ∀ l ∈ line :: headers,
    Bytes.indexOf? Bytes.lineEnd l = none ∧ l.length + 2 ≤ bufferCapacity
  /-- The empty line comes after the header lines. -/
  nonempty : ∀ l ∈ headers, l ≠ []

namespace Opening

variable {σ : Type} (o : Opening σ)

/-- The lines, with the empty line at their end. -/
def lines : List Bytes :=
  o.line :: (o.headers ++ [[]])

/-- The request on the wire. -/
def stream : Bytes :=
  o.lines.flatMap (· ++ Bytes.lineEnd)

/-- The fields of the header lines. -/
def fields : List (String × String) :=
  o.headers.filterMap field?

/-- What the backend is told if the request line asks for `path`. -/
def enquiry (path : Bytes) : Enquiry :=
  let request := Request.collect { path := Utf8.decodeLossy path } o.fields
  { id := o.id
    client := o.address
    path := Utf8.decodeLossy path
    protocols := request.protocols
    headers := request.headers }

/-- The connection when it is accepted. -/
def start (toPeer : Outlet Bytes) : Connection σ :=
  fresh o.id o.address o.dial { accepts := o.accepts } toPeer

/-- **The conditions of an upgrade**, in the order in which they are looked at. -/
structure Admitted (path : Bytes) : Prop where
  line : AsksFor path o.line
  headers : ∀ l ∈ o.headers, refusal? l = none
  version : SpeaksVersion o.fields
  upgrade : WantsUpgrade o.fields
  peer : PeerReached o.router o.dial (o.enquiry path)
  told : o.accepts 0 = true

/-- What the lines lead to if each arrives as a whole. -/
def heard (toPeer : Outlet Bytes) : Verdict × Connection σ :=
  (hearClient o.router).takeAll (o.lines.map (· ++ Bytes.lineEnd)) (o.start toPeer)

/-- The connection when the empty line has been read and no header line was refused. -/
def collected (toPeer : Outlet Bytes) (path : Bytes) : Connection σ :=
  (o.start toPeer).collecting (Request.collect { path := Utf8.decodeLossy path } o.fields)

variable {o} {path : Bytes}

theorem hear_line (toPeer : Outlet Bytes) :
    hearClient o.router (o.line ++ Bytes.lineEnd) (o.start toPeer) =
      afterLine ((o.start toPeer).takeLine o.router o.line) := by
  obtain ⟨hline, hlen⟩ := o.fits o.line List.mem_cons_self
  exact hearClient_line o.router o.line (.inl rfl) rfl rfl hline hlen

theorem heard_of_asksFor (hline : AsksFor path o.line) (toPeer : Outlet Bytes) :
    o.heard toPeer =
      (hearClient o.router).takeAll ((o.headers ++ [[]]).map (· ++ Bytes.lineEnd))
        ((o.start toPeer).collecting { path := Utf8.decodeLossy path }) := by
  have hear := hear_line (o := o) toPeer
  rw [takeLine_of_path? rfl (path?_of_asksFor hline)] at hear
  exact Reader.takeAll_continue hear

/-- If no header line is refused, the upgrade is asked for. -/
theorem heard_of_headers (hline : AsksFor path o.line)
    (hheaders : ∀ l ∈ o.headers, refusal? l = none) (toPeer : Outlet Bytes) :
    o.heard toPeer = afterLine ((o.collected toPeer path).upgrade o.router) := by
  rw [heard_of_asksFor hline]
  exact (hearClient_headers o.router rfl rfl o.headers
    (fun l hl => o.fits l (List.mem_cons_of_mem _ hl)) o.nonempty _).2
    (List.findSome?_eq_none_iff.mpr hheaders)

theorem enquiry_collected (toPeer : Outlet Bytes) :
    (o.collected toPeer path).enquiry = o.enquiry path := by
  have hpath : (o.collected toPeer path).request.path = Utf8.decodeLossy path :=
    congrArg Prod.fst (Request.essence_collect { path := Utf8.decodeLossy path } o.fields)
  rw [Connection.enquiry, hpath]
  rfl

/-- The upgrade of a connection whose request is granted and whose peer is reached: the client is
told a key and the offer that the backend has chosen. -/
theorem upgrade_granted (hversion : SpeaksVersion o.fields) (hupgrade : WantsUpgrade o.fields)
    (hpeer : PeerReached o.router o.dial (o.enquiry path)) (toPeer : Outlet Bytes) :
    ∃ key route socket, o.router (o.enquiry path) = some route ∧
      (o.collected toPeer path).upgrade o.router =
        match (o.start toPeer).toClient.offer (.switching (acceptKey key)
            (route.protocolName? (o.enquiry path).protocols)) with
        | (false, outlet) =>
          (.error (.io .brokenPipe), { o.collected toPeer path with toClient := outlet })
        | (true, outlet) =>
          (.ok (), { o.collected toPeer path with
            toClient := outlet
            peer := some socket
            route := some route
            phase := .relaying }) := by
  obtain ⟨key, hgrant⟩ :=
    (Request.grant_collect (Utf8.decodeLossy path) o.fields).1 hversion hupgrade
  rw [← enquiry_collected toPeer] at hpeer
  obtain ⟨route, socket, hconnect⟩ := (connectPeer_eq o.router (o.collected toPeer path)).1 hpeer
  have hroute := connectPeer_route o.router hconnect
  rw [enquiry_collected toPeer] at hroute
  refine ⟨key, route, socket, hroute, ?_⟩
  have hgrant : (o.collected toPeer path).request.grant = .ok key := hgrant
  rw [Connection.upgrade, hgrant]
  dsimp only
  rw [hconnect]
  rfl

/-- An admitted client is told so, and relaying begins. -/
theorem heard_of_granted (h : o.Admitted path) (toPeer : Outlet Bytes) :
    ∃ d key route, o.heard toPeer = (.continue, d) ∧ d.phase = .relaying ∧
      o.router (o.enquiry path) = some route ∧
      d.toClient.taken =
        [.switching (acceptKey key) (route.protocolName? (o.enquiry path).protocols)] := by
  obtain ⟨key, route, socket, hroute, hup⟩ := upgrade_granted h.version h.upgrade h.peer toPeer
  have hoffer (reply : Reply) : (o.start toPeer).toClient.offer reply =
      (true, { accepts := o.accepts, offered := 1, latest := [reply] }) := if_pos h.told
  rw [heard_of_headers h.line h.headers, hup, hoffer]
  exact ⟨_, key, route, rfl, rfl, hroute, rfl⟩

/-- However a request is cut into arrivals, it comes to the same as line by line. -/
theorem outline_heard (toPeer : Outlet Bytes) {pieces : List Bytes}
    (h : pieces.flatten = o.stream) :
    outline ((hearClient o.router).takeAll pieces (o.start toPeer)) = outline (o.heard toPeer) := by
  have hstart : (o.start toPeer).clientBuffer.length < bufferCapacity := Nat.zero_lt_succ _
  rw [outline_takeAll _ hstart rfl, Opening.heard, outline_takeAll _ hstart rfl, h,
    Opening.stream, List.flatMap_def]

end Opening

end WsRelay
