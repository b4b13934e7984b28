import WsRelay.Connection.Basic
import WsRelay.Handshake
import WsRelay.Loop
/-! # The client's side of a connection

When the client's socket is readable, what waits there is read into the client's buffer, as much
as there is room for at a time, and used as far as possible: lines until the upgrade, frames from
then on (`useStep`).  This goes on until nothing waits, or until the connection is to be closed
(`readClient`).

A line is used up even if it is refused; a frame that is refused or cannot be passed on stays in
the buffer. -/

namespace WsRelay.Connection

variable {σ : Type}

/-- How a backend answers. -/
abbrev Router (σ : Type) := Enquiry → Option (Route σ)

/-- Why a client's buffer is full without a line in it. -/
def clientOverflow : Error := .bufferOverflow .client bufferCapacity

/-! ### The upgrade -/

/-- What the backend is told. -/
def enquiry (c : Connection σ) : Enquiry :=
  { id := c.id
    client := c.address
    path := c.request.path
    protocols := c.request.protocols
    headers := c.request.headers }

/-- The peer of the connection and a socket connected to it. -/
def connectPeer (router : Router σ) (c : Connection σ) :
    Except Error (Route σ × PeerSocket) :=
  match router c.enquiry with
  | none => .error (.noPeer c.request.path)
  | some route =>
    match route.endpoint with
    | .error e => .error e
    | .ok address =>
      match c.dial address with
      | .error fault => .error (.peerConnect address.display fault.message)
      | .ok socket => .ok (route, socket)

/-- Grants the client's request: finds its peer, connects to it, and answers. -/
def upgrade (router : Router σ) (c : Connection σ) : Except Error Unit × Connection σ :=
  match c.request.grant with
  | .error e => (.error e, c)
  | .ok key =>
    match c.connectPeer router with
    | .error e => (.error e, c)
    | .ok (route, socket) =>
      match c.toClient.offer (.switching (Handshake.acceptKey key)
          (route.protocolName? c.request.protocols)) with
      | (false, outlet) => (.error (.io .brokenPipe), { c with toClient := outlet })
      | (true, outlet) =>
        (.ok (), { c with
          toClient := outlet, peer := some socket, route := some route, phase := .relaying })

@[simp] theorem upgrade_clientBuffer (router : Router σ) (c : Connection σ) :
    (c.upgrade router).2.clientBuffer = c.clientBuffer := by
  unfold upgrade
  split
  · rfl
  · split
    · rfl
    · split <;> rfl

/-! ### Lines -/

/-- One line of the opening handshake. -/
def takeLine (router : Router σ) (line : Bytes) (c : Connection σ) :
    Except Error Unit × Connection σ :=
  match c.phase with
  | .requestLine =>
    match Handshake.path? line with
    | .error e => (.error e, c)
    | .ok path => (.ok (), { c with request := { path }, phase := .headers })
  | _ =>
    match c.request.feed line with
    | .error e => (.error e, c)
    | .ok (.header request) => (.ok (), { c with request })
    | .ok .finish => c.upgrade router

@[simp] theorem takeLine_clientBuffer (router : Router σ) (line : Bytes)
    (c : Connection σ) : (c.takeLine router line).2.clientBuffer = c.clientBuffer := by
  unfold takeLine
  split
  · split <;> rfl
  · split
    · rfl
    · rfl
    · exact upgrade_clientBuffer router c

/-- Uses the line at the front of the client's buffer. -/
def lineStep (router : Router σ) (c : Connection σ) :
    Step (Connection σ) (Outcome × Connection σ) :=
  match Bytes.splitLine? c.clientBuffer with
  | none => .done (.ok .continue, c)
  | some (line, rest) =>
    match takeLine router line { c with clientBuffer := rest } with
    | (.error e, c) => .done (.error e, c)
    | (.ok (), c) => .again c

/-! ### Frames -/

/-- What a client's frame asks for. -/
inductive Intent where
  /-- The payload is for the peer. -/
  | forward
  /-- The payload is to be sent back. -/
  | pong
  /-- Nothing is to be done. -/
  | ignore
  /-- The connection is to be closed. -/
  | close
deriving DecidableEq, Repr

/-- Why a message in several frames is refused. -/
def fragmented : Error :=
  .protocolError .unsupported "Fragmented messages are not supported"

/-- What a frame asks for, if it is one a client may send. -/
def intent (header : Frame.Header) : Except Error Intent :=
  if header.mask.isNone then .error (.protocolError .protocolError "Unmasked client frame")
  else match Opcode.ofValue? header.opcode with
    | none => .error (.protocolError .protocolError "Invalid opcode")
    | some opcode =>
      if header.fin then
        match opcode with
        | .continuation => .error fragmented
        | .text | .binary => .ok .forward
        | .ping => .ok .pong
        | .pong => .ok .ignore
        | .close => .ok .close
      else .error fragmented

/-- Passes a payload on to the peer. -/
def sendToPeer (payload : Bytes) (c : Connection σ) : Except Error Unit × Connection σ :=
  match c.peer with
  | none => (.error .peerClosed, c)
  | some socket =>
    match socket.send payload c.toPeer with
    | (.ok (), outlet) => (.ok (), { c with toPeer := outlet })
    | (.error fault, outlet) => (.error (.peerIo fault), { c with toPeer := outlet })

/-- Does what a frame with this payload asks for: whether frames are to be read on, and the
connection after it. -/
def act (payload : Bytes) (c : Connection σ) : Intent → Outcome × Connection σ
  | .forward =>
    match c.sendToPeer payload with
    | (.ok (), c) => (.ok .continue, c)
    | (.error e, c) => (.error e, c)
  | .pong =>
    match c.toClient.offer (.frame .pong payload) with
    | (true, outlet) => (.ok .continue, { c with toClient := outlet })
    | (false, outlet) =>
      (.ok (.close (.close .unexpected "Failed to send pong")), { c with toClient := outlet })
  | .ignore => (.ok .continue, c)
  | .close => (.ok (.close (.close .normal "Client requested termination")), c)

/-- Uses up the frame at the front of the client's buffer. -/
def dropFrame (length : Nat) (c : Connection σ) : Connection σ :=
  { c with clientBuffer := c.clientBuffer.drop length }

/-- Uses the frame at the front of the client's buffer. -/
def frameStep (c : Connection σ) : Step (Connection σ) (Outcome × Connection σ) :=
  match Frame.Header.parse? c.clientBuffer with
  | none => .done (.ok .continue, c)
  | some header =>
    if bufferCapacity < header.frameLength then
      .done (.error (.protocolError .tooLarge "Frame exceeds receive buffer"), c)
    else match Frame.decode? c.clientBuffer with
      | none => .done (.ok .continue, c)
      | some (frame, buffer) =>
        let c := { c with clientBuffer := buffer }
        match intent frame.header with
        | .error e => .done (.error e, c)
        | .ok intent =>
          match act frame.payload c intent with
          | (.error e, c) => .done (.error e, c)
          | (.ok .continue, c) => .again (c.dropFrame frame.length)
          | (.ok (.close termination), c) =>
            .done (.ok (.close termination),
              if intent = .close then c.dropFrame frame.length else c)

@[simp] theorem sendToPeer_clientBuffer (payload : Bytes) (c : Connection σ) :
    (c.sendToPeer payload).2.clientBuffer = c.clientBuffer := by
  unfold sendToPeer
  split
  · rfl
  · split <;> rfl

@[simp] theorem act_clientBuffer (payload : Bytes) (c : Connection σ) (i : Intent) :
    (act payload c i).2.clientBuffer = c.clientBuffer := by
  cases i
  · simp only [act]
    split
    · next h => simpa [h] using sendToPeer_clientBuffer payload c
    · next h => simpa [h] using sendToPeer_clientBuffer payload c
  · simp only [act]
    split <;> rfl
  · rfl
  · rfl

/-! ### Using what was read -/

/-- One line or one frame. -/
def useStep (router : Router σ) (c : Connection σ) :
    Step (Connection σ) (Outcome × Connection σ) :=
  match c.phase with
  | .requestLine | .headers => c.lineStep router
  | .relaying => c.frameStep
  | .closed => .done (.ok .continue, c)

theorem lineStep_descends (router : Router σ) (c d : Connection σ)
    (h : c.lineStep router = .again d) : d.clientBuffer.length < c.clientBuffer.length := by
  unfold lineStep at h
  split at h
  · cases h
  · next line rest hs =>
    have hlen := Bytes.splitLine?_length hs
    split at h
    · cases h
    · next ht =>
      cases h
      have := takeLine_clientBuffer router line { c with clientBuffer := rest }
      rw [ht] at this
      dsimp only at this
      rw [this]
      omega

theorem frameStep_descends (c d : Connection σ) (h : c.frameStep = .again d) :
    d.clientBuffer.length < c.clientBuffer.length := by
  unfold frameStep at h
  split at h
  · cases h
  · split at h
    · cases h
    · split at h
      · cases h
      · next frame buffer hd =>
        have hlen := Frame.decode?_length hd
        dsimp only at h
        split at h
        · cases h
        · next i _ =>
          split at h
          · cases h
          · next e ha =>
            cases h
            have := act_clientBuffer frame.payload { c with clientBuffer := buffer } i
            rw [ha] at this
            dsimp only at this
            simp only [dropFrame, List.length_drop, this]
            omega
          · cases h

/-- Every line and every frame shortens the client's buffer. -/
theorem useStep_descends (router : Router σ) (c d : Connection σ)
    (h : c.useStep router = .again d) : d.clientBuffer.length < c.clientBuffer.length := by
  unfold useStep at h
  split at h
  · exact lineStep_descends router c d h
  · exact lineStep_descends router c d h
  · exact frameStep_descends c d h
  · cases h

/-- Uses the client's buffer as far as the phase allows. -/
def useClientBuffer (router : Router σ) : Connection σ → Outcome × Connection σ :=
  Loop.run (·.clientBuffer.length) (useStep router) (useStep_descends router)

/-! ### Reading -/

/-- One read from the client, and what it leads to.  The state is what waits to be read, and the
connection. -/
def clientStep (router : Router σ) (s : Inlet × Connection σ) :
    Step (Inlet × Connection σ) (Outcome × Inlet × Connection σ) :=
  let (inlet, c) := s
  match inlet.read (bufferCapacity - c.clientBuffer.length) with
  | (.nothing, inlet) => .done (.ok .continue, inlet, c)
  | (.failed fault, inlet) => .done (.error (.io fault), inlet, c)
  | (.data [], inlet) => .done (.error .clientClosed, inlet, c)
  | (.data (b :: bytes), inlet) =>
    match useClientBuffer router { c with clientBuffer := c.clientBuffer ++ b :: bytes } with
    | (.ok .continue, c) =>
      if c.clientBuffer.length = bufferCapacity then .done (.error clientOverflow, inlet, c)
      else .again (inlet, c)
    | (outcome, c) => .done (outcome, inlet, c)

theorem clientStep_descends (router : Router σ) (s t : Inlet × Connection σ)
    (h : clientStep router s = .again t) : t.1.waiting.length < s.1.waiting.length := by
  obtain ⟨inlet, c⟩ := s
  simp only [clientStep] at h
  split at h
  · cases h
  · cases h
  · cases h
  · next hr =>
    split at h
    · split at h
      · cases h
      · cases h
        exact Inlet.read_data_lt hr (List.cons_ne_nil _ _)
    · cases h

/-- Reads from the client until nothing waits or the connection is to be closed. -/
def takeFromClient (router : Router σ) : Inlet × Connection σ → Outcome × Inlet × Connection σ :=
  Loop.run (·.1.waiting.length) (clientStep router) (clientStep_descends router)

/-- What happens when the client's socket is readable. -/
def readClient (router : Router σ) (c : Connection σ) : Verdict × Connection σ :=
  let (outcome, inlet, c) := takeFromClient router (c.fromClient, c)
  (Outcome.verdict outcome, { c with fromClient := inlet })

end WsRelay.Connection
