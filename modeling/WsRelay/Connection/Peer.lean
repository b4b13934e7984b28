import WsRelay.Connection.Basic
import WsRelay.Loop
/-! # The peer's side of a connection

When the peer's socket is readable, what waits there is read into the peer's buffer, as much as
there is room for at a time.  After each read the framing cuts units off the front of the buffer
until it finds no complete one, and every unit that is not discarded is sent to the client as one
frame (`forwardStep`).  This goes on until nothing waits, or until the connection is to be closed
(`readPeer`).

A unit that cannot be sent stays in the buffer.  A datagram is taken whole or not at all: one that
leaves no room behind it may have lost its end, and closes the connection. -/

namespace WsRelay.Connection

variable {σ : Type}

/-- Why a peer's buffer is full without a unit in it. -/
def peerOverflow : Error := .bufferOverflow .peer bufferCapacity

/-! ### Units -/

/-- The connection with the first `n` bytes of the peer used up. -/
def dropUnit (n : Nat) (c : Connection σ) : Connection σ :=
  { c with peerBuffer := c.peerBuffer.drop n }

/-- Asks the framing for the unit at the front of the peer's buffer, and uses it.  `lastRead` is
how many bytes the last read brought. -/
def forwardStep (lastRead : Nat) (c : Connection σ) :
    Step (Connection σ) (Except Error Unit × Connection σ) :=
  match c.route with
  | none => .done (.ok (), c)
  | some route =>
    if c.peerBuffer.isEmpty then .done (.ok (), c)
    else
      let buffered := c.peerBuffer.length
      match route.framing.rule c.peerBuffer (min lastRead buffered) route.framingConfig c.memory with
      | (.error cause, memory) =>
        .done (.error (.framing route.framing.name cause), { c with memory })
      | (.ok cut, memory) =>
        let c := { c with memory }
        if cut.length = 0 then .done (.ok (), c)
        else if buffered < cut.length then
          .done (.error (.framing route.framing.name (.overrun cut.length buffered)), c)
        else match cut.kind.opcode? with
          | none => .again (c.dropUnit cut.length)
          | some opcode =>
            match c.toClient.offer (.frame opcode (c.peerBuffer.take cut.length)) with
            | (true, outlet) => .again ({ c with toClient := outlet }.dropUnit cut.length)
            | (false, outlet) => .done (.error (.io .brokenPipe), { c with toClient := outlet })

/-- Every unit shortens the peer's buffer. -/
theorem forwardStep_descends (lastRead : Nat) (c d : Connection σ)
    (h : c.forwardStep lastRead = .again d) : d.peerBuffer.length < c.peerBuffer.length := by
  unfold forwardStep at h
  split at h
  · cases h
  · split at h
    · cases h
    · next hne =>
      have hpos : c.peerBuffer.length ≠ 0 := fun h0 =>
        hne (by simp [List.length_eq_zero_iff.mp h0])
      dsimp only at h
      split at h
      · cases h
      · split at h
        · cases h
        · split at h
          · cases h
          · split at h
            · cases h
              simp only [dropUnit, List.length_drop]
              omega
            · split at h
              · cases h
                simp only [dropUnit, List.length_drop]
                omega
              · cases h

/-- Sends the client every complete unit of the peer's buffer. -/
def forward (lastRead : Nat) : Connection σ → Except Error Unit × Connection σ :=
  Loop.run (·.peerBuffer.length) (forwardStep lastRead) (forwardStep_descends lastRead)

/-! ### Reading -/

/-- What `bytes` read from the peer lead to; `none` if reading is to go on. -/
def takePeerBytes (bytes : Bytes) (c : Connection σ) : Option Error × Connection σ :=
  match forward bytes.length { c with peerBuffer := c.peerBuffer ++ bytes } with
  | (.error e, c) => (some e, c)
  | (.ok (), c) =>
    (if c.peerBuffer.length = bufferCapacity then some peerOverflow else none, c)

/-- One read from the peer, and what it leads to.  The state is the peer's socket and the
connection. -/
def peerStep (s : PeerSocket × Connection σ) :
    Step (PeerSocket × Connection σ) (Outcome × PeerSocket × Connection σ) :=
  let (socket, c) := s
  let room := bufferCapacity - c.peerBuffer.length
  match socket.read room with
  | (.nothing, socket) => .done (.ok .continue, socket, c)
  | (.failed fault, socket) => .done (.error (.peerIo fault), socket, c)
  | (.data bytes, rest) =>
    if bytes = [] ∧ ¬ socket.isDatagram then .done (.error .peerClosed, rest, c)
    else if bytes.length = room ∧ socket.isDatagram then .done (.error peerOverflow, rest, c)
    else match takePeerBytes bytes c with
      | (some e, c) => .done (.error e, rest, c)
      | (none, c) => .again (rest, c)

/-- Every read takes a byte or a datagram. -/
theorem peerStep_descends (s t : PeerSocket × Connection σ) (h : peerStep s = .again t) :
    t.1.pending < s.1.pending := by
  obtain ⟨socket, c⟩ := s
  simp only [peerStep] at h
  split at h
  · cases h
  · cases h
  · next hr =>
    split at h
    · cases h
    · next hne =>
      split at h
      · cases h
      · split at h
        · cases h
        · cases h
          refine PeerSocket.read_data_lt hr ?_
          by_cases hd : socket.isDatagram = true
          · exact Or.inr hd
          · exact Or.inl fun h0 => hne ⟨h0, hd⟩

/-- Reads from the peer until nothing waits or the connection is to be closed. -/
def takeFromPeer : PeerSocket × Connection σ → Outcome × PeerSocket × Connection σ :=
  Loop.run (·.1.pending) peerStep peerStep_descends

/-- What happens when the peer's socket is readable. -/
def readPeer (c : Connection σ) : Verdict × Connection σ :=
  match c.peer with
  | none => (.continue, c)
  | some socket =>
    let (outcome, socket, c) := takeFromPeer (socket, c)
    (Outcome.verdict outcome, { c with peer := some socket })

end WsRelay.Connection
