import WsRelay.Error
/-! # Sockets

What the relay sees of a socket.  To read, there is what waits to be read (`Inlet`), and what a
read meets once nothing waits.  To write, there is an `Outlet`: it takes each item whole or not at
all, and keeps what it took.

A peer's socket is a stream, a socket for datagrams, or one end of a named pipe. -/

namespace WsRelay

/-- What a read meets once nothing waits to be read. -/
inductive Tail where
  /-- More may come. -/
  | more
  /-- The other side has ended its stream. -/
  | ended
  | failed (fault : IoFault)
deriving DecidableEq, Repr

/-- The outcome of a read. -/
inductive Read where
  /-- Bytes; none at all is the end of a stream, or an empty datagram. -/
  | data (bytes : Bytes)
  /-- There is nothing to read now. -/
  | nothing
  | failed (fault : IoFault)
deriving DecidableEq, Repr

/-- The read that meets the end of what waits. -/
def Tail.read : Tail → Read
  | more => .nothing
  | ended => .data []
  | failed fault => .failed fault

/-- The reading half of a stream. -/
structure Inlet where
  waiting : Bytes := []
  tail : Tail := .more
deriving DecidableEq, Repr

namespace Inlet

/-- With more bytes waiting. -/
def arrive (i : Inlet) (bytes : Bytes) : Inlet :=
  { i with waiting := i.waiting ++ bytes }

/-- Reads what waits, at most `room` bytes. -/
def read (i : Inlet) (room : Nat) : Read × Inlet :=
  if i.waiting.isEmpty then (i.tail.read, i)
  else (.data (i.waiting.take room), { i with waiting := i.waiting.drop room })

/-- A read that brings bytes leaves fewer waiting. -/
theorem read_data_lt {i rest : Inlet} {room : Nat} {bytes : Bytes}
    (h : i.read room = (.data bytes, rest)) (hb : bytes ≠ []) :
    rest.waiting.length < i.waiting.length := by
  unfold read at h
  split at h
  · obtain ⟨ht, -⟩ := Prod.mk.inj h
    cases hi : i.tail <;> simp [Tail.read, hi] at ht
    exact absurd ht hb
  · next hw =>
    obtain ⟨ht, rfl⟩ := Prod.mk.inj h
    obtain rfl := Read.data.inj ht
    have hroom : room ≠ 0 := fun h0 => hb (by simp [h0])
    have : i.waiting.length ≠ 0 := fun h0 => hw (by simp [List.length_eq_zero_iff.mp h0])
    simp only [List.length_drop]
    omega

end Inlet

/-- The writing half of a socket. -/
structure Outlet (α : Type) where
  /-- Whether the item offered as number `n`, counted from 0, is taken. -/
  accepts : Nat → Bool := fun _ => true
  /-- How many items have been offered. -/
  offered : Nat := 0
  /-- The items taken, the last one first. -/
  latest : List α := []

namespace Outlet

variable {α : Type}

/-- The items taken, in order. -/
def taken (o : Outlet α) : List α :=
  o.latest.reverse

/-- Notes an item that is taken without being offered. -/
def note (o : Outlet α) (item : α) : Outlet α :=
  { o with latest := item :: o.latest }

/-- Offers an item: whether it is taken, and the outlet after that. -/
def offer (o : Outlet α) (item : α) : Bool × Outlet α :=
  let next := { o with offered := o.offered + 1 }
  if o.accepts o.offered then (true, next.note item) else (false, next)

@[simp] theorem taken_note (o : Outlet α) (item : α) :
    (o.note item).taken = o.taken ++ [item] := by
  simp [note, taken]

/-- An item that is taken comes after all others; one that is refused leaves no trace. -/
theorem taken_offer (o : Outlet α) (item : α) :
    (o.offer item).2.taken = if (o.offer item).1 then o.taken ++ [item] else o.taken := by
  unfold offer
  dsimp only
  split
  · exact taken_note _ item
  · rfl

/-- Whatever is offered is taken. -/
def TakesAll (o : Outlet α) : Prop :=
  ∀ n, o.accepts n = true

theorem TakesAll.offer {o : Outlet α} (h : o.TakesAll) (item : α) :
    o.offer item = (true, { o with offered := o.offered + 1, latest := item :: o.latest }) := by
  unfold Outlet.offer
  dsimp only
  rw [if_pos (h _)]
  rfl

end Outlet

/-- The socket of a peer, on its reading half. -/
inductive PeerSocket where
  /-- A stream in both directions. -/
  | stream (inlet : Inlet)
  /-- Datagrams in both directions, each waiting whole. -/
  | datagram (waiting : List Bytes) (tail : Tail)
  /-- The end of a pipe that is written to. -/
  | pipeIn
  /-- The end of a pipe that is read from. -/
  | pipeOut (inlet : Inlet)
deriving DecidableEq, Repr

namespace PeerSocket

/-- Something may come from the peer. -/
def isReadable : PeerSocket → Bool
  | pipeIn => false
  | _ => true

/-- A read of no bytes is an empty datagram, not an end. -/
def isDatagram : PeerSocket → Bool
  | datagram .. => true
  | _ => false

/-- How much waits: bytes of a stream, or datagrams. -/
def pending : PeerSocket → Nat
  | stream inlet | pipeOut inlet => inlet.waiting.length
  | datagram waiting _ => waiting.length
  | pipeIn => 0

/-- With more bytes waiting, or one more datagram. -/
def arrive (bytes : Bytes) : PeerSocket → PeerSocket
  | stream inlet => stream (inlet.arrive bytes)
  | datagram waiting tail => datagram (waiting ++ [bytes]) tail
  | pipeIn => pipeIn
  | pipeOut inlet => pipeOut (inlet.arrive bytes)

/-- With another outcome of reads once nothing waits. -/
def withTail (tail : Tail) : PeerSocket → PeerSocket
  | stream inlet => stream { inlet with tail }
  | datagram waiting _ => datagram waiting tail
  | pipeIn => pipeIn
  | pipeOut inlet => pipeOut { inlet with tail }

/-- Reads at most `room` bytes; what a datagram has beyond them is lost.  A pipe that is read
without room brings no bytes even if none wait. -/
def read (room : Nat) : PeerSocket → Read × PeerSocket
  | stream inlet => let (r, inlet) := inlet.read room; (r, stream inlet)
  | datagram [] .ended => (.nothing, datagram [] .ended)
  | datagram [] tail => (tail.read, datagram [] tail)
  | datagram (d :: waiting) tail => (.data (d.take room), datagram waiting tail)
  | pipeIn => (.failed .unsupported, pipeIn)
  | pipeOut inlet =>
    if room = 0 then (.data [], pipeOut inlet)
    else let (r, inlet) := inlet.read room; (r, pipeOut inlet)

/-- Sends a payload through the writing half: a datagram whole and even if it is empty, a stream
only what is not empty. -/
def send (payload : Bytes) (outlet : Outlet Bytes) :
    PeerSocket → Except IoFault Unit × Outlet Bytes
  | pipeOut _ => (.error .unsupported, outlet)
  | datagram .. => offerTo outlet
  | stream _ | pipeIn =>
    if payload.isEmpty then (.ok (), outlet.note payload) else offerTo outlet
where
  /-- Offers the payload. -/
  offerTo (outlet : Outlet Bytes) : Except IoFault Unit × Outlet Bytes :=
    match outlet.offer payload with
    | (true, outlet) => (.ok (), outlet)
    | (false, outlet) => (.error .brokenPipe, outlet)

/-- A payload that is sent comes after all others, unless nothing can be written to the socket. -/
theorem send_of_takesAll {s : PeerSocket} {outlet : Outlet Bytes} (payload : Bytes)
    (hs : ∀ inlet, s ≠ pipeOut inlet) (ho : outlet.TakesAll) :
    ∃ after, s.send payload outlet = (.ok (), after) ∧ after.TakesAll ∧
      after.taken = outlet.taken ++ [payload] := by
  have hoffer : send.offerTo payload outlet =
      (.ok (), { outlet with offered := outlet.offered + 1, latest := payload :: outlet.latest }) := by
    rw [send.offerTo, ho.offer]
  have htaken := outlet.taken_note payload
  cases s with
  | pipeOut inlet => exact absurd rfl (hs inlet)
  | datagram waiting tail => exact ⟨_, hoffer, ho, htaken⟩
  | stream inlet =>
    simp only [send]
    split
    · exact ⟨_, rfl, ho, htaken⟩
    · exact ⟨_, hoffer, ho, htaken⟩
  | pipeIn =>
    simp only [send]
    split
    · exact ⟨_, rfl, ho, htaken⟩
    · exact ⟨_, hoffer, ho, htaken⟩

@[simp] theorem isDatagram_read (room : Nat) (s : PeerSocket) :
    (s.read room).2.isDatagram = s.isDatagram := by
  unfold read
  split
  case h_6 => split <;> rfl
  all_goals rfl

/-- A read that brings bytes, or a datagram, leaves less waiting. -/
theorem read_data_lt {s rest : PeerSocket} {room : Nat} {bytes : Bytes}
    (h : s.read room = (.data bytes, rest)) (hb : bytes ≠ [] ∨ s.isDatagram = true) :
    rest.pending < s.pending := by
  cases s with
  | stream inlet =>
    obtain ⟨hr, rfl⟩ := Prod.mk.inj h
    simp only [isDatagram, Bool.false_eq_true, or_false] at hb
    exact Inlet.read_data_lt (Prod.ext hr rfl) hb
  | pipeOut inlet =>
    simp only [isDatagram, Bool.false_eq_true, or_false] at hb
    simp only [read] at h
    split at h
    · obtain ⟨hr, -⟩ := Prod.mk.inj h
      exact absurd (Read.data.inj hr).symm hb
    · obtain ⟨hr, rfl⟩ := Prod.mk.inj h
      exact Inlet.read_data_lt (Prod.ext hr rfl) hb
  | pipeIn => simp [read] at h
  | datagram waiting tail =>
    cases waiting with
    | nil => cases tail <;> simp [read, Tail.read] at h
    | cons d waiting =>
      simp only [read, Prod.mk.injEq] at h
      obtain ⟨-, rfl⟩ := h
      simp [pending]

end PeerSocket

end WsRelay
