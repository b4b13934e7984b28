import WsRelay.Framing.RecordLayout
/-! # Framings

A peer sends a stream of bytes, a WebSocket client expects messages.  A framing says where the
next message ends: given the buffered bytes of the peer it answers with the length of the unit at
their front (0 while the unit is incomplete) and with what is to become of it.

A framing may remember something about its configuration in a `Memory`.  It starts out empty and
belongs to one connection.  `σ` is the type of what framings outside this library remember. -/

namespace WsRelay

/-- What becomes of a unit. -/
inductive MessageKind where
  | text
  | binary
  /-- The bytes are dropped. -/
  | discard
deriving DecidableEq, Repr

namespace MessageKind

/-- The opcode a unit is sent with. -/
def opcode? : MessageKind → Option Opcode
  | text => some .text
  | binary => some .binary
  | discard => none

/-- The kind's name. -/
def name : MessageKind → String
  | text => "Text"
  | binary => "Binary"
  | discard => "Discard"

end MessageKind

/-- What a framing remembers between calls. -/
inductive Memory (σ : Type) where
  | empty
  /-- The byte sequence that ends a unit. -/
  | needle (bytes : Bytes)
  /-- The length of every unit. -/
  | recordLength (length : Nat)
  | layout (layout : RecordLayout)
  /-- Whatever a framing outside this library keeps. -/
  | extension (value : σ)
deriving DecidableEq, Repr

/-- The unit at the front of a buffer: its length, and what becomes of it. -/
structure Cut where
  length : Nat
  kind : MessageKind := .binary
deriving DecidableEq, Repr

/-- How a framing cuts: from the buffered bytes, the number of them that arrived last, its
configuration and its memory, to a cut and the memory after it. -/
abbrev Framing.Rule (σ : Type) :=
  (data : Bytes) → (lastRead : Nat) → (config : String) → Memory σ →
    Except FramingError Cut × Memory σ

/-- A framing and its name. -/
structure Framing (σ : Type) where
  name : String
  rule : Framing.Rule σ

/-- Forgets what a framing remembered, at the end of its connection. -/
def Framing.teardown {σ : Type} (_ : Framing σ) (_ : Memory σ) : Memory σ :=
  .empty

end WsRelay
