import WsRelay.Framing.Basic
/-! # Framings that pass on all there is

`binary` and `auto` make one unit of the whole buffer.  `auto` sends it as text if it looks like
UTF-8: every character has the right number of continuation bytes.  Overlong forms and surrogates
are not looked for, and a character cut off by the end of the buffer is no text. -/

namespace WsRelay.Framing

/-- The byte continues a character. -/
def isTrailing (b : UInt8) : Bool :=
  b &&& 0xC0 == 0x80

/-- How many continuation bytes follow a first byte. -/
def tailLength? (b : UInt8) : Option Nat :=
  if b &&& 0x80 = 0 then some 0
  else if b &&& 0xE0 = 0xC0 then some 1
  else if b &&& 0xF0 = 0xE0 then some 2
  else if b &&& 0xF8 = 0xF0 then some 3
  else none

/-- The bytes begin with `owed` continuation bytes, and whole characters follow. -/
def isTextualAfter : (owed : Nat) → Bytes → Bool
  | 0, [] => true
  | _ + 1, [] => false
  | 0, b :: bs =>
    match tailLength? b with
    | some n => isTextualAfter n bs
    | none => false
  | owed + 1, b :: bs => isTrailing b && isTextualAfter owed bs

/-- The bytes look like UTF-8. -/
def isTextual (bs : Bytes) : Bool :=
  isTextualAfter 0 bs

/-- Text if the bytes look like UTF-8, else binary. -/
def textKind (bs : Bytes) : MessageKind :=
  if isTextual bs then .text else .binary

variable {σ : Type}

/-- The whole buffer as one binary unit. -/
def binary : Rule σ :=
  fun data _ _ memory => (.ok ⟨data.length, .binary⟩, memory)

/-- The whole buffer as one unit, text if it looks like it. -/
def auto : Rule σ :=
  fun data _ _ memory => (.ok ⟨data.length, textKind data⟩, memory)

end WsRelay.Framing
