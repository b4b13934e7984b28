import WsRelay.Frame.Header
import WsRelay.Frame.Opcode
/-! # Frames in a buffer

`decode?` takes the frame off the front of a buffer once all of it has arrived.  The payload is
unmasked where it stands, so the buffer is handed back with it; what the frame does not cover is
untouched.  `encode` writes the frames a server sends: final, unmasked, with the shortest length. -/

namespace WsRelay.Frame

/-- A complete frame at the front of a buffer. -/
structure Decoded where
  header : Header
  /-- The payload, unmasked. -/
  payload : Bytes
  /-- Bytes of the whole frame. -/
  length : Nat
deriving DecidableEq, Repr

/-- The payload as sent: a masked one with the mask taken off. -/
def unmask (mask : Option MaskKey) (payload : Bytes) : Bytes :=
  match mask with
  | none => payload
  | some key => key.apply payload

/-- The frame at the front of a buffer and the buffer with its payload unmasked; `none` while
part of the frame is missing. -/
def decode? (buffer : Bytes) : Option (Decoded × Bytes) :=
  match Header.parse? buffer with
  | none => none
  | some header =>
    let length := header.frameLength
    let whole := buffer.take length
    if whole.length < length then none
    else
      let payload := unmask header.mask (whole.drop header.length)
      some (⟨header, payload, length⟩,
        buffer.take header.length ++ payload ++ buffer.drop length)

/-- The length field of a frame with `n` bytes of payload: the shortest form that holds it. -/
def encodeLength (n : Nat) : Bytes :=
  if n ≤ 125 then [UInt8.ofNat n]
  else if n < 65536 then 126 :: Bytes.ofNat 2 n
  else 127 :: Bytes.ofNat 8 n

/-- A final, unmasked frame. -/
def encode (op : Opcode) (payload : Bytes) : Bytes :=
  (0x80 ||| op.value) :: encodeLength payload.length ++ payload

/-- A payload that fits into a control frame has its length in the second byte of the frame. -/
theorem encode_short (op : Opcode) {payload : Bytes} (h : payload.length ≤ 125) :
    encode op payload = (0x80 ||| op.value) :: UInt8.ofNat payload.length :: payload := by
  rw [encode, encodeLength, if_pos h]
  rfl

@[simp] theorem length_unmask (mask : Option MaskKey) (payload : Bytes) :
    (unmask mask payload).length = payload.length := by
  cases mask <;> simp [unmask]

/-- A decoded frame has at least two bytes, lies inside the buffer, and leaves the length of the
buffer alone. -/
theorem decode?_length {buffer after : Bytes} {frame : Decoded}
    (h : decode? buffer = some (frame, after)) :
    2 ≤ frame.length ∧ frame.length ≤ buffer.length ∧ after.length = buffer.length := by
  unfold decode? at h
  split at h
  · cases h
  · next header hp =>
    have hlen := Header.parse?_length hp
    have hle := Header.length_le_frameLength hp
    dsimp only at h
    split at h
    · cases h
    · next hw =>
      simp only [Option.some.injEq, Prod.mk.injEq] at h
      obtain ⟨rfl, rfl⟩ := h
      simp only [List.length_take] at hw
      simp only [List.length_append, List.length_take, List.length_drop, length_unmask]
      omega

end WsRelay.Frame
