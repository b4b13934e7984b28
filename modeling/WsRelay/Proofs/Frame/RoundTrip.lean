import WsRelay.Proofs.Frame.Encoding
/-! # Streams of frames

`decodeInPlace` is what an attempt to decode a buffer does to the buffer, and `decodeAll` repeats it
as long as there is a whole frame.  A stream of frames is decoded to the frames that it was made of
(`stream_roundTrip`): each is recovered (`Recovers`), and nothing happens while a part of it is
missing. -/

namespace WsRelay.Frame

/-- Decodes a frame where it stands: the frame at the front of a buffer, and the buffer after that,
which is the same if part of the frame is missing. -/
def decodeInPlace (buffer : Bytes) : Option Decoded × Bytes :=
  match decode? buffer with
  | none => (none, buffer)
  | some (frame, after) => (some frame, after)

theorem decodeInPlace_length {buffer after : Bytes} {frame : Decoded}
    (h : decodeInPlace buffer = (some frame, after)) :
    2 ≤ frame.length ∧ frame.length ≤ buffer.length ∧ after.length = buffer.length := by
  unfold decodeInPlace at h
  split at h
  · cases h
  · next hd =>
    cases h
    exact decode?_length hd

/-- The frames at the front of a buffer, one after the other, and what is left of it. -/
def decodeAll (buffer : Bytes) : List Decoded × Bytes :=
  match _hdecode : decodeInPlace buffer with
  | (none, rest) => ([], rest)
  | (some frame, after) =>
    let (frames, rest) := decodeAll (after.drop frame.length)
    (frame :: frames, rest)
termination_by buffer.length
decreasing_by
  obtain ⟨hpos, hle, hlength⟩ := decodeInPlace_length _hdecode
  rw [List.length_drop]
  omega

/-- `frame` is `f` as it is decoded with `rest` behind it, which leaves the buffer as `after`. -/
structure Recovers (f : Outgoing) (rest : Bytes) (frame : Decoded) (after : Bytes) : Prop where
  fin : frame.header.fin = true
  reserved : frame.header.reserved = 0
  opcode : frame.header.opcode = f.opcode.value
  mask : frame.header.mask = f.mask
  payload : frame.payload = f.payload
  length : frame.length = f.bytes.length
  /-- The header stays as it is, -/
  front : after.take frame.header.length = f.bytes.take frame.header.length
  /-- the payload stands behind it without its mask, -/
  unmasked : (after.take frame.length).drop frame.header.length = f.payload
  /-- and what follows the frame stays as it is. -/
  behind : after.drop frame.length = rest

/-- The frame that a decoded frame was made of, if its opcode is known. -/
def Decoded.outgoing? (frame : Decoded) : Option Outgoing :=
  (Opcode.ofValue? frame.header.opcode).map fun opcode =>
    ⟨opcode, frame.header.mask, frame.payload⟩

namespace Outgoing

variable {f : Outgoing}

theorem decodeInPlace_bytes (h : f.payload.length < 2 ^ 63) (rest : Bytes) :
    decodeInPlace (f.bytes ++ rest) =
      (some f.decoded, f.bytes.take f.header.length ++ f.payload ++ rest) := by
  rw [decodeInPlace, decode?_bytes h rest]

theorem recovers (f : Outgoing) (rest : Bytes) :
    Recovers f rest f.decoded (f.bytes.take f.header.length ++ f.payload ++ rest) := by
  have hfront : (f.bytes.take f.header.length).length = f.header.length := by
    rw [List.length_take, length_bytes]
    omega
  have hlength : (f.bytes.take f.header.length ++ f.payload).length = f.bytes.length := by
    rw [List.length_append, hfront, length_bytes]
  have htake (bs : Bytes) : (f.bytes.take f.header.length ++ bs).take f.header.length =
      f.bytes.take f.header.length := List.take_left' hfront
  exact {
    fin := rfl
    reserved := rfl
    opcode := rfl
    mask := rfl
    payload := rfl
    length := rfl
    front := by
      rw [List.append_assoc]
      exact htake _
    unmasked := by
      show (List.take f.bytes.length _).drop f.header.length = f.payload
      rw [List.take_left' hlength]
      exact List.drop_left' hfront
    behind := List.drop_left' hlength }

/-- The frame at the front of a stream is decoded first, and then the rest of the stream. -/
theorem decodeAll_cons (h : f.payload.length < 2 ^ 63) (rest : Bytes) :
    decodeAll (f.bytes ++ rest) = (f.decoded :: (decodeAll rest).1, (decodeAll rest).2) := by
  have hrest := (f.recovers rest).behind
  rw [decodeAll]
  split
  · next hd =>
    rw [decodeInPlace_bytes h] at hd
    cases hd
  · next hd =>
    rw [decodeInPlace_bytes h] at hd
    cases hd
    rw [hrest]

theorem decodeAll_flatMap {frames : List Outgoing} (h : ∀ f ∈ frames, f.payload.length < 2 ^ 63) :
    decodeAll (frames.flatMap bytes) = (frames.map decoded, []) := by
  induction frames with
  | nil => rw [List.flatMap_nil, decodeAll]; rfl
  | cons f frames ih =>
      obtain ⟨hf, hframes⟩ := List.forall_mem_cons.mp h
      rw [List.flatMap_cons, decodeAll_cons hf, ih hframes, List.map_cons]

end Outgoing

/-- **A stream of frames is decoded to the frames it was made of.**  Each of them, whatever follows
it, is recovered with its opcode, its key and its payload, and nothing but the payload changes in
the buffer; as long as a byte of it is missing, nothing is decoded, and the buffer stays as it is. -/
theorem stream_roundTrip (frames : List Outgoing)
    (h : ∀ f ∈ frames, f.payload.length < 2 ^ 63) :
    (∀ f ∈ frames,
      (∀ rest, ∃ frame after, decodeInPlace (f.bytes ++ rest) = (some frame, after) ∧
        Recovers f rest frame after) ∧
      ∀ front, front <+: f.bytes → front ≠ f.bytes → decodeInPlace front = (none, front)) ∧
    (decodeAll (frames.flatMap Outgoing.bytes)).1.map Decoded.outgoing? = frames.map some ∧
    (decodeAll (frames.flatMap Outgoing.bytes)).2 = [] := by
  rw [Outgoing.decodeAll_flatMap h]
  refine ⟨fun f hf => ⟨fun rest => ?_, fun front hfront hne => ?_⟩, ?_, rfl⟩
  · exact ⟨_, _, Outgoing.decodeInPlace_bytes (h f hf) rest, f.recovers rest⟩
  · rw [decodeInPlace, Outgoing.decode?_of_prefix (h f hf) hfront hne]
  · rw [List.map_map]
    refine List.map_congr_left fun f _ => ?_
    show (Opcode.ofValue? f.opcode.value).map _ = some f
    rw [Opcode.ofValue?_value]
    rfl

/-- A masked frame whose length takes two bytes, between an empty one and one whose length takes
eight. -/
theorem stream_roundTrip_widths :
    let frames : List Outgoing :=
      [⟨.ping, none, []⟩, ⟨.text, some ⟨0x11, 0x22, 0x33, 0x44⟩, List.replicate 126 0x61⟩,
        ⟨.binary, some ⟨0, 1, 2, 3⟩, List.replicate 65536 0⟩]
    (∀ f ∈ frames, f.payload.length < 2 ^ 63) ∧
      frames.map (·.header.length) = [2, 8, 14] ∧
      (decodeAll (frames.flatMap Outgoing.bytes)).1.map Decoded.outgoing? = frames.map some := by
  intro frames
  have h : ∀ f ∈ frames, f.payload.length < 2 ^ 63 := by
    refine List.forall_mem_cons.mpr ⟨by decide, List.forall_mem_cons.mpr ⟨?_,
      List.forall_mem_singleton.mpr ?_⟩⟩
    · rw [List.length_replicate]
      decide
    · rw [List.length_replicate]
      decide
  refine ⟨h, ?_, (stream_roundTrip frames h).2.1⟩
  simp only [frames, List.map_cons, List.map_nil, Outgoing.header, List.length_replicate]
  rfl

end WsRelay.Frame
