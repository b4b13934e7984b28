import WsRelay.Bytes
/-! # Frame headers

The header of RFC 6455 §5.2: two bytes of flags, opcode and short length, then two or eight bytes
of length where the short length says so, then a masking key where the mask flag is set.

`Header.parse?` answers `none` while header bytes are missing.  A header that is read lies inside
the buffer (`Header.parse?_length`). -/

namespace WsRelay.Frame

/-- The four bytes a payload is masked with. -/
structure MaskKey where
  k0 : UInt8
  k1 : UInt8
  k2 : UInt8
  k3 : UInt8
deriving DecidableEq, Repr

namespace MaskKey

/-- The key byte for position `i` of a payload. -/
def byteAt (key : MaskKey) (i : Nat) : UInt8 :=
  match i % 4 with
  | 0 => key.k0
  | 1 => key.k1
  | 2 => key.k2
  | _ => key.k3

/-- The key as bytes. -/
def bytes (key : MaskKey) : Bytes :=
  [key.k0, key.k1, key.k2, key.k3]

/-- The payload with the mask put on, or taken off. -/
def apply (key : MaskKey) (payload : Bytes) : Bytes :=
  payload.mapIdx fun i b => b ^^^ key.byteAt i

@[simp] theorem length_apply (key : MaskKey) (payload : Bytes) :
    (key.apply payload).length = payload.length := by
  simp [apply]

theorem byteAt_eq (key : MaskKey) (i : Nat) : key.byteAt i = key.bytes.getD (i % 4) 0 := by
  unfold byteAt
  have hlt : i % 4 < 4 := Nat.mod_lt i (by decide)
  generalize i % 4 = n at hlt ⊢
  match n, hlt with
  | 0, _ | 1, _ | 2, _ | 3, _ => rfl

/-- **Byte `i` of a payload is combined with byte `i` modulo 4 of the key** (RFC 6455 §5.3). -/
theorem getElem?_apply (key : MaskKey) (payload : Bytes) (i : Nat) :
    (key.apply payload)[i]? = payload[i]?.map (· ^^^ key.bytes.getD (i % 4) 0) := by
  rw [apply, List.getElem?_mapIdx, byteAt_eq]

end MaskKey

/-- A frame header. -/
structure Header where
  /-- The frame ends its message. -/
  fin : Bool
  /-- The three reserved bits. -/
  reserved : UInt8
  /-- The four opcode bits. -/
  opcode : UInt8
  /-- The masking key, if the mask flag is set. -/
  mask : Option MaskKey
  /-- Bytes of the header itself. -/
  length : Nat
  /-- Bytes of payload the header announces. -/
  payloadLength : Nat
deriving DecidableEq, Repr

namespace Header

/-- The largest length of a frame: lengths are kept in 64 bits, and a larger sum stays at the
top. -/
def lengthLimit : Nat := UInt64.size - 1

/-- Bytes of the whole frame. -/
def frameLength (h : Header) : Nat :=
  min lengthLimit (h.length + h.payloadLength)

/-- The payload length, the header bytes up to there, and the bytes after them.  `short` is the
seven-bit length and `rest` what follows the first two header bytes. -/
def splitLength (short : UInt8) (rest : Bytes) : Option (Nat × Nat × Bytes) :=
  if short = 126 then
    match rest with
    | a :: b :: rest => some (Bytes.bigEndian [a, b], 4, rest)
    | _ => none
  else if short = 127 then
    match rest with
    | a :: b :: c :: d :: e :: f :: g :: h :: rest =>
      some (Bytes.bigEndian [a, b, c, d, e, f, g, h], 10, rest)
    | _ => none
  else some (short.toNat, 2, rest)

/-- The header at the front of a buffer, `none` while part of it is missing. -/
def parse? : Bytes → Option Header
  | first :: second :: rest =>
    match splitLength (second &&& 0x7F) rest with
    | none => none
    | some (payloadLength, length, rest) =>
      let header : Header :=
        { fin := first &&& 0x80 != 0
          reserved := (first >>> 4) &&& 0x07
          opcode := first &&& 0x0F
          mask := none
          length
          payloadLength }
      if second &&& 0x80 = 0 then some header
      else match rest with
        | a :: b :: c :: d :: _ =>
          some { header with mask := some ⟨a, b, c, d⟩, length := length + 4 }
        | _ => none
  | _ => none

theorem splitLength_length {short : UInt8} {rest after : Bytes} {n used : Nat}
    (h : splitLength short rest = some (n, used, after)) :
    2 ≤ used ∧ used ≤ 10 ∧ rest.length + 2 = used + after.length := by
  unfold splitLength at h
  split at h
  · split at h
    · simp only [Option.some.injEq, Prod.mk.injEq] at h
      obtain ⟨-, rfl, rfl⟩ := h
      simp only [List.length_cons]
      omega
    · cases h
  · split at h
    · split at h
      · simp only [Option.some.injEq, Prod.mk.injEq] at h
        obtain ⟨-, rfl, rfl⟩ := h
        simp only [List.length_cons]
        omega
      · cases h
    · simp only [Option.some.injEq, Prod.mk.injEq] at h
      obtain ⟨-, rfl, rfl⟩ := h
      omega

/-- A header that is read has two to fourteen bytes and lies inside the buffer. -/
theorem parse?_length {bs : Bytes} {h : Header} (hp : parse? bs = some h) :
    2 ≤ h.length ∧ h.length ≤ 14 ∧ h.length ≤ bs.length := by
  match bs, hp with
  | first :: second :: rest, hp =>
    simp only [parse?] at hp
    split at hp
    · cases hp
    · next hs =>
      have hlen := splitLength_length hs
      simp only [List.length_cons]
      split at hp
      · cases hp
        refine ⟨hlen.1, ?_, ?_⟩ <;> dsimp only <;> omega
      · split at hp
        · cases hp
          simp only [List.length_cons] at hlen
          refine ⟨?_, ?_, ?_⟩ <;> dsimp only <;> omega
        · cases hp

/-- A frame covers its header. -/
theorem length_le_frameLength {bs : Bytes} {h : Header} (hp : parse? bs = some h) :
    h.length ≤ h.frameLength := by
  have := parse?_length hp
  have : 14 ≤ lengthLimit := by decide
  unfold frameLength
  omega

end Header

end WsRelay.Frame
