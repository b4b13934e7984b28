import Mathlib.Algebra.Ring.Nat
import WsRelay.Proofs.Frame.Prefix
/-! # Frames that are sent

Either end of a connection sends final frames, the server unmasked and the client masked
(`Outgoing`).  Such a frame, whatever follows it, is decoded to what it was made of, and only its
payload changes in the buffer, where the mask is taken off (`Outgoing.decode?_bytes`).  As long as
any byte of it is missing, nothing is decoded (`Outgoing.decode?_of_prefix`).

`decode?_encode` says this of the frames that the server sends. -/

namespace WsRelay

namespace Bytes

theorem bigEndian_append_singleton (bs : Bytes) (b : UInt8) :
    bigEndian (bs ++ [b]) = 256 * bigEndian bs + b.toNat := by
  rw [bigEndian, List.foldl_append]
  rfl

/-- The low bytes of a number spell its remainder. -/
theorem bigEndian_ofNat (width n : Nat) : bigEndian (ofNat width n) = n % 256 ^ width := by
  induction width generalizing n with
  | zero => rw [Nat.pow_zero, Nat.mod_one]; rfl
  | succ width ih =>
      have hbyte : (UInt8.ofNat n).toNat = n % 256 := UInt8.toNat_ofNat'
      rw [ofNat, bigEndian_append_singleton, ih, hbyte, Nat.pow_succ, Nat.mul_comm (256 ^ width),
        Nat.mod_mul]
      omega

end Bytes

namespace Frame

/-- A length of seven bits leaves the mask flag alone. -/
theorem and_of_seven_bits :
    ∀ n < 128, UInt8.ofNat n &&& 0x80 = 0 ∧ UInt8.ofNat n &&& 0x7F = UInt8.ofNat n := by
  decide

/-- The length field says the length, and where the bytes after it begin. -/
theorem splitLength_encodeLength {n : Nat} (h : n < 2 ^ 64) (rest : Bytes) :
    ∃ short more, encodeLength n = short :: more ∧ short &&& 0x80 = 0 ∧
      Header.splitLength (short &&& 0x7F) (more ++ rest) =
        some (n, (encodeLength n).length + 1, rest) := by
  unfold encodeLength
  split
  · next hshort =>
    obtain ⟨hmask, hlength⟩ := and_of_seven_bits n (by omega)
    have hbyte : (UInt8.ofNat n).toNat = n := by
      rw [UInt8.toNat_ofNat']
      omega
    have hlong (b : UInt8) (hb : 125 < b.toNat) : UInt8.ofNat n ≠ b := fun heq => by
      rw [heq] at hbyte
      omega
    refine ⟨_, [], rfl, hmask, ?_⟩
    rw [hlength]
    unfold Header.splitLength
    rw [if_neg (hlong 126 (by decide)), if_neg (hlong 127 (by decide)), hbyte]
    rfl
  · split
    · next hlong =>
      have hn : Bytes.bigEndian (Bytes.ofNat 2 n) = n := by
        rw [Bytes.bigEndian_ofNat]
        omega
      refine ⟨126, _, rfl, rfl, ?_⟩
      show some (Bytes.bigEndian (Bytes.ofNat 2 n), 4, rest) = _
      rw [hn]
      rfl
    · have hn : Bytes.bigEndian (Bytes.ofNat 8 n) = n := by
        rw [Bytes.bigEndian_ofNat]
        omega
      refine ⟨127, _, rfl, rfl, ?_⟩
      show some (Bytes.bigEndian (Bytes.ofNat 8 n), 10, rest) = _
      rw [hn]
      rfl

/-- The header that is sent before a payload of length `n`. -/
def sentHeader (op : Opcode) (n : Nat) : Header where
  fin := true
  reserved := 0
  opcode := op.value
  mask := none
  length := (encodeLength n).length + 1
  payloadLength := n

/-! ### Masks -/

/-- A mask is taken off as it is put on. -/
theorem MaskKey.apply_apply (key : MaskKey) (payload : Bytes) :
    key.apply (key.apply payload) = payload := by
  refine List.ext_getElem? fun i => ?_
  rw [getElem?_apply, getElem?_apply, Option.map_map]
  cases payload[i]? with
  | none => rfl
  | some b =>
      rw [Option.map_some, Function.comp_apply, UInt8.xor_assoc, UInt8.xor_self, UInt8.xor_zero]

theorem unmask_unmask (mask : Option MaskKey) (payload : Bytes) :
    unmask mask (unmask mask payload) = payload := by
  cases mask with
  | none => rfl
  | some key => exact key.apply_apply payload

/-- The mask flag stands beside the seven bits of the length. -/
theorem or_mask_flag (b : UInt8) :
    (b ||| 0x80) &&& 0x80 ≠ 0 ∧ (b ||| 0x80) &&& 0x7F = b &&& 0x7F := by
  have hall : ∀ n < 256, (UInt8.ofNat n ||| 0x80) &&& 0x80 ≠ 0 ∧
      (UInt8.ofNat n ||| 0x80) &&& 0x7F = UInt8.ofNat n &&& 0x7F := by decide +kernel
  have hb := hall b.toNat b.toNat_lt
  rwa [UInt8.ofNat_toNat] at hb

/-! ### Frames as they are sent -/

/-- A final frame, masked if it has a key. -/
structure Outgoing where
  opcode : Opcode
  mask : Option MaskKey
  payload : Bytes
deriving DecidableEq, Repr

namespace Outgoing

/-- The frame on the wire.  A masked frame is the unmasked one with the mask flag set, the key after
the length, and the mask put on the payload. -/
def bytes (f : Outgoing) : Bytes :=
  let plain := encode f.opcode f.payload
  match f.mask with
  | none => plain
  | some key =>
    (plain.take (plain.length - f.payload.length)).modify 1 (· ||| 0x80)
      ++ key.bytes ++ key.apply f.payload

/-- The key on the wire, if there is one. -/
def keyBytes (f : Outgoing) : Bytes :=
  (f.mask.map MaskKey.bytes).getD []

/-- The header that the frame is sent with. -/
def header (f : Outgoing) : Header :=
  { sentHeader f.opcode f.payload.length with
    mask := f.mask
    length := (encodeLength f.payload.length).length + 1 + f.keyBytes.length }

/-- What is decoded from the frame. -/
def decoded (f : Outgoing) : Decoded where
  header := f.header
  payload := f.payload
  length := f.bytes.length

/-- The parts of a frame: the opcode, the length field with the mask flag, the key, and the payload
with the mask put on. -/
theorem bytes_eq (f : Outgoing) {short : UInt8} {more : Bytes}
    (hlength : encodeLength f.payload.length = short :: more) :
    f.bytes = (0x80 ||| f.opcode.value) :: (if f.mask.isSome then short ||| 0x80 else short) ::
      (more ++ (f.keyBytes ++ unmask f.mask f.payload)) := by
  obtain ⟨opcode, mask, payload⟩ := f
  have hplain : encode opcode payload = (0x80 ||| opcode.value) :: short :: more ++ payload := by
    rw [encode, hlength]
  cases mask with
  | none => exact hplain
  | some key =>
      have hhead : (encode opcode payload).take
          ((encode opcode payload).length - payload.length) =
            (0x80 ||| opcode.value) :: short :: more := by
        rw [hplain, List.length_append, Nat.add_sub_cancel, List.take_left]
      show List.modify _ 1 _ ++ key.bytes ++ key.apply payload = _
      rw [hhead, List.append_assoc]
      rfl

/-- The length field has a first byte. -/
theorem exists_encodeLength (n : Nat) : ∃ short more, encodeLength n = short :: more := by
  unfold encodeLength
  split
  · exact ⟨_, _, rfl⟩
  · split
    · exact ⟨_, _, rfl⟩
    · exact ⟨_, _, rfl⟩

/-- Behind the header stands the payload with the mask put on. -/
theorem bytes_split (f : Outgoing) :
    ∃ front, f.bytes = front ++ unmask f.mask f.payload ∧ front.length = f.header.length := by
  obtain ⟨short, more, hlength⟩ := exists_encodeLength f.payload.length
  refine ⟨(0x80 ||| f.opcode.value) :: (if f.mask.isSome then short ||| 0x80 else short) ::
    (more ++ f.keyBytes), ?_, ?_⟩
  · rw [f.bytes_eq hlength, List.cons_append, List.cons_append, List.append_assoc]
  · rw [header, hlength]
    simp only [List.length_cons, List.length_append]
    omega

variable {f : Outgoing}

theorem length_bytes (f : Outgoing) : f.bytes.length = f.header.length + f.payload.length := by
  obtain ⟨front, hbytes, hfront⟩ := f.bytes_split
  rw [hbytes, List.length_append, length_unmask, hfront]

/-- The header is read off the front of the frame. -/
theorem parse?_bytes (h : f.payload.length < 2 ^ 63) (rest : Bytes) :
    Header.parse? (f.bytes ++ rest) = some f.header := by
  obtain ⟨short, more, hlength, hflag, hsplit⟩ := splitLength_encodeLength
    (n := f.payload.length) (by omega) (f.keyBytes ++ (unmask f.mask f.payload ++ rest))
  have hfirst : ((0x80 ||| f.opcode.value) &&& 0x80 != 0) = true ∧
      (0x80 ||| f.opcode.value) >>> 4 &&& 0x07 = 0 ∧
      (0x80 ||| f.opcode.value) &&& 0x0F = f.opcode.value := by
    cases f.opcode <;> decide
  obtain ⟨hset, hkept⟩ := or_mask_flag short
  rw [f.bytes_eq hlength, List.cons_append, List.cons_append, List.append_assoc,
    List.append_assoc, Header.parse?]
  cases hmask : f.mask with
  | none =>
      rw [hmask] at hsplit
      simp only [Option.isSome_none, Bool.false_eq_true, if_false]
      rw [hsplit]
      dsimp only
      rw [if_pos hflag, hfirst.1, hfirst.2.1, hfirst.2.2]
      simp [header, sentHeader, keyBytes, hmask]
  | some key =>
      rw [hmask] at hsplit
      simp only [Option.isSome_some, if_true]
      rw [hkept, hsplit]
      dsimp only
      rw [if_neg hset, hfirst.1, hfirst.2.1, hfirst.2.2]
      simp [header, sentHeader, keyBytes, hmask, MaskKey.bytes]

/-- A frame of fewer than 2^63 bytes of payload is shorter than lengths can say. -/
theorem frameLength_header (h : f.payload.length < 2 ^ 63) :
    f.header.frameLength = f.bytes.length := by
  have hhead := (Header.parse?_length (parse?_bytes h [])).2.1
  have hlimit : Header.lengthLimit = 2 ^ 64 - 1 := rfl
  rw [Header.frameLength, hlimit, length_bytes]
  dsimp only [header, sentHeader] at hhead ⊢
  omega

/-- A frame is decoded to what it was made of, whatever follows it.  The mask is taken off its
payload in the buffer, and all else stays as it is. -/
theorem decode?_bytes (h : f.payload.length < 2 ^ 63) (rest : Bytes) :
    decode? (f.bytes ++ rest) =
      some (f.decoded, f.bytes.take f.header.length ++ f.payload ++ rest) := by
  have hlength := frameLength_header h
  have hfits : f.header.frameLength ≤ (f.bytes ++ rest).length := by
    rw [hlength, List.length_append]
    exact Nat.le_add_right _ _
  have hpayload : unmask f.header.mask (f.bytes.drop f.header.length) = f.payload := by
    obtain ⟨front, hbytes, hfront⟩ := f.bytes_split
    rw [hbytes, ← hfront, List.drop_left]
    exact unmask_unmask f.mask f.payload
  have hhead : (f.bytes ++ rest).take f.header.length = f.bytes.take f.header.length := by
    refine List.take_append_of_le_length ?_
    rw [length_bytes]
    exact Nat.le_add_right _ _
  rw [decode?_of_le (parse?_bytes h rest) hfits, hlength, List.take_left, List.drop_left, hpayload,
    hhead]
  rfl

/-- Nothing is decoded while a byte of the frame is missing. -/
theorem decode?_of_prefix (h : f.payload.length < 2 ^ 63) {front : Bytes}
    (hfront : front <+: f.bytes) (hne : front ≠ f.bytes) : decode? front = none := by
  obtain ⟨missing, hmissing⟩ := hfront
  cases hdecode : decode? front with
  | none => rfl
  | some p =>
      -- what is decoded from the front alone is decoded from the whole frame, and is shorter
      obtain ⟨frame, after⟩ := p
      have hwhole := decode?_bytes h []
      rw [List.append_nil, ← hmissing, decode?_append missing hdecode] at hwhole
      have hlength : frame.length = f.bytes.length := by
        rw [(Prod.mk.inj (Option.some.inj hwhole)).1]
        rfl
      have hle := (decode?_length hdecode).2.1
      have hnil : missing = [] := by
        rw [← List.length_eq_zero_iff]
        rw [hlength, ← hmissing, List.length_append] at hle
        omega
      rw [hnil, List.append_nil] at hmissing
      exact absurd hmissing hne

end Outgoing

/-- **A frame that the server sends is decoded to what it was encoded from**, and is unmasked as it
stands. -/
theorem decode?_encode (op : Opcode) {payload : Bytes} (h : payload.length < 2 ^ 63)
    (rest : Bytes) :
    decode? (encode op payload ++ rest) =
      some (⟨sentHeader op payload.length, payload, (encode op payload).length⟩,
        encode op payload ++ rest) := by
  have hpayload : (encode op payload).drop (sentHeader op payload.length).length = payload :=
    List.drop_left' rfl
  have hwhole : (encode op payload).take (sentHeader op payload.length).length ++ payload =
      encode op payload := by
    calc (encode op payload).take (sentHeader op payload.length).length ++ payload
        = (encode op payload).take (sentHeader op payload.length).length ++
          (encode op payload).drop (sentHeader op payload.length).length := by rw [hpayload]
      _ = encode op payload := List.take_append_drop _ _
  have hdecode := Outgoing.decode?_bytes (f := ⟨op, none, payload⟩) h rest
  refine hdecode.trans ?_
  show some (Decoded.mk (sentHeader op payload.length) payload (encode op payload).length,
    (encode op payload).take (sentHeader op payload.length).length ++ payload ++ rest) = _
  rw [hwhole]

end Frame

end WsRelay
