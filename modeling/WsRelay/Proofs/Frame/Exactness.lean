import Mathlib.Data.List.Induction
import WsRelay.Proofs.Frame.RoundTrip
/-! # What is decoded from any bytes

Two bytes of a frame say how long its header is (`Header.size`), and the header how long the frame
is; that is all that decides whether a frame has arrived.  A header is what stands at these places
of the buffer (`Header.parse?_eq`), and a frame is decoded exactly if the buffer holds as many bytes
as header and payload have together, counted without any limit (`decode?_eq`).

What is decoded then is `Exact`: nothing but the payload changes in the buffer, more bytes behind it
change nothing, and a frame of the kind that the server sends is encoded to the bytes it was decoded
from (`decodeInPlace_exact`). -/

namespace WsRelay

namespace Bytes

theorem ofNat_bigEndian (bs : Bytes) : ofNat bs.length (bigEndian bs) = bs := by
  induction bs using List.reverseRecOn with
  | nil => rfl
  | append_singleton bs b ih =>
      have hb := b.toNat_lt
      have hfront : (256 * bigEndian bs + b.toNat) / 256 = bigEndian bs := by omega
      have hlast : UInt8.ofNat (256 * bigEndian bs + b.toNat) = b := by
        refine UInt8.toNat_inj.mp ?_
        rw [UInt8.toNat_ofNat']
        omega
      rw [List.length_append, List.length_singleton, bigEndian_append_singleton, ofNat, hfront,
        hlast, ih]

end Bytes

namespace Frame

namespace Header

/-! ### The layout of a header -/

/-- How many bytes of length the second byte of a header asks for. -/
def lengthWidth (second : UInt8) : Nat :=
  if second &&& 0x7F = 126 then 2 else if second &&& 0x7F = 127 then 8 else 0

/-- How many bytes of masking key it asks for. -/
def keyWidth (second : UInt8) : Nat :=
  if second &&& 0x80 = 0 then 0 else 4

/-- The bytes of the header that a buffer begins with; as long as its second byte is missing, all
that is known is that there is one. -/
def size : Bytes → Nat
  | _ :: second :: _ => 2 + lengthWidth second + keyWidth second
  | _ => 2

/-- The payload length that a header announces: the bytes of length where there are any, else the
short length. -/
def announced : Bytes → Nat
  | _ :: second :: rest =>
    if lengthWidth second = 0 then (second &&& 0x7F).toNat
    else Bytes.bigEndian (rest.take (lengthWidth second))
  | _ => 0

/-- The four bytes at the front. -/
def keyAt? : Bytes → Option MaskKey
  | a :: b :: c :: d :: _ => some ⟨a, b, c, d⟩
  | _ => none

/-- What stands at the places of a header that has arrived. -/
def laidOut : Bytes → Header
  | first :: second :: rest =>
    { fin := first &&& 0x80 != 0
      reserved := (first >>> 4) &&& 0x07
      opcode := first &&& 0x0F
      mask := if second &&& 0x80 = 0 then none else keyAt? (rest.drop (lengthWidth second))
      length := 2 + lengthWidth second + keyWidth second
      payloadLength := announced (first :: second :: rest) }
  | _ => { fin := false, reserved := 0, opcode := 0, mask := none, length := 2, payloadLength := 0 }

theorem lengthWidth_cases (second : UInt8) :
    lengthWidth second = 0 ∨ lengthWidth second = 2 ∨ lengthWidth second = 8 := by
  unfold lengthWidth
  split
  · exact .inr (.inl rfl)
  · split
    · exact .inr (.inr rfl)
    · exact .inl rfl

theorem keyWidth_cases (second : UInt8) : keyWidth second = 0 ∨ keyWidth second = 4 := by
  unfold keyWidth
  split
  · exact .inl rfl
  · exact .inr rfl

theorem size_mem (bs : Bytes) : size bs ∈ [2, 4, 6, 8, 10, 14] := by
  match bs with
  | [] => exact List.mem_cons_self
  | [_] => exact List.mem_cons_self
  | _ :: second :: _ =>
      rw [size]
      rcases lengthWidth_cases second with hl | hl | hl
      all_goals
        rcases keyWidth_cases second with hk | hk
        all_goals
          rw [hl, hk]
          decide

theorem two_le_size (bs : Bytes) : 2 ≤ size bs := by
  match bs with
  | [] | [_] => exact Nat.le_refl 2
  | _ :: second :: _ =>
      rw [size, Nat.add_assoc]
      exact Nat.le_add_right 2 _

/-- The length is read as soon as the bytes for it are there. -/
theorem splitLength_eq (first second : UInt8) (rest : Bytes) :
    splitLength (second &&& 0x7F) rest =
      if rest.length < lengthWidth second then none
      else some (announced (first :: second :: rest), 2 + lengthWidth second,
        rest.drop (lengthWidth second)) := by
  have hannounced : announced (first :: second :: rest) =
      if lengthWidth second = 0 then (second &&& 0x7F).toNat
      else Bytes.bigEndian (rest.take (lengthWidth second)) := rfl
  rw [hannounced]
  unfold splitLength
  by_cases h126 : second &&& 0x7F = 126
  · have hwidth : lengthWidth second = 2 := if_pos h126
    rw [if_pos h126, hwidth]
    match rest with
    | [] | [_] => rfl
    | a :: b :: rest =>
        rw [if_neg (by simp only [List.length_cons]; omega)]
        rfl
  · rw [if_neg h126]
    by_cases h127 : second &&& 0x7F = 127
    · have hwidth : lengthWidth second = 8 := by rw [lengthWidth, if_neg h126, if_pos h127]
      rw [if_pos h127, hwidth]
      match rest with
      | [] | [_] | [_, _] | [_, _, _] | [_, _, _, _] | [_, _, _, _, _] | [_, _, _, _, _, _]
      | [_, _, _, _, _, _, _] => rfl
      | a :: b :: c :: d :: e :: f :: g :: h :: rest =>
          rw [if_neg (by simp only [List.length_cons]; omega)]
          rfl
    · have hwidth : lengthWidth second = 0 := by rw [lengthWidth, if_neg h126, if_neg h127]
      rw [if_neg h127, hwidth, if_neg (Nat.not_lt_zero _), if_pos rfl]
      rfl

/-- **A header is read exactly when it has arrived**, and says what stands at its places. -/
theorem parse?_eq (bs : Bytes) :
    parse? bs = if bs.length < size bs then none else some (laidOut bs) := by
  match bs with
  | [] => rfl
  | [_] => rfl
  | first :: second :: rest =>
      have hdrop := List.length_drop (i := lengthWidth second) (l := rest)
      rw [parse?, splitLength_eq first]
      unfold laidOut size keyWidth
      simp only [List.length_cons]
      by_cases hlength : rest.length < lengthWidth second
      · rw [if_pos hlength, if_pos (by omega)]
      · rw [if_neg hlength]
        dsimp only
        by_cases hmask : second &&& 0x80 = 0
        · rw [if_pos hmask, if_pos hmask, if_pos hmask, if_neg (by omega), Nat.add_zero]
        · rw [if_neg hmask, if_neg hmask, if_neg hmask]
          -- the key is there if four bytes follow the length
          rcases hkey : rest.drop (lengthWidth second) with
            _ | ⟨a, _ | ⟨b, _ | ⟨c, _ | ⟨d, payload⟩⟩⟩⟩
          all_goals
            rw [hkey] at hdrop
            simp only [List.length_cons, List.length_nil] at hdrop
          case cons.cons.cons.cons =>
            rw [if_neg (by omega)]
            rfl
          all_goals rw [if_pos (by omega)]

@[simp] theorem length_laidOut (bs : Bytes) : (laidOut bs).length = size bs := by
  match bs with
  | [] | [_] => rfl
  | _ :: _ :: _ => rfl

@[simp] theorem payloadLength_laidOut (bs : Bytes) :
    (laidOut bs).payloadLength = announced bs := by
  match bs with
  | [] | [_] => rfl
  | _ :: _ :: _ => rfl

/-- The fewest bytes of length that can say `n`. -/
def fewest (n : Nat) : Nat :=
  if n ≤ 125 then 0 else if n < 65536 then 2 else 8

/-! ### Bits of the first two bytes -/

/-- A first byte of a final frame without reserved bits is its opcode with the final flag. -/
theorem first_of_opcode {first : UInt8} (hfin : first &&& 0x80 ≠ 0)
    (hreserved : first >>> 4 &&& 0x07 = 0) : 0x80 ||| (first &&& 0x0F) = first := by
  have hall : ∀ n < 256, UInt8.ofNat n &&& 0x80 ≠ 0 → UInt8.ofNat n >>> 4 &&& 0x07 = 0 →
      0x80 ||| (UInt8.ofNat n &&& 0x0F) = UInt8.ofNat n := by decide +kernel
  have h := hall first.toNat first.toNat_lt
  rw [UInt8.ofNat_toNat] at h
  exact h hfin hreserved

/-- A second byte without the mask flag is the short length. -/
theorem second_of_unmasked {second : UInt8} (hmask : second &&& 0x80 = 0) :
    second &&& 0x7F = second := by
  have hall : ∀ n < 256, UInt8.ofNat n &&& 0x80 = 0 → UInt8.ofNat n &&& 0x7F = UInt8.ofNat n := by
    decide +kernel
  have h := hall second.toNat second.toNat_lt
  rw [UInt8.ofNat_toNat] at h
  exact h hmask

/-- The length field of an unmasked header is the one that is written for this length, if no
shorter one could say it. -/
theorem encodeLength_announced (first second : UInt8) (rest : Bytes)
    (hmask : second &&& 0x80 = 0) (hrest : lengthWidth second ≤ rest.length)
    (hfewest : lengthWidth second = fewest (announced (first :: second :: rest))) :
    encodeLength (announced (first :: second :: rest)) =
      second :: rest.take (lengthWidth second) := by
  have hannounced : announced (first :: second :: rest) =
      if lengthWidth second = 0 then (second &&& 0x7F).toNat
      else Bytes.bigEndian (rest.take (lengthWidth second)) := rfl
  have hsecond := second_of_unmasked hmask
  have htake : (rest.take (lengthWidth second)).length = lengthWidth second := by
    rw [List.length_take]
    omega
  have hspelled := Bytes.ofNat_bigEndian (rest.take (lengthWidth second))
  rw [htake] at hspelled
  unfold fewest at hfewest
  unfold encodeLength
  split at hfewest
  · next hshort =>
    rw [if_pos hshort, hannounced, if_pos hfewest, hsecond, UInt8.ofNat_toNat, hfewest,
      List.take_zero]
  · next hshort =>
    rw [if_neg hshort]
    split at hfewest
    · next hlong =>
      have h126 : second = 126 := by
        unfold lengthWidth at hfewest
        rw [hsecond] at hfewest
        split at hfewest
        · assumption
        · split at hfewest <;> cases hfewest
      rw [if_pos hlong, hannounced, if_neg (by omega), hfewest]
      rw [hfewest] at hspelled
      rw [hspelled, h126]
    · next hlong =>
      have h127 : second = 127 := by
        unfold lengthWidth at hfewest
        rw [hsecond] at hfewest
        split at hfewest
        · cases hfewest
        · split at hfewest
          · assumption
          · cases hfewest
      rw [if_neg hlong, hannounced, if_neg (by omega), hfewest]
      rw [hfewest] at hspelled
      rw [hspelled, h127]

end Header

/-! ### What is decoded -/

variable {b after : Bytes} {frame : Decoded}

/-- The frame that stands at the front of a buffer. -/
def decodedFrom (b : Bytes) : Decoded where
  header := Header.laidOut b
  payload := unmask (Header.laidOut b).mask
    ((b.take (Header.size b + Header.announced b)).drop (Header.size b))
  length := Header.size b + Header.announced b

/-- **A frame is decoded exactly when all of it has arrived.**  Lengths that are too large for 64
bits stay at the top there, where no buffer reaches. -/
theorem decode?_eq (hb : b.length < 2 ^ 63) :
    decode? b =
      if b.length < Header.size b + Header.announced b then none
      else some (decodedFrom b, b.take (Header.size b) ++ (decodedFrom b).payload ++
        b.drop (Header.size b + Header.announced b)) := by
  have hlimit : Header.lengthLimit = 2 ^ 64 - 1 := rfl
  have hparse := Header.parse?_eq b
  have hlength : (Header.laidOut b).frameLength =
      min (2 ^ 64 - 1) (Header.size b + Header.announced b) := by
    rw [Header.frameLength, Header.length_laidOut, Header.payloadLength_laidOut, hlimit]
  split at hparse
  · rw [if_pos (by omega), decode?, hparse]
  · split
    · exact decode?_of_lt hparse (by omega)
    · have hwhole : (Header.laidOut b).frameLength = Header.size b + Header.announced b := by omega
      rw [decode?_of_le hparse (by omega), hwhole, Header.length_laidOut]
      rfl

theorem length_payload_decodedFrom (hle : Header.size b + Header.announced b ≤ b.length) :
    (decodedFrom b).payload.length = Header.announced b := by
  rw [decodedFrom, length_unmask, List.length_drop, List.length_take]
  omega

/-- A header that has arrived without a key has no mask flag. -/
theorem unmasked_of_laidOut {first second : UInt8} {rest : Bytes}
    (hsize : Header.size (first :: second :: rest) ≤ (first :: second :: rest).length)
    (hmask : (Header.laidOut (first :: second :: rest)).mask = none) : second &&& 0x80 = 0 := by
  by_cases hflag : second &&& 0x80 = 0
  · exact hflag
  · have hkey : Header.keyAt? (rest.drop (Header.lengthWidth second)) = none := by
      rw [Header.laidOut, if_neg hflag] at hmask
      exact hmask
    have hdrop := List.length_drop (i := Header.lengthWidth second) (l := rest)
    rw [Header.size, Header.keyWidth, if_neg hflag] at hsize
    simp only [List.length_cons] at hsize
    match hbytes : rest.drop (Header.lengthWidth second) with
    | _ :: _ :: _ :: _ :: _ =>
        rw [hbytes] at hkey
        cases hkey
    | [] | [_] | [_, _] | [_, _, _] =>
        rw [hbytes] at hdrop
        simp only [List.length_cons, List.length_nil] at hdrop
        omega

/-- A frame as the server writes them is encoded to the bytes that it was decoded from. -/
theorem encode_decodedFrom {op : Opcode}
    (hle : Header.size b + Header.announced b ≤ b.length)
    (hfin : (Header.laidOut b).fin = true) (hreserved : (Header.laidOut b).reserved = 0)
    (hmask : (Header.laidOut b).mask = none)
    (hop : Opcode.ofValue? (Header.laidOut b).opcode = some op)
    (hfewest : Header.size b = 2 + Header.fewest (Header.announced b)) :
    encode op (decodedFrom b).payload = b.take (Header.size b + Header.announced b) := by
  have htwo := Header.two_le_size b
  match b, (show 2 ≤ b.length by omega) with
  | first :: second :: rest, _ =>
      have hflag := unmasked_of_laidOut (by omega) hmask
      have hsize : Header.size (first :: second :: rest) = 2 + Header.lengthWidth second := by
        rw [Header.size, Header.keyWidth, if_pos hflag, Nat.add_zero]
      have hfirst : 0x80 ||| op.value = first := by
        rw [Opcode.ofValue?_eq_some_iff] at hop
        rw [← hop]
        refine Header.first_of_opcode ?_ hreserved
        simpa [Header.laidOut] using hfin
      have hlength := length_payload_decodedFrom hle
      rw [hsize] at hle hfewest
      simp only [List.length_cons] at hle
      have hfield := Header.encodeLength_announced first second rest hflag (by omega)
        (by omega)
      have hpayload : (decodedFrom (first :: second :: rest)).payload =
          (rest.drop (Header.lengthWidth second)).take
            (Header.announced (first :: second :: rest)) := by
        rw [decodedFrom, hmask, hsize]
        show List.drop _ _ = _
        rw [List.drop_take, Nat.add_sub_cancel_left, Nat.add_comm 2]
        rfl
      rw [encode, hlength, hfield, hfirst, hpayload, hsize]
      calc first :: (second :: rest.take (Header.lengthWidth second)) ++
            (rest.drop (Header.lengthWidth second)).take
              (Header.announced (first :: second :: rest))
          = first :: second :: (rest.take (Header.lengthWidth second +
              Header.announced (first :: second :: rest))) := by
            rw [List.take_add]
            rfl
        _ = (first :: second :: rest).take (2 + Header.lengthWidth second +
              Header.announced (first :: second :: rest)) := by
            rw [Nat.add_assoc, Nat.add_comm 2]
            rfl

/-- `frame` is what stands at the front of `b`, and `after` is `b` with its payload unmasked. -/
structure Exact (b : Bytes) (frame : Decoded) (after : Bytes) : Prop where
  parsed : Header.parse? b = some frame.header
  headerLength : frame.header.length = Header.size b
  headerLength_mem : frame.header.length ∈ [2, 4, 6, 8, 10, 14]
  payloadLength : frame.header.payloadLength = Header.announced b
  /-- The frame is as long as its header and the payload that the header announces, -/
  length : frame.length = frame.header.length + frame.header.payloadLength
  length_le : frame.length ≤ b.length
  /-- its payload is what lies behind the header, without its mask, -/
  payload : frame.payload =
    unmask frame.header.mask ((b.take frame.length).drop frame.header.length)
  /-- which stands at the same place now; -/
  unmasked : (after.take frame.length).drop frame.header.length = frame.payload
  /-- the header stays as it is, -/
  front : after.take frame.header.length = b.take frame.header.length
  /-- and what lies behind the frame. -/
  behind : after.drop frame.length = b.drop frame.length
  kept : after.length = b.length
  /-- More bytes change nothing. -/
  stable : ∀ more, decodeInPlace (b ++ more) = (some frame, after ++ more)
  /-- A frame that is final, without reserved bits, unmasked and of a known opcode, and whose length
  is written in as few bytes as can be, is the one that is sent for its payload. -/
  canonical : ∀ op, frame.header.fin = true → frame.header.reserved = 0 →
    frame.header.mask = none → Opcode.ofValue? frame.header.opcode = some op →
    frame.header.length = 2 + Header.fewest frame.header.payloadLength →
    encode op frame.payload = b.take frame.length

theorem Exact.of_le (hb : b.length < 2 ^ 63)
    (hle : Header.size b + Header.announced b ≤ b.length) :
    Exact b (decodedFrom b) (b.take (Header.size b) ++ (decodedFrom b).payload ++
      b.drop (Header.size b + Header.announced b)) := by
  have hdecode := decode?_eq hb
  rw [if_neg (by omega)] at hdecode
  have hparsed := Header.parse?_eq b
  rw [if_neg (by omega)] at hparsed
  have hhead : (b.take (Header.size b)).length = Header.size b := by
    rw [List.length_take]
    omega
  have hfront : (b.take (Header.size b) ++ (decodedFrom b).payload).length =
      Header.size b + Header.announced b := by
    rw [List.length_append, hhead, length_payload_decodedFrom hle]
  have hsize : (decodedFrom b).header.length = Header.size b := Header.length_laidOut b
  exact {
    parsed := hparsed
    headerLength := hsize
    headerLength_mem := by
      rw [hsize]
      exact Header.size_mem b
    payloadLength := Header.payloadLength_laidOut b
    length := by
      rw [hsize, decodedFrom, Header.payloadLength_laidOut]
    length_le := hle
    payload := by
      rw [hsize]
      rfl
    unmasked := by
      rw [hsize]
      show (List.take (Header.size b + Header.announced b) _).drop _ = _
      rw [List.take_left' hfront, List.drop_left' hhead]
    front := by
      rw [hsize, List.append_assoc, List.take_left' hhead]
    behind := List.drop_left' hfront
    kept := (decode?_length hdecode).2.2
    stable := fun more => by rw [decodeInPlace, decode?_append more hdecode]
    canonical := fun op hfin hreserved hmask hop hfewest => by
      rw [hsize, decodedFrom, Header.payloadLength_laidOut] at hfewest
      exact encode_decodedFrom hle hfin hreserved hmask hop hfewest }

/-- **What is decoded from any bytes.**  Nothing is decoded exactly if the header is incomplete, or
if the buffer holds fewer bytes than header and payload have together, however many the header
announces; the buffer stays as it is then.  What is decoded otherwise is `Exact`. -/
theorem decodeInPlace_exact (b : Bytes) (hb : b.length < 2 ^ 63) :
    (Header.parse? b = none ↔ b.length < Header.size b) ∧
    ((decodeInPlace b).1 = none ↔ Header.parse? b = none ∨
      ∃ h, Header.parse? b = some h ∧ b.length < h.length + h.payloadLength) ∧
    ((decodeInPlace b).1 = none → (decodeInPlace b).2 = b) ∧
    ∀ frame after, decodeInPlace b = (some frame, after) → Exact b frame after := by
  have hparse := Header.parse?_eq b
  have hnone : Header.parse? b = none ↔ b.length < Header.size b := by
    rw [hparse]
    split
    · next hlt => exact iff_of_true rfl hlt
    · next hle => exact iff_of_false (Option.some_ne_none _) hle
  refine ⟨hnone, ?_⟩
  have hdecode := decode?_eq hb
  split at hdecode
  · next hlt =>
    rw [decodeInPlace, hdecode]
    refine ⟨iff_of_true rfl ?_, fun _ => rfl, fun frame after h => by cases h⟩
    rcases Nat.lt_or_ge b.length (Header.size b) with hshort | hlong
    · exact .inl (hnone.mpr hshort)
    · rw [if_neg (by omega)] at hparse
      refine .inr ⟨_, hparse, ?_⟩
      rwa [Header.length_laidOut, Header.payloadLength_laidOut]
  · next hle =>
    rw [decodeInPlace, hdecode]
    dsimp only
    refine ⟨iff_of_false (Option.some_ne_none _) ?_,
      fun h => absurd h (Option.some_ne_none _), fun frame after h => ?_⟩
    · rw [if_neg (by omega)] at hparse
      rintro (hnot | ⟨h, hsome, hlt⟩)
      · rw [hparse] at hnot
        cases hnot
      · rw [hparse] at hsome
        cases hsome
        rw [Header.length_laidOut, Header.payloadLength_laidOut] at hlt
        exact hle hlt
    · cases h
      exact Exact.of_le hb (by omega)

/-- A header that announces 2^64 - 1 bytes, of which one is there, and a frame with one byte behind
it. -/
theorem decodeInPlace_exact_huge :
    let huge : Bytes := [0x82, 0xFF, 255, 255, 255, 255, 255, 255, 255, 255, 1, 2, 3, 4, 0x61]
    let whole : Bytes := [0x81, 2, 104, 105, 9]
    huge.length < 2 ^ 63 ∧ whole.length < 2 ^ 63 ∧
      (Header.parse? huge).map (·.payloadLength) = some (2 ^ 64 - 1) ∧
      decodeInPlace huge = (none, huge) ∧
      ∃ frame after, decodeInPlace whole = (some frame, after) ∧ Exact whole frame after ∧
        encode .text frame.payload = whole.take frame.length := by
  intro huge whole
  have hhuge : huge.length < 2 ^ 63 := by decide
  have hwhole : whole.length < 2 ^ 63 := by decide
  obtain ⟨-, hnone, hkept, -⟩ := decodeInPlace_exact huge hhuge
  have hnothing : (decodeInPlace huge).1 = none :=
    hnone.mpr (.inr ⟨_, rfl, by decide⟩)
  have hexact := (decodeInPlace_exact whole hwhole).2.2.2 _ _ rfl
  exact ⟨hhuge, hwhole, by decide, Prod.ext hnothing (hkept hnothing), _, _, rfl, hexact,
    hexact.canonical .text rfl rfl rfl rfl rfl⟩

end Frame

end WsRelay
