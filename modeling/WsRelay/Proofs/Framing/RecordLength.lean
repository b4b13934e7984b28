import Mathlib.Algebra.Ring.Nat
import WsRelay.Proofs.Framing.Streams
/-! # The length of a record in unbounded integers

The length of a record is added up in 64-bit signed integers that stay at their ends.  As long as
the length field lies below the upper end, only the upper end is ever met, and the sum is the lesser
of it and the sum without bounds (`total_eq`).  A buffer that is shorter than the upper end cannot
tell the two apart, so the framing answers as unbounded integers would have it
(`lengthPrefixed_exact`). -/

namespace WsRelay.RecordLayout

variable {layout : RecordLayout} {data : Bytes}

/-- The number that four bytes spell in the byte order of a layout. -/
def spelled (layout : RecordLayout) (a b c d : UInt8) : Nat :=
  if layout.bigEndian then a.toNat * 2 ^ 24 + b.toNat * 2 ^ 16 + c.toNat * 2 ^ 8 + d.toNat
  else a.toNat + b.toNat * 2 ^ 8 + c.toNat * 2 ^ 16 + d.toNat * 2 ^ 24

/-- The length of a record, added up without bounds: what stands before the length field, the field
itself, the configured number of bytes, and the value of the field. -/
def exactTotal (layout : RecordLayout) (field : Nat) : Int :=
  layout.offset.toNat + 4 + layout.adjust.toInt + field

/-! ### The length field -/

/-- The length field is the four bytes behind the first `offset` ones. -/
inductive Field (layout : RecordLayout) (data : Bytes) : (value : Nat) → Prop
  | behind {head tail : Bytes} {a b c d : UInt8} (hdata : head ++ a :: b :: c :: d :: tail = data)
      (hoffset : head.length = layout.offset.toNat) : Field layout data (layout.spelled a b c d)

theorem Field.le_length {field : Nat} (h : Field layout data field) :
    layout.offset.toNat + 4 ≤ data.length := by
  obtain ⟨rfl, hoffset⟩ := h
  simp only [List.length_append, List.length_cons]
  omega

/-- A buffer that is long enough has a length field. -/
theorem exists_field (h : layout.offset.toNat + 4 ≤ data.length) :
    ∃ field, Field layout data field := by
  have hlen := List.length_drop (i := layout.offset.toNat) (l := data)
  have htake : (data.take layout.offset.toNat).length = layout.offset.toNat := by
    rw [List.length_take]
    omega
  have hsplit := List.take_append_drop layout.offset.toNat data
  rcases hdrop : data.drop layout.offset.toNat with _ | ⟨a, _ | ⟨b, _ | ⟨c, _ | ⟨d, tail⟩⟩⟩⟩
  case cons.cons.cons.cons =>
    rw [hdrop] at hsplit
    exact ⟨_, .behind hsplit htake⟩
  -- fewer than four bytes are behind the first ones
  all_goals
    rw [hdrop] at hlen
    simp only [List.length_cons, List.length_nil] at hlen
    omega

theorem Field.lt {field : Nat} (h : Field layout data field) : field < 2 ^ 32 := by
  cases h with
  | @behind head tail a b c d _ _ =>
      have := a.toNat_lt
      have := b.toNat_lt
      have := c.toNat_lt
      have := d.toNat_lt
      unfold spelled
      split <;> omega

/-- What is read as the length field is the length field. -/
theorem Field.field?_eq {field : Nat} (h : Field layout data field)
    (hdata : data.length < UInt64.size) : layout.field? data = some field := by
  have hle := h.le_length
  cases h with
  | @behind head tail a b c d hdrop hoffset =>
      have hfour : (data.drop layout.offset.toNat).take 4 = [a, b, c, d] := by
        rw [← hdrop, ← hoffset, List.drop_left]
        rfl
      unfold field?
      dsimp only
      rw [if_pos ⟨by omega, hle⟩, hfour]
      unfold spelled Bytes.bigEndian Bytes.littleEndian
      congr 1
      split <;> simp only [List.foldl_cons, List.foldl_nil, List.foldr_cons, List.foldr_nil] <;>
        omega

theorem field?_eq_none (h : data.length < layout.offset.toNat + 4) : layout.field? data = none := by
  unfold field?
  dsimp only
  exact if_neg fun hle => by omega

/-! ### The sum -/

/-- Only the upper end is ever met. -/
theorem total_eq (field : Nat) (h : layout.offset.toNat + 4 < Text.signedLimit) :
    layout.total field = min (layout.exactTotal field) (Text.signedLimit - 1) := by
  have hlow := layout.adjust.le_toInt
  have hhigh := layout.adjust.toInt_lt
  unfold total addSaturating exactTotal Text.signedLimit at *
  dsimp only
  omega

/-- A buffer that is shorter than the upper end cannot tell that the sum stays there. -/
theorem recordEnd_exact {field : Nat} (h : Field layout data field)
    (hdata : data.length < 2 ^ 63 - 1) :
    layout.recordEnd data =
      if layout.exactTotal field ≤ 0 then .error (.recordOutOfRange (layout.exactTotal field))
      else if layout.exactTotal field ≤ data.length then .ok (layout.exactTotal field).toNat
      else .ok 0 := by
  have hle := h.le_length
  have hsize : UInt64.size = 2 ^ 64 := rfl
  have hlimit : Text.signedLimit = 2 ^ 63 := rfl
  have htotal := layout.total_eq field (by omega)
  rw [recordEnd_of_some (h.field?_eq (by omega))]
  by_cases hneg : layout.exactTotal field ≤ 0
  · have hsame : layout.total field = layout.exactTotal field := by omega
    rw [hsame]
  · rw [if_neg hneg, if_neg (by omega)]
    by_cases hall : layout.exactTotal field ≤ data.length
    · have hsame : layout.total field = layout.exactTotal field := by omega
      rw [hsame]
    · rw [if_neg hall, if_neg (by omega)]

end WsRelay.RecordLayout

namespace WsRelay.Framing

open RecordLayout

variable {σ : Type}

/-- **A record with a length field is as long as unbounded integers make it.**  In a buffer that is
shorter than the greatest 64-bit signed integer, a length field that has not arrived is waited for.
One that has arrived announces a record: a length that is not positive is refused, and a record that
is not all there is waited for.  The layout is remembered in any case. -/
theorem lengthPrefixed_exact (layout : RecordLayout) {data : Bytes}
    (hdata : data.length < 2 ^ 63 - 1) (lastRead : Nat) (config : String) :
    let reply := lengthPrefixed data lastRead config (.layout layout : Memory σ)
    reply.2 = .layout layout ∧
      (data.length < layout.offset.toNat + 4 → reply.1 = .ok ⟨0, .binary⟩) ∧
      (layout.offset.toNat + 4 ≤ data.length →
        ∃ field, Field layout data field ∧ field < 2 ^ 32 ∧
          let total := layout.exactTotal field
          (total ≤ 0 → reply.1 = .error (.recordOutOfRange total)) ∧
            (0 < total → total ≤ data.length → reply.1 = .ok ⟨total.toNat, .binary⟩) ∧
            (data.length < total → reply.1 = .ok ⟨0, .binary⟩)) := by
  intro reply
  have hreply : reply.1 = layoutCut layout data := rfl
  rw [hreply, layoutCut]
  refine ⟨rfl, fun hshort => ?_, fun hlong => ?_⟩
  · rw [recordEnd_of_none (field?_eq_none hshort)]
    rfl
  · obtain ⟨field, hfield⟩ := exists_field hlong
    rw [recordEnd_exact hfield hdata]
    refine ⟨field, hfield, hfield.lt, fun hneg => ?_, fun hpos hall => ?_, fun hmore => ?_⟩
    · rw [if_pos hneg]
      rfl
    · rw [if_neg (by omega), if_pos hall]
      rfl
    · rw [if_neg (by omega), if_neg (by omega)]
      rfl

/-- The configured number of bytes alone takes the sum to the upper end, and the record is waited
for. -/
theorem lengthPrefixed_exact_saturated :
    let layout : RecordLayout := { offset := 1, adjust := Int64.maxValue, bigEndian := true }
    let data : Bytes := [7, 0, 0, 0, 2, 9]
    data.length < 2 ^ 63 - 1 ∧ ∃ field, Field layout data field ∧
      Text.signedLimit < layout.exactTotal field ∧
      (lengthPrefixed data 6 "" (.layout layout : Memory Unit)).1 = .ok ⟨0, .binary⟩ := by
  intro layout data
  have hlen : data.length = 6 := rfl
  have hdata : data.length < 2 ^ 63 - 1 := by omega
  obtain ⟨-, -, hlong⟩ := lengthPrefixed_exact (σ := Unit) layout hdata 6 ""
  obtain ⟨field, hfield, -, -, -, hmore⟩ := hlong (by decide)
  have hadjust : layout.adjust.toInt = 2 ^ 63 - 1 := rfl
  have hoffset : layout.offset.toNat = 1 := rfl
  have hlimit : Text.signedLimit = 2 ^ 63 := rfl
  have htotal : Text.signedLimit < layout.exactTotal field := by
    unfold exactTotal
    omega
  exact ⟨hdata, field, hfield, htotal, hmore (by omega)⟩

end WsRelay.Framing
