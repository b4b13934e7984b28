import WsRelay.Proofs.Json.Exactness
import WsRelay.Proofs.Text.Sequences
/-! # The edges of values

Whatever stands inside its strings, a JSON value begins and ends with an ASCII byte
(`edges_value`), and so does what a framing cuts off a buffer for it, blanks and value together
(`Front.edges`).  A value in a well-formed stream is therefore well-formed, also behind a stretch of
the stream that ends inside a character (`wellFormed_front`). -/

namespace WsRelay.Json

open Utf8

variable {b c : UInt8} {w v r xs data : Bytes} {depth : Nat}

theorem ascii_of_isBlank (h : isBlank b = true) : b.toNat < 0x80 := by
  simp only [isBlank, Bool.or_eq_true, beq_iff_eq] at h
  rcases h with ((rfl | rfl) | rfl) | rfl <;> decide

theorem ascii_of_isDigit (h : isDigit b = true) : b.toNat < 0x80 := by
  simp only [isDigit, Bool.and_eq_true, decide_eq_true_eq, UInt8.le_iff_toNat_le,
    UInt8.reduceToNat] at h
  omega

theorem ascii_of_inNumber (h : inNumber b = true) : b.toNat < 0x80 := by
  simp only [inNumber, isSign, isExponent, Bool.or_eq_true, beq_iff_eq] at h
  rcases h with ((hdigit | rfl | rfl) | rfl) | rfl | rfl
  · exact ascii_of_isDigit hdigit
  all_goals decide

theorem Opens.ascii {n : Numeral} (h : Opens b n) : b.toNat < 0x80 := by
  cases h with
  | minus | zero => decide
  | digit hb => exact ascii_of_isDigit hb

/-- What stands between two ASCII bytes has ASCII edges. -/
theorem edges_between (hb : b.toNat < 0x80) (hc : c.toNat < 0x80) :
    BeginsAscii (b :: (xs ++ [c])) ∧ EndsAscii (b :: (xs ++ [c])) := by
  constructor
  · rintro _ ⟨⟩
    exact hb
  · rw [← List.cons_append, EndsAscii, List.getLast?_concat]
    rintro _ ⟨⟩
    exact hc

theorem ascii_opening (bracket : Bracket) : bracket.opening.toNat < 0x80 := by
  cases bracket <;> decide

theorem ascii_close (bracket : Bracket) : bracket.close.toNat < 0x80 := by
  cases bracket <;> decide

/-- **A value begins and ends with an ASCII byte.** -/
theorem edges_value (h : Derives .value depth v) : BeginsAscii v ∧ EndsAscii v := by
  cases h with
  | closed h =>
      cases h with
      | text h =>
          cases h with
          | quoted => exact edges_between (by decide) (by decide)
      | literal h =>
          have hall : ∀ t ∈ literals, ∀ b ∈ t, b.toNat < 0x80 := by decide +kernel
          exact ⟨beginsAscii_of_ascii (hall v h), endsAscii_of_ascii (hall v h)⟩
      | empty => exact edges_between (ascii_opening _) (ascii_close _)
      | container => exact edges_between (ascii_opening _) (ascii_close _)
  | number h =>
      obtain ⟨b, n, t, rfl, hopens, ht, -⟩ := h.exists_numeral
      have hall : ∀ c ∈ b :: t, c.toNat < 0x80 :=
        List.forall_mem_cons.mpr ⟨hopens.ascii, fun c hc => ascii_of_inNumber (ht c hc)⟩
      exact ⟨beginsAscii_of_ascii hall, endsAscii_of_ascii hall⟩

/-- Blanks and a value have the edges of a value. -/
theorem Front.edges (h : Front data w v r) : BeginsAscii (w ++ v) ∧ EndsAscii (w ++ v) := by
  have hw : ∀ b ∈ w, b.toNat < 0x80 := fun b hb => ascii_of_isBlank (h.blanks b hb)
  obtain ⟨hbegins, hends⟩ := edges_value h.value
  exact ⟨(beginsAscii_of_ascii hw).append hbegins, (endsAscii_of_ascii hw).append hends⟩

/-- **A value in a well-formed stream is well-formed**, whatever stands in front of it. -/
theorem wellFormed_front {x y : Bytes} (h : Front data w v r)
    (hstream : WellFormed (x ++ (data ++ y))) : WellFormed (w ++ v) := by
  obtain ⟨hbegins, hends⟩ := h.edges
  rw [h.split, ← List.append_assoc w, List.append_assoc (w ++ v)] at hstream
  exact hstream.within hbegins hends

end WsRelay.Json
