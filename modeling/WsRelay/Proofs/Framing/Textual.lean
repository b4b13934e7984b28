import WsRelay.Framing.Passthrough
import WsRelay.Proofs.Text.Sequences
/-! # What looks like text

The recogniser of `auto` reads a byte string from the front and owes continuation bytes after the
first byte of a longer sequence.  It accepts exactly the concatenations of sequences
(`isTextual_iff`): all texts (`isTextual_of_wellFormed`), and besides these overlong forms and
surrogates.  As no sequence begins another, accepted bytes in front change nothing for what follows
(`isTextual_append`). -/

namespace WsRelay.Framing

open Utf8

variable {b : UInt8} {n owed : Nat} {x y u bs : Bytes} {us : List Bytes}

/-! ### Single bytes -/

/-- A mask of leading bits keeps what they spell. -/
theorem and_leading (k : Fin 9) (i : Fin 256) :
    i.val &&& 256 - 2 ^ k.val = i.val / 2 ^ k.val * 2 ^ k.val := by
  revert i k
  decide +kernel

/-- Bytes are told apart by a mask of leading bits. -/
theorem masked_iff {count top : Nat} {mask bits : UInt8} (hcount : count ≤ 8)
    (hmask : mask.toNat = 256 - 2 ^ (8 - count)) (hbits : bits.toNat = top * 2 ^ (8 - count)) :
    b &&& mask = bits ↔ topBits count b = top := by
  rw [← UInt8.toNat_inj, UInt8.toNat_and, hmask, hbits, topBits,
    and_leading ⟨8 - count, by omega⟩ ⟨b.toNat, b.toNat_lt⟩]
  exact Nat.mul_left_inj (Nat.two_pow_pos _).ne'

theorem isTrailing_iff : isTrailing b = true ↔ Continues b := by
  rw [isTrailing, beq_iff_eq]
  exact masked_iff (by decide) rfl rfl

theorem tailLength?_eq_some_iff : tailLength? b = some n ↔ Leads b n := by
  have hone : b &&& 0x80 = 0 ↔ topBits 1 b = 0 := masked_iff (by decide) rfl rfl
  have htwo : b &&& 0xE0 = 0xC0 ↔ topBits 3 b = 0b110 := masked_iff (by decide) rfl rfl
  have hthree : b &&& 0xF0 = 0xE0 ↔ topBits 4 b = 0b1110 := masked_iff (by decide) rfl rfl
  have hfour : b &&& 0xF8 = 0xF0 ↔ topBits 5 b = 0b11110 := masked_iff (by decide) rfl rfl
  have hlow : topBits 1 b = 0 ↔ b.toNat < 0x80 := by
    unfold topBits
    omega
  simp only [tailLength?, hone, htwo, hthree, hfour, hlow]
  constructor
  · intro h
    split at h
    · cases h
      exact .ascii ‹_›
    · split at h
      · cases h
        exact .two ‹_›
      · split at h
        · cases h
          exact .three ‹_›
        · split at h
          · cases h
            exact .four ‹_›
          · cases h
  · intro h
    unfold topBits
    cases h with
    | ascii h => exact if_pos h
    | two h =>
        unfold topBits at h
        rw [if_neg (by omega), if_pos h]
    | three h =>
        unfold topBits at h
        rw [if_neg (by omega), if_neg (by omega), if_pos h]
    | four h =>
        unfold topBits at h
        rw [if_neg (by omega), if_neg (by omega), if_neg (by omega), if_pos h]

/-! ### Byte strings -/

theorem isTextualAfter_append (h : isTextualAfter owed x = true) :
    isTextualAfter owed (x ++ y) = isTextual y := by
  fun_induction isTextualAfter owed x with
  | case1 => rfl
  | case2 => cases h
  | case3 b bs n hlead ih =>
      rw [List.cons_append, isTextualAfter, hlead]
      exact ih h
  | case4 => cases h
  | case5 owed b bs ih =>
      obtain ⟨hb, hbs⟩ := Bool.and_eq_true_iff.mp h
      rw [List.cons_append, isTextualAfter, hb, Bool.true_and]
      exact ih hbs

/-- What the recogniser accepts while it owes continuation bytes. -/
theorem exists_of_isTextualAfter (h : isTextualAfter owed bs = true) :
    ∃ (tail : Bytes) (us : List Bytes), tail.length = owed ∧ (∀ b ∈ tail, Continues b) ∧
      (∀ u ∈ us, Sequence u) ∧ tail ++ us.flatten = bs := by
  fun_induction isTextualAfter owed bs with
  | case1 => exact ⟨[], [], rfl, List.forall_mem_nil _, List.forall_mem_nil _, rfl⟩
  | case2 => cases h
  | case3 b bs n hlead ih =>
      obtain ⟨tail, us, rfl, htail, hus, rfl⟩ := ih h
      have hu : Sequence (b :: tail) := .intro (tailLength?_eq_some_iff.mp hlead) htail
      exact ⟨[], (b :: tail) :: us, rfl, List.forall_mem_nil _,
        List.forall_mem_cons.mpr ⟨hu, hus⟩, rfl⟩
  | case4 => cases h
  | case5 owed b bs ih =>
      obtain ⟨hb, hbs⟩ := Bool.and_eq_true_iff.mp h
      obtain ⟨tail, us, rfl, htail, hus, rfl⟩ := ih hbs
      exact ⟨b :: tail, us, rfl, List.forall_mem_cons.mpr ⟨isTrailing_iff.mp hb, htail⟩, hus, rfl⟩

theorem isTextualAfter_of_continues (h : ∀ b ∈ bs, Continues b) :
    isTextualAfter bs.length bs = true := by
  induction bs with
  | nil => rfl
  | cons b bs ih =>
      obtain ⟨hb, hbs⟩ := List.forall_mem_cons.mp h
      rw [List.length_cons, isTextualAfter, isTrailing_iff.mpr hb, ih hbs, Bool.true_and]

theorem isTextual_sequence (h : Sequence u) : isTextual u = true := by
  cases h with
  | intro hfirst htail =>
      rw [isTextual, isTextualAfter, tailLength?_eq_some_iff.mpr hfirst]
      exact isTextualAfter_of_continues htail

theorem isTextual_append (h : isTextual x = true) : isTextual (x ++ y) = isTextual y :=
  isTextualAfter_append h

theorem isTextual_flatten (h : ∀ u ∈ us, Sequence u) : isTextual us.flatten = true := by
  induction us with
  | nil => rfl
  | cons u us ih =>
      obtain ⟨hu, hus⟩ := List.forall_mem_cons.mp h
      rw [List.flatten_cons, isTextual_append (isTextual_sequence hu), ih hus]

/-- **What looks like text is a concatenation of sequences.** -/
theorem isTextual_iff :
    isTextual bs = true ↔ ∃ us : List Bytes, (∀ u ∈ us, Sequence u) ∧ us.flatten = bs := by
  constructor
  · intro h
    obtain ⟨tail, us, hnone, -, hus, rfl⟩ := exists_of_isTextualAfter h
    obtain rfl := List.eq_nil_of_length_eq_zero hnone
    exact ⟨us, hus, rfl⟩
  · rintro ⟨us, hus, rfl⟩
    exact isTextual_flatten hus

/-- Every text looks like text. -/
theorem isTextual_of_wellFormed (h : WellFormed bs) : isTextual bs = true := by
  obtain ⟨s, rfl⟩ := h
  exact isTextual_iff.mpr ⟨_, (encode_eq_flatten s).1, (encode_eq_flatten s).2.symm⟩

/-- **Looking like text is a grammar of sequences.**  Accepted are the concatenations of sequences,
each in one way, and among them all texts.  Whether bytes are accepted behind accepted ones is a
matter of the later bytes alone. -/
theorem textual_grammar :
    (∀ bs, isTextual bs = true ↔
      ∃ us : List Bytes, (∀ u ∈ us, Sequence u) ∧ us.flatten = bs) ∧
    (∀ us vs : List Bytes, (∀ u ∈ us, Sequence u) → (∀ v ∈ vs, Sequence v) →
      us.flatten = vs.flatten → us = vs) ∧
    (∀ bs, WellFormed bs → isTextual bs = true) ∧
    ∀ x y, isTextual x = true → (isTextual (x ++ y) = true ↔ isTextual y = true) := by
  refine ⟨fun bs => isTextual_iff, fun us vs => flatten_injective,
    fun bs => isTextual_of_wellFormed, fun x y hx => ?_⟩
  rw [isTextual_append hx]

/-- The euro sign looks like text, and so does an overlong form behind it; half a sign does not. -/
theorem textual_grammar_euro :
    WellFormed [0xE2, 0x82, 0xAC] ∧ isTextual [0xE2, 0x82, 0xAC] = true ∧
      isTextual [0xE2, 0x82, 0xAC, 0xC0, 0x80] = true ∧
      isTextual [0xE2, 0x82, 0xAC, 0xE2, 0x82] = false ∧
      ∀ us : List Bytes, (∀ u ∈ us, Sequence u) → us.flatten = [0xE2, 0x82, 0xAC, 0xC0, 0x80] →
        us = [[0xE2, 0x82, 0xAC], [0xC0, 0x80]] := by
  obtain ⟨hiff, hunique, htexts, happend⟩ := textual_grammar
  have heuro : WellFormed [0xE2, 0x82, 0xAC] := ⟨"€", by decide⟩
  have hsequence : Sequence [0xE2, 0x82, 0xAC] := .intro (.three (by decide)) (by decide +kernel)
  have hoverlong : Sequence [0xC0, 0x80] := .intro (.two (by decide)) (by decide +kernel)
  have hboth : ∀ u ∈ ([[0xE2, 0x82, 0xAC], [0xC0, 0x80]] : List Bytes), Sequence u :=
    List.forall_mem_cons.mpr ⟨hsequence, List.forall_mem_singleton.mpr hoverlong⟩
  have hlooks : isTextual [0xE2, 0x82, 0xAC] = true := htexts _ heuro
  refine ⟨heuro, hlooks, (hiff _).mpr ⟨_, hboth, rfl⟩, ?_, fun us hus h => hunique us _ hus hboth h⟩
  exact Bool.eq_false_iff.mpr fun h => absurd ((happend _ [0xE2, 0x82] hlooks).mp h) (by decide)

end WsRelay.Framing
