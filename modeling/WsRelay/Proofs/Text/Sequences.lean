import Mathlib.Algebra.Ring.Nat
import WsRelay.Proofs.Text.Lines
/-! # UTF-8 sequences

The leading bits of a byte say what it is in UTF-8: a character of its own, the first byte of a
longer one, or a continuation (`Leads`, `Continues`).  A `Sequence` is a first byte with as many
continuation bytes as it calls for.  No sequence is the start of another, so a byte string is a
concatenation of sequences in one way only (`flatten_injective`), and what is left behind some of
them is made of the others (`exists_rest`).

Every character is written as a sequence, but not every sequence is a character: overlong forms and
surrogates are sequences too.  `WellFormed` are the bytes of a text.  If well-formed bytes begin
with whole sequences, both these and what follows them are well-formed (`WellFormed.split`).  So
they can be cut in front of an ASCII byte (`WellFormed.before`) and behind one
(`WellFormed.behind`), and a stretch of them that begins and ends with one is well-formed
(`WellFormed.within`). -/

namespace WsRelay.Utf8

variable {b : UInt8} {n m : Nat} {u v x y bs : Bytes} {us vs : List Bytes}

/-- The number that the first `count` bits of a byte spell. -/
def topBits (count : Nat) (b : UInt8) : Nat :=
  b.toNat / 2 ^ (8 - count)

/-- The byte continues a sequence. -/
def Continues (b : UInt8) : Prop :=
  topBits 2 b = 0b10

instance : Decidable (Continues b) :=
  inferInstanceAs (Decidable (topBits 2 b = 0b10))

/-- How many continuation bytes follow a first byte. -/
inductive Leads (b : UInt8) : Nat → Prop
  | ascii (h : b.toNat < 0x80) : Leads b 0
  | two (h : topBits 3 b = 0b110) : Leads b 1
  | three (h : topBits 4 b = 0b1110) : Leads b 2
  | four (h : topBits 5 b = 0b11110) : Leads b 3

theorem Leads.unique (h : Leads b n) (h' : Leads b m) : n = m := by
  cases h <;> cases h' <;> unfold topBits at * <;> omega

/-- A first byte and its continuation bytes. -/
inductive Sequence : Bytes → Prop
  | intro {first : UInt8} {tail : Bytes} (hfirst : Leads first tail.length)
      (htail : ∀ b ∈ tail, Continues b) : Sequence (first :: tail)

theorem Sequence.ne_nil (h : Sequence u) : u ≠ [] := by
  cases h
  exact List.cons_ne_nil _ _

/-- What begins with a sequence begins with no other. -/
theorem Sequence.append_inj (hu : Sequence u) (hv : Sequence v) (h : u ++ x = v ++ y) :
    u = v ∧ x = y := by
  cases hu with
  | intro hfirst _ =>
      cases hv with
      | intro hfirst' _ =>
          obtain ⟨rfl, htails⟩ := List.cons.inj h
          obtain ⟨rfl, hrest⟩ := List.append_inj htails (hfirst.unique hfirst')
          exact ⟨rfl, hrest⟩

/-- Sequences that others begin with are the first of them. -/
theorem exists_rest (hus : ∀ u ∈ us, Sequence u) (hvs : ∀ v ∈ vs, Sequence v)
    (h : us.flatten ++ y = vs.flatten) : ∃ ws, vs = us ++ ws ∧ ws.flatten = y := by
  induction us generalizing vs with
  | nil => exact ⟨vs, rfl, h.symm⟩
  | cons u us ih =>
      obtain ⟨hu, hus⟩ := List.forall_mem_cons.mp hus
      rw [List.flatten_cons, List.append_assoc] at h
      cases vs with
      | nil => exact absurd (List.append_eq_nil_iff.mp h).1 hu.ne_nil
      | cons v vs =>
          obtain ⟨hv, hmore⟩ := List.forall_mem_cons.mp hvs
          obtain ⟨rfl, hrest⟩ := hu.append_inj hv (h.trans List.flatten_cons)
          obtain ⟨ws, rfl, hws⟩ := ih hus hmore hrest
          exact ⟨ws, rfl, hws⟩

/-- **There is one way to take bytes apart into sequences.** -/
theorem flatten_injective (hus : ∀ u ∈ us, Sequence u) (hvs : ∀ v ∈ vs, Sequence v)
    (h : us.flatten = vs.flatten) : us = vs := by
  obtain ⟨ws, rfl, hws⟩ := exists_rest hus hvs ((List.append_nil _).trans h)
  cases ws with
  | nil => exact (List.append_nil us).symm
  | cons w ws =>
      have hw : Sequence w := hvs w (List.mem_append_right _ List.mem_cons_self)
      exact absurd (List.append_eq_nil_iff.mp (List.flatten_cons.symm.trans hws)).1 hw.ne_nil

/-- Inside a sequence there are continuation bytes only. -/
theorem Sequence.eq_nil (hu : Sequence (x ++ b :: y)) (hb : ¬ Continues b) : x = [] := by
  cases x with
  | nil => rfl
  | cons first x =>
      cases hu with
      | intro _ htail =>
          exact absurd (htail b (List.mem_append_right x List.mem_cons_self)) hb

/-- Where a byte begins a sequence, whole sequences stand in front of it. -/
theorem exists_front (hus : ∀ u ∈ us, Sequence u) (hb : ¬ Continues b)
    (h : us.flatten = x ++ b :: y) :
    ∃ vs : List Bytes, (∀ v ∈ vs, Sequence v) ∧ vs.flatten = x := by
  induction us generalizing x with
  | nil => exact absurd h.symm (List.append_ne_nil_of_right_ne_nil x (List.cons_ne_nil b y))
  | cons u us ih =>
      obtain ⟨hu, hus⟩ := List.forall_mem_cons.mp hus
      rw [List.flatten_cons] at h
      rcases List.append_eq_append_iff.mp h with ⟨between, rfl, hrest⟩ | ⟨overlap, rfl, hrest⟩
      · obtain ⟨vs, hvs, rfl⟩ := ih hus hrest
        exact ⟨u :: vs, List.forall_mem_cons.mpr ⟨hu, hvs⟩, List.flatten_cons⟩
      · cases overlap with
        | nil =>
            rw [List.append_nil] at hu
            exact ⟨[x], List.forall_mem_singleton.mpr hu, List.flatten_singleton⟩
        | cons c overlap =>
            obtain ⟨rfl, -⟩ := List.cons.inj hrest
            exact ⟨[], List.forall_mem_nil _, (hu.eq_nil hb).symm⟩

/-! ### Texts -/

/-- Every character is written as a sequence. -/
theorem sequence_utf8EncodeChar (c : Char) : Sequence (String.utf8EncodeChar c) := by
  have hval : c.val.toNat < 0x110000 := by
    rcases c.valid with h | h
    · exact Nat.lt_trans h (by decide)
    · exact h.2
  unfold String.utf8EncodeChar
  dsimp only
  -- one, two, three or four bytes, of which all but the first carry six bits each
  split
  · refine .intro (.ascii ?_) (List.forall_mem_nil _)
    rw [UInt8.toNat_ofNat']
    omega
  · split
    · refine .intro (.two ?_) (List.forall_mem_singleton.mpr ?_)
      all_goals
        simp only [Continues, topBits, UInt8.toNat_ofNat']
        omega
    · split
      · refine .intro (.three ?_) ?_
        · simp only [topBits, UInt8.toNat_ofNat']
          omega
        · simp only [List.forall_mem_cons, Continues, topBits, UInt8.toNat_ofNat']
          exact ⟨by omega, by omega, List.forall_mem_nil _⟩
      · refine .intro (.four ?_) ?_
        · simp only [topBits, UInt8.toNat_ofNat']
          omega
        · simp only [List.forall_mem_cons, Continues, topBits, UInt8.toNat_ofNat']
          exact ⟨by omega, by omega, by omega, List.forall_mem_nil _⟩

/-- The bytes of a text. -/
def WellFormed (bs : Bytes) : Prop :=
  ∃ s : String, encode s = bs

theorem encode_append (s t : String) : encode (s ++ t) = encode s ++ encode t := by
  unfold encode
  rw [String.toList_append, List.flatMap_append]

theorem WellFormed.append (hx : WellFormed x) (hy : WellFormed y) : WellFormed (x ++ y) := by
  obtain ⟨s, rfl⟩ := hx
  obtain ⟨t, rfl⟩ := hy
  exact ⟨s ++ t, encode_append s t⟩

/-- The sequences of a text are those of its characters. -/
theorem encode_eq_flatten (s : String) :
    (∀ u ∈ s.toList.map String.utf8EncodeChar, Sequence u) ∧
      encode s = (s.toList.map String.utf8EncodeChar).flatten := by
  refine ⟨fun u hu => ?_, rfl⟩
  obtain ⟨c, -, rfl⟩ := List.mem_map.mp hu
  exact sequence_utf8EncodeChar c

/-- Well-formed bytes can be cut behind any whole sequences. -/
theorem WellFormed.split (hus : ∀ u ∈ us, Sequence u) (h : WellFormed (us.flatten ++ y)) :
    WellFormed us.flatten ∧ WellFormed y := by
  obtain ⟨s, hs⟩ := h
  obtain ⟨hcharacters, hflatten⟩ := encode_eq_flatten s
  obtain ⟨ws, hsplit, rfl⟩ := exists_rest hus hcharacters (hs.symm.trans hflatten)
  obtain ⟨cs, ds, -, rfl, rfl⟩ := List.map_eq_append_iff.mp hsplit
  exact ⟨⟨String.ofList cs, by rw [encode, String.toList_ofList]; rfl⟩,
    ⟨String.ofList ds, by rw [encode, String.toList_ofList]; rfl⟩⟩

/-- ASCII bytes are the bytes of a text. -/
theorem wellFormed_of_ascii (h : ∀ b ∈ bs, b.toNat < 0x80) : WellFormed bs := by
  induction bs with
  | nil => exact ⟨"", rfl⟩
  | cons b bs ih =>
      obtain ⟨hb, hbs⟩ := List.forall_mem_cons.mp h
      refine WellFormed.append (x := [b]) ⟨String.singleton (Char.ofNat b.toNat), ?_⟩ (ih hbs)
      have hchar : (Char.ofNat b.toNat).toNat = b.toNat := by
        rcases toNat_charOfNat b.toNat with ⟨hn, -⟩ | ⟨-, hinvalid⟩
        · exact hn
        · exact absurd (.inl (by omega)) hinvalid
      rcases utf8EncodeChar_cases (Char.ofNat b.toNat) with ⟨-, hone⟩ | ⟨hhigh, -⟩
      · rw [encode, String.toList_singleton, List.flatMap_singleton, hone, hchar,
          UInt8.ofNat_toNat]
      · omega

/-! ### Cuts at ASCII bytes -/

/-- If there is a first byte, it is ASCII. -/
def BeginsAscii (bs : Bytes) : Prop :=
  ∀ b ∈ bs.head?, b.toNat < 0x80

/-- If there is a last byte, it is ASCII. -/
def EndsAscii (bs : Bytes) : Prop :=
  ∀ b ∈ bs.getLast?, b.toNat < 0x80

theorem beginsAscii_of_ascii (h : ∀ b ∈ bs, b.toNat < 0x80) : BeginsAscii bs :=
  fun b hb => h b (List.mem_of_mem_head? hb)

theorem endsAscii_of_ascii (h : ∀ b ∈ bs, b.toNat < 0x80) : EndsAscii bs :=
  fun b hb => h b (List.mem_of_mem_getLast? hb)

theorem BeginsAscii.append (hx : BeginsAscii x) (hy : BeginsAscii y) : BeginsAscii (x ++ y) := by
  cases x with
  | nil => exact hy
  | cons b x => exact hx

theorem EndsAscii.append_right (hne : y ≠ []) (hy : EndsAscii y) : EndsAscii (x ++ y) := by
  rw [EndsAscii, List.getLast?_append, List.getLast?_eq_some_getLast hne, Option.some_or]
  rintro _ ⟨⟩
  exact hy _ (List.getLast?_eq_some_getLast hne)

theorem EndsAscii.append (hx : EndsAscii x) (hy : EndsAscii y) : EndsAscii (x ++ y) := by
  by_cases hne : y = []
  · rw [hne, List.append_nil]
    exact hx
  · exact hy.append_right hne

theorem not_continues_of_ascii (hb : b.toNat < 0x80) : ¬ Continues b := by
  unfold Continues topBits
  omega

/-- What stands in front of an ASCII byte is made of whole sequences. -/
theorem WellFormed.exists_front (h : WellFormed (x ++ b :: y)) (hb : b.toNat < 0x80) :
    ∃ vs : List Bytes, (∀ v ∈ vs, Sequence v) ∧ vs.flatten = x := by
  obtain ⟨s, hs⟩ := h
  obtain ⟨hcharacters, hflatten⟩ := encode_eq_flatten s
  exact Utf8.exists_front hcharacters (not_continues_of_ascii hb) (hflatten.symm.trans hs)

/-- **Well-formed bytes can be cut in front of an ASCII byte.** -/
theorem WellFormed.before (h : WellFormed (x ++ y)) (hy : BeginsAscii y) :
    WellFormed x ∧ WellFormed y := by
  cases y with
  | nil =>
      rw [List.append_nil] at h
      exact ⟨h, wellFormed_of_ascii (List.forall_mem_nil _)⟩
  | cons b y =>
      obtain ⟨vs, hvs, rfl⟩ := h.exists_front (hy b rfl)
      exact h.split hvs

/-- **Well-formed bytes can be cut behind an ASCII byte.** -/
theorem WellFormed.behind (h : WellFormed (x ++ y)) (hx : EndsAscii x) :
    WellFormed x ∧ WellFormed y := by
  cases x using List.reverseRecOn with
  | nil => exact ⟨wellFormed_of_ascii (List.forall_mem_nil _), h⟩
  | append_singleton x b _ =>
      have hb : b.toNat < 0x80 := hx b List.getLast?_concat
      rw [List.append_assoc, List.singleton_append] at h
      obtain ⟨vs, hvs, rfl⟩ := h.exists_front hb
      have hone : Sequence [b] := .intro (.ascii hb) (List.forall_mem_nil _)
      have hmore : ∀ v ∈ vs ++ [[b]], Sequence v :=
        List.forall_mem_append.mpr ⟨hvs, List.forall_mem_singleton.mpr hone⟩
      have hflatten : vs.flatten ++ [b] = (vs ++ [[b]]).flatten := by
        rw [List.flatten_append, List.flatten_singleton]
      rw [hflatten]
      refine WellFormed.split hmore ?_
      rw [← hflatten, List.append_assoc]
      exact h

/-- **A stretch of well-formed bytes with ASCII edges is well-formed.** -/
theorem WellFormed.within (h : WellFormed (x ++ (u ++ y))) (hbegins : BeginsAscii u)
    (hends : EndsAscii u) : WellFormed u := by
  cases u with
  | nil => exact wellFormed_of_ascii (List.forall_mem_nil _)
  | cons b u =>
      obtain ⟨-, hrest⟩ := h.before (y := b :: u ++ y) hbegins
      exact (hrest.behind hends).1

end WsRelay.Utf8
