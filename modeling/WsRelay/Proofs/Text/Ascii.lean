import WsRelay.Text.Cut
import WsRelay.Text.Digits
import WsRelay.Text.Utf8
/-! # ASCII in text

Reading bytes as text, well-formed or not, keeps ASCII: an ASCII character other than NUL stands in
the text exactly if its byte stands among the bytes (`Utf8.mem_decodeLossy`).  No byte of a longer
character is mistaken for one, and none is swallowed by a malformed unit.

A text is cut where the separator first stands, if it does (`Text.cut?_eq_none_iff`), and the number
that it starts with is read as if numbers were unbounded, up to the largest that is told apart
(`Text.decimalPrefix_eq`). -/

namespace WsRelay

namespace Utf8

/-- What is known inside a character: ASCII bytes do not continue it, and whatever does, the number
that is spelt in the end is not that of an ASCII character. -/
def State.Spells : State → Prop
  | .between => True
  | .inside 0 low _ value => 0x80 ≤ low.toNat ∧ 0x80 ≤ 64 * value + (low.toNat - 0x80)
  | .inside (_ + 1) low _ value => 0x80 ≤ low.toNat ∧ 2 ≤ 64 * value + (low.toNat - 0x80)

/-- A number that is no character's stands for NUL. -/
theorem toNat_charOfNat (n : Nat) :
    (Char.ofNat n).toNat = n ∧ n.isValidChar ∨ (Char.ofNat n).toNat = 0 ∧ ¬ n.isValidChar := by
  unfold Char.ofNat
  by_cases h : n.isValidChar
  · rw [dif_pos h]
    exact .inl ⟨rfl, h⟩
  · rw [dif_neg h]
    exact .inr ⟨rfl, h⟩

variable {b : UInt8} {c : Char}

/-- A number that is not that of an ASCII character stands for none, or for NUL. -/
theorem ofNat_ne (hpos : 0 < c.toNat) (hc : c.toNat < 0x80) {n : Nat} (h : 0x80 ≤ n) :
    c ≠ Char.ofNat n := by
  rintro rfl
  rcases toNat_charOfNat n with ⟨hn, -⟩ | ⟨hn, -⟩ <;> omega

/-- The first byte of a character is an ASCII character, or begins another. -/
theorem first_ascii (hc : c.toNat < 0x80) (x : UInt8) :
    (first x).2.Spells ∧ (some c ∈ (first x).1 ↔ x.toNat = c.toNat) := by
  have hnone : ¬ some c ∈ ([none] : List Piece) := by
    rw [List.mem_singleton]
    exact nofun
  unfold first
  dsimp only
  split
  · next hx =>
    refine ⟨trivial, ?_⟩
    rw [List.mem_singleton, Option.some.injEq, ← Char.toNat_inj]
    rcases toNat_charOfNat x.toNat with ⟨hn, -⟩ | ⟨-, hinvalid⟩
    · rw [hn]
      exact eq_comm
    · exact absurd (.inl (by omega)) hinvalid
  · have hne : x.toNat ≠ c.toNat := by omega
    have hbegins (state : State) (h : state.Spells) :
        state.Spells ∧ (some c ∈ ([] : List Piece) ↔ x.toNat = c.toNat) :=
      ⟨h, iff_of_false List.not_mem_nil hne⟩
    have hfails : State.between.Spells ∧ (some c ∈ ([none] : List Piece) ↔ x.toNat = c.toNat) :=
      ⟨trivial, iff_of_false hnone hne⟩
    have h80 : (0x80 : UInt8).toNat = 0x80 := rfl
    have hA0 : (0xA0 : UInt8).toNat = 0xA0 := rfl
    have h90 : (0x90 : UInt8).toNat = 0x90 := rfl
    -- what is left are the ranges of first bytes, each with the second bytes that it allows
    repeat' split
    all_goals first
      | exact hfails
      | exact hbegins _ ⟨by omega, by omega⟩

/-- A byte brings an ASCII character if it is that character's. -/
theorem step_ascii (hpos : 0 < c.toNat) (hc : c.toNat < 0x80) {state : State}
    (hs : state.Spells) (x : UInt8) :
    (step state x).2.Spells ∧ (some c ∈ (step state x).1 ↔ x.toNat = c.toNat) := by
  cases state with
  | between => exact first_ascii hc x
  | inside owed low high value =>
      have hlow : 0x80 ≤ low.toNat := by cases owed <;> exact hs.1
      simp only [step]
      split
      · next hx =>
        have hle : low.toNat ≤ x.toNat := UInt8.le_iff_toNat_le.mp hx.1
        have hne : x.toNat ≠ c.toNat := by omega
        cases owed with
        | zero =>
            refine ⟨trivial, iff_of_false ?_ hne⟩
            rw [List.mem_singleton, Option.some.injEq]
            exact ofNat_ne hpos hc (Nat.le_trans hs.2 (by omega))
        | succ owed =>
            have h80 : (0x80 : UInt8).toNat = 0x80 := rfl
            have hvalue : 2 ≤ 64 * value + (x.toNat - 0x80) := Nat.le_trans hs.2 (by omega)
            refine ⟨?_, iff_of_false List.not_mem_nil hne⟩
            cases owed <;> exact ⟨by omega, by omega⟩
      · obtain ⟨hspells, hmem⟩ := first_ascii hc x
        refine ⟨hspells, ?_⟩
        dsimp only
        rw [List.mem_cons, hmem]
        exact or_iff_right nofun

theorem pieces_cons (state : State) (x : UInt8) (bs : Bytes) :
    pieces state (x :: bs) = (step state x).1 ++ pieces (step state x).2 bs := by
  cases state <;> rfl

theorem some_mem_pieces (hpos : 0 < c.toNat) (hc : c.toNat < 0x80) (state : State)
    (hs : state.Spells) (bs : Bytes) :
    some c ∈ pieces state bs ↔ ∃ x ∈ bs, x.toNat = c.toNat := by
  induction bs generalizing state with
  | nil =>
      refine iff_of_false ?_ (by rintro ⟨x, hx, -⟩; exact List.not_mem_nil hx)
      cases state with
      | between => exact List.not_mem_nil
      | inside owed low high value =>
          rw [pieces, List.mem_singleton]
          exact nofun
  | cons x bs ih =>
      obtain ⟨hspells, hmem⟩ := step_ascii hpos hc hs x
      rw [pieces_cons, List.mem_append, hmem, ih _ hspells]
      simp only [List.mem_cons, exists_eq_or_imp]

/-- The replacement character stands for what is malformed, and every other one for itself. -/
theorem getD_eq_iff (hc : c ≠ Char.ofNat 0xFFFD) {p : Piece} :
    p.getD (Char.ofNat 0xFFFD) = c ↔ p = some c := by
  cases p with
  | none => exact iff_of_false (Ne.symm hc) nofun
  | some d => exact (Option.some.injEq d c).symm ▸ Iff.rfl

/-- The byte of an ASCII character. -/
theorem toNat_ascii (hc : c.toNat < 0x80) : (UInt8.ofNat c.toNat).toNat = c.toNat :=
  UInt8.toNat_ofNat_of_lt' (Nat.lt_trans hc (by decide))

/-- **Reading bytes as text keeps ASCII**: an ASCII character other than NUL stands in the text
exactly if its byte stands among the bytes. -/
theorem mem_decodeLossy (hpos : 0 < c.toNat) (hc : c.toNat < 0x80) (bs : Bytes) :
    c ∈ (decodeLossy bs).toList ↔ UInt8.ofNat c.toNat ∈ bs := by
  have hbyte := toNat_ascii hc
  have hreplaced : c ≠ Char.ofNat 0xFFFD := ofNat_ne hpos hc (by decide)
  rw [decodeLossy, String.toList_ofList, List.mem_map]
  simp only [getD_eq_iff hreplaced]
  rw [exists_eq_right, some_mem_pieces hpos hc .between trivial]
  constructor
  · rintro ⟨x, hx, heq⟩
    rwa [UInt8.toNat_inj.mp (hbyte.trans heq.symm)]
  · exact fun h => ⟨_, h, hbyte⟩

end Utf8

namespace Text

theorem cutList?_eq_none_iff {sep : Char} {cs : List Char} : cutList? sep cs = none ↔ sep ∉ cs := by
  induction cs with
  | nil => exact iff_of_true rfl List.not_mem_nil
  | cons c cs ih =>
      rw [cutList?, List.mem_cons]
      split
      · next h => exact iff_of_false nofun fun hnot => hnot (.inl h.symm)
      · next h =>
        rw [Option.map_eq_none_iff, ih]
        exact ⟨fun hnot hmem => hmem.elim (fun heq => h heq.symm) hnot,
          fun hnot hmem => hnot (.inr hmem)⟩

/-- A text is cut unless the separator does not stand in it. -/
theorem cut?_eq_none_iff {sep : Char} {s : String} : cut? sep s = none ↔ sep ∉ s.toList := by
  rw [cut?, Option.map_eq_none_iff, cutList?_eq_none_iff]

/-- The value of the decimal digits a text starts with, 0 if there are none. -/
def decimalValue (s : String) : Nat :=
  (s.toList.takeWhile fun c => decide ('0' ≤ c ∧ c ≤ '9')).foldl
    (fun n c => 10 * n + (c.toNat - 48)) 0

theorem foldl_min (top n : Nat) (digits : List Char) :
    digits.foldl (fun n c => min top (10 * n + (c.toNat - 48))) (min top n) =
      min top (digits.foldl (fun n c => 10 * n + (c.toNat - 48)) n) := by
  induction digits generalizing n with
  | nil => rfl
  | cons c digits ih =>
      have hstep : min top (10 * min top n + (c.toNat - 48)) =
          min top (10 * n + (c.toNat - 48)) := by omega
      rw [List.foldl_cons, List.foldl_cons, hstep, ih]

/-- The number read is the number that is there, or the largest that is told apart. -/
theorem decimalPrefix_eq (top : Nat) (s : String) :
    decimalPrefix top s = min top (decimalValue s) := by
  have h := foldl_min top 0 (s.toList.takeWhile fun c => decide ('0' ≤ c ∧ c ≤ '9'))
  rwa [Nat.min_zero] at h

end Text

end WsRelay
