import WsRelay.Proofs.Text.Boundaries
import WsRelay.Proofs.Text.Lines
import WsRelay.Proofs.Text.Pieces
/-! # Reading bytes as text

Reading gives back what was written and nothing else: where no character is replaced, the bytes are
those of the text (`decodeLossy_eq_iff`).  What has been read inside a character is the beginning of
its bytes, one case for each length that a character can have (`exists_character`).

What stands on either side of an ASCII character is read apart (`decodeLossy_append`), be it
malformed or not, so what is read is cut where the bytes are (`pieces_decodeLossy`). -/

namespace WsRelay.Utf8

variable {b low high : UInt8} {owed value : Nat} {c : Char} {ps : List Piece} {bs : Bytes}
  {s : String}

/-! ### Characters -/

/-- The number that is spelt by continuation bytes behind what has spelt `value`. -/
def spelt (value : Nat) (tail : Bytes) : Nat :=
  tail.foldl (fun v b => 64 * v + (b.toNat - 0x80)) value

theorem spelt_cons (value : Nat) (b : UInt8) (tail : Bytes) :
    spelt value (b :: tail) = spelt (64 * value + (b.toNat - 0x80)) tail := by
  rw [spelt, List.foldl_cons, spelt]

/-- The first and the last byte that continue a character. -/
theorem toNat_range : (0x80 : UInt8).toNat = 0x80 ∧ (0xBF : UInt8).toNat = 0xBF := ⟨rfl, rfl⟩

/-- A character that has been begun and is read comes to its end. -/
theorem exists_tail (h : pieces (.inside owed low high value) bs = some c :: ps) :
    ∃ (second : UInt8) (tail rest : Bytes), bs = second :: (tail ++ rest) ∧ tail.length = owed ∧
      (low.toNat ≤ second.toNat ∧ second.toNat ≤ high.toNat) ∧
      (∀ t ∈ tail, 0x80 ≤ t.toNat ∧ t.toNat ≤ 0xBF) ∧
      c = Char.ofNat (spelt value (second :: tail)) ∧ pieces .between rest = ps := by
  induction owed generalizing low high value bs with
  | zero =>
      cases bs with
      | nil => cases h
      | cons second bs =>
          rw [pieces_cons, step] at h
          split at h
          · next hrange =>
            obtain ⟨hc, hrest⟩ := List.cons.inj h
            exact ⟨second, [], bs, rfl, rfl, hrange.imp UInt8.le_iff_toNat_le.mp
              UInt8.le_iff_toNat_le.mp, List.forall_mem_nil _, (Option.some.inj hc).symm, hrest⟩
          · cases h
  | succ owed ih =>
      cases bs with
      | nil => cases h
      | cons second bs =>
          rw [pieces_cons, step] at h
          split at h
          · next hrange =>
            obtain ⟨third, tail, rest, rfl, hlength, hthird, htail, hc, hrest⟩ := ih h
            rw [toNat_range.1, toNat_range.2] at hthird
            exact ⟨second, third :: tail, rest, rfl, by rw [List.length_cons, hlength],
              hrange.imp UInt8.le_iff_toNat_le.mp UInt8.le_iff_toNat_le.mp,
              List.forall_mem_cons.mpr ⟨hthird, htail⟩, by rw [spelt_cons]; exact hc, hrest⟩
          · cases h

/-- The bytes of the character of a number, if there is one. -/
theorem utf8EncodeChar_ofNat {n : Nat} (h : n.isValidChar) :
    String.utf8EncodeChar (Char.ofNat n) =
      if n ≤ 0x7F then [UInt8.ofNat n]
      else if n ≤ 0x7FF then [UInt8.ofNat (n / 64 % 32 + 192), UInt8.ofNat (n % 64 + 128)]
      else if n ≤ 0xFFFF then
        [UInt8.ofNat (n / 4096 % 16 + 224), UInt8.ofNat (n / 64 % 64 + 128),
          UInt8.ofNat (n % 64 + 128)]
      else
        [UInt8.ofNat (n / 262144 % 8 + 240), UInt8.ofNat (n / 4096 % 64 + 128),
          UInt8.ofNat (n / 64 % 64 + 128), UInt8.ofNat (n % 64 + 128)] := by
  have hval : (Char.ofNat n).val.toNat = n := by
    rcases toNat_charOfNat n with ⟨hn, -⟩ | ⟨-, hinvalid⟩
    · exact hn
    · exact absurd h hinvalid
  unfold String.utf8EncodeChar
  dsimp only
  rw [hval]

theorem exists_two (hb : b.toNat = 0xC0 + value) (hleast : 2 ≤ value) (hmost : value < 32)
    (h : pieces (.inside 0 0x80 0xBF value) bs = some c :: ps) :
    ∃ rest, b :: bs = String.utf8EncodeChar c ++ rest ∧ pieces .between rest = ps := by
  obtain ⟨second, tail, rest, rfl, hlength, hsecond, -, rfl, hrest⟩ := exists_tail h
  obtain rfl := List.length_eq_zero_iff.mp hlength
  rw [toNat_range.1, toNat_range.2] at hsecond
  refine ⟨rest, ?_, hrest⟩
  simp only [spelt, List.foldl_cons, List.foldl_nil]
  rw [utf8EncodeChar_ofNat (.inl (by omega)), if_neg (by omega), if_pos (by omega)]
  simp only [List.cons_append, List.nil_append, List.cons.injEq, ← UInt8.toNat_inj,
    UInt8.toNat_ofNat', and_true]
  omega

theorem exists_three (hb : b.toNat = 0xE0 + value) (hmost : value < 16)
    (hlow : 0x80 ≤ low.toNat) (hhigh : high.toNat ≤ 0xBF)
    (hshortest : value = 0 → 0xA0 ≤ low.toNat) (hsurrogates : value = 13 → high.toNat ≤ 0x9F)
    (h : pieces (.inside 1 low high value) bs = some c :: ps) :
    ∃ rest, b :: bs = String.utf8EncodeChar c ++ rest ∧ pieces .between rest = ps := by
  obtain ⟨second, tail, rest, rfl, hlength, hsecond, htail, rfl, hrest⟩ := exists_tail h
  obtain ⟨third, rfl⟩ := List.length_eq_one_iff.mp hlength
  have hthird := htail third List.mem_cons_self
  refine ⟨rest, ?_, hrest⟩
  simp only [spelt, List.foldl_cons, List.foldl_nil]
  have hvalid : (64 * (64 * value + (second.toNat - 0x80)) + (third.toNat - 0x80)).isValidChar := by
    unfold Nat.isValidChar
    omega
  rw [utf8EncodeChar_ofNat hvalid, if_neg (by omega), if_neg (by omega), if_pos (by omega)]
  simp only [List.cons_append, List.nil_append, List.cons.injEq, ← UInt8.toNat_inj,
    UInt8.toNat_ofNat', and_true]
  omega

theorem exists_four (hb : b.toNat = 0xF0 + value) (hmost : value ≤ 4)
    (hlow : 0x80 ≤ low.toNat) (hhigh : high.toNat ≤ 0xBF)
    (hshortest : value = 0 → 0x90 ≤ low.toNat) (hlast : value = 4 → high.toNat ≤ 0x8F)
    (h : pieces (.inside 2 low high value) bs = some c :: ps) :
    ∃ rest, b :: bs = String.utf8EncodeChar c ++ rest ∧ pieces .between rest = ps := by
  obtain ⟨second, tail, rest, rfl, hlength, hsecond, htail, rfl, hrest⟩ := exists_tail h
  obtain ⟨third, fourth, rfl⟩ := List.length_eq_two.mp hlength
  have hthird := htail third List.mem_cons_self
  have hfourth := htail fourth (List.mem_cons_of_mem _ List.mem_cons_self)
  refine ⟨rest, ?_, hrest⟩
  simp only [spelt, List.foldl_cons, List.foldl_nil]
  have hvalid : (64 * (64 * (64 * value + (second.toNat - 0x80)) + (third.toNat - 0x80)) +
      (fourth.toNat - 0x80)).isValidChar := by
    unfold Nat.isValidChar
    omega
  rw [utf8EncodeChar_ofNat hvalid, if_neg (by omega), if_neg (by omega), if_neg (by omega)]
  simp only [List.cons_append, List.nil_append, List.cons.injEq, ← UInt8.toNat_inj,
    UInt8.toNat_ofNat', and_true]
  omega

/-- What a byte is as the first of a character.  The second byte of a longer one keeps overlong forms
and surrogates out. -/
inductive Begins (b : UInt8) : List Piece × State → Prop
  | ascii (h : b.toNat < 0x80) : Begins b ([some (Char.ofNat b.toNat)], .between)
  | malformed : Begins b ([none], .between)
  | two {value : Nat} (hb : b.toNat = 0xC0 + value) (hleast : 2 ≤ value) (hmost : value < 32) :
    Begins b ([], .inside 0 0x80 0xBF value)
  | three {low high : UInt8} {value : Nat} (hb : b.toNat = 0xE0 + value) (hmost : value < 16)
      (hlow : 0x80 ≤ low.toNat) (hhigh : high.toNat ≤ 0xBF)
      (hshortest : value = 0 → 0xA0 ≤ low.toNat) (hsurrogates : value = 13 → high.toNat ≤ 0x9F) :
    Begins b ([], .inside 1 low high value)
  | four {low high : UInt8} {value : Nat} (hb : b.toNat = 0xF0 + value) (hmost : value ≤ 4)
      (hlow : 0x80 ≤ low.toNat) (hhigh : high.toNat ≤ 0xBF)
      (hshortest : value = 0 → 0x90 ≤ low.toNat) (hlast : value = 4 → high.toNat ≤ 0x8F) :
    Begins b ([], .inside 2 low high value)

theorem begins_first (b : UInt8) : Begins b (first b) := by
  unfold first
  dsimp only
  split
  · exact .ascii ‹_›
  split
  · exact .malformed
  split
  · exact .two (by omega) (by omega) (by omega)
  split
  · exact .three (by omega) (by decide) (by decide) (by decide) (by decide) (by decide)
  split
  · exact .three (by omega) (by decide) (by decide) (by decide) (by decide) (by decide)
  split
  · exact .three (by omega) (by omega) (by decide) (by decide) (by omega) (by omega)
  split
  · exact .four (by omega) (by decide) (by decide) (by decide) (by decide) (by decide)
  split
  · exact .four (by omega) (by omega) (by decide) (by decide) (by omega) (by omega)
  split
  · exact .four (by omega) (by decide) (by decide) (by decide) (by decide) (by decide)
  · exact .malformed

/-- **A character that is read stands there in its bytes.** -/
theorem exists_character (h : pieces .between bs = some c :: ps) :
    ∃ rest, bs = String.utf8EncodeChar c ++ rest ∧ pieces .between rest = ps := by
  cases bs with
  | nil => cases h
  | cons b bs =>
      rw [pieces_cons, step_between] at h
      have hbegins := begins_first b
      generalize first b = r at h hbegins
      cases hbegins with
      | ascii hone =>
          obtain ⟨hc, hrest⟩ := List.cons.inj h
          obtain rfl := Option.some.inj hc
          refine ⟨bs, ?_, hrest⟩
          rw [utf8EncodeChar_ofNat (.inl (by omega)), if_pos (by omega), UInt8.ofNat_toNat]
          rfl
      | malformed => cases h
      | two hb hleast hmost => exact exists_two hb hleast hmost h
      | three hb hmost hlow hhigh hshortest hsurrogates =>
          exact exists_three hb hmost hlow hhigh hshortest hsurrogates h
      | four hb hmost hlow hhigh hshortest hlast =>
          exact exists_four hb hmost hlow hhigh hshortest hlast h

/-! ### Texts -/

/-- Nothing is read only where nothing stands. -/
theorem pieces_ne_nil {state : State} (h : state ≠ .between ∨ bs ≠ []) : pieces state bs ≠ [] := by
  induction bs generalizing state with
  | nil =>
      cases state with
      | between => exact absurd rfl (h.resolve_right fun hne => hne rfl)
      | inside owed low high value => exact List.cons_ne_nil _ _
  | cons b bs ih =>
      rw [pieces_cons]
      by_cases hnothing : (step state b).1 = []
      · exact List.append_ne_nil_of_right_ne_nil _ (ih (.inl (step_eq_nil hnothing)))
      · exact List.append_ne_nil_of_left_ne_nil hnothing _

theorem eq_flatMap_of_pieces {cs : List Char} (h : pieces .between bs = cs.map some) :
    bs = cs.flatMap String.utf8EncodeChar := by
  induction cs generalizing bs with
  | nil => exact Classical.byContradiction fun hne => pieces_ne_nil (.inr hne) h
  | cons c cs ih =>
      obtain ⟨rest, rfl, hrest⟩ := exists_character h
      rw [List.flatMap_cons, ih hrest]

theorem decodeLossy_encode (s : String) : decodeLossy (encode s) = s := by
  rw [decodeLossy, pieces_encode, List.map_map, ← String.toList_inj, String.toList_ofList]
  exact List.map_id _

/-- **A text without replacement characters is read from its own bytes only.** -/
theorem decodeLossy_eq_iff (h : Char.ofNat 0xFFFD ∉ s.toList) :
    decodeLossy bs = s ↔ bs = encode s := by
  refine ⟨fun hread => ?_, fun heq => by rw [heq, decodeLossy_encode]⟩
  have hpieces : (pieces .between bs).map (fun p => p.getD (Char.ofNat 0xFFFD)) = s.toList := by
    rw [← hread, decodeLossy, String.toList_ofList]
  refine eq_flatMap_of_pieces ?_
  rw [← hpieces, List.map_map]
  refine (List.map_id _).symm.trans (List.map_congr_left fun p hp => ?_)
  cases p with
  | none => exact absurd (hpieces ▸ List.mem_map_of_mem hp) h
  | some c => rfl

/-! ### Cuts at ASCII characters -/

theorem pieces_append (hc : c.toNat < 0x80) {state : State} (hs : state.Spells) (x y : Bytes) :
    pieces state (x ++ UInt8.ofNat c.toNat :: y) =
      pieces state x ++ some c :: pieces .between y := by
  have hbyte := toNat_ascii hc
  generalize UInt8.ofNat c.toNat = b at hbyte ⊢
  have hfirst : first b = ([some c], .between) := by
    rw [first, if_pos (by omega), hbyte, Char.ofNat_toNat]
  induction x generalizing state with
  | nil =>
      rw [List.nil_append, pieces_cons]
      cases state with
      | between =>
          rw [step_between, hfirst]
          rfl
      | inside owed low high value =>
          -- an ASCII byte continues no character
          have hlow : 0x80 ≤ low.toNat := by cases owed <;> exact hs.1
          have hnot : ¬ (low ≤ b ∧ b ≤ high) := fun hrange => by
            have hle := UInt8.le_iff_toNat_le.mp hrange.1
            omega
          rw [step, if_neg hnot, hfirst]
          rfl
  | cons a x ih =>
      have hspells := (step_ascii (c := 'a') (by decide) (by decide) hs a).1
      rw [List.cons_append, pieces_cons, pieces_cons, ih hspells, List.append_assoc]

/-- **What stands on either side of an ASCII character is read apart**, malformed or not. -/
theorem decodeLossy_append (hc : c.toNat < 0x80) (x y : Bytes) :
    decodeLossy (x ++ UInt8.ofNat c.toNat :: y) =
      decodeLossy x ++ (String.singleton c ++ decodeLossy y) := by
  have hpieces := pieces_append hc (show State.Spells .between from trivial) x y
  rw [decodeLossy, hpieces, ← String.toList_inj]
  simp [decodeLossy]

/-- **What is read is cut where the bytes are.** -/
theorem pieces_decodeLossy (hpos : 0 < c.toNat) (hc : c.toNat < 0x80) (bs : Bytes) :
    Text.pieces c (decodeLossy bs) = (bs.splitOn (UInt8.ofNat c.toNat)).map decodeLossy := by
  by_cases hmem : UInt8.ofNat c.toNat ∈ bs
  · obtain ⟨x, y, rfl⟩ := List.append_of_mem hmem
    rw [decodeLossy_append hc, ← String.append_assoc, Text.pieces_append,
      pieces_decodeLossy hpos hc x, pieces_decodeLossy hpos hc y, List.splitOn_append_cons_self,
      List.map_append]
  · rw [Text.pieces_eq_singleton (mt (mem_decodeLossy hpos hc bs).mp hmem),
      List.splitOn_eq_singleton hmem, List.map_singleton]
termination_by bs.length

end WsRelay.Utf8
