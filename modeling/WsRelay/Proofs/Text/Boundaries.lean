import WsRelay.Proofs.Text.Sequences
/-! # Boundaries of characters

A text is read back from its bytes (`decode?_encode`), so that no two texts have the same bytes.

A place in the bytes of a text is a boundary (`IsBoundary`) if it is their end or if the byte there
does not continue a sequence.  These are the places where the text can be cut into two texts
(`isBoundary_iff`). -/

namespace WsRelay.Utf8

variable {low high b : UInt8} {value n : Nat} {s t : String}

/-! ### Reading back what was written -/

theorem step_between (b : UInt8) : step .between b = first b := rfl

theorem step_last (hlow : low.toNat ≤ b.toNat) (hhigh : b.toNat ≤ high.toNat) :
    step (.inside 0 low high value) b =
      ([some (Char.ofNat (64 * value + (b.toNat - 0x80)))], .between) := by
  simp [step, UInt8.le_iff_toNat_le, hlow, hhigh]

theorem step_inner (hlow : low.toNat ≤ b.toNat) (hhigh : b.toNat ≤ high.toNat) (owed : Nat) :
    step (.inside (owed + 1) low high value) b =
      ([], .inside owed 0x80 0xBF (64 * value + (b.toNat - 0x80))) := by
  simp [step, UInt8.le_iff_toNat_le, hlow, hhigh]

/-- The first byte of a character of two bytes. -/
theorem first_two (hlow : 0x80 ≤ n) (hhigh : n < 0x800) :
    first (UInt8.ofNat (n / 64 % 32 + 192)) = ([], .inside 0 0x80 0xBF (n / 64)) := by
  have hbyte : (UInt8.ofNat (n / 64 % 32 + 192)).toNat = n / 64 + 192 := by
    simp only [UInt8.toNat_ofNat']
    omega
  unfold first
  simp only [hbyte]
  rw [if_neg (by omega), if_neg (by omega), if_pos (by omega), Nat.add_sub_cancel]

/-- The first byte of a character of three bytes allows its second. -/
theorem first_three (hlow : 0x800 ≤ n) (hhigh : n < 0x10000) (hvalid : n.isValidChar) :
    ∃ low high : UInt8,
      first (UInt8.ofNat (n / 4096 % 16 + 224)) = ([], .inside 1 low high (n / 4096)) ∧
        low.toNat ≤ n / 64 % 64 + 128 ∧ n / 64 % 64 + 128 ≤ high.toNat := by
  have hbyte : (UInt8.ofNat (n / 4096 % 16 + 224)).toNat = n / 4096 + 224 := by
    simp only [UInt8.toNat_ofNat']
    omega
  have hvalid : n < 0xD800 ∨ 0xDFFF < n := hvalid.imp_right And.left
  unfold first
  simp only [hbyte]
  by_cases hshortest : n / 4096 = 0
  · refine ⟨0xA0, 0xBF, ?_, ?_, ?_⟩
    · simp [hshortest]
    · simp
      omega
    · simp
      omega
  · by_cases hsurrogates : n / 4096 = 13
    · refine ⟨0x80, 0x9F, ?_, ?_, ?_⟩
      · simp [hsurrogates]
      · simp
      · simp
        omega
    · refine ⟨0x80, 0xBF, ?_, ?_, ?_⟩
      · rw [if_neg (by omega), if_neg (by omega), if_neg (by omega), if_neg (by omega),
          if_neg (by omega), if_pos (by omega), Nat.add_sub_cancel]
      · simp
      · simp
        omega

/-- The first byte of a character of four bytes allows its second. -/
theorem first_four (hlow : 0x10000 ≤ n) (hhigh : n < 0x110000) :
    ∃ low high : UInt8,
      first (UInt8.ofNat (n / 262144 % 8 + 240)) = ([], .inside 2 low high (n / 262144)) ∧
        low.toNat ≤ n / 4096 % 64 + 128 ∧ n / 4096 % 64 + 128 ≤ high.toNat := by
  have hbyte : (UInt8.ofNat (n / 262144 % 8 + 240)).toNat = n / 262144 + 240 := by
    simp only [UInt8.toNat_ofNat']
    omega
  unfold first
  simp only [hbyte]
  by_cases hshortest : n / 262144 = 0
  · refine ⟨0x90, 0xBF, ?_, ?_, ?_⟩
    · simp [hshortest]
    · simp
      omega
    · simp
      omega
  · by_cases hlast : n / 262144 = 4
    · refine ⟨0x80, 0x8F, ?_, ?_, ?_⟩
      · simp [hlast]
      · simp
      · simp
        omega
    · refine ⟨0x80, 0xBF, ?_, ?_, ?_⟩
      · rw [if_neg (by omega), if_neg (by omega), if_neg (by omega), if_neg (by omega),
          if_neg (by omega), if_neg (by omega), if_neg (by omega), if_pos (by omega),
          Nat.add_sub_cancel]
      · simp
      · simp
        omega

/-- The byte that carries the last six bits of a number. -/
theorem toNat_continuation (n : Nat) : (UInt8.ofNat (n % 64 + 128)).toNat = n % 64 + 128 := by
  simp only [UInt8.toNat_ofNat']
  omega

theorem continuation_mem (n : Nat) :
    (0x80 : UInt8).toNat ≤ (UInt8.ofNat (n % 64 + 128)).toNat ∧
      (UInt8.ofNat (n % 64 + 128)).toNat ≤ (0xBF : UInt8).toNat := by
  rw [toNat_continuation]
  simp
  omega

/-- A character is read back from its bytes, whatever follows them. -/
theorem pieces_utf8EncodeChar (c : Char) (bs : Bytes) :
    pieces .between (String.utf8EncodeChar c ++ bs) = some c :: pieces .between bs := by
  have hvalid : c.toNat.isValidChar := c.valid
  have hlimit : c.toNat < 0x110000 := by
    rcases hvalid with h | h
    · omega
    · exact h.2
  have hback (n : Nat) (h : n = c.toNat) : Char.ofNat n = c := by
    rw [h, Char.ofNat_toNat]
  have hval : c.val.toNat = c.toNat := rfl
  unfold String.utf8EncodeChar
  dsimp only
  rw [hval]
  -- one, two, three or four bytes
  split
  · next hone =>
    have hbyte := toNat_ascii (show c.toNat < 0x80 by omega)
    simp only [List.cons_append, List.nil_append, pieces_cons, step_between, first, hbyte]
    rw [if_pos (by omega), hback _ rfl]
    rfl
  · split
    · next hone htwo =>
      have hfirst := first_two (n := c.toNat) (by omega) (by omega)
      obtain ⟨hlow, hhigh⟩ := continuation_mem c.toNat
      simp only [List.cons_append, List.nil_append, pieces_cons, step_between, hfirst]
      rw [step_last hlow hhigh, toNat_continuation, hback _ (by omega)]
      rfl
    · split
      · next hone htwo hthree =>
        obtain ⟨low, high, hfirst, hsecond⟩ := first_three (by omega) (by omega) hvalid
        rw [← toNat_continuation] at hsecond
        have hthird := continuation_mem c.toNat
        simp only [List.cons_append, List.nil_append, pieces_cons, step_between, hfirst]
        rw [step_inner hsecond.1 hsecond.2, step_last hthird.1 hthird.2, toNat_continuation,
          toNat_continuation, hback _ (by omega)]
        rfl
      · next hone htwo hthree =>
        obtain ⟨low, high, hfirst, hsecond⟩ := first_four (n := c.toNat) (by omega) hlimit
        rw [← toNat_continuation] at hsecond
        have hthird := continuation_mem (c.toNat / 64)
        have hfourth := continuation_mem c.toNat
        simp only [List.cons_append, List.nil_append, pieces_cons, step_between, hfirst]
        rw [step_inner hsecond.1 hsecond.2, step_inner hthird.1 hthird.2,
          step_last hfourth.1 hfourth.2, toNat_continuation, toNat_continuation,
          toNat_continuation, hback _ (by omega)]
        rfl

theorem pieces_encode (s : String) : pieces .between (encode s) = s.toList.map some := by
  unfold encode
  induction s.toList with
  | nil => rfl
  | cons c cs ih => rw [List.flatMap_cons, pieces_utf8EncodeChar, ih, List.map_cons]

/-- **A text is read back from its bytes.** -/
theorem decode?_encode (s : String) : decode? (encode s) = some s := by
  have hall (cs : List Char) : (cs.map some).mapM id = some cs := by
    induction cs with
    | nil => rfl
    | cons c cs ih => simp [List.mapM_cons, ih]
  rw [decode?, pieces_encode, hall, Option.map_some, String.ofList_toList]

theorem encode_injective (h : encode s = encode t) : s = t := by
  have hread := congrArg decode? h
  rw [decode?_encode, decode?_encode] at hread
  exact Option.some.inj hread

/-! ### Boundaries -/

/-- A place at the end of a text's bytes, or at a byte that does not continue a sequence. -/
def IsBoundary (s : String) (n : Nat) : Prop :=
  n = (encode s).length ∨ ∃ b ∈ (encode s)[n]?, ¬ Continues b

theorem Leads.not_continues (h : Leads b n) : ¬ Continues b := by
  intro hcontinues
  unfold Continues at hcontinues
  cases h <;> unfold topBits at * <;> omega

/-- The bytes of a text do not begin inside a sequence. -/
theorem not_continues_of_head? (h : b ∈ (encode s).head?) : ¬ Continues b := by
  unfold encode at h
  cases hs : s.toList with
  | nil => simp [hs] at h
  | cons c cs =>
      rw [hs, List.flatMap_cons] at h
      have hsequence := sequence_utf8EncodeChar c
      generalize String.utf8EncodeChar c = u at h hsequence
      cases hsequence with
      | intro hfirst htail =>
          simp only [List.cons_append, List.head?_cons, Option.mem_def, Option.some.injEq] at h
          rw [← h]
          exact hfirst.not_continues

/-- **The boundaries of a text are the places where it can be cut into two texts.** -/
theorem isBoundary_iff :
    IsBoundary s n ↔ ∃ front back : String, s = front ++ back ∧ (encode front).length = n := by
  constructor
  · rintro (rfl | ⟨b, hb, hstarts⟩)
    · exact ⟨s, "", String.append_empty.symm, rfl⟩
    · obtain ⟨hn, hget⟩ := List.getElem?_eq_some_iff.mp hb
      have hsplit : encode s = (encode s).take n ++ b :: (encode s).drop (n + 1) := by
        rw [← hget, List.getElem_cons_drop, List.take_append_drop]
      obtain ⟨hcharacters, hflatten⟩ := encode_eq_flatten s
      obtain ⟨vs, hvs, hfront⟩ := exists_front hcharacters hstarts (hflatten.symm.trans hsplit)
      have hwhole : WellFormed (vs.flatten ++ b :: (encode s).drop (n + 1)) :=
        ⟨s, by rw [hfront]; exact hsplit⟩
      obtain ⟨⟨front, hencode⟩, ⟨back, hrest⟩⟩ := hwhole.split hvs
      refine ⟨front, back, encode_injective ?_, ?_⟩
      · rw [encode_append, hencode, hrest, hfront]
        exact hsplit
      · rw [hencode, hfront, List.length_take]
        omega
  · rintro ⟨front, back, rfl, rfl⟩
    cases hback : (encode back).head? with
    | none =>
        left
        rw [encode_append, List.head?_eq_none_iff.mp hback, List.append_nil]
    | some b =>
        right
        refine ⟨b, ?_, not_continues_of_head? hback⟩
        rw [encode_append, List.getElem?_append_right (Nat.le_refl _), Nat.sub_self,
          ← List.head?_eq_getElem?]
        exact hback

end WsRelay.Utf8
