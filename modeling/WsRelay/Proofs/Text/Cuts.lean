import Mathlib.Data.List.Basic
import WsRelay.Proofs.Text.Ascii
/-! # Texts that are put together

A text that was put together of parts is cut into them again: at a separator, where the first part
does not have it and nowhere else (`Text.cut?_eq_some_iff`), behind a start
(`Text.stripStart?_append`).  What is read as a decimal number is made of digits and at most a sign
(`Text.digit_of_unsigned?`), so it has no blanks to trim. -/

namespace WsRelay.Text

variable {sep c : Char} {s t : String}

theorem cutList?_append {before : List Char} (h : sep ∉ before) (after : List Char) :
    cutList? sep (before ++ sep :: after) = some (before, after) := by
  induction before with
  | nil => exact if_pos rfl
  | cons d before ih =>
      have hd := (List.ne_of_not_mem_cons h).symm
      rw [List.cons_append, cutList?, if_neg hd, ih (List.not_mem_of_not_mem_cons h)]
      rfl

theorem cutList?_eq_some_iff {cs before after : List Char} :
    cutList? sep cs = some (before, after) ↔ cs = before ++ sep :: after ∧ sep ∉ before := by
  constructor
  · intro h
    induction cs generalizing before with
    | nil => cases h
    | cons d cs ih =>
        rw [cutList?] at h
        split at h
        · next hd =>
          cases h
          simp [hd]
        · next hd =>
          obtain ⟨⟨l, r⟩, hcut, heq⟩ := Option.map_eq_some_iff.mp h
          cases heq
          obtain ⟨rfl, hnot⟩ := ih hcut
          simp [hnot, Ne.symm hd]
  · rintro ⟨rfl, hnot⟩
    exact cutList?_append hnot after

/-- A text is cut at the first separator. -/
theorem cut?_eq_some_iff {before after : String} : cut? sep s = some (before, after) ↔
    s = before ++ (String.singleton sep ++ after) ∧ sep ∉ before.toList := by
  rw [cut?, Option.map_eq_some_iff]
  constructor
  · rintro ⟨⟨l, r⟩, hcut, heq⟩
    obtain ⟨hs, hnot⟩ := cutList?_eq_some_iff.mp hcut
    cases heq
    refine ⟨String.toList_inj.mp ?_, by simpa using hnot⟩
    simpa using hs
  · rintro ⟨rfl, hnot⟩
    refine ⟨(before.toList, after.toList), ?_, by simp⟩
    rw [cutList?_eq_some_iff]
    exact ⟨by simp, hnot⟩

/-- A text is cut at the separator behind a part that has none. -/
theorem cut?_append (h : sep ∉ s.toList) (t : String) :
    cut? sep (s ++ (String.singleton sep ++ t)) = some (s, t) :=
  cut?_eq_some_iff.mpr ⟨rfl, h⟩

/-- What follows a start that was put there. -/
theorem stripStart?_append (s t : String) : stripStart? s (s ++ t) = some t := by
  rw [stripStart?, String.toList_append, List.isPrefixOf?_eq_some_iff_append_eq.mpr rfl,
    Option.map_some, String.ofList_toList]

theorem stripStart?_eq_some {start rest : String} (h : stripStart? start s = some rest) :
    s = start ++ rest := by
  obtain ⟨r, hr, rfl⟩ := Option.map_eq_some_iff.mp h
  rw [← String.toList_inj, String.toList_append, String.toList_ofList]
  exact (List.isPrefixOf?_eq_some_iff_append_eq.mp hr).symm

theorem occursIn_singleton (l : List Char) : occursIn [c] l = true ↔ c ∈ l := by
  induction l with
  | nil => exact iff_of_false Bool.false_ne_true List.not_mem_nil
  | cons d l ih =>
      have hfront : [c].isPrefixOf (d :: l) = true ↔ c = d := by
        rw [List.isPrefixOf_cons_cons, List.isPrefixOf_nil_left, Bool.and_true, beq_iff_eq]
      rw [occursIn, Bool.or_eq_true, hfront, ih, List.mem_cons]

theorem contains_singleton : contains s (String.singleton c) = true ↔ c ∈ s.toList := by
  rw [contains, String.toList_singleton, occursIn_singleton]

/-! ### Numbers -/

theorem dropWhile_of_forall {p : Char → Bool} {l : List Char} (h : ∀ c ∈ l, p c = false) :
    l.dropWhile p = l := by
  cases l with
  | nil => rfl
  | cons c l => rw [List.dropWhile_cons_of_neg (by simp [h c List.mem_cons_self])]

/-- A text without blanks is not trimmed. -/
theorem trim_of_forall (h : ∀ c ∈ s.toList, isBlank c = false) : trim s = s := by
  have hstart : trimStart s = s := by
    rw [trimStart, dropWhile_of_forall h, String.ofList_toList]
  rw [trim, hstart, trimEnd, dropWhile_of_forall fun c hc => h c (List.mem_reverse.mp hc),
    List.reverse_reverse, String.ofList_toList]

theorem digit_of_foldlM {limit n m : Nat} {digits : List Char}
    (h : digits.foldlM (pushDigit? 10 limit) n = some m) :
    ∀ c ∈ digits, 48 ≤ c.toNat ∧ c.toNat ≤ 57 := by
  induction digits generalizing n with
  | nil => exact fun c hc => absurd hc List.not_mem_nil
  | cons d digits ih =>
      rw [List.foldlM_cons, Option.bind_eq_bind, Option.bind_eq_some_iff] at h
      obtain ⟨n', hn', hrest⟩ := h
      obtain ⟨hpushed, -⟩ := Option.filter_eq_some_iff.mp hn'
      obtain ⟨value, hvalue, -⟩ := Option.map_eq_some_iff.mp hpushed
      refine List.forall_mem_cons.mpr ⟨?_, ih hrest⟩
      simp only [digit?, Option.filter_eq_some_iff] at hvalue
      obtain ⟨hvalue, hten⟩ := hvalue
      split at hvalue
      · assumption
      · split at hvalue
        · simp only [Option.some.injEq] at hvalue
          simp only [decide_eq_true_eq] at hten
          omega
        · split at hvalue
          · simp only [Option.some.injEq] at hvalue
            simp only [decide_eq_true_eq] at hten
            omega
          · cases hvalue

/-- What is read as a decimal number is made of digits and at most a plus sign. -/
theorem digit_of_unsigned? {limit n : Nat} (h : unsigned? limit s = some n) :
    ∀ c ∈ s.toList, c = '+' ∨ 48 ≤ c.toNat ∧ c.toNat ≤ 57 := by
  have hdigits {digits : List Char} (h : natBelow? 10 limit digits = some n) :
      ∀ c ∈ digits, 48 ≤ c.toNat ∧ c.toNat ≤ 57 := by
    unfold natBelow? at h
    split at h
    · cases h
    · exact digit_of_foldlM h
  unfold unsigned? at h
  split at h
  · next digits htext =>
    rw [htext]
    exact List.forall_mem_cons.mpr ⟨.inl rfl, fun c hc => .inr (hdigits h c hc)⟩
  · exact fun c hc => .inr (hdigits h c hc)

/-- A decimal number has no blanks. -/
theorem trim_of_unsigned? {limit n : Nat} (h : unsigned? limit s = some n) : trim s = s := by
  refine trim_of_forall fun c hc => ?_
  rcases digit_of_unsigned? h c hc with rfl | hdigit
  · decide
  · simp only [isBlank, blankRanges, List.any_cons, List.any_nil, Bool.or_false, Bool.or_eq_false_iff,
      Bool.and_eq_false_iff, decide_eq_false_iff_not]
    omega

end WsRelay.Text
