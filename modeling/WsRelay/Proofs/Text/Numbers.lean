import WsRelay.Proofs.Text.Cuts
/-! # Numbers that are read

Digits spell a number in a radix (`Spells`).  Reading them stops early when the limit is reached,
and still finds exactly the numbers below the limit (`natBelow?_eq_some_iff`).  A port is such a
number in decimal digits, with at most one plus sign before them (`IsPort`, `port?_eq_some_iff`),
and every number below the limit is read back from its own decimal digits (`port?_toString`). -/

namespace WsRelay.Text

variable {radix limit m n : Nat} {digits : List Char} {s : String}

/-- The number that the values of digits spell, behind the number `m`. -/
def accumulate (radix m : Nat) (values : List Nat) : Nat :=
  values.foldl (fun n value => radix * n + value) m

/-- All characters are digits of the radix, and `n` is the number that they spell behind `m`. -/
def SpellsBehind (radix m : Nat) (digits : List Char) (n : Nat) : Prop :=
  ∃ values : List Nat, digits.map (digit? radix) = values.map some ∧ accumulate radix m values = n

/-- All characters are digits of the radix, and `n` is the number that they spell. -/
def Spells (radix : Nat) (digits : List Char) (n : Nat) : Prop :=
  SpellsBehind radix 0 digits n

theorem spellsBehind_nil : SpellsBehind radix m [] n ↔ m = n := by
  constructor
  · rintro ⟨values, hvalues, hn⟩
    cases values with
    | nil => exact hn
    | cons value values => simp at hvalues
  · intro h
    exact ⟨[], rfl, h⟩

theorem spellsBehind_cons {d : Char} : SpellsBehind radix m (d :: digits) n ↔
    ∃ value, digit? radix d = some value ∧ SpellsBehind radix (radix * m + value) digits n := by
  constructor
  · rintro ⟨values, hvalues, hn⟩
    cases values with
    | nil => simp at hvalues
    | cons value values =>
        simp only [List.map_cons, List.cons.injEq] at hvalues
        exact ⟨value, hvalues.1, values, hvalues.2, hn⟩
  · rintro ⟨value, hvalue, values, hvalues, hn⟩
    exact ⟨value :: values, by simp [hvalue, hvalues], hn⟩

/-- More digits do not make a number smaller. -/
theorem SpellsBehind.le (hradix : 0 < radix) (h : SpellsBehind radix m digits n) : m ≤ n := by
  induction digits generalizing m with
  | nil => exact Nat.le_of_eq (spellsBehind_nil.mp h)
  | cons d digits ih =>
      obtain ⟨value, -, hmore⟩ := spellsBehind_cons.mp h
      have hle := ih hmore
      have := Nat.le_mul_of_pos_left m hradix
      omega

/-- One more digit is read if the number stays below the limit. -/
theorem pushDigit?_eq_some_iff {c : Char} : pushDigit? radix limit m c = some n ↔
    ∃ value, digit? radix c = some value ∧ radix * m + value = n ∧ n < limit := by
  simp only [pushDigit?, Option.filter_eq_some_iff, Option.map_eq_some_iff, decide_eq_true_eq]
  constructor
  · rintro ⟨⟨value, hvalue, hn⟩, hlt⟩
    exact ⟨value, hvalue, hn, hlt⟩
  · rintro ⟨value, hvalue, hn, hlt⟩
    exact ⟨⟨value, hvalue, hn⟩, hlt⟩

theorem foldlM_pushDigit? (hradix : 0 < radix) (hm : m < limit) :
    digits.foldlM (pushDigit? radix limit) m = some n ↔
      SpellsBehind radix m digits n ∧ n < limit := by
  induction digits generalizing m with
  | nil =>
      simp only [List.foldlM_nil, Option.pure_def, Option.some.injEq, spellsBehind_nil]
      constructor
      · rintro rfl
        exact ⟨rfl, hm⟩
      · exact And.left
  | cons d digits ih =>
      simp only [List.foldlM_cons, Option.bind_eq_bind, Option.bind_eq_some_iff,
        pushDigit?_eq_some_iff, spellsBehind_cons]
      constructor
      · rintro ⟨next, ⟨value, hvalue, rfl, hnext⟩, hread⟩
        obtain ⟨hmore, hn⟩ := (ih hnext).mp hread
        exact ⟨⟨value, hvalue, hmore⟩, hn⟩
      · rintro ⟨⟨value, hvalue, hmore⟩, hn⟩
        -- the number so far is below the limit, since the whole number is
        have hnext := Nat.lt_of_le_of_lt (hmore.le hradix) hn
        exact ⟨_, ⟨value, hvalue, rfl, hnext⟩, (ih hnext).mpr ⟨hmore, hn⟩⟩

/-- **A number is read from at least one digit, and only if it is below the limit.** -/
theorem natBelow?_eq_some_iff (hradix : 0 < radix) (hlimit : 0 < limit) :
    natBelow? radix limit digits = some n ↔
      digits ≠ [] ∧ Spells radix digits n ∧ n < limit := by
  unfold natBelow? Spells
  cases digits with
  | nil => simp
  | cons d digits =>
      simp only [List.isEmpty_cons, Bool.false_eq_true, if_false, ne_eq, reduceCtorEq,
        not_false_eq_true, true_and]
      exact foldlM_pushDigit? hradix hlimit

/-! ### Ports -/

/-- A port as it is written: decimal digits that spell a number below 65536, with at most a plus
sign in front. -/
def IsPort (s : String) (n : Nat) : Prop :=
  ∃ digits : List Char, (s.toList = digits ∨ s.toList = '+' :: digits) ∧
    digits ≠ [] ∧ Spells 10 digits n ∧ n < 65536

theorem not_spells_plus : ¬ SpellsBehind radix m ('+' :: digits) n := by
  rw [spellsBehind_cons]
  rintro ⟨value, hvalue, -⟩
  simp [digit?] at hvalue

theorem port?_eq_some_iff : port? s = some n ↔ IsPort s n := by
  have hread (digits : List Char) : natBelow? 10 65536 digits = some n ↔
      digits ≠ [] ∧ Spells 10 digits n ∧ n < 65536 :=
    natBelow?_eq_some_iff (by decide) (by decide)
  unfold port? unsigned?
  split
  · next digits hs =>
    rw [hread]
    constructor
    · intro h
      exact ⟨digits, .inr hs, h⟩
    · rintro ⟨digits', hor, hport⟩
      rcases hor with heq | heq
      · rw [← heq, hs] at hport
        exact absurd hport.2.1 not_spells_plus
      · rw [hs] at heq
        rwa [(List.cons.inj heq).2]
  · next hplain =>
    rw [hread]
    constructor
    · intro h
      exact ⟨s.toList, .inl rfl, h⟩
    · rintro ⟨digits, heq | heq, hport⟩
      · rwa [heq]
      · exact absurd heq (hplain digits)

theorem IsPort.lt (h : IsPort s n) : n < 65536 := by
  obtain ⟨digits, -, -, -, hlt⟩ := h
  exact hlt

theorem digit?_of_isDigit {c : Char} (h : c.isDigit = true) :
    digit? 10 c = some (c.toNat - '0'.toNat) := by
  simp only [Char.isDigit, Bool.and_eq_true, decide_eq_true_eq, ge_iff_le, UInt32.le_iff_toNat_le]
    at h
  have hlow : 48 ≤ c.toNat := h.1
  have hhigh : c.toNat ≤ 57 := h.2
  simp [digit?, hlow, hhigh]
  omega

/-- Decimal digits spell the number that they are the digits of. -/
theorem spells_toDigits (n : Nat) : Spells 10 (Nat.toDigits 10 n) n := by
  refine ⟨(Nat.toDigits 10 n).map fun c => c.toNat - '0'.toNat, ?_, ?_⟩
  · rw [List.map_map]
    refine List.map_congr_left fun c hc => ?_
    exact digit?_of_isDigit (Nat.isDigit_of_mem_toDigits (by decide) (by decide) hc)
  · rw [accumulate, List.foldl_map]
    exact Nat.ofDigitChars_ten_toDigits

theorem toList_toString (n : Nat) : (toString n).toList = Nat.toDigits 10 n := by
  rw [Nat.toString_eq_ofList_toDigits, String.toList_ofList]

theorem isDigit_of_mem_toString {c : Char} (h : c ∈ (toString n).toList) : c.isDigit = true := by
  rw [toList_toString] at h
  exact Nat.isDigit_of_mem_toDigits (by decide) (by decide) h

/-- **A port is read back from its digits.** -/
theorem port?_toString (h : n < 65536) : port? (toString n) = some n := by
  rw [port?_eq_some_iff]
  exact ⟨Nat.toDigits 10 n, .inl (toList_toString n), Nat.toDigits_ne_nil, spells_toDigits n, h⟩

end WsRelay.Text
