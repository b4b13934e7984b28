import Mathlib.Data.Nat.Digits.Defs
import WsRelay.Proofs.Text.Blanks
import WsRelay.Proofs.Text.Numbers
/-! # Numbers that show their radix

Digits of a radix denote a number by their places (`Denotes`), and this is the number that they
spell when they are read one by one (`spells_iff_denotes`).

A numeral is hexadecimal behind `0x`, octal behind a zero, and decimal otherwise (`Numeral`).  No
text is a numeral in two ways that denote different numbers (`Numeral.unique`), and what is read
of a text, blanks around it aside, is the number of its numeral if that is below 2^64
(`radixNat?_exact`). -/

namespace WsRelay.Text

variable {radix limit m n value : Nat} {c : Char} {digits t : List Char}

/-! ### Digits -/

/-- The character is the digit of a value, as a small letter or a capital one. -/
def IsDigit (radix : Nat) (c : Char) (value : Nat) : Prop :=
  value < radix ∧ (c = value.digitChar ∨ c = value.digitChar.toUpper)

instance : Decidable (IsDigit radix c value) :=
  inferInstanceAs (Decidable (_ ∧ _))

theorem toNat_digitChar : ∀ value < 16,
    value.digitChar.toNat = (if value < 10 then 48 + value else 87 + value) ∧
      value.digitChar.toUpper.toNat = (if value < 10 then 48 + value else 55 + value) := by
  decide

/-- Digits are told by their code points. -/
theorem isDigit_iff (hradix : radix ≤ 16) : IsDigit radix c value ↔
    value < radix ∧ (value < 10 ∧ c.toNat = 48 + value ∨
      10 ≤ value ∧ (c.toNat = 87 + value ∨ c.toNat = 55 + value)) := by
  unfold IsDigit
  refine and_congr_right fun hvalue => ?_
  obtain ⟨hsmall, hcapital⟩ := toNat_digitChar value (Nat.lt_of_lt_of_le hvalue hradix)
  rw [← Char.toNat_inj, ← Char.toNat_inj, hsmall, hcapital]
  by_cases hten : value < 10
  · simp [hten]
  · simp [hten]
    omega

/-- The values of digits are read. -/
theorem digit?_eq_some_iff (hradix : radix ≤ 16) :
    digit? radix c = some value ↔ IsDigit radix c value := by
  rw [isDigit_iff hradix]
  simp only [digit?, Option.filter_eq_some_iff, decide_eq_true_eq]
  rw [and_comm]
  refine and_congr_right fun hvalue => ?_
  split
  · simp only [Option.some.injEq]
    omega
  · split
    · simp only [Option.some.injEq]
      omega
    · split
      · simp only [Option.some.injEq]
        omega
      · simp only [reduceCtorEq, false_iff]
        omega

/-! ### The number of digits -/

/-- The characters are digits of the radix, and the number is that of their values, each in its
place. -/
def Denotes (radix : Nat) (digits : List Char) (n : Nat) : Prop :=
  ∃ values, List.Forall₂ (IsDigit radix) digits values ∧ Nat.ofDigits radix values.reverse = n

/-- Reading one digit after the other comes to the number that they denote. -/
theorem accumulate_eq_ofDigits (radix m : Nat) (values : List Nat) :
    accumulate radix m values =
      m * radix ^ values.length + Nat.ofDigits radix values.reverse := by
  induction values generalizing m with
  | nil => simp [accumulate]
  | cons value values ih =>
      have hstep : accumulate radix m (value :: values) =
          accumulate radix (radix * m + value) values := rfl
      rw [hstep, ih, List.reverse_cons, Nat.ofDigits_append, Nat.ofDigits_singleton,
        List.length_reverse, List.length_cons]
      ring

/-- The values of digits are read, each on its own. -/
theorem forall₂_isDigit_iff (hradix : radix ≤ 16) {values : List Nat} :
    List.Forall₂ (IsDigit radix) digits values ↔
      digits.map (digit? radix) = values.map some := by
  induction digits generalizing values with
  | nil =>
      cases values with
      | nil => simp
      | cons value values => exact ⟨nofun, nofun⟩
  | cons c digits ih =>
      cases values with
      | nil => exact ⟨nofun, nofun⟩
      | cons value values => simp [ih, digit?_eq_some_iff hradix]

theorem spells_iff_denotes (hradix : radix ≤ 16) :
    Spells radix digits n ↔ Denotes radix digits n := by
  unfold Spells SpellsBehind Denotes
  refine exists_congr fun values => ?_
  rw [forall₂_isDigit_iff hradix, accumulate_eq_ofDigits, Nat.zero_mul, Nat.zero_add]

/-- Digits denote one number. -/
theorem Denotes.unique (hradix : radix ≤ 16) (hm : Denotes radix digits m)
    (hn : Denotes radix digits n) : m = n := by
  obtain ⟨values, hvalues, rfl⟩ := hm
  obtain ⟨others, hothers, rfl⟩ := hn
  rw [forall₂_isDigit_iff hradix] at hvalues hothers
  rw [hvalues] at hothers
  rw [List.map_injective_iff.mpr (Option.some_injective Nat) hothers]

theorem natBelow?_eq_some_iff_denotes (hpos : 0 < radix) (hradix : radix ≤ 16)
    (hlimit : 0 < limit) : natBelow? radix limit digits = some n ↔
      digits ≠ [] ∧ Denotes radix digits n ∧ n < limit := by
  rw [natBelow?_eq_some_iff hpos hlimit, spells_iff_denotes hradix]

/-! ### Numerals -/

/-- A text is the numeral of a number. -/
inductive Numeral : List Char → Nat → Prop
  | hex {mark : Char} {digits : List Char} {n : Nat} (hmark : mark = 'x' ∨ mark = 'X')
    (hne : digits ≠ []) (h : Denotes 16 digits n) : Numeral ('0' :: mark :: digits) n
  | octal {digits : List Char} {n : Nat} (hne : digits ≠ []) (h : Denotes 8 digits n) :
    Numeral ('0' :: digits) n
  | decimal {digits : List Char} {n : Nat} (hne : digits ≠ [])
    (hzero : digits = ['0'] ∨ digits.head? ≠ some '0') (h : Denotes 10 digits n) :
    Numeral digits n

/-- The radix that a text shows, and the digits of its number. -/
def shown : List Char → Nat × List Char
  | '0' :: 'x' :: digits => (16, digits)
  | '0' :: 'X' :: digits => (16, digits)
  | '0' :: d :: digits => (8, d :: digits)
  | digits => (10, digits)

theorem radixNat?_eq (s : String) :
    radixNat? s =
      natBelow? (shown (trim s).toList).1 UInt64.size (shown (trim s).toList).2 := by
  unfold radixNat?
  generalize (trim s).toList = t
  fun_cases shown t with
  | case1 digits => rfl
  | case2 digits => rfl
  | case3 d digits hsmall hcapital => split <;> simp_all
  | case4 t hhex hcapital hoctal => split <;> simp_all

theorem shown_radix (t : List Char) : 0 < (shown t).1 ∧ (shown t).1 ≤ 16 := by
  fun_cases shown t <;> simp

/-- Digits of a number begin with a digit. -/
theorem Denotes.head (h : Denotes radix (c :: digits) n) : ∃ value, IsDigit radix c value := by
  obtain ⟨values, hvalues, -⟩ := h
  cases hvalues with
  | cons hvalue _ => exact ⟨_, hvalue⟩

/-- What marks hexadecimal digits is no octal digit. -/
theorem not_denotes_mark (hmark : c = 'x' ∨ c = 'X') : ¬ Denotes 8 (c :: digits) n := by
  intro h
  obtain ⟨value, hvalue⟩ := h.head
  rw [isDigit_iff (by decide)] at hvalue
  have hpoint : c.toNat = 120 ∨ c.toNat = 88 :=
    hmark.imp (congrArg Char.toNat) (congrArg Char.toNat)
  omega

theorem numeral_hex_iff (hmark : c = 'x' ∨ c = 'X') :
    Numeral ('0' :: c :: digits) n ↔ digits ≠ [] ∧ Denotes 16 digits n := by
  constructor
  · intro h
    cases h with
    | hex _ hne h => exact ⟨hne, h⟩
    | octal _ h => exact absurd h (not_denotes_mark hmark)
    | decimal _ hzero _ => simp at hzero
  · rintro ⟨hne, h⟩
    exact .hex hmark hne h

theorem numeral_octal_iff (hmark : ¬ (c = 'x' ∨ c = 'X')) :
    Numeral ('0' :: c :: digits) n ↔ Denotes 8 (c :: digits) n := by
  constructor
  · intro h
    cases h with
    | hex hhex => exact absurd hhex hmark
    | octal _ h => exact h
    | decimal _ hzero _ => simp at hzero
  · exact .octal (List.cons_ne_nil _ _)

theorem numeral_decimal_iff (hzero : t = ['0'] ∨ t.head? ≠ some '0') :
    Numeral t n ↔ t ≠ [] ∧ Denotes 10 t n := by
  constructor
  · intro h
    cases h with
    | hex => simp at hzero
    | octal hne => simp [hne] at hzero
    | decimal hne _ h => exact ⟨hne, h⟩
  · rintro ⟨hne, h⟩
    exact .decimal hne hzero h

/-- A numeral is what the digits of the shown radix denote. -/
theorem numeral_iff : Numeral t n ↔ (shown t).2 ≠ [] ∧ Denotes (shown t).1 (shown t).2 n := by
  fun_cases shown t with
  | case1 digits => exact numeral_hex_iff (.inl rfl)
  | case2 digits => exact numeral_hex_iff (.inr rfl)
  | case3 d digits hsmall hcapital =>
      have hmark : ¬ (d = 'x' ∨ d = 'X') := by
        rintro (rfl | rfl)
        · exact hsmall rfl
        · exact hcapital rfl
      simp [numeral_octal_iff hmark]
  | case4 t _ _ hoctal =>
      refine numeral_decimal_iff ?_
      rcases t with - | ⟨c, - | ⟨d, digits⟩⟩
      · exact .inr nofun
      · by_cases hc : c = '0'
        · exact .inl (by rw [hc])
        · exact .inr (by simp [hc])
      · exact .inr (by simpa using hoctal d digits)

/-- A text is the numeral of one number at most. -/
theorem Numeral.unique (hm : Numeral t m) (hn : Numeral t n) : m = n :=
  (numeral_iff.mp hm).2.unique (shown_radix t).2 (numeral_iff.mp hn).2

/-- A number is read from its numeral if it is below the limit. -/
theorem radixNat?_eq_some_iff {s : String} :
    radixNat? s = some n ↔ Numeral (trim s).toList n ∧ n < 2 ^ 64 := by
  obtain ⟨hpos, hradix⟩ := shown_radix (trim s).toList
  rw [radixNat?_eq, natBelow?_eq_some_iff_denotes hpos hradix (by decide), numeral_iff, and_assoc]
  rfl

/-- **Numbers that show their radix are read exactly.**  Blanks at both ends of a text aside, its
number is read if it is one or more hexadecimal digits behind `0x` or `0X`, one or more octal
digits behind a zero, or decimal digits that are a zero alone or begin with none, and if the number
of these digits is below 2^64.  A larger number is not read, however many digits it has, and neither
is any other text. -/
theorem radixNat?_exact (s : String) :
    Trims s (trim s) ∧
      (∀ n, radixNat? s = some n ↔ Numeral (trim s).toList n ∧ n < 2 ^ 64) ∧
      (∀ n, Numeral (trim s).toList n → 2 ^ 64 ≤ n → radixNat? s = none) ∧
      ((¬ ∃ n, Numeral (trim s).toList n) → radixNat? s = none) := by
  refine ⟨trims_trim s, fun n => radixNat?_eq_some_iff, fun n hn hlarge => ?_, fun hnone => ?_⟩
  · rw [Option.eq_none_iff_forall_ne_some]
    intro m hm
    obtain ⟨hnumeral, hsmall⟩ := radixNat?_eq_some_iff.mp hm
    rw [hnumeral.unique hn] at hsmall
    exact absurd hsmall (Nat.not_lt.mpr hlarge)
  · rw [Option.eq_none_iff_forall_ne_some]
    intro m hm
    exact hnone ⟨m, (radixNat?_eq_some_iff.mp hm).1⟩

/-- The largest number that is read, and one more. -/
example : radixNat? " 0xFFFFffffFFFFffff\t" = some (2 ^ 64 - 1) ∧
    radixNat? "02000000000000000000000" = none := by
  decide

end WsRelay.Text
