import WsRelay.Proofs.Json.Scan
/-! # Numbers, byte by byte

A number is read one byte after the other, and `Numeral` says how far.  `Finishes n t` is the part
of the grammar that is still to come: the bytes `t` make a number of what has been read.  It follows
what the scanner does (`Finishes.push`, `finishes_of_isWhole`), so that what finishes the first byte
of a number is the rest of a number (`Finishes.number`).

The other way round, a number begins with a byte that opens one, and its other bytes lead to where
a whole number has been read (`Number.exists_numeral`). -/

namespace WsRelay.Json

variable {b : UInt8} {t : Bytes} {n : Numeral} {bs : List Bracket}

/-! ### Numerals -/

/-- Reads more bytes of a number. -/
def Numeral.pushAll (n : Numeral) (t : Bytes) : Numeral :=
  t.foldl Numeral.push n

theorem Numeral.pushAll_append (n : Numeral) (s t : Bytes) :
    n.pushAll (s ++ t) = (n.pushAll s).pushAll t :=
  List.foldl_append

theorem Numeral.isDangling_of_isWhole (h : n.isWhole = true) : n.isDangling = false := by
  cases n <;> first | rfl | cases h

/-- Whether a byte leaves a number dangling depends on that byte alone. -/
theorem Numeral.isDangling_push (n : Numeral) (hin : inNumber b = true) :
    (n.push b).isDangling = !isDigit b := by
  have hsign : isSign b = true → isDigit b = false := by
    simp only [isSign, isDigit, Bool.or_eq_true, beq_iff_eq]
    rintro (rfl | rfl) <;> rfl
  have hexponent : isExponent b = true → isDigit b = false := by
    simp only [isExponent, isDigit, Bool.or_eq_true, beq_iff_eq]
    rintro (rfl | rfl) <;> rfl
  have hpoint : b = 46 → isDigit b = false := by
    rintro rfl
    rfl
  have hzero : b = 48 → isDigit b = true := by
    rintro rfl
    rfl
  cases n <;> simp only [push] <;> repeat' split
  all_goals simp_all [isDangling]

/-! ### What is still to come of a number -/

/-- The bytes make a number of what has been read of it. -/
inductive Finishes : Numeral → Bytes → Prop
  | minus {w f e : Bytes} (hw : Whole w) (hf : Fraction f) (he : Exponent e) :
      Finishes .minus (w ++ (f ++ e))
  | zero {f e : Bytes} (hf : Fraction f) (he : Exponent e) : Finishes .zero (f ++ e)
  | whole {ds f e : Bytes} (hds : ∀ b ∈ ds, isDigit b = true) (hf : Fraction f)
      (he : Exponent e) : Finishes .whole (ds ++ (f ++ e))
  | point {ds e : Bytes} (hds : Digits ds) (he : Exponent e) : Finishes .point (ds ++ e)
  | fraction {ds e : Bytes} (hds : ∀ b ∈ ds, isDigit b = true) (he : Exponent e) :
      Finishes .fraction (ds ++ e)
  | exponent {ds : Bytes} (hds : Digits ds) : Finishes .exponent ds
  | signed {sign : UInt8} {ds : Bytes} (hsign : isSign sign = true) (hds : Digits ds) :
      Finishes .exponent (sign :: ds)
  | exponentSign {ds : Bytes} (hds : Digits ds) : Finishes .exponentSign ds
  | exponentDigits {ds : Bytes} (hds : ∀ b ∈ ds, isDigit b = true) :
      Finishes .exponentDigits ds

/-- Nothing has to come after a whole number. -/
theorem finishes_of_isWhole (h : n.isWhole = true) : Finishes n [] := by
  have hnone : ∀ b ∈ ([] : Bytes), isDigit b = true := List.forall_mem_nil _
  cases n with
  | zero => exact .zero .absent .absent
  | whole => exact .whole hnone .absent .absent
  | fraction => exact .fraction hnone .absent
  | exponentDigits => exact .exponentDigits hnone
  | minus | point | exponent | exponentSign | broken => cases h

theorem digits_cons {ds : Bytes} (hb : isDigit b = true) (hds : ∀ b ∈ ds, isDigit b = true) :
    Digits (b :: ds) :=
  ⟨List.cons_ne_nil _ _, List.forall_mem_cons.mpr ⟨hb, hds⟩⟩

/-- The exponent begins: what follows is the rest of it. -/
theorem Finishes.exponent_cons (hb : isExponent b = true) (h : Finishes .exponent t) :
    Exponent (b :: t) := by
  cases h with
  | exponent hds => exact .unsigned hb hds
  | signed hsign hds => exact .signed hb hsign hds

/-- The fraction begins. -/
theorem Finishes.point_cons (h : Finishes .point t) :
    ∃ f e, Fraction f ∧ Exponent e ∧ 46 :: t = f ++ e := by
  cases h with
  | @point ds e hds he => exact ⟨46 :: ds, e, .digits hds, he, rfl⟩

/-- What finishes a number after one more byte finishes it together with this byte. -/
theorem Finishes.push (h : Finishes (n.push b) t) : Finishes n (b :: t) := by
  cases n with
  | minus =>
      simp only [Numeral.push] at h
      split at h
      · next hb =>
        subst hb
        cases h with
        | zero hf he => exact .minus .zero hf he
      · next hne =>
        split at h
        · next hb =>
          cases h with
          | whole hds hf he => exact .minus (.digits hb hne hds) hf he
        · cases h
  | zero =>
      simp only [Numeral.push] at h
      split at h
      · next hb =>
        subst hb
        obtain ⟨f, e, hf, he, heq⟩ := h.point_cons
        rw [heq]
        exact .zero hf he
      · split at h
        · next hb => exact .zero .absent (h.exponent_cons hb)
        · cases h
  | whole =>
      simp only [Numeral.push] at h
      split at h
      · next hb =>
        cases h with
        | whole hds hf he => exact .whole (List.forall_mem_cons.mpr ⟨hb, hds⟩) hf he
      · split at h
        · next hb =>
          subst hb
          obtain ⟨f, e, hf, he, heq⟩ := h.point_cons
          rw [heq]
          exact .whole (List.forall_mem_nil _) hf he
        · split at h
          · next hb => exact .whole (List.forall_mem_nil _) .absent (h.exponent_cons hb)
          · cases h
  | point =>
      simp only [Numeral.push] at h
      split at h
      · next hb =>
        cases h with
        | fraction hds he => exact .point (digits_cons hb hds) he
      · cases h
  | fraction =>
      simp only [Numeral.push] at h
      split at h
      · next hb =>
        cases h with
        | fraction hds he => exact .fraction (List.forall_mem_cons.mpr ⟨hb, hds⟩) he
      · split at h
        · next hb => exact .fraction (List.forall_mem_nil _) (h.exponent_cons hb)
        · cases h
  | exponent =>
      simp only [Numeral.push] at h
      split at h
      · next hb =>
        cases h with
        | exponentDigits hds => exact .exponent (digits_cons hb hds)
      · split at h
        · next hb =>
          cases h with
          | exponentSign hds => exact .signed hb hds
        · cases h
  | exponentSign =>
      simp only [Numeral.push] at h
      split at h
      · next hb =>
        cases h with
        | exponentDigits hds => exact .exponentSign (digits_cons hb hds)
      · cases h
  | exponentDigits =>
      simp only [Numeral.push] at h
      split at h
      · next hb =>
        cases h with
        | exponentDigits hds => exact .exponentDigits (List.forall_mem_cons.mpr ⟨hb, hds⟩)
      · cases h
  | broken => cases h

/-- Whatever has been read of a number, unless it is none, can be finished. -/
theorem exists_finishes (h : ∀ d, n ≠ .broken d) : ∃ t, Finishes n t := by
  have hzero : ∀ b ∈ ([48] : Bytes), isDigit b = true := List.forall_mem_singleton.mpr rfl
  have hdigits : Digits [48] := digits_cons rfl (List.forall_mem_nil _)
  cases n with
  | minus => exact ⟨_, .minus .zero .absent .absent⟩
  | zero | whole | fraction | exponentDigits => exact ⟨[], finishes_of_isWhole rfl⟩
  | point => exact ⟨_, .point hdigits .absent⟩
  | exponent => exact ⟨_, .exponent hdigits⟩
  | exponentSign => exact ⟨_, .exponentSign hdigits⟩
  | broken d => exact absurd rfl (h d)

/-! ### Whole numbers -/

/-- The first byte of a number, and how far the number has been read after it. -/
inductive Opens : UInt8 → Numeral → Prop
  | minus : Opens 45 .minus
  | zero : Opens 48 .zero
  | digit {b : UInt8} (hb : isDigit b = true) (hne : b ≠ 48) : Opens b .whole

/-- The first byte of a number and what finishes it are a number. -/
theorem Finishes.number (h : Finishes n t) (hb : Opens b n) : Number (b :: t) := by
  cases hb with
  | minus =>
      cases h with
      | minus hw hf he => exact .negative hw hf he
  | zero =>
      cases h with
      | zero hf he => exact .positive .zero hf he
  | digit hb hne =>
      cases h with
      | whole hds hf he => exact .positive (.digits hb hne hds) hf he

theorem Opens.startValue (h : Opens b n) (bs : List Bracket) :
    startValue bs b = .next (.number n) bs := by
  cases h with
  | minus => rfl
  | zero => rfl
  | digit hb hne => exact startValue_digit hb hne

theorem Opens.not_isBlank (h : Opens b n) : isBlank b = false := by
  cases h with
  | minus => rfl
  | zero => rfl
  | digit hb hne => exact not_isBlank_of_isDigit hb

theorem Opens.ne_close (h : Opens b n) : b ≠ 93 := by
  cases h with
  | minus => decide
  | zero => decide
  | digit hb hne => exact ne_of_isDigit hb rfl

theorem Opens.inNumber (h : Opens b n) : inNumber b = true := by
  cases h with
  | minus => rfl
  | zero => rfl
  | digit hb hne => exact inNumber_of_isDigit hb

theorem Opens.not_broken (h : Opens b n) (d : Bool) : n ≠ .broken d := by
  cases h <;> exact nofun

/-- A number is a first byte and what finishes it. -/
theorem Number.exists_opens {v : Bytes} (h : Number v) :
    ∃ b n t, v = b :: t ∧ Opens b n ∧ Finishes n t := by
  cases h with
  | @positive w f e hw hf he =>
      cases hw with
      | zero => exact ⟨48, .zero, f ++ e, rfl, .zero, .zero hf he⟩
      | @digits d ds hd hzero hds =>
          exact ⟨d, .whole, ds ++ (f ++ e), rfl, .digit hd hzero, .whole hds hf he⟩
  | negative hw hf he => exact ⟨45, .minus, _, rfl, .minus, .minus hw hf he⟩

/-- All that finishes a number can stand in one. -/
theorem Finishes.inNumber (h : Finishes n t) : ∀ b ∈ t, inNumber b = true := by
  have hdigits {ds : Bytes} (hds : ∀ b ∈ ds, isDigit b = true) :
      ∀ b ∈ ds, Json.inNumber b = true := fun b hb => inNumber_of_isDigit (hds b hb)
  have hwhole {w : Bytes} (hw : Whole w) : ∀ b ∈ w, Json.inNumber b = true := by
    cases hw with
    | zero => exact List.forall_mem_singleton.mpr rfl
    | digits hd _ hds => exact hdigits (List.forall_mem_cons.mpr ⟨hd, hds⟩)
  have hfraction {f : Bytes} (hf : Fraction f) : ∀ b ∈ f, Json.inNumber b = true := by
    cases hf with
    | absent => exact List.forall_mem_nil _
    | digits hds => exact List.forall_mem_cons.mpr ⟨rfl, hdigits hds.2⟩
  have hsign {b : UInt8} (hb : isSign b = true) : Json.inNumber b = true := by
    simp [Json.inNumber, hb]
  have hexponent {e : Bytes} (he : Exponent e) : ∀ b ∈ e, Json.inNumber b = true := by
    have hletter {b : UInt8} (hb : isExponent b = true) : Json.inNumber b = true := by
      simp [Json.inNumber, hb]
    cases he with
    | absent => exact List.forall_mem_nil _
    | unsigned he hds => exact List.forall_mem_cons.mpr ⟨hletter he, hdigits hds.2⟩
    | signed he hs hds =>
        exact List.forall_mem_cons.mpr ⟨hletter he,
          List.forall_mem_cons.mpr ⟨hsign hs, hdigits hds.2⟩⟩
  have hboth {x y : Bytes} (hx : ∀ b ∈ x, Json.inNumber b = true)
      (hy : ∀ b ∈ y, Json.inNumber b = true) : ∀ b ∈ x ++ y, Json.inNumber b = true :=
    List.forall_mem_append.mpr ⟨hx, hy⟩
  cases h with
  | minus hw hf he => exact hboth (hwhole hw) (hboth (hfraction hf) (hexponent he))
  | zero hf he => exact hboth (hfraction hf) (hexponent he)
  | whole hds hf he => exact hboth (hdigits hds) (hboth (hfraction hf) (hexponent he))
  | point hds he => exact hboth (hdigits hds.2) (hexponent he)
  | fraction hds he => exact hboth (hdigits hds) (hexponent he)
  | exponent hds => exact hdigits hds.2
  | signed hs hds => exact List.forall_mem_cons.mpr ⟨hsign hs, hdigits hds.2⟩
  | exponentSign hds => exact hdigits hds.2
  | exponentDigits hds => exact hdigits hds

/-- The scanner reads the bytes of a number as `Numeral.pushAll` does. -/
theorem Reads.numeral {e : Expect} {bs' : List Bracket} (h : Reads (.number n) bs t e bs')
    (ht : ∀ b ∈ t, inNumber b = true) : e = .number (n.pushAll t) := by
  generalize hstart : Expect.number n = e₀ at h
  induction h generalizing n with
  | nil => exact hstart.symm
  | cons hstep _ _ ih =>
      subst hstart
      obtain ⟨hb, ht⟩ := List.forall_mem_cons.mp ht
      simp only [step, hb, if_true, Move.next.injEq] at hstep
      exact ih ht hstep.1

/-- **A number is read to its end**: after its first byte come bytes that can stand in a number, and
lead to where a whole number has been read. -/
theorem Number.exists_numeral {v : Bytes} (h : Number v) :
    ∃ b n t, v = b :: t ∧ Opens b n ∧ (∀ b ∈ t, Json.inNumber b = true) ∧
      (n.pushAll t).isWhole = true := by
  obtain ⟨b, n, t, rfl, hopens, hfinishes⟩ := h.exists_opens
  refine ⟨b, n, t, rfl, hopens, hfinishes.inNumber, ?_⟩
  obtain ⟨e, hends, hreads⟩ := reads_number h .value (List.cons_ne_nil Bracket.array [])
  cases hreads with
  | cons hstep _ hmore =>
      rw [step_begins .value hopens.not_isBlank hopens.ne_close, hopens.startValue] at hstep
      cases hstep
      obtain rfl := hmore.numeral hfinishes.inNumber
      cases hends with
      | number hwhole => exact hwhole

end WsRelay.Json
