import WsRelay.Proofs.Json.Exactness
/-! # What the framing by JSON values waits for

A buffer can still grow into a value (`Grows`) if some continuation makes it one, with blanks before
it.  The scanner never takes such a buffer for none (`scan_ne_invalid`): what it makes of the
continued buffer it has not yet ruled out.

It also asks for more where nothing helps.  A buffer `Dangles` if it ends in a `Stump`, at a place
where any number may begin: after `--` or `[1.e` more is asked for, since no digit comes last, but
no number begins so.  These are all the buffers that are waited for (`scan_eq_incomplete_iff`), and
`jsonValue_waits_iff` says so of the framing. -/

namespace WsRelay.Json

variable {e e' : Expect} {bs bs' : List Bracket} {b d : UInt8} {p t x y data : Bytes}
  {n : Numeral} {m seen : Nat}

/-- Some continuation makes a value of the buffer, with blanks before it. -/
def Grows (data : Bytes) : Prop :=
  ∃ x w v, data ++ x = w ++ v ∧ Blanks w ∧ Derives .value depthLimit v

/-- Bytes of numbers: the first begins one, and the last is no digit. -/
structure Stump (d : UInt8) (t : Bytes) : Prop where
  opens : ∃ n, Opens d n
  token : ∀ b ∈ t, inNumber b = true
  last : ∀ b ∈ (d :: t).getLast?, isDigit b = false

/-- The buffer ends in a stump, where whatever a number begins with can be continued. -/
def Dangles (data : Bytes) : Prop :=
  ∃ p d t, data = p ++ d :: t ∧ (∀ b n, Opens b n → Grows (p ++ [b])) ∧ Stump d t

theorem grows_iff : Grows data ↔ ∃ x, Completes .value [] (data ++ x) := by
  simp only [Grows, completes_value_nil]

/-! ### Numbers that are cut off -/

/-- Bytes of a number leave it dangling exactly if the last of them is no digit. -/
theorem isDangling_pushAll (n : Numeral) (ht : ∀ b ∈ t, inNumber b = true)
    (hlast : b ∈ t.getLast?) : (n.pushAll t).isDangling = !isDigit b := by
  obtain ⟨init, rfl⟩ := List.getLast?_eq_some_iff.mp hlast
  rw [Numeral.pushAll_append]
  exact Numeral.isDangling_push _ (ht b (List.mem_append_right _ (List.mem_singleton_self b)))

theorem Stump.inNumber (h : Stump d t) : ∀ b ∈ d :: t, inNumber b = true := by
  obtain ⟨n, hopens⟩ := h.opens
  exact List.forall_mem_cons.mpr ⟨hopens.inNumber, h.token⟩

/-- The same with the byte that opens the number. -/
theorem isDangling_opens (hopens : Opens d n) (ht : ∀ b ∈ t, inNumber b = true)
    (hlast : b ∈ (d :: t).getLast?) : (n.pushAll t).isDangling = !isDigit b := by
  cases t with
  | nil =>
      obtain rfl : d = b := by simpa using hlast
      cases hopens with
      | minus => rfl
      | zero => rfl
      | digit hd _ => rw [hd]; rfl
  | cons a t =>
      rw [List.getLast?_cons_cons] at hlast
      exact isDangling_pushAll n ht hlast

theorem exists_last (d : UInt8) (t : Bytes) : ∃ b, b ∈ (d :: t).getLast? :=
  ⟨_, List.getLast?_eq_some_getLast (List.cons_ne_nil d t)⟩

/-- A number that a stump continues is left dangling, broken or not. -/
theorem Stump.isDangling (h : Stump d t) (n : Numeral) :
    (n.pushAll (d :: t)).isDangling = true := by
  obtain ⟨b, hb⟩ := exists_last d t
  rw [isDangling_pushAll n h.inNumber hb, h.last b hb]
  rfl

/-- So is a number that a stump begins. -/
theorem Stump.isDangling_opens (h : Stump d t) (hopens : Opens d n) :
    (n.pushAll t).isDangling = true := by
  obtain ⟨b, hb⟩ := exists_last d t
  rw [Json.isDangling_opens hopens h.token hb, h.last b hb]
  rfl

/-- Bytes that open a number and leave it dangling are a stump. -/
theorem stump_of_isDangling (hopens : Opens d n) (ht : ∀ b ∈ t, inNumber b = true)
    (h : (n.pushAll t).isDangling = true) : Stump d t where
  opens := ⟨n, hopens⟩
  token := ht
  last := by
    intro b hb
    rw [Json.isDangling_opens hopens ht hb] at h
    exact Bool.not_eq_true' _ ▸ h

/-- While a number dangles, more is asked for. -/
theorem scanFrom_dangling (ht : ∀ b ∈ t, inNumber b = true) (h : (n.pushAll t).isDangling = true) :
    scanFrom (.number n) bs seen t = .incomplete := by
  have hscan := scanFrom_number ht n bs seen []
  rw [List.append_nil] at hscan
  rw [hscan, scanFrom, atEnd, if_pos h]

theorem plain_of_inNumber (h : inNumber b = true) : b ≠ 34 ∧ b ≠ 92 ∧ ¬ b < 32 := by
  refine ⟨?_, ?_, fun hlt => ?_⟩
  · rintro rfl
    cases h
  · rintro rfl
    cases h
  · simp [inNumber, isDigit, isSign, isExponent, UInt8.le_iff_toNat_le, ← UInt8.toNat_inj] at h
    rw [UInt8.lt_iff_toNat_lt] at hlt
    simp at hlt
    omega

/-- Bytes of a number are characters like others inside of a string. -/
theorem scanFrom_text (isKey : Bool) (ht : ∀ b ∈ t, inNumber b = true) :
    scanFrom (.text isKey) bs seen t = .incomplete := by
  induction t generalizing seen with
  | nil => rfl
  | cons b t ih =>
      obtain ⟨hb, ht⟩ := List.forall_mem_cons.mp ht
      have hstep : step (.text isKey) bs b = .next (.text isKey) bs := by
        obtain ⟨hquote, hescape, hplain⟩ := plain_of_inNumber hb
        simp only [step]
        rw [if_neg hquote, if_neg hescape, if_neg hplain]
      rw [scanFrom, hstep]
      exact ih ht

/-! ### Where numbers begin -/

/-- A number is read after a byte that could come in one before, or after one that opens it. -/
theorem step_eq_number (h : step e bs b = .next (.number n) bs') : bs' = bs ∧
    ((∃ n₀, e = .number n₀ ∧ inNumber b = true ∧ n = n₀.push b) ∨ Begins e ∧ Opens b n) := by
  have hsteps := steps e bs b
  rw [h] at hsteps
  cases hsteps with
  | opens he hopens => exact ⟨rfl, .inr ⟨he, hopens⟩⟩
  | pushes he hb => exact ⟨rfl, .inl ⟨_, he, hb, rfl⟩⟩
  | passes hnot => exact absurd rfl (hnot n)

/-- Where both a minus and a zero may come a value begins, unless it is inside a string or a
number. -/
theorem place_cases (hminus : step e bs 45 ≠ .fails) (hzero : step e bs 48 ≠ .fails) :
    Begins e ∨ (∃ isKey, e = .text isKey) ∨ ∃ n, e = .number n := by
  cases e with
  | value => exact .inl .value
  | content bracket =>
      cases bracket with
      | object => exact absurd rfl hminus
      | array => exact .inl .content
  | text isKey => exact .inr (.inl ⟨isKey, rfl⟩)
  | number n => exact .inr (.inr ⟨n, rfl⟩)
  | separator =>
      cases bs with
      | nil => exact absurd rfl hminus
      | cons bracket bs => cases bracket <;> exact absurd rfl hminus
  | word rest =>
      cases rest with
      | nil => exact absurd rfl hminus
      | cons c rest =>
          have hboth : 45 = c ∧ 48 = c := by
            simp only [step] at hminus hzero
            exact ⟨Decidable.byContradiction fun hc => hminus (if_neg hc),
              Decidable.byContradiction fun hc => hzero (if_neg hc)⟩
          exact absurd (hboth.1.trans hboth.2.symm) (by decide)
  | key => exact absurd rfl hminus
  | colon => exact absurd rfl hminus
  | escape isKey => exact absurd rfl hminus
  | hex left isKey => exact absurd rfl hminus

/-- After a stump at such a place more is asked for. -/
theorem scanFrom_stump (he : Begins e ∨ (∃ isKey, e = .text isKey) ∨ ∃ n, e = .number n)
    (h : Stump d t) : scanFrom e bs seen (d :: t) = .incomplete := by
  rcases he with hbegins | ⟨isKey, rfl⟩ | ⟨n, rfl⟩
  · obtain ⟨n, hopens⟩ := h.opens
    rw [scanFrom, step_begins hbegins hopens.not_isBlank hopens.ne_close, hopens.startValue]
    exact scanFrom_dangling h.token (h.isDangling_opens hopens)
  · exact scanFrom_text isKey h.inNumber
  · exact scanFrom_dangling h.inNumber (h.isDangling n)

/-! ### What can grow -/

/-- What can be finished is whole already, or asks for more. -/
theorem Finishes.isDangling_or (h : Finishes n t) : n.isDangling = true ∨ n.isWhole = true := by
  cases h <;> first | exact .inl rfl | exact .inr rfl

/-- A value that can be completed is not ruled out where the buffer ends. -/
theorem atEnd_ne_invalid (h : Completes e bs x) : atEnd e bs seen ≠ .invalid := by
  cases h with
  | number ht _ =>
      simp only [atEnd]
      rcases ht.isDangling_or with hn | hn
      · rw [if_pos hn]
        rintro ⟨⟩
      · rw [if_pos hn]
        repeat' split
        all_goals rintro ⟨⟩
  | _ => rintro ⟨⟩

/-- What is continued to a value is not ruled out before. -/
theorem scanFrom_ne_invalid (h : scanFrom e bs seen (y ++ x) = .complete m) :
    scanFrom e bs seen y ≠ .invalid := by
  induction y generalizing e bs seen with
  | nil =>
      obtain ⟨k, -, -, hz⟩ := completes_of_scanFrom h
      exact atEnd_ne_invalid hz
  | cons b y ih =>
      rw [List.cons_append, scanFrom] at h
      rw [scanFrom]
      split at h
      · exact ih h
      · rintro ⟨⟩
      · rintro ⟨⟩
      · cases h

/-- A buffer that can be continued to a value, continued so, is found to be one. -/
theorem Grows.exists_scan (h : Grows data) :
    ∃ x m, scan (data ++ x) = .complete m ∧ m = data.length + x.length := by
  obtain ⟨x, w, v, heq, hw, hv⟩ := h
  have hfront : Front (data ++ x) w v [] := ⟨by rw [heq, List.append_nil], hw, hv, fun _ => nofun⟩
  refine ⟨x, _, hfront.scan_eq, ?_⟩
  rw [← List.length_append, ← List.length_append, heq]

/-- **What can still grow is not ruled out.** -/
theorem scan_ne_invalid (h : Grows data) : scan data ≠ .invalid := by
  obtain ⟨x, m, hscan, -⟩ := h.exists_scan
  exact scanFrom_ne_invalid hscan

/-- At a stump, more is asked for. -/
theorem scanFrom_eq_incomplete (hstump : Stump d t)
    (hplace : ∀ b ∈ [45, 48], ∃ x m, scanFrom e bs seen (p ++ b :: x) = .complete m ∧
      seen + p.length < m) : scanFrom e bs seen (p ++ d :: t) = .incomplete := by
  induction p generalizing e bs seen with
  | nil =>
      have haccepts : ∀ b ∈ [45, 48], step e bs b ≠ .fails := by
        intro b hb hfails
        obtain ⟨x, m, hscan, -⟩ := hplace b hb
        rw [List.nil_append, scanFrom, hfails] at hscan
        cases hscan
      exact scanFrom_stump (place_cases (haccepts 45 (by simp)) (haccepts 48 (by simp))) hstump
  | cons a p ih =>
      obtain ⟨x, m, hscan, hlt⟩ := hplace 45 (by simp)
      rw [List.length_cons] at hlt
      rw [List.cons_append, scanFrom] at hscan ⊢
      split at hscan
      · next hstep =>
        refine ih fun b hb => ?_
        obtain ⟨x, m, hscan, hlt⟩ := hplace b hb
        rw [List.cons_append, scanFrom, hstep] at hscan
        rw [List.length_cons] at hlt
        exact ⟨x, m, hscan, by omega⟩
      · cases hscan
        omega
      · cases hscan
        omega
      · cases hscan

/-- A buffer that dangles is waited for, whatever may become of it. -/
theorem Dangles.scan_eq (h : Dangles data) : scan data = .incomplete := by
  obtain ⟨p, d, t, rfl, hplace, hstump⟩ := h
  refine scanFrom_eq_incomplete hstump fun b hb => ?_
  have hopens : ∃ n, Opens b n := by
    simp only [List.mem_cons, List.not_mem_nil, or_false] at hb
    rcases hb with rfl | rfl
    · exact ⟨_, .minus⟩
    · exact ⟨_, .zero⟩
  obtain ⟨n, hopens⟩ := hopens
  obtain ⟨x, m, hscan, rfl⟩ := (hplace b n hopens).exists_scan
  rw [List.append_assoc] at hscan
  refine ⟨x, _, hscan, ?_⟩
  rw [List.length_append, List.length_singleton]
  omega

/-! ### What is waited for -/

/-- Where more is asked for, something completes the value, or the buffer ends in a stump; one that
begins before here if a number is being read. -/
theorem cases_of_incomplete (h : scanFrom e bs seen y = .incomplete) :
    (∃ x, Completes e bs (y ++ x)) ∨
    (∃ p d t, y = p ++ d :: t ∧ (∀ b n, Opens b n → ∃ x, Completes e bs (p ++ b :: x)) ∧
      Stump d t) ∨
    ∃ n, e = .number n ∧ (∀ b ∈ y, inNumber b = true) ∧ (n.pushAll y).isDangling = true := by
  induction y generalizing e bs seen with
  | nil =>
      by_cases hbroken : ∃ d, e = .number (.broken d)
      · obtain ⟨d, rfl⟩ := hbroken
        cases d with
        | false => cases h
        | true => exact .inr (.inr ⟨_, rfl, List.forall_mem_nil _, rfl⟩)
      · exact .inl (exists_completes bs fun d hd => hbroken ⟨d, hd⟩)
  | cons b y ih =>
      rw [scanFrom] at h
      split at h
      · next e' bs' hstep =>
        have hcompletes {z : Bytes} (hz : Completes e' bs' z) : Completes e bs (b :: z) := by
          refine completes_of_leads ?_
          rw [hstep]
          exact hz
        rcases ih h with ⟨x, hx⟩ | ⟨p, d, t, rfl, hplace, hstump⟩ | ⟨n, rfl, hy, hdangling⟩
        · exact .inl ⟨x, hcompletes hx⟩
        · refine .inr (.inl ⟨b :: p, d, t, rfl, fun a n hopens => ?_, hstump⟩)
          obtain ⟨x, hx⟩ := hplace a n hopens
          exact ⟨x, hcompletes hx⟩
        · obtain ⟨rfl, ⟨n₀, rfl, hb, rfl⟩ | ⟨hbegins, hopens⟩⟩ := step_eq_number hstep
          · exact .inr (.inr ⟨n₀, rfl, List.forall_mem_cons.mpr ⟨hb, hy⟩, hdangling⟩)
          · -- the number begins with this byte, and any other could begin here as well
            have hstump := stump_of_isDangling hopens hy hdangling
            refine .inr (.inl ⟨[], b, y, rfl, fun a n' hopens' => ?_, hstump⟩)
            obtain ⟨x, hx⟩ := exists_completes bs' (e := .number n') fun d hd =>
              hopens'.not_broken d (Expect.number.inj hd)
            refine ⟨x, completes_of_leads ?_⟩
            rw [step_begins hbegins hopens'.not_isBlank hopens'.ne_close, hopens'.startValue]
            exact hx
      · cases h
      · cases h
      · cases h

/-- **What more is asked for**: what can still grow into a value without being one, and what
dangles. -/
theorem scan_eq_incomplete_iff : scan data = .incomplete ↔
    (∀ n, scan data ≠ .complete n) ∧ (Grows data ∨ Dangles data) := by
  constructor
  · intro h
    refine ⟨fun n => by rw [h]; exact nofun, ?_⟩
    rcases cases_of_incomplete h with hx | ⟨p, d, t, heq, hplace, hstump⟩ | ⟨n, hvalue, -⟩
    · exact .inl (grows_iff.mpr hx)
    · refine .inr ⟨p, d, t, heq, fun b n hopens => grows_iff.mpr ?_, hstump⟩
      simpa only [List.append_assoc, List.singleton_append] using hplace b n hopens
    · cases hvalue
  · rintro ⟨hcomplete, hgrows | hdangles⟩
    · cases hscan : scan data with
      | complete n => exact absurd hscan (hcomplete n)
      | incomplete => rfl
      | invalid => exact absurd hscan (scan_ne_invalid hgrows)
    · exact hdangles.scan_eq

theorem derives_value_ne_nil (h : Derives .value m []) : False := by
  rcases closed_or_number h with h | h
  · cases h with
    | text h => cases h
    | literal h => exact absurd h (by decide)
  · obtain ⟨b, n, t, hnil, -⟩ := h.exists_numeral
    cases hnil

theorem scan_ne_complete_zero : scan data ≠ .complete 0 := by
  intro h
  obtain ⟨w, v, r, hfront, hlen⟩ := scan_eq_complete_iff.mp h
  obtain rfl : v = [] := List.length_eq_zero_iff.mp (by omega)
  exact derives_value_ne_nil hfront.value

/-- Two minus signs make no value, whatever follows. -/
theorem not_grows_minus_minus : ¬ Grows [45, 45] := by
  intro h
  obtain ⟨x, m, hscan, -⟩ := h.exists_scan
  have hbroken : scanFrom (.number (.broken true)) [] 2 x = .complete m := hscan
  obtain ⟨k, -, -, hz⟩ := completes_of_scanFrom hbroken
  generalize x.take k = z at hz
  cases hz with
  | number ht _ => cases ht

end WsRelay.Json

namespace WsRelay.Framing

open Json

variable {σ : Type}

/-- **What the framing by JSON values waits for**: a buffer that is no value yet, and that can grow
into one or dangles.  What is no value and does neither goes out whole, as binary. -/
theorem jsonValue_waits_iff (data : Bytes) (lastRead : Nat) (config : String) (memory : Memory σ) :
    ((∃ kind, jsonValue data lastRead config memory = (.ok ⟨0, kind⟩, memory)) ↔
      (∀ n, scan data ≠ .complete n) ∧ (Grows data ∨ Dangles data)) ∧
    ((∀ n, scan data ≠ .complete n) → ¬ Grows data → ¬ Dangles data →
      jsonValue data lastRead config memory = (.ok ⟨data.length, .binary⟩, memory)) := by
  rw [← scan_eq_incomplete_iff]
  constructor
  · constructor
    · rintro ⟨kind, h⟩
      unfold jsonValue at h
      split at h
      · next hscan =>
        cases h
        exact absurd hscan scan_ne_complete_zero
      · next hscan => exact hscan
      · next hscan =>
        simp only [Prod.mk.injEq, Except.ok.injEq, Cut.mk.injEq, List.length_eq_zero_iff] at h
        obtain ⟨⟨rfl, -⟩, -⟩ := h
        cases hscan
    · intro hscan
      exact ⟨.binary, by rw [jsonValue, hscan]⟩
  · intro hcomplete hgrows hdangles
    unfold jsonValue
    split
    · next n hscan => exact absurd hscan (hcomplete n)
    · next hscan =>
      rcases (scan_eq_incomplete_iff.mp hscan).2 with h | h
      · exact absurd h hgrows
      · exact absurd h hdangles
    · rfl

/-- What can grow is not all that is waited for: `--` is, and is not the front of any value. -/
theorem jsonValue_waits_needlessly :
    jsonValue (σ := Unit) [45, 45] 2 "" .empty = (.ok ⟨0, .binary⟩, .empty) ∧
    (∀ n, scan [45, 45] ≠ .complete n) ∧ ¬ Grows [45, 45] :=
  ⟨rfl, nofun, not_grows_minus_minus⟩

end WsRelay.Framing
