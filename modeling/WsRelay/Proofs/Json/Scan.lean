import WsRelay.Proofs.Json.Grammar
/-! # How a value is scanned

`Reads` says that the scanner gets from one state to another over some bytes, and that after each of
them more is to come.  The bytes of a production are read from where it may begin to where it may
end (`readable_of_derives`), by induction on its derivation: a value that its last byte closes is
read up to that byte, and a number inside a container ends with the byte after it.

Hence a unit is found where it ends, whatever follows it (`scan_unit`), and no shorter part of it is
taken for a value or for none (`scan_incomplete`). -/

namespace WsRelay.Json

/-- More bytes are expected. -/
def IsOpen (e : Expect) (bs : List Bracket) : Prop :=
  ∀ seen, atEnd e bs seen = .incomplete

/-- The scanner reads bytes from one state to another, and expects more after each of them. -/
inductive Reads : Expect → List Bracket → Bytes → Expect → List Bracket → Prop
  | nil {e : Expect} {bs : List Bracket} : Reads e bs [] e bs
  | cons {e e' e'' : Expect} {bs bs' bs'' : List Bracket} {b : UInt8} {x : Bytes}
      (hstep : step e bs b = .next e' bs') (hopen : IsOpen e' bs')
      (more : Reads e' bs' x e'' bs'') : Reads e bs (b :: x) e'' bs''

variable {e e' e'' : Expect} {bs bs' bs'' : List Bracket} {b : UInt8} {x y w v : Bytes}
  {bracket : Bracket} {n n' : Numeral} {d : Nat}

theorem Reads.trans (hx : Reads e bs x e' bs') (hy : Reads e' bs' y e'' bs'') :
    Reads e bs (x ++ y) e'' bs'' := by
  induction hx with
  | nil => exact hy
  | cons hstep hopen _ ih => exact .cons hstep hopen (ih hy)

theorem Reads.byte (hstep : step e bs b = .next e' bs') (hopen : IsOpen e' bs') :
    Reads e bs [b] e' bs' :=
  .cons hstep hopen .nil

/-! ### Blanks and strings -/

theorem reads_blanks (hopen : IsOpen e bs)
    (hstep : ∀ b, isBlank b = true → step e bs b = .next e bs) (hw : Blanks w) :
    Reads e bs w e bs := by
  induction w with
  | nil => exact .nil
  | cons b w ih =>
      exact .cons (hstep b (hw b (List.mem_cons_self ..))) hopen
        (ih fun a ha => hw a (List.mem_cons_of_mem b ha))

theorem step_value_blank (h : isBlank b = true) : step .value bs b = .next .value bs := if_pos h

theorem step_content_blank (h : isBlank b = true) :
    step (.content bracket) bs b = .next (.content bracket) bs := if_pos h

theorem step_key_blank (h : isBlank b = true) : step .key bs b = .next .key bs := if_pos h

theorem step_colon_blank (h : isBlank b = true) : step .colon bs b = .next .colon bs := if_pos h

theorem reads_characters {isKey : Bool} (h : Characters x) :
    Reads (.text isKey) bs x (.text isKey) bs := by
  have hescape : step (.text isKey) bs 92 = .next (.escape isKey) bs := rfl
  induction h with
  | nil => exact .nil
  | plain hb hquote hnot _ ih =>
      refine .cons ?_ (fun _ => rfl) ih
      simp only [step]
      rw [if_neg hquote, if_neg hnot, if_neg (UInt8.not_lt.mpr hb)]
  | escape hb _ ih =>
      refine .cons hescape (fun _ => rfl) (.cons ?_ (fun _ => rfl) ih)
      simp only [List.mem_cons, List.not_mem_nil, or_false] at hb
      rcases hb with rfl | rfl | rfl | rfl | rfl | rfl | rfl | rfl <;> rfl
  | @unicode h₁ h₂ h₃ h₄ cs hh _ ih =>
      simp only [List.forall_mem_cons] at hh
      have hunicode : step (.escape isKey) bs 117 = .next (.hex 3 isKey) bs := rfl
      have hhex {h : UInt8} (hx : isHex h = true) (left : Nat) :
          step (.hex (left + 1) isKey) bs h = .next (.hex left isKey) bs := if_pos hx
      have hlast : step (.hex 0 isKey) bs h₄ = .next (.text isKey) bs := if_pos hh.2.2.2.1
      exact .cons hescape (fun _ => rfl) (.cons hunicode (fun _ => rfl)
        (.cons (hhex hh.1 2) (fun _ => rfl) (.cons (hhex hh.2.1 1) (fun _ => rfl)
          (.cons (hhex hh.2.2.1 0) (fun _ => rfl) (.cons hlast (fun _ => rfl) ih)))))

/-- A key is read up to the colon. -/
theorem reads_key (h : Text x) (hstep : step e bs 34 = .next (.text true) bs) :
    Reads e bs x .colon bs := by
  cases h with
  | quoted h =>
      exact .cons hstep (fun _ => rfl) ((reads_characters h).trans (.byte rfl fun _ => rfl))

/-! ### Where values begin and end -/

/-- A value may begin here: it is expected, or it is the first element of an array. -/
inductive Begins : Expect → Prop
  | value : Begins .value
  | content : Begins (.content .array)

/-- A value inside a container may have ended here. -/
inductive Ends : Expect → Prop
  | separator : Ends .separator
  | number {n : Numeral} (h : n.isWhole = true) : Ends (.number n)

theorem step_begins (he : Begins e) (hblank : isBlank b = false) (hclose : b ≠ 93) :
    step e bs b = startValue bs b := by
  have hblank : ¬ isBlank b = true := by rw [hblank]; exact Bool.false_ne_true
  cases he with
  | value => exact if_neg hblank
  | content =>
      simp only [step]
      rw [if_neg hblank]
      exact if_neg hclose

/-- The bytes that may follow a value inside a container. -/
theorem step_ends (he : Ends e) (hbs : bs ≠ [])
    (hb : isBlank b = true ∨ b = 44 ∨ ∃ bracket : Bracket, b = bracket.close) :
    step e bs b = stepSeparator bs b := by
  have hmem : b ∈ ([32, 9, 10, 13, 44, 125, 93] : List UInt8) := by
    rcases hb with hb | rfl | ⟨bracket, rfl⟩
    · simp only [isBlank, Bool.or_eq_true, beq_iff_eq] at hb
      rcases hb with ((rfl | rfl) | rfl) | rfl <;> decide
    · decide
    · cases bracket <;> decide
  cases he with
  | separator => rfl
  | number h =>
      simp only [step, h, List.isEmpty_iff, hbs]
      simp only [List.mem_cons, List.not_mem_nil, or_false] at hmem
      rcases hmem with rfl | rfl | rfl | rfl | rfl | rfl | rfl <;> rfl

theorem isOpen_number (hn : n.isDangling = true ∨ n.isWhole = true) (hbs : bs ≠ []) :
    IsOpen (.number n) bs := by
  intro seen
  simp only [atEnd, List.isEmpty_iff, hbs, if_false]
  rcases hn with hn | hn <;> simp only [hn, if_true, ite_self]

theorem Ends.isOpen (he : Ends e) (hbs : bs ≠ []) : IsOpen e bs := by
  cases he with
  | separator => exact fun _ => rfl
  | number h => exact isOpen_number (Or.inr h) hbs

theorem stepSeparator_blank (h : isBlank b = true) :
    stepSeparator (bracket :: bs) b = .next .separator (bracket :: bs) := if_pos h

theorem stepSeparator_close : stepSeparator (bracket :: bs) bracket.close = afterValue bs := by
  cases bracket <;> rfl

/-- Blanks after a value. -/
theorem reads_blanks_of_ends (he : Ends e) (hw : Blanks w) :
    ∃ e', Ends e' ∧ Reads e (bracket :: bs) w e' (bracket :: bs) := by
  cases w with
  | nil => exact ⟨e, he, .nil⟩
  | cons b w =>
      have hb := hw b (List.mem_cons_self ..)
      refine ⟨.separator, .separator, .cons ?_ (fun _ => rfl)
        (reads_blanks (fun _ => rfl) (fun _ => stepSeparator_blank)
          fun a ha => hw a (List.mem_cons_of_mem b ha))⟩
      rw [step_ends he (List.cons_ne_nil _ _) (Or.inl hb)]
      exact stepSeparator_blank hb

/-! ### Numbers -/

theorem ne_of_isDigit {a : UInt8} (h : isDigit b = true) (ha : isDigit a = false) : b ≠ a := by
  rintro rfl
  rw [ha] at h
  cases h

theorem inNumber_of_isDigit (h : isDigit b = true) : inNumber b = true := by
  simp only [inNumber, h, Bool.true_or]

theorem isExponent_cases (h : isExponent b = true) : b = 101 ∨ b = 69 := by
  simpa only [isExponent, Bool.or_eq_true, beq_iff_eq] using h

theorem reads_push (hin : inNumber b = true) (hn : n'.isDangling = true ∨ n'.isWhole = true)
    (hpush : n.push b = n') (hbs : bs ≠ []) : Reads (.number n) bs [b] (.number n') bs := by
  refine .byte ?_ (isOpen_number hn hbs)
  rw [← hpush]
  exact if_pos hin

/-- Digits that leave the state as it is. -/
theorem reads_digits (hn : n.isWhole = true) (hpush : ∀ b, isDigit b = true → n.push b = n)
    (hbs : bs ≠ []) (hx : ∀ b ∈ x, isDigit b = true) : Reads (.number n) bs x (.number n) bs := by
  induction x with
  | nil => exact .nil
  | cons b x ih =>
      have hb := hx b (List.mem_cons_self ..)
      exact (reads_push (inNumber_of_isDigit hb) (Or.inr hn) (hpush b hb) hbs).trans
        (ih fun a ha => hx a (List.mem_cons_of_mem b ha))

/-- Digits of which the first leads to another state. -/
theorem reads_first_digits (hn : n'.isWhole = true) (hfirst : ∀ b, isDigit b = true → n.push b = n')
    (hpush : ∀ b, isDigit b = true → n'.push b = n') (hbs : bs ≠ []) (hx : Digits x) :
    Reads (.number n) bs x (.number n') bs := by
  obtain ⟨hne, hdigits⟩ := hx
  cases x with
  | nil => exact absurd rfl hne
  | cons b x =>
      have hb := hdigits b (List.mem_cons_self ..)
      exact (reads_push (inNumber_of_isDigit hb) (Or.inr hn) (hfirst b hb) hbs).trans
        (reads_digits hn hpush hbs fun a ha => hdigits a (List.mem_cons_of_mem b ha))

theorem push_whole (h : isDigit b = true) : Numeral.whole.push b = .whole := if_pos h

theorem push_fraction (h : isDigit b = true) : Numeral.fraction.push b = .fraction := if_pos h

theorem push_exponentDigits (h : isDigit b = true) :
    Numeral.exponentDigits.push b = .exponentDigits := if_pos h

/-- The part of a number before its fraction, read as a value or after a minus. -/
theorem reads_whole (h : Whole w) (hbs : bs ≠ [])
    (hzero : step e bs 48 = .next (.number .zero) bs)
    (hdigit : ∀ b, isDigit b = true → b ≠ 48 → step e bs b = .next (.number .whole) bs) :
    ∃ n, (n = .zero ∨ n = .whole) ∧ Reads e bs w (.number n) bs := by
  cases h with
  | zero => exact ⟨.zero, Or.inl rfl, .byte hzero (isOpen_number (Or.inr rfl) hbs)⟩
  | digits hd hne hds =>
      exact ⟨.whole, Or.inr rfl, .cons (hdigit _ hd hne) (isOpen_number (Or.inr rfl) hbs)
        (reads_digits rfl (fun _ => push_whole) hbs hds)⟩

theorem reads_fraction (h : Fraction x) (hbs : bs ≠ []) (hn : n = .zero ∨ n = .whole) :
    ∃ n', (n' = .zero ∨ n' = .whole ∨ n' = .fraction) ∧
      Reads (.number n) bs x (.number n') bs := by
  cases h with
  | absent =>
      refine ⟨n, ?_, .nil⟩
      rcases hn with rfl | rfl
      · exact Or.inl rfl
      · exact Or.inr (Or.inl rfl)
  | @digits ds hds =>
      refine ⟨.fraction, Or.inr (Or.inr rfl), ?_⟩
      have hpoint : Reads (.number n) bs [46] (.number .point) bs := by
        refine reads_push rfl (Or.inl rfl) ?_ hbs
        rcases hn with rfl | rfl <;> rfl
      exact hpoint.trans
        (reads_first_digits rfl (fun _ h => if_pos h) (fun _ => push_fraction) hbs hds)

theorem reads_exponent (h : Exponent x) (hbs : bs ≠ [])
    (hn : n = .zero ∨ n = .whole ∨ n = .fraction) :
    ∃ n', n'.isWhole = true ∧ Reads (.number n) bs x (.number n') bs := by
  have hexponent {b : UInt8} (hb : isExponent b = true) :
      Reads (.number n) bs [b] (.number .exponent) bs := by
    rcases isExponent_cases hb with rfl | rfl
    · refine reads_push rfl (Or.inl rfl) ?_ hbs
      rcases hn with rfl | rfl | rfl <;> rfl
    · refine reads_push rfl (Or.inl rfl) ?_ hbs
      rcases hn with rfl | rfl | rfl <;> rfl
  cases h with
  | absent =>
      refine ⟨n, ?_, .nil⟩
      rcases hn with rfl | rfl | rfl <;> rfl
  | unsigned he hds =>
      exact ⟨.exponentDigits, rfl, (hexponent he).trans
        (reads_first_digits rfl (fun _ h => if_pos h) (fun _ => push_exponentDigits) hbs hds)⟩
  | @signed e sign ds he hsign hds =>
      have hpush : Reads (.number .exponent) bs [sign] (.number .exponentSign) bs := by
        simp only [isSign, Bool.or_eq_true, beq_iff_eq] at hsign
        rcases hsign with rfl | rfl
        · exact reads_push rfl (Or.inl rfl) rfl hbs
        · exact reads_push rfl (Or.inl rfl) rfl hbs
      exact ⟨.exponentDigits, rfl, ((hexponent he).trans hpush).trans
        (reads_first_digits rfl (fun _ h => if_pos h) (fun _ => push_exponentDigits) hbs hds)⟩

theorem startValue_digit (h : isDigit b = true) (hzero : b ≠ 48) :
    startValue bs b = .next (.number .whole) bs := by
  unfold startValue
  rw [if_neg (ne_of_isDigit h rfl), if_neg (ne_of_isDigit h rfl), if_neg (ne_of_isDigit h rfl),
    if_neg (ne_of_isDigit h rfl), if_neg hzero, if_pos h]

theorem not_isBlank_of_isDigit (h : isDigit b = true) : isBlank b = false := by
  simp only [isBlank, beq_eq_false_iff_ne.mpr (ne_of_isDigit (a := 32) h rfl),
    beq_eq_false_iff_ne.mpr (ne_of_isDigit (a := 9) h rfl),
    beq_eq_false_iff_ne.mpr (ne_of_isDigit (a := 10) h rfl),
    beq_eq_false_iff_ne.mpr (ne_of_isDigit (a := 13) h rfl), Bool.or_false]

/-- A number inside a container has been read when the byte after it comes. -/
theorem reads_number (h : Number v) (he : Begins e) (hbs : bs ≠ []) :
    ∃ e', Ends e' ∧ Reads e bs v e' bs := by
  cases h with
  | positive hw hf hx =>
      obtain ⟨n, hn, hwhole⟩ := reads_whole (e := e) hw hbs
        (step_begins he rfl (by decide))
        (fun b hb hzero => (step_begins he (not_isBlank_of_isDigit hb)
          (ne_of_isDigit hb rfl)).trans (startValue_digit hb hzero))
      obtain ⟨n', hn', hfraction⟩ := reads_fraction hf hbs hn
      obtain ⟨n'', hn'', hexponent⟩ := reads_exponent hx hbs hn'
      exact ⟨_, .number hn'', hwhole.trans (hfraction.trans hexponent)⟩
  | negative hw hf hx =>
      have hminus : Reads e bs [45] (.number .minus) bs :=
        .byte (step_begins he rfl (by decide)) (isOpen_number (Or.inl rfl) hbs)
      obtain ⟨n, hn, hwhole⟩ := reads_whole (e := .number .minus) hw hbs rfl
        (fun b hb hzero => by
          have hpush : Numeral.minus.push b = .whole := by
            simp only [Numeral.push]
            rw [if_neg hzero, if_pos hb]
          rw [← hpush]
          exact if_pos (inNumber_of_isDigit hb))
      obtain ⟨n', hn', hfraction⟩ := reads_fraction hf hbs hn
      obtain ⟨n'', hn'', hexponent⟩ := reads_exponent hx hbs hn'
      exact ⟨_, .number hn'', hminus.trans (hwhole.trans (hfraction.trans hexponent))⟩

/-! ### Values -/

/-- A value is read up to its last byte, which closes it. -/
def Closes (e : Expect) (bs : List Bracket) (v : Bytes) : Prop :=
  ∃ init last e' bs', v = init ++ [last] ∧ Reads e bs init e' bs' ∧ step e' bs' last = afterValue bs

theorem Closes.reads (h : Closes e bs v) (hbs : bs ≠ []) : Reads e bs v .separator bs := by
  obtain ⟨init, last, e', bs', rfl, hreads, hlast⟩ := h
  refine hreads.trans (.byte ?_ fun _ => rfl)
  rw [hlast, afterValue, if_neg (by rwa [List.isEmpty_iff])]

theorem closes_text (h : Text v) (he : Begins e) : Closes e bs v := by
  cases h with
  | @quoted cs h =>
      have hquote : step e bs 34 = .next (.text false) bs := step_begins he rfl (by decide)
      exact ⟨34 :: cs, 34, .text false, bs, rfl,
        .cons hquote (fun _ => rfl) (reads_characters h), rfl⟩

theorem closes_word {a b : UInt8} (word : Bytes)
    (hstart : step e bs a = .next (.word (word ++ [b])) bs) : Closes e bs (a :: (word ++ [b])) := by
  have hword (word : Bytes) : Reads (.word (word ++ [b])) bs word (.word [b]) bs := by
    induction word with
    | nil => exact .nil
    | cons c word ih =>
        refine .cons ?_ (fun _ => rfl) ih
        simp only [step, List.cons_append]
        rw [if_pos trivial, if_neg (by simp)]
  refine ⟨a :: word, b, .word [b], bs, rfl, .cons hstart (fun _ => rfl) (hword word), ?_⟩
  simp only [step]
  rw [if_pos trivial]
  rfl

theorem closes_literal (h : v ∈ literals) (he : Begins e) : Closes e bs v := by
  simp only [literals, List.mem_cons, List.not_mem_nil, or_false] at h
  rcases h with rfl | rfl | rfl
  · exact closes_word [114, 117] (step_begins he rfl (by decide))
  · exact closes_word [97, 108, 115] (step_begins he rfl (by decide))
  · exact closes_word [117, 108] (step_begins he rfl (by decide))

theorem step_opening (he : Begins e) (hdepth : bs.length < depthLimit) :
    step e bs bracket.opening = .next (.content bracket) (bracket :: bs) := by
  cases bracket with
  | object =>
      rw [Bracket.opening, step_begins he rfl (by decide)]
      exact if_pos hdepth
  | array =>
      rw [Bracket.opening, step_begins he rfl (by decide)]
      exact if_pos hdepth

theorem step_content_close :
    step (.content bracket) (bracket :: bs) bracket.close = afterValue bs := by
  cases bracket <;> rfl

/-- Where an entry of a container may begin: at its front, or after a comma. -/
inductive BeginsEntry : Bracket → Expect → Prop
  | content {bracket : Bracket} : BeginsEntry bracket (.content bracket)
  | element : BeginsEntry .array .value
  | member : BeginsEntry .object .key

theorem BeginsEntry.isOpen (he : BeginsEntry bracket e) : IsOpen e bs := by
  cases he <;> exact fun _ => rfl

theorem BeginsEntry.step_blank (he : BeginsEntry bracket e) (hb : isBlank b = true) :
    step e bs b = .next e bs := by
  cases he with
  | content => exact step_content_blank hb
  | element => exact step_value_blank hb
  | member => exact step_key_blank hb

theorem BeginsEntry.begins (he : BeginsEntry .array e) : Begins e := by
  cases he with
  | content => exact .content
  | element => exact .value

theorem BeginsEntry.step_quote (he : BeginsEntry .object e) :
    step e bs 34 = .next (.text true) bs := by
  cases he <;> rfl

/-- What is read after a comma. -/
theorem step_comma : ∃ e, BeginsEntry bracket e ∧
    stepSeparator (bracket :: bs) 44 = .next e (bracket :: bs) := by
  cases bracket with
  | object => exact ⟨.key, .member, rfl⟩
  | array => exact ⟨.value, .element, rfl⟩

/-- How the bytes of a production are read where it may begin. -/
def Readable : Production → Nat → Bytes → Prop
  | .closed, d, v => ∀ e bs, Begins e → d + bs.length ≤ depthLimit → Closes e bs v
  | .value, d, v => ∀ e bs, Begins e → bs ≠ [] → d + bs.length ≤ depthLimit →
      ∃ e', Ends e' ∧ Reads e bs v e' bs
  | .entry bracket, d, x => ∀ e bs, BeginsEntry bracket e → d + (bs.length + 1) ≤ depthLimit →
      ∃ e', Ends e' ∧ Reads e (bracket :: bs) x e' (bracket :: bs)
  | .entries bracket, d, xs => ∀ bs, d + (bs.length + 1) ≤ depthLimit →
      ∃ e', Ends e' ∧ Reads (.content bracket) (bracket :: bs) xs e' (bracket :: bs)

/-- **What the grammar derives is read**, wherever it may stand. -/
theorem readable_of_derives {p : Production} (h : Derives p d x) : Readable p d x := by
  induction h with
  | text h => exact fun e bs he _ => closes_text h he
  | literal h => exact fun e bs he _ => closes_literal h he
  | @empty d bracket w hw =>
      intro e bs he hdepth
      exact ⟨bracket.opening :: w, bracket.close, .content bracket, bracket :: bs, rfl,
        .cons (step_opening he (by omega)) (fun _ => rfl)
          (reads_blanks (fun _ => rfl) (fun _ => step_content_blank) hw), step_content_close⟩
  | @container d bracket xs _ ih =>
      intro e bs he hdepth
      obtain ⟨e', he', hxs⟩ := ih bs (by omega)
      refine ⟨bracket.opening :: xs, bracket.close, e', bracket :: bs, rfl,
        .cons (step_opening he (by omega)) (fun _ => rfl) hxs, ?_⟩
      rw [step_ends he' (List.cons_ne_nil _ _) (Or.inr (Or.inr ⟨bracket, rfl⟩))]
      exact stepSeparator_close
  | closed _ ih =>
      exact fun e bs he hbs hdepth => ⟨.separator, .separator, (ih e bs he hdepth).reads hbs⟩
  | number h => exact fun e bs he hbs _ => reads_number h he hbs
  | element hw _ hw' ih =>
      intro e bs he hdepth
      obtain ⟨e', he', hv⟩ := ih e (.array :: bs) he.begins (List.cons_ne_nil _ _) hdepth
      obtain ⟨e'', he'', hblanks⟩ := reads_blanks_of_ends he' hw'
      exact ⟨e'', he'', (reads_blanks he.isOpen (fun _ => he.step_blank) hw).trans
        (hv.trans hblanks)⟩
  | member hw hk hw₁ hw₂ _ hw' ih =>
      intro e bs he hdepth
      obtain ⟨e', he', hv⟩ := ih .value (.object :: bs) .value (List.cons_ne_nil _ _) hdepth
      obtain ⟨e'', he'', hblanks⟩ := reads_blanks_of_ends he' hw'
      have hcolon : step .colon (.object :: bs) 58 = .next .value (.object :: bs) := rfl
      exact ⟨e'', he'', (reads_blanks he.isOpen (fun _ => he.step_blank) hw).trans
        ((reads_key hk he.step_quote).trans
          ((reads_blanks (fun _ => rfl) (fun _ => step_colon_blank) hw₁).trans
            (.cons hcolon (fun _ => rfl)
              ((reads_blanks (fun _ => rfl) (fun _ => step_value_blank) hw₂).trans
                (hv.trans hblanks)))))⟩
  | one _ ih => exact fun bs hdepth => ih _ bs .content hdepth
  | more _ _ ihs ih =>
      intro bs hdepth
      obtain ⟨e', he', hxs⟩ := ihs bs hdepth
      obtain ⟨e, he, hcomma⟩ := step_comma
      obtain ⟨e'', he'', hx⟩ := ih e bs he hdepth
      refine ⟨e'', he'', hxs.trans (.cons ?_ he.isOpen hx)⟩
      rw [step_ends he' (List.cons_ne_nil _ _) (Or.inr (Or.inl rfl))]
      exact hcomma

/-! ### Buffers -/

theorem scanFrom_reads (h : Reads e bs x e' bs') (seen : Nat) (y : Bytes) :
    scanFrom e bs seen (x ++ y) = scanFrom e' bs' (seen + x.length) y := by
  induction h generalizing seen with
  | nil => rfl
  | cons hstep _ _ ih =>
      rw [List.cons_append, scanFrom, hstep]
      dsimp only
      rw [ih, List.length_cons, Nat.add_assoc, Nat.add_comm 1]

/-- A prefix of what is read is the start of a value. -/
theorem scanFrom_incomplete (h : Reads e bs x e' bs') (hopen : IsOpen e bs) (hp : y <+: x)
    (seen : Nat) : scanFrom e bs seen y = .incomplete := by
  induction h generalizing seen y with
  | nil =>
      rw [List.prefix_nil.mp hp]
      exact hopen seen
  | cons hstep hopen' _ ih =>
      cases y with
      | nil => exact hopen seen
      | cons b y =>
          obtain ⟨rfl, htail⟩ := List.cons_prefix_cons.mp hp
          rw [scanFrom, hstep]
          exact ih hopen' htail (seen + 1)

theorem reads_leading_blanks (hw : Blanks w) : Reads .value [] w .value [] :=
  reads_blanks (fun _ => rfl) (fun _ => step_value_blank) hw

/-- A unit is read up to its last byte. -/
theorem closes_of_isUnit (h : IsUnit x) : Closes .value [] x := by
  obtain ⟨w, v, hw, hv, rfl⟩ := h
  obtain ⟨init, last, e, bs, rfl, hreads, hlast⟩ :=
    readable_of_derives hv .value [] .value (Nat.le_refl _)
  exact ⟨w ++ init, last, e, bs, (List.append_assoc ..).symm,
    (reads_leading_blanks hw).trans hreads, hlast⟩

/-- A unit is found where it ends, whatever follows it. -/
theorem scan_unit (h : IsUnit x) (y : Bytes) : scan (x ++ y) = .complete x.length := by
  obtain ⟨init, last, e, bs, rfl, hreads, hlast⟩ := closes_of_isUnit h
  rw [scan, List.append_assoc, scanFrom_reads hreads, List.cons_append, scanFrom, hlast]
  show Scan.complete (0 + init.length + 1) = _
  rw [Nat.zero_add, List.length_append]
  rfl

/-- A part of a unit that is cut off before its end is the start of a value. -/
theorem scan_incomplete (h : IsUnit x) (hp : y <+: x) (hne : y ≠ x) : scan y = .incomplete := by
  obtain ⟨init, last, e, bs, rfl, hreads, -⟩ := closes_of_isUnit h
  refine scanFrom_incomplete hreads (fun _ => rfl) ?_ 0
  rcases List.prefix_concat_iff.mp hp with heq | hp
  · exact absurd heq hne
  · exact hp

theorem scan_blanks (hw : Blanks w) : scan w = .incomplete :=
  scanFrom_incomplete (reads_leading_blanks hw) (fun _ => rfl) (List.prefix_refl w) 0

end WsRelay.Json
