import WsRelay.Framing.Json
import WsRelay.Proofs.Json.Completion
/-! # Where a value ends, exactly

What the scanner takes for a value is one, with the blanks before it (`scan_sound`).  The other way
round, a value at the front of a buffer is found wherever it ends: at its last byte if that closes
it, and otherwise, if it is a number, where a byte follows that may come after a number, or none
(`scan_number`).  Both together say exactly where a buffer is cut (`scan_eq_complete_iff`), so there
is one way to cut it, and `jsonValue_exact` says what the framing makes of it. -/

namespace WsRelay.Json

variable {e : Expect} {bs : List Bracket} {b : UInt8} {x t r w v data : Bytes} {n : Numeral}
  {m seen : Nat}

/-! ### What is taken for a value -/

/-- What a byte does where numbers begin or end: it opens or continues one, it ends one before it,
or it has to do with none. -/
inductive Steps (e : Expect) (bs : List Bracket) (b : UInt8) : Move → Prop
  | opens {n : Numeral} (he : Begins e) (h : Opens b n) : Steps e bs b (.next (.number n) bs)
  | pushes {n : Numeral} (he : e = .number n) (hb : inNumber b = true) :
      Steps e bs b (.next (.number (n.push b)) bs)
  | passes {e' : Expect} {bs' : List Bracket} (h : ∀ n, e' ≠ .number n) :
      Steps e bs b (.next e' bs')
  | ended {n : Numeral} (he : e = .number n) (hbs : bs = []) (hn : n.isWhole = true) :
      Steps e bs b .ended
  | ends : Steps e bs b .ends
  | fails : Steps e bs b .fails

theorem steps_afterValue (bs' : List Bracket) : Steps e bs b (afterValue bs') := by
  unfold afterValue
  split
  · exact .ends
  · exact .passes nofun

theorem steps_stepSeparator (bs' : List Bracket) : Steps e bs b (stepSeparator bs' b) := by
  cases bs' with
  | nil => exact .fails
  | cons bracket outer =>
      simp only [stepSeparator]
      split
      · exact .passes (by rintro _ ⟨⟩)
      · split
        · exact steps_afterValue outer
        · split
          · cases bracket <;> exact .passes (by rintro _ ⟨⟩)
          · exact .fails

theorem steps_startValue (he : Begins e) : Steps e bs b (startValue bs b) := by
  rcases startValue_cases bs b with hfails | ⟨e', bs', hnext, hstarts⟩
  · rw [hfails]
    exact .fails
  · rw [hnext]
    cases hstarts with
    | number hopens => exact .opens he hopens
    | opening | text | word => exact .passes nofun

theorem steps (e : Expect) (bs : List Bracket) (b : UInt8) : Steps e bs b (step e bs b) := by
  cases e with
  | value =>
      simp only [step]
      split
      · exact .passes (by rintro _ ⟨⟩)
      · exact steps_startValue .value
  | content bracket =>
      simp only [step]
      split
      · exact .passes (by rintro _ ⟨⟩)
      · split
        · exact steps_afterValue bs.tail
        · cases bracket with
          | object =>
              dsimp only
              split
              · exact .passes (by rintro _ ⟨⟩)
              · exact .fails
          | array => exact steps_startValue .content
  | separator => exact steps_stepSeparator bs
  | text isKey =>
      simp only [step]
      split
      · cases isKey with
        | true => exact .passes (by rintro _ ⟨⟩)
        | false => exact steps_afterValue bs
      · repeat' split
        all_goals first | exact .passes (by rintro _ ⟨⟩) | exact .fails
  | word rest =>
      cases rest with
      | nil => exact .fails
      | cons c rest =>
          simp only [step]
          split
          · split
            · exact steps_afterValue bs
            · exact .passes (by rintro _ ⟨⟩)
          · exact .fails
  | number n =>
      simp only [step]
      split
      · next hb => exact .pushes rfl hb
      · split
        · next hends =>
          split
          · next hempty =>
            exact .ended rfl (List.isEmpty_iff.mp hempty) (Bool.and_eq_true_iff.mp hends).1
          · exact steps_stepSeparator bs
        · exact .fails
  | key | colon | escape =>
      simp only [step]
      repeat' split
      all_goals first | exact .passes (by rintro _ ⟨⟩) | exact .fails
  | hex left isKey =>
      cases left <;> simp only [step] <;> split
      all_goals first | exact .passes (by rintro _ ⟨⟩) | exact .fails

/-- Only a number, outside of all brackets, ends before a byte. -/
theorem step_eq_ended (h : step e bs b = .ended) :
    bs = [] ∧ ∃ n : Numeral, e = .number n ∧ n.isWhole = true := by
  have hsteps := steps e bs b
  rw [h] at hsteps
  cases hsteps with
  | ended he hbs hn => exact ⟨hbs, _, he, hn⟩

/-- A value ends at the end of the buffer if it is a number outside of all brackets. -/
theorem atEnd_eq_complete (h : atEnd e bs seen = .complete m) :
    m = seen ∧ bs = [] ∧ ∃ n : Numeral, e = .number n ∧ n.isWhole = true := by
  cases e with
  | number n =>
      simp only [atEnd] at h
      split at h
      · cases h
      · split at h
        · next hwhole =>
          split at h
          · next hempty =>
            cases h
            exact ⟨rfl, List.isEmpty_iff.mp hempty, n, rfl, hwhole⟩
          · cases h
        · cases h
  | _ => cases h

theorem completes_of_ended (h : bs = [] ∧ ∃ n : Numeral, e = .number n ∧ n.isWhole = true) :
    Completes e bs [] := by
  obtain ⟨rfl, n, rfl, hwhole⟩ := h
  exact .number (finishes_of_isWhole hwhole) .done

/-- What is scanned as the rest of a value completes it. -/
theorem completes_of_scanFrom (h : scanFrom e bs seen x = .complete m) :
    ∃ k, m = seen + k ∧ k ≤ x.length ∧ Completes e bs (x.take k) := by
  induction x generalizing e bs seen with
  | nil =>
      obtain ⟨rfl, hended⟩ := atEnd_eq_complete h
      exact ⟨0, rfl, Nat.le_refl 0, completes_of_ended hended⟩
  | cons b x ih =>
      rw [scanFrom] at h
      split at h
      · next hstep =>
        obtain ⟨k, rfl, hk, hz⟩ := ih h
        refine ⟨k + 1, by omega, Nat.succ_le_succ hk, completes_of_leads ?_⟩
        rw [hstep]
        exact hz
      · next hstep =>
        cases h
        refine ⟨1, rfl, Nat.succ_le_succ (Nat.zero_le _), completes_of_leads ?_⟩
        rw [hstep]
        rfl
      · next hstep =>
        cases h
        exact ⟨0, rfl, Nat.zero_le _, completes_of_ended (step_eq_ended hstep)⟩
      · cases h

/-- **What is taken for a value is one**, with blanks before it. -/
theorem scan_sound (h : scan data = .complete m) : m ≤ data.length ∧
    ∃ w v, data.take m = w ++ v ∧ Blanks w ∧ Derives .value depthLimit v := by
  obtain ⟨k, hk, hle, hz⟩ := completes_of_scanFrom h
  rw [Nat.zero_add] at hk
  subst hk
  exact ⟨hle, completes_value_nil.mp hz⟩

/-! ### Where numbers end -/

/-- A number may have ended before these bytes. -/
def EndsNumber (r : Bytes) : Prop :=
  ∀ b ∈ r.head?, isBlank b = true ∨ b ∈ ([44, 93, 125] : Bytes)

/-- What may come after a number does not stand in one. -/
theorem not_inNumber_of_ends (h : isBlank b = true ∨ b ∈ ([44, 93, 125] : Bytes)) :
    inNumber b = false ∧ (isBlank b || b == 44 || b == 93 || b == 125) = true := by
  simp only [isBlank, Bool.or_eq_true, beq_iff_eq, List.mem_cons, List.not_mem_nil, or_false] at h
  rcases h with (((rfl | rfl) | rfl) | rfl) | rfl | rfl | rfl <;> exact ⟨by decide, by decide⟩

/-- Bytes of a number are read one after the other. -/
theorem scanFrom_number (ht : ∀ b ∈ t, inNumber b = true) (n : Numeral) (bs : List Bracket)
    (seen : Nat) (r : Bytes) :
    scanFrom (.number n) bs seen (t ++ r) =
      scanFrom (.number (n.pushAll t)) bs (seen + t.length) r := by
  induction t generalizing n seen with
  | nil => rfl
  | cons b t ih =>
      obtain ⟨hb, ht⟩ := List.forall_mem_cons.mp ht
      have hstep : step (.number n) bs b = .next (.number (n.push b)) bs := if_pos hb
      rw [List.cons_append, scanFrom, hstep]
      dsimp only
      rw [ih ht, List.length_cons, Nat.add_assoc, Nat.add_comm 1]
      rfl

/-- A whole number outside of all brackets has ended exactly if a byte comes next that may follow a
number, or none. -/
theorem scanFrom_whole (hn : n.isWhole = true) :
    scanFrom (.number n) [] seen r = .complete seen ↔ EndsNumber r := by
  cases r with
  | nil =>
      refine iff_of_true ?_ nofun
      simp [scanFrom, atEnd, hn, Numeral.isDangling_of_isWhole hn]
  | cons b r =>
      simp only [EndsNumber, List.head?_cons, Option.mem_def, Option.some.injEq, forall_eq']
      constructor
      · intro h
        rw [scanFrom] at h
        simp only [step] at h
        split at h
        · next hnext =>
          -- the number goes on, so it ends later than here
          obtain ⟨k, hk, -⟩ := completes_of_scanFrom h
          omega
        · next hends => split at hends <;> simp_all
        · next hended =>
          split at hended
          · cases hended
          · split at hended
            · next hb =>
              simpa [or_assoc] using (Bool.and_eq_true_iff.mp hb).2
            · cases hended
        · cases h
      · intro h
        obtain ⟨hnot, hends⟩ := not_inNumber_of_ends h
        rw [scanFrom]
        simp [step, hnot, hn, hends]

/-- A number at the front of a buffer is read to its end. -/
theorem scan_number (hw : Blanks w) (hv : Number v) (r : Bytes) :
    ∃ n : Numeral, n.isWhole = true ∧
      scan (w ++ (v ++ r)) = scanFrom (.number n) [] (w.length + v.length) r := by
  obtain ⟨b, n, t, rfl, hopens, ht, hwhole⟩ := hv.exists_numeral
  refine ⟨_, hwhole, ?_⟩
  have hstep : step .value [] b = .next (.number n) [] := by
    rw [step_begins .value hopens.not_isBlank hopens.ne_close, hopens.startValue]
  rw [scan, scanFrom_reads (reads_leading_blanks hw), List.cons_append, scanFrom, hstep]
  dsimp only
  rw [scanFrom_number ht, List.length_cons]
  congr 1
  omega

/-! ### Where a buffer is cut -/

/-- A value stands at the front of a buffer, behind blanks; if it is a number, it has ended. -/
structure Front (data w v r : Bytes) : Prop where
  split : data = w ++ (v ++ r)
  blanks : Blanks w
  value : Derives .value depthLimit v
  ended : Number v → EndsNumber r

/-- A value is closed by its last byte, or it is a number. -/
theorem closed_or_number (h : Derives .value m v) : Derives .closed m v ∨ Number v := by
  cases h with
  | closed h => exact .inl h
  | number h => exact .inr h

theorem Front.scan_eq (h : Front data w v r) : scan data = .complete (w.length + v.length) := by
  obtain ⟨rfl, hw, hv, hended⟩ := h
  rcases closed_or_number hv with hclosed | hnumber
  · rw [← List.append_assoc, scan_unit ⟨w, v, hw, hclosed, rfl⟩, List.length_append]
  · obtain ⟨n, hwhole, hscan⟩ := scan_number hw hnumber r
    rw [hscan]
    exact (scanFrom_whole hwhole).mpr (hended hnumber)

/-- **Where a value ends**: the scanner finds it exactly where a value has ended that stands at the
front of the buffer. -/
theorem scan_eq_complete_iff :
    scan data = .complete m ↔ ∃ w v r, Front data w v r ∧ m = w.length + v.length := by
  constructor
  · intro h
    obtain ⟨hle, w, v, htake, hw, hv⟩ := scan_sound h
    have hlen : m = w.length + v.length := by
      rw [← List.length_append, ← htake, List.length_take, Nat.min_eq_left hle]
    have hsplit : data = w ++ (v ++ data.drop m) := by
      rw [← List.append_assoc, ← htake, List.take_append_drop]
    refine ⟨w, v, data.drop m, ⟨hsplit, hw, hv, fun hnumber => ?_⟩, hlen⟩
    obtain ⟨n, hwhole, hscan⟩ := scan_number hw hnumber (data.drop m)
    rw [← hsplit, h, ← hlen] at hscan
    exact (scanFrom_whole hwhole).mp hscan.symm
  · rintro ⟨w, v, r, hfront, rfl⟩
    exact hfront.scan_eq

/-- There is one way to cut a value off the front of a buffer. -/
theorem Front.unique {w' v' r' : Bytes} (h : Front data w v r) (h' : Front data w' v' r') :
    w' ++ v' = w ++ v := by
  have hlen : w.length + v.length = w'.length + v'.length :=
    Scan.complete.inj (h.scan_eq.symm.trans h'.scan_eq)
  have hsplit : (w' ++ v') ++ r' = (w ++ v) ++ r := by
    rw [List.append_assoc, List.append_assoc, ← h.split, ← h'.split]
  refine (List.append_inj hsplit ?_).1
  rw [List.length_append, List.length_append, hlen]

end WsRelay.Json

namespace WsRelay.Framing

open Json

variable {σ : Type} {data w v r : Bytes}

/-- A value at the front of a buffer is one unit, sent as text if it looks like it. -/
theorem jsonValue_front (h : Front data w v r) (lastRead : Nat) (config : String)
    (memory : Memory σ) :
    jsonValue data lastRead config memory =
      (.ok ⟨w.length + v.length, if isTextual (w ++ v) then .text else .binary⟩, memory) := by
  have htake : data.take (w.length + v.length) = w ++ v := by
    rw [h.split, ← List.append_assoc, ← List.length_append, List.take_left]
  simp only [jsonValue, h.scan_eq, htake, textKind]

/-- **The framing by JSON values is exact about complete values.**  The scanner finds a value at the
front of a buffer exactly where one has ended, blanks before it.  The framing then cuts there, which
is the only way to cut, and sends blanks and value as text if they look like it; what is found to be
no value goes out whole, as binary. -/
theorem jsonValue_exact (data : Bytes) (lastRead : Nat) (config : String) (memory : Memory σ) :
    (∀ n, scan data = .complete n ↔
      ∃ w v r, Front data w v r ∧ n = w.length + v.length) ∧
    (∀ w v r, Front data w v r →
      jsonValue data lastRead config memory =
        (.ok ⟨w.length + v.length, if isTextual (w ++ v) then .text else .binary⟩, memory) ∧
      ∀ w' v' r', Front data w' v' r' → w' ++ v' = w ++ v) ∧
    (scan data = .invalid →
      jsonValue data lastRead config memory = (.ok ⟨data.length, .binary⟩, memory)) := by
  refine ⟨fun n => scan_eq_complete_iff, fun w v r hfront => ⟨?_, ?_⟩, fun hinvalid => ?_⟩
  · exact jsonValue_front hfront lastRead config memory
  · intro w' v' r' hfront'
    exact hfront.unique hfront'
  · rw [jsonValue, hinvalid]

/-- In ` -1.5e3}` a number has ended before the bracket: it is cut there, with the blank before
it. -/
theorem jsonValue_exact_number :
    Front [32, 45, 49, 46, 53, 101, 51, 125] [32] [45, 49, 46, 53, 101, 51] [125] ∧
    jsonValue (σ := Unit) [32, 45, 49, 46, 53, 101, 51, 125] 8 "" .empty =
      (.ok ⟨7, .text⟩, .empty) := by
  have hnumber : Number [45, 49, 46, 53, 101, 51] :=
    .negative (@Whole.digits 49 [] rfl (by decide) (List.forall_mem_nil _))
      (@Fraction.digits [53] (digits_cons rfl (List.forall_mem_nil _)))
      (@Exponent.unsigned 101 [51] rfl (digits_cons rfl (List.forall_mem_nil _)))
  have hfront : Front [32, 45, 49, 46, 53, 101, 51, 125] [32] [45, 49, 46, 53, 101, 51] [125] :=
    { split := rfl
      blanks := by decide
      value := .number hnumber
      ended := fun _ b hb => by
        obtain rfl : b = 125 := by simpa using hb.symm
        exact .inr (by decide) }
  exact ⟨hfront, ((jsonValue_exact _ 8 "" .empty).2.1 _ _ _ hfront).1⟩

end WsRelay.Framing
