import WsRelay.Proofs.Framing.Bounds
import WsRelay.Proofs.Json.Growth
/-! # Numbers and literals as slices of a buffer

The scanner reads numbers and literals byte by byte.  They can as well be sliced out of the buffer
and looked at as a whole: a number reaches up to the first byte that stands in none, and a literal is
compared with as many bytes as there are.  `scanAt?` does so, at places of the whole buffer, and makes
sure that the slices lie in it.  They always do, and it comes to what the scanner comes to
(`scanAt?_eq`).  So the framing by JSON values never looks where there is nothing either
(`guardedJsonValue_eq`). -/

namespace WsRelay.Json

variable {e : Expect} {bs : List Bracket} {b : UInt8} {data rest w x : Bytes} {n : Numeral}
  {pos seen : Nat}

/-- What a number comes to that has been read up to `stop`, and what follows it there. -/
def numberEnd (n : Numeral) (stop : Nat) : (next : Option UInt8) → Scan
  | none => if n.isDangling then .incomplete else if n.isWhole then .complete stop else .invalid
  | some b =>
    if n.isWhole && (isBlank b || b == 44 || b == 93 || b == 125) then .complete stop
    else .invalid

/-- The number that begins at `start`, with a byte that leads to `n`. -/
def number? (data : Bytes) (n : Numeral) (start : Nat) : Option Scan := do
  let behind ← data.slice? start data.length
  let stop := start + (behind.takeWhile inNumber).length
  let token ← data.slice? start stop
  some (numberEnd (n.pushAll token.tail) stop data[stop]?)

/-- What a literal comes to of which `word` is still to be read at `start`, where `available` is. -/
def literalEnd (word available : Bytes) (start : Nat) : Scan :=
  if word.length ≤ available.length then
    if word.isPrefixOf available then .complete (start + word.length) else .invalid
  else if available.isPrefixOf word then .incomplete
  else .invalid

/-- The literal that begins at `start`. -/
def literal? (data word : Bytes) (start : Nat) : Option Scan := do
  let available ← data.slice? start data.length
  some (literalEnd word available start)

/-- A number or a literal has begun. -/
def Expect.isToken : Expect → Bool
  | number _ | word _ => true
  | _ => false

/-- The number or literal that has begun with the byte `b` at `start`. -/
def token? (data : Bytes) (start : Nat) (b : UInt8) : Expect → Option Scan
  | .number n => number? data n start
  | .word rest => literal? data (b :: rest) start
  | _ => none

/-- Scans on, at a place of the buffer. -/
def scanAt? (data : Bytes) (expect : Expect) (brackets : List Bracket) (pos : Nat) : Option Scan :=
  if h : pos < data.length then
    match step expect brackets data[pos] with
    | .next expect brackets =>
      if expect.isToken then
        match token? data pos data[pos] expect with
        | some (.complete stop) =>
          if brackets.isEmpty then some (.complete stop)
          -- a token without a byte would be looked at over and over
          else if pos < stop then scanAt? data .separator brackets stop
          else none
        | scan => scan
      else scanAt? data expect brackets (pos + 1)
    | .ends => some (.complete (pos + 1))
    | .ended => some (.complete pos)
    | .fails => some .invalid
  else some (atEnd expect brackets pos)
termination_by data.length - pos

/-! ### Tokens -/

/-- What becomes of a buffer in which a number or a literal was looked for. -/
def Scan.resume (data : Bytes) (brackets : List Bracket) : Scan → Scan
  | complete stop =>
    if brackets.isEmpty then complete stop else scanFrom .separator brackets stop (data.drop stop)
  | scan => scan

/-- A number or a literal that begins with `b` at `pos` is sliced out of the buffer, and the scanner
comes to the same. -/
structure Slices (data : Bytes) (pos : Nat) (b : UInt8) (rest : Bytes) (e : Expect)
    (bs : List Bracket) (scan : Scan) : Prop where
  sliced : token? data pos b e = some scan
  scanned : scanFrom e bs (pos + 1) rest = scan.resume data bs
  inside : ∀ stop, scan = .complete stop → pos < stop ∧ stop ≤ data.length

/-- The scanner comes to what a number comes to that has been read up to `stop`. -/
theorem scanFrom_numeral (n : Numeral) (bs : List Bracket) {stop : Nat}
    (hdrop : data.drop stop = rest) (hrest : ∀ b ∈ rest.head?, inNumber b = false) :
    scanFrom (.number n) bs stop rest = (numberEnd n stop rest.head?).resume data bs := by
  cases rest with
  | nil =>
      simp only [scanFrom, atEnd, numberEnd, List.head?_nil]
      split
      · rfl
      · split
        · simp only [Scan.resume, hdrop, scanFrom, atEnd]
        · rfl
  | cons b rest =>
      have hb : ¬ inNumber b = true := by
        rw [hrest b rfl]
        exact Bool.false_ne_true
      simp only [scanFrom, step, numberEnd, List.head?_cons]
      rw [if_neg hb]
      by_cases hends : (n.isWhole && (isBlank b || b == 44 || b == 93 || b == 125)) = true
      · rw [if_pos hends, if_pos hends, Scan.resume, hdrop]
        by_cases hempty : bs.isEmpty = true
        · rw [if_pos hempty, if_pos hempty]
        · rw [if_neg hempty, if_neg hempty]
          rfl
      · rw [if_neg hends, if_neg hends]
        rfl

theorem numberEnd_complete {stop stop' : Nat} {next : Option UInt8}
    (h : numberEnd n stop next = .complete stop') : stop' = stop := by
  unfold numberEnd at h
  split at h
  · split at h
    · cases h
    · split at h <;> cases h
      rfl
  · split at h <;> cases h
    rfl

theorem exists_slices_number (hdrop : data.drop pos = b :: rest) (hopens : Opens b n)
    (bs : List Bracket) : ∃ scan, Slices data pos b rest (.number n) bs scan := by
  obtain ⟨t, r, hrest, ht, hin, hout⟩ : ∃ t r, rest = t ++ r ∧ rest.takeWhile inNumber = t ∧
      (∀ b ∈ t, inNumber b = true) ∧ ∀ b ∈ r.head?, inNumber b = false := by
    refine ⟨_, rest.dropWhile inNumber, List.takeWhile_append_dropWhile.symm, rfl,
      List.all_eq_true.mp List.all_takeWhile, fun b hb => ?_⟩
    have hnot := List.head?_dropWhile_not inNumber rest
    rw [Option.mem_def.mp hb] at hnot
    exact hnot
  have hlen : data.length = pos + (t.length + 1) + r.length := by
    have hlen := congrArg List.length hdrop
    rw [hrest, List.length_drop, List.length_cons, List.length_append] at hlen
    omega
  have hstop : data.drop (pos + (t.length + 1)) = r := by
    rw [← List.drop_drop, hdrop, hrest, List.drop_succ_cons, List.drop_left]
  have hslice : data.slice? pos (pos + (t.length + 1)) = some (b :: t) := by
    rw [Bytes.slice?, if_pos ⟨by omega, by omega⟩, List.drop_take, hdrop, hrest,
      Nat.add_sub_cancel_left, List.take_succ_cons, List.take_left]
  refine ⟨numberEnd (n.pushAll t) (pos + (t.length + 1)) r.head?, ?_, ?_, fun stop h => ?_⟩
  · simp only [token?, number?, Bytes.slice?_back (show pos ≤ data.length by omega), hdrop,
      List.takeWhile_cons_of_pos hopens.inNumber, ht, List.length_cons, Option.bind_eq_bind,
      Option.bind_some, hslice, List.tail_cons, ← hstop, List.head?_drop]
  · rw [hrest, scanFrom_number hin, Nat.add_assoc, Nat.add_comm 1]
    exact scanFrom_numeral _ bs hstop hout
  · rw [numberEnd_complete h]
    omega

theorem literalEnd_cons (b : UInt8) (w x : Bytes) (start : Nat) :
    literalEnd (b :: w) (b :: x) start = literalEnd w x (start + 1) := by
  simp only [literalEnd, List.length_cons, Nat.add_le_add_iff_right, List.isPrefixOf_cons_cons,
    beq_self_eq_true, Bool.true_and, Nat.add_assoc, Nat.add_comm 1]

theorem literalEnd_cons_ne {c : UInt8} (h : b ≠ c) (w x : Bytes) (start : Nat) :
    literalEnd (c :: w) (b :: x) start = .invalid := by
  have hcb : (c == b) = false := beq_eq_false_iff_ne.mpr (Ne.symm h)
  have hbc : (b == c) = false := beq_eq_false_iff_ne.mpr h
  simp only [literalEnd, List.isPrefixOf_cons_cons, hcb, hbc, Bool.false_and]
  split <;> rfl

theorem literalEnd_complete {start stop : Nat} (h : literalEnd w x start = .complete stop) :
    stop = start + w.length ∧ w.length ≤ x.length := by
  unfold literalEnd at h
  split at h
  · next hle =>
    split at h <;> cases h
    exact ⟨rfl, hle⟩
  · split at h <;> cases h

/-- The scanner comes to what a literal comes to that is still to be read. -/
theorem scanFrom_word (hdrop : data.drop seen = x) (hw : w ≠ []) (bs : List Bracket) :
    scanFrom (.word w) bs seen x = (literalEnd w x seen).resume data bs := by
  induction w generalizing x seen with
  | nil => exact absurd rfl hw
  | cons c w ih =>
      cases x with
      | nil => rfl
      | cons b x =>
          have hnext : data.drop (seen + 1) = x := by
            rw [← List.drop_drop, hdrop]
            rfl
          rw [scanFrom, step]
          by_cases hb : b = c
          · subst hb
            rw [if_pos rfl, literalEnd_cons]
            cases w with
            | nil =>
                have hend : literalEnd [] x (seen + 1) = .complete (seen + 1) := by
                  simp [literalEnd]
                rw [hend, Scan.resume, hnext, List.isEmpty_nil, if_pos rfl]
                cases bs <;> rfl
            | cons d w => exact ih hnext (List.cons_ne_nil d w)
          · rw [if_neg hb, literalEnd_cons_ne hb]
            rfl

theorem exists_slices_word (hdrop : data.drop pos = b :: rest) (hword : b :: w ∈ literals)
    (bs : List Bracket) : ∃ scan, Slices data pos b rest (.word w) bs scan := by
  have hlen := congrArg List.length hdrop
  rw [List.length_drop, List.length_cons] at hlen
  have hw : w ≠ [] := by
    rintro rfl
    simp [literals] at hword
  have hnext : data.drop (pos + 1) = rest := by
    rw [← List.drop_drop, hdrop]
    rfl
  refine ⟨literalEnd (b :: w) (b :: rest) pos, ?_, ?_, fun stop h => ?_⟩
  · simp only [token?, literal?, Bytes.slice?_back (show pos ≤ data.length by omega), hdrop,
      Option.bind_eq_bind, Option.bind_some]
  · rw [literalEnd_cons]
    exact scanFrom_word hnext hw bs
  · obtain ⟨rfl, hle⟩ := literalEnd_complete h
    rw [List.length_cons, List.length_cons] at *
    omega

/-! ### Scans -/

theorem afterValue_ne_word (bs bs' : List Bracket) : afterValue bs ≠ .next (.word w) bs' := by
  unfold afterValue
  split <;> exact nofun

theorem startValue_eq_word {bs' : List Bracket} (h : startValue bs b = .next (.word w) bs') :
    b :: w ∈ literals := by
  rcases startValue_cases bs b with hfails | ⟨e', bs'', hnext, hstarts⟩
  · rw [hfails] at h
    cases h
  · rw [hnext] at h
    cases h
    cases hstarts with
    | word hword => exact hword

/-- A literal is read after the first byte of one. -/
theorem step_eq_word {bs' : List Bracket} (he : e.isToken = false)
    (h : step e bs b = .next (.word w) bs') : b :: w ∈ literals := by
  cases e with
  | value =>
      simp only [step] at h
      split at h
      · cases h
      · exact startValue_eq_word h
  | content bracket =>
      simp only [step] at h
      split at h
      · cases h
      · split at h
        · exact absurd h (afterValue_ne_word _ _)
        · cases bracket with
          | object => dsimp only at h; split at h <;> cases h
          | array => exact startValue_eq_word h
  | separator =>
      cases bs with
      | nil => cases h
      | cons bracket outer =>
          simp only [step, stepSeparator] at h
          split at h
          · cases h
          · split at h
            · exact absurd h (afterValue_ne_word _ _)
            · split at h
              · cases bracket <;> cases h
              · cases h
  | text isKey =>
      simp only [step] at h
      split at h
      · cases isKey with
        | true => cases h
        | false => exact absurd h (afterValue_ne_word _ _)
      · repeat' split at h
        all_goals cases h
  | key | colon | escape =>
      simp only [step] at h
      repeat' split at h
      all_goals cases h
  | hex left isKey =>
      cases left <;> simp only [step] at h <;> split at h <;> cases h
  | word rest => cases he
  | number n => cases he

/-- Where a number or a literal begins, it is sliced out of the buffer. -/
theorem exists_slices {e' : Expect} {bs' : List Bracket} (hdrop : data.drop pos = b :: rest)
    (he : e.isToken = false) (hstep : step e bs b = .next e' bs') (htoken : e'.isToken = true) :
    ∃ scan, Slices data pos b rest e' bs' scan := by
  cases e' with
  | number n =>
      obtain ⟨-, ⟨n₀, rfl, -, -⟩ | ⟨-, hopens⟩⟩ := step_eq_number hstep
      · cases he
      · exact exists_slices_number hdrop hopens bs'
  | word w => exact exists_slices_word hdrop (step_eq_word he hstep) bs'
  | _ => cases htoken

/-- **Numbers and literals lie in the buffer**, and to slice them out comes to what the scanner comes
to. -/
theorem scanAt?_eq (e : Expect) (bs : List Bracket) (he : e.isToken = false)
    (hpos : pos ≤ data.length) :
    scanAt? data e bs pos = some (scanFrom e bs pos (data.drop pos)) := by
  induction hn : data.length - pos using Nat.strongRecOn generalizing e bs pos with
  | ind n ih =>
      rw [scanAt?]
      by_cases hlt : pos < data.length
      · have hdrop := List.drop_eq_getElem_cons hlt
        rw [dif_pos hlt, hdrop, scanFrom]
        cases hstep : step e bs data[pos] with
        | next e' bs' =>
            dsimp only
            by_cases htoken : e'.isToken = true
            · obtain ⟨scan, hscan⟩ := exists_slices hdrop he hstep htoken
              rw [if_pos htoken, hscan.sliced, hscan.scanned]
              cases scan with
              | complete stop =>
                  obtain ⟨hstop, hle⟩ := hscan.inside stop rfl
                  dsimp only [Scan.resume]
                  split
                  · rfl
                  · exact ih _ (by omega) .separator bs' rfl hle rfl
              | incomplete => rfl
              | invalid => rfl
            · rw [if_neg htoken]
              exact ih _ (by omega) e' bs' (Bool.eq_false_iff.mpr htoken) hlt rfl
        | ends => rfl
        | ended => rfl
        | fails => rfl
      · rw [dif_neg hlt, List.drop_eq_nil_of_le (Nat.le_of_not_lt hlt), scanFrom]

end WsRelay.Json

namespace WsRelay.Framing

variable {σ : Type}

theorem reliable_jsonValue : Reliable (jsonValue (σ := σ)) := by
  intro data lastRead config memory
  unfold jsonValue
  split
  · next n hn => exact ⟨(Json.scan_sound hn).1, textKind_cases _⟩
  · exact ⟨Nat.zero_le _, .inr rfl⟩
  · exact ⟨Nat.le_refl _, .inr rfl⟩

/-- The framing by JSON values, guarded. -/
def guardedJsonValue : Guarded σ :=
  fun data _ _ memory => do
    match ← Json.scanAt? data .value [] 0 with
    | .complete n =>
      let unit ← data.slice? 0 n
      some (.ok ⟨n, textKind unit⟩, memory)
    | .incomplete => some (.ok ⟨0, .binary⟩, memory)
    | .invalid => some (.ok ⟨data.length, .binary⟩, memory)

/-- **The framing by JSON values never looks where there is nothing.** -/
theorem guardedJsonValue_eq (data : Bytes) (lastRead : Nat) (config : String) (memory : Memory σ) :
    guardedJsonValue data lastRead config memory =
      some (jsonValue data lastRead config memory) := by
  have hscan : Json.scanAt? data .value [] 0 = some (Json.scan data) :=
    Json.scanAt?_eq .value [] rfl (Nat.zero_le _)
  unfold guardedJsonValue jsonValue
  rw [hscan]
  simp only [Option.bind_eq_bind, Option.bind_some]
  cases h : Json.scan data with
  | complete n =>
      dsimp only
      rw [Bytes.slice?_front (Json.scan_sound h).1]
      rfl
  | incomplete => rfl
  | invalid => rfl

end WsRelay.Framing
