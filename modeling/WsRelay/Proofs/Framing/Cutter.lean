import WsRelay.Proofs.Interpretation
/-! # Where units end

A `Cutter` says where the unit at the front of a stream ends, for all streams alike: a unit that is
complete stays what it is when more bytes follow, and after it nothing is complete that was not
before.  Most cutters look for the end of a unit and stay with what they find (`Finder`).  A framing
follows a cutter (`Follows`) if it answers as the cutter does, although it may
look only at the bytes that arrived last and use what it remembers.

`Cutter.interpreter` is what a cutter makes of a stream of which no more than a buffer is seen at a
time.  As long as the stream goes on, these are the units of the whole stream (`units_of_run`). -/

namespace WsRelay.Framing

/-- A unit of a peer's stream, and what becomes of it. -/
structure Message where
  kind : MessageKind
  payload : Bytes
deriving DecidableEq, Repr

/-- The frame a client is sent for a unit, unless the unit is discarded. -/
def Message.reply? (m : Message) : Option Reply :=
  m.kind.opcode?.map (.frame · m.payload)

/-- The stream begins with these units, and no complete unit is in the rest: the rule is asked about
all that is left of the stream, and remembers nothing. -/
inductive Units {σ : Type} (rule : Rule σ) (config : String) : Bytes → List Message → Bytes → Prop
  | nil : Units rule config [] [] []
  | rest {s : Bytes} {kind : MessageKind}
      (h : (rule s s.length config .empty).1 = .ok ⟨0, kind⟩) : Units rule config s [] s
  | unit {s rest : Bytes} {messages : List Message} {n : Nat} {kind : MessageKind} (hn : 0 < n)
      (h : (rule s s.length config .empty).1 = .ok ⟨n, kind⟩)
      (more : Units rule config (s.drop n) messages rest) :
      Units rule config s (⟨kind, s.take n⟩ :: messages) rest

/-- Where the unit at the front of a stream ends, and what becomes of it. -/
structure Cutter where
  /-- The length of the unit, 0 while none is complete. -/
  ends : Bytes → Except FramingError Nat
  kind : Bytes → MessageKind
  nil : ends [] = .ok 0
  inside : ∀ {s n}, ends s = .ok n → n ≤ s.length
  /-- More bytes change nothing, unless they are waited for. -/
  steady : ∀ {x} (y), ends x ≠ .ok 0 → ends (x ++ y) = ends x
  /-- What is left of bytes without a complete unit has none either. -/
  resumes : ∀ {x y n}, ends x = .ok 0 → ends (x ++ y) = .ok n → ends (x.drop n) = .ok 0

namespace Cutter

variable (C : Cutter)

/-- The answer to what is at the front of `data`. -/
def cut (data : Bytes) : Except FramingError Cut :=
  (C.ends data).map fun n => ⟨n, if n = 0 then .binary else C.kind (data.take n)⟩

/-- What the front of a stream leads to if no more than a buffer of it is seen. -/
def ruling (s : Bytes) : Ruling Message :=
  match C.ends (s.take bufferCapacity) with
  | .error _ => .stop (.close .unexpected "Framing error")
  | .ok n =>
    if n ≠ 0 then .pass ⟨C.kind (s.take n), s.take n⟩ n
    else if s.length < bufferCapacity then .wait
    else .stop (.close .tooLarge "Receive size limit exceeded")

variable {C} {s x y : Bytes} {n : Nat} {e : FramingError} {m : Message}

theorem cut_of_error (h : C.ends s = .error e) : C.cut s = .error e := by
  rw [cut, h]
  rfl

theorem cut_of_zero (h : C.ends s = .ok 0) : C.cut s = .ok ⟨0, .binary⟩ := by
  rw [cut, h]
  rfl

theorem cut_of_pos (h : C.ends s = .ok n) (hn : n ≠ 0) :
    C.cut s = .ok ⟨n, C.kind (s.take n)⟩ := by
  rw [cut, h]
  dsimp only [Except.map]
  rw [if_neg hn]

theorem ruling_of_error (h : C.ends s = .error e) (hs : s.length ≤ bufferCapacity) :
    C.ruling s = .stop (.close .unexpected "Framing error") := by
  rw [ruling, List.take_of_length_le hs, h]

theorem ruling_of_pos (h : C.ends s = .ok n) (hn : n ≠ 0) (hs : s.length ≤ bufferCapacity) :
    C.ruling s = .pass ⟨C.kind (s.take n), s.take n⟩ n := by
  rw [ruling, List.take_of_length_le hs, h]
  exact if_pos hn

theorem ruling_of_zero (h : C.ends s = .ok 0) (hs : s.length < bufferCapacity) :
    C.ruling s = .wait := by
  rw [ruling, List.take_of_length_le (Nat.le_of_lt hs), h]
  dsimp only
  rw [if_neg (fun h => h rfl), if_pos hs]

theorem ruling_of_full (h : C.ends s = .ok 0) (hs : s.length = bufferCapacity) :
    C.ruling s = .stop (.close .tooLarge "Receive size limit exceeded") := by
  rw [ruling, List.take_of_length_le (Nat.le_of_eq hs), h]
  dsimp only
  rw [if_neg (fun h => h rfl), if_neg (by omega)]

/-- A stream that is waited for is shorter than a buffer, and has no complete unit. -/
theorem ruling_eq_wait_iff : C.ruling s = .wait ↔ C.ends s = .ok 0 ∧ s.length < bufferCapacity := by
  constructor
  · intro h
    unfold ruling at h
    split at h
    · cases h
    · next n hn =>
      split at h
      · cases h
      · next h0 =>
        split at h
        · next hlen =>
          rw [List.take_of_length_le (Nat.le_of_lt hlen)] at hn
          rw [hn, Decidable.not_not.mp h0]
          exact ⟨rfl, hlen⟩
        · cases h
  · exact fun h => ruling_of_zero h.1 h.2

/-- A unit that is passed is one of the whole stream. -/
theorem ends_of_ruling_pass (h : C.ruling s = .pass m n) :
    C.ends s = .ok n ∧ n ≠ 0 ∧ m = ⟨C.kind (s.take n), s.take n⟩ := by
  unfold ruling at h
  split at h
  · cases h
  · next k hk =>
    split at h
    · next hne =>
      cases h
      refine ⟨?_, hne, rfl⟩
      have hsteady := C.steady (s.drop bufferCapacity) (x := s.take bufferCapacity)
        (by rw [hk]; intro h; cases h; exact hne rfl)
      rw [List.take_append_drop] at hsteady
      rw [hsteady, hk]
    · split at h <;> cases h

theorem ruling_append (y : Bytes) (h : C.ruling x ≠ .wait) : C.ruling (x ++ y) = C.ruling x := by
  rcases Nat.lt_or_ge x.length bufferCapacity with hlt | hge
  · have hx : x.take bufferCapacity = x := List.take_of_length_le (Nat.le_of_lt hlt)
    have hends : C.ends x ≠ .ok 0 := fun h0 => h (ruling_of_zero h0 hlt)
    have hwindow : (x ++ y).take bufferCapacity = x ++ y.take (bufferCapacity - x.length) := by
      rw [List.take_append, hx]
    unfold ruling
    rw [hwindow, C.steady _ hends, hx]
    cases hc : C.ends x with
    | error e => rfl
    | ok n =>
        have hn : n ≠ 0 := by
          rintro rfl
          exact hends hc
        dsimp only
        rw [if_pos hn, if_pos hn, List.take_append_of_le_length (C.inside hc)]
  · have hwindow : (x ++ y).take bufferCapacity = x.take bufferCapacity :=
      List.take_append_of_le_length hge
    unfold ruling
    rw [hwindow]
    cases hc : C.ends (x.take bufferCapacity) with
    | error e => rfl
    | ok n =>
        have hn := C.inside hc
        rw [List.length_take] at hn
        have hlong : ¬ (x ++ y).length < bufferCapacity := by
          rw [List.length_append]
          omega
        dsimp only
        rw [List.take_append_of_le_length (by omega), if_neg hlong, if_neg (Nat.not_lt_of_le hge)]

variable (C) in
/-- The interpreter of a stream of which no more than a buffer is seen at a time. -/
def interpreter : Interpreter Message where
  ruling := C.ruling
  inside h := by
    obtain ⟨hn, hne, -⟩ := ends_of_ruling_pass h
    exact ⟨Nat.pos_of_ne_zero hne, C.inside hn⟩
  append y h := ruling_append y h

end Cutter

/-- A way to find where a unit ends: what is found is found in every longer stream, and what is
found only in a longer stream ends beyond the shorter one. -/
structure Finder where
  find : Bytes → Option Nat
  inside : ∀ {s n}, find s = some n → 0 < n ∧ n ≤ s.length
  append : ∀ {x n} (y), find x = some n → find (x ++ y) = some n
  beyond : ∀ {x y n}, find x = none → find (x ++ y) = some n → x.length < n

namespace Finder

variable (f : Finder)

theorem find_nil : f.find [] = none := by
  cases h : f.find [] with
  | none => rfl
  | some n =>
      have hn := f.inside h
      rw [List.length_nil] at hn
      omega

theorem getD_eq_zero {s : Bytes} : (f.find s).getD 0 = 0 ↔ f.find s = none := by
  cases h : f.find s with
  | none => simp
  | some n =>
      have := (f.inside h).1
      simp only [Option.getD_some, reduceCtorEq, iff_false]
      omega

/-- The cutter that finds units in this way. -/
def cutter (kind : Bytes → MessageKind) : Cutter where
  ends s := .ok ((f.find s).getD 0)
  kind := kind
  nil := by rw [f.find_nil]; rfl
  inside {s n} h := by
    cases h
    cases hs : f.find s with
    | none => exact Nat.zero_le _
    | some n => exact (f.inside hs).2
  steady {x} y h := by
    cases hx : f.find x with
    | none => exact absurd (by rw [hx]; rfl) h
    | some n => rw [f.append y hx]
  resumes {x y n} hx h := by
    have hx := f.getD_eq_zero.mp (Except.ok.inj hx)
    cases h
    cases hxy : f.find (x ++ y) with
    | none => rw [Option.getD_none, List.drop_zero, hx, Option.getD_none]
    | some n =>
        have hlt := f.beyond hx hxy
        rw [Option.getD_some, List.drop_eq_nil_of_le (Nat.le_of_lt hlt), f.find_nil]
        rfl

variable {f} {s : Bytes} {n : Nat} (kind : Bytes → MessageKind)

theorem ends_of_some (h : f.find s = some n) : (f.cutter kind).ends s = .ok n := by
  show Except.ok ((f.find s).getD 0) = _
  rw [h, Option.getD_some]

theorem ends_of_none (h : f.find s = none) : (f.cutter kind).ends s = .ok 0 := by
  show Except.ok ((f.find s).getD 0) = _
  rw [h, Option.getD_none]

variable {kind} in
theorem find_of_ends (h : (f.cutter kind).ends s = .ok 0) : f.find s = none :=
  f.getD_eq_zero.mp (Except.ok.inj h)

end Finder

/-- A rule answers as a cutter does, for streams that `domain` admits: it is asked about data of
which all but the last `lastRead` bytes are known to have no complete unit. -/
structure Follows {σ : Type} (rule : Rule σ) (config : String) (remembers : Memory σ → Prop)
    (C : Cutter) (domain : Bytes → Prop) : Prop where
  empty : remembers .empty
  answers : ∀ {data : Bytes} {lastRead : Nat} {memory : Memory σ}, remembers memory → data ≠ [] →
    domain data → C.ends (data.take (data.length - lastRead)) = .ok 0 →
    (rule data lastRead config memory).1 = C.cut data ∧
      remembers (rule data lastRead config memory).2
  domain_take : ∀ {x y : Bytes}, domain (x ++ y) → domain x
  domain_drop : ∀ {data : Bytes} {n : Nat}, domain data → C.ends data = .ok n →
    domain (data.drop n)

variable {σ : Type} {rule : Rule σ} {config : String} {remembers : Memory σ → Prop} {C : Cutter}
  {domain : Bytes → Prop}

/-- What is left of a stream is a stream of the same domain. -/
theorem domain_rest (F : Follows rule config remembers C domain) {s : Bytes} (y : Bytes)
    (h : domain (s ++ y)) : domain ((C.interpreter.run s).rest ++ y) := by
  refine Interpreter.run_induction (motive := fun s i => domain (s ++ y) → domain (i.rest ++ y))
    ?_ ?_ ?_ s h
  · exact fun _ _ h => h
  · exact fun _ _ _ h => h
  · intro s m n hr ih h
    obtain ⟨hends, hn, -⟩ := Cutter.ends_of_ruling_pass hr
    have hlonger : C.ends (s ++ y) = .ok n := by
      rw [C.steady y (by rw [hends]; intro h; cases h; exact hn rfl), hends]
    have hdrop := F.domain_drop h hlonger
    rw [List.drop_append_of_le_length (C.inside hends)] at hdrop
    exact ih hdrop

/-- As long as a stream goes on, the units seen through a buffer are those of the whole stream. -/
theorem units_of_run (F : Follows rule config remembers C fun _ => True) {s : Bytes}
    (h : (C.interpreter.run s).verdict = .continue) :
    Units rule config s (C.interpreter.run s).items (C.interpreter.run s).rest := by
  have hask (s : Bytes) (hs : s ≠ []) : (rule s s.length config .empty).1 = C.cut s :=
    (F.answers F.empty hs trivial (by rw [Nat.sub_self]; exact C.nil)).1
  refine Interpreter.run_induction (motive := fun s i => i.verdict = .continue →
    Units rule config s i.items i.rest) ?_ ?_ ?_ s h
  · intro s hr _
    obtain ⟨hends, -⟩ := Cutter.ruling_eq_wait_iff.mp hr
    by_cases hs : s = []
    · rw [hs]
      exact .nil
    · exact .rest ((hask s hs).trans (Cutter.cut_of_zero hends))
  · intro s t _ h
    cases h
  · intro s m n hr ih h
    obtain ⟨hends, hn, rfl⟩ := Cutter.ends_of_ruling_pass hr
    have hs : s ≠ [] := by
      rintro rfl
      rw [C.nil] at hends
      cases hends
      exact hn rfl
    exact .unit (Nat.pos_of_ne_zero hn) ((hask s hs).trans (Cutter.cut_of_pos hends hn)) (ih h)

end WsRelay.Framing
