import WsRelay.Proofs.Framing.Recall
import WsRelay.Proofs.Framing.Streams
/-! # What connections rely on in a framing

A framing cuts a unit off the bytes it is asked about, so a unit is no longer than these, and it is
sent as text or as binary (`Reliable`).  No framing of this library discards anything, and none
fails with the failure of a framing that took more than there was, which is for connections to
report.

Nor does a framing look where there is nothing.  A guarded rule (`Guarded`) makes sure that what it
subtracts from is large enough and that what it slices out of the buffer lies inside; where that is
not so it has no answer.  The framings that take a configuration always have the answer that they
have unguarded, whatever they find in their memory and however many bytes are said to have been read
last (`Configurable.guarded_eq`). -/

namespace WsRelay

/-- What `a` has more than `b`, if it is no less. -/
def less? (a b : Nat) : Option Nat :=
  if b ≤ a then some (a - b) else none

namespace Bytes

/-- The bytes from one place up to another, if these are places in the byte string and in order. -/
def slice? (bs : Bytes) (start stop : Nat) : Option Bytes :=
  if start ≤ stop ∧ stop ≤ bs.length then some ((bs.take stop).drop start) else none

variable {bs : Bytes} {n : Nat}

theorem slice?_front (h : n ≤ bs.length) : bs.slice? 0 n = some (bs.take n) :=
  if_pos ⟨Nat.zero_le n, h⟩

theorem slice?_back (h : n ≤ bs.length) : bs.slice? n bs.length = some (bs.drop n) := by
  rw [slice?, if_pos ⟨h, Nat.le_refl _⟩, List.take_length]

end Bytes

/-- A failure that a framing has of its own, and not because it took too much. -/
def FramingError.IsOwn (e : FramingError) : Prop :=
  ∀ taken buffered, e ≠ .overrun taken buffered

namespace Framing

variable {σ : Type} {k : Configurable} {e : FramingError} {config : String} {data needle : Bytes}

/-! ### Cuts -/

/-- What a framing may answer that was asked about `data`. -/
def Answers (data : Bytes) : Except FramingError Cut → Prop
  | .ok cut => cut.length ≤ data.length ∧ (cut.kind = .text ∨ cut.kind = .binary)
  | .error e => e.IsOwn

/-- The framing answers so, whatever it is asked and whatever it finds in its memory. -/
def Reliable (rule : Rule σ) : Prop :=
  ∀ data lastRead config memory, Answers data (rule data lastRead config memory).1

theorem textKind_cases (bs : Bytes) : textKind bs = .text ∨ textKind bs = .binary := by
  unfold textKind
  split
  · exact .inl rfl
  · exact .inr rfl

theorem reliable_binary : Reliable (binary (σ := σ)) :=
  fun _ _ _ _ => ⟨Nat.le_refl _, .inr rfl⟩

theorem reliable_auto : Reliable (auto (σ := σ)) :=
  fun data _ _ _ => ⟨Nat.le_refl _, textKind_cases data⟩

theorem unitEnd_le (data : Bytes) (lastRead : Nat) (needle : Bytes) :
    unitEnd data lastRead needle ≤ data.length := by
  unfold unitEnd
  split
  · omega
  · dsimp only
    split
    · omega
    · next n hn =>
      rw [Bytes.search?_eq] at hn
      have hle := Bytes.indexOf?_le hn
      rw [List.length_drop] at hle
      omega

theorem recordEnd_le (length : Nat) (data : Bytes) : recordEnd length data ≤ data.length := by
  unfold recordEnd
  split
  · omega
  · split <;> omega

/-! ### Failures -/

/-- The failure of something that is made into something else is the failure there was. -/
theorem error_of_map {α β : Type} {f : α → β} {r : Except FramingError α}
    (h : r.map f = .error e) : r = .error e := by
  cases r with
  | error _ => exact congrArg _ (Except.error.inj h)
  | ok _ => cases h

theorem isOwn_unescape {bs : Bytes} (h : unescape bs = .error e) : e.IsOwn := by
  fun_induction unescape bs
  case case2 ih => exact ih (error_of_map h)
  case case5 ih => exact ih (error_of_map h)
  case case8 ih => exact ih (error_of_map h)
  all_goals cases h
  all_goals rintro _ _ ⟨⟩

theorem isOwn_parseNeedle (h : parseNeedle config = .error e) : e.IsOwn := by
  unfold parseNeedle at h
  split at h
  · next hu =>
    cases h
    exact isOwn_unescape hu
  · cases h
    exact fun _ _ => nofun
  · cases h

theorem isOwn_set {layout : RecordLayout} {item : String} (h : layout.set item = .error e) :
    e.IsOwn := by
  unfold RecordLayout.set at h
  dsimp only at h
  split at h
  · cases h
    exact fun _ _ => nofun
  · split at h
    · split at h <;> cases h
      exact fun _ _ => nofun
    · split at h
      · split at h <;> cases h
        exact fun _ _ => nofun
      · split at h
        · split at h
          · cases h
          · split at h <;> cases h
            exact fun _ _ => nofun
        · cases h
          exact fun _ _ => nofun

theorem isOwn_foldlM {items : List String} {layout : RecordLayout}
    (h : items.foldlM RecordLayout.set layout = .error e) : e.IsOwn := by
  induction items generalizing layout with
  | nil => cases h
  | cons item items ih =>
      rw [List.foldlM_cons] at h
      cases hs : layout.set item with
      | error e' =>
          rw [hs] at h
          cases h
          exact isOwn_set hs
      | ok layout' =>
          rw [hs] at h
          exact ih h

theorem isOwn_recordEnd {layout : RecordLayout} (h : layout.recordEnd data = .error e) :
    e.IsOwn := by
  unfold RecordLayout.recordEnd at h
  split at h
  · cases h
  · dsimp only at h
    split at h
    · cases h
      exact fun _ _ => nofun
    · split at h <;> cases h

namespace Configurable

theorem isOwn_read (h : k.read (σ := σ) config = .error e) : e.IsOwn := by
  cases k with
  | separator => exact isOwn_parseNeedle (error_of_map h)
  | newline => cases h
  | fixedLength =>
      rw [read] at h
      split at h <;> cases h
      rintro _ _ ⟨⟩
  | lengthPrefixed => exact isOwn_foldlM (error_of_map h)

theorem isOwn_goesBy {memory : Memory σ} (h : k.goesBy config memory = .error e) : e.IsOwn := by
  unfold goesBy at h
  split at h
  · cases h
  · exact isOwn_read h

theorem answers_of_needle (k : Configurable) (needle data : Bytes) (lastRead : Nat) :
    Answers data (k.answer (.needle needle : Memory σ) data lastRead) := by
  have hle := unitEnd_le data lastRead needle
  cases k with
  | newline =>
      refine ⟨hle, ?_⟩
      dsimp only
      split
      · exact .inr rfl
      · exact textKind_cases _
  | separator | fixedLength | lengthPrefixed => exact ⟨hle, .inr rfl⟩

theorem answers_layoutCut (layout : RecordLayout) (data : Bytes) :
    Answers data (layoutCut layout data) := by
  unfold layoutCut
  cases h : layout.recordEnd data with
  | error e => exact isOwn_recordEnd h
  | ok n => exact ⟨RecordLayout.recordEnd_le h, .inr rfl⟩

/-- Whatever it goes by, a framing answers about the bytes it is asked about. -/
theorem answers (k : Configurable) (kept : Memory σ) (data : Bytes) (lastRead : Nat) :
    Answers data (k.answer kept data lastRead) := by
  cases kept with
  | needle needle => exact k.answers_of_needle needle data lastRead
  | recordLength length => cases k <;> exact ⟨recordEnd_le length data, .inr rfl⟩
  | layout layout => cases k <;> exact answers_layoutCut layout data
  | empty => cases k <;> exact ⟨Nat.zero_le _, .inr rfl⟩
  | extension value => cases k <;> exact ⟨Nat.zero_le _, .inr rfl⟩

theorem reliable (k : Configurable) : Reliable (k.framing (σ := σ)).rule := by
  intro data lastRead config memory
  cases h : k.goesBy config memory with
  | error e =>
      rw [rule_of_error h]
      exact isOwn_goesBy h
  | ok kept =>
      rw [rule_of_ok h]
      exact k.answers kept data lastRead

end Configurable

/-! ### Guarded rules -/

/-- As a rule, but without an answer where something would be subtracted from less than itself, or
sliced out of the buffer that is not in it. -/
abbrev Guarded (σ : Type) :=
  (data : Bytes) → (lastRead : Nat) → (config : String) → Memory σ →
    Option (Except FramingError Cut × Memory σ)

/-- A rule that subtracts and slices nothing. -/
def Rule.unguarded (rule : Rule σ) : Guarded σ :=
  fun data lastRead config memory => some (rule data lastRead config memory)

/-- `unitEnd`, guarded. -/
def guardedUnitEnd (data : Bytes) (lastRead : Nat) (needle : Bytes) : Option Nat :=
  if needle.isEmpty then some 0
  else do
    let overlap ← less? needle.length 1
    let start := data.length - lastRead - overlap
    let searched ← data.slice? start data.length
    match Bytes.search? needle searched with
    | none => some 0
    | some n => some (start + n + needle.length)

theorem guardedUnitEnd_eq (data : Bytes) (lastRead : Nat) (needle : Bytes) :
    guardedUnitEnd data lastRead needle = some (unitEnd data lastRead needle) := by
  unfold guardedUnitEnd unitEnd
  by_cases hempty : needle.isEmpty = true
  · rw [if_pos hempty, if_pos hempty]
  · have hpos : 1 ≤ needle.length :=
      List.length_pos_iff.mpr fun h => hempty (List.isEmpty_iff.mpr h)
    have hless : less? needle.length 1 = some (needle.length - 1) := if_pos hpos
    have hslice : data.slice? (data.length - lastRead - (needle.length - 1)) data.length =
        some (data.drop (data.length - lastRead - (needle.length - 1))) :=
      Bytes.slice?_back (by omega)
    rw [if_neg hempty, if_neg hempty, hless]
    simp only [Option.bind_eq_bind, Option.bind_some, hslice]
    cases Bytes.search? needle (data.drop (data.length - lastRead - (needle.length - 1))) <;> rfl

namespace Configurable

/-- `answer`, guarded.  Framings by a count of bytes ask whether there are as many. -/
def guardedAnswer : Configurable → (kept : Memory σ) → Bytes → Nat →
    Option (Except FramingError Cut)
  | newline, .needle needle, data, lastRead => do
    let n ← guardedUnitEnd data lastRead needle
    if n = 0 then some (.ok ⟨0, .binary⟩)
    else
      let unit ← data.slice? 0 n
      some (.ok ⟨n, textKind unit⟩)
  | _, .needle needle, data, lastRead => do
    let n ← guardedUnitEnd data lastRead needle
    some (.ok ⟨n, .binary⟩)
  | k, kept, data, lastRead => some (k.answer kept data lastRead)

/-- The rule of the framing, guarded. -/
def guarded (k : Configurable) : Guarded σ :=
  fun data lastRead config memory =>
    match k.goesBy config memory with
    | .error e => some (.error e, memory)
    | .ok kept => (k.guardedAnswer kept data lastRead).map fun answer => (answer, kept)

theorem guardedAnswer_eq (k : Configurable) (kept : Memory σ) (data : Bytes) (lastRead : Nat) :
    k.guardedAnswer kept data lastRead = some (k.answer kept data lastRead) := by
  cases kept with
  | needle needle =>
      have hend := guardedUnitEnd_eq data lastRead needle
      have hle := unitEnd_le data lastRead needle
      cases k with
      | newline =>
          simp only [guardedAnswer, hend, Option.bind_eq_bind, Option.bind_some,
            Bytes.slice?_front hle, answer]
          split
          · next hzero => rw [hzero]
          · rfl
      | separator | fixedLength | lengthPrefixed =>
          simp only [guardedAnswer, hend, Option.bind_eq_bind, Option.bind_some, answer]
  | empty | recordLength | layout | extension => cases k <;> rfl

/-- **A framing that takes a configuration never looks where there is nothing.** -/
theorem guarded_eq (k : Configurable) (data : Bytes) (lastRead : Nat) (config : String)
    (memory : Memory σ) :
    k.guarded data lastRead config memory =
      some ((k.framing (σ := σ)).rule data lastRead config memory) := by
  unfold guarded
  cases h : k.goesBy config memory with
  | error e => rw [rule_of_error h]
  | ok kept =>
      rw [rule_of_ok h]
      dsimp only
      rw [guardedAnswer_eq]
      rfl

end Configurable

end Framing

end WsRelay
