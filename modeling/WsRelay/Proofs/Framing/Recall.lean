import WsRelay.Framing.Table
/-! # What framings remember

Four framings take a configuration (`Configurable`).  Each reads it when it is first asked
(`Configurable.read`), remembers what it made of it, and from then on answers from memory
(`Configurable.rule_eq`).  So it makes no difference to the answers whether a framing remembers
anything: a history of questions, with or without ends of connections in between, is answered as if
every question were the first (`uses_transparent`).

No framing of this library answers differently when it has been asked before, even if it finds in
its memory what another framing has left there (`steady_standard`). -/

namespace WsRelay.Framing

variable {σ : Type}

/-- The framings that take a configuration. -/
inductive Configurable where
  | separator
  | newline
  | fixedLength
  | lengthPrefixed
deriving DecidableEq, Repr

namespace Configurable

/-- The framing, with its name in the table of framings. -/
def framing : Configurable → Framing σ
  | separator => ⟨"separator", Framing.separator⟩
  | newline => ⟨"newline", Framing.newline⟩
  | fixedLength => ⟨"fixedlength", Framing.fixedLength⟩
  | lengthPrefixed => ⟨"dynamic32", Framing.lengthPrefixed⟩

theorem get?_framing (k : Configurable) :
    FramingTable.standard.get? (k.framing (σ := σ)).name = some (k.framing (σ := σ)) := by
  cases k <;> rfl

/-- What a framing makes of its configuration, to be remembered. -/
def read : Configurable → String → Except FramingError (Memory σ)
  | separator, config => (parseNeedle config).map .needle
  | newline, config => .ok (.needle (terminator config))
  | fixedLength, config =>
    match Text.radixNat? config with
    | none => .error (.badRecordLength config)
    | some length => .ok (.recordLength length)
  | lengthPrefixed, config => (RecordLayout.parse config).map .layout

/-- The memory holds what the framing makes of a configuration. -/
def holds : Configurable → Memory σ → Bool
  | separator, .needle _ | newline, .needle _ | fixedLength, .recordLength _
  | lengthPrefixed, .layout _ => true
  | _, _ => false

/-- What a framing goes by: what it remembers, else what it makes of its configuration. -/
def goesBy (k : Configurable) (config : String) (memory : Memory σ) :
    Except FramingError (Memory σ) :=
  if k.holds memory then .ok memory else k.read config

/-- The answer of a framing that goes by `kept`. -/
def answer : Configurable → (kept : Memory σ) → Bytes → Nat → Except FramingError Cut
  | newline, .needle needle, data, lastRead =>
    let n := unitEnd data lastRead needle
    .ok ⟨n, if n = 0 then .binary else textKind (data.take n)⟩
  | _, .needle needle, data, lastRead => .ok ⟨unitEnd data lastRead needle, .binary⟩
  | _, .recordLength length, data, _ => .ok ⟨recordEnd length data, .binary⟩
  | _, .layout layout, data, _ => layoutCut layout data
  | _, _, _, _ => .ok ⟨0, .binary⟩

variable {k : Configurable} {config : String} {memory kept : Memory σ} {e : FramingError}

theorem holds_of_read (h : k.read config = .ok kept) : k.holds kept = true := by
  cases k with
  | separator =>
      rw [read] at h
      cases hp : parseNeedle config with
      | error e => rw [hp] at h; cases h
      | ok needle => rw [hp] at h; cases h; rfl
  | newline => cases h; rfl
  | fixedLength =>
      rw [read] at h
      split at h
      · cases h
      · cases h; rfl
  | lengthPrefixed =>
      rw [read] at h
      cases hp : RecordLayout.parse config with
      | error e => rw [hp] at h; cases h
      | ok layout => rw [hp] at h; cases h; rfl

theorem holds_of_goesBy (h : k.goesBy config memory = .ok kept) : k.holds kept = true := by
  unfold goesBy at h
  split at h
  · cases h
    assumption
  · exact holds_of_read h

/-- **A framing answers by what it goes by**, and remembers that; if its configuration cannot be
read, it says so and remembers nothing new. -/
theorem rule_eq (k : Configurable) (data : Bytes) (lastRead : Nat) (config : String)
    (memory : Memory σ) :
    k.framing.rule data lastRead config memory =
      match k.goesBy config memory with
      | .error e => (.error e, memory)
      | .ok kept => (k.answer kept data lastRead, kept) := by
  cases k with
  | separator =>
      show Framing.separator data lastRead config memory = _
      unfold Framing.separator recallNeedle goesBy
      cases memory with
      | needle bytes => rfl
      | _ => simp only [holds, read]; cases parseNeedle config <;> rfl
  | newline =>
      show Framing.newline data lastRead config memory = _
      unfold Framing.newline recallNeedle goesBy
      cases memory <;> rfl
  | fixedLength =>
      show Framing.fixedLength data lastRead config memory = _
      unfold Framing.fixedLength goesBy
      cases memory with
      | recordLength length => rfl
      | _ => simp only [holds, read]; cases Text.radixNat? config <;> rfl
  | lengthPrefixed =>
      show Framing.lengthPrefixed data lastRead config memory = _
      unfold Framing.lengthPrefixed goesBy
      cases memory with
      | layout layout => rfl
      | _ => simp only [holds, read]; cases RecordLayout.parse config <;> rfl

theorem rule_of_error (h : k.goesBy config memory = .error e) (data : Bytes) (lastRead : Nat) :
    k.framing.rule data lastRead config memory = (.error e, memory) := by
  rw [rule_eq, h]

theorem rule_of_ok (h : k.goesBy config memory = .ok kept) (data : Bytes) (lastRead : Nat) :
    k.framing.rule data lastRead config memory = (k.answer kept data lastRead, kept) := by
  rw [rule_eq, h]

/-- A framing that goes by a needle looks for it. -/
theorem exists_answer_needle (k : Configurable) (needle data : Bytes) (lastRead : Nat) :
    ∃ kind, k.answer (.needle needle : Memory σ) data lastRead =
      .ok ⟨unitEnd data lastRead needle, kind⟩ := by
  cases k <;> exact ⟨_, rfl⟩

/-- What it goes by once, a framing goes by again. -/
theorem goesBy_of_holds (h : k.holds kept = true) : k.goesBy config kept = .ok kept := if_pos h

theorem goesBy_empty (k : Configurable) (config : String) :
    k.goesBy config (.empty : Memory σ) = k.read config :=
  if_neg (by cases k <;> exact Bool.false_ne_true)

end Configurable

/-! ### Asked again -/

/-- To have been asked before makes no difference to how a framing answers. -/
def Steady (rule : Rule σ) : Prop :=
  ∀ data lastRead data' lastRead' config memory,
    rule data lastRead config (rule data' lastRead' config memory).2 =
      rule data lastRead config memory

theorem Configurable.steady (k : Configurable) : Steady (k.framing (σ := σ)).rule := by
  intro data lastRead data' lastRead' config memory
  cases h : k.goesBy config memory with
  | error e => rw [rule_of_error h data' lastRead']
  | ok kept =>
      rw [rule_of_ok h data' lastRead', rule_of_ok h,
        rule_of_ok (goesBy_of_holds (holds_of_goesBy h))]

/-- A framing that remembers nothing. -/
theorem steady_of_forgets {rule : Rule σ}
    (h : ∀ data lastRead config memory, (rule data lastRead config memory).2 = memory) :
    Steady rule := by
  intro data lastRead data' lastRead' config memory
  rw [h]

theorem jsonValue_forgets (data : Bytes) (lastRead : Nat) (config : String) (memory : Memory σ) :
    (jsonValue data lastRead config memory).2 = memory := by
  unfold jsonValue
  split <;> rfl

/-- No framing of this library answers differently when it has been asked before. -/
theorem steady_standard {name : String} {framing : Framing σ}
    (h : FramingTable.standard.get? name = some framing) : Steady framing.rule := by
  have hmem := List.mem_of_find?_eq_some h
  simp only [FramingTable.standard, List.mem_cons, List.not_mem_nil, or_false] at hmem
  rcases hmem with rfl | rfl | rfl | rfl | rfl | rfl | rfl
  · exact steady_of_forgets fun _ _ _ _ => rfl
  · exact steady_of_forgets fun _ _ _ _ => rfl
  · exact Configurable.separator.steady
  · exact Configurable.newline.steady
  · exact Configurable.fixedLength.steady
  · exact Configurable.lengthPrefixed.steady
  · exact steady_of_forgets jsonValue_forgets

/-! ### Histories -/

/-- What is done with a framing: it is asked about a buffer, or its connection ends. -/
inductive Use where
  | ask (data : Bytes) (lastRead : Nat)
  | teardown
deriving DecidableEq, Repr

/-- What a use of a framing leads to: the answer, if it was asked, and what it remembers then. -/
def use (framing : Framing σ) (config : String) (memory : Memory σ) :
    Use → Option (Except FramingError Cut) × Memory σ
  | .ask data lastRead =>
    let (answer, memory) := framing.rule data lastRead config memory
    (some answer, memory)
  | .teardown => (none, framing.teardown memory)

/-- What a history of uses leads to, use by use. -/
def uses (framing : Framing σ) (config : String) :
    Memory σ → List Use → List (Option (Except FramingError Cut) × Memory σ)
  | _, [] => []
  | memory, u :: history =>
    let result := framing.use config memory u
    result :: framing.uses config result.2 history

variable {framing : Framing σ} {config : String} {memory : Memory σ}

@[simp] theorem use_ask (data : Bytes) (lastRead : Nat) :
    framing.use config memory (.ask data lastRead) =
      (some (framing.rule data lastRead config memory).1,
        (framing.rule data lastRead config memory).2) := rfl

/-- A steady framing that answers as if nothing were remembered still does so after a use. -/
theorem use_keeps (hsteady : Steady framing.rule)
    (h : ∀ u, framing.use config memory u = framing.use config .empty u) (u v : Use) :
    framing.use config (framing.use config memory u).2 v = framing.use config .empty v := by
  cases u with
  | teardown => rfl
  | ask data lastRead =>
      rw [← h v]
      cases v with
      | teardown => rfl
      | ask data' lastRead' => simp only [use_ask, hsteady data' lastRead' data lastRead]

/-- Every use of a steady framing is answered as if it were the first. -/
theorem uses_eq_map (hsteady : Steady framing.rule) (history : List Use)
    (h : ∀ u, framing.use config memory u = framing.use config .empty u) :
    framing.uses config memory history = history.map (framing.use config .empty) := by
  induction history generalizing memory with
  | nil => rfl
  | cons u history ih =>
      rw [uses, List.map_cons, ih (use_keeps hsteady h u), h u]

/-- **What a framing remembers of its configuration makes no difference.**  Every use in a history
that starts with nothing remembered leads to what it would lead to as the first.  A framing whose
configuration cannot be read refuses every question and remembers nothing; any other remembers what
it makes of its configuration from the first question on, until its connection ends. -/
theorem uses_transparent (k : Configurable) (config : String) (history : List Use) :
    FramingTable.standard.get? (k.framing (σ := σ)).name = some (k.framing (σ := σ)) ∧
      (k.framing (σ := σ)).uses config .empty history =
        history.map (k.framing.use config .empty) ∧
      match k.read (σ := σ) config with
      | .error e => ∀ data lastRead,
          (k.framing (σ := σ)).use config .empty (.ask data lastRead) = (some (.error e), .empty)
      | .ok kept => ∀ data lastRead,
          (k.framing (σ := σ)).use config .empty (.ask data lastRead) =
            (some (k.answer kept data lastRead), kept) := by
  refine ⟨k.get?_framing, uses_eq_map k.steady history fun _ => rfl, ?_⟩
  cases h : k.read (σ := σ) config with
  | error e =>
      intro data lastRead
      rw [use_ask, Configurable.rule_of_error ((k.goesBy_empty config).trans h)]
  | ok kept =>
      intro data lastRead
      rw [use_ask, Configurable.rule_of_ok ((k.goesBy_empty config).trans h)]

/-- A record that is out of range is refused by a framing that remembers its layout, and goes on to
answer about others. -/
example : Framing.uses (Configurable.lengthPrefixed.framing (σ := Unit)) "static=-4" .empty
    [.ask [0, 0, 0, 0] 4, .ask [2, 0, 0, 0] 4, .teardown] =
      [(some (.error (.recordOutOfRange 0)), .layout { adjust := -4 }),
        (some (.ok ⟨2, .binary⟩), .layout { adjust := -4 }), (none, .empty)] := by
  rfl

end WsRelay.Framing
