import WsRelay.Proofs.Arrivals
/-! # Interpreters of streams

An `Interpreter` says what the bytes at the front of a stream lead to: nothing yet, the end of the
connection, or an item of some length, which is passed and with what follows it next.
`Interpreter.run` applies it again and again.

More bytes behind a stream change nothing in what its front leads to, unless that was to wait for
them.  Hence a stream can be interpreted in two parts (`run_append`), nothing counts behind the
place where an interpretation stops (`run_stopped`), and what is left of a stream that goes on is
waited for (`ruling_rest`).

A `Ledger` holds a state to an interpreter.  A loop whose step does what the interpreter says of the
front of a buffer does with the whole buffer what the interpreter makes of it
(`Ledger.Performs.run`), and then the interpreter's account of a stream explains what is done with
a piece of it (`Ledger.explains`). -/

namespace WsRelay

/-- What the front of a stream leads to. -/
inductive Ruling (φ : Type) where
  /-- Bytes are missing. -/
  | wait
  | stop (termination : Termination)
  /-- An item of `length` bytes. -/
  | pass (item : φ) (length : Nat)
deriving DecidableEq, Repr

/-- What the front of any stream leads to. -/
structure Interpreter (φ : Type) where
  ruling : Bytes → Ruling φ
  /-- An item has a byte at least, and has arrived. -/
  inside : ∀ {s p n}, ruling s = .pass p n → 0 < n ∧ n ≤ s.length
  /-- More bytes change nothing, unless they are waited for. -/
  append : ∀ {x} (y), ruling x ≠ .wait → ruling (x ++ y) = ruling x

/-- What a stream leads to: the items that are passed, in order, whether the stream goes on, and
if it does, what is left of it. -/
structure Interpretation (φ : Type) where
  items : List φ := []
  verdict : Verdict := .continue
  rest : Bytes
deriving DecidableEq, Repr

/-- The interpretation with items passed before it. -/
def Interpretation.after {φ : Type} (items : List φ) (i : Interpretation φ) : Interpretation φ :=
  { i with items := items ++ i.items }

namespace Interpreter

variable {φ : Type} (I : Interpreter φ)

/-- The ruling applied to the front of a stream, again and again. -/
def run (s : Bytes) : Interpretation φ :=
  match h : I.ruling s with
  | .wait => { rest := s }
  | .stop termination => { verdict := .close termination, rest := s }
  | .pass item length =>
    have := I.inside h
    (run (s.drop length)).after [item]
termination_by s.length
decreasing_by
  rw [List.length_drop]
  omega

variable {I} {s x : Bytes} {p : φ} {n : Nat} {t : Termination}

theorem run_wait (hr : I.ruling s = .wait) : I.run s = { rest := s } := by
  rw [run]
  split
  · rfl
  · next hs => rw [hr] at hs; cases hs
  · next hs => rw [hr] at hs; cases hs

theorem run_stop (hr : I.ruling s = .stop t) :
    I.run s = { verdict := .close t, rest := s } := by
  rw [run]
  split
  · next hs => rw [hr] at hs; cases hs
  · next hs => rw [hr] at hs; cases hs; rfl
  · next hs => rw [hr] at hs; cases hs

theorem run_pass (hr : I.ruling s = .pass p n) : I.run s = (I.run (s.drop n)).after [p] := by
  rw [run]
  split
  · next hs => rw [hr] at hs; cases hs
  · next hs => rw [hr] at hs; cases hs
  · next hs => rw [hr] at hs; cases hs; rfl

/-- A fact about streams and what they lead to holds of all if it holds where a stream is waited
for or stopped, and behind an item. -/
theorem run_induction {motive : Bytes → Interpretation φ → Prop}
    (wait : ∀ s, I.ruling s = .wait → motive s { rest := s })
    (stop : ∀ s t, I.ruling s = .stop t → motive s { verdict := .close t, rest := s })
    (pass : ∀ s p n, I.ruling s = .pass p n → motive (s.drop n) (I.run (s.drop n)) →
      motive s ((I.run (s.drop n)).after [p])) (s : Bytes) : motive s (I.run s) := by
  induction hn : s.length using Nat.strongRecOn generalizing s with
  | ind n ih =>
      cases hr : I.ruling s with
      | wait =>
          rw [run_wait hr]
          exact wait s hr
      | stop t =>
          rw [run_stop hr]
          exact stop s t hr
      | pass p k =>
          have hk := I.inside hr
          rw [run_pass hr]
          exact pass s p k hr (ih (s.drop k).length (by rw [List.length_drop]; omega) _ rfl)

/-- What is passed of a stream is passed if more bytes follow it. -/
theorem ruling_append_pass (y : Bytes) (hr : I.ruling x = .pass p n) :
    I.ruling (x ++ y) = .pass p n := by
  rw [I.append y (by rw [hr]; intro h; cases h), hr]

/-- A stream that goes on can be interpreted up to where it waits, and on from there. -/
theorem run_append (y : Bytes) (hx : (I.run x).verdict = .continue) :
    I.run (x ++ y) = (I.run ((I.run x).rest ++ y)).after (I.run x).items := by
  refine run_induction (motive := fun x i => i.verdict = .continue →
    I.run (x ++ y) = (I.run (i.rest ++ y)).after i.items) ?_ ?_ ?_ x hx
  · intro x hr _
    rfl
  · intro x t hr hx
    cases hx
  · intro x p n hr ih hx
    rw [run_pass (ruling_append_pass y hr), List.drop_append_of_le_length (I.inside hr).2, ih hx]
    rfl

/-- Nothing counts behind the place where an interpretation stops. -/
theorem run_stopped (y : Bytes) (hx : (I.run x).verdict = .close t) :
    (I.run (x ++ y)).items = (I.run x).items ∧ (I.run (x ++ y)).verdict = .close t := by
  refine run_induction (motive := fun x i => i.verdict = .close t →
    (I.run (x ++ y)).items = i.items ∧ (I.run (x ++ y)).verdict = .close t) ?_ ?_ ?_ x hx
  · intro x hr hx
    cases hx
  · intro x u hr hx
    have hr' : I.ruling (x ++ y) = .stop u := by
      rw [I.append y (by rw [hr]; intro h; cases h), hr]
    rw [run_stop hr']
    exact ⟨rfl, hx⟩
  · intro x p n hr ih hx
    obtain ⟨hitems, hv⟩ := ih hx
    rw [run_pass (ruling_append_pass y hr), List.drop_append_of_le_length (I.inside hr).2]
    exact ⟨congrArg ([p] ++ ·) hitems, hv⟩

/-- What is left of a stream that goes on is waited for. -/
theorem ruling_rest (hx : (I.run x).verdict = .continue) : I.ruling (I.run x).rest = .wait := by
  refine run_induction (motive := fun _ i => i.verdict = .continue → I.ruling i.rest = .wait)
    ?_ ?_ ?_ x hx
  · exact fun x hr _ => hr
  · intro x t _ hx
    cases hx
  · exact fun x p n _ ih hx => ih hx

end Interpreter

/-! ### What is done with a stream -/

/-- States that hold bytes not yet used, and a note of what the items that were used have led to. -/
structure Ledger (α φ ε : Type) where
  buffer : α → Bytes
  noted : α → ε
  /-- The note after more items. -/
  note : ε → List φ → ε
  note_nil : ∀ e, note e [] = e
  note_append : ∀ e xs ys, note e (xs ++ ys) = note (note e xs) ys

namespace Ledger

variable {α φ ε : Type} (L : Ledger α φ ε) (I : Interpreter φ) (admits : α → Bytes → Prop)

/-- The account that an interpreter gives of a stream: whether it goes on, what is noted, and what
is left of it if it goes on.  A state waits for more than its buffer holds. -/
def account : Account α (Verdict × ε × Option Bytes) where
  admits a s := admits a s ∧ I.ruling (L.buffer a) = .wait
  result a s :=
    ((I.run (L.buffer a ++ s)).verdict, L.note (L.noted a) (I.run (L.buffer a ++ s)).items,
      if (I.run (L.buffer a ++ s)).verdict = .continue then some (I.run (L.buffer a ++ s)).rest
      else none)
  view r := (r.1, L.noted r.2, if r.1 = .continue then some (L.buffer r.2) else none)
  result_nil a ha := by
    rw [List.append_nil, Interpreter.run_wait ha.2, L.note_nil]

/-- What is noted at `b` is what was noted at `a`, and then the items. -/
def Notes (a : α) (items : List φ) (b : α) : Prop :=
  L.noted b = L.note (L.noted a) items

variable {L I admits} {a b c : α} {r : Verdict × α} {piece rest : Bytes}

theorem notes_nil (h : L.noted b = L.noted a) : L.Notes a [] b := by
  rw [Notes, L.note_nil, h]

theorem Notes.trans {xs ys : List φ} (hx : L.Notes a xs b) (hy : L.Notes b ys c) :
    L.Notes a (xs ++ ys) c := by
  rw [Notes, L.note_append, ← hx, hy]

/-- What is done with a piece is explained if it is what the interpreter makes of the buffer with
the piece behind it. -/
theorem explains (hv : r.1 = (I.run (L.buffer a ++ piece)).verdict)
    (hnotes : L.Notes a (I.run (L.buffer a ++ piece)).items r.2)
    (hgo : r.1 = .continue →
      admits r.2 rest ∧ L.buffer r.2 = (I.run (L.buffer a ++ piece)).rest) :
    (L.account I admits).Explains a piece rest r := by
  obtain ⟨v, b⟩ := r
  dsimp only [Notes] at hv hnotes hgo
  cases v with
  | «continue» =>
      obtain ⟨hb, hrest⟩ := hgo rfl
      refine ⟨⟨hb, ?_⟩, ?_⟩
      · rw [hrest]
        exact Interpreter.ruling_rest hv.symm
      · show (_, _, _) = (_, _, _)
        rw [← List.append_assoc, Interpreter.run_append rest hv.symm, hrest, hnotes]
        exact congrArg (Prod.mk _) (congrArg (Prod.mk · _) (L.note_append _ _ _))
  | close t =>
      obtain ⟨hitems, hverdict⟩ := Interpreter.run_stopped rest hv.symm
      show (_, _, _) = (_, _, _)
      rw [← List.append_assoc, hverdict, hitems, hnotes]
      rfl

theorem ignores {σ : Type} {put : σ → α → α} (hadmits : ∀ s a w, admits a w → admits (put s a) w)
    (hbuffer : ∀ s a, L.buffer (put s a) = L.buffer a)
    (hnoted : ∀ s a, L.noted (put s a) = L.noted a) : (L.account I admits).Ignores put where
  admits s a w h := ⟨hadmits s a w h.1, by rw [hbuffer]; exact h.2⟩
  result s a w := by
    show (_, _, _) = (_, _, _)
    rw [hbuffer, hnoted]
  view s v a := by
    show (_, _, _) = (_, _, _)
    rw [hbuffer, hnoted]

/-! ### Loops -/

variable {β : Type} {step : α → Step α β} {finish : β → Verdict × α} {ready good : α → Prop}

variable (L I step finish ready good) in
/-- A loop's step does with the front of the buffer what the interpreter says.  `finish` is what
becomes of the loop's result; the loop needs states that are `ready`, and leaves one that is `good`
if the stream goes on. -/
structure Performs : Prop where
  wait : ∀ a, ready a → I.ruling (L.buffer a) = .wait → ∃ result, step a = .done result ∧
    (finish result).1 = .continue ∧ L.noted (finish result).2 = L.noted a ∧
    good (finish result).2 ∧ L.buffer (finish result).2 = L.buffer a
  stop : ∀ a t, ready a → I.ruling (L.buffer a) = .stop t → ∃ result, step a = .done result ∧
    (finish result).1 = .close t ∧ L.noted (finish result).2 = L.noted a
  pass : ∀ a p n, ready a → I.ruling (L.buffer a) = .pass p n → ∃ b, step a = .again b ∧
    ready b ∧ L.Notes a [p] b ∧ L.buffer b = (L.buffer a).drop n

variable {measure : α → Nat}

/-- A loop that does with the front of the buffer what the interpreter says does with the whole
buffer what the interpreter makes of it. -/
theorem Performs.run (h : L.Performs I step finish ready good)
    (descends : ∀ a b, step a = .again b → measure b < measure a) (ha : ready a) :
    (finish (Loop.run measure step descends a)).1 = (I.run (L.buffer a)).verdict ∧
      L.Notes a (I.run (L.buffer a)).items (finish (Loop.run measure step descends a)).2 ∧
      ((finish (Loop.run measure step descends a)).1 = .continue →
        good (finish (Loop.run measure step descends a)).2 ∧
        L.buffer (finish (Loop.run measure step descends a)).2 = (I.run (L.buffer a)).rest) := by
  refine Interpreter.run_induction (motive := fun s i => ∀ a, ready a → L.buffer a = s →
    (finish (Loop.run measure step descends a)).1 = i.verdict ∧
      L.Notes a i.items (finish (Loop.run measure step descends a)).2 ∧
      ((finish (Loop.run measure step descends a)).1 = .continue →
        good (finish (Loop.run measure step descends a)).2 ∧
        L.buffer (finish (Loop.run measure step descends a)).2 = i.rest))
    ?_ ?_ ?_ (L.buffer a) a ha rfl
  · rintro s hr a ha rfl
    obtain ⟨result, hstep, hgo, hnoted, hgood, hbuffer⟩ := h.wait a ha hr
    rw [Loop.run_done hstep]
    exact ⟨hgo, notes_nil hnoted, fun _ => ⟨hgood, hbuffer⟩⟩
  · rintro s t hr a ha rfl
    obtain ⟨result, hstep, hclose, hnoted⟩ := h.stop a t ha hr
    rw [Loop.run_done hstep]
    refine ⟨hclose, notes_nil hnoted, fun hgo => ?_⟩
    rw [hclose] at hgo
    cases hgo
  · rintro s p n hr ih a ha rfl
    obtain ⟨b, hstep, hb, hnotes, hbuffer⟩ := h.pass a p n ha hr
    obtain ⟨hv, hrest, hgo⟩ := ih b hb hbuffer
    rw [Loop.run_again hstep]
    exact ⟨hv, hnotes.trans hrest, hgo⟩

end Ledger

end WsRelay
