import WsRelay.Connection.Basic
import WsRelay.Loop
/-! # Streams that arrive in pieces

A `Reader` takes in a piece of a stream and either goes on, in a new state, or closes.  A stream
can be cut into pieces in many ways, and what becomes of it should not depend on the cuts.

An `Account` says what a stream comes to without looking at the cuts: `result a s` is what the
stream `s` leads to from the state `a`.  A reader keeps to an account if one piece taken in is one
step along it (`Account.Explains`); pieces taken in one after the other are then explained by the
account of their concatenation (`Account.explains_takeAll`).  The same holds of a loop that reads
what waits at a socket as its buffer has room (`Drains.explains_run`, `Drains.explains_reader`).

Where no account is known beforehand, the stream taken in byte by byte is one
(`Account.byteByByte`), provided that two pieces at once do what they do one after the other. -/

namespace WsRelay

/-- Takes in a piece of a stream: whether to go on, and the state after it. -/
abbrev Reader (α : Type) := Bytes → α → Verdict × α

namespace Reader

variable {α : Type} (read : Reader α)

/-- Takes in pieces one after the other, until one of them closes. -/
def takeAll : List Bytes → α → Verdict × α
  | [], a => (.continue, a)
  | piece :: pieces, a =>
    match read piece a with
    | (.continue, b) => takeAll pieces b
    | (.close termination, b) => (.close termination, b)

variable {read}

theorem takeAll_continue {piece : Bytes} {pieces : List Bytes} {a b : α}
    (h : read piece a = (.continue, b)) :
    read.takeAll (piece :: pieces) a = read.takeAll pieces b := by
  rw [takeAll, h]

theorem takeAll_close {piece : Bytes} {pieces : List Bytes} {a b : α} {t : Termination}
    (h : read piece a = (.close t, b)) :
    read.takeAll (piece :: pieces) a = (.close t, b) := by
  rw [takeAll, h]

/-- A reader that takes no notice of what `f` changes, and keeps it, does so piece after piece. -/
theorem takeAll_map (f : α → α)
    (h : ∀ piece a, read piece (f a) = ((read piece a).1, f (read piece a).2)) (pieces : List Bytes)
    (a : α) :
    read.takeAll pieces (f a) = ((read.takeAll pieces a).1, f (read.takeAll pieces a).2) := by
  induction pieces generalizing a with
  | nil => rfl
  | cons x xs ih =>
      have hx := h x a
      cases hr : read x a with
      | mk verdict b =>
          rw [hr] at hx
          cases verdict with
          | «continue» => rw [takeAll_continue hr, takeAll_continue hx, ih]
          | close t => rw [takeAll_close hr, takeAll_close hx]

end Reader

/-! ### Accounts -/

/-- What a stream comes to, said without regard to how it is cut. -/
structure Account (α ρ : Type) where
  /-- The states the account is about, with what is still to come. -/
  admits : α → Bytes → Prop
  /-- What the bytes to come lead to. -/
  result : α → Bytes → ρ
  /-- What is looked at when no more is taken in. -/
  view : Verdict × α → ρ
  result_nil : ∀ a, admits a [] → result a [] = view (.continue, a)

namespace Account

variable {α ρ : Type} (A : Account α ρ)

/-- The state after a piece is one step along the account: what has been taken in and what is
still to come, together, lead to what the rest leads to from there. -/
def Explains (a : α) (piece rest : Bytes) : Verdict × α → Prop
  | (.continue, b) => A.admits b rest ∧ A.result a (piece ++ rest) = A.result b rest
  | (.close t, b) => A.result a (piece ++ rest) = A.view (.close t, b)

variable {A}

theorem Explains.view_eq {a : α} {piece : Bytes} {r : Verdict × α} (h : A.Explains a piece [] r) :
    A.view r = A.result a piece := by
  obtain ⟨verdict, b⟩ := r
  cases verdict with
  | «continue» =>
      obtain ⟨hb, hr⟩ := h
      rw [List.append_nil, A.result_nil b hb] at hr
      exact hr.symm
  | close t =>
      rw [Explains, List.append_nil] at h
      exact h.symm

/-- Pieces taken in one after the other are explained as one. -/
theorem Explains.trans {a b : α} {x y rest : Bytes} {r : Verdict × α}
    (hx : A.result a (x ++ (y ++ rest)) = A.result b (y ++ rest)) (hy : A.Explains b y rest r) :
    A.Explains a (x ++ y) rest r := by
  obtain ⟨verdict, d⟩ := r
  cases verdict with
  | «continue» => exact ⟨hy.1, by rw [List.append_assoc, hx, hy.2]⟩
  | close t =>
      show A.result a (x ++ y ++ rest) = _
      rw [List.append_assoc, hx]
      exact hy

/-- **Cuts do not matter** to a reader that keeps to an account: the pieces lead to what their
concatenation leads to. -/
theorem explains_takeAll {read : Reader α}
    (h : ∀ a piece rest, A.admits a (piece ++ rest) → A.Explains a piece rest (read piece a))
    (pieces : List Bytes) (rest : Bytes) :
    ∀ a, A.admits a (pieces.flatten ++ rest) →
      A.Explains a pieces.flatten rest (read.takeAll pieces a) := by
  induction pieces with
  | nil => exact fun a ha => ⟨ha, rfl⟩
  | cons x xs ih =>
      intro a ha
      rw [List.flatten_cons, List.append_assoc] at ha
      have hx := h a x (xs.flatten ++ rest) ha
      rw [List.flatten_cons]
      cases hr : read x a with
      | mk verdict b =>
          rw [hr] at hx
          cases verdict with
          | «continue» =>
              rw [Reader.takeAll_continue hr]
              exact Explains.trans hx.2 (ih b hx.1)
          | close t =>
              rw [Reader.takeAll_close hr]
              show A.result a (x ++ xs.flatten ++ rest) = _
              rw [List.append_assoc]
              exact hx

/-- The account, of states of which something more is known. -/
def restrict (A : Account α ρ) (holds : α → Prop) : Account α ρ where
  admits a s := A.admits a s ∧ holds a
  result := A.result
  view := A.view
  result_nil a h := A.result_nil a h.1

/-- The account does not look at what `put` changes. -/
structure Ignores {σ : Type} (A : Account α ρ) (put : σ → α → α) : Prop where
  admits : ∀ s a w, A.admits a w → A.admits (put s a) w
  result : ∀ s a w, A.result (put s a) w = A.result a w
  view : ∀ s v a, A.view (v, put s a) = A.view (v, a)

theorem Ignores.explains {σ : Type} {put : σ → α → α} (hi : A.Ignores put) {a b : α} {s t : σ}
    {piece rest : Bytes} {v : Verdict} (h : A.Explains (put s a) piece rest (v, b)) :
    A.Explains a piece rest (v, put t b) := by
  cases v with
  | «continue» => exact ⟨hi.admits t b _ h.1, by rw [← hi.result s, h.2, hi.result]⟩
  | close =>
      show A.result a (piece ++ rest) = A.view _
      rw [← hi.result s, hi.view]
      exact h

/-! ### Byte by byte -/

/-- The account of a stream that is taken in byte by byte. -/
def byteByByte (read : Reader α) (admits : α → Bytes → Prop) (view : Verdict × α → ρ) :
    Account α ρ where
  admits := admits
  result a s := view (read.takeAll (s.map fun b => [b]) a)
  view := view
  result_nil _ _ := rfl

theorem ignores_byteByByte {σ : Type} {put : σ → α → α} {read : Reader α}
    {admits : α → Bytes → Prop} {view : Verdict × α → ρ}
    (hread : ∀ s piece a, read piece (put s a) = ((read piece a).1, put s (read piece a).2))
    (hadmits : ∀ s a w, admits a w → admits (put s a) w)
    (hview : ∀ s v a, view (v, put s a) = view (v, a)) :
    (byteByByte read admits view).Ignores put where
  admits := hadmits
  result s a w := by
    show view (read.takeAll _ (put s a)) = view (read.takeAll _ a)
    rw [Reader.takeAll_map (put s) (hread s), hview]
  view := hview

/-- Taking in `x ++ y`, compared to taking in `x`: after `x` the reader goes on with `y`, or closes
in the same way. -/
def Splits (read : Reader α) (view : Verdict × α → ρ) (a : α) (x y : Bytes) :
    Verdict × α → Prop
  | (.continue, b) => read (x ++ y) a = read y b
  | (.close t, b) => ∃ d, read (x ++ y) a = (.close t, d) ∧ view (.close t, d) = view (.close t, b)

/-- A reader keeps to the account of its stream taken in byte by byte if the first byte can be
taken in before the others. -/
theorem explains_byteByByte {read : Reader α} {admits : α → Bytes → Prop} {view : Verdict × α → ρ}
    {room : α → Nat}
    (hnext : ∀ a x rest b, admits a (x :: rest) → read [x] a = (.continue, b) →
      admits b rest ∧ room a ≤ room b + 1)
    (hsplit : ∀ a x y, y ≠ [] → (x :: y).length ≤ room a → Splits read view a [x] y (read [x] a))
    (rest : Bytes) :
    ∀ (piece : Bytes) (a : α), piece ≠ [] → piece.length ≤ room a → admits a (piece ++ rest) →
      (byteByByte read admits view).Explains a piece rest (read piece a)
  | [], _, h, _, _ => absurd rfl h
  | [x], a, _, _, ha => by
      cases hr : read [x] a with
      | mk verdict b =>
          cases verdict with
          | «continue» =>
              refine ⟨(hnext a x rest b ha hr).1, ?_⟩
              show view (read.takeAll ([x] :: _) a) = _
              rw [Reader.takeAll_continue hr]
              rfl
          | close t =>
              show view (read.takeAll ([x] :: _) a) = _
              rw [Reader.takeAll_close hr]
              rfl
  | x :: x' :: y, a, _, hlen, ha => by
      have hs := hsplit a x (x' :: y) (List.cons_ne_nil _ _) hlen
      cases hr : read [x] a with
      | mk verdict b =>
          rw [hr] at hs
          cases verdict with
          | «continue» =>
              have hs : read (x :: x' :: y) a = read (x' :: y) b := hs
              obtain ⟨hb, hroom⟩ := hnext a x _ b ha hr
              have ih := explains_byteByByte hnext hsplit rest (x' :: y) b (List.cons_ne_nil _ _)
                (by simp only [List.length_cons] at hlen ⊢; omega) hb
              rw [hs]
              refine Explains.trans (x := [x]) ?_ ih
              show view (read.takeAll ([x] :: _) a) = _
              rw [Reader.takeAll_continue hr]
              rfl
          | close t =>
              obtain ⟨d, hd, hv⟩ := hs
              have hd : read (x :: x' :: y) a = (.close t, d) := hd
              rw [hd]
              show view (read.takeAll ([x] :: _) a) = view (.close t, d)
              rw [Reader.takeAll_close hr, hv]

end Account

/-! ### Loops that read from a socket -/

theorem Outcome.eq_continue {o : Outcome} (h : o.verdict = .continue) : o = .ok .continue := by
  match o, h with
  | .ok .continue, _ => rfl

/-- A reader that says why it closes. -/
abbrev Digest (α : Type) := Bytes → α → Outcome × α

/-- The reader that a digest is when the reasons are left out. -/
def Digest.reader {α : Type} (digest : Digest α) : Reader α :=
  fun piece a => ((digest piece a).1.verdict, (digest piece a).2)

/-- A loop's step reads what waits at a source, as much of it as the state has room for, and
digests it; it is done when nothing waits or the digest closes. -/
structure Drains {σ α : Type} (source : Bytes → σ) (room : α → Nat) (digest : Digest α)
    (step : σ × α → Step (σ × α) (Outcome × σ × α)) : Prop where
  idle : ∀ a, 0 < room a → step (source [], a) = .done (.ok .continue, source [], a)
  reads : ∀ a w, w ≠ [] → 0 < room a → step (source w, a) =
    match digest (w.take (room a)) a with
    | (.ok .continue, b) => .again (source (w.drop (room a)), b)
    | (outcome, b) => .done (outcome, source (w.drop (room a)), b)

namespace Drains

variable {σ α ρ : Type} {source : Bytes → σ} {room : α → Nat} {digest : Digest α}
  {step : σ × α → Step (σ × α) (Outcome × σ × α)} {measure : σ × α → Nat}

/-- What waits is explained if every digest that there is room for is.  If the loop is not to be
closed, nothing waits any more. -/
theorem explains_run (hs : Drains source room digest step)
    (descends : ∀ a b, step a = .again b → measure b < measure a) (A : Account α ρ)
    (hroom : ∀ a s, A.admits a s → 0 < room a)
    (hd : ∀ a piece rest, piece ≠ [] → piece.length ≤ room a → A.admits a (piece ++ rest) →
      A.Explains a piece rest (digest.reader piece a)) (rest : Bytes) :
    ∀ (w : Bytes) (a : α), A.admits a (w ++ rest) →
      ∃ o w' b, Loop.run measure step descends (source w, a) = (o, source w', b) ∧
        A.Explains a w rest (o.verdict, b) ∧ (o = .ok .continue → w' = []) := by
  intro w
  induction hn : w.length using Nat.strongRecOn generalizing w with
  | ind n ih =>
      intro a ha
      have hpos := hroom a _ ha
      by_cases hw : w = []
      · subst hw
        exact ⟨_, [], a, Loop.run_done (hs.idle a hpos), ⟨ha, rfl⟩, fun _ => rfl⟩
      · have hlen : 0 < w.length := List.length_pos_iff.mpr hw
        have hne : w.take (room a) ≠ [] := by
          intro h0
          have := congrArg List.length h0
          rw [List.length_take, List.length_nil] at this
          omega
        have hex := hd a (w.take (room a)) (w.drop (room a) ++ rest) hne (List.length_take_le _ _)
          (by rw [← List.append_assoc, List.take_append_drop]; exact ha)
        have hstep := hs.reads a w hw hpos
        have hre : A.result a (w ++ rest) =
            A.result a (w.take (room a) ++ (w.drop (room a) ++ rest)) := by
          rw [← List.append_assoc, List.take_append_drop]
        rcases hdig : digest (w.take (room a)) a with ⟨o, b⟩
        rw [hdig] at hstep
        simp only [Digest.reader, hdig] at hex
        match o, hstep, hex with
        | .ok .continue, hstep, hex =>
            obtain ⟨o, w', d, hrun, hd', hw'⟩ :=
              ih (w.drop (room a)).length (by rw [List.length_drop]; omega) _ rfl b hex.1
            refine ⟨o, w', d, (Loop.run_again hstep).trans hrun, ?_, hw'⟩
            have := Account.Explains.trans hex.2 hd'
            rwa [List.take_append_drop] at this
        | .ok (.close t), hstep, hex =>
            exact ⟨_, _, b, Loop.run_done hstep, hre.trans hex, fun h => by cases h⟩
        | .error e, hstep, hex =>
            exact ⟨_, _, b, Loop.run_done hstep, hre.trans hex, fun h => by cases h⟩

/-- A reader that puts what arrives at its source and lets the loop run is explained by an account
that explains every digest there is room for, if the account does not look at the source. -/
theorem explains_reader (hs : Drains source room digest step)
    (descends : ∀ a b, step a = .again b → measure b < measure a) {A : Account α ρ}
    {put : σ → α → α} (hi : A.Ignores put) {reader : Reader α} (idle : α → Prop)
    (hreader : ∀ bytes a, idle a → reader bytes a =
      ((Loop.run measure step descends (source bytes, put (source bytes) a)).1.verdict,
        put (Loop.run measure step descends (source bytes, put (source bytes) a)).2.1
          (Loop.run measure step descends (source bytes, put (source bytes) a)).2.2))
    (hidle : ∀ a, idle (put (source []) a)) (hroom : ∀ a s, A.admits a s → 0 < room a)
    (hd : ∀ a piece rest, piece ≠ [] → piece.length ≤ room a → A.admits a (piece ++ rest) →
      A.Explains a piece rest (digest.reader piece a))
    (a : α) (bytes rest : Bytes) (h : (A.restrict idle).admits a (bytes ++ rest)) :
    (A.restrict idle).Explains a bytes rest (reader bytes a) := by
  obtain ⟨o, w, b, hrun, hex, hw⟩ := hs.explains_run descends A hroom hd rest bytes
    (put (source bytes) a) (hi.admits _ _ _ h.1)
  rw [hreader bytes a h.2, hrun]
  have hput := hi.explains (t := source w) hex
  cases hv : o.verdict with
  | «continue» =>
      rw [hv] at hput
      refine ⟨⟨hput.1, ?_⟩, hput.2⟩
      rw [hw (Outcome.eq_continue hv)]
      exact hidle b
  | close t =>
      rw [hv] at hput
      exact hput

end Drains

end WsRelay
