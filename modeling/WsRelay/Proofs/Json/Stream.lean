import WsRelay.Framing.Json
import WsRelay.Proofs.Framing.Cutter
import WsRelay.Proofs.Json.Scan
/-! # Streams of JSON values

On streams that consist of units, the framing by JSON values follows a cutter
(`follows_jsonValue`): it finds the byte that closes a value (`closing`), and waits for it
otherwise.  On other streams it follows none, since bytes that are no JSON are passed on as they
have arrived, and a number has no last byte of its own.

The interpreter of such a stream passes its units, and leaves the blanks behind them
(`run_units`). -/

namespace WsRelay.Json

open Framing

variable {e e' : Expect} {bs bs' : List Bracket} {x y s u : Bytes} {n : Nat}

/-- How many bytes there are up to the one that closes the value. -/
def closeFrom? : Expect → List Bracket → Bytes → Option Nat
  | _, _, [] => none
  | e, bs, b :: s =>
    match step e bs b with
    | .next e bs => (closeFrom? e bs s).map (· + 1)
    | .ends => some 1
    | .ended | .fails => none

theorem closeFrom?_inside (h : closeFrom? e bs s = some n) : 0 < n ∧ n ≤ s.length := by
  induction s generalizing e bs n with
  | nil => cases h
  | cons b s ih =>
      unfold closeFrom? at h
      rw [List.length_cons]
      split at h
      · obtain ⟨k, hk, rfl⟩ := Option.map_eq_some_iff.mp h
        have := ih hk
        omega
      · cases h
        omega
      · cases h
      · cases h

theorem closeFrom?_append (y : Bytes) (h : closeFrom? e bs x = some n) :
    closeFrom? e bs (x ++ y) = some n := by
  induction x generalizing e bs n with
  | nil => cases h
  | cons b x ih =>
      rw [List.cons_append]
      unfold closeFrom? at h ⊢
      split at h
      · obtain ⟨k, hk, rfl⟩ := Option.map_eq_some_iff.mp h
        rw [ih hk]
        rfl
      · exact h
      · cases h
      · cases h

theorem closeFrom?_beyond (hx : closeFrom? e bs x = none) (h : closeFrom? e bs (x ++ y) = some n) :
    x.length < n := by
  induction x generalizing e bs n with
  | nil => exact (closeFrom?_inside h).1
  | cons b x ih =>
      rw [List.cons_append] at h
      unfold closeFrom? at hx h
      rw [List.length_cons]
      split at h
      · next hstep =>
        obtain ⟨k, hk, rfl⟩ := Option.map_eq_some_iff.mp h
        rw [hstep] at hx
        have := ih (Option.map_eq_none_iff.mp hx) hk
        omega
      · next hstep =>
        rw [hstep] at hx
        cases hx
      · cases h
      · cases h

/-- The byte that closes the value at the front of a stream. -/
def closing : Finder where
  find := closeFrom? .value []
  inside := closeFrom?_inside
  append := closeFrom?_append
  beyond := closeFrom?_beyond

theorem closeFrom?_reads (h : Reads e bs x e' bs') (y : Bytes) :
    closeFrom? e bs (x ++ y) = (closeFrom? e' bs' y).map (· + x.length) := by
  induction h with
  | nil =>
      rw [List.nil_append]
      exact Option.map_id'.symm
  | cons hstep _ _ ih =>
      rw [List.cons_append, closeFrom?, hstep]
      dsimp only
      rw [ih, Option.map_map]
      rfl

/-- Where more is expected after every byte, nothing is closed. -/
theorem closeFrom?_eq_none (h : Reads e bs x e' bs') (hp : y <+: x) :
    closeFrom? e bs y = none := by
  induction h generalizing y with
  | nil =>
      rw [List.prefix_nil.mp hp]
      rfl
  | cons hstep _ _ ih =>
      cases y with
      | nil => rfl
      | cons b y =>
          obtain ⟨rfl, htail⟩ := List.cons_prefix_cons.mp hp
          rw [closeFrom?, hstep]
          dsimp only
          rw [ih htail]
          rfl

theorem closing_unit (h : IsUnit u) (y : Bytes) : closing.find (u ++ y) = some u.length := by
  obtain ⟨init, last, e, bs, rfl, hreads, hlast⟩ := closes_of_isUnit h
  show closeFrom? .value [] _ = _
  rw [List.append_assoc, closeFrom?_reads hreads, List.cons_append, closeFrom?, hlast]
  show some (1 + init.length) = _
  rw [List.length_append, Nat.add_comm]
  rfl

/-- The bytes begin a stream of units with blanks behind them. -/
def BeginsUnits (s : Bytes) : Prop :=
  ∃ units trailing more, (∀ u ∈ units, IsUnit u) ∧ Blanks trailing ∧
    s ++ more = List.flatten units ++ trailing

/-- The front of a stream of units is a unit, or waits to be one. -/
theorem BeginsUnits.front (h : BeginsUnits s) :
    (∃ u rest, IsUnit u ∧ BeginsUnits rest ∧ s = u ++ rest) ∨
      scan s = .incomplete ∧ closing.find s = none := by
  obtain ⟨units, trailing, more, hunits, htrailing, heq⟩ := h
  cases units with
  | nil =>
      have hblanks : Blanks s := by
        intro b hb
        refine htrailing b ?_
        rw [List.flatten_nil, List.nil_append] at heq
        rw [← heq]
        exact List.mem_append_left more hb
      exact Or.inr ⟨scan_blanks hblanks,
        closeFrom?_eq_none (reads_leading_blanks hblanks) (List.prefix_refl s)⟩
  | cons u units =>
      have hu := hunits u (List.mem_cons_self ..)
      have hmore : ∀ v ∈ units, IsUnit v := fun v hv => hunits v (List.mem_cons_of_mem u hv)
      rw [List.flatten_cons, List.append_assoc] at heq
      rcases List.append_eq_append_iff.mp heq with ⟨tail, hsplit, -⟩ | ⟨rest, hsplit, hrest⟩
      · by_cases htail : tail = []
        · rw [htail, List.append_nil] at hsplit
          exact Or.inl ⟨u, [], hu, ⟨[], [], [], by simp, by simp [Blanks], rfl⟩, by
            rw [hsplit, List.append_nil]⟩
        · have hne : s ≠ u := by
            rintro rfl
            exact htail (List.append_cancel_left (hsplit.symm.trans (List.append_nil s).symm))
          have hp : s <+: u := ⟨tail, hsplit.symm⟩
          refine Or.inr ⟨scan_incomplete hu hp hne, ?_⟩
          obtain ⟨init, last, e, bs, rfl, hreads, -⟩ := closes_of_isUnit hu
          rcases List.prefix_concat_iff.mp hp with heq | hp
          · exact absurd heq hne
          · exact closeFrom?_eq_none hreads hp
      · exact Or.inl ⟨u, rest, hu, ⟨units, trailing, more, hmore, htrailing, hrest.symm⟩, hsplit⟩

/-- The framing by JSON values follows a cutter on streams of units. -/
theorem follows_jsonValue {σ : Type} (config : String) :
    Follows (jsonValue (σ := σ)) config (fun _ => True) (closing.cutter textKind) BeginsUnits where
  empty := trivial
  answers := by
    intro data lastRead memory _ _ hdata _
    refine ⟨?_, trivial⟩
    rcases hdata.front with ⟨u, rest, hu, -, rfl⟩ | ⟨hscan, hfind⟩
    · have hfind := closing_unit hu rest
      have hpos : u.length ≠ 0 := Nat.ne_of_gt (closing.inside hfind).1
      rw [Cutter.cut_of_pos (Finder.ends_of_some textKind hfind) hpos, jsonValue, scan_unit hu]
      rfl
    · rw [Cutter.cut_of_zero (Finder.ends_of_none textKind hfind), jsonValue, hscan]
  domain_take := by
    rintro x y ⟨units, trailing, more, hunits, htrailing, heq⟩
    exact ⟨units, trailing, y ++ more, hunits, htrailing, by rw [← List.append_assoc, heq]⟩
  domain_drop := by
    intro data n hdata hends
    have hn : (closing.find data).getD 0 = n := Except.ok.inj hends
    rcases hdata.front with ⟨u, rest, hu, hrest, rfl⟩ | ⟨-, hfind⟩
    · rw [closing_unit hu, Option.getD_some] at hn
      rw [← hn, List.drop_left]
      exact hrest
    · rw [hfind, Option.getD_none] at hn
      rw [← hn, List.drop_zero]
      exact hdata

/-- A stream of units that each fit into a buffer is interpreted as these units, and blanks that do
not fill a buffer are left. -/
theorem run_units {units : List Bytes} {trailing : Bytes}
    (hunits : ∀ u ∈ units, IsUnit u ∧ u.length ≤ bufferCapacity) (htrailing : Blanks trailing)
    (hshort : trailing.length < bufferCapacity) :
    (closing.cutter textKind).interpreter.run (units.flatten ++ trailing) =
      { items := units.map fun u => ⟨textKind u, u⟩, rest := trailing } := by
  induction units with
  | nil =>
      have hfind : closing.find trailing = none :=
        closeFrom?_eq_none (reads_leading_blanks htrailing) (List.prefix_refl trailing)
      exact Interpreter.run_wait (I := (closing.cutter textKind).interpreter)
        (Cutter.ruling_of_zero (Finder.ends_of_none textKind hfind) hshort)
  | cons u units ih =>
      obtain ⟨hu, hfits⟩ := hunits u (List.mem_cons_self ..)
      have hfind := closing_unit hu []
      rw [List.append_nil] at hfind
      have hpos : u.length ≠ 0 := Nat.ne_of_gt (closing.inside hfind).1
      have hruling := Cutter.ruling_of_pos (Finder.ends_of_some textKind hfind) hpos hfits
      rw [List.take_of_length_le (Nat.le_refl _)] at hruling
      rw [List.flatten_cons, List.append_assoc,
        Interpreter.run_pass (I := (closing.cutter textKind).interpreter)
          (Interpreter.ruling_append_pass _ hruling),
        List.drop_left, ih fun v hv => hunits v (List.mem_cons_of_mem u hv)]
      rfl

end WsRelay.Json
