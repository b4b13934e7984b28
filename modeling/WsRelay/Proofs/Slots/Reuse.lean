import Mathlib.Data.List.Count
import Mathlib.Data.List.Induction
import Mathlib.Data.List.Infix
import Mathlib.Order.Bounds.Basic
import WsRelay.Proofs.Slots.Ledger
/-! # How many slots there are

A slot that fell vacant is used again before a new one is made.  So one use makes slots as many as
values only if there were no more slots than that before (`capacity_perform_eq`), and in the course
of a history there come to be as many slots as there were values at the fullest time
(`isGreatest_capacity`).

For this it does not matter how often a slot is vacated: slots stay `Tidy` when generations start
over, and it is only that there are fewer of them than 2^32. -/

namespace WsRelay.Slots

variable {α : Type} {s : Slots α}

/-! ### One use -/

/-- Every use keeps slots tidy. -/
theorem Tidy.perform (hs : Tidy s) (hcap : s.capacity < 2 ^ 32) (use : Use α) :
    Tidy (s.perform use).2 := by
  cases use with
  | add make => exact (hs.adds hcap make).tidy hs
  | get id => exact hs
  | modify id f => exact hs.modify id f
  | remove id =>
      show Tidy (s.remove id).2
      cases hget : s.get? id with
      | none =>
          rw [remove_none hget]
          exact hs
      | some value => exact hs.remove hget

/-- There are no more values than slots. -/
theorem Tidy.size_le (hs : Tidy s) : s.size ≤ s.capacity := by
  rw [hs.size]
  exact List.countP_le_length

theorem capacity_perform_le (hs : Tidy s) (hcap : s.capacity < 2 ^ 32) (use : Use α) :
    (s.perform use).2.capacity ≤ max s.capacity (s.perform use).2.size := by
  cases use with
  | add make => exact (hs.adds hcap make).capacity_le
  | get id => exact Nat.le_max_left _ _
  | modify id f =>
      show (s.modify id f).capacity ≤ _
      rw [capacity_modify]
      exact Nat.le_max_left _ _
  | remove id =>
      show (s.remove id).2.capacity ≤ _
      rw [capacity_remove]
      exact Nat.le_max_left _ _

/-- After a use there are as many slots as before, or as many as there are values, whichever is
more. -/
theorem capacity_perform_eq (hs : Tidy s) (hcap : s.capacity < 2 ^ 32) (use : Use α) :
    (s.perform use).2.capacity = max s.capacity (s.perform use).2.size :=
  Nat.le_antisymm (capacity_perform_le hs hcap use)
    (Nat.max_le.mpr ⟨capacity_perform use s, (hs.perform hcap use).size_le⟩)

/-- A slot is vacant if it holds no value, and one that is vacant is to be used again. -/
theorem Tidy.vacant_ne_nil (hs : Tidy s) (hcap : s.capacity < 2 ^ 32)
    (hvacant : ∃ slot ∈ s.slots, slot.value = none) : s.vacant ≠ [] := by
  intro hnil
  obtain ⟨slot, hslot, hnone⟩ := hvacant
  have hlt : s.slots.countP (·.value.isSome) < s.slots.length :=
    List.countP_lt_length_iff.mpr ⟨slot, hslot, by simp [hnone]⟩
  have hfull := hs.capacity_eq hnil hcap
  rw [hs.size] at hfull
  exact absurd hfull (Nat.ne_of_gt hlt)

/-- **A vacant slot is used again.**  The next value takes a slot that holds none, and no slot is
added. -/
theorem Tidy.add_vacant (hs : Tidy s) (hcap : s.capacity < 2 ^ 32)
    (hvacant : ∃ slot ∈ s.slots, slot.value = none) (make : SlotId → α) :
    (s.add make).2.capacity = s.capacity ∧
      ∀ id, (s.get? id).isSome → id.index ≠ (s.add make).1.index := by
  have hadds := hs.adds hcap make
  constructor
  · obtain ⟨index, rest, hrest⟩ := List.exists_cons_of_ne_nil (hs.vacant_ne_nil hcap hvacant)
    simp [add, claim, hrest, capacity]
  · intro id hid hindex
    rw [hadds.claims.get?_none hindex] at hid
    cases hid

/-! ### A history of uses -/

theorem run_concat (uses : List (Use α)) (use : Use α) (s : Slots α) :
    run (uses ++ [use]) s =
      ((run uses s).1 ++ [(use, (perform use (run uses s).2).1)],
        (perform use (run uses s).2).2) := by
  induction uses generalizing s with
  | nil => rfl
  | cons first uses ih =>
      have hrest := ih (perform first s).2
      simp only [List.cons_append, run, hrest]

theorem capacity_run_concat (uses : List (Use α)) (use : Use α) (s : Slots α) :
    (run uses s).2.capacity ≤ (run (uses ++ [use]) s).2.capacity := by
  rw [run_concat]
  exact capacity_perform use _

theorem run_tidy (uses : List (Use α)) (hcap : (run uses ({} : Slots α)).2.capacity < 2 ^ 32) :
    Tidy (run uses ({} : Slots α)).2 := by
  induction uses using List.reverseRecOn with
  | nil => exact tidy_empty
  | append_singleton uses use ih =>
      have hbefore := Nat.lt_of_le_of_lt (capacity_run_concat uses use {}) hcap
      rw [run_concat]
      exact (ih hbefore).perform hbefore use

/-- How many values there were at the times up to the end of a history. -/
def sizes (uses : List (Use α)) : Set Nat :=
  {n | ∃ past, past <+: uses ∧ (run past ({} : Slots α)).2.size = n}

theorem sizes_concat (uses : List (Use α)) (use : Use α) :
    sizes (uses ++ [use]) = insert (run (uses ++ [use]) ({} : Slots α)).2.size (sizes uses) := by
  ext n
  simp only [sizes, Set.mem_ofPred_eq, Set.mem_insert_iff, List.prefix_concat_iff]
  constructor
  · rintro ⟨past, rfl | hpast, rfl⟩
    · exact .inl rfl
    · exact .inr ⟨past, hpast, rfl⟩
  · rintro (rfl | ⟨past, hpast, rfl⟩)
    · exact ⟨_, .inl rfl, rfl⟩
    · exact ⟨past, .inr hpast, rfl⟩

/-- There are as many slots as there were values at the fullest time. -/
theorem isGreatest_capacity (uses : List (Use α))
    (hcap : (run uses ({} : Slots α)).2.capacity < 2 ^ 32) :
    IsGreatest (sizes uses) (run uses ({} : Slots α)).2.capacity := by
  induction uses using List.reverseRecOn with
  | nil =>
      refine ⟨⟨[], List.prefix_rfl, rfl⟩, ?_⟩
      rintro n ⟨past, hpast, rfl⟩
      rw [List.prefix_nil.mp hpast]
      exact Nat.le_refl _
  | append_singleton uses use ih =>
      have hbefore := Nat.lt_of_le_of_lt (capacity_run_concat uses use {}) hcap
      have hgreatest := (ih hbefore).insert (run (uses ++ [use]) ({} : Slots α)).2.size
      rw [sizes_concat]
      rw [run_concat] at hgreatest ⊢
      rw [capacity_perform_eq (run_tidy uses hbefore) hbefore use, max_comm]
      exact hgreatest

/-- Every identifier that was issued is of one of the slots. -/
theorem index_lt_of_issued (uses : List (Use α))
    (hcap : (run uses ({} : Slots α)).2.capacity < 2 ^ 32) {use : Use α} {id : SlotId}
    (hissued : (use, .issued id) ∈ (run uses ({} : Slots α)).1) :
    id.index.toNat < (run uses ({} : Slots α)).2.capacity := by
  induction uses using List.reverseRecOn with
  | nil => cases hissued
  | append_singleton uses last ih =>
      have hle := capacity_run_concat uses last ({} : Slots α)
      have hbefore := Nat.lt_of_le_of_lt hle hcap
      rw [run_concat, List.mem_append, List.mem_singleton] at hissued
      rcases hissued with hearlier | hnow
      · exact Nat.lt_of_lt_of_le (ih hbefore hearlier) hle
      · obtain ⟨rfl, hanswer⟩ := Prod.mk.inj hnow
        rw [run_concat]
        cases use with
        | add make =>
            cases hanswer
            have hslot := ((run_tidy uses hbefore).adds hbefore make).puts.self
            exact (List.getElem?_eq_some_iff.mp hslot).1
        | get _ => cases hanswer
        | modify _ _ => cases hanswer
        | remove _ => cases hanswer

/-- **Slots are used again before there are more of them.**  Whatever is done with slots, with
identifiers of values, with those of earlier values and with made-up ones, as long as there are
fewer slots than 2^32: there are as many of them as there were values at the fullest time, never
fewer than there are values, and every identifier that was issued is of one of them.  While one of
them is vacant, the next value takes a slot in which there is none, and no slot is added. -/
theorem run_reuses (uses : List (Use α))
    (hcap : (run uses ({} : Slots α)).2.capacity < 2 ^ 32) :
    let (log, s) := run uses ({} : Slots α)
    IsGreatest {n | ∃ past, past <+: uses ∧ (run past ({} : Slots α)).2.size = n} s.capacity ∧
      s.size ≤ s.capacity ∧
      (∀ use id, (use, .issued id) ∈ log → id.index.toNat < s.capacity) ∧
      ((∃ slot ∈ s.slots, slot.value = none) → ∀ make,
        (s.add make).2.capacity = s.capacity ∧
          ∀ id, (s.get? id).isSome → id.index ≠ (s.add make).1.index) := by
  have htidy := run_tidy uses hcap
  refine ⟨isGreatest_capacity uses hcap, htidy.size_le, ?_, ?_⟩
  · intro use id hissued
    exact index_lt_of_issued uses hcap hissued
  · intro hvacant make
    exact htidy.add_vacant hcap hvacant make

/-- Three values, of which two are taken out, one of them twice; an identifier that was never issued
takes out nothing.  The slot that fell vacant last is used again, and the other one would be
next. -/
theorem run_reuses_vacated :
    let uses : List (Use Nat) := [.add fun _ => 1, .add fun _ => 2, .add fun _ => 3,
      .remove ⟨1, 0⟩, .remove ⟨0, 0⟩, .remove ⟨1, 0⟩, .remove ⟨2, 9⟩, .modify ⟨7, 0⟩ (· + 1),
      .add fun _ => 4]
    let (log, s) := run uses ({} : Slots Nat)
    s.capacity < 2 ^ 32 ∧ s.size = 2 ∧ s.ids = [⟨0, 1⟩, ⟨2, 0⟩] ∧
      IsGreatest {n | ∃ past, past <+: uses ∧ (run past ({} : Slots Nat)).2.size = n} 3 ∧
      (∀ use id, (use, .issued id) ∈ log → id.index.toNat < 3) ∧
      ∀ make, (s.add make).2.capacity = 3 ∧
        ∀ id, (s.get? id).isSome → id.index ≠ (s.add make).1.index := by
  intro uses
  obtain ⟨hgreatest, -, hissued, hvacant⟩ := run_reuses uses (by decide)
  exact ⟨by decide, by decide, by decide, hgreatest, hissued, hvacant ⟨⟨1, none⟩, by decide, rfl⟩⟩

end WsRelay.Slots
