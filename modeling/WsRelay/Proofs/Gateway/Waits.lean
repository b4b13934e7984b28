import Mathlib.Data.List.Nodup
import WsRelay.Gateway
/-! # The names of waits

A connection knows the name of the wait for each of its sockets, and the gateway keeps the waits
themselves.  The two are `Linked`: the waits that are pending are exactly those whose names the
registered connections know.  Names are given out once, so a wait is over, begun or called off
without disturbing any other, and there is one wait pending for a side whose wait is known
(`Linked.countP_pending`). -/

namespace WsRelay.Gateway

/-- The waits that are not over, those that were called off left out, are the waits that are known
to some connection; `watchOf` gives the name that a connection knows for the wait of a side. -/
structure Linked (waits : List Wait) (aborted : List Watch) (next : Watch)
    (watchOf : SlotId → Side → Option Watch) : Prop where
  waits_lt : ∀ wait ∈ waits, wait.watch < next
  waits_nodup : (waits.map (·.watch)).Nodup
  aborted_lt : ∀ watch ∈ aborted, watch < next
  known_iff : ∀ wait, watchOf wait.id wait.side = some wait.watch ↔
    wait ∈ waits ∧ wait.watch ∉ aborted

namespace Linked

variable {waits : List Wait} {aborted : List Watch} {next : Watch}
  {watchOf : SlotId → Side → Option Watch}

theorem start : Linked [] [] 0 fun _ _ => none where
  waits_lt := List.forall_mem_nil _
  waits_nodup := List.nodup_nil
  aborted_lt := List.forall_mem_nil _
  known_iff _ := ⟨nofun, fun h => absurd h.1 List.not_mem_nil⟩

/-- A name stands for one wait. -/
theorem eq_of_watch (h : Linked waits aborted next watchOf) {wait other : Wait}
    (hwait : wait ∈ waits) (hother : other ∈ waits) (heq : wait.watch = other.watch) :
    wait = other :=
  List.inj_on_of_nodup_map h.waits_nodup hwait hother heq

/-- A name is known at one place. -/
theorem known_unique (h : Linked waits aborted next watchOf) {id other : SlotId}
    {side side' : Side} {watch : Watch} (hid : watchOf id side = some watch)
    (hother : watchOf other side' = some watch) : other = id ∧ side' = side := by
  have heq := h.eq_of_watch ((h.known_iff ⟨watch, other, side'⟩).mp hother).1
    ((h.known_iff ⟨watch, id, side⟩).mp hid).1 rfl
  exact ⟨congrArg Wait.id heq, congrArg Wait.side heq⟩

/-- The wait of a name that is known is found by it. -/
theorem find?_eq (h : Linked waits aborted next watchOf) {id : SlotId} {side : Side}
    {watch : Watch} (hknown : watchOf id side = some watch) :
    waits.find? (·.watch == watch) = some ⟨watch, id, side⟩ := by
  have hmem := ((h.known_iff ⟨watch, id, side⟩).mp hknown).1
  cases hfind : waits.find? (·.watch == watch) with
  | none => exact absurd BEq.rfl (List.find?_eq_none.mp hfind _ hmem)
  | some found =>
      have heq : found.watch = watch := beq_iff_eq.mp (List.find?_some hfind :)
      rw [h.eq_of_watch (List.mem_of_find?_eq_some hfind) hmem heq]

theorem filter (h : Linked waits aborted next watchOf) (watch : Watch)
    {known : SlotId → Side → Option Watch}
    (hknown : ∀ id side other, known id side = some other ↔
      watchOf id side = some other ∧ other ≠ watch) :
    Linked (waits.filter (·.watch != watch)) aborted next known where
  waits_lt wait hwait := h.waits_lt wait (List.mem_of_mem_filter hwait)
  waits_nodup := h.waits_nodup.sublist (List.filter_sublist.map _)
  aborted_lt := h.aborted_lt
  known_iff wait := by
    rw [hknown, h.known_iff, List.mem_filter, bne_iff_ne, and_right_comm]

/-- A wait is over, and no longer known. -/
theorem isOver (h : Linked waits aborted next watchOf) {wait : Wait}
    (hwait : watchOf wait.id wait.side = some wait.watch) :
    Linked (waits.filter (·.watch != wait.watch)) aborted next fun id side =>
      if id = wait.id ∧ side = wait.side then none else watchOf id side := by
  refine h.filter wait.watch fun id side other => ?_
  by_cases hself : id = wait.id ∧ side = wait.side
  · rw [if_pos hself, hself.1, hself.2, hwait]
    simp [eq_comm]
  · rw [if_neg hself]
    refine ⟨fun hother => ⟨hother, fun heq => hself ?_⟩, And.left⟩
    rw [heq] at hother
    exact h.known_unique hwait hother

/-- A wait that nobody knows is over. -/
theorem unknown (h : Linked waits aborted next watchOf) {watch : Watch}
    (hwatch : ∀ id side, watchOf id side ≠ some watch) :
    Linked (waits.filter (·.watch != watch)) aborted next watchOf :=
  h.filter watch fun id side _ =>
    ⟨fun hother => ⟨hother, fun heq => hwatch id side (heq ▸ hother)⟩, And.left⟩

/-- A wait is begun where there was none. -/
theorem begin (h : Linked waits aborted next watchOf) {id : SlotId} {side : Side}
    (hnone : watchOf id side = none) :
    Linked (waits ++ [⟨next, id, side⟩]) aborted (next + 1) fun other side' =>
      if other = id ∧ side' = side then some next else watchOf other side' where
  waits_lt wait hwait := by
    rcases List.mem_append.mp hwait with hold | hnew
    · exact Nat.lt_succ_of_lt (h.waits_lt wait hold)
    · rw [List.mem_singleton.mp hnew]
      exact Nat.lt_succ_self next
  waits_nodup := by
    rw [List.map_append, List.map_singleton]
    refine h.waits_nodup.append (List.nodup_singleton _) fun watch hold hnew => ?_
    obtain ⟨wait, hwait, rfl⟩ := List.mem_map.mp hold
    exact absurd (List.mem_singleton.mp hnew) (Nat.ne_of_lt (h.waits_lt wait hwait))
  aborted_lt watch hwatch := Nat.lt_succ_of_lt (h.aborted_lt watch hwatch)
  known_iff wait := by
    have hnext : next ∉ aborted := fun hmem => Nat.lt_irrefl _ (h.aborted_lt next hmem)
    obtain ⟨watch, other, side'⟩ := wait
    dsimp only
    rw [List.mem_append, List.mem_singleton]
    by_cases hself : other = id ∧ side' = side
    · obtain ⟨rfl, rfl⟩ := hself
      rw [if_pos ⟨rfl, rfl⟩]
      have hnot : ¬ ((⟨watch, other, side'⟩ : Wait) ∈ waits ∧ watch ∉ aborted) := fun hmem => by
        rw [(h.known_iff ⟨watch, other, side'⟩).mpr hmem] at hnone
        cases hnone
      refine ⟨fun heq => ?_, fun ⟨hmem, hlive⟩ => ?_⟩
      · obtain rfl := Option.some.inj heq
        exact ⟨.inr rfl, hnext⟩
      · rcases hmem with hmem | heq
        · exact absurd ⟨hmem, hlive⟩ hnot
        · rw [(Wait.mk.inj heq).1]
    · have hne : (⟨watch, other, side'⟩ : Wait) ≠ ⟨next, id, side⟩ := fun heq => by
        obtain ⟨-, hid, hside⟩ := Wait.mk.inj heq
        exact hself ⟨hid, hside⟩
      rw [if_neg hself, or_iff_left hne]
      exact h.known_iff ⟨watch, other, side'⟩

/-- The waits that are known for an identifier are called off. -/
theorem callOff (h : Linked waits aborted next watchOf) {id : SlotId} {called : List Watch}
    (hcalled : ∀ watch, watch ∈ called ↔ ∃ side, watchOf id side = some watch) :
    Linked waits (aborted ++ called) next fun other side =>
      if other = id then none else watchOf other side where
  waits_lt := h.waits_lt
  waits_nodup := h.waits_nodup
  aborted_lt watch hwatch := by
    rcases List.mem_append.mp hwatch with hold | hnew
    · exact h.aborted_lt watch hold
    · obtain ⟨side, hside⟩ := (hcalled watch).mp hnew
      exact h.waits_lt _ ((h.known_iff ⟨watch, id, side⟩).mp hside).1
  known_iff wait := by
    rw [List.mem_append, not_or, ← and_assoc, ← h.known_iff, hcalled]
    by_cases hself : wait.id = id
    · rw [if_pos hself, ← hself]
      exact ⟨nofun, fun ⟨hknown, hnot⟩ => absurd ⟨_, hknown⟩ hnot⟩
    · rw [if_neg hself]
      refine ⟨fun hknown => ⟨hknown, fun ⟨side, hside⟩ => hself ?_⟩, And.left⟩
      exact (h.known_unique hside hknown).1

/-- One wait is pending for a side if its name is known, and none otherwise. -/
theorem countP_pending (h : Linked waits aborted next watchOf) (id : SlotId) (side : Side) :
    (waits.filter (!aborted.contains ·.watch)).countP (fun wait => wait.id = id ∧ wait.side = side) =
      if (watchOf id side).isSome then 1 else 0 := by
  have hmem (wait : Wait) : wait ∈ waits.filter (!aborted.contains ·.watch) ↔
      watchOf wait.id wait.side = some wait.watch := by
    rw [h.known_iff, List.mem_filter]
    simp
  cases hknown : watchOf id side with
  | none =>
      refine List.countP_eq_zero.mpr fun wait hwait hat => ?_
      obtain ⟨rfl, rfl⟩ := of_decide_eq_true hat
      rw [(hmem wait).mp hwait] at hknown
      cases hknown
  | some watch =>
      have hcount : (waits.filter (!aborted.contains ·.watch)).countP
            (fun wait => wait.id = id ∧ wait.side = side) =
          (waits.filter (!aborted.contains ·.watch)).count ⟨watch, id, side⟩ := by
        refine List.countP_congr fun wait hwait => ?_
        rw [decide_eq_true_iff, beq_iff_eq]
        refine ⟨fun ⟨hid, hside⟩ => ?_, fun heq => by rw [heq]; exact ⟨rfl, rfl⟩⟩
        have hwatch := (hmem wait).mp hwait
        rw [hid, hside, hknown] at hwatch
        obtain ⟨_, _, _⟩ := wait
        cases hid
        cases hside
        cases hwatch
        rfl
      rw [hcount]
      exact List.count_eq_one_of_mem (h.waits_nodup.of_map.filter _)
        ((hmem ⟨watch, id, side⟩).mpr hknown)

end Linked

end WsRelay.Gateway
