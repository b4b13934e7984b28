import Mathlib.Algebra.Ring.Nat
import Mathlib.Data.List.Basic
import WsRelay.Slots
/-! # Changes of slots

Adding a value, changing it and taking it out each put one slot and leave the others as they are
(`Puts`).  So each is felt by one identifier alone (`Adds.get?_other`, `get?_modify_other`,
`get?_remove_other`), and slots stay `Tidy`: those to use again are the vacant ones, each once, and
the size is the number of values.  A new slot is made only when all others hold a value, so there
are never more slots than there were values at some time (`Adds.capacity_le`).

Identifiers are listed in the order of their slots, each once, and those are listed that have a value
(`mem_ids_iff`).  All this holds as long as there are fewer slots than 32 bits can number. -/

namespace WsRelay.Slots

variable {α : Type}

/-! ### Slots one by one -/

/-- An identifier has a value if its slot is of its generation and holds it. -/
theorem get?_eq_some_iff {s : Slots α} {id : SlotId} {value : α} :
    s.get? id = some value ↔ s.slots[id.index.toNat]? = some ⟨id.generation, some value⟩ := by
  unfold get? slot?
  rcases s.slots[id.index.toNat]? with - | ⟨generation, held⟩
  · simp
  · by_cases h : generation = id.generation
    · simp [Option.filter, h]
    · simp [Option.filter, h]

theorem get?_congr {s t : Slots α} {id : SlotId}
    (h : t.slots[id.index.toNat]? = s.slots[id.index.toNat]?) : t.get? id = s.get? id := by
  unfold get? slot?
  rw [h]

/-- No identifier has its value in a slot that is vacant. -/
theorem get?_vacant {s : Slots α} {id : SlotId} {generation : UInt32}
    (h : s.slots[id.index.toNat]? = some ⟨generation, none⟩) : s.get? id = none := by
  rw [Option.eq_none_iff_forall_ne_some]
  intro value hvalue
  rw [get?_eq_some_iff, h] at hvalue
  cases hvalue

/-- Only one identifier can have its value in a slot. -/
theorem get?_sibling {s : Slots α} {id other : SlotId} {held : Option α}
    (h : s.slots[id.index.toNat]? = some ⟨id.generation, held⟩) (hindex : other.index = id.index)
    (hne : other ≠ id) : s.get? other = none := by
  rw [Option.eq_none_iff_forall_ne_some]
  intro value hvalue
  rw [get?_eq_some_iff, hindex, h] at hvalue
  have hgeneration : id.generation = other.generation :=
    congrArg Slot.generation (Option.some.inj hvalue)
  exact hne (by cases other; cases id; simp_all)

/-- The slots `t` are those of `s` but for one of them, which is `slot`. -/
def Puts (s t : Slots α) (index : UInt32) (slot : Slot α) : Prop :=
  ∀ i : Nat, t.slots[i]? = if i = index.toNat then some slot else s.slots[i]?

theorem Puts.self {s t : Slots α} {index : UInt32} {slot : Slot α} (h : Puts s t index slot) :
    t.slots[index.toNat]? = some slot := by
  rw [h, if_pos rfl]

theorem Puts.other {s t : Slots α} {index other : UInt32} {slot : Slot α}
    (h : Puts s t index slot) (hne : other ≠ index) :
    t.slots[other.toNat]? = s.slots[other.toNat]? := by
  rw [h, if_neg fun heq => hne (UInt32.toNat_inj.mp heq)]

/-- If no other identifier has its value in the slot, neither before nor after, all others keep
their values. -/
theorem Puts.get?_other {s t : Slots α} {id other : SlotId} {slot : Slot α}
    (h : Puts s t id.index slot)
    (hnone : other.index = id.index → s.get? other = none ∧ t.get? other = none) :
    t.get? other = s.get? other := by
  by_cases hindex : other.index = id.index
  · rw [(hnone hindex).1, (hnone hindex).2]
  · exact get?_congr (h.other hindex)

theorem puts_set {s : Slots α} {index : UInt32} {old : Slot α}
    (h : s.slots[index.toNat]? = some old) (slot : Slot α) (vacant : List UInt32) (size : Nat) :
    Puts s { slots := s.slots.set index.toNat slot, vacant, size } index slot := by
  intro i
  have hlt : index.toNat < s.slots.length := (List.getElem?_eq_some_iff.mp h).1
  rw [List.getElem?_set]
  by_cases hi : i = index.toNat
  · rw [if_pos hi.symm, if_pos hi, if_pos hlt]
  · rw [if_neg (Ne.symm hi), if_neg hi]

/-- How many slots hold a value once one of them is another. -/
theorem countP_set {slots : List (Slot α)} {i : Nat} {old : Slot α} (h : slots[i]? = some old)
    (slot : Slot α) :
    (slots.set i slot).countP (·.value.isSome) + (if old.value.isSome then 1 else 0) =
      slots.countP (·.value.isSome) + (if slot.value.isSome then 1 else 0) := by
  obtain ⟨hlt, rfl⟩ := List.getElem?_eq_some_iff.mp h
  rw [List.countP_set hlt]
  have hpos : slots[i].value.isSome → 0 < slots.countP (·.value.isSome) := fun hheld =>
    List.countP_pos_iff.mpr ⟨_, List.getElem_mem hlt, hheld⟩
  split
  · next hheld =>
    have := hpos hheld
    omega
  · omega

/-! ### Tidiness -/

/-- The parts of slots agree with each other. -/
structure Tidy (s : Slots α) : Prop where
  vacant_nodup : s.vacant.Nodup
  /-- The slots to use again are those that hold no value. -/
  mem_vacant : ∀ index, index ∈ s.vacant ↔
    ∃ generation, s.slots[index.toNat]? = some ⟨generation, none⟩
  size : s.size = s.slots.countP (·.value.isSome)

theorem tidy_empty : Tidy ({} : Slots α) where
  vacant_nodup := List.nodup_nil
  mem_vacant _ := ⟨fun h => absurd h List.not_mem_nil, fun ⟨_, h⟩ => nomatch h⟩
  size := rfl

variable {s t : Slots α}

/-- There is nothing to use again if every slot holds a value. -/
theorem Tidy.capacity_eq (h : Tidy s) (hvacant : s.vacant = []) (hcap : s.capacity < 2 ^ 32) :
    s.capacity = s.size := by
  rw [h.size, capacity, eq_comm, List.countP_eq_length]
  intro slot hslot
  obtain ⟨i, hi⟩ := List.mem_iff_getElem?.mp hslot
  have hlt : i < 2 ^ 32 := Nat.lt_trans (List.getElem?_eq_some_iff.mp hi).1 hcap
  rcases slot with ⟨generation, - | value⟩
  · have hmem : UInt32.ofNat i ∈ s.vacant := (h.mem_vacant _).mpr
      ⟨generation, by rw [UInt32.toNat_ofNat_of_lt' hlt]; exact hi⟩
    rw [hvacant] at hmem
    cases hmem
  · rfl

/-! ### Adding a value -/

/-- The identifier that the next value is added under. -/
def nextId (s : Slots α) : SlotId :=
  ⟨s.claim.1, (s.claim.2.slots[s.claim.1.toNat]?.map (·.generation)).getD 0⟩

theorem add_fst (s : Slots α) (make : SlotId → α) : (s.add make).1 = s.nextId := rfl

@[simp] theorem size_add (s : Slots α) (make : SlotId → α) :
    (s.add make).2.size = s.size + 1 := by
  have hclaim : s.claim.2.size = s.size := by
    unfold claim
    split <;> rfl
  exact congrArg (· + 1) hclaim

/-- Where the slot of a new value comes from. -/
inductive Claims (s t : Slots α) (id : SlotId) : Prop
  /-- A vacant slot is used again. -/
  | reused (hslot : s.slots[id.index.toNat]? = some ⟨id.generation, none⟩)
      (hvacant : s.vacant = id.index :: t.vacant)
  /-- There is none, and a new one is made. -/
  | grown (hslot : s.slots[id.index.toNat]? = none) (hgeneration : id.generation = 0)
      (hvacant : s.vacant = []) (hleft : t.vacant = [])

/-- What adding a value under an identifier changes. -/
structure Adds (s t : Slots α) (id : SlotId) (value : α) : Prop where
  claims : Claims s t id
  puts : Puts s t id.index ⟨id.generation, some value⟩
  size : t.size = s.size + 1
  capacity_le : t.capacity ≤ max s.capacity t.size
  count : t.slots.countP (·.value.isSome) = s.slots.countP (·.value.isSome) + 1

theorem Tidy.adds (h : Tidy s) (hcap : s.capacity < 2 ^ 32) (make : SlotId → α) :
    Adds s (s.add make).2 (s.add make).1 (make (s.add make).1) := by
  cases hv : s.vacant with
  | cons index rest =>
      obtain ⟨generation, hslot⟩ := (h.mem_vacant index).mp (hv ▸ List.mem_cons_self)
      have hadd : s.add make = (⟨index, generation⟩,
          { slots := s.slots.set index.toNat ⟨generation, some (make ⟨index, generation⟩)⟩
            vacant := rest
            size := s.size + 1 }) := by
        simp only [add, claim, hv, hslot, Option.map_some, Option.getD_some]
        rw [List.modify_eq_set_getElem?, hslot]
        rfl
      have hcount := countP_set hslot ⟨generation, some (make ⟨index, generation⟩)⟩
      rw [hadd]
      have hcapacity : (s.slots.set index.toNat
          ⟨generation, some (make ⟨index, generation⟩)⟩).length ≤ max s.capacity (s.size + 1) := by
        rw [List.length_set]
        exact Nat.le_max_left _ _
      exact ⟨.reused hslot hv, puts_set hslot _ _ _, rfl, hcapacity, by simpa using hcount⟩
  | nil =>
      have hindex : (UInt32.ofNat s.slots.length).toNat = s.slots.length :=
        UInt32.toNat_ofNat_of_lt' hcap
      have hadd : s.add make = (⟨UInt32.ofNat s.slots.length, 0⟩,
          { slots := s.slots ++ [⟨0, some (make ⟨UInt32.ofNat s.slots.length, 0⟩)⟩]
            vacant := []
            size := s.size + 1 }) := by
        simp [add, claim, hv, hindex, List.modify_eq_set_getElem?]
      rw [hadd]
      refine ⟨.grown ?_ rfl hv rfl, fun i => ?_, rfl, ?_, by simp⟩
      · dsimp only
        rw [hindex]
        exact List.getElem?_eq_none (Nat.le_refl _)
      · dsimp only
        rw [hindex]
        rcases Nat.lt_trichotomy i s.slots.length with hlt | heq | hgt
        · rw [if_neg (Nat.ne_of_lt hlt)]
          exact List.getElem?_append_left hlt
        · simp [heq]
        · rw [if_neg (Nat.ne_of_gt hgt), List.getElem?_eq_none (by simp; omega),
            List.getElem?_eq_none (by omega)]
      · have hfull : s.slots.length = s.size := h.capacity_eq hv hcap
        simp only [capacity, List.length_append, List.length_singleton]
        omega

/-- No identifier has its value in the slot before. -/
theorem Claims.get?_none {id other : SlotId} (h : Claims s t id) (hother : other.index = id.index) :
    s.get? other = none := by
  cases h with
  | reused hslot _ => exact get?_vacant (hother ▸ hslot)
  | grown hslot _ _ _ =>
      unfold get? slot?
      rw [hother, hslot]
      rfl

theorem Adds.get?_none {id : SlotId} {value : α} (h : Adds s t id value) : s.get? id = none :=
  h.claims.get?_none rfl

theorem Adds.get?_self {id : SlotId} {value : α} (h : Adds s t id value) :
    t.get? id = some value :=
  get?_eq_some_iff.mpr h.puts.self

/-- Adding a value under one identifier changes no other's. -/
theorem Adds.get?_other {id other : SlotId} {value : α} (h : Adds s t id value)
    (hne : other ≠ id) : t.get? other = s.get? other :=
  h.puts.get?_other fun hindex =>
    ⟨h.claims.get?_none hindex, get?_sibling h.puts.self hindex hne⟩

/-- What holds of all values and of the one that is added holds of all of them. -/
theorem Adds.forall_get? {id : SlotId} {value : α} {p : SlotId → α → Prop}
    (h : Adds s t id value) (hs : ∀ other v, s.get? other = some v → p other v)
    (hvalue : p id value) : ∀ other v, t.get? other = some v → p other v := by
  intro other v hv
  by_cases hother : other = id
  · rw [hother, h.get?_self] at hv
    cases hv
    exact hother ▸ hvalue
  · exact hs other v ((h.get?_other hother).symm.trans hv)

/-- Slots stay tidy when a value is added. -/
theorem Adds.tidy {id : SlotId} {value : α} (h : Adds s t id value) (hs : Tidy s) : Tidy t where
  vacant_nodup := by
    have hnodup := hs.vacant_nodup
    cases h.claims with
    | reused _ hvacant => rw [hvacant] at hnodup; exact hnodup.of_cons
    | grown _ _ _ hleft => rw [hleft]; exact List.nodup_nil
  mem_vacant index := by
    have hslot := h.puts.self
    by_cases hindex : index = id.index
    · have hnot : index ∉ t.vacant := by
        have hnodup := hs.vacant_nodup
        cases h.claims with
        | reused _ hvacant =>
            rw [hvacant, ← hindex] at hnodup
            exact (List.nodup_cons.mp hnodup).1
        | grown _ _ _ hleft => rw [hleft]; exact List.not_mem_nil
      simp [hindex, hslot, hindex ▸ hnot]
    · rw [h.puts.other hindex, ← hs.mem_vacant]
      cases h.claims with
      | reused _ hvacant => simp [hvacant, hindex]
      | grown _ _ hvacant hleft => rw [hvacant, hleft]
  size := by rw [h.size, h.count, hs.size]

/-! ### Changing a value and taking it out -/

variable {id : SlotId} {value : α}

theorem modify_eq (hget : s.get? id = some value) (f : α → α) :
    s.modify id f =
      { s with slots := s.slots.set id.index.toNat ⟨id.generation, some (f value)⟩ } := by
  rw [modify, hget]

theorem remove_eq (hget : s.get? id = some value) :
    s.remove id = (some value,
      { slots := s.slots.set id.index.toNat ⟨id.generation + 1, none⟩
        vacant := id.index :: s.vacant
        size := s.size - 1 }) := by
  rw [remove, hget]

theorem modify_none (hget : s.get? id = none) (f : α → α) : s.modify id f = s := by
  rw [modify, hget]

theorem remove_none (hget : s.get? id = none) : s.remove id = (none, s) := by
  rw [remove, hget]

/-- What a value is changed to may be said once the value is known. -/
theorem modify_const (hget : s.get? id = some value) (f : α → α) :
    s.modify id f = s.modify id fun _ => f value := by
  rw [modify_eq hget, modify_eq hget]

theorem puts_modify (hget : s.get? id = some value) (f : α → α) :
    Puts s (s.modify id f) id.index ⟨id.generation, some (f value)⟩ := by
  rw [modify_eq hget]
  exact puts_set (get?_eq_some_iff.mp hget) _ _ _

theorem puts_remove (hget : s.get? id = some value) :
    Puts s (s.remove id).2 id.index ⟨id.generation + 1, none⟩ := by
  rw [remove_eq hget]
  exact puts_set (get?_eq_some_iff.mp hget) _ _ _

theorem get?_modify_self (hget : s.get? id = some value) (f : α → α) :
    (s.modify id f).get? id = some (f value) :=
  get?_eq_some_iff.mpr (puts_modify hget f).self

/-- An identifier whose value is taken out has none any more. -/
theorem get?_remove_self (s : Slots α) (id : SlotId) : (s.remove id).2.get? id = none := by
  cases hget : s.get? id with
  | none => rw [remove_none hget]; exact hget
  | some value => exact get?_vacant (puts_remove hget).self

@[simp] theorem capacity_modify (s : Slots α) (id : SlotId) (f : α → α) :
    (s.modify id f).capacity = s.capacity := by
  cases hget : s.get? id with
  | none => rw [modify_none hget]
  | some value => rw [modify_eq hget]; exact List.length_set

@[simp] theorem size_modify (s : Slots α) (id : SlotId) (f : α → α) :
    (s.modify id f).size = s.size := by
  cases hget : s.get? id with
  | none => rw [modify_none hget]
  | some value => rw [modify_eq hget]

@[simp] theorem capacity_remove (s : Slots α) (id : SlotId) :
    (s.remove id).2.capacity = s.capacity := by
  cases hget : s.get? id with
  | none => rw [remove_none hget]
  | some value => rw [remove_eq hget]; exact List.length_set

theorem size_remove_le (s : Slots α) (id : SlotId) : (s.remove id).2.size ≤ s.size := by
  cases hget : s.get? id with
  | none => rw [remove_none hget]
  | some value => rw [remove_eq hget]; exact Nat.sub_le _ _

theorem get?_modify_other (f : α → α) {other : SlotId} (hne : other ≠ id) :
    (s.modify id f).get? other = s.get? other := by
  cases hget : s.get? id with
  | none => rw [modify_none hget]
  | some value =>
      have hputs := puts_modify hget f
      exact hputs.get?_other fun hindex =>
        ⟨get?_sibling (get?_eq_some_iff.mp hget) hindex hne, get?_sibling hputs.self hindex hne⟩

theorem get?_remove_other {other : SlotId} (hne : other ≠ id) :
    (s.remove id).2.get? other = s.get? other := by
  cases hget : s.get? id with
  | none => rw [remove_none hget]
  | some value =>
      have hputs := puts_remove hget
      exact hputs.get?_other fun hindex =>
        ⟨get?_sibling (get?_eq_some_iff.mp hget) hindex hne,
          get?_vacant (hindex ▸ hputs.self)⟩

theorem forall_get?_modify {p : SlotId → α → Prop} (hget : s.get? id = some value) {f : α → α}
    (hs : ∀ other v, s.get? other = some v → p other v) (hvalue : p id (f value)) :
    ∀ other v, (s.modify id f).get? other = some v → p other v := by
  intro other v hv
  by_cases hother : other = id
  · rw [hother, get?_modify_self hget] at hv
    cases hv
    exact hother ▸ hvalue
  · exact hs other v ((get?_modify_other f hother).symm.trans hv)

theorem forall_get?_remove {p : SlotId → α → Prop}
    (hs : ∀ other v, s.get? other = some v → p other v) :
    ∀ other v, (s.remove id).2.get? other = some v → p other v := by
  intro other v hv
  by_cases hother : other = id
  · rw [hother, get?_remove_self] at hv
    cases hv
  · exact hs other v ((get?_remove_other hother).symm.trans hv)

/-- Slots stay tidy when a value is changed. -/
theorem Tidy.modify (hs : Tidy s) (id : SlotId) (f : α → α) : Tidy (s.modify id f) := by
  cases hget : s.get? id with
  | none => rwa [modify_none hget]
  | some value =>
      have hbefore := get?_eq_some_iff.mp hget
      have hputs := puts_modify hget f
      have hvacant : (s.modify id f).vacant = s.vacant := by rw [modify_eq hget]
      refine { vacant_nodup := hvacant ▸ hs.vacant_nodup, mem_vacant := fun index => ?_, size := ?_ }
      · rw [hvacant, hs.mem_vacant]
        by_cases hindex : index = id.index
        · simp [hindex, hputs.self, hbefore]
        · rw [hputs.other hindex]
      · have hcount := countP_set hbefore ⟨id.generation, some (f value)⟩
        simp only [modify_eq hget, hs.size]
        simpa using hcount.symm

/-- Slots stay tidy when a value is taken out. -/
theorem Tidy.remove (hs : Tidy s) (hget : s.get? id = some value) : Tidy (s.remove id).2 := by
  have hbefore := get?_eq_some_iff.mp hget
  have hputs := puts_remove hget
  have hvacant : (s.remove id).2.vacant = id.index :: s.vacant := by rw [remove_eq hget]
  refine { vacant_nodup := ?_, mem_vacant := fun index => ?_, size := ?_ }
  · rw [hvacant]
    refine List.nodup_cons.mpr ⟨fun hmem => ?_, hs.vacant_nodup⟩
    obtain ⟨generation, hslot⟩ := (hs.mem_vacant id.index).mp hmem
    rw [hbefore] at hslot
    cases hslot
  · rw [hvacant, List.mem_cons, hs.mem_vacant]
    by_cases hindex : index = id.index
    · simp [hindex, hputs.self]
    · simp [hindex, hputs.other hindex]
  · have hcount := countP_set hbefore ⟨id.generation + 1, none⟩
    simp only [remove_eq hget, hs.size]
    simp at hcount
    omega

/-! ### The list of identifiers -/

theorem mem_ids_iff (hcap : s.capacity < 2 ^ 32) (id : SlotId) :
    id ∈ s.ids ↔ (s.get? id).isSome := by
  unfold ids
  rw [List.mem_filterMap, Option.isSome_iff_exists]
  constructor
  · rintro ⟨⟨slot, index⟩, hmem, hid⟩
    have hslot : s.slots[index]? = some slot := List.mem_zipIdx_iff_getElem?.mp hmem
    obtain ⟨value, hvalue, rfl⟩ := Option.map_eq_some_iff.mp hid
    have hindex : (UInt32.ofNat index).toNat = index :=
      UInt32.toNat_ofNat_of_lt' (Nat.lt_trans (List.getElem?_eq_some_iff.mp hslot).1 hcap)
    refine ⟨value, get?_eq_some_iff.mpr ?_⟩
    dsimp only
    rw [hindex, hslot, ← hvalue]
  · rintro ⟨value, hvalue⟩
    have hslot := get?_eq_some_iff.mp hvalue
    refine ⟨(⟨id.generation, some value⟩, id.index.toNat),
      List.mem_zipIdx_iff_getElem?.mpr hslot, ?_⟩
    simp

theorem ids_pairwise (hcap : s.capacity < 2 ^ 32) : s.ids.Pairwise (·.index < ·.index) := by
  have hordered : s.slots.zipIdx.Pairwise (·.2 < ·.2) := by
    rw [← List.pairwise_map (f := Prod.snd) (R := (· < ·)), List.zipIdx_map_snd]
    exact List.pairwise_lt_range'
  have hlt {slot : Slot α} {index : Nat} (hmem : (slot, index) ∈ s.slots.zipIdx) :
      index < 2 ^ 32 :=
    Nat.lt_trans (List.getElem?_eq_some_iff.mp (List.mem_zipIdx_iff_getElem?.mp hmem)).1 hcap
  unfold ids
  rw [List.pairwise_filterMap]
  refine hordered.imp_of_mem fun {a b} ha hb hab id hid id' hid' => ?_
  obtain ⟨_, -, rfl⟩ := Option.map_eq_some_iff.mp hid
  obtain ⟨_, -, rfl⟩ := Option.map_eq_some_iff.mp hid'
  rw [UInt32.lt_iff_toNat_lt]
  dsimp only
  rw [UInt32.toNat_ofNat_of_lt' (hlt ha), UInt32.toNat_ofNat_of_lt' (hlt hb)]
  exact hab

theorem nodup_ids (hcap : s.capacity < 2 ^ 32) : s.ids.Nodup :=
  (ids_pairwise hcap).imp fun hlt heq => by
    rw [heq] at hlt
    exact absurd hlt (UInt32.lt_irrefl _)

theorem length_ids : s.ids.length = s.slots.countP (·.value.isSome) := by
  have hfst : s.slots = s.slots.zipIdx.map Prod.fst := (List.zipIdx_map_fst 0 s.slots).symm
  unfold ids
  rw [List.length_filterMap_eq_countP]
  conv_rhs => rw [hfst, List.countP_map]
  refine List.countP_congr fun p _ => ?_
  simp

end WsRelay.Slots
