import Mathlib.Logic.Function.Basic
import WsRelay.Proofs.Slots.Changes
/-! # Identifiers that are used once

Seen from outside, slots are a map from identifiers to values: a value is added under an
identifier that nobody has seen before, it is looked up and changed under it, and once it is taken
out the identifier stands for nothing any more.

What there is to know from outside is in the log of what was done (`Use`) and what came of it
(`Answer`).  A `Ledger` is read off the log alone: the identifiers that were issued, those that
were retired, and what was last stored under each.  `run_keeps` says that slots keep to their
ledger, as long as they are fewer than 2^32 and none is vacated 2^32 times; beyond that,
generations and slot numbers start over.

The link between the two is `Sound`: a slot's generation is the number of times it was vacated, and
the slots to use again are the vacant ones, each once.  Every use keeps it (`perform_sound`). -/

namespace WsRelay.Slots

variable {α : Type}

/-! ### What is done with slots -/

/-- One thing that is done with slots. -/
inductive Use (α : Type) where
  /-- A value is added, which is built from its identifier. -/
  | add (make : SlotId → α)
  | get (id : SlotId)
  /-- A value is looked up and changed. -/
  | modify (id : SlotId) (f : α → α)
  | remove (id : SlotId)

/-- What comes of it. -/
inductive Answer (α : Type) where
  /-- The identifier of a value that was added. -/
  | issued (id : SlotId)
  /-- The value of an identifier, if it has one. -/
  | found (value : Option α)

/-- Does one thing with slots. -/
def perform : Use α → Slots α → Answer α × Slots α
  | .add make, s =>
    let (id, t) := s.add make
    (.issued id, t)
  | .get id, s => (.found (s.get? id), s)
  | .modify id f, s => (.found (s.get? id), s.modify id f)
  | .remove id, s =>
    let (value, t) := s.remove id
    (.found value, t)

/-- Does one thing after the other: the log of it, and the slots after it. -/
def run : List (Use α) → Slots α → List (Use α × Answer α) × Slots α
  | [], s => ([], s)
  | use :: uses, s =>
    let (answer, t) := perform use s
    let (log, u) := run uses t
    ((use, answer) :: log, u)

/-- The identifier a use is about: the one that is asked for, or the one that is issued. -/
def Use.subject : Use α → Answer α → Option SlotId
  | .add _, .issued id => some id
  | .add _, .found _ => none
  | .get id, _ | .modify id _, _ | .remove id, _ => some id

/-! ### What is known from outside -/

/-- What the log of uses says about identifiers. -/
structure Ledger (α : Type) where
  /-- The identifiers under which a value was added, the last one first. -/
  issued : List SlotId := []
  /-- The identifiers whose value was taken out, the last one first. -/
  retired : List SlotId := []
  /-- The value last stored under an identifier. -/
  stored : SlotId → Option α := fun _ => none

namespace Ledger

/-- Takes down one use and its answer. -/
def record (l : Ledger α) : Use α × Answer α → Ledger α
  | (.add make, .issued id) =>
    { l with issued := id :: l.issued, stored := Function.update l.stored id (some (make id)) }
  | (.modify id f, .found (some value)) =>
    { l with stored := Function.update l.stored id (some (f value)) }
  | (.remove id, .found (some _)) => { l with retired := id :: l.retired }
  | _ => l

/-- The ledger of a log. -/
def ofLog (log : List (Use α × Answer α)) : Ledger α :=
  log.foldl record {}

/-- A value was added under the identifier, and has not been taken out since. -/
def Live (l : Ledger α) (id : SlotId) : Prop :=
  id ∈ l.issued ∧ id ∉ l.retired

instance (l : Ledger α) (id : SlotId) : Decidable (l.Live id) :=
  inferInstanceAs (Decidable (_ ∧ _))

/-- The value of a live identifier is the one last stored under it. -/
def lookup (l : Ledger α) (id : SlotId) : Option α :=
  if l.Live id then l.stored id else none

/-- How often the value of a slot was taken out. -/
def vacated (l : Ledger α) (index : UInt32) : Nat :=
  l.retired.countP (·.index == index)

/-- Neither slot numbers nor generations have started over. -/
def InRange (l : Ledger α) (s : Slots α) : Prop :=
  s.capacity < 2 ^ 32 ∧ ∀ index, l.vacated index < 2 ^ 32

end Ledger

/-- Slots do as their ledger says. -/
structure Keeps (s : Slots α) (l : Ledger α) : Prop where
  /-- An identifier has a value exactly while it is live: the one last stored under it. -/
  lookup_isSome : ∀ id, (l.lookup id).isSome ↔ l.Live id
  /-- This is what it leads to, whatever is done with it. -/
  get : ∀ id, (s.perform (.get id)).1 = .found (l.lookup id)
  modify : ∀ id f, (s.perform (.modify id f)).1 = .found (l.lookup id)
  remove : ∀ id, (s.perform (.remove id)).1 = .found (l.lookup id)
  /-- No identifier is issued twice. -/
  issued_nodup : l.issued.Nodup
  /-- What is done with one identifier changes no other's value. -/
  get?_other : ∀ use id, use.subject (s.perform use).1 ≠ some id →
    (s.perform use).2.get? id = s.get? id
  /-- The live identifiers are listed, and no others. -/
  mem_ids : ∀ id, id ∈ s.ids ↔ l.Live id
  /-- They are listed in the order of their slots. -/
  ids_ordered : s.ids.Pairwise (·.index < ·.index)
  size : s.size = s.ids.length

/-! ### The invariant -/

/-- The parts of slots agree with each other and with the ledger. -/
structure Sound (s : Slots α) (l : Ledger α) : Prop where
  vacant_nodup : s.vacant.Nodup
  /-- The slots to use again are those that hold no value. -/
  mem_vacant : ∀ index, index ∈ s.vacant ↔
    ∃ generation, s.slots[index.toNat]? = some ⟨generation, none⟩
  size : s.size = s.slots.countP (·.value.isSome)
  /-- The generation of a slot is the number of times it was vacated. -/
  generation : ∀ index slot, s.slots[index.toNat]? = some slot →
    slot.generation.toNat = l.vacated index
  /-- The identifiers of earlier generations are retired. -/
  mem_retired : ∀ id, id ∈ l.retired ↔
    ∃ slot, s.slots[id.index.toNat]? = some slot ∧ id.generation < slot.generation
  /-- An identifier that was issued has a value until it is retired. -/
  mem_issued : ∀ id, id ∈ l.issued ↔ id ∈ l.retired ∨ (s.get? id).isSome
  stored : ∀ id value, s.get? id = some value → l.stored id = some value
  issued_nodup : l.issued.Nodup

theorem sound_empty : Sound ({} : Slots α) {} where
  vacant_nodup := tidy_empty.vacant_nodup
  mem_vacant := tidy_empty.mem_vacant
  size := tidy_empty.size
  generation _ _ h := nomatch h
  mem_retired _ := ⟨fun h => absurd h List.not_mem_nil, fun ⟨_, h, _⟩ => nomatch h⟩
  mem_issued _ := ⟨fun h => absurd h List.not_mem_nil,
    fun h => h.elim (fun h => absurd h List.not_mem_nil) nofun⟩
  stored _ _ h := nomatch h
  issued_nodup := List.nodup_nil

variable {s t : Slots α} {l : Ledger α}

theorem Sound.tidy (h : Sound s l) : Tidy s where
  vacant_nodup := h.vacant_nodup
  mem_vacant := h.mem_vacant
  size := h.size

/-- A retired identifier has no value. -/
theorem Sound.get?_retired (h : Sound s l) {id : SlotId} (hid : id ∈ l.retired) :
    s.get? id = none := by
  obtain ⟨slot, hslot, hlt⟩ := (h.mem_retired id).mp hid
  rw [Option.eq_none_iff_forall_ne_some]
  intro value hvalue
  have heq := get?_eq_some_iff.mp hvalue
  rw [hslot] at heq
  obtain rfl := Option.some.inj heq
  exact UInt32.lt_irrefl _ hlt

theorem Sound.found_iff (h : Sound s l) (id : SlotId) : (s.get? id).isSome ↔ l.Live id := by
  unfold Ledger.Live
  rw [h.mem_issued id]
  constructor
  · intro hsome
    refine ⟨.inr hsome, fun hretired => ?_⟩
    rw [h.get?_retired hretired] at hsome
    exact absurd hsome nofun
  · rintro ⟨hretired | hsome, hnot⟩
    · exact absurd hretired hnot
    · exact hsome

theorem Sound.get?_eq (h : Sound s l) (id : SlotId) : s.get? id = l.lookup id := by
  have hlive := h.found_iff id
  unfold Ledger.lookup
  cases hget : s.get? id with
  | none =>
      rw [hget] at hlive
      rw [if_neg fun hl => absurd (hlive.mpr hl) nofun]
  | some value =>
      rw [hget] at hlive
      rw [if_pos (hlive.mp rfl), h.stored id value hget]

/-! ### One slot is another

Adding a value, changing it and taking it out each put one slot.  What the invariant says of every
slot and of every identifier need be shown for that one alone. -/

theorem Puts.forall_slot {index : UInt32} {slot : Slot α} {P : UInt32 → Slot α → Prop}
    (h : Puts s t index slot) (hself : P index slot)
    (hother : ∀ other held, other ≠ index → s.slots[other.toNat]? = some held → P other held)
    (other : UInt32) (held : Slot α) (hheld : t.slots[other.toNat]? = some held) :
    P other held := by
  by_cases hindex : other = index
  · rw [hindex, h.self] at hheld
    obtain rfl := Option.some.inj hheld
    rw [hindex]
    exact hself
  · rw [h.other hindex] at hheld
    exact hother other held hindex hheld

theorem Sound.mem_retired_puts {index : UInt32} {slot : Slot α} {retired : List SlotId}
    (hs : Sound s l) (h : Puts s t index slot)
    (hself : ∀ other : SlotId, other.index = index →
      (other ∈ retired ↔ other.generation < slot.generation))
    (hother : ∀ other : SlotId, other.index ≠ index → (other ∈ retired ↔ other ∈ l.retired))
    (other : SlotId) : other ∈ retired ↔
      ∃ held, t.slots[other.index.toNat]? = some held ∧ other.generation < held.generation := by
  by_cases hindex : other.index = index
  · rw [hself other hindex, hindex, h.self]
    simp
  · rw [hother other hindex, hs.mem_retired, h.other hindex]

theorem Sound.stored_update {id : SlotId} {value : α} (hs : Sound s l)
    (hself : t.get? id = some value) (hother : ∀ other, other ≠ id → t.get? other = s.get? other)
    (other : SlotId) (held : α) (hheld : t.get? other = some held) :
    Function.update l.stored id (some value) other = some held := by
  by_cases hid : other = id
  · rw [hid, Function.update_self, ← hself, ← hid, hheld]
  · rw [Function.update_of_ne hid, hs.stored other held (hother other hid ▸ hheld)]

/-! ### Adding a value -/

/-- An identifier of the slot is retired if it is of an earlier generation. -/
theorem Claims.mem_retired {id other : SlotId} (hs : Sound s l) (h : Claims s t id)
    (hother : other.index = id.index) : other ∈ l.retired ↔ other.generation < id.generation := by
  rw [hs.mem_retired, hother]
  cases h with
  | reused hbefore _ => simp [hbefore]
  | grown hbefore hzero _ _ => simp [hbefore, hzero]

/-- The generation of the slot is the number of times it was vacated. -/
theorem Claims.generation_eq {id : SlotId} (hs : Sound s l) (h : Claims s t id) :
    id.generation.toNat = l.vacated id.index := by
  have hretired {other : SlotId} (hother : other.index = id.index) :
      other ∈ l.retired ↔ other.generation < id.generation := h.mem_retired hs hother
  cases h with
  | reused hbefore _ => exact hs.generation _ _ hbefore
  | grown _ hzero _ _ =>
      rw [hzero]
      refine (List.countP_eq_zero.mpr fun other hother hindex => ?_).symm
      have hlt := (hretired (beq_iff_eq.mp hindex)).mp hother
      rw [hzero] at hlt
      exact UInt32.not_lt_zero hlt

theorem Sound.of_adds (hs : Sound s l) {id : SlotId} {make : SlotId → α}
    (h : Adds s t id (make id)) : Sound t (l.record (.add make, .issued id)) := by
  have hslot := h.puts.self
  have hget_self : t.get? id = some (make id) := get?_eq_some_iff.mpr hslot
  have htidy := h.tidy hs.tidy
  refine
    { vacant_nodup := htidy.vacant_nodup, mem_vacant := htidy.mem_vacant, size := htidy.size
      generation := ?_, mem_retired := ?_, mem_issued := fun other => ?_
      stored := hs.stored_update hget_self fun _ => h.get?_other, issued_nodup := ?_ }
  · have hself : id.generation.toNat = l.vacated id.index := h.claims.generation_eq hs
    exact h.puts.forall_slot hself fun index slot _ => hs.generation index slot
  · have hself (other : SlotId) (hindex : other.index = id.index) :
        other ∈ l.retired ↔ other.generation < id.generation := h.claims.mem_retired hs hindex
    exact hs.mem_retired_puts h.puts hself fun _ _ => Iff.rfl
  · show other ∈ id :: l.issued ↔ other ∈ l.retired ∨ _
    rw [List.mem_cons, hs.mem_issued]
    by_cases hother : other = id
    · simp [hother, hget_self]
    · simp [hother, h.get?_other hother]
  · refine List.nodup_cons.mpr ⟨fun hissued => ?_, hs.issued_nodup⟩
    rcases (hs.mem_issued id).mp hissued with hretired | hsome
    · exact UInt32.lt_irrefl _ ((h.claims.mem_retired hs rfl).mp hretired)
    · rw [h.claims.get?_none rfl] at hsome
      cases hsome

/-! ### Changing a value and taking it out -/

variable {id : SlotId} {value : α}

theorem Sound.modify (hs : Sound s l) (hget : s.get? id = some value) (f : α → α) :
    Sound (s.modify id f) (l.record (.modify id f, .found (some value))) := by
  have hbefore := get?_eq_some_iff.mp hget
  have hputs := puts_modify hget f
  have hslot := hputs.self
  have hget_self : (s.modify id f).get? id = some (f value) := get?_eq_some_iff.mpr hslot
  have htidy := hs.tidy.modify id f
  refine
    { vacant_nodup := htidy.vacant_nodup, mem_vacant := htidy.mem_vacant, size := htidy.size
      generation := ?_, mem_retired := ?_, mem_issued := fun other => ?_
      stored := hs.stored_update hget_self fun _ => get?_modify_other f
      issued_nodup := hs.issued_nodup }
  · have hself : id.generation.toNat = l.vacated id.index := hs.generation _ _ hbefore
    exact hputs.forall_slot hself fun index slot _ => hs.generation index slot
  · have hself (other : SlotId) (hindex : other.index = id.index) :
        other ∈ l.retired ↔ other.generation < id.generation := by
      rw [hs.mem_retired, hindex, hbefore]
      simp
    exact hs.mem_retired_puts hputs hself fun _ _ => Iff.rfl
  · show other ∈ l.issued ↔ other ∈ l.retired ∨ _
    rw [hs.mem_issued]
    by_cases hother : other = id
    · simp [hother, hget_self, hget]
    · rw [get?_modify_other f hother]

/-- The bound on the vacancies keeps the generation from starting over. -/
theorem Sound.remove (hs : Sound s l) (hget : s.get? id = some value)
    (hlimit : (l.record (.remove id, .found (some value))).vacated id.index < 2 ^ 32) :
    Sound (s.remove id).2 (l.record (.remove id, .found (some value))) := by
  have hbefore := get?_eq_some_iff.mp hget
  have hputs := puts_remove hget
  have hslot := hputs.self
  have hget_self : (s.remove id).2.get? id = none := get?_vacant hslot
  have htidy := hs.tidy.remove hget
  have hvacated (index : UInt32) :
      (l.record (.remove id, .found (some value))).vacated index =
        l.vacated index + if id.index = index then 1 else 0 := by
    show List.countP _ (id :: l.retired) = _
    rw [List.countP_cons]
    simp [Ledger.vacated]
  have hnext : (id.generation + 1).toNat = id.generation.toNat + 1 := by
    have hnow := hs.generation _ _ hbefore
    rw [hvacated, if_pos rfl, ← hnow] at hlimit
    rw [UInt32.toNat_add]
    exact Nat.mod_eq_of_lt hlimit
  refine
    { vacant_nodup := htidy.vacant_nodup, mem_vacant := htidy.mem_vacant, size := htidy.size
      generation := ?_, mem_retired := ?_, mem_issued := fun other => ?_
      stored := fun other held hheld => ?_, issued_nodup := hs.issued_nodup }
  · refine hputs.forall_slot ?_ fun index slot hne hindex => ?_
    · rw [hvacated, if_pos rfl, ← hs.generation _ _ hbefore]
      exact hnext
    · rw [hvacated, if_neg (Ne.symm hne)]
      exact hs.generation index slot hindex
  · refine hs.mem_retired_puts hputs (fun other hindex => ?_) fun other hindex => ?_
    · have hother : other = id ↔ other.generation = id.generation := by
        cases other
        cases id
        simp_all
      show other ∈ id :: l.retired ↔ _
      rw [List.mem_cons, hs.mem_retired, hindex, hbefore, hother]
      simp only [Option.some.injEq, exists_eq_left', UInt32.lt_iff_toNat_lt, hnext,
        ← UInt32.toNat_inj]
      omega
    · have hother : other ≠ id := fun heq => hindex (congrArg _ heq)
      show other ∈ id :: l.retired ↔ _
      rw [List.mem_cons, or_iff_right hother]
  · show other ∈ l.issued ↔ other ∈ id :: l.retired ∨ _
    rw [hs.mem_issued, List.mem_cons]
    by_cases hother : other = id
    · simp [hother, hget]
    · simp [hother, get?_remove_other hother]
  · have hother : other ≠ id := fun heq => by
      rw [heq, hget_self] at hheld
      cases hheld
    rw [get?_remove_other hother] at hheld
    exact hs.stored other held hheld

/-! ### One use, and a history of them -/

theorem capacity_perform (use : Use α) (s : Slots α) : s.capacity ≤ (s.perform use).2.capacity := by
  cases use with
  | add make =>
      simp only [perform, add, capacity, List.length_modify, claim]
      split <;> simp
  | get id => exact Nat.le_refl _
  | modify id f =>
      simp only [perform, modify, capacity]
      split <;> simp
  | remove id =>
      simp only [perform, remove, capacity]
      split <;> simp

theorem vacated_record (l : Ledger α) (entry : Use α × Answer α) (index : UInt32) :
    l.vacated index ≤ (l.record entry).vacated index := by
  unfold Ledger.record
  split
  · exact Nat.le_refl _
  · exact Nat.le_refl _
  · exact (List.sublist_cons_self _ _).countP_le
  · exact Nat.le_refl _

/-- Slot numbers and generations do not come back into range. -/
theorem Ledger.InRange.before {use : Use α} {s : Slots α} {l : Ledger α}
    (h : (l.record (use, (s.perform use).1)).InRange (s.perform use).2) : l.InRange s :=
  ⟨Nat.lt_of_le_of_lt (capacity_perform use s) h.1,
    fun index => Nat.lt_of_le_of_lt (vacated_record l _ index) (h.2 index)⟩

/-- Every use keeps slots sound. -/
theorem perform_sound (hs : Sound s l) (use : Use α)
    (hrange : (l.record (use, (s.perform use).1)).InRange (s.perform use).2) :
    Sound (s.perform use).2 (l.record (use, (s.perform use).1)) := by
  cases use with
  | add make => exact hs.of_adds (hs.tidy.adds hrange.before.1 make)
  | get id => exact hs
  | modify id f =>
      cases hget : s.get? id with
      | none => simpa [perform, modify, hget, Ledger.record] using hs
      | some value => simpa [perform, hget] using hs.modify hget f
  | remove id =>
      cases hget : s.get? id with
      | none => simpa [perform, remove, hget, Ledger.record] using hs
      | some value =>
          have hfst : (s.remove id).1 = some value := by rw [remove_eq hget]
          simp only [perform, hfst] at hrange ⊢
          exact hs.remove hget (hrange.2 id.index)

/-- A history of uses keeps slots sound, as long as nothing has started over by its end. -/
theorem run_sound (uses : List (Use α)) (hs : l.InRange s → Sound s l)
    (hrange : ((run uses s).1.foldl Ledger.record l).InRange (run uses s).2) :
    Sound (run uses s).2 ((run uses s).1.foldl Ledger.record l) := by
  induction uses generalizing s l with
  | nil => exact hs hrange
  | cons use uses ih => exact ih (fun h => perform_sound (hs h.before) use h) hrange

theorem Sound.keeps (hs : Sound s l) (hcap : s.capacity < 2 ^ 32) : Keeps s l where
  lookup_isSome id := by rw [← hs.get?_eq, hs.found_iff]
  get id := by rw [perform, hs.get?_eq]
  modify id f := by rw [perform, hs.get?_eq]
  remove id := by
    have hfst : (s.remove id).1 = s.get? id := by
      unfold Slots.remove
      split
      · next hget => exact hget.symm
      · next hget => exact hget.symm
    simp only [perform, hfst, hs.get?_eq]
  issued_nodup := hs.issued_nodup
  get?_other use id hother := by
    have hne {subject : SlotId} (h : some subject ≠ some id) : id ≠ subject := fun heq =>
      h (congrArg some heq.symm)
    cases use with
    | add make => exact (hs.tidy.adds hcap make).get?_other (hne hother)
    | get _ => rfl
    | modify _ f => exact get?_modify_other f (hne hother)
    | remove _ => exact get?_remove_other (hne hother)
  mem_ids id := by rw [mem_ids_iff hcap, hs.found_iff]
  ids_ordered := ids_pairwise hcap
  size := by rw [hs.size, length_ids]

/-- **Slots keep to their ledger.**  Whatever is done with slots, as long as they are fewer than
2^32 and none is vacated 2^32 times: an identifier can be looked up, changed and taken out exactly
if a value was added under it that has not been taken out since, and it leads to the value last
stored under it.  No identifier is issued twice, what is done with one changes no other's value, and
the live ones are listed in the order of their slots, as many as there are values. -/
theorem run_keeps (uses : List (Use α))
    (hcap : (run uses ({} : Slots α)).2.capacity < 2 ^ 32)
    (hvacated : ∀ index, (Ledger.ofLog (run uses ({} : Slots α)).1).vacated index < 2 ^ 32) :
    Keeps (run uses ({} : Slots α)).2 (Ledger.ofLog (run uses ({} : Slots α)).1) :=
  (run_sound uses (fun _ => sound_empty) ⟨hcap, hvacated⟩).keeps hcap

/-- Two values are added, the first is taken out, and another takes its slot: the identifier of the
first leads nowhere from then on. -/
theorem run_keeps_reused :
    let uses : List (Use Nat) := [.add fun _ => 1, .add fun _ => 2, .remove ⟨0, 0⟩, .add fun _ => 3,
      .modify ⟨1, 0⟩ (· + 40), .modify ⟨0, 0⟩ (· + 7), .remove ⟨0, 0⟩]
    let log := (run uses {}).1
    let s := (run uses {}).2
    s.capacity < 2 ^ 32 ∧ (∀ index, (Ledger.ofLog log).vacated index < 2 ^ 32) ∧
      s.ids = [⟨0, 1⟩, ⟨1, 0⟩] ∧ s.ids.map (Ledger.ofLog log).lookup = [some 3, some 42] ∧
      (Ledger.ofLog log).lookup ⟨0, 0⟩ = none ∧ Keeps s (Ledger.ofLog log) := by
  intro uses log s
  have hcap : s.capacity < 2 ^ 32 := by decide
  have hvacated (index : UInt32) : (Ledger.ofLog log).vacated index < 2 ^ 32 :=
    Nat.lt_of_le_of_lt List.countP_le_length (by decide)
  exact ⟨hcap, hvacated, by decide, by decide, by decide, run_keeps uses hcap hvacated⟩

end WsRelay.Slots
