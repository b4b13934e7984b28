/-! # Slots with generations

Values are kept in numbered slots.  A slot that falls vacant is used again before a new one is
made, and its generation goes up each time, so that the identifier of a value that is gone never
leads to a value that came later. -/

namespace WsRelay

/-- The identifier of a value: its slot, and the generation of the slot at the time. -/
structure SlotId where
  index : UInt32
  generation : UInt32
deriving DecidableEq, Repr

/-- The identifier in words, such as `2v0`. -/
def SlotId.display (id : SlotId) : String :=
  toString id.index.toNat ++ "v" ++ toString id.generation.toNat

/-- A slot, vacant or with a value. -/
structure Slot (α : Type) where
  generation : UInt32 := 0
  value : Option α := none
deriving DecidableEq, Repr

/-- Values in slots. -/
structure Slots (α : Type) where
  slots : List (Slot α) := []
  /-- The slots to use again, the next one first. -/
  vacant : List UInt32 := []
  /-- How many slots hold a value. -/
  size : Nat := 0
deriving DecidableEq, Repr

namespace Slots

variable {α : Type}

/-- How many slots there are, vacant ones among them. -/
def capacity (s : Slots α) : Nat :=
  s.slots.length

/-- No slot holds a value. -/
def isEmpty (s : Slots α) : Bool :=
  s.size == 0

/-- The slot that the next value goes to, and the slots with that one taken: the vacant slot that
is used next, or a new one at the end. -/
def claim (s : Slots α) : UInt32 × Slots α :=
  match s.vacant with
  | index :: vacant => (index, { s with vacant })
  | [] => (UInt32.ofNat s.slots.length, { s with slots := s.slots ++ [{}] })

/-- The slot of an identifier, if its generation is still the same. -/
def slot? (s : Slots α) (id : SlotId) : Option (Slot α) :=
  s.slots[id.index.toNat]?.filter (·.generation == id.generation)

/-- Adds the value `make` builds from its identifier. -/
def add (s : Slots α) (make : SlotId → α) : SlotId × Slots α :=
  let (index, s) := s.claim
  let generation := (s.slots[index.toNat]?.map (·.generation)).getD 0
  let id : SlotId := ⟨index, generation⟩
  (id, { s with
    slots := s.slots.modify index.toNat fun slot => { slot with value := some (make id) }
    size := s.size + 1 })

/-- The value of an identifier. -/
def get? (s : Slots α) (id : SlotId) : Option α :=
  (s.slot? id).bind (·.value)

/-- The value of an identifier changed by `f`; nothing changes if it has none. -/
def modify (s : Slots α) (id : SlotId) (f : α → α) : Slots α :=
  match s.get? id with
  | none => s
  | some value =>
    { s with slots := s.slots.set id.index.toNat ⟨id.generation, some (f value)⟩ }

/-- Takes out the value of an identifier, which then stands for nothing any more. -/
def remove (s : Slots α) (id : SlotId) : Option α × Slots α :=
  match s.get? id with
  | none => (none, s)
  | some value =>
    (some value,
      { slots := s.slots.set id.index.toNat ⟨id.generation + 1, none⟩
        vacant := id.index :: s.vacant
        size := s.size - 1 })

/-- The identifiers of all values, in the order of their slots. -/
def ids (s : Slots α) : List SlotId :=
  s.slots.zipIdx.filterMap fun (slot, index) =>
    slot.value.map fun _ => ⟨UInt32.ofNat index, slot.generation⟩

end Slots

end WsRelay
