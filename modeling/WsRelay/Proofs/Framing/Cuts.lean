import WsRelay.Proofs.Connection.Moves
import WsRelay.Proofs.Frame.Encoding
/-! # Units

Whatever a framing answers, no byte is lost, repeated or moved.  `Framing.Cuts` is how a framing
comes to cut units off what is received: it is asked about what is left, over and over, and what it
remembers is handed on from one answer to the next.  Units and rest always make up what was received
(`Cuts.conserves`).

A unit that is not discarded makes one frame that holds it (`Message.decode?_reply`). -/

namespace WsRelay

variable {σ : Type}

namespace Framing

/-- A unit is a first part of the data, and not empty. -/
theorem unit?_append {data : Bytes} {answer : Except FramingError Cut} {unit : Message}
    (h : unit? data answer = some unit) :
    unit.payload ≠ [] ∧ unit.payload ++ data.drop unit.payload.length = data := by
  obtain ⟨cut, -, hpos, hle, rfl⟩ := unit?_eq_some_iff.mp h
  have htake : (data.take cut.length).length = cut.length := List.length_take_of_le hle
  dsimp only
  rw [htake]
  exact ⟨List.ne_nil_of_length_pos (by omega), List.take_append_drop _ _⟩

/-- A unit of which nothing is said but its length is binary. -/
theorem kind_of_unit? {data : Bytes} {n : Nat} {unit : Message}
    (h : unit? data (.ok { length := n }) = some unit) : unit.kind = .binary := by
  obtain ⟨cut, hanswer, -, -, rfl⟩ := unit?_eq_some_iff.mp h
  cases hanswer
  rfl

/-- How a framing cuts what is received: `received` so far, the last `lastRead` bytes of it in one
read, has been cut into `units`, and `rest` is left, of which the framing remembers `memory`. -/
inductive Cuts (rule : Rule σ) (config : String) :
    (received : Bytes) → (lastRead : Nat) → (units : List Message) → (rest : Bytes) → Memory σ →
      Prop
  | start : Cuts rule config [] 0 [] [] .empty
  /-- Bytes are received, no more than the buffer holds. -/
  | read {received rest : Bytes} {n : Nat} {units : List Message} {memory : Memory σ}
      (h : Cuts rule config received n units rest memory) (bytes : Bytes)
      (hfits : (rest ++ bytes).length ≤ bufferCapacity) :
    Cuts rule config (received ++ bytes) bytes.length units (rest ++ bytes) memory
  /-- The framing is asked about the rest, and cuts nothing. -/
  | uncut {received rest : Bytes} {n : Nat} {units : List Message} {memory : Memory σ}
      (h : Cuts rule config received n units rest memory) (hne : rest ≠ [])
      (hunit : unit? rest (rule rest (min n rest.length) config memory).1 = none) :
    Cuts rule config received n units rest (rule rest (min n rest.length) config memory).2
  /-- The framing is asked about the rest, and cuts a unit. -/
  | unit {received rest : Bytes} {n : Nat} {units : List Message} {memory : Memory σ}
      (h : Cuts rule config received n units rest memory) (hne : rest ≠ []) {unit : Message}
      (hunit : unit? rest (rule rest (min n rest.length) config memory).1 = some unit) :
    Cuts rule config received n (units ++ [unit]) (rest.drop unit.payload.length)
      (rule rest (min n rest.length) config memory).2

namespace Cuts

variable {rule : Rule σ} {config : String} {received rest : Bytes} {n : Nat}
  {units : List Message} {memory : Memory σ}

/-- Nothing is lost, repeated or moved. -/
theorem conserves (h : Cuts rule config received n units rest memory) :
    units.flatMap (·.payload) ++ rest = received := by
  induction h with
  | start => rfl
  | read _ bytes _ ih => rw [← List.append_assoc, ih]
  | uncut _ _ _ ih => exact ih
  | unit _ _ hunit ih =>
      rw [List.flatMap_append, List.flatMap_singleton, List.append_assoc, (unit?_append hunit).2]
      exact ih

theorem fits (h : Cuts rule config received n units rest memory) :
    rest.length ≤ bufferCapacity ∧ ∀ unit ∈ units, unit.payload.length ≤ bufferCapacity := by
  induction h with
  | start => exact ⟨Nat.zero_le _, List.forall_mem_nil _⟩
  | read _ bytes hfits ih => exact ⟨hfits, ih.2⟩
  | uncut _ _ _ ih => exact ih
  | unit _ _ hunit ih =>
      have hlen := congrArg List.length (unit?_append hunit).2
      rw [List.length_append] at hlen
      refine ⟨by omega, List.forall_mem_append.mpr ⟨ih.2, List.forall_mem_singleton.mpr ?_⟩⟩
      omega

/-- Every unit was cut off data that the stream goes on with behind the units before it, by a rule
that remembered what it comes to remember when it is asked. -/
theorem asked (remembers : Memory σ → Prop) (hempty : remembers .empty)
    (hkeeps : ∀ data lastRead memory, remembers memory →
      remembers (rule data lastRead config memory).2)
    (h : Cuts rule config received n units rest memory) :
    remembers memory ∧ ∀ earlier unit later, units = earlier ++ unit :: later →
      ∃ data lastRead memory, remembers memory ∧
        unit? data (rule data lastRead config memory).1 = some unit ∧
        earlier.flatMap (·.payload) ++ data <+: received := by
  induction h with
  | start => exact ⟨hempty, fun earlier unit later hunits => absurd hunits (by simp)⟩
  | read _ bytes _ ih =>
      refine ⟨ih.1, fun earlier unit later hunits => ?_⟩
      obtain ⟨data, lastRead, memory, hm, hunit, hinside⟩ := ih.2 earlier unit later hunits
      exact ⟨data, lastRead, memory, hm, hunit, hinside.trans (List.prefix_append _ bytes)⟩
  | uncut _ _ _ ih => exact ⟨hkeeps _ _ _ ih.1, ih.2⟩
  | @unit received rest n units memory h hne cut hunit ih =>
      refine ⟨hkeeps _ _ _ ih.1, fun earlier unit later hunits => ?_⟩
      rcases List.eq_nil_or_concat later with rfl | ⟨later, last, rfl⟩
      · -- the unit that was cut last, off all that was left
        obtain ⟨rfl, hlast⟩ := List.append_inj' hunits rfl
        obtain rfl := List.singleton_inj.mp hlast
        exact ⟨rest, _, memory, ih.1, hunit, h.conserves ▸ List.prefix_rfl⟩
      · rw [List.concat_eq_append, ← List.cons_append, ← List.append_assoc] at hunits
        exact ih.2 earlier unit later (List.append_inj' hunits rfl).1

end Cuts

/-- A unit that is not discarded makes one frame, which is final and not masked, and holds the
unit. -/
theorem Message.decode?_reply {unit : Message} (h : unit.payload.length ≤ bufferCapacity) :
    (unit.kind = .discard ∧ unit.reply? = none) ∨
      ∃ opcode header, unit.kind.opcode? = some opcode ∧
        unit.reply? = some (.frame opcode unit.payload) ∧
        Frame.decode? (Reply.frame opcode unit.payload).bytes =
          some (⟨header, unit.payload, (Reply.frame opcode unit.payload).bytes.length⟩,
            (Reply.frame opcode unit.payload).bytes) ∧
        header.fin = true ∧ header.reserved = 0 ∧ header.mask = none ∧
        header.opcode = opcode.value := by
  cases hk : unit.kind.opcode? with
  | none =>
      refine .inl ⟨?_, by rw [Message.reply?, hk]; rfl⟩
      cases hkind : unit.kind with
      | discard => rfl
      | text => rw [hkind] at hk; cases hk
      | binary => rw [hkind] at hk; cases hk
  | some opcode =>
      have hcapacity : bufferCapacity < 2 ^ 63 := by decide
      have hdecode := Frame.decode?_encode opcode (Nat.lt_of_le_of_lt h hcapacity) []
      rw [List.append_nil] at hdecode
      exact .inr ⟨opcode, _, rfl, by rw [Message.reply?, hk]; rfl, hdecode, rfl, rfl, rfl, rfl⟩

end Framing

end WsRelay
