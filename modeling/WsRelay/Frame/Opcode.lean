/-! # Frame opcodes

The opcodes RFC 6455 §5.2 defines, and the four-bit values they stand for. -/

namespace WsRelay

/-- What a frame is for. -/
inductive Opcode where
  | continuation
  | text
  | binary
  | close
  | ping
  | pong
deriving DecidableEq, Repr

namespace Opcode

/-- The four-bit value on the wire. -/
def value : Opcode → UInt8
  | continuation => 0
  | text => 1
  | binary => 2
  | close => 8
  | ping => 9
  | pong => 10

/-- The opcode a value stands for; the other values are reserved. -/
def ofValue? (value : UInt8) : Option Opcode :=
  match value.toNat with
  | 0 => some continuation
  | 1 => some text
  | 2 => some binary
  | 8 => some close
  | 9 => some ping
  | 10 => some pong
  | _ => none

/-- The opcode's name in RFC 6455. -/
def name : Opcode → String
  | continuation => "Continuation"
  | text => "Text"
  | binary => "Binary"
  | close => "Close"
  | ping => "Ping"
  | pong => "Pong"

/-- Control frames steer the connection and carry no message. -/
def isControl : Opcode → Bool
  | close | ping | pong => true
  | _ => false

@[simp] theorem ofValue?_value (op : Opcode) : ofValue? op.value = some op := by
  cases op <;> rfl

theorem ofValue?_eq_some_iff {b : UInt8} {op : Opcode} :
    ofValue? b = some op ↔ b = op.value := by
  constructor
  · intro h
    have hb : UInt8.ofNat b.toNat = b := UInt8.ofNat_toNat
    unfold ofValue? at h
    split at h
    case h_7 => cases h
    all_goals
      next hn =>
      cases h
      rw [← hb, hn]
      rfl
  · rintro rfl
    exact ofValue?_value op

theorem ofValue?_eq_none_iff {b : UInt8} :
    ofValue? b = none ↔ b ∉ ([0, 1, 2, 8, 9, 10] : List UInt8) := by
  constructor
  · intro h hb
    simp only [List.mem_cons, List.not_mem_nil, or_false] at hb
    rcases hb with rfl | rfl | rfl | rfl | rfl | rfl <;> cases h
  · intro h
    cases hv : ofValue? b with
    | none => rfl
    | some op =>
        rw [ofValue?_eq_some_iff] at hv
        subst hv
        cases op <;> exact absurd (by decide) h

end Opcode

end WsRelay
