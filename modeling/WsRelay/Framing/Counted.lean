import WsRelay.Framing.Basic
/-! # Framings by a count of bytes

`fixedLength` cuts records of one configured length, `lengthPrefixed` records that hold their
length in a field. -/

namespace WsRelay.Framing

variable {σ : Type}

/-- The unit at the front of `data` for records of `length` bytes; 0 stands for all there is. -/
def recordEnd (length : Nat) (data : Bytes) : Nat :=
  if length = 0 then data.length
  else if length ≤ data.length then length
  else 0

/-- Records of the configured length. -/
def fixedLength : Rule σ :=
  fun data _ config memory =>
    match memory with
    | .recordLength length => (.ok ⟨recordEnd length data, .binary⟩, memory)
    | _ =>
      match Text.radixNat? config with
      | none => (.error (.badRecordLength config), memory)
      | some length => (.ok ⟨recordEnd length data, .binary⟩, .recordLength length)

/-- The record at the front of a buffer, for records with a length field. -/
def layoutCut (layout : RecordLayout) (data : Bytes) : Except FramingError Cut :=
  (layout.recordEnd data).map fun n => ⟨n, .binary⟩

/-- Records with a length field, laid out as configured. -/
def lengthPrefixed : Rule σ :=
  fun data _ config memory =>
    match memory with
    | .layout layout => (layoutCut layout data, memory)
    | _ =>
      match RecordLayout.parse config with
      | .error e => (.error e, memory)
      | .ok layout => (layoutCut layout data, .layout layout)

end WsRelay.Framing
