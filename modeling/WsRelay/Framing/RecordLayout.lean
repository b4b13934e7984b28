import WsRelay.Error
import WsRelay.Text.Cut
import WsRelay.Text.Digits
/-! # Records with a length field

A record holds a 32-bit length field.  It is as long as the bytes before the field, the field, a
configured number of bytes and the value of the field together.  `RecordLayout.parse` reads a
layout from a configuration, and `RecordLayout.recordEnd` gives the length of the record at the front
of a buffer.

Lengths are added up in 64-bit signed integers that stay at their ends instead of wrapping
(`addSaturating`). -/

namespace WsRelay

/-- Where the length field of a record stands and how it is read. -/
structure RecordLayout where
  /-- Bytes before the length field. -/
  offset : UInt64 := 0
  /-- Added to the value of the length field. -/
  adjust : Int64 := 0
  bigEndian : Bool := false
deriving DecidableEq, Repr

namespace RecordLayout

/-- The layout after one `key=value` option. -/
def set (layout : RecordLayout) (item : String) :
    Except FramingError RecordLayout :=
  match Text.cut? '=' item with
  | none => .error (.malformedOption item)
  | some (key, value) =>
    let key := Text.trim key
    let value := Text.trim value
    if key = "offset" then
      match Text.radixNat? value with
      | none => .error (.badOffset value)
      | some n => .ok { layout with offset := UInt64.ofNat n }
    else if key = "static" then
      match Text.radixInt? value with
      | none => .error (.badStatic value)
      | some n => .ok { layout with adjust := Int64.ofInt n }
    else if key = "endian" then
      if value = "big" then .ok { layout with bigEndian := true }
      else if value = "little" then .ok { layout with bigEndian := false }
      else .error (.badEndian value)
    else .error (.unknownOption key)

/-- The layout a configuration such as `offset=2,static=-4,endian=big` describes; what it does
not mention is zero and little-endian. -/
def parse (config : String) : Except FramingError RecordLayout :=
  (((Text.pieces ',' config).map Text.trim).filter (· ≠ "")).foldlM set {}

/-- The sum, or the nearest 64-bit signed integer. -/
def addSaturating (a b : Int) : Int :=
  max (-Text.signedLimit) (min (Text.signedLimit - 1) (a + b))

/-- The value of the length field, `none` while part of it is missing. -/
def field? (layout : RecordLayout) (data : Bytes) : Option Nat :=
  let offset := layout.offset.toNat
  if offset + 4 < UInt64.size ∧ offset + 4 ≤ data.length then
    let field := (data.drop offset).take 4
    some (if layout.bigEndian then Bytes.bigEndian field else Bytes.littleEndian field)
  else none

/-- The length of the record whose length field has the value `field`. -/
def total (layout : RecordLayout) (field : Nat) : Int :=
  let offset : Int := min (layout.offset.toNat : Int) (Text.signedLimit - 1)
  addSaturating (addSaturating (addSaturating offset 4) layout.adjust.toInt) field

/-- The length of the record at the front of a buffer if all of it is there, else 0. -/
def recordEnd (layout : RecordLayout) (data : Bytes) : Except FramingError Nat :=
  match layout.field? data with
  | none => .ok 0
  | some field =>
    let total := layout.total field
    if total ≤ 0 then .error (.recordOutOfRange total)
    else if total ≤ data.length then .ok total.toNat
    else .ok 0

end RecordLayout

end WsRelay
