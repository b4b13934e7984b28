import WsRelay.Framing.Json
/-! # The grammar of JSON

The values of RFC 8259 as byte strings, with the strings among them taken as bytes: any byte from
0x20 on stands for itself, a quote and a backslash excepted.  `Derives` has one constructor for each
way to form a production; the number it carries is how deep containers may be nested.

A value that its last byte closes (`Production.closed`) is an object, an array, a string or a
literal; a number is not. -/

namespace WsRelay.Json

/-- The byte that opens a bracket. -/
def Bracket.opening : Bracket → UInt8
  | object => 123
  | array => 91

/-- Blanks, or nothing. -/
def Blanks (w : Bytes) : Prop :=
  ∀ b ∈ w, isBlank b = true

instance (w : Bytes) : Decidable (Blanks w) :=
  decidable_of_iff (w.all isBlank = true) List.all_eq_true

/-- Digits, one at least. -/
def Digits (ds : Bytes) : Prop :=
  ds ≠ [] ∧ ∀ b ∈ ds, isDigit b = true

/-- The characters of a string. -/
inductive Characters : Bytes → Prop
  | nil : Characters []
  | plain {b : UInt8} {cs : Bytes} (hb : 32 ≤ b) (hquote : b ≠ 34) (hescape : b ≠ 92)
      (more : Characters cs) : Characters (b :: cs)
  | escape {b : UInt8} {cs : Bytes} (hb : b ∈ [34, 92, 47, 98, 102, 110, 114, 116])
      (more : Characters cs) : Characters (92 :: b :: cs)
  | unicode {h₁ h₂ h₃ h₄ : UInt8} {cs : Bytes}
      (hh : ∀ b ∈ [h₁, h₂, h₃, h₄], isHex b = true) (more : Characters cs) :
      Characters (92 :: 117 :: h₁ :: h₂ :: h₃ :: h₄ :: cs)

/-- A string. -/
inductive Text : Bytes → Prop
  | quoted {cs : Bytes} (h : Characters cs) : Text (34 :: (cs ++ [34]))

/-- The words that are values. -/
def literals : List Bytes :=
  [[116, 114, 117, 101],          -- `true`
    [102, 97, 108, 115, 101],     -- `false`
    [110, 117, 108, 108]]         -- `null`

/-- The part of a number before its fraction. -/
inductive Whole : Bytes → Prop
  | zero : Whole [48]
  | digits {d : UInt8} {ds : Bytes} (hd : isDigit d = true) (hzero : d ≠ 48)
      (hds : ∀ b ∈ ds, isDigit b = true) : Whole (d :: ds)

/-- The fraction of a number, if it has one. -/
inductive Fraction : Bytes → Prop
  | absent : Fraction []
  | digits {ds : Bytes} (h : Digits ds) : Fraction (46 :: ds)

/-- The exponent of a number, if it has one. -/
inductive Exponent : Bytes → Prop
  | absent : Exponent []
  | unsigned {e : UInt8} {ds : Bytes} (he : isExponent e = true) (h : Digits ds) :
      Exponent (e :: ds)
  | signed {e sign : UInt8} {ds : Bytes} (he : isExponent e = true) (hsign : isSign sign = true)
      (h : Digits ds) : Exponent (e :: sign :: ds)

/-- A number. -/
inductive Number : Bytes → Prop
  | positive {w f e : Bytes} (hw : Whole w) (hf : Fraction f) (he : Exponent e) :
      Number (w ++ (f ++ e))
  | negative {w f e : Bytes} (hw : Whole w) (hf : Fraction f) (he : Exponent e) :
      Number (45 :: (w ++ (f ++ e)))

/-- What a byte string can be derived as. -/
inductive Production where
  /-- A value that its last byte closes. -/
  | closed
  | value
  /-- What stands between two commas. -/
  | entry (bracket : Bracket)
  /-- Entries with commas between them, one at least. -/
  | entries (bracket : Bracket)

/-- The byte string can be derived with containers nested at most so deep. -/
inductive Derives : Production → Nat → Bytes → Prop
  | text {depth : Nat} {t : Bytes} (h : Text t) : Derives .closed depth t
  | literal {depth : Nat} {t : Bytes} (h : t ∈ literals) : Derives .closed depth t
  | empty {depth : Nat} {bracket : Bracket} {w : Bytes} (hw : Blanks w) :
      Derives .closed (depth + 1) (bracket.opening :: (w ++ [bracket.close]))
  | container {depth : Nat} {bracket : Bracket} {xs : Bytes}
      (h : Derives (.entries bracket) depth xs) :
      Derives .closed (depth + 1) (bracket.opening :: (xs ++ [bracket.close]))
  | closed {depth : Nat} {v : Bytes} (h : Derives .closed depth v) : Derives .value depth v
  | number {depth : Nat} {v : Bytes} (h : Number v) : Derives .value depth v
  | element {depth : Nat} {w v w' : Bytes} (hw : Blanks w) (h : Derives .value depth v)
      (hw' : Blanks w') : Derives (.entry .array) depth (w ++ (v ++ w'))
  | member {depth : Nat} {w k w₁ w₂ v w' : Bytes} (hw : Blanks w) (hk : Text k) (hw₁ : Blanks w₁)
      (hw₂ : Blanks w₂) (h : Derives .value depth v) (hw' : Blanks w') :
      Derives (.entry .object) depth (w ++ (k ++ (w₁ ++ 58 :: (w₂ ++ (v ++ w')))))
  | one {depth : Nat} {bracket : Bracket} {x : Bytes} (h : Derives (.entry bracket) depth x) :
      Derives (.entries bracket) depth x
  | more {depth : Nat} {bracket : Bracket} {xs x : Bytes}
      (hs : Derives (.entries bracket) depth xs) (h : Derives (.entry bracket) depth x) :
      Derives (.entries bracket) depth (xs ++ 44 :: x)

/-- A value that its last byte closes, and the blanks before it: what a framing by JSON values
makes one unit of. -/
def IsUnit (u : Bytes) : Prop :=
  ∃ w v, Blanks w ∧ Derives .closed depthLimit v ∧ u = w ++ v

end WsRelay.Json
