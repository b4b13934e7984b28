import WsRelay.Text.Cut
/-! # Numbers in text

Reading numbers: digits of a radix and nothing else, at least one of them, with a value below a
limit.  Values are computed in `Nat` and never wrap.  More digits never make a number smaller, so
reading stops as soon as the limit is reached (`natBelow?`), or stays at the largest value that is
told apart (`decimalPrefix`).

Port numbers are decimal (`port?`).  Numbers that set lengths show their radix (`radixNat?`): they
are hexadecimal after `0x`, octal after a leading zero, and decimal otherwise. -/

namespace WsRelay.Text

/-- The value of an ASCII digit or letter as a digit of `radix`. -/
def digit? (radix : Nat) (c : Char) : Option Nat :=
  let n := c.toNat
  let value? :=
    if 48 ≤ n ∧ n ≤ 57 then some (n - 48)
    else if 97 ≤ n ∧ n ≤ 122 then some (n - 87)
    else if 65 ≤ n ∧ n ≤ 90 then some (n - 55)
    else none
  value?.filter (· < radix)

/-- The number `n` with one more digit, if that is below `limit`. -/
def pushDigit? (radix limit n : Nat) (c : Char) : Option Nat :=
  ((digit? radix c).map (radix * n + ·)).filter (· < limit)

/-- The value of a non-empty run of digits, if it is below `limit`. -/
def natBelow? (radix limit : Nat) (digits : List Char) : Option Nat :=
  if digits.isEmpty then none else digits.foldlM (pushDigit? radix limit) 0

/-- A decimal number below `limit`; one plus sign may stand before its digits. -/
def unsigned? (limit : Nat) (s : String) : Option Nat :=
  match s.toList with
  | '+' :: digits => natBelow? 10 limit digits
  | digits => natBelow? 10 limit digits

/-- A port number: a decimal number below 65536. -/
def port? (s : String) : Option Nat :=
  unsigned? 65536 s

/-- The value of the decimal digits a text starts with (0 if there are none), or `top` if it
is larger than `top`. -/
def decimalPrefix (top : Nat) (s : String) : Nat :=
  let digits := s.toList.takeWhile fun c => decide ('0' ≤ c ∧ c ≤ '9')
  digits.foldl (fun n c => min top (10 * n + (c.toNat - 48))) 0

/-- 2⁶³, the first number that is no 64-bit signed integer. -/
def signedLimit : Nat := 0x8000000000000000

/-- An unsigned 64-bit number that shows its radix, blanks around it aside. -/
def radixNat? (s : String) : Option Nat :=
  match (trim s).toList with
  | '0' :: 'x' :: digits => natBelow? 16 UInt64.size digits
  | '0' :: 'X' :: digits => natBelow? 16 UInt64.size digits
  | '0' :: d :: digits => natBelow? 8 UInt64.size (d :: digits)
  | digits => natBelow? 10 UInt64.size digits

/-- A number with an optional sign, its magnitude written as `radixNat?` reads it and less than
2⁶³. -/
def radixInt? (s : String) : Option Int :=
  let magnitude? (digits : List Char) : Option Nat :=
    (radixNat? (String.ofList digits)).filter (· < signedLimit)
  match (trim s).toList with
  | '-' :: digits => (magnitude? digits).map fun n => -(n : Int)
  | '+' :: digits => (magnitude? digits).map fun n => (n : Int)
  | digits => (magnitude? digits).map fun n => (n : Int)

end WsRelay.Text
