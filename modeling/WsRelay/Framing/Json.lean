import WsRelay.Framing.Passthrough
/-! # The framing by JSON values

Each unit is one JSON value with the blanks before it.  Bytes that are no JSON are passed on as
they are, so that a peer that speaks something else is still heard (`Framing.jsonValue`).

A machine reads the bytes of one JSON value (RFC 8259), one at a time, and says where the value
ends (`Json.scan`).  Its state is what it expects next and the brackets that are open.  Strings are
taken as bytes: any byte from 0x20 on stands for itself in them, a quote and a backslash excepted.

A value that its last byte closes (an object, an array, a string or a literal) ends there.  A
number ends before the first byte that no number contains, which has to be a blank, a comma or a
closing bracket, or with the end of the buffer. -/

namespace WsRelay.Json

/-- The brackets of objects and of arrays. -/
inductive Bracket where
  | object
  | array
deriving DecidableEq, Repr

/-- The byte that closes a bracket. -/
def Bracket.close : Bracket → UInt8
  | object => 125
  | array => 93

/-- How many brackets may be open. -/
def depthLimit : Nat := 128

/-- How far a number has been read. -/
inductive Numeral where
  | minus
  | zero
  | whole
  | point
  | fraction
  | exponent
  | exponentSign
  | exponentDigits
  /-- No number starts like this; `dangling` if the last byte was no digit. -/
  | broken (dangling : Bool)
deriving DecidableEq, Repr

/-- The byte is one of the digits 0 to 9. -/
def isDigit (b : UInt8) : Bool :=
  48 ≤ b && b ≤ 57

/-- The byte is a sign. -/
def isSign (b : UInt8) : Bool :=
  b == 43 || b == 45

/-- The byte is the letter e of an exponent. -/
def isExponent (b : UInt8) : Bool :=
  b == 101 || b == 69

/-- The byte can stand in a number. -/
def inNumber (b : UInt8) : Bool :=
  isDigit b || isSign b || b == 46 || isExponent b

namespace Numeral

/-- After one more byte that can stand in a number. -/
def push (n : Numeral) (b : UInt8) : Numeral :=
  match n with
  | minus => if b = 48 then zero else if isDigit b then whole else broken (!isDigit b)
  | zero => if b = 46 then point else if isExponent b then exponent else broken (!isDigit b)
  | whole =>
    if isDigit b then whole else if b = 46 then point
    else if isExponent b then exponent else broken (!isDigit b)
  | point => if isDigit b then fraction else broken (!isDigit b)
  | fraction =>
    if isDigit b then fraction else if isExponent b then exponent else broken (!isDigit b)
  | exponent =>
    if isDigit b then exponentDigits else if isSign b then exponentSign else broken (!isDigit b)
  | exponentSign => if isDigit b then exponentDigits else broken (!isDigit b)
  | exponentDigits => if isDigit b then exponentDigits else broken (!isDigit b)
  | broken _ => broken (!isDigit b)

/-- A whole number has been read. -/
def isWhole : Numeral → Bool
  | zero | whole | fraction | exponentDigits => true
  | _ => false

/-- The last byte asks for another one. -/
def isDangling : Numeral → Bool
  | minus | point | exponent | exponentSign => true
  | broken dangling => dangling
  | _ => false

end Numeral

/-- What is expected next. -/
inductive Expect where
  /-- A value. -/
  | value
  /-- After an opening bracket: what it may hold, or its close. -/
  | content (bracket : Bracket)
  /-- A key, after a comma in an object. -/
  | key
  /-- The colon after a key. -/
  | colon
  /-- A comma or the close of the innermost bracket. -/
  | separator
  /-- The inside of a string. -/
  | text (isKey : Bool)
  /-- The second byte of an escape. -/
  | escape (isKey : Bool)
  /-- The `left + 1` hexadecimal digits still missing from an escape. -/
  | hex (left : Nat) (isKey : Bool)
  /-- The rest of a literal, not empty. -/
  | word (rest : Bytes)
  /-- More of a number. -/
  | number (n : Numeral)
deriving DecidableEq, Repr

/-- What one byte leads to. -/
inductive Move where
  | next (expect : Expect) (brackets : List Bracket)
  /-- The value ends with this byte. -/
  | ends
  /-- The value ended before this byte. -/
  | ended
  | fails
deriving DecidableEq, Repr

/-- Space, tab, line feed and carriage return. -/
def isBlank (b : UInt8) : Bool :=
  b == 32 || b == 9 || b == 10 || b == 13

/-- The byte is a hexadecimal digit. -/
def isHex (b : UInt8) : Bool :=
  isDigit b || (65 ≤ b && b ≤ 70) || (97 ≤ b && b ≤ 102)

/-- After the last byte of a value inside `brackets`. -/
def afterValue (brackets : List Bracket) : Move :=
  if brackets.isEmpty then .ends else .next .separator brackets

/-- After the last byte of a string. -/
def afterText (isKey : Bool) (brackets : List Bracket) : Move :=
  if isKey then .next .colon brackets else afterValue brackets

/-- The first byte of a value. -/
def startValue (brackets : List Bracket) (b : UInt8) : Move :=
  if b = 123 then
    if brackets.length < depthLimit then .next (.content .object) (.object :: brackets)
    else .fails
  else if b = 91 then
    if brackets.length < depthLimit then .next (.content .array) (.array :: brackets)
    else .fails
  else if b = 34 then .next (.text false) brackets
  else if b = 45 then .next (.number .minus) brackets
  else if b = 48 then .next (.number .zero) brackets
  else if isDigit b then .next (.number .whole) brackets
  else if b = 116 then .next (.word [114, 117, 101]) brackets
  else if b = 102 then .next (.word [97, 108, 115, 101]) brackets
  else if b = 110 then .next (.word [117, 108, 108]) brackets
  else .fails

/-- A byte where a comma or a closing bracket is expected. -/
def stepSeparator (brackets : List Bracket) (b : UInt8) : Move :=
  match brackets with
  | [] => .fails
  | bracket :: outer =>
    if isBlank b then .next .separator brackets
    else if b = bracket.close then afterValue outer
    else if b = 44 then
      .next (match bracket with | .object => .key | .array => .value) brackets
    else .fails

/-- A byte where something is expected. -/
def step (expect : Expect) (brackets : List Bracket) (b : UInt8) : Move :=
  match expect with
  | .value => if isBlank b then .next .value brackets else startValue brackets b
  | .content bracket =>
    if isBlank b then .next (.content bracket) brackets
    else if b = bracket.close then afterValue brackets.tail
    else match bracket with
      | .object => if b = 34 then .next (.text true) brackets else .fails
      | .array => startValue brackets b
  | .key =>
    if isBlank b then .next .key brackets
    else if b = 34 then .next (.text true) brackets
    else .fails
  | .colon =>
    if isBlank b then .next .colon brackets
    else if b = 58 then .next .value brackets
    else .fails
  | .separator => stepSeparator brackets b
  | .text isKey =>
    if b = 34 then afterText isKey brackets
    else if b = 92 then .next (.escape isKey) brackets
    else if b < 32 then .fails
    else .next (.text isKey) brackets
  | .escape isKey =>
    if b = 117 then .next (.hex 3 isKey) brackets
    else if [34, 92, 47, 98, 102, 110, 114, 116].contains b then .next (.text isKey) brackets
    else .fails
  | .hex left isKey =>
    if isHex b then
      match left with
      | 0 => .next (.text isKey) brackets
      | left + 1 => .next (.hex left isKey) brackets
    else .fails
  | .word rest =>
    match rest with
    | [] => .fails
    | w :: rest =>
      if b = w then
        if rest.isEmpty then afterValue brackets else .next (.word rest) brackets
      else .fails
  | .number n =>
    if inNumber b then .next (.number (n.push b)) brackets
    else if n.isWhole && (isBlank b || b == 44 || b == 93 || b == 125) then
      if brackets.isEmpty then .ended else stepSeparator brackets b
    else .fails

/-- What a buffer holds at its front. -/
inductive Scan where
  /-- A value of this many bytes, blanks before it included. -/
  | complete (length : Nat)
  /-- The start of a value. -/
  | incomplete
  /-- No value. -/
  | invalid
deriving DecidableEq, Repr

/-- The buffer ends where something is expected, after `seen` bytes. -/
def atEnd (expect : Expect) (brackets : List Bracket) (seen : Nat) : Scan :=
  match expect with
  | .number n =>
    if n.isDangling then .incomplete
    else if n.isWhole then if brackets.isEmpty then .complete seen else .incomplete
    else .invalid
  | _ => .incomplete

/-- Scans on, `seen` bytes into the buffer. -/
def scanFrom (expect : Expect) (brackets : List Bracket) (seen : Nat) : Bytes → Scan
  | [] => atEnd expect brackets seen
  | b :: bs =>
    match step expect brackets b with
    | .next expect brackets => scanFrom expect brackets (seen + 1) bs
    | .ends => .complete (seen + 1)
    | .ended => .complete seen
    | .fails => .invalid

/-- The value at the front of a buffer. -/
def scan (data : Bytes) : Scan :=
  scanFrom .value [] 0 data

end WsRelay.Json

namespace WsRelay.Framing

variable {σ : Type}

/-- JSON values, sent as text if they look like it; anything else as one binary unit. -/
def jsonValue : Rule σ :=
  fun data _ _ memory =>
    match Json.scan data with
    | .complete n => (.ok ⟨n, textKind (data.take n)⟩, memory)
    | .incomplete => (.ok ⟨0, .binary⟩, memory)
    | .invalid => (.ok ⟨data.length, .binary⟩, memory)

end WsRelay.Framing
