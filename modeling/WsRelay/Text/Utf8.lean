import WsRelay.Bytes
/-! # UTF-8

Writing text as bytes (`encode`) and reading bytes as text.  Bytes are read one at a time by a
machine whose state says what the next byte may be.  A byte that cannot continue the character
begun, or the end of the bytes inside one, makes one malformed unit of the bytes read so far, and
the byte is read again as the first of a character.  `decode?` refuses malformed units,
`decodeLossy` puts the replacement character U+FFFD in the place of each. -/

namespace WsRelay.Utf8

/-- A text as bytes. -/
def encode (s : String) : Bytes :=
  s.toList.flatMap String.utf8EncodeChar

/-- Where the reader stands: between characters, or inside one with `owed + 1` bytes to come,
the next of them from `low` to `high`, and the number the bytes so far have spelt. -/
inductive State where
  | between
  | inside (owed : Nat) (low high : UInt8) (value : Nat)
deriving DecidableEq, Repr

/-- A character, or a malformed unit. -/
abbrev Piece := Option Char

/-- The first byte of a character. -/
def first (b : UInt8) : List Piece × State :=
  let n := b.toNat
  if n < 0x80 then ([some (Char.ofNat n)], .between)
  else if n < 0xC2 then ([none], .between)
  else if n < 0xE0 then ([], .inside 0 0x80 0xBF (n - 0xC0))
  else if n = 0xE0 then ([], .inside 1 0xA0 0xBF 0)
  else if n = 0xED then ([], .inside 1 0x80 0x9F 0xD)
  else if n < 0xF0 then ([], .inside 1 0x80 0xBF (n - 0xE0))
  else if n = 0xF0 then ([], .inside 2 0x90 0xBF 0)
  else if n < 0xF4 then ([], .inside 2 0x80 0xBF (n - 0xF0))
  else if n = 0xF4 then ([], .inside 2 0x80 0x8F 4)
  else ([none], .between)

/-- One byte: the pieces it completes, and the state after it. -/
def step : State → UInt8 → List Piece × State
  | .between, b => first b
  | .inside owed low high value, b =>
    if low ≤ b ∧ b ≤ high then
      let value := 64 * value + (b.toNat - 0x80)
      match owed with
      | 0 => ([some (Char.ofNat value)], .between)
      | owed + 1 => ([], .inside owed 0x80 0xBF value)
    else
      let (pieces, next) := first b
      (none :: pieces, next)

/-- The pieces of a byte string. -/
def pieces : State → Bytes → List Piece
  | .between, [] => []
  | .inside .., [] => [none]
  | state, b :: bs =>
    let (done, next) := step state b
    done ++ pieces next bs

/-- The text the bytes encode, if they are well-formed. -/
def decode? (bs : Bytes) : Option String :=
  ((pieces .between bs).mapM id).map String.ofList

/-- The text the bytes encode, with U+FFFD for each malformed unit. -/
def decodeLossy (bs : Bytes) : String :=
  String.ofList ((pieces .between bs).map fun p => p.getD (Char.ofNat 0xFFFD))

end WsRelay.Utf8
