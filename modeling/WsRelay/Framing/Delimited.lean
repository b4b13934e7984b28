import WsRelay.Bytes.Search
import WsRelay.Framing.Passthrough
import WsRelay.Text.Cut
/-! # Framings by a delimiter

A unit ends with a fixed byte sequence, the needle, which is part of the unit.  `separator` takes
the needle from its configuration, where bytes may be written as escapes; `newline` takes one of
four line ends.

Only bytes that have not been searched before are searched: those that arrived last, and as many
before them as may hold the start of a needle (`unitEnd`). -/

namespace WsRelay.Framing

/-- The value of a hexadecimal digit. -/
def hexValue? (b : UInt8) : Option UInt8 :=
  if 48 ≤ b ∧ b ≤ 57 then some (b - 48)
  else if 97 ≤ b ∧ b ≤ 102 then some (b - 87)
  else if 65 ≤ b ∧ b ≤ 70 then some (b - 55)
  else none

/-- The byte an escape of one character stands for. -/
def escaped? (b : UInt8) : Option UInt8 :=
  if b = 48 then some 0          -- `\0`
  else if b = 116 then some 9    -- `\t`
  else if b = 110 then some 10   -- `\n`
  else if b = 102 then some 12   -- `\f`
  else if b = 114 then some 13   -- `\r`
  else if b = 92 then some 92    -- a second backslash
  else none

/-- The bytes a configuration spells. -/
def unescape : Bytes → Except FramingError Bytes
  | [] => .ok []
  | 92 :: 120 :: hi :: lo :: rest =>
    match hexValue? hi, hexValue? lo with
    | some hi, some lo => (unescape rest).map ((hi <<< 4 ||| lo) :: ·)
    | _, _ => .error .badHexEscape
  | 92 :: 120 :: _ => .error .badHexEscape
  | 92 :: b :: rest =>
    match escaped? b with
    | some value => (unescape rest).map (value :: ·)
    | none => .error (.unknownEscape b)
  | [92] => .error .trailingBackslash
  | b :: rest => (unescape rest).map (b :: ·)

/-- The needle a configuration spells, which must not be empty. -/
def parseNeedle (config : String) : Except FramingError Bytes :=
  match unescape (Utf8.encode config) with
  | .error e => .error e
  | .ok [] => .error .emptySeparator
  | .ok needle => .ok needle

/-- The end of the first needle that reaches into the last `lastRead` bytes, 0 if there is
none. -/
def unitEnd (data : Bytes) (lastRead : Nat) (needle : Bytes) : Nat :=
  if needle.isEmpty then 0
  else
    let start := data.length - lastRead - (needle.length - 1)
    match Bytes.search? needle (data.drop start) with
    | none => 0
    | some n => start + n + needle.length

variable {σ : Type}

/-- The needle in the memory, or a new one, which is then remembered. -/
def recallNeedle (memory : Memory σ) (make : Except FramingError Bytes) :
    Except FramingError Bytes × Memory σ :=
  match memory with
  | .needle bytes => (.ok bytes, memory)
  | _ =>
    match make with
    | .error e => (.error e, memory)
    | .ok bytes => (.ok bytes, .needle bytes)

/-- Units that end with the byte sequence configured. -/
def separator : Rule σ :=
  fun data lastRead config memory =>
    match recallNeedle memory (parseNeedle config) with
    | (.error e, memory) => (.error e, memory)
    | (.ok needle, memory) => (.ok ⟨unitEnd data lastRead needle, .binary⟩, memory)

/-- The line end a configuration names; carriage return and line feed if it names none. -/
def terminator (config : String) : Bytes :=
  let name := Text.trim config
  if name = "lf" then [10]
  else if name = "cr" then [13]
  else if name = "lfcr" then [10, 13]
  else [13, 10]

/-- Lines, sent as text if they look like it. -/
def newline : Rule σ :=
  fun data lastRead config memory =>
    match recallNeedle memory (.ok (terminator config)) with
    | (.error e, memory) => (.error e, memory)
    | (.ok needle, memory) =>
      let n := unitEnd data lastRead needle
      (.ok ⟨n, if n = 0 then .binary else textKind (data.take n)⟩, memory)

end WsRelay.Framing
