import WsRelay.Bytes
/-! # Digests as text

SHA-1, the 160-bit digest of FIPS 180-4: a message is padded to a whole number of 64-byte blocks,
and each block is mixed into five 32-bit words in eighty rounds.

Base64, the encoding of RFC 4648 §4: three bytes become four characters, and the last group is
filled with `=`. -/

namespace WsRelay.Sha1

/-- The five words of the digest. -/
structure Words where
  a : UInt32
  b : UInt32
  c : UInt32
  d : UInt32
  e : UInt32
deriving DecidableEq, Repr

/-- The words before the first block. -/
def Words.initial : Words :=
  ⟨0x67452301, 0xEFCDAB89, 0x98BADCFE, 0x10325476, 0xC3D2E1F0⟩

/-- Rotation to the left by `n` bits, `0 < n < 32`. -/
def rotate (n x : UInt32) : UInt32 :=
  (x <<< n) ||| (x >>> (32 - n))

/-- The message, a one bit, zero bits, and the length in bits as the last 64 bits. -/
def padded (message : Bytes) : Bytes :=
  message ++ 0x80 :: List.replicate ((119 - message.length % 64) % 64) 0
    ++ Bytes.ofNat 8 (8 * message.length)

/-- The eighty words a block is stretched to. -/
def schedule (block : Bytes) : Array UInt32 :=
  let start := (List.range 16).map fun i =>
    UInt32.ofNat (Bytes.bigEndian ((block.drop (4 * i)).take 4))
  (List.range 64).foldl
    (fun w i => w.push (rotate 1 (w.getD (i + 13) 0 ^^^ w.getD (i + 8) 0 ^^^ w.getD (i + 2) 0
      ^^^ w.getD i 0)))
    start.toArray

/-- The function and the constant of round `i`. -/
def mix (i : Nat) (b c d : UInt32) : UInt32 × UInt32 :=
  if i < 20 then ((b &&& c) ||| (~~~b &&& d), 0x5A827999)
  else if i < 40 then (b ^^^ c ^^^ d, 0x6ED9EBA1)
  else if i < 60 then ((b &&& c) ||| (b &&& d) ||| (c &&& d), 0x8F1BBCDC)
  else (b ^^^ c ^^^ d, 0xCA62C1D6)

/-- One round, with its word of the schedule. -/
def Words.round (s : Words) (i : Nat) (w : UInt32) : Words :=
  let (f, k) := mix i s.b s.c s.d
  ⟨rotate 5 s.a + f + s.e + k + w, s.a, rotate 30 s.b, s.c, s.d⟩

/-- The words after a block. -/
def Words.absorb (s : Words) (block : Bytes) : Words :=
  let w := schedule block
  let t := (List.range 80).foldl (fun t i => t.round i (w.getD i 0)) s
  ⟨s.a + t.a, s.b + t.b, s.c + t.c, s.d + t.d, s.e + t.e⟩

/-- The words after `count` blocks of a padded message. -/
def Words.absorbBlocks (s : Words) : (count : Nat) → Bytes → Words
  | 0, _ => s
  | count + 1, bs => (s.absorb (bs.take 64)).absorbBlocks count (bs.drop 64)

/-- The digest of a message, twenty bytes. -/
def digest (message : Bytes) : Bytes :=
  let p := padded message
  let s := Words.initial.absorbBlocks (p.length / 64) p
  [s.a, s.b, s.c, s.d, s.e].flatMap fun w => Bytes.ofNat 4 w.toNat

end WsRelay.Sha1

namespace WsRelay.Base64

/-- The characters of the values 0 to 63. -/
def alphabet : List Char :=
  "ABCDEFGHIJKLMNOPQRSTUVWXYZabcdefghijklmnopqrstuvwxyz0123456789+/".toList

/-- The character of the low six bits of `n`. -/
def sextet (n : Nat) : Char :=
  alphabet.getD (n % 64) 'A'

/-- The characters of a byte string. -/
def encodeList : Bytes → List Char
  | [] => []
  | [a] =>
    let n := a.toNat * 16
    [sextet (n / 64), sextet n, '=', '=']
  | [a, b] =>
    let n := (a.toNat * 256 + b.toNat) * 4
    [sextet (n / 4096), sextet (n / 64), sextet n, '=']
  | a :: b :: c :: rest =>
    let n := (a.toNat * 256 + b.toNat) * 256 + c.toNat
    sextet (n / 262144) :: sextet (n / 4096) :: sextet (n / 64) :: sextet n :: encodeList rest

/-- A byte string as base64 text. -/
def encode (bs : Bytes) : String :=
  String.ofList (encodeList bs)

end WsRelay.Base64
