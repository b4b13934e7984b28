/-! # Byte strings

Everything that crosses a socket is a list of bytes.  This module reads and writes numbers in
either byte order (`bigEndian`, `littleEndian`, `ofNat`), finds one byte string inside another
(`indexOf?`) and takes a line off the front of a buffer (`splitLine?`). -/

namespace WsRelay

/-- A byte string. -/
abbrev Bytes := List UInt8

namespace Bytes

/-- The number the bytes spell, most significant byte first. -/
def bigEndian (bs : Bytes) : Nat :=
  bs.foldl (fun n b => 256 * n + b.toNat) 0

/-- The number the bytes spell, least significant byte first. -/
def littleEndian (bs : Bytes) : Nat :=
  bs.foldr (fun b n => b.toNat + 256 * n) 0

/-- The low `width` bytes of `n`, most significant first. -/
def ofNat : (width n : Nat) → Bytes
  | 0, _ => []
  | width + 1, n => ofNat width (n / 256) ++ [UInt8.ofNat n]

/-- How many bytes stand before the first occurrence of `needle`. -/
def indexOf? (needle : Bytes) : Bytes → Option Nat
  | [] => if needle.isEmpty then some 0 else none
  | b :: bs =>
    if needle.isPrefixOf (b :: bs) then some 0 else (indexOf? needle bs).map (· + 1)

/-- Carriage return and line feed, which end a line of the opening handshake. -/
def lineEnd : Bytes := [13, 10]

/-- The first line of a buffer, without its line end, and what follows the line end. -/
def splitLine? (bs : Bytes) : Option (Bytes × Bytes) :=
  (indexOf? lineEnd bs).map fun n => (bs.take n, bs.drop (n + 2))

/-- Space, tab, line feed, form feed and carriage return. -/
def isBlank (b : UInt8) : Bool :=
  b == 32 || b == 9 || b == 10 || b == 12 || b == 13

/-! ### Lengths -/

@[simp] theorem length_ofNat (width n : Nat) : (ofNat width n).length = width := by
  induction width generalizing n with
  | zero => rfl
  | succ width ih => simp [ofNat, ih]

/-- An occurrence lies inside the byte string. -/
theorem indexOf?_le {needle bs : Bytes} {n : Nat} (h : indexOf? needle bs = some n) :
    n + needle.length ≤ bs.length := by
  induction bs generalizing n with
  | nil =>
    cases needle with
    | nil => simp [indexOf?] at h; simp [← h]
    | cons a l => simp [indexOf?] at h
  | cons b bs ih =>
    unfold indexOf? at h
    split at h
    · next hp =>
      cases h
      simpa using (List.isPrefixOf_iff_prefix.mp hp).length_le
    · obtain ⟨k, hk, rfl⟩ := Option.map_eq_some_iff.mp h
      have := ih hk
      simp only [List.length_cons]
      omega

/-- A needle does not occur in fewer bytes than it has. -/
theorem indexOf?_eq_none {needle bs : Bytes} (h : bs.length < needle.length) :
    indexOf? needle bs = none := by
  cases hn : indexOf? needle bs with
  | none => rfl
  | some n =>
    have := indexOf?_le hn
    omega

/-- Taking a line off a buffer shortens it by the line and its two-byte end. -/
theorem splitLine?_length {bs line rest : Bytes} (h : splitLine? bs = some (line, rest)) :
    bs.length = line.length + 2 + rest.length := by
  obtain ⟨n, hn, hp⟩ := Option.map_eq_some_iff.mp h
  obtain ⟨rfl, rfl⟩ := Prod.mk.inj hp
  have := indexOf?_le hn
  simp only [lineEnd, List.length_cons, List.length_nil] at this
  simp only [List.length_take, List.length_drop]
  omega

/-! ### Occurrences -/

/-- A needle that the byte string starts with occurs at its front. -/
theorem indexOf?_of_isPrefixOf {needle bs : Bytes} (h : needle.isPrefixOf bs = true) :
    indexOf? needle bs = some 0 := by
  cases bs with
  | nil => cases needle with
    | nil => rfl
    | cons => cases h
  | cons => simp [indexOf?, h]

/-- A needle that the byte string does not start with occurs behind its first byte, if at all. -/
theorem indexOf?_cons {needle bs : Bytes} {b : UInt8} (h : ¬ needle.isPrefixOf (b :: bs) = true) :
    indexOf? needle (b :: bs) = (indexOf? needle bs).map (· + 1) := by
  simp [indexOf?, h]

end Bytes

end WsRelay
