import WsRelay.Bytes
/-! # Fast search

A needle that nearly occurs at every place makes `Bytes.indexOf?` compare it at every place.
`Bytes.search?` compares it only where a hash of as many bytes agrees with the needle's, and the
hash of the next place follows from the one before (`roll_hash`).  It finds the same occurrence
(`search?_eq`). -/

namespace WsRelay.Bytes

/-- The base of the hash. -/
def hashBase : UInt64 := 0x9E3779B97F4A7C15

/-- The bytes as digits to the base `hashBase`, in 64 bits. -/
def hash (bs : Bytes) : UInt64 :=
  bs.foldl (fun h b => hashBase * h + b.toUInt64) 0

/-- The weight of a byte that `n` others follow. -/
def weight : (n : Nat) → UInt64
  | 0 => 1
  | n + 1 => hashBase * weight n

/-- The hash after `a` has left a byte string in front, where it had weight `w`, and `b` has come
behind. -/
def roll (w h : UInt64) (a b : UInt8) : UInt64 :=
  hashBase * (h - w * a.toUInt64) + b.toUInt64

/-- The search at a place that `passed` bytes stand before.  `h` is the hash of as many bytes as
the needle has, and `ahead` is what follows them. -/
def searchAt (needle : Bytes) (goal w : UInt64) :
    (passed : Nat) → (h : UInt64) → (bs ahead : Bytes) → Option Nat
  | passed, h, bs, [] => if h = goal ∧ needle.isPrefixOf bs then some passed else none
  | passed, h, bs, b :: ahead =>
    if h = goal ∧ needle.isPrefixOf bs then some passed
    else match bs with
      | [] => none
      | a :: bs => searchAt needle goal w (passed + 1) (roll w h a b) bs ahead

/-- How many bytes stand before the first occurrence of `needle`. -/
def search? (needle bs : Bytes) : Option Nat :=
  let size := needle.length
  let front := bs.take size
  if front.length < size then none
  else searchAt needle (hash needle) (weight (size - 1)) 0 (hash front) bs (bs.drop size)

/-! ### Laws -/

theorem foldl_hash (h : UInt64) (bs : Bytes) :
    bs.foldl (fun h b => hashBase * h + b.toUInt64) h = weight bs.length * h + hash bs := by
  induction bs generalizing h with
  | nil => simp [weight, hash]
  | cons b bs ih =>
    have hb : hash (b :: bs) = weight bs.length * b.toUInt64 + hash bs := by
      show bs.foldl _ (hashBase * 0 + b.toUInt64) = _
      rw [ih]; simp
    rw [List.foldl_cons, ih, hb, List.length_cons, weight]
    grind

theorem hash_cons (b : UInt8) (bs : Bytes) :
    hash (b :: bs) = weight bs.length * b.toUInt64 + hash bs := by
  show bs.foldl _ (hashBase * 0 + b.toUInt64) = _
  rw [foldl_hash]
  simp

theorem hash_concat (bs : Bytes) (b : UInt8) :
    hash (bs ++ [b]) = hashBase * hash bs + b.toUInt64 := by
  simp [hash]

/-- Rolling a hash gives the hash of the bytes rolled to. -/
theorem roll_hash (a b : UInt8) (bs : Bytes) :
    roll (weight bs.length) (hash (a :: bs)) a b = hash (bs ++ [b]) := by
  rw [roll, hash_cons, hash_concat]
  grind

/-- Where a needle is found, the hashes agree. -/
theorem hash_take_eq {needle bs : Bytes} (h : needle.isPrefixOf bs = true) :
    hash (bs.take needle.length) = hash needle := by
  rw [← List.prefix_iff_eq_take.mp (List.isPrefixOf_iff_prefix.mp h)]

/-- The search from a place on finds what the plain search finds there, if it starts with the hash
of that place. -/
theorem searchAt_eq {needle ahead bs : Bytes} (passed : Nat) (hpos : needle ≠ [])
    (hlen : bs.length = needle.length + ahead.length) (hdrop : bs.drop needle.length = ahead) :
    searchAt needle (hash needle) (weight (needle.length - 1)) passed
        (hash (bs.take needle.length)) bs ahead
      = (indexOf? needle bs).map (passed + ·) := by
  have hpos' : 0 < needle.length := List.length_pos_iff.mpr hpos
  induction ahead generalizing bs passed with
  | nil =>
    unfold searchAt
    by_cases hp : needle.isPrefixOf bs = true
    · simp [hp, hash_take_eq hp, indexOf?_of_isPrefixOf hp]
    · cases bs with
      | nil => simp only [List.length_nil] at hlen; omega
      | cons a bs =>
        simp only [List.length_cons, List.length_nil] at hlen
        rw [indexOf?_cons hp, indexOf?_eq_none (by omega)]
        simp [hp]
  | cons b ahead ih =>
    unfold searchAt
    by_cases hp : needle.isPrefixOf bs = true
    · simp [hp, hash_take_eq hp, indexOf?_of_isPrefixOf hp]
    · cases bs with
      | nil => simp only [List.length_nil] at hlen; omega
      | cons a bs =>
        obtain ⟨k, hk⟩ : ∃ k, needle.length = k + 1 := ⟨needle.length - 1, by omega⟩
        simp only [List.length_cons] at hlen
        rw [hk, List.drop_succ_cons] at hdrop
        have htake : bs.take (k + 1) = bs.take k ++ [b] := by
          rw [List.take_add_one, ← List.head?_drop, hdrop]
          rfl
        have hroll : roll (weight (needle.length - 1)) (hash ((a :: bs).take needle.length)) a b
            = hash (bs.take needle.length) := by
          have hl : (bs.take k).length = k := by rw [List.length_take]; omega
          rw [hk, List.take_succ_cons, htake, ← roll_hash, hl]
          rfl
        rw [if_neg (fun h => hp h.2), indexOf?_cons hp]
        dsimp only
        rw [hroll, ih (passed + 1) (by omega) (by rw [hk, ← List.drop_drop, hdrop]; rfl)]
        cases indexOf? needle bs with
        | none => rfl
        | some n => simp only [Option.map_some, Option.some.injEq]; omega

/-- The fast search finds what the plain one finds. -/
@[simp] theorem search?_eq (needle bs : Bytes) : search? needle bs = indexOf? needle bs := by
  unfold search?
  dsimp only
  split
  · next h =>
    rw [List.length_take] at h
    exact (indexOf?_eq_none (by omega)).symm
  · next h =>
    rw [List.length_take] at h
    cases needle with
    | nil => cases bs <;> simp [searchAt, indexOf?, hash]
    | cons a needle =>
      rw [searchAt_eq 0 (List.cons_ne_nil a needle) (by simp; simp at h; omega) rfl]
      simp

end WsRelay.Bytes
