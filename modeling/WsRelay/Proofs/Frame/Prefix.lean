import WsRelay.Frame.Codec
/-! # Frames at the front of a buffer

What a header or a frame says does not change when more bytes follow it (`Header.parse?_append`,
`decode?_append`).  `decode?_of_le` says what a complete frame is decoded to, and `drop_decoded`
that unmasking its payload leaves what follows the frame alone. -/

namespace WsRelay.Frame

namespace Header

variable {x : Bytes} {h : Header}

theorem splitLength_append {short : UInt8} {rest after : Bytes} {n used : Nat} (y : Bytes)
    (h : splitLength short rest = some (n, used, after)) :
    splitLength short (rest ++ y) = some (n, used, after ++ y) := by
  unfold splitLength at h ⊢
  split at h
  · next h126 =>
    rw [if_pos h126]
    split at h
    · cases h
      rfl
    · cases h
  · next h126 =>
    rw [if_neg h126]
    split at h
    · next h127 =>
      rw [if_pos h127]
      split at h
      · cases h
        rfl
      · cases h
    · next h127 =>
      rw [if_neg h127]
      cases h
      rfl

/-- A header that is complete stays what it is when more bytes follow. -/
theorem parse?_append (y : Bytes) (hp : parse? x = some h) : parse? (x ++ y) = some h := by
  match x, hp with
  | first :: second :: rest, hp =>
      simp only [parse?, List.cons_append] at hp ⊢
      split at hp
      · cases hp
      · next hs =>
        rw [splitLength_append y hs]
        dsimp only
        split at hp
        · next hm =>
          rw [if_pos hm]
          exact hp
        · next hm =>
          rw [if_neg hm]
          split at hp
          · exact hp
          · cases hp

/-- No more than fourteen bytes are needed for a header. -/
theorem parse?_ne_none (hx : 14 ≤ x.length) : parse? x ≠ none := by
  intro hp
  obtain ⟨a, b, c, d, e, f, g, i, j, k, l, m, n, o, rest, rfl⟩ :
      ∃ a b c d e f g i j k l m n o rest,
        x = a :: b :: c :: d :: e :: f :: g :: i :: j :: k :: l :: m :: n :: o :: rest := by
    match x, hx with
    | a :: b :: c :: d :: e :: f :: g :: i :: j :: k :: l :: m :: n :: o :: rest, _ =>
        exact ⟨a, b, c, d, e, f, g, i, j, k, l, m, n, o, rest, rfl⟩
  simp only [parse?] at hp
  split at hp
  · next hs =>
    unfold splitLength at hs
    split at hs
    · cases hs
    · split at hs <;> cases hs
  · next hs =>
    unfold splitLength at hs
    split at hp
    · cases hp
    · split at hs
      · cases hs; cases hp
      · split at hs
        · cases hs; cases hp
        · cases hs; cases hp

end Header

variable {x after : Bytes} {h : Header} {frame : Decoded}

/-- What a complete frame is decoded to. -/
theorem decode?_of_le (hp : Header.parse? x = some h) (hle : h.frameLength ≤ x.length) :
    decode? x =
      some (⟨h, unmask h.mask ((x.take h.frameLength).drop h.length), h.frameLength⟩,
        x.take h.length ++ unmask h.mask ((x.take h.frameLength).drop h.length)
          ++ x.drop h.frameLength) := by
  have hnot : ¬ (x.take h.frameLength).length < h.frameLength := by
    rw [List.length_take]
    omega
  rw [decode?, hp]
  dsimp only
  rw [if_neg hnot]

theorem decode?_of_lt (hp : Header.parse? x = some h) (hlt : x.length < h.frameLength) :
    decode? x = none := by
  rw [decode?, hp]
  dsimp only
  rw [if_pos (by rw [List.length_take]; omega)]

/-- A frame that is complete is decoded in the same way when more bytes follow, and they stay as
they are. -/
theorem decode?_append (y : Bytes) (hd : decode? x = some (frame, after)) :
    decode? (x ++ y) = some (frame, after ++ y) := by
  cases hp : Header.parse? x with
  | none => rw [decode?, hp] at hd; cases hd
  | some h =>
      rcases Nat.lt_or_ge x.length h.frameLength with hlt | hle
      · rw [decode?_of_lt hp hlt] at hd; cases hd
      · rw [decode?_of_le hp hle] at hd
        obtain ⟨rfl, rfl⟩ := Prod.mk.inj (Option.some.inj hd)
        have hhead := Header.length_le_frameLength hp
        rw [decode?_of_le (Header.parse?_append y hp) (by rw [List.length_append]; omega),
          List.take_append_of_le_length hle, List.take_append_of_le_length (by omega),
          List.drop_append_of_le_length hle]
        simp only [List.append_assoc]

/-- Unmasking a frame's payload leaves alone what follows the frame. -/
theorem drop_decoded (hd : decode? x = some (frame, after)) :
    after.drop frame.length = x.drop frame.length := by
  cases hp : Header.parse? x with
  | none => rw [decode?, hp] at hd; cases hd
  | some h =>
      rcases Nat.lt_or_ge x.length h.frameLength with hlt | hle
      · rw [decode?_of_lt hp hlt] at hd; cases hd
      · rw [decode?_of_le hp hle] at hd
        obtain ⟨rfl, rfl⟩ := Prod.mk.inj (Option.some.inj hd)
        have hhead := Header.length_le_frameLength hp
        refine List.drop_left' ?_
        simp only [List.length_append, List.length_take, length_unmask, List.length_drop]
        omega

end WsRelay.Frame
