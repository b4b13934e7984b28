import WsRelay.Bytes
/-! # First occurrences

`Bytes.indexOf?` finds the first place where a needle stands (`indexOf?_eq_some_iff`).  More bytes
behind a byte string do not move an occurrence that lies inside it (`indexOf?_append`), and an
occurrence that they bring about reaches into them (`lt_of_indexOf?_append`).  A search may
therefore begin behind the places that an earlier one has ruled out (`indexOf?_drop`). -/

namespace WsRelay.Bytes

variable {needle bs x y line rest : Bytes} {n : Nat}

/-- A prefix that is no longer than the front of a byte string is a prefix of that front. -/
theorem prefix_of_append (h : needle <+: x ++ y) (hlen : needle.length ≤ x.length) : needle <+: x :=
  List.prefix_of_prefix_length_le h (List.prefix_append x y) hlen

theorem indexOf?_eq_some_iff :
    indexOf? needle bs = some n ↔
      n ≤ bs.length ∧ needle <+: bs.drop n ∧ ∀ k < n, ¬ needle <+: bs.drop k := by
  induction bs generalizing n with
  | nil =>
      cases needle with
      | nil =>
          simp only [indexOf?, List.isEmpty_nil, if_true, Option.some.injEq, List.length_nil]
          constructor
          · rintro rfl
            exact ⟨Nat.le_refl 0, List.nil_prefix, fun k hk => absurd hk (Nat.not_lt_zero k)⟩
          · exact fun h => (Nat.le_zero.mp h.1).symm
      | cons a needle => simp [indexOf?]
  | cons b bs ih =>
      by_cases hp : needle.isPrefixOf (b :: bs) = true
      · rw [indexOf?_of_isPrefixOf hp]
        rw [List.isPrefixOf_iff_prefix] at hp
        constructor
        · rintro ⟨⟩
          exact ⟨Nat.zero_le _, hp, fun k hk => absurd hk (Nat.not_lt_zero k)⟩
        · rintro ⟨-, -, h⟩
          rcases Nat.eq_zero_or_pos n with rfl | hn
          · rfl
          · exact absurd hp (h 0 hn)
      · rw [indexOf?_cons hp, Option.map_eq_some_iff]
        rw [List.isPrefixOf_iff_prefix] at hp
        constructor
        · rintro ⟨m, hm, rfl⟩
          obtain ⟨hle, hat, hbefore⟩ := ih.mp hm
          refine ⟨Nat.succ_le_succ hle, hat, fun k hk => ?_⟩
          cases k with
          | zero => exact hp
          | succ k => exact hbefore k (by omega)
        · rintro ⟨hle, hat, hbefore⟩
          cases n with
          | zero => exact absurd hat hp
          | succ n =>
              refine ⟨n, ih.mpr ⟨Nat.le_of_succ_le_succ hle, hat, fun k hk => ?_⟩, rfl⟩
              exact hbefore (k + 1) (by omega)

theorem indexOf?_eq_none_iff :
    indexOf? needle bs = none ↔ ∀ k ≤ bs.length, ¬ needle <+: bs.drop k := by
  induction bs with
  | nil => cases needle <;> simp [indexOf?]
  | cons b bs ih =>
      by_cases hp : needle.isPrefixOf (b :: bs) = true
      · rw [indexOf?_of_isPrefixOf hp]
        rw [List.isPrefixOf_iff_prefix] at hp
        constructor
        · rintro ⟨⟩
        · exact fun h => absurd hp (h 0 (Nat.zero_le _))
      · rw [indexOf?_cons hp, Option.map_eq_none_iff, ih]
        rw [List.isPrefixOf_iff_prefix] at hp
        constructor
        · intro h k hk
          cases k with
          | zero => exact hp
          | succ k => exact h k (Nat.le_of_succ_le_succ hk)
        · exact fun h k hk => h (k + 1) (Nat.succ_le_succ hk)

/-- An occurrence stays where it is when more bytes follow. -/
theorem indexOf?_append (h : indexOf? needle x = some n) : indexOf? needle (x ++ y) = some n := by
  obtain ⟨hle, hat, hbefore⟩ := indexOf?_eq_some_iff.mp h
  have hlen := hat.length_le
  rw [List.length_drop] at hlen
  refine indexOf?_eq_some_iff.mpr ⟨by rw [List.length_append]; omega, ?_, fun k hk hp => ?_⟩
  · rw [List.drop_append_of_le_length hle]
    exact hat.trans (List.prefix_append _ _)
  · rw [List.drop_append_of_le_length (by omega)] at hp
    exact hbefore k hk (prefix_of_append hp (by rw [List.length_drop]; omega))

/-- An occurrence that was not there before more bytes came ends among them. -/
theorem lt_of_indexOf?_append (hx : indexOf? needle x = none)
    (h : indexOf? needle (x ++ y) = some n) : x.length < n + needle.length := by
  obtain ⟨-, hat, -⟩ := indexOf?_eq_some_iff.mp h
  refine Nat.lt_of_not_le fun hge => ?_
  rw [List.drop_append_of_le_length (by omega)] at hat
  exact indexOf?_eq_none_iff.mp hx n (by omega)
    (prefix_of_append hat (by rw [List.length_drop]; omega))

/-- A search may leave out the places where the needle is known not to stand. -/
theorem indexOf?_drop (hle : n ≤ bs.length) (h : ∀ k < n, ¬ needle <+: bs.drop k) :
    indexOf? needle bs = (indexOf? needle (bs.drop n)).map (n + ·) := by
  cases hd : indexOf? needle (bs.drop n) with
  | none =>
      refine indexOf?_eq_none_iff.mpr fun k hk hp => ?_
      rcases Nat.lt_or_ge k n with hlt | hge
      · exact h k hlt hp
      · refine indexOf?_eq_none_iff.mp hd (k - n) (by rw [List.length_drop]; omega) ?_
        rwa [List.drop_drop, Nat.add_sub_cancel' hge]
  | some m =>
      obtain ⟨hm, hat, hbefore⟩ := indexOf?_eq_some_iff.mp hd
      rw [List.length_drop] at hm
      show _ = some (n + m)
      refine indexOf?_eq_some_iff.mpr ⟨by omega, by rwa [← List.drop_drop], fun k hk hp => ?_⟩
      rcases Nat.lt_or_ge k n with hlt | hge
      · exact h k hlt hp
      · refine hbefore (k - n) (by omega) ?_
        rwa [List.drop_drop, Nat.add_sub_cancel' hge]

/-- A line is taken off a buffer as soon as it is there. -/
theorem splitLine?_append (h : splitLine? x = some (line, rest)) :
    splitLine? (x ++ y) = some (line, rest ++ y) := by
  obtain ⟨n, hn, hp⟩ := Option.map_eq_some_iff.mp h
  obtain ⟨rfl, rfl⟩ := Prod.mk.inj hp
  have hle := indexOf?_le hn
  simp only [lineEnd, List.length_cons, List.length_nil] at hle
  rw [splitLine?, indexOf?_append hn, Option.map_some, List.take_append_of_le_length (by omega),
    List.drop_append_of_le_length (by omega)]

end WsRelay.Bytes
