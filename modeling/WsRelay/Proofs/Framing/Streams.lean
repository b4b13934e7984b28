import WsRelay.Proofs.Framing.Cutter
import WsRelay.Proofs.Framing.Needles
import WsRelay.Proofs.Framing.Recall
import WsRelay.Proofs.Occurrence
/-! # The framings of streams

The framings by a delimiter and those by a count of bytes follow cutters (`exists_follows`), with
every configuration but the one for records of no bytes, which stands for all there is.

A delimiter that is looked for among the last bytes only is found where a search from the front
finds it, if those before have been searched (`unitEnd_eq`).  A framing whose configuration cannot
be read refuses every stream (`refusing`). -/

namespace WsRelay.Framing

variable {data x y needle : Bytes} {n : Nat}

/-! ### Delimiters -/

/-- The end of the first needle. -/
def needleEnd? (needle data : Bytes) : Option Nat :=
  (Bytes.indexOf? needle data).map (· + needle.length)

/-- Units that end with a needle. -/
def delimited (needle : Bytes) (hneedle : needle ≠ []) : Finder where
  find := needleEnd? needle
  inside h := by
    obtain ⟨n, hn, rfl⟩ := Option.map_eq_some_iff.mp h
    have := List.length_pos_iff.mpr hneedle
    exact ⟨by omega, Bytes.indexOf?_le hn⟩
  append y h := by
    obtain ⟨n, hn, rfl⟩ := Option.map_eq_some_iff.mp h
    rw [needleEnd?, Bytes.indexOf?_append hn]
    rfl
  beyond hx h := by
    obtain ⟨n, hn, rfl⟩ := Option.map_eq_some_iff.mp h
    exact Bytes.lt_of_indexOf?_append (Option.map_eq_none_iff.mp hx) hn

/-- A search among the last bytes finds the first needle, if there is none in the bytes before. -/
theorem unitEnd_eq {lastRead : Nat} (hneedle : needle ≠ [])
    (hold : needleEnd? needle (data.take (data.length - lastRead)) = none) :
    unitEnd data lastRead needle = (needleEnd? needle data).getD 0 := by
  have hpos := List.length_pos_iff.mpr hneedle
  have hnone := Bytes.indexOf?_eq_none_iff.mp (Option.map_eq_none_iff.mp hold)
  have hbefore : ∀ k < data.length - lastRead - (needle.length - 1), ¬ needle <+: data.drop k := by
    intro k hk hp
    refine hnone k (by rw [List.length_take]; omega) ?_
    have hsplit : data.drop k = (data.take (data.length - lastRead)).drop k ++
        data.drop (data.length - lastRead) := by
      rw [← List.drop_append_of_le_length (by rw [List.length_take]; omega), List.take_append_drop]
    rw [hsplit] at hp
    exact Bytes.prefix_of_append hp (by rw [List.length_drop, List.length_take]; omega)
  have hsearch := Bytes.indexOf?_drop (n := data.length - lastRead - (needle.length - 1))
    (by omega) hbefore
  unfold unitEnd needleEnd?
  rw [if_neg (by simpa using hneedle), hsearch]
  dsimp only
  rw [Bytes.search?_eq]
  cases Bytes.indexOf? needle (data.drop (data.length - lastRead - (needle.length - 1))) <;> rfl

/-! ### Counts of bytes -/

/-- Records of a fixed length. -/
def records (length : Nat) (hlength : 0 < length) : Finder where
  find s := if length ≤ s.length then some length else none
  inside h := by
    split at h
    · cases h
      exact ⟨hlength, by assumption⟩
    · cases h
  append y h := by
    split at h
    · next hle =>
      cases h
      exact if_pos (by rw [List.length_append]; omega)
    · cases h
  beyond hx h := by
    split at hx
    · cases hx
    · split at h
      · cases h
        omega
      · cases h

theorem recordEnd_eq {length : Nat} (hlength : 0 < length) :
    recordEnd length data = ((records length hlength).find data).getD 0 := by
  unfold recordEnd records
  rw [if_neg (Nat.ne_of_gt hlength)]
  by_cases hle : length ≤ data.length
  · simp only [hle, if_true, Option.getD_some]
  · simp only [hle, if_false, Option.getD_none]

end WsRelay.Framing

namespace WsRelay.RecordLayout

variable {layout : RecordLayout} {x : Bytes} {field : Nat}

theorem field?_nil : layout.field? [] = none := by
  rw [field?]
  exact if_neg fun h => by have := h.2; simp at this

/-- A length field that has arrived stays what it is when more bytes follow. -/
theorem field?_append (y : Bytes) (h : layout.field? x = some field) :
    layout.field? (x ++ y) = some field := by
  unfold field? at h ⊢
  dsimp only at h ⊢
  split at h
  · next hlen =>
    rw [if_pos ⟨hlen.1, by rw [List.length_append]; omega⟩,
      List.drop_append_of_le_length (by omega),
      List.take_append_of_le_length (by rw [List.length_drop]; omega)]
    exact h
  · cases h

/-- Without its first bytes, a byte string that is too short for its length field still is. -/
theorem field?_drop (n : Nat) (h : layout.field? x = none) (y : Bytes)
    (hy : layout.field? (x ++ y) = some field) : layout.field? (x.drop n) = none := by
  unfold field? at h hy ⊢
  dsimp only at h hy ⊢
  split at hy
  · next hlen =>
    split at h
    · cases h
    · next hshort =>
      refine if_neg fun hle => hshort ⟨hlen.1, ?_⟩
      have := hle.2
      rw [List.length_drop] at this
      omega
  · cases hy

theorem recordEnd_of_none (h : layout.field? x = none) : layout.recordEnd x = .ok 0 := by
  rw [recordEnd, h]

theorem recordEnd_of_some (h : layout.field? x = some field) :
    layout.recordEnd x =
      if layout.total field ≤ 0 then .error (.recordOutOfRange (layout.total field))
      else if layout.total field ≤ x.length then .ok (layout.total field).toNat
      else .ok 0 := by
  rw [recordEnd, h]

theorem recordEnd_le {n : Nat} (h : layout.recordEnd x = .ok n) : n ≤ x.length := by
  cases hf : layout.field? x with
  | none =>
      rw [recordEnd_of_none hf] at h
      cases h
      exact Nat.zero_le _
  | some field =>
      rw [recordEnd_of_some hf] at h
      split at h
      · cases h
      · split at h
        · cases h
          omega
        · cases h
          exact Nat.zero_le _

theorem recordEnd_append (y : Bytes) (h : layout.recordEnd x ≠ .ok 0) :
    layout.recordEnd (x ++ y) = layout.recordEnd x := by
  cases hf : layout.field? x with
  | none => exact absurd (recordEnd_of_none hf) h
  | some field =>
      rw [recordEnd_of_some hf] at h
      rw [recordEnd_of_some hf, recordEnd_of_some (field?_append y hf)]
      split
      · rfl
      · next hpos =>
        rw [if_neg hpos] at h
        split at h
        · next hle =>
          rw [if_pos hle, if_pos (by rw [List.length_append]; omega)]
        · exact absurd rfl h

theorem recordEnd_drop {y : Bytes} {n : Nat} (hx : layout.recordEnd x = .ok 0)
    (h : layout.recordEnd (x ++ y) = .ok n) : layout.recordEnd (x.drop n) = .ok 0 := by
  cases hf : layout.field? (x ++ y) with
  | none =>
      rw [recordEnd_of_none hf] at h
      cases h
      rw [List.drop_zero, hx]
  | some field =>
      cases hfx : layout.field? x with
      | none => exact recordEnd_of_none (field?_drop n hfx y hf)
      | some field' =>
          obtain rfl : field' = field := Option.some.inj ((field?_append y hfx).symm.trans hf)
          rw [recordEnd_of_some hf] at h
          rw [recordEnd_of_some hfx] at hx
          split at h
          · cases h
          · next hpos =>
            rw [if_neg hpos] at hx
            split at hx
            · have := Except.ok.inj hx
              omega
            · next hshort =>
              split at h
              · cases h
                rw [List.drop_eq_nil_of_le (by omega), recordEnd_of_none field?_nil]
              · cases h
                rw [List.drop_zero, recordEnd_of_some hfx, if_neg hpos, if_neg hshort]

end WsRelay.RecordLayout

namespace WsRelay.Framing

/-- Records with a length field. -/
def laidOut (layout : RecordLayout) : Cutter where
  ends := layout.recordEnd
  kind _ := .binary
  nil := RecordLayout.recordEnd_of_none RecordLayout.field?_nil
  inside := RecordLayout.recordEnd_le
  steady := RecordLayout.recordEnd_append
  resumes := RecordLayout.recordEnd_drop

/-- What cannot be configured refuses every stream. -/
def refusing (e : FramingError) : Cutter where
  ends s := if s = [] then .ok 0 else .error e
  kind _ := .binary
  nil := rfl
  inside {s n} h := by
    split at h
    · cases h
      exact Nat.zero_le _
    · cases h
  steady {x} y h := by
    by_cases hx : x = []
    · exact absurd (if_pos hx) h
    · rw [if_neg hx, if_neg (List.append_ne_nil_of_left_ne_nil hx y)]
  resumes {x y n} hx h := by
    split at hx
    · next hnil =>
      rw [hnil, List.drop_nil]
      rfl
    · cases hx

/-! ### Rules -/

variable {σ : Type} {config : String} {rule : Rule σ} {C : Cutter}

/-- A framing that can read its configuration follows a cutter if it answers as the cutter does when
only the bytes that arrived last are new. -/
theorem Configurable.follows_of_read {k : Configurable} (kept : Memory σ)
    (h : k.read config = .ok kept)
    (hanswer : ∀ data lastRead, data ≠ [] → C.ends (data.take (data.length - lastRead)) = .ok 0 →
      k.answer kept data lastRead = C.cut data) :
    Follows k.framing.rule config (fun memory => memory = .empty ∨ memory = kept) C
      fun _ => True where
  empty := Or.inl rfl
  answers := by
    intro data lastRead memory hm hdata _ hold
    have hgoesBy : k.goesBy config memory = .ok kept := by
      rcases hm with rfl | rfl
      · exact (k.goesBy_empty config).trans h
      · exact goesBy_of_holds (holds_of_read h)
    rw [rule_of_ok hgoesBy]
    exact ⟨hanswer data lastRead hdata hold, Or.inr rfl⟩
  domain_take _ := trivial
  domain_drop _ _ := trivial

/-- One that cannot refuses at every call, and remembers nothing. -/
theorem Configurable.follows_of_error {k : Configurable} {e : FramingError}
    (h : k.read (σ := σ) config = .error e) :
    Follows (k.framing (σ := σ)).rule config (· = .empty) (refusing e) fun _ => True where
  empty := rfl
  answers := by
    rintro data lastRead _ rfl hdata - -
    rw [rule_of_error ((k.goesBy_empty config).trans h)]
    exact ⟨(Cutter.cut_of_error (if_neg hdata)).symm, rfl⟩
  domain_take _ := trivial
  domain_drop _ _ := trivial

theorem terminator_ne_nil (config : String) : terminator config ≠ [] := by
  unfold terminator
  dsimp only
  split
  · exact List.cons_ne_nil _ _
  · split
    · exact List.cons_ne_nil _ _
    · split <;> exact List.cons_ne_nil _ _

namespace Configurable

theorem exists_follows_separator (config : String) :
    ∃ remembers C, Follows (separator.framing (σ := σ)).rule config remembers C fun _ => True := by
  cases hp : parseNeedle config with
  | error e => exact ⟨_, _, follows_of_error (by rw [read, hp]; rfl)⟩
  | ok needle =>
      have hneedle := (parseNeedle_eq_ok_iff_unescape.mp hp).2
      refine ⟨_, (delimited needle hneedle).cutter fun _ => .binary,
        follows_of_read (.needle needle) (by rw [read, hp]; rfl) ?_⟩
      intro data lastRead _ hold
      simp only [answer, unitEnd_eq hneedle (Finder.find_of_ends hold), Cutter.cut, Finder.cutter,
        delimited, Except.map, ite_self]

theorem exists_follows_newline (config : String) :
    ∃ remembers C, Follows (newline.framing (σ := σ)).rule config remembers C fun _ => True := by
  have hneedle := terminator_ne_nil config
  refine ⟨_, (delimited (terminator config) hneedle).cutter textKind,
    follows_of_read (.needle (terminator config)) rfl ?_⟩
  intro data lastRead _ hold
  rw [answer, unitEnd_eq hneedle (Finder.find_of_ends hold)]
  rfl

theorem exists_follows_fixedLength (h : Text.radixNat? config ≠ some 0) :
    ∃ remembers C, Follows (fixedLength.framing (σ := σ)).rule config remembers C
      fun _ => True := by
  cases hn : Text.radixNat? config with
  | none => exact ⟨_, _, follows_of_error (e := .badRecordLength config) (by rw [read, hn])⟩
  | some length =>
      have hlength : 0 < length := Nat.pos_of_ne_zero fun h0 => h (by rw [hn, h0])
      refine ⟨_, (records length hlength).cutter fun _ => .binary,
        follows_of_read (.recordLength length) (by rw [read, hn]) ?_⟩
      intro data lastRead _ _
      simp only [answer, recordEnd_eq hlength, Cutter.cut, Finder.cutter, Except.map, ite_self]

theorem exists_follows_lengthPrefixed (config : String) :
    ∃ remembers C, Follows (lengthPrefixed.framing (σ := σ)).rule config remembers C
      fun _ => True := by
  cases hp : RecordLayout.parse config with
  | error e => exact ⟨_, _, follows_of_error (by rw [read, hp]; rfl)⟩
  | ok layout =>
      refine ⟨_, laidOut layout,
        follows_of_read (.layout layout) (by rw [read, hp]; rfl) ?_⟩
      intro data lastRead _ _
      simp only [answer, layoutCut, Cutter.cut, laidOut, ite_self]

end Configurable

/-- The framings of streams follow cutters, whatever their configuration, except for records of no
bytes. -/
theorem exists_follows {name : String} {framing : Framing σ}
    (hname : name ∈ ["separator", "newline", "fixedlength", "dynamic32"])
    (hframing : FramingTable.standard.get? name = some framing)
    (hcount : name = "fixedlength" → Text.radixNat? config ≠ some 0) :
    ∃ remembers C, Follows framing.rule config remembers C fun _ => True := by
  simp only [List.mem_cons, List.not_mem_nil, or_false] at hname
  rcases hname with rfl | rfl | rfl | rfl
  · obtain rfl : (⟨"separator", separator⟩ : Framing σ) = framing := Option.some.inj hframing
    exact Configurable.exists_follows_separator config
  · obtain rfl : (⟨"newline", newline⟩ : Framing σ) = framing := Option.some.inj hframing
    exact Configurable.exists_follows_newline config
  · obtain rfl : (⟨"fixedlength", fixedLength⟩ : Framing σ) = framing := Option.some.inj hframing
    exact Configurable.exists_follows_fixedLength (hcount rfl)
  · obtain rfl : (⟨"dynamic32", lengthPrefixed⟩ : Framing σ) = framing := Option.some.inj hframing
    exact Configurable.exists_follows_lengthPrefixed config

end WsRelay.Framing
