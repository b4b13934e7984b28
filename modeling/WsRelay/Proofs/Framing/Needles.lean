import WsRelay.Framing.Delimited
import WsRelay.Proofs.Text.Sequences
/-! # The grammar of needles

A configuration spells its needle token by token (`Token`): a byte that is no backslash stands for
itself, an escape for the byte that it names, and two hexadecimal digits for the byte of that value.
A token in front is read before anything else and nothing of it is left (`unescape_token`), so what
can be read are exactly the concatenations of tokens (`unescape_eq_ok_iff`).

Written with digits alone, every needle has a configuration that spells it, as these are ASCII
bytes (`exists_config`). -/

namespace WsRelay.Framing

variable {b v : UInt8} {bs needle : Bytes} {config : String}

/-! ### Tokens -/

/-- A hexadecimal digit. -/
inductive HexDigit where
  | decimal (n : Fin 10)
  | lower (n : Fin 6)
  | upper (n : Fin 6)

namespace HexDigit

/-- How the digit is written. -/
def byte : HexDigit → UInt8
  | decimal n => UInt8.ofNat (48 + n)
  | lower n => UInt8.ofNat (97 + n)
  | upper n => UInt8.ofNat (65 + n)

/-- The number it stands for. -/
def value : HexDigit → Nat
  | decimal n => n
  | lower n => 10 + n
  | upper n => 10 + n

theorem value_lt (d : HexDigit) : d.value < 16 := by
  cases d <;> simp only [value] <;> omega

/-- The digit of a number. -/
def ofNat (n : Fin 16) : HexDigit :=
  if h : n.val < 10 then decimal ⟨n, h⟩ else lower ⟨n - 10, by omega⟩

theorem value_ofNat (n : Fin 16) : (ofNat n).value = n := by
  revert n
  decide

theorem byte_ofNat_lt (n : Fin 16) : (ofNat n).byte.toNat < 0x80 := by
  revert n
  decide

end HexDigit

/-- A character behind a backslash. -/
inductive Escape where
  | nul
  | tab
  | lineFeed
  | formFeed
  | carriageReturn
  | backslash

/-- How the escape is written behind its backslash. -/
def Escape.letter : Escape → UInt8
  | nul => 48
  | tab => 116
  | lineFeed => 110
  | formFeed => 102
  | carriageReturn => 114
  | backslash => 92

/-- The byte it stands for. -/
def Escape.value : Escape → UInt8
  | nul => 0
  | tab => 9
  | lineFeed => 10
  | formFeed => 12
  | carriageReturn => 13
  | backslash => 92

/-- What a configuration is made of. -/
inductive Token where
  | plain (b : UInt8) (h : b ≠ 92)
  | escape (e : Escape)
  | hex (hi lo : HexDigit)

namespace Token

/-- How the token is written. -/
def spelling : Token → Bytes
  | plain b _ => [b]
  | escape e => [92, e.letter]
  | hex hi lo => [92, 120, hi.byte, lo.byte]

/-- The byte it stands for. -/
def value : Token → UInt8
  | plain b _ => b
  | escape e => e.value
  | hex hi lo => UInt8.ofNat (16 * hi.value + lo.value)

theorem length_spelling_pos (t : Token) : 0 < t.spelling.length := by
  cases t <;> exact Nat.succ_pos _

/-- A byte written with two digits. -/
def ofByte (b : UInt8) : Token :=
  hex (.ofNat ⟨b.toNat / 16, by have := b.toNat_lt; omega⟩)
    (.ofNat ⟨b.toNat % 16, Nat.mod_lt _ (by decide)⟩)

theorem value_ofByte (b : UInt8) : (ofByte b).value = b := by
  rw [ofByte, value, HexDigit.value_ofNat, HexDigit.value_ofNat, Nat.div_add_mod,
    UInt8.ofNat_toNat]

theorem spelling_ofByte_ascii : ∀ c ∈ (ofByte b).spelling, c.toNat < 0x80 := by
  rw [ofByte, spelling]
  simp only [List.forall_mem_cons]
  exact ⟨by decide, by decide, HexDigit.byte_ofNat_lt _, HexDigit.byte_ofNat_lt _,
    List.forall_mem_nil _⟩

end Token

/-! ### Reading one token -/

theorem hexValue?_byte (d : HexDigit) : hexValue? d.byte = some (UInt8.ofNat d.value) := by
  cases d with
  | decimal n => revert n; decide
  | lower n => revert n; decide
  | upper n => revert n; decide

/-- A byte of a range, by its distance from the first one. -/
theorem exists_of_between {low high : UInt8} (hlow : low ≤ b) (hhigh : b ≤ high) :
    ∃ n : Fin (high.toNat - low.toNat + 1), UInt8.ofNat (low.toNat + n) = b := by
  rw [UInt8.le_iff_toNat_le] at hlow hhigh
  refine ⟨⟨b.toNat - low.toNat, by omega⟩, ?_⟩
  rw [Nat.add_sub_cancel' hlow, UInt8.ofNat_toNat]

theorem exists_of_hexValue? (h : hexValue? b = some v) :
    ∃ d : HexDigit, d.byte = b ∧ UInt8.ofNat d.value = v := by
  unfold hexValue? at h
  split at h
  · next hb =>
    obtain ⟨n, rfl⟩ := exists_of_between hb.1 hb.2
    cases h
    exact ⟨.decimal n, rfl, by revert n; decide⟩
  · split at h
    · next hb =>
      obtain ⟨n, rfl⟩ := exists_of_between hb.1 hb.2
      cases h
      exact ⟨.lower n, rfl, by revert n; decide⟩
    · split at h
      · next hb =>
        obtain ⟨n, rfl⟩ := exists_of_between hb.1 hb.2
        cases h
        exact ⟨.upper n, rfl, by revert n; decide⟩
      · cases h

theorem escaped?_letter (e : Escape) : escaped? e.letter = some e.value := by
  cases e <;> rfl

theorem exists_of_escaped? (h : escaped? b = some v) :
    ∃ e : Escape, e.letter = b ∧ e.value = v := by
  unfold escaped? at h
  split at h
  · next hb =>
    cases h
    exact ⟨.nul, hb.symm, rfl⟩
  · split at h
    · next hb =>
      cases h
      exact ⟨.tab, hb.symm, rfl⟩
    · split at h
      · next hb =>
        cases h
        exact ⟨.lineFeed, hb.symm, rfl⟩
      · split at h
        · next hb =>
          cases h
          exact ⟨.formFeed, hb.symm, rfl⟩
        · split at h
          · next hb =>
            cases h
            exact ⟨.carriageReturn, hb.symm, rfl⟩
          · split at h
            · next hb =>
              cases h
              exact ⟨.backslash, hb.symm, rfl⟩
            · cases h

/-- Two digits put together are the byte of their value. -/
theorem joined_digits (hi lo : HexDigit) :
    UInt8.ofNat hi.value <<< 4 ||| UInt8.ofNat lo.value =
      UInt8.ofNat (16 * hi.value + lo.value) := by
  have hall : ∀ m n : Fin 16, UInt8.ofNat m <<< 4 ||| UInt8.ofNat n = UInt8.ofNat (16 * m + n) := by
    decide
  exact hall ⟨hi.value, hi.value_lt⟩ ⟨lo.value, lo.value_lt⟩

/-- A token in front is read first. -/
theorem unescape_token (t : Token) (rest : Bytes) :
    unescape (t.spelling ++ rest) = (unescape rest).map (t.value :: ·) := by
  cases t with
  | plain b h => simp [Token.spelling, Token.value, unescape, h]
  | escape e =>
      have hletter : e.letter ≠ 120 := by cases e <;> decide
      simp [Token.spelling, Token.value, unescape, hletter, escaped?_letter]
  | hex hi lo =>
      simp only [Token.spelling, Token.value, List.cons_append, List.nil_append, unescape,
        hexValue?_byte, joined_digits]

/-! ### Reading all of them -/

/-- What begins with a token and can be read on is made of tokens. -/
theorem exists_tokens_cons {rest : Bytes} (t : Token)
    (ih : ∀ needle, unescape rest = .ok needle →
      ∃ ts : List Token, ts.flatMap Token.spelling = rest ∧ ts.map Token.value = needle)
    (h : (unescape rest).map (t.value :: ·) = .ok needle) :
    ∃ ts : List Token, ts.flatMap Token.spelling = t.spelling ++ rest ∧
      ts.map Token.value = needle := by
  cases hrest : unescape rest with
  | error e =>
      rw [hrest] at h
      cases h
  | ok later =>
      rw [hrest] at h
      cases h
      obtain ⟨ts, rfl, rfl⟩ := ih later hrest
      exact ⟨t :: ts, rfl, rfl⟩

/-- **What can be read is a concatenation of tokens.** -/
theorem unescape_eq_ok_iff : unescape bs = .ok needle ↔
    ∃ ts : List Token, ts.flatMap Token.spelling = bs ∧ ts.map Token.value = needle := by
  constructor
  · intro h
    fun_induction unescape bs generalizing needle with
    | case1 =>
        cases h
        exact ⟨[], rfl, rfl⟩
    | case2 hi lo rest m n hn hm ih =>
        obtain ⟨hi, rfl, rfl⟩ := exists_of_hexValue? hm
        obtain ⟨lo, rfl, rfl⟩ := exists_of_hexValue? hn
        rw [joined_digits] at h
        exact exists_tokens_cons (.hex hi lo) (fun _ => ih) h
    | case3 => cases h
    | case4 => cases h
    | case5 b rest _ _ value hvalue ih =>
        obtain ⟨e, rfl, rfl⟩ := exists_of_escaped? hvalue
        exact exists_tokens_cons (.escape e) (fun _ => ih) h
    | case6 => cases h
    | case7 => cases h
    | case8 b rest _ _ hpair hlast ih =>
        -- a backslash was read with what follows it, or was the last byte
        have hb : b ≠ 92 := fun hb => by
          cases rest with
          | nil => exact hlast hb rfl
          | cons c rest => exact hpair c rest hb rfl
        exact exists_tokens_cons (.plain b hb) (fun _ => ih) h
  · rintro ⟨ts, rfl, rfl⟩
    induction ts with
    | nil => rfl
    | cons t ts ih =>
        rw [List.flatMap_cons, unescape_token, ih]
        rfl

/-! ### Needles -/

/-- A needle is what can be read, unless that is nothing. -/
theorem parseNeedle_eq_ok_iff_unescape : parseNeedle config = .ok needle ↔
    unescape (Utf8.encode config) = .ok needle ∧ needle ≠ [] := by
  unfold parseNeedle
  split
  · next hfail =>
    rw [hfail]
    exact iff_of_false nofun fun h => nomatch h.1
  · next hnone =>
    rw [hnone]
    refine iff_of_false nofun ?_
    rintro ⟨h, hne⟩
    cases h
    exact hne rfl
  · next found hne hfound =>
    rw [hfound]
    refine (and_iff_left_of_imp ?_).symm
    rintro h rfl
    cases h
    exact hne rfl

/-- **The needle of a configuration is what its tokens stand for, if there are any.** -/
theorem parseNeedle_eq_ok_iff : parseNeedle config = .ok needle ↔
    ∃ ts : List Token, ts ≠ [] ∧ ts.flatMap Token.spelling = Utf8.encode config ∧
      ts.map Token.value = needle := by
  rw [parseNeedle_eq_ok_iff_unescape, unescape_eq_ok_iff]
  constructor
  · rintro ⟨⟨ts, hspelt, rfl⟩, hne⟩
    exact ⟨ts, fun hts => hne (hts ▸ rfl), hspelt, rfl⟩
  · rintro ⟨ts, hne, hspelt, rfl⟩
    exact ⟨⟨ts, hspelt, rfl⟩, fun hnone => hne (List.map_eq_nil_iff.mp hnone)⟩

/-- A token is not shorter than what it stands for. -/
theorem length_le_spelling (ts : List Token) : ts.length ≤ (ts.flatMap Token.spelling).length := by
  induction ts with
  | nil => exact Nat.le_refl 0
  | cons t ts ih =>
      have ht := t.length_spelling_pos
      rw [List.flatMap_cons, List.length_append, List.length_cons]
      omega

/-- What two configurations spell is spelt by them together. -/
theorem parseNeedle_append {a b : String} {x y : Bytes} (ha : parseNeedle a = .ok x)
    (hb : parseNeedle b = .ok y) : parseNeedle (a ++ b) = .ok (x ++ y) := by
  rw [parseNeedle_eq_ok_iff] at ha hb ⊢
  obtain ⟨ts, hts, hspelt, rfl⟩ := ha
  obtain ⟨us, -, huspelt, rfl⟩ := hb
  refine ⟨ts ++ us, List.append_ne_nil_of_left_ne_nil hts us, ?_, List.map_append⟩
  rw [List.flatMap_append, hspelt, huspelt, Utf8.encode_append]

/-- Every needle is spelt by some configuration. -/
theorem exists_config (h : needle ≠ []) : ∃ config, parseNeedle config = .ok needle := by
  have hascii : ∀ c ∈ (needle.map Token.ofByte).flatMap Token.spelling, c.toNat < 0x80 := by
    intro c hc
    obtain ⟨t, ht, hct⟩ := List.mem_flatMap.mp hc
    obtain ⟨b, -, rfl⟩ := List.mem_map.mp ht
    exact Token.spelling_ofByte_ascii c hct
  obtain ⟨config, hconfig⟩ := Utf8.wellFormed_of_ascii hascii
  refine ⟨config, parseNeedle_eq_ok_iff.mpr ⟨needle.map Token.ofByte, ?_, hconfig.symm, ?_⟩⟩
  · exact fun hnone => h (List.map_eq_nil_iff.mp hnone)
  · rw [List.map_map]
    exact List.map_id'' Token.value_ofByte needle

/-- **Needles are written in a grammar of tokens.**  A configuration has a needle exactly if it is
made of tokens, at least one of them, and the needle is what these stand for; else it is refused.
So a needle is not empty and not longer than its configuration, configurations are put together as
their needles are, and every needle has one. -/
theorem needle_grammar :
    (∀ config needle, parseNeedle config = .ok needle ↔
      ∃ ts : List Token, ts ≠ [] ∧ ts.flatMap Token.spelling = Utf8.encode config ∧
        ts.map Token.value = needle) ∧
    (∀ config, (∃ e, parseNeedle config = .error e) ↔
      ¬ ∃ ts : List Token, ts ≠ [] ∧ ts.flatMap Token.spelling = Utf8.encode config) ∧
    (∀ config needle, parseNeedle config = .ok needle →
      needle ≠ [] ∧ needle.length ≤ (Utf8.encode config).length) ∧
    (∀ a b x y, parseNeedle a = .ok x → parseNeedle b = .ok y →
      parseNeedle (a ++ b) = .ok (x ++ y)) ∧
    ∀ needle, needle ≠ [] → ∃ config, parseNeedle config = .ok needle := by
  refine ⟨fun _ _ => parseNeedle_eq_ok_iff, fun config => ?_, fun config needle h => ?_,
    fun _ _ _ _ => parseNeedle_append, fun _ => exists_config⟩
  · constructor
    · rintro ⟨e, he⟩ ⟨ts, hts, hspelt⟩
      have hok := parseNeedle_eq_ok_iff.mpr ⟨ts, hts, hspelt, rfl⟩
      rw [he] at hok
      cases hok
    · intro hnone
      cases hparse : parseNeedle config with
      | error e => exact ⟨e, rfl⟩
      | ok needle =>
          obtain ⟨ts, hts, hspelt, -⟩ := parseNeedle_eq_ok_iff.mp hparse
          exact absurd ⟨ts, hts, hspelt⟩ hnone
  · obtain ⟨ts, hts, hspelt, rfl⟩ := parseNeedle_eq_ok_iff.mp h
    refine ⟨fun hnone => hts (List.map_eq_nil_iff.mp hnone), ?_⟩
    rw [List.length_map, ← hspelt]
    exact length_le_spelling ts

/-- A character of two bytes, a byte in digits and an escaped backslash, with a tab behind them. -/
theorem needle_grammar_mixed :
    parseNeedle "é\\x4a\\\\" = .ok [0xC3, 0xA9, 0x4A, 92] ∧
      [0xC3, 0xA9, 0x4A, 92].length ≤ (Utf8.encode "é\\x4a\\\\").length ∧
      parseNeedle ("é\\x4a\\\\" ++ "\\t") = .ok ([0xC3, 0xA9, 0x4A, 92] ++ [9]) ∧
      (∃ e, parseNeedle "é\\x4" = .error e) ∧ ∃ config, parseNeedle config = .ok [0xFF] := by
  obtain ⟨hok, -, hlength, happend, hexists⟩ := needle_grammar
  have hmixed : parseNeedle "é\\x4a\\\\" = .ok [0xC3, 0xA9, 0x4A, 92] :=
    (hok _ _).mpr ⟨[.plain 0xC3 (by decide), .plain 0xA9 (by decide),
      .hex (.decimal 4) (.lower 0), .escape .backslash], by decide, by decide, by decide⟩
  have htab : parseNeedle "\\t" = .ok [9] :=
    (hok _ _).mpr ⟨[.escape .tab], by decide, by decide, by decide⟩
  refine ⟨hmixed, (hlength _ _ hmixed).2, happend _ _ _ _ hmixed htab, ⟨.badHexEscape, rfl⟩,
    hexists _ (by decide)⟩

end WsRelay.Framing
