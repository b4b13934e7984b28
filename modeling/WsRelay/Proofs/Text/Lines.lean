import Mathlib.Data.List.Chain
import Mathlib.Data.List.Infix
import WsRelay.Proofs.Occurrence
import WsRelay.Proofs.Text.Cuts
import WsRelay.Text.Cut
/-! # Lines

Bytes are cut into lines by either convention (`Bytes.linesBy`): a line ends in carriage return and
line feed, or in a line feed alone.  Bytes that no line feed follows a carriage return in
(`Bytes.OneLine`) are one line by the first convention, and bytes without both of them
(`Bytes.Plain`) by the second as well.

Both properties pass from bytes to the text that they are read as, and back
(`Utf8.oneLine_decodeLossy`, `Utf8.oneLine_encode`), and from a text to every stretch of it
(`Text.OneLine.within`). -/

namespace WsRelay

/-! ### Lines of bytes -/

/-- What a line ends in. -/
inductive LineEnding where
  | crlf
  | lf
deriving DecidableEq, Repr

/-- The line ending in bytes. -/
def LineEnding.bytes : LineEnding → Bytes
  | crlf => Bytes.lineEnd
  | lf => [10]

theorem LineEnding.length_pos (ending : LineEnding) : 0 < ending.bytes.length := by
  cases ending <;> decide

namespace Bytes

/-- The lines of a byte string: what stands before each line ending, and what is left behind the
last one. -/
def linesBy (ending : LineEnding) (bs : Bytes) : List Bytes :=
  match h : indexOf? ending.bytes bs with
  | none => [bs]
  | some n =>
    have : bs.length - (n + ending.bytes.length) < bs.length := by
      have hle := indexOf?_le h
      have hpos := ending.length_pos
      omega
    bs.take n :: linesBy ending (bs.drop (n + ending.bytes.length))
termination_by bs.length

variable {bs line rest : Bytes}

/-- A line in front of others is the first of them. -/
theorem linesBy_append (ending : LineEnding)
    (h : indexOf? ending.bytes (line ++ ending.bytes) = some line.length) :
    linesBy ending (line ++ ending.bytes ++ rest) = line :: linesBy ending rest := by
  have hfirst : indexOf? ending.bytes (line ++ ending.bytes ++ rest) = some line.length :=
    indexOf?_append h
  rw [linesBy]
  split
  · next hnone =>
    rw [hfirst] at hnone
    cases hnone
  · next n hn =>
    obtain rfl : line.length = n := Option.some.inj (hfirst.symm.trans hn)
    dsimp only
    rw [List.append_assoc, List.take_left, ← List.append_assoc, ← List.length_append,
      List.drop_left]

/-- Lines that were put together are the lines that are found. -/
theorem linesBy_flatMap (ending : LineEnding) {lines : List Bytes}
    (h : ∀ line ∈ lines, indexOf? ending.bytes (line ++ ending.bytes) = some line.length) :
    linesBy ending (lines.flatMap (· ++ ending.bytes)) = lines ++ [[]] := by
  induction lines with
  | nil =>
      rw [List.flatMap_nil, linesBy]
      cases ending <;> rfl
  | cons line lines ih =>
      obtain ⟨hline, hlines⟩ := List.forall_mem_cons.mp h
      rw [List.flatMap_cons, linesBy_append ending hline, ih hlines, List.cons_append]

/-- No line feed follows a carriage return. -/
def OneLine (bs : Bytes) : Prop :=
  bs.IsChain fun a b => ¬ (a = 13 ∧ b = 10)

/-- There are no carriage returns and no line feeds. -/
def Plain (bs : Bytes) : Prop :=
  ∀ b ∈ bs, b ≠ 13 ∧ b ≠ 10

theorem Plain.oneLine (h : Plain bs) : OneLine bs := by
  refine List.Pairwise.isChain (List.pairwise_of_forall_mem_list ?_)
  intro a ha b _ hpair
  exact (h a ha).1 hpair.1

/-- A byte string begins with a line end. -/
theorem isPrefixOf_lineEnd {a : UInt8} :
    lineEnd.isPrefixOf (a :: bs) = true ↔ a = 13 ∧ 10 ∈ bs.head? := by
  cases bs with
  | nil => simp [lineEnd]
  | cons b bs =>
      simp only [lineEnd, List.isPrefixOf_cons_cons, List.isPrefixOf_nil_left, Bool.and_true,
        Bool.and_eq_true, beq_iff_eq, List.head?_cons, Option.mem_def, Option.some.injEq]
      exact and_congr eq_comm eq_comm

/-- One line is what no line end stands in. -/
theorem oneLine_iff : OneLine bs ↔ indexOf? lineEnd bs = none := by
  induction bs with
  | nil => exact iff_of_true .nil rfl
  | cons a bs ih =>
      have hhead : (∀ b ∈ bs.head?, ¬ (a = 13 ∧ b = 10)) ↔
          ¬ lineEnd.isPrefixOf (a :: bs) = true := by
        rw [isPrefixOf_lineEnd]
        exact ⟨fun h hpair => h 10 hpair.2 ⟨hpair.1, rfl⟩,
          fun h b hb hpair => h ⟨hpair.1, hpair.2 ▸ hb⟩⟩
      rw [OneLine, List.isChain_cons, hhead]
      constructor
      · rintro ⟨hnot, hbs⟩
        rw [indexOf?_cons hnot, ih.mp hbs]
        rfl
      · intro h
        by_cases hpre : lineEnd.isPrefixOf (a :: bs) = true
        · rw [indexOf?_of_isPrefixOf hpre] at h
          cases h
        · rw [indexOf?_cons hpre, Option.map_eq_none_iff] at h
          exact ⟨hpre, ih.mpr h⟩

/-- What stands before the first line end is one line. -/
theorem OneLine.take {n : Nat} (h : indexOf? lineEnd bs = some n) : OneLine (bs.take n) := by
  induction bs generalizing n with
  | nil => cases h
  | cons a bs ih =>
      by_cases hpre : lineEnd.isPrefixOf (a :: bs) = true
      · rw [indexOf?_of_isPrefixOf hpre] at h
        cases h
        exact .nil
      · rw [indexOf?_cons hpre] at h
        obtain ⟨m, hm, rfl⟩ := Option.map_eq_some_iff.mp h
        refine List.isChain_cons.mpr ⟨?_, ih hm⟩
        rintro b hb ⟨rfl, rfl⟩
        refine hpre (isPrefixOf_lineEnd.mpr ⟨rfl, ?_⟩)
        rw [List.head?_take] at hb
        split at hb
        · cases hb
        · exact hb

/-- The line that is taken off a buffer is one line. -/
theorem OneLine.splitLine? (h : splitLine? bs = some (line, rest)) : OneLine line := by
  obtain ⟨n, hn, heq⟩ := Option.map_eq_some_iff.mp h
  obtain ⟨rfl, -⟩ := Prod.mk.inj heq
  exact .take hn

/-- Behind one line, the line end that was put there is the first. -/
theorem OneLine.indexOf? (h : OneLine line) :
    indexOf? lineEnd (line ++ lineEnd) = some line.length := by
  induction line with
  | nil => rfl
  | cons a line ih =>
      obtain ⟨hhead, hline⟩ := List.isChain_cons.mp h
      have hnot : ¬ lineEnd.isPrefixOf (a :: (line ++ lineEnd)) = true := by
        rw [isPrefixOf_lineEnd]
        rintro ⟨rfl, hnext⟩
        -- what comes next is in the line, or is the carriage return of the line end
        cases line with
        | nil => exact absurd hnext (by decide)
        | cons b line => exact hhead b rfl ⟨rfl, by simpa using hnext⟩
      rw [List.cons_append, indexOf?_cons hnot, ih hline]
      rfl

/-- Behind bytes without line feeds, the line feed that was put there is the first. -/
theorem indexOf?_lf (h : ∀ b ∈ line, b ≠ 10) :
    indexOf? [10] (line ++ [10]) = some line.length := by
  induction line with
  | nil => rfl
  | cons a line ih =>
      obtain ⟨ha, hline⟩ := List.forall_mem_cons.mp h
      have hnot : ¬ [10].isPrefixOf (a :: (line ++ [10])) = true := by
        simp [Ne.symm ha]
      rw [List.cons_append, indexOf?_cons hnot, ih hline]
      rfl

/-- What stands in front of a line feed, with none inside, is the first line. -/
theorem linesBy_lf_append (h : ∀ b ∈ line, b ≠ 10) :
    linesBy .lf (line ++ [10] ++ rest) = line :: linesBy .lf rest :=
  linesBy_append .lf (indexOf?_lf h)

/-- What stands between two line feeds, with none inside, is a line. -/
theorem mem_linesBy_lf (front : Bytes) (h : ∀ b ∈ line, b ≠ 10) :
    line ∈ linesBy .lf (front ++ [10] ++ (line ++ [10] ++ rest)) := by
  induction hn : front.length using Nat.strongRecOn generalizing front with
  | ind n ih =>
      by_cases hfront : 10 ∈ front
      · -- the first line ends before the two line feeds
        obtain ⟨first, later, rfl, hfirst⟩ := List.eq_append_cons_of_mem hfront
        have hassoc : first ++ 10 :: later ++ [10] ++ (line ++ [10] ++ rest) =
            first ++ [10] ++ (later ++ [10] ++ (line ++ [10] ++ rest)) := by
          simp only [List.append_assoc, List.cons_append, List.nil_append]
        rw [hassoc, linesBy_lf_append fun b hb heq => hfirst (heq ▸ hb)]
        refine List.mem_cons_of_mem _ (ih later.length ?_ later rfl)
        rw [← hn, List.length_append, List.length_cons]
        omega
      · rw [linesBy_lf_append fun b hb heq => hfront (heq ▸ hb), linesBy_lf_append h]
        exact List.mem_cons_of_mem _ List.mem_cons_self

/-- Lines that are ended by carriage return and line feed are found again as they are. -/
theorem linesBy_crlf {lines : List Bytes} (h : ∀ line ∈ lines, OneLine line) :
    linesBy .crlf (lines.flatMap (· ++ lineEnd)) = lines ++ [[]] :=
  linesBy_flatMap .crlf fun line hline => (h line hline).indexOf?

/-- If only line feeds are looked at, the carriage returns are left, and nothing else is found. -/
theorem linesBy_lf {lines : List Bytes} (h : ∀ line ∈ lines, Plain line) :
    linesBy .lf (lines.flatMap (· ++ lineEnd)) = lines.map (· ++ [13]) ++ [[]] := by
  have hsame : lines.flatMap (· ++ lineEnd) = (lines.map (· ++ [13])).flatMap (· ++ [10]) := by
    rw [List.flatMap_map]
    refine List.flatMap_congr fun line _ => ?_
    rw [List.append_assoc]
    rfl
  rw [hsame]
  refine linesBy_flatMap .lf fun line hline => indexOf?_lf ?_
  obtain ⟨l, hl, rfl⟩ := List.mem_map.mp hline
  exact List.forall_mem_append.mpr
    ⟨fun b hb => (h l hl b hb).2, List.forall_mem_singleton.mpr (by decide)⟩

end Bytes

/-! ### Lines of text -/

namespace Text

/-- No line feed follows a carriage return. -/
def OneLine (s : String) : Prop :=
  s.toList.IsChain fun c d => ¬ (c = '\r' ∧ d = '\n')

/-- There are no carriage returns and no line feeds. -/
def Plain (s : String) : Prop :=
  ∀ c ∈ s.toList, c ≠ '\r' ∧ c ≠ '\n'

instance (s : String) : Decidable (Plain s) :=
  List.decidableBAll _ s.toList

variable {s t : String}

theorem Plain.oneLine (h : Plain s) : OneLine s := by
  refine List.Pairwise.isChain (List.pairwise_of_forall_mem_list ?_)
  intro c hc d _ hpair
  exact (h c hc).1 hpair.1

theorem Plain.append (hs : Plain s) (ht : Plain t) : Plain (s ++ t) := by
  rw [Plain, String.toList_append]
  exact List.forall_mem_append.mpr ⟨hs, ht⟩

/-- One line with something in front of it. -/
theorem OneLine.append (hs : Plain s) (ht : OneLine t) : OneLine (s ++ t) := by
  rw [OneLine, String.toList_append]
  refine List.isChain_append.mpr ⟨hs.oneLine, ht, ?_⟩
  intro c hc d _ hpair
  exact (hs c (List.mem_of_getLast? hc)).1 hpair.1

/-- A stretch of one line is one line. -/
theorem OneLine.within (h : OneLine s) (ht : t.toList <:+: s.toList) : OneLine t :=
  List.IsChain.infix h ht

theorem cut?_within {sep : Char} {l r : String} (h : cut? sep s = some (l, r)) :
    r.toList <:+: s.toList := by
  obtain ⟨⟨l', r'⟩, hcut, heq⟩ := Option.map_eq_some_iff.mp h
  cases heq
  rw [(cutList?_eq_some_iff.mp hcut).1, String.toList_ofList]
  exact ((List.suffix_cons sep r').trans (List.suffix_append l' _)).isInfix

theorem trimStart_within (s : String) : (trimStart s).toList <:+: s.toList := by
  rw [trimStart, String.toList_ofList]
  exact (List.dropWhile_suffix _).isInfix

theorem trimEnd_within (s : String) : (trimEnd s).toList <:+: s.toList := by
  rw [trimEnd, String.toList_ofList, ← List.reverse_infix, List.reverse_reverse]
  exact (List.dropWhile_suffix _).isInfix

theorem trim_within (s : String) : (trim s).toList <:+: s.toList :=
  (trimEnd_within _).trans (trimStart_within s)

/-- The first stretch stands in front. -/
theorem piecesList_front {sep : Char} {cs p : List Char} {ps : List (List Char)}
    (h : piecesList sep cs = p :: ps) : p <+: cs := by
  induction cs generalizing p ps with
  | nil =>
      cases h
      exact List.nil_prefix
  | cons c cs ih =>
      rw [piecesList] at h
      split at h
      · cases h
        exact List.nil_prefix
      · split at h
        · cases h
          exact List.cons_prefix_cons.mpr ⟨rfl, List.nil_prefix⟩
        · next q qs hq =>
          cases h
          exact List.cons_prefix_cons.mpr ⟨rfl, ih hq⟩

theorem piecesList_within {sep : Char} {cs p : List Char} (h : p ∈ piecesList sep cs) :
    p <:+: cs := by
  induction cs generalizing p with
  | nil =>
      obtain rfl := List.mem_singleton.mp h
      exact List.nil_infix
  | cons c cs ih =>
      cases hpieces : piecesList sep (c :: cs) with
      | nil =>
          rw [hpieces] at h
          exact absurd h List.not_mem_nil
      | cons q qs =>
          rw [hpieces] at h
          rcases List.mem_cons.mp h with rfl | hmem
          · exact (piecesList_front hpieces).isInfix
          · refine List.infix_cons (ih ?_)
            -- the later stretches are those of the rest, all of them or all but the first
            rw [piecesList] at hpieces
            split at hpieces
            · cases hpieces
              exact hmem
            · split at hpieces
              · cases hpieces
                exact absurd hmem List.not_mem_nil
              · next hrest =>
                cases hpieces
                rw [hrest]
                exact List.mem_cons_of_mem _ hmem

theorem pieces_within {sep : Char} (h : t ∈ pieces sep s) : t.toList <:+: s.toList := by
  obtain ⟨p, hp, rfl⟩ := List.mem_map.mp h
  rw [String.toList_ofList]
  exact piecesList_within hp

end Text

/-! ### From bytes to text, and back -/

namespace Utf8

variable {bs : Bytes} {state : State} {x : UInt8}

/-- The first byte of a character is all of it, or begins it. -/
theorem first_cases (x : UInt8) :
    (∃ p, first x = ([p], .between)) ∨
      ∃ owed low high value, first x = ([], .inside owed low high value) := by
  unfold first
  dsimp only
  repeat' split
  all_goals first
    | exact .inl ⟨_, rfl⟩
    | exact .inr ⟨_, _, _, _, rfl⟩

/-- Inside a character, what a byte brings does not begin with a line feed. -/
theorem head?_step (hs : state.Spells) (h : some '\n' ∈ (step state x).1.head?) :
    state = .between ∧ x = 10 := by
  have hmem : some '\n' ∈ (step state x).1 := List.mem_of_mem_head? h
  have hx : x = 10 := UInt8.toNat_inj.mp ((step_ascii (by decide) (by decide) hs x).2.mp hmem)
  cases state with
  | between => exact ⟨rfl, hx⟩
  | inside owed low high value =>
      have hlow : 0x80 ≤ low.toNat := by cases owed <;> exact hs.1
      have hnot : ¬ (low ≤ x ∧ x ≤ high) := by
        rintro ⟨hle, -⟩
        rw [hx, UInt8.le_iff_toNat_le] at hle
        exact absurd (Nat.le_trans hlow hle) (by decide)
      simp only [step, if_neg hnot] at h
      cases h

/-- A byte that brings nothing leaves the reader inside a character. -/
theorem step_eq_nil (h : (step state x).1 = []) : (step state x).2 ≠ .between := by
  have hfirst (h : (first x).1 = []) : (first x).2 ≠ .between := by
    rcases first_cases x with ⟨p, hx⟩ | ⟨owed, low, high, value, hx⟩
    · rw [hx] at h
      cases h
    · rw [hx]
      rintro ⟨⟩
  cases state with
  | between => exact hfirst h
  | inside owed low high value =>
      simp only [step] at h ⊢
      split at h
      · next hx =>
        rw [if_pos hx]
        cases owed with
        | zero => cases h
        | succ owed => rintro ⟨⟩
      · cases h

/-- A line feed comes first in what is read only if it came first, between characters. -/
theorem head?_pieces (hs : state.Spells) (h : some '\n' ∈ (pieces state bs).head?) :
    state = .between ∧ 10 ∈ bs.head? := by
  induction bs generalizing state with
  | nil => cases state <;> cases h
  | cons x bs ih =>
      rw [pieces_cons, List.head?_append] at h
      cases hdone : (step state x).1 with
      | nil =>
          rw [hdone] at h
          exact absurd (ih (step_ascii (by decide) (c := '\n') (by decide) hs x).1 h).1
            (step_eq_nil hdone)
      | cons p done =>
          rw [hdone] at h
          have hhead : some '\n' ∈ (step state x).1.head? := by
            rw [hdone]
            exact h
          obtain ⟨hstate, rfl⟩ := head?_step hs hhead
          exact ⟨hstate, rfl⟩

/-- No line feed follows a carriage return in what one byte brings. -/
theorem isChain_step (state : State) (x : UInt8) :
    (step state x).1.IsChain fun p q => ¬ (p = some '\r' ∧ q = some '\n') := by
  have hfirst : (first x).1 = [] ∨ ∃ p, (first x).1 = [p] := by
    rcases first_cases x with ⟨p, hx⟩ | ⟨owed, low, high, value, hx⟩
    · exact .inr ⟨p, by rw [hx]⟩
    · exact .inl (by rw [hx])
  cases state with
  | between =>
      show (first x).1.IsChain _
      rcases hfirst with h | ⟨p, h⟩ <;> rw [h]
      · exact .nil
      · exact .singleton p
  | inside owed low high value =>
      simp only [step]
      split
      · cases owed with
        | zero => exact .singleton _
        | succ owed => exact .nil
      · dsimp only
        rcases hfirst with h | ⟨p, h⟩ <;> rw [h]
        · exact .singleton none
        · exact List.isChain_cons_cons.mpr ⟨fun h => Option.some_ne_none _ h.1.symm, .singleton p⟩

theorem isChain_pieces (hs : state.Spells) (h : Bytes.OneLine bs) :
    (pieces state bs).IsChain fun p q => ¬ (p = some '\r' ∧ q = some '\n') := by
  induction bs generalizing state with
  | nil =>
      cases state with
      | between => exact .nil
      | inside => exact .singleton none
  | cons x bs ih =>
      obtain ⟨hnext, hbs⟩ := List.isChain_cons.mp h
      have hspells := (step_ascii (by decide) (c := '\r') (by decide) hs x).1
      rw [pieces_cons]
      refine List.isChain_append.mpr ⟨isChain_step state x, ih hspells hbs, ?_⟩
      rintro p hp q hq ⟨rfl, rfl⟩
      -- the carriage return is this byte's, and the line feed the next one's
      have hx : x = 13 := UInt8.toNat_inj.mp
        ((step_ascii (by decide) (by decide) hs x).2.mp (List.mem_of_getLast? hp))
      exact hnext 10 (head?_pieces hspells hq).2 ⟨hx, rfl⟩

/-- **One line of bytes is read as one line.** -/
theorem oneLine_decodeLossy (h : Bytes.OneLine bs) : Text.OneLine (decodeLossy bs) := by
  have hreturn : '\r' ≠ Char.ofNat 0xFFFD := by decide
  have hfeed : '\n' ≠ Char.ofNat 0xFFFD := by decide
  rw [Text.OneLine, decodeLossy, String.toList_ofList, List.isChain_map]
  simp only [getD_eq_iff hreturn, getD_eq_iff hfeed]
  exact isChain_pieces trivial h

/-- A character is written as its own byte if it is ASCII, and without ASCII bytes if not. -/
theorem utf8EncodeChar_cases (c : Char) :
    (c.toNat < 0x80 ∧ String.utf8EncodeChar c = [UInt8.ofNat c.toNat]) ∨
      0x80 ≤ c.toNat ∧ ∀ b ∈ String.utf8EncodeChar c, 0x80 ≤ b.toNat := by
  have hval : c.val.toNat = c.toNat := rfl
  unfold String.utf8EncodeChar
  dsimp only
  rw [hval]
  split
  · exact .inl ⟨by omega, rfl⟩
  · refine .inr ⟨by omega, ?_⟩
    repeat' split
    all_goals
      simp only [List.mem_cons, List.not_mem_nil, or_false, forall_eq_or_imp, forall_eq,
        UInt8.toNat_ofNat']
      omega

/-- A character is written with the byte of an ASCII character only if it is that character. -/
theorem mem_utf8EncodeChar {c : Char} {b : UInt8} (hb : b.toNat < 0x80) :
    b ∈ String.utf8EncodeChar c ↔ c.toNat = b.toNat := by
  rcases utf8EncodeChar_cases c with ⟨hc, h⟩ | ⟨hc, h⟩
  · rw [h, List.mem_singleton, ← UInt8.toNat_inj, UInt8.toNat_ofNat']
    omega
  · refine iff_of_false (fun hmem => ?_) (by omega)
    have := h b hmem
    omega

theorem eq_of_mem_utf8EncodeChar {c d : Char} (hd : d.toNat < 0x80)
    (h : UInt8.ofNat d.toNat ∈ String.utf8EncodeChar c) : c = d := by
  have hbyte := toNat_ascii hd
  exact Char.toNat_inj.mp (((mem_utf8EncodeChar (by omega)).mp h).trans hbyte)

/-- Carriage returns and line feeds are written where they stand. -/
theorem plain_encode {s : String} : Bytes.Plain (encode s) ↔ Text.Plain s := by
  constructor
  · intro h c hc
    have hbytes {b : UInt8} (hb : b ∈ String.utf8EncodeChar c) : b ≠ 13 ∧ b ≠ 10 :=
      h b (List.mem_flatMap.mpr ⟨c, hc, hb⟩)
    constructor
    · rintro rfl
      exact (hbytes (b := 13) (by decide)).1 rfl
    · rintro rfl
      exact (hbytes (b := 10) (by decide)).2 rfl
  · intro h b hb
    obtain ⟨c, hc, hbc⟩ := List.mem_flatMap.mp hb
    constructor
    · rintro rfl
      exact (h c hc).1 (eq_of_mem_utf8EncodeChar (d := '\r') (by decide) hbc)
    · rintro rfl
      exact (h c hc).2 (eq_of_mem_utf8EncodeChar (d := '\n') (by decide) hbc)

/-- **One line of text is written as one line.** -/
theorem oneLine_encode {s : String} (h : Text.OneLine s) : Bytes.OneLine (encode s) := by
  unfold Text.OneLine at h
  unfold Utf8.encode
  generalize s.toList = cs at h
  induction cs with
  | nil => exact .nil
  | cons c cs ih =>
      obtain ⟨hnext, hcs⟩ := List.isChain_cons.mp h
      rw [List.flatMap_cons]
      refine List.isChain_append.mpr ⟨?_, ih hcs, ?_⟩
      · rcases utf8EncodeChar_cases c with ⟨-, hone⟩ | ⟨-, hhigh⟩
        · rw [hone]
          exact .singleton _
        · refine Bytes.Plain.oneLine fun b hb => ?_
          have hb := hhigh b hb
          constructor <;> (rintro rfl; exact absurd hb (by decide))
      · rintro a ha b hb ⟨rfl, rfl⟩
        obtain rfl : c = '\r' := eq_of_mem_utf8EncodeChar (by decide) (List.mem_of_getLast? ha)
        cases cs with
        | nil => cases hb
        | cons d cs =>
            have hmem : 10 ∈ String.utf8EncodeChar d := by
              obtain ⟨x, xs, hx⟩ :=
                List.exists_cons_of_ne_nil (String.utf8EncodeChar_ne_nil (c := d))
              rw [List.flatMap_cons, hx, List.cons_append] at hb
              obtain rfl : x = 10 := Option.some.inj hb
              rw [hx]
              exact List.mem_cons_self
            obtain rfl : d = '\n' := eq_of_mem_utf8EncodeChar (by decide) hmem
            exact hnext '\n' rfl ⟨rfl, rfl⟩

end Utf8

end WsRelay
