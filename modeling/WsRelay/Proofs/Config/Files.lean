import WsRelay.Proofs.Config.Entries
/-! # Configuration files line by line

A file is read up to its first wrong line, and what stands behind that line is never looked at
(`parse_front`).  Blanks and ignored lines change nothing but the number in an error
(`parse_respaced`), nor does the way lines end (`parse_crlf`). -/

namespace WsRelay.Settings

variable {r last : Reading} {s : Settings} {text path message : String} {number : Nat}
variable {texts rest : List String} {fault : LineFault}

theorem parse_eq_error_iff {e : Error} : parse text path = .error e ↔
    ∃ number fault, Reading.lines {} 1 (Text.pieces '\n' text) = .error (number, fault) ∧
      e = .configFile path number fault.message := by
  unfold parse
  split
  · next found fault h => simp [h, eq_comm]
  · next h => simp [h]

/-- Lines are the lines of the text they make up, whatever stands behind them. -/
theorem pieces_lines_append (h : ∀ line ∈ texts, '\n' ∉ line.toList) (hne : texts ≠ [])
    (more : List String) :
    Text.pieces '\n' ("\n".intercalate (texts ++ more)) =
      texts ++ more.flatMap (Text.pieces '\n') :=
  Text.pieces_intercalate_append h hne

theorem pieces_lines (h : ∀ line ∈ texts, '\n' ∉ line.toList) (hne : texts ≠ []) :
    Text.pieces '\n' ("\n".intercalate texts) = texts := by
  have := pieces_lines_append h hne []
  rwa [List.append_nil, List.flatMap_nil, List.append_nil] at this

/-- **Up to the first wrong line.** -/
theorem parse_front (h : parse text path = .error (.configFile path number message)) :
    1 ≤ number ∧ number ≤ (Text.pieces '\n' text).length ∧
      (∃ s, parse ("\n".intercalate ((Text.pieces '\n' text).take (number - 1))) path = .ok s) ∧
      ∀ more : List String,
        parse ("\n".intercalate ((Text.pieces '\n' text).take number ++ more)) path =
          .error (.configFile path number message) := by
  obtain ⟨found, fault, hfault, he⟩ := parse_eq_error_iff.mp h
  obtain ⟨rfl, rfl⟩ : number = found ∧ message = fault.message := by
    simpa using he
  obtain ⟨front, raw, back, last, htext, hfront, hraw, rfl⟩ := Reading.lines_eq_error_iff.mp hfault
  have hlines : ∀ line ∈ front ++ raw :: back, '\n' ∉ line.toList := by
    intro line hline
    rw [← htext] at hline
    exact Text.not_mem_of_mem_pieces hline
  have htake : (front ++ raw :: back).take (1 + front.length) = front ++ [raw] := by
    rw [Nat.add_comm, List.take_length_add_append]
    rfl
  rw [htext, htake, Nat.add_sub_cancel_left, List.take_left]
  refine ⟨by omega, by simp; omega, ?_, ?_⟩
  · cases front with
    | nil => exact ⟨{}, rfl⟩
    | cons line front =>
        have hpieces : Text.pieces '\n' ("\n".intercalate (line :: front)) = line :: front :=
          pieces_lines (fun l hl => hlines l (List.mem_append_left _ hl)) (by simp)
        exact ⟨last.result, parse_eq_ok_iff.mpr ⟨last, by rw [hpieces, hfront], rfl⟩⟩
  · intro more
    have hfirst : ∀ line ∈ front ++ [raw], '\n' ∉ line.toList := by
      intro line hline
      refine hlines line ?_
      rw [List.append_cons]
      exact List.mem_append_left back hline
    have hpieces := pieces_lines_append hfirst (by simp) more
    refine parse_eq_error_iff.mpr ⟨_, fault, ?_, rfl⟩
    rw [hpieces, Reading.lines_eq_error_iff]
    exact ⟨front, raw, more.flatMap (Text.pieces '\n'), last, by simp, hfront, hraw, rfl⟩

/-! ### Blanks and ignored lines -/

/-- What stands in the second list belongs to a line in the first. -/
theorem exists_line {α : Type} {R : String → α → Prop} {us : List α} {u : α}
    (h : List.Forall₂ R texts us) (hu : u ∈ us) : ∃ line ∈ texts, R line u := by
  induction h with
  | nil => simp at hu
  | cons hline _ ih =>
      rcases List.mem_cons.mp hu with rfl | hu
      · exact ⟨_, by simp, hline⟩
      · obtain ⟨line, hmem, hR⟩ := ih hu
        exact ⟨line, by simp [hmem], hR⟩

/-- A line, and the ignored lines put in front of it. -/
structure Block where
  ignored : List String := []
  line : String

variable {blocks : List Block}

def Block.lines (block : Block) : List String :=
  block.ignored ++ [block.line]

/-- The line of the block is the line, maybe with more blanks. -/
structure Block.Holds (line : String) (block : Block) : Prop where
  ignored : ∀ other ∈ block.ignored, Ignored other
  padded : Padded line block.line

theorem Reading.lines_block {line : String} {block : Block} (h : block.Holds line) (r : Reading)
    (number : Nat) (rest : List String) :
    r.lines number (block.lines ++ rest) =
      r.lines (number + block.ignored.length) (line :: rest) := by
  have hignored : r.lines number block.ignored = .ok r :=
    lines_ignored (fun other hother => (h.ignored other hother).statement_eq) r number
  rw [Block.lines, List.append_assoc, lines_append_of_ok hignored]
  simp only [List.singleton_append, lines, line_eq, h.padded.statement_eq]

/-- Blocks are read as their lines. -/
theorem Reading.lines_blocks (h : List.Forall₂ Block.Holds texts blocks)
    (hok : r.lines number texts = .ok last) (other : Nat) :
    r.lines other (blocks.flatMap Block.lines) = .ok last := by
  induction h generalizing r number other with
  | nil => exact hok
  | cons hblock _ ih =>
      rw [List.flatMap_cons, lines_block hblock]
      rw [lines] at hok ⊢
      cases hline : r.line _ with
      | error fault => simp [hline] at hok
      | ok next =>
          simp only [hline] at hok ⊢
          exact ih hok _

/-- The number of ignored lines up to a line. -/
def shift (blocks : List Block) (number : Nat) : Nat :=
  ((blocks.take number).flatMap Block.ignored).length

/-- A wrong line is found behind the ignored lines in front of it. -/
theorem Reading.lines_blocks_error {index : Nat}
    (h : List.Forall₂ Block.Holds texts blocks)
    (herror : r.lines number texts = .error (number + index, fault)) (other : Nat) :
    r.lines other (blocks.flatMap Block.lines) =
      .error (other + index + shift blocks (index + 1), fault) := by
  induction h generalizing r number index other with
  | nil => simp [lines] at herror
  | @cons line block texts blocks hblock _ ih =>
      rw [List.flatMap_cons, lines_block hblock]
      rw [lines] at herror ⊢
      cases hline : r.line line with
      | error wrong =>
          simp only [hline, Except.error.injEq, Prod.mk.injEq] at herror ⊢
          obtain rfl : index = 0 := by omega
          exact ⟨by simp [shift], herror.2⟩
      | ok next =>
          simp only [hline] at herror ⊢
          obtain ⟨front, -, -, -, -, -, -, hnumber⟩ := lines_eq_error_iff.mp herror
          obtain rfl : index = front.length + 1 := by omega
          rw [show number + (front.length + 1) = number + 1 + front.length by omega] at herror
          rw [ih herror]
          simp only [shift, List.take_succ_cons, List.flatMap_cons, List.length_append,
            Except.error.injEq, Prod.mk.injEq, and_true]
          omega

theorem Block.Holds.not_mem {line : String} {block : Block} (h : block.Holds line)
    (hline : '\n' ∉ line.toList) : ∀ other ∈ block.lines, '\n' ∉ other.toList := by
  intro other hother
  rw [Block.lines, List.mem_append, List.mem_singleton] at hother
  rcases hother with hother | rfl
  · exact (h.ignored other hother).1
  · exact h.padded.not_mem hline

/-- The lines of the blocks, and ignored ones behind them, are the lines of the text they make up. -/
theorem pieces_blocks
    (h : List.Forall₂ Block.Holds (Text.pieces '\n' text) blocks)
    (hrest : ∀ line ∈ rest, Ignored line) :
    Text.pieces '\n' ("\n".intercalate (blocks.flatMap Block.lines ++ rest)) =
      blocks.flatMap Block.lines ++ rest := by
  apply pieces_lines
  · intro line hline
    rw [List.mem_append, List.mem_flatMap] at hline
    rcases hline with ⟨block, hblock, hline⟩ | hline
    · obtain ⟨raw, hraw, hholds⟩ := exists_line h hblock
      exact hholds.not_mem (Text.not_mem_of_mem_pieces hraw) line hline
    · exact (hrest line hline).1
  · obtain ⟨raw, texts, htexts⟩ := List.exists_cons_of_ne_nil (Text.pieces_ne_nil '\n' text)
    rw [htexts] at h
    cases h
    simp [Block.lines]

/-- **Blanks and ignored lines.** -/
theorem parse_respaced
    (h : List.Forall₂ Block.Holds (Text.pieces '\n' text) blocks)
    (hrest : ∀ line ∈ rest, Ignored line) (path : String) :
    (∀ s, parse text path = .ok s →
      parse ("\n".intercalate (blocks.flatMap Block.lines ++ rest)) path = .ok s) ∧
    ∀ number message, parse text path = .error (.configFile path number message) →
      parse ("\n".intercalate (blocks.flatMap Block.lines ++ rest)) path =
        .error (.configFile path (number + shift blocks number) message) := by
  constructor
  · intro s hs
    obtain ⟨last, hlast, rfl⟩ := parse_eq_ok_iff.mp hs
    refine parse_eq_ok_iff.mpr ⟨last, ?_, rfl⟩
    rw [pieces_blocks h hrest, Reading.lines_append_of_ok (Reading.lines_blocks h hlast 1)]
    exact Reading.lines_ignored (fun line hline => (hrest line hline).statement_eq) _ _
  · intro number message herror
    obtain ⟨found, fault, hfault, he⟩ := parse_eq_error_iff.mp herror
    obtain ⟨rfl, rfl⟩ : number = found ∧ message = fault.message := by
      simpa using he
    obtain ⟨front, -, -, -, -, -, -, rfl⟩ := Reading.lines_eq_error_iff.mp hfault
    refine parse_eq_error_iff.mpr ⟨_, fault, ?_, rfl⟩
    rw [pieces_blocks h hrest, Reading.lines_append, Reading.lines_blocks_error h hfault 1,
      Nat.add_comm 1 front.length]
    rfl

/-- What ends its lines with a carriage return and a line feed has padded lines. -/
theorem exists_crlf (texts : List String) :
    ∃ again, "\r\n".intercalate texts = "\n".intercalate again ∧
      List.Forall₂ Padded texts again := by
  induction texts with
  | nil => exact ⟨[], rfl, .nil⟩
  | cons line texts ih =>
      obtain ⟨again, htext, hagain⟩ := ih
      cases hagain with
      | nil => exact ⟨[line], by simp, .cons (.refl line) .nil⟩
      | @cons next other texts again hnext hrest =>
          refine ⟨(line ++ "\r") :: other :: again, ?_, .cons (.crlf line) (.cons hnext hrest)⟩
          have hends : "\r\n" = "\r" ++ "\n" := by decide
          rw [String.intercalate_cons_cons, String.intercalate_cons_cons, htext, hends]
          simp only [String.append_assoc]

/-- **Lines may end with a carriage return and a line feed.** -/
theorem parse_crlf (text path : String) :
    parse ("\r\n".intercalate (Text.pieces '\n' text)) path = parse text path := by
  obtain ⟨again, htext, hagain⟩ := exists_crlf (Text.pieces '\n' text)
  have hpieces : Text.pieces '\n' ("\n".intercalate again) = again := by
    apply pieces_lines
    · intro line hline
      obtain ⟨raw, hraw, hpadded⟩ := exists_line hagain hline
      exact hpadded.not_mem (Text.not_mem_of_mem_pieces hraw)
    · rintro rfl
      exact Text.pieces_ne_nil '\n' text (List.forall₂_nil_right_iff.mp hagain)
  have hlines := Reading.lines_congr (hagain.imp fun _ _ h => h.statement_eq) {} 1
  unfold parse
  rw [htext, hpieces, hlines]

/-- **A configuration file is read line by line.**  Only a wrong line fails it, the lines in front of
that line are right, and the lines behind it do not matter.  Blanks in the lines, ignored lines between
them, and the way they end change the number in an error at most.  Behind another file, a file that
begins a section adds its entries. -/
theorem parse_lines (text path : String) :
    (∀ e, parse text path = .error e →
      ∃ number message, e = .configFile path number message) ∧
    (∀ number message, parse text path = .error (.configFile path number message) →
      1 ≤ number ∧ number ≤ (Text.pieces '\n' text).length ∧
      (∃ s, parse ("\n".intercalate ((Text.pieces '\n' text).take (number - 1))) path = .ok s) ∧
      ∀ more : List String,
        parse ("\n".intercalate ((Text.pieces '\n' text).take number ++ more)) path =
          .error (.configFile path number message)) ∧
    (∀ blocks rest, List.Forall₂ Block.Holds (Text.pieces '\n' text) blocks →
      (∀ line ∈ rest, Ignored line) →
      (∀ s, parse text path = .ok s →
        parse ("\n".intercalate (blocks.flatMap Block.lines ++ rest)) path = .ok s) ∧
      ∀ number message, parse text path = .error (.configFile path number message) →
        parse ("\n".intercalate (blocks.flatMap Block.lines ++ rest)) path =
          .error (.configFile path (number + shift blocks number) message)) ∧
    parse ("\r\n".intercalate (Text.pieces '\n' text)) path = parse text path ∧
    (∀ s, parse text path = .ok s → s.FollowFrom (entriesOf text)) ∧
    ∀ behind s t, parse text path = .ok s → parse behind path = .ok t →
      Begins (Text.pieces '\n' behind) →
      ∃ u, parse (text ++ "\n" ++ behind) path = .ok u ∧ u.options = s.options ++ t.options ∧
        u.FollowFrom (entriesOf text ++ entriesOf behind) := by
  refine ⟨?_, ?_, ?_, parse_crlf text path, ?_, ?_⟩
  · intro e he
    obtain ⟨number, fault, -, rfl⟩ := parse_eq_error_iff.mp he
    exact ⟨number, fault.message, rfl⟩
  · intro number message h
    exact parse_front h
  · intro blocks rest hblocks hrest
    exact parse_respaced hblocks hrest path
  · intro s hs
    exact parse_followFrom hs
  · intro behind s t hs ht hbegins
    exact parse_join hs ht hbegins

/-- A wrong port is found behind a comment, and a file is continued by the options of the backend. -/
theorem parse_lines_port :
    (∀ more : List String,
      parse ("\n".intercalate (["listen = ::1", "port = http"] ++ more)) "relay.conf" =
        .error (.configFile "relay.conf" 2 "invalid port 'http'")) ∧
    parse "listen =\t ::1\n# the port\nport = http\r\n" "relay.conf" =
      .error (.configFile "relay.conf" 3 "invalid port 'http'") ∧
    ∃ u, parse "port = 1\n[backend]\nhost = localhost" "relay.conf" = .ok u ∧
      u.options = [("host", "localhost")] ∧
      u.FollowFrom [⟨.core, "port", "1"⟩, ⟨.backend, "host", "localhost"⟩] := by
  have herror : parse "listen = ::1\nport = http" "relay.conf" =
      .error (.configFile "relay.conf" 2 "invalid port 'http'") := by rfl
  obtain ⟨-, hfront, hrespaced, -, -, -⟩ := parse_lines "listen = ::1\nport = http" "relay.conf"
  obtain ⟨-, -, -, hmore⟩ := hfront _ _ herror
  have hlisten : Padded "listen = ::1" "listen =\t ::1" := by
    have hspaced : Spaced " ::1" "\t ::1" :=
      ⟨"", "\t", " ::1", "", "", by decide, by decide, by decide, by decide, rfl, rfl⟩
    have hkey : IsKey "listen " := by decide
    exact .value hkey hspaced
  have hblocks : List.Forall₂ Block.Holds (Text.pieces '\n' "listen = ::1\nport = http")
      [⟨[], "listen =\t ::1"⟩, ⟨["# the port"], "port = http\r"⟩] := by
    exact .cons ⟨by simp, hlisten⟩ (.cons ⟨by decide, .crlf "port = http"⟩ .nil)
  have hempty : ∀ line ∈ [""], Ignored line := by decide
  obtain ⟨-, hmoved⟩ := hrespaced _ _ hblocks hempty
  have hjoined := (parse_lines "port = 1" "relay.conf").2.2.2.2.2 "[backend]\nhost = localhost"
    _ _ rfl rfl ⟨[], "[backend]", ["host = localhost"], "backend", rfl, by simp, rfl⟩
  exact ⟨hmore, hmoved _ _ herror, hjoined⟩

end WsRelay.Settings
