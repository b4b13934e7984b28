import WsRelay.Config.Settings
import WsRelay.Proofs.Text.Blanks
import WsRelay.Proofs.Text.Lines
/-! # Lines of a configuration file

What a line says (`Statement`) is all that reading it depends on (`Reading.line_eq`).  A line may be
padded with blanks around it, around the name of a section, around a key and around a value
(`Padded`), and says the same (`Padded.statement_eq`).  Lines are read one after the other, up to the
first that is wrong (`Reading.lines_eq_error_iff`). -/

namespace WsRelay.Settings

variable {line padded key : String} {c : Char}
variable {r last : Reading} {number : Nat} {texts again : List String}

/-- What a line of a configuration file says. -/
inductive Statement where
  /-- A blank line or a comment. -/
  | nothing
  /-- A section begins. -/
  | header (name : String)
  | unterminated
  | entry (key value : String)
  | noEquals
deriving DecidableEq, Repr

/-- What a line says once the blanks are trimmed. -/
def statement (raw : String) : Statement :=
  let line := Text.trim raw
  match line.toList with
  | [] | '#' :: _ | ';' :: _ => .nothing
  | '[' :: rest =>
    match Text.stripEnd? ']' (String.ofList rest) with
    | none => .unterminated
    | some name => .header (Text.trim name)
  | _ =>
    match Text.cut? '=' line with
    | none => .noEquals
    | some (key, value) => .entry (Text.trim key) (Text.trim value)

/-- The section of a name. -/
def sectionNamed? (name : String) : Option Section :=
  if name = "core" then some .core else if name = "backend" then some .backend else none

/-- After a line that says so. -/
def Reading.obey (r : Reading) : Statement → Except LineFault Reading
  | .nothing => .ok r
  | .header name =>
    match sectionNamed? name with
    | none => .error (.unknownSection name)
    | some s => .ok { r with current := s }
  | .unterminated => .error .unterminatedSection
  | .entry key value =>
    if key = "" then .error .emptyKey
    else match r.current with
      | .core => (r.settings.setCore key value).map fun s => { r with settings := s }
      | .backend => .ok { r with latest := (key, value) :: r.latest }
  | .noEquals => .error .noEquals

/-- **Reading a line depends on what it says alone.** -/
theorem Reading.line_eq (r : Reading) (raw : String) : r.line raw = r.obey (statement raw) := by
  unfold Reading.line
  dsimp only
  split
  · next h => simp only [statement, h, obey]
  · next h => simp only [statement, h, obey]
  · next h => simp only [statement, h, obey]
  · next rest h =>
    simp only [statement, h, sectionOf]
    cases Text.stripEnd? ']' (String.ofList rest) with
    | none => rfl
    | some name =>
        simp only [obey, sectionNamed?]
        by_cases hcore : Text.trim name = "core"
        · simp only [if_pos hcore, Except.map]
        · by_cases hbackend : Text.trim name = "backend"
          · simp only [if_neg hcore, if_pos hbackend, Except.map]
          · simp only [if_neg hcore, if_neg hbackend, Except.map]
  · next hnil hhash hsemicolon hopen =>
    unfold statement
    dsimp only
    split
    · next h => exact absurd h hnil
    · next h => exact absurd h (hhash _)
    · next h => exact absurd h (hsemicolon _)
    · next h => exact absurd h (hopen _)
    · unfold Reading.setting
      cases Text.cut? '=' (Text.trim raw) with
      | none => rfl
      | some parts => rfl

/-! ### Padding -/

/-- Blanks that do not end the line. -/
def Pad (s : String) : Prop :=
  ∀ c ∈ s.toList, Text.isBlank c = true ∧ c ≠ '\n'

instance : DecidablePred Pad :=
  fun s => List.decidableBAll _ s.toList

theorem Pad.blank {s : String} (h : Pad s) : Text.Blank s :=
  fun c hc => (h c hc).1

/-- The text stands as a key in front of an equals sign: the line is no comment and no header. -/
def IsKey (key : String) : Prop :=
  '=' ∉ key.toList ∧ ∀ c ∈ (Text.trimStart key).toList.head?, c ∉ ['#', ';', '[']

instance : DecidablePred IsKey :=
  fun key => @instDecidableAnd _ _ inferInstance
    (Option.decidableForallMem (Text.trimStart key).toList.head?)

/-- The second text is the first with more blanks at its ends. -/
def Spaced (s padded : String) : Prop :=
  ∃ front before body after back, Text.Blank front ∧ Pad before ∧ Pad after ∧ Text.Blank back ∧
    s = front ++ body ++ back ∧ padded = front ++ (before ++ body ++ after) ++ back

/-- The second line is the first with more blanks, where they may stand. -/
inductive Padded : (line padded : String) → Prop
  | line {line padded : String} (h : Spaced line padded) : Padded line padded
  | name {front back name padded : String} (hfront : Text.Blank front) (hback : Text.Blank back)
      (h : Spaced name padded) :
    Padded (front ++ ("[" ++ name ++ "]") ++ back) (front ++ ("[" ++ padded ++ "]") ++ back)
  | key {key padded : String} (value : String) (hkey : IsKey key) (h : Spaced key padded) :
    Padded (key ++ "=" ++ value) (padded ++ "=" ++ value)
  | value {key value padded : String} (hkey : IsKey key) (h : Spaced value padded) :
    Padded (key ++ "=" ++ value) (key ++ "=" ++ padded)
  | trans {line once twice : String} (first : Padded line once) (second : Padded once twice) :
    Padded line twice

theorem Spaced.trim_eq (h : Spaced line padded) : Text.trim padded = Text.trim line := by
  obtain ⟨front, before, body, after, back, hfront, hbefore, hafter, hback, rfl, rfl⟩ := h
  rw [Text.trim_pad hfront hback, Text.trim_pad hbefore.blank hafter.blank,
    Text.trim_pad hfront hback]

theorem Spaced.head?_eq (h : Spaced key padded) :
    (Text.trimStart padded).toList.head? = (Text.trimStart key).toList.head? := by
  obtain ⟨front, before, body, after, back, hfront, hbefore, hafter, hback, rfl, rfl⟩ := h
  rw [Text.head?_trimStart_pad hfront hback,
    Text.head?_trimStart_pad hbefore.blank hafter.blank, Text.head?_trimStart_pad hfront hback]

/-- Only blanks are new, and none of them ends the line. -/
theorem Spaced.of_mem (h : Spaced line padded) (hc : c ∈ padded.toList) :
    c ∈ line.toList ∨ Text.isBlank c = true ∧ c ≠ '\n' := by
  obtain ⟨front, before, body, after, back, hfront, hbefore, hafter, hback, rfl, rfl⟩ := h
  simp only [String.toList_append, List.mem_append] at hc ⊢
  rcases hc with (hc | (hc | hc) | hc) | hc
  · exact .inl (.inl (.inl hc))
  · exact .inr (hbefore c hc)
  · exact .inl (.inl (.inr hc))
  · exact .inr (hafter c hc)
  · exact .inl (.inr hc)

theorem Spaced.refl (s : String) : Spaced s s := by
  refine ⟨"", "", s, "", "", ?_, ?_, ?_, ?_, ?_, ?_⟩ <;> simp [Text.Blank, Pad]

theorem Padded.refl (line : String) : Padded line line :=
  .line (.refl line)

theorem Padded.crlf (line : String) : Padded line (line ++ "\r") := by
  have hreturn : Pad "\r" := by
    intro c hc
    obtain rfl : c = '\r' := by simpa using hc
    decide
  refine .line ⟨"", "", line, "\r", "", ?_, ?_, hreturn, ?_, ?_, ?_⟩ <;> simp [Text.Blank, Pad]

/-- A line that is padded is still one line. -/
theorem Padded.not_mem (h : Padded line padded) (hline : '\n' ∉ line.toList) :
    '\n' ∉ padded.toList := by
  have hspaced {s t : String} (hs : Spaced s t) (hmem : '\n' ∈ t.toList) : '\n' ∈ s.toList :=
    (hs.of_mem hmem).resolve_right fun hblank => hblank.2 rfl
  intro hmem
  induction h with
  | line h => exact hline (hspaced h hmem)
  | name hfront hback h =>
      simp only [String.toList_append, List.mem_append] at hline hmem
      have := hspaced h
      tauto
  | key value hkey h =>
      simp only [String.toList_append, List.mem_append] at hline hmem
      have := hspaced h
      tauto
  | value hkey h =>
      simp only [String.toList_append, List.mem_append] at hline hmem
      have := hspaced h
      tauto
  | trans first second ihfirst ihsecond => exact ihsecond (ihfirst hline) hmem

/-- What is written in brackets is a header. -/
theorem statement_header (name : String) :
    statement ("[" ++ name ++ "]") = .header (Text.trim name) := by
  have htrim : Text.trim ("[" ++ name ++ "]") = "[" ++ name ++ "]" := by
    have hstart : Text.trimStart "" = "" := by decide
    have hend : Text.trimEnd "" = "" := by decide
    have hclose : Text.trimEnd (name ++ ("]" ++ "")) = name ++ ("]" ++ Text.trimEnd "") :=
      Text.trimEnd_around (c := ']') (by decide) name ""
    have hopen : Text.trim ("" ++ ("[" ++ (name ++ "]"))) =
        Text.trimStart "" ++ ("[" ++ Text.trimEnd (name ++ "]")) :=
      Text.trim_around (c := '[') (by decide) "" (name ++ "]")
    rw [hend, String.append_empty] at hclose
    rw [hstart, String.empty_append, String.empty_append, hclose] at hopen
    rw [String.append_assoc]
    exact hopen
  have hopen : ("[" ++ name ++ "]").toList = '[' :: (name ++ "]").toList := by
    simp
  have hclosed : Text.stripEnd? ']' (String.ofList (name ++ "]").toList) = some name := by
    simp [Text.stripEnd?]
  unfold statement
  simp only [htrim, hopen, hclosed]

/-- A key in front of an equals sign is set to what stands behind it. -/
theorem statement_entry (h : IsKey key) (value : String) :
    statement (key ++ "=" ++ value) = .entry (Text.trim key) (Text.trim value) := by
  obtain ⟨hequals, hhead⟩ := h
  have htrim : Text.trim (key ++ "=" ++ value) =
      Text.trimStart key ++ ("=" ++ Text.trimEnd value) := by
    rw [String.append_assoc]
    exact Text.trim_around (c := '=') (by decide) key value
  have hstart : '=' ∉ (Text.trimStart key).toList := by
    intro hmem
    exact hequals ((Text.trimStart_within key).subset hmem)
  have hcut : Text.cut? '=' (Text.trimStart key ++ ("=" ++ Text.trimEnd value)) =
      some (Text.trimStart key, Text.trimEnd value) := Text.cut?_append hstart _
  have hfirst : ∀ c ∈ (Text.trimStart key ++ ("=" ++ Text.trimEnd value)).toList.head?,
      c ∉ ['#', ';', '['] := by
    intro c hc
    cases hlist : (Text.trimStart key).toList with
    | nil =>
        obtain rfl : '=' = c := by simpa [hlist] using hc
        decide
    | cons d ds =>
        refine hhead c ?_
        simpa [hlist] using hc
  unfold statement
  simp only [htrim]
  split
  · next hnil => simp at hnil
  · next hlist => simp [hlist] at hfirst
  · next hlist => simp [hlist] at hfirst
  · next hlist => simp [hlist] at hfirst
  · simp only [hcut, Text.trim_trimStart, Text.trim_trimEnd]

theorem statement_congr {raw again : String} (h : Text.trim raw = Text.trim again) :
    statement raw = statement again := by
  unfold statement
  rw [h]

theorem IsKey.spaced (hkey : IsKey key) (h : Spaced key padded) : IsKey padded := by
  constructor
  · intro hmem
    rcases h.of_mem hmem with hmem | ⟨hblank, -⟩
    · exact hkey.1 hmem
    · exact absurd hblank (by decide)
  · rw [h.head?_eq]
    exact hkey.2

/-- **A padded line says the same.** -/
theorem Padded.statement_eq (h : Padded line padded) : statement padded = statement line := by
  induction h with
  | line h => exact statement_congr h.trim_eq
  | name hfront hback h =>
      rw [statement_congr (Text.trim_pad hfront hback _), statement_header, h.trim_eq,
        ← statement_header, statement_congr (Text.trim_pad hfront hback _)]
  | key value hkey h =>
      rw [statement_entry (hkey.spaced h), statement_entry hkey, h.trim_eq]
  | value hkey h => rw [statement_entry hkey, statement_entry hkey, h.trim_eq]
  | trans _ _ ihfirst ihsecond => rw [ihsecond, ihfirst]

/-! ### One line after the other -/

/-- Lines are read one part after the other. -/
theorem Reading.lines_append (r : Reading) (number : Nat) (front back : List String) :
    r.lines number (front ++ back) =
      (r.lines number front).bind fun last => last.lines (number + front.length) back := by
  induction front generalizing r number with
  | nil => rfl
  | cons raw front ih =>
      simp only [List.cons_append, lines]
      cases r.line raw with
      | error fault => rfl
      | ok next =>
          simp only [ih, List.length_cons]
          rw [Nat.add_right_comm, Nat.add_assoc]

theorem Reading.lines_append_of_ok {front : List String} (h : r.lines number front = .ok last)
    (back : List String) :
    r.lines number (front ++ back) = last.lines (number + front.length) back := by
  rw [lines_append, h]
  rfl

/-- **The first line that is wrong is the one reported.** -/
theorem Reading.lines_eq_error_iff {found : Nat} {fault : LineFault} :
    r.lines number texts = .error (found, fault) ↔
      ∃ front raw back last, texts = front ++ raw :: back ∧ r.lines number front = .ok last ∧
        last.line raw = .error fault ∧ found = number + front.length := by
  constructor
  · intro h
    induction texts generalizing r number with
    | nil => simp [lines] at h
    | cons raw texts ih =>
        rw [lines] at h
        cases hline : r.line raw with
        | error wrong =>
            simp only [hline, Except.error.injEq, Prod.mk.injEq] at h
            obtain ⟨rfl, rfl⟩ := h
            exact ⟨[], raw, texts, r, rfl, rfl, hline, rfl⟩
        | ok next =>
            simp only [hline] at h
            obtain ⟨front, wrong, back, last, rfl, hfront, hwrong, rfl⟩ := ih h
            refine ⟨raw :: front, wrong, back, last, rfl, ?_, hwrong, ?_⟩
            · simp only [lines, hline, hfront]
            · simp only [List.length_cons]
              omega
  · rintro ⟨front, raw, back, last, rfl, hfront, hwrong, rfl⟩
    rw [lines_append_of_ok hfront, lines, hwrong]

/-- Lines that say the same are read the same. -/
theorem Reading.lines_congr
    (h : List.Forall₂ (fun raw other => statement other = statement raw) texts again)
    (r : Reading) (number : Nat) : r.lines number again = r.lines number texts := by
  induction h generalizing r number with
  | nil => rfl
  | cons hline hrest ih =>
      simp only [lines, line_eq, hline, ih]

/-! ### Ignored lines -/

/-- A blank line or a comment. -/
def Ignored (line : String) : Prop :=
  '\n' ∉ line.toList ∧ ∀ c ∈ (Text.trim line).toList.head?, c = '#' ∨ c = ';'

instance : DecidablePred Ignored :=
  fun line => @instDecidableAnd _ _ inferInstance
    (Option.decidableForallMem (Text.trim line).toList.head?)

theorem Ignored.statement_eq (h : Ignored line) : statement line = .nothing := by
  unfold statement
  cases hlist : (Text.trim line).toList with
  | nil => simp only [hlist]
  | cons c rest =>
      rcases h.2 c (by simp [hlist]) with rfl | rfl
      · simp only [hlist]
      · simp only [hlist]

theorem Reading.lines_ignored (h : ∀ line ∈ texts, statement line = .nothing) (r : Reading)
    (number : Nat) : r.lines number texts = .ok r := by
  induction texts generalizing number with
  | nil => rfl
  | cons raw texts ih =>
      rw [lines, line_eq, h raw (by simp)]
      exact ih (fun line hline => h line (by simp [hline])) _

end WsRelay.Settings
