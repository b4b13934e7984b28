import WsRelay.Proofs.Config.Lines
import WsRelay.Proofs.Text.Pieces
/-! # What a configuration file sets

A file is a list of entries (`entriesOf`), and the settings it gives are what its entries say
(`parse_followFrom`): the last value of each key of `[core]`, and every option of the backend.

Whether a line is right depends on its section alone, so a file that begins a section can stand behind
any other (`parse_join`). -/

namespace WsRelay.Settings

variable {r q next last : Reading} {said : Statement} {number : Nat} {texts : List String}
variable {s t : Settings} {key value text path : String}

/-- A key of a section and its value. -/
structure Entry where
  part : Section
  key : String
  value : String
deriving DecidableEq, Repr

variable {es : List Entry}

/-- What a line sets. -/
def Statement.sets (current : Section) : Statement → List Entry
  | .entry key value => [⟨current, key, value⟩]
  | _ => []

/-- The section behind a line. -/
def Statement.leaves (current : Section) : Statement → Section
  | .header name => (sectionNamed? name).getD current
  | _ => current

/-- What lines set, the first of them being in the section `current`. -/
def entries (current : Section) : List Statement → List Entry
  | [] => []
  | said :: rest => said.sets current ++ entries (said.leaves current) rest

/-- What a text sets, from its first line to its last. -/
def entriesOf (text : String) : List Entry :=
  entries .core ((Text.pieces '\n' text).map statement)

/-- The value a key of `[core]` has last. -/
def lastCore? (key : String) (es : List Entry) : Option String :=
  (es.reverse.find? fun e => e.part = .core ∧ e.key = key).map Entry.value

/-- The options of the backend, in order. -/
def optionsOf (es : List Entry) : List (String × String) :=
  (es.filter fun e => e.part = .backend).map fun e => (e.key, e.value)

/-- The settings are what the entries say: the last value of each key of `[core]`, or its default,
and every option of the backend. -/
structure FollowFrom (s : Settings) (es : List Entry) : Prop where
  listen : s.listen = (lastCore? "listen" es).getD "::"
  port : lastCore? "port" es = none ∧ s.port = 8001 ∨
    ∃ value, lastCore? "port" es = some value ∧ Text.port? value = some s.port
  backend : s.backend = (lastCore? "backend" es).getD defaultBackend
  options : s.options = optionsOf es

theorem lastCore?_core (k key value : String) (es : List Entry) :
    lastCore? k (es ++ [⟨.core, key, value⟩]) =
      if key = k then some value else lastCore? k es := by
  by_cases hk : key = k <;> simp [lastCore?, hk]

theorem lastCore?_backend (k key value : String) (es : List Entry) :
    lastCore? k (es ++ [⟨.backend, key, value⟩]) = lastCore? k es := by
  simp [lastCore?]

theorem optionsOf_append (es fs : List Entry) :
    optionsOf (es ++ fs) = optionsOf es ++ optionsOf fs := by
  simp [optionsOf]

/-! ### What a line does -/

/-- A line of `[core]` sets one of three keys. -/
theorem setCore_eq_ok_iff : s.setCore key value = .ok t ↔
    key = "listen" ∧ t = { s with listen := value } ∨
    key = "port" ∧ (∃ port, Text.port? value = some port ∧ t = { s with port }) ∨
    key = "backend" ∧ t = { s with backend := value } := by
  unfold setCore
  split
  · next hkey => simp [hkey, eq_comm]
  · next hlisten =>
    split
    · next hkey => cases hport : Text.port? value <;> simp [hkey, eq_comm]
    · next hport =>
      split
      · next hkey => simp [hkey, eq_comm]
      · next hbackend => simp [hlisten, hport, hbackend]

/-- A line is ignored, begins a section, or sets a key of the section it is in. -/
theorem Reading.obey_eq_ok_iff : r.obey said = .ok next ↔
    (said = .nothing ∧ next = r) ∨
    (∃ name part, said = .header name ∧ sectionNamed? name = some part ∧
      next = { r with current := part }) ∨
    (∃ key value settings, said = .entry key value ∧ key ≠ "" ∧ r.current = .core ∧
      r.settings.setCore key value = .ok settings ∧ next = { r with settings }) ∨
    (∃ key value, said = .entry key value ∧ key ≠ "" ∧ r.current = .backend ∧
      next = { r with latest := (key, value) :: r.latest }) := by
  cases said with
  | nothing => simp [obey, eq_comm]
  | header name => cases hname : sectionNamed? name <;> simp [obey, hname, eq_comm]
  | unterminated => simp [obey]
  | noEquals => simp [obey]
  | entry key value =>
      by_cases hkey : key = ""
      · simp [obey, hkey]
      · cases hcurrent : r.current with
        | core =>
            cases hset : r.settings.setCore key value <;>
              simp [obey, hkey, hcurrent, hset, Except.map, eq_comm]
        | backend => simp [obey, hkey, hcurrent, eq_comm]

/-- A line of `[core]` sets its key to its value. -/
theorem FollowFrom.core (hs : s.FollowFrom es) (h : s.setCore key value = .ok t) :
    t.FollowFrom (es ++ [⟨.core, key, value⟩]) := by
  have hoptions : optionsOf (es ++ [⟨.core, key, value⟩]) = optionsOf es := by
    simp [optionsOf]
  rcases setCore_eq_ok_iff.mp h with ⟨rfl, rfl⟩ | ⟨rfl, port, hport, rfl⟩ | ⟨rfl, rfl⟩
  · constructor
    · simp [lastCore?_core]
    · simpa [lastCore?_core] using hs.port
    · simpa [lastCore?_core] using hs.backend
    · rw [hoptions, ← hs.options]
  · constructor
    · simpa [lastCore?_core] using hs.listen
    · simp [lastCore?_core, hport]
    · simpa [lastCore?_core] using hs.backend
    · rw [hoptions, ← hs.options]
  · constructor
    · simpa [lastCore?_core] using hs.listen
    · simpa [lastCore?_core] using hs.port
    · simp [lastCore?_core]
    · rw [hoptions, ← hs.options]

/-- A line of `[backend]` adds an option. -/
theorem FollowFrom.option (hs : s.FollowFrom es) (key value : String) :
    FollowFrom { s with options := s.options ++ [(key, value)] }
      (es ++ [⟨.backend, key, value⟩]) := by
  constructor
  · simpa [lastCore?_backend] using hs.listen
  · simpa [lastCore?_backend] using hs.port
  · simpa [lastCore?_backend] using hs.backend
  · simp [hs.options, optionsOf]

/-- Options are carried along by a line of `[core]`. -/
theorem setCore_options (h : s.setCore key value = .ok t) (options : List (String × String)) :
    setCore { s with options } key value = .ok { t with options } := by
  rw [setCore_eq_ok_iff] at h ⊢
  rcases h with ⟨hkey, rfl⟩ | ⟨hkey, port, hport, rfl⟩ | ⟨hkey, rfl⟩
  · exact .inl ⟨hkey, rfl⟩
  · exact .inr (.inl ⟨hkey, port, hport, rfl⟩)
  · exact .inr (.inr ⟨hkey, rfl⟩)

/-- A line adds what it sets to what was set before. -/
theorem Reading.obey_followFrom (h : r.obey said = .ok next) (hr : r.result.FollowFrom es) :
    next.result.FollowFrom (es ++ said.sets r.current) ∧ next.current = said.leaves r.current := by
  rcases obey_eq_ok_iff.mp h with ⟨rfl, rfl⟩ | ⟨name, part, rfl, hname, rfl⟩ |
    ⟨key, value, settings, rfl, -, hcurrent, hset, rfl⟩ | ⟨key, value, rfl, -, hcurrent, rfl⟩
  · simp only [Statement.sets, List.append_nil]
    exact ⟨hr, rfl⟩
  · simp only [Statement.sets, List.append_nil]
    exact ⟨hr, by simp [Statement.leaves, hname]⟩
  · refine ⟨?_, rfl⟩
    rw [hcurrent]
    exact hr.core (setCore_options hset _)
  · refine ⟨?_, rfl⟩
    rw [hcurrent]
    simpa [result, Statement.sets] using hr.option key value

/-- Lines add what they set, in order. -/
theorem Reading.lines_followFrom (h : r.lines number texts = .ok last)
    (hr : r.result.FollowFrom es) :
    last.result.FollowFrom (es ++ entries r.current (texts.map statement)) := by
  induction texts generalizing r number es with
  | nil =>
      cases h
      rwa [List.map_nil, entries, List.append_nil]
  | cons raw texts ih =>
      rw [lines, line_eq] at h
      cases hline : r.obey (statement raw) with
      | error fault => simp [hline] at h
      | ok next =>
          simp only [hline] at h
          obtain ⟨hnext, hcurrent⟩ := obey_followFrom hline hr
          rw [List.map_cons, entries, ← List.append_assoc, ← hcurrent]
          exact ih h hnext

theorem followFrom_nil : FollowFrom {} [] := by
  constructor
  · rfl
  · exact .inl ⟨rfl, rfl⟩
  · rfl
  · rfl

theorem parse_eq_ok_iff : parse text path = .ok s ↔
    ∃ last, Reading.lines {} 1 (Text.pieces '\n' text) = .ok last ∧ last.result = s := by
  unfold parse
  split
  · next h => simp [h]
  · next h => simp [h]

/-- **The settings a file gives are what its entries say.** -/
theorem parse_followFrom (h : parse text path = .ok s) : s.FollowFrom (entriesOf text) := by
  obtain ⟨last, hlines, rfl⟩ := parse_eq_ok_iff.mp h
  exact Reading.lines_followFrom hlines followFrom_nil

/-! ### One file behind another -/

/-- Whether a line of `[core]` is right does not depend on the settings so far. -/
theorem exists_setCore (h : s.setCore key value = .ok t) (other : Settings) :
    ∃ u, other.setCore key value = .ok u := by
  simp only [setCore_eq_ok_iff] at h ⊢
  rcases h with ⟨hkey, rfl⟩ | ⟨hkey, port, hport, rfl⟩ | ⟨hkey, rfl⟩
  · exact ⟨_, .inl ⟨hkey, rfl⟩⟩
  · exact ⟨_, .inr (.inl ⟨hkey, port, hport, rfl⟩)⟩
  · exact ⟨_, .inr (.inr ⟨hkey, rfl⟩)⟩

/-- Whether a line is right depends on its section alone. -/
theorem Reading.exists_obey (h : r.obey said = .ok next) (hq : q.current = r.current) :
    ∃ other, q.obey said = .ok other ∧ other.current = next.current := by
  simp only [obey_eq_ok_iff] at h ⊢
  rcases h with ⟨hsaid, rfl⟩ | ⟨name, part, hsaid, hname, rfl⟩ |
    ⟨key, value, settings, hsaid, hkey, hcurrent, hset, rfl⟩ |
    ⟨key, value, hsaid, hkey, hcurrent, rfl⟩
  · exact ⟨q, .inl ⟨hsaid, rfl⟩, hq⟩
  · exact ⟨_, .inr (.inl ⟨name, part, hsaid, hname, rfl⟩), rfl⟩
  · obtain ⟨u, hu⟩ := exists_setCore hset q.settings
    exact ⟨_, .inr (.inr (.inl ⟨key, value, u, hsaid, hkey, hq.trans hcurrent, hu, rfl⟩)), hq⟩
  · exact ⟨_, .inr (.inr (.inr ⟨key, value, hsaid, hkey, hq.trans hcurrent, rfl⟩)), hq⟩

theorem Reading.exists_lines (h : r.lines number texts = .ok last) (hq : q.current = r.current)
    (other : Nat) : ∃ u, q.lines other texts = .ok u := by
  induction texts generalizing r q number other with
  | nil => exact ⟨q, rfl⟩
  | cons raw texts ih =>
      rw [lines, line_eq] at h ⊢
      cases hline : r.obey (statement raw) with
      | error fault => simp [hline] at h
      | ok next =>
          simp only [hline] at h
          obtain ⟨after, hafter, hcurrent⟩ := exists_obey hline hq
          simp only [hafter]
          exact ih h hcurrent _

/-- The first line that is not ignored begins a section. -/
def Begins (texts : List String) : Prop :=
  ∃ ignored header rest name, texts = ignored ++ header :: rest ∧
    (∀ line ∈ ignored, Ignored line) ∧ statement header = .header name

/-- Lines that begin a section are right wherever they stand, and set the same. -/
theorem Begins.exists_lines (hbegins : Begins texts) (h : r.lines number texts = .ok last)
    (q : Reading) (other : Nat) :
    (∃ u, q.lines other texts = .ok u) ∧
      entries q.current (texts.map statement) = entries r.current (texts.map statement) := by
  obtain ⟨ignored, header, rest, name, rfl, hignored, hheader⟩ := hbegins
  have hnothing : ∀ line ∈ ignored, statement line = .nothing :=
    fun line hline => (hignored line hline).statement_eq
  have hsame (current : Section) : entries current ((ignored ++ header :: rest).map statement) =
      entries current ((header :: rest).map statement) := by
    rw [List.map_append]
    clear hignored h
    induction ignored with
    | nil => rfl
    | cons line ignored ih =>
        rw [List.map_cons, hnothing line (by simp)]
        exact ih fun line hline => hnothing line (by simp [hline])
  rw [Reading.lines_append_of_ok (Reading.lines_ignored hnothing r number), Reading.lines,
    Reading.line_eq, hheader] at h
  rw [Reading.lines_append_of_ok (Reading.lines_ignored hnothing q other), Reading.lines,
    Reading.line_eq, hheader, hsame, hsame, List.map_cons, hheader]
  cases hname : sectionNamed? name with
  | none => simp [Reading.obey, hname] at h
  | some part =>
      simp only [Reading.obey, hname] at h ⊢
      refine ⟨Reading.exists_lines h (q := { q with current := part }) rfl _, ?_⟩
      simp only [entries, Statement.sets, Statement.leaves, hname, Option.getD_some]

/-- **A file that begins a section, behind another file.** -/
theorem parse_join {a b : String} (ha : parse a path = .ok s) (hb : parse b path = .ok t)
    (hbegins : Begins (Text.pieces '\n' b)) :
    ∃ u, parse (a ++ "\n" ++ b) path = .ok u ∧ u.options = s.options ++ t.options ∧
      u.FollowFrom (entriesOf a ++ entriesOf b) := by
  obtain ⟨front, hfront, rfl⟩ := parse_eq_ok_iff.mp ha
  obtain ⟨back, hback, rfl⟩ := parse_eq_ok_iff.mp hb
  obtain ⟨⟨whole, hwhole⟩, hentries⟩ :=
    hbegins.exists_lines hback front (1 + (Text.pieces '\n' a).length)
  have hpieces : Text.pieces '\n' (a ++ "\n" ++ b) = Text.pieces '\n' a ++ Text.pieces '\n' b :=
    Text.pieces_append a b
  have hfollows : whole.result.FollowFrom (entriesOf a ++ entriesOf b) := by
    have hon := Reading.lines_followFrom hwhole (parse_followFrom ha)
    rw [hentries] at hon
    exact hon
  refine ⟨whole.result, parse_eq_ok_iff.mpr ⟨whole, ?_, rfl⟩, ?_, hfollows⟩
  · rw [hpieces, Reading.lines_append_of_ok hfront, hwhole]
  · rw [hfollows.options, optionsOf_append, (parse_followFrom ha).options,
      (parse_followFrom hb).options]

end WsRelay.Settings
