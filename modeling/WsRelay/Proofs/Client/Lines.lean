import WsRelay.Proofs.Client.Chunking
import WsRelay.Proofs.Handshake.Fields
import WsRelay.Proofs.Text.Lines
/-! # Line by line

A line that arrives as a whole is taken, and nothing else happens (`hearClient_line`).  The request
line is read for its path, and header lines are fed to the request one by one until one of them is
refused; if none is, the upgrade is asked for with what they have left (`hearClient_headers`). -/

namespace WsRelay

/-- A line that is followed by its end is the first line. -/
theorem Bytes.splitLine?_lineEnd {line : Bytes} (h : indexOf? lineEnd line = none) :
    splitLine? (line ++ lineEnd) = some (line, []) := by
  have hindex := (oneLine_iff.mpr h).indexOf?
  rw [splitLine?, hindex, Option.map_some, List.take_left, List.drop_of_length_le]
  rw [List.length_append]
  exact Nat.le_refl _

namespace Connection

variable {σ : Type} (router : Router σ) {c : Connection σ}

/-- Whether more is to be heard after a line. -/
def afterLine : Except Error Unit × Connection σ → Verdict × Connection σ
  | (.error e, c) => (.close e.termination, c)
  | (.ok (), c) => (.continue, c)

theorem useStep_nil (h : c.clientBuffer = []) : c.useStep router = .done (.ok .continue, c) := by
  have hline : c.lineStep router = .done (.ok .continue, c) := by
    rw [lineStep, h]
    rfl
  have hframe : c.frameStep = .done (.ok .continue, c) := frameStep_unparsed (by rw [h]; rfl)
  unfold useStep
  split
  · exact hline
  · exact hline
  · exact hframe
  · rfl

/-- Until the upgrade, what is in the buffer is used line by line. -/
theorem useStep_line (hphase : c.phase = .requestLine ∨ c.phase = .headers) :
    c.useStep router = c.lineStep router := by
  unfold useStep
  rcases hphase with hphase | hphase <;> rw [hphase]

/-- Using a buffer that holds one line is taking the line. -/
theorem useClientBuffer_line (line : Bytes) (hphase : c.phase = .requestLine ∨ c.phase = .headers)
    (hline : Bytes.indexOf? Bytes.lineEnd line = none)
    (hbuffer : c.clientBuffer = line ++ Bytes.lineEnd) :
    useClientBuffer router c =
      ((takeLine router line { c with clientBuffer := [] }).1.map fun _ => .continue,
        (takeLine router line { c with clientBuffer := [] }).2) := by
  have hstep := useStep_line router hphase
  have hempty := takeLine_clientBuffer router line { c with clientBuffer := [] }
  rw [lineStep, hbuffer, Bytes.splitLine?_lineEnd hline] at hstep
  dsimp only at hstep
  rcases ht : takeLine router line { c with clientBuffer := [] } with ⟨e | _, d⟩
  all_goals rw [ht] at hstep hempty
  · exact Loop.run_done hstep
  · exact (Loop.run_again hstep).trans (Loop.run_done (useStep_nil router hempty))

/-- A line that arrives as a whole is taken, and nothing else happens. -/
theorem hearClient_line (line : Bytes) (hphase : c.phase = .requestLine ∨ c.phase = .headers)
    (hbuffer : c.clientBuffer = []) (hidle : c.fromClient = {})
    (hline : Bytes.indexOf? Bytes.lineEnd line = none)
    (hfits : line.length + 2 ≤ bufferCapacity) :
    hearClient router (line ++ Bytes.lineEnd) c = afterLine (c.takeLine router line) := by
  have hroom : (line ++ Bytes.lineEnd).length ≤ clientRoom c := by
    rw [clientRoom, hbuffer, List.length_append]
    exact hfits
  have huse := useClientBuffer_line router line
    (c := { c with clientBuffer := c.clientBuffer ++ (line ++ Bytes.lineEnd) }) hphase hline
    (by rw [hbuffer]; rfl)
  have hself : { c with clientBuffer := [] } = c := by rw [← hbuffer]
  have hempty := takeLine_clientBuffer router line c
  dsimp only at huse
  rw [hself] at huse
  have hne : line ++ Bytes.lineEnd ≠ [] :=
    List.append_ne_nil_of_right_ne_nil _ (List.cons_ne_nil _ _)
  rw [hearClient_once hidle hne hroom, reader_digestClient, huse]
  rcases ht : c.takeLine router line with ⟨e | _, d⟩
  all_goals rw [ht] at hempty
  · rfl
  · have hempty : d.clientBuffer = [] := hempty.trans hbuffer
    have hroom : d.clientBuffer.length ≠ bufferCapacity := by
      rw [hempty]
      decide
    show afterUse (.ok .continue, d) = (.continue, d)
    rw [afterUse, checkRoom, if_neg hroom]
    rfl

/-- The connection while it collects header lines. -/
def collecting (c : Connection σ) (request : Handshake.Request) : Connection σ :=
  { c with phase := .headers, request }

section
variable {router} {line : Bytes} {e : Error} {r : Handshake.Request}

/-- One that does begins the request. -/
theorem takeLine_of_path? {path : String} (hphase : c.phase = .requestLine)
    (h : Handshake.path? line = .ok path) :
    c.takeLine router line = (.ok (), c.collecting { path }) := by
  unfold takeLine
  rw [hphase]
  dsimp only
  rw [h]
  rfl

/-- A header line that is refused leaves the request as it is. -/
theorem takeLine_of_feed_error (h : r.feed line = .error e) :
    (c.collecting r).takeLine router line = (.error e, c.collecting r) := by
  unfold takeLine
  dsimp only [collecting]
  rw [h]

/-- One that is not adds to it. -/
theorem takeLine_of_feed_header {request : Handshake.Request}
    (h : r.feed line = .ok (.header request)) :
    (c.collecting r).takeLine router line = (.ok (), c.collecting request) := by
  unfold takeLine
  dsimp only [collecting]
  rw [h]

end

theorem takeAll_singleton {α : Type} (read : Reader α) (piece : Bytes) (a : α) :
    read.takeAll [piece] a = read piece a := by
  rcases hr : read piece a with ⟨_ | t, b⟩
  · rw [Reader.takeAll_continue hr]
    rfl
  · rw [Reader.takeAll_close hr]

/-- Header lines and the empty line, one after the other: the first that is refused closes the
connection, and if none is, the upgrade is asked for with what they have left in the request. -/
theorem hearClient_headers (hbuffer : c.clientBuffer = []) (hidle : c.fromClient = {})
    (headers : List Bytes)
    (hfits : ∀ line ∈ headers, Bytes.indexOf? Bytes.lineEnd line = none ∧
      line.length + 2 ≤ bufferCapacity)
    (hne : ∀ line ∈ headers, line ≠ []) (r : Handshake.Request) :
    let heard :=
      (hearClient router).takeAll ((headers ++ [[]]).map (· ++ Bytes.lineEnd)) (c.collecting r)
    (∀ status, headers.findSome? Handshake.refusal? = some status →
      ∃ r', heard = (.close (.http status), c.collecting r')) ∧
    (headers.findSome? Handshake.refusal? = none →
      heard = afterLine
        ((c.collecting (r.collect (headers.filterMap Handshake.field?))).upgrade router)) := by
  induction headers generalizing r with
  | nil =>
      refine ⟨fun _ h => (by cases h), fun _ => ?_⟩
      rw [List.nil_append, List.map_singleton, takeAll_singleton]
      exact hearClient_line router [] (c := c.collecting r) (.inr rfl) hbuffer hidle rfl (by decide)
  | cons line headers ih =>
      obtain ⟨⟨hline, hlen⟩, hfits⟩ := List.forall_mem_cons.mp hfits
      obtain ⟨hne, hnes⟩ := List.forall_mem_cons.mp hne
      have hear := hearClient_line router line (c := c.collecting r) (.inr rfl) hbuffer hidle hline
        hlen
      simp only [List.cons_append, List.map_cons, List.findSome?_cons]
      cases hrefusal : Handshake.refusal? line with
      | some status =>
          obtain ⟨e, hfeed, hend⟩ := Handshake.Request.feed_refused hrefusal r
          rw [takeLine_of_feed_error hfeed] at hear
          refine ⟨fun _ hstatus => ⟨r, ?_⟩, fun h => by cases h⟩
          cases hstatus
          rw [← hend]
          exact Reader.takeAll_close hear
      | none =>
          obtain ⟨tag, value, hfield, hfeed⟩ := Handshake.Request.feed_field hrefusal hne r
          rw [takeLine_of_feed_header hfeed] at hear
          rw [Reader.takeAll_continue hear, List.filterMap_cons, hfield]
          exact ih hfits hnes (r.set tag value)

end Connection

end WsRelay
