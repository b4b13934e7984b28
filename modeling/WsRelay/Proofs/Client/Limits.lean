import WsRelay.Proofs.Client.Relaying
import WsRelay.Proofs.Connection.Farewell
import WsRelay.Proofs.Peer.Conservation
/-! # How much of a client is held

A client's buffer holds one line or one frame at a time, and three tests keep it from filling up for
good: the check that follows every read, the check of a frame's length, and the end of a line that
has to be found.  They fit together exactly.

Before the upgrade, a connection that is at the beginning of a line takes it as soon as its end has
arrived, and overflows when a whole buffer of it has arrived without one.  Which line a stream
comes to in this way is said by `Reaches`, and so the streams that overflow a buffer are those that
reach an `Overlong` line (`overflow_iff_line`).

While frames are relayed no buffer overflows (`takeFromClient_fits`).  A frame that a stream comes
to (`AtFrame`) is decoded as soon as all of it has arrived if it fits into a buffer
(`hearClient_frame`), waited for before that, and refused as soon as its header has arrived if it
does not fit (`hearClient_tooLong`).  `limitsFrames` gathers what this says of each frame. -/

namespace WsRelay

/-- The verdict on a connection one of whose buffers has filled up. -/
def Verdict.overflow : Verdict :=
  .close (.close .tooLarge "Receive size limit exceeded")

/-- A line that is split off stands at the front, before its end. -/
theorem Bytes.splitLine?_split {s line rest : Bytes} (h : splitLine? s = some (line, rest)) :
    s = line ++ lineEnd ++ rest ∧ indexOf? lineEnd s = some line.length ∧
      indexOf? lineEnd line = none := by
  obtain ⟨n, hn, hp⟩ := Option.map_eq_some_iff.mp h
  obtain ⟨rfl, rfl⟩ := Prod.mk.inj hp
  obtain ⟨hle, hat, hbefore⟩ := indexOf?_eq_some_iff.mp hn
  have hlength : (s.take n).length = n := List.length_take_of_le hle
  refine ⟨?_, by rw [hlength, hn], ?_⟩
  · obtain ⟨rest, hrest⟩ := hat
    have hdrop : s.drop (n + 2) = rest := by
      rw [← List.drop_drop, ← hrest]
      rfl
    rw [hdrop, List.append_assoc, hrest, List.take_append_drop]
  · cases hline : indexOf? lineEnd (s.take n) with
    | none => rfl
    | some k =>
        have hinside := indexOf?_le hline
        have hfound := indexOf?_append (y := s.drop n) hline
        rw [List.take_append_drop, hn] at hfound
        obtain rfl := Option.some.inj hfound
        rw [hlength] at hinside
        exact absurd hinside (Nat.not_le.mpr (Nat.lt_add_of_pos_right (Nat.zero_lt_succ _)))

namespace Connection

variable {σ : Type} {router : Router σ} {c d e : Connection σ} {o : Outcome}
  {line rest s t : Bytes}

/-- What a client's stream leads to, as far as it is looked at, goes by its bytes alone. -/
theorem outline_congr (hroom : c.clientBuffer.length < bufferCapacity) (hinlet : c.fromClient = {})
    {xs ys : List Bytes} (h : xs.flatten = ys.flatten) :
    outline ((hearClient router).takeAll xs c) = outline ((hearClient router).takeAll ys c) := by
  rw [outline_takeAll c hroom hinlet, outline_takeAll c hroom hinlet, h]

theorem verdict_congr (hroom : c.clientBuffer.length < bufferCapacity) (hinlet : c.fromClient = {})
    {xs ys : List Bytes} (h : xs.flatten = ys.flatten) :
    ((hearClient router).takeAll xs c).1 = ((hearClient router).takeAll ys c).1 :=
  congrArg Outline.verdict (outline_congr hroom hinlet h)

/-- No bytes lead to nothing. -/
theorem hearClient_nil (hroom : c.clientBuffer.length < bufferCapacity)
    (hinlet : c.fromClient = {}) : hearClient router [] c = (.continue, c) := by
  have hself : c.setInlet {} = c := by rw [← hinlet]; rfl
  have hidle := (drains_client router).idle c (Nat.sub_pos_of_lt hroom)
  have hrun : takeFromClient router ({ waiting := [] }, c) = _ := Loop.run_done hidle
  rw [hearClient_eq router hinlet, hself, hrun]
  exact congrArg (Prod.mk _) hself

/-! ### Lines -/

/-- A stream with a line at its front whose end is not within the buffer that has to hold it. -/
structure Overlong (s : Bytes) : Prop where
  arrived : bufferCapacity ≤ s.length
  unended : ∀ n, Bytes.indexOf? Bytes.lineEnd s = some n →
    bufferCapacity < n + Bytes.lineEnd.length

/-- The connection is at the beginning of a line. -/
structure AtLine (c : Connection σ) : Prop where
  phase : c.phase = .requestLine ∨ c.phase = .headers
  buffer : c.clientBuffer = []
  inlet : c.fromClient = {}

/-- From a connection and its client's stream, one comes to another connection and what is left of
the stream: line by line, if each fits into a buffer and is accepted. -/
inductive Reaches (router : Router σ) : Connection σ → Bytes → Connection σ → Bytes → Prop
  | here {c : Connection σ} {s : Bytes} (hc : AtLine c) : Reaches router c s c s
  | line {c d e : Connection σ} {line rest t : Bytes} (hc : AtLine c)
      (hline : Bytes.indexOf? Bytes.lineEnd line = none)
      (hfits : line.length + Bytes.lineEnd.length ≤ bufferCapacity)
      (htake : c.takeLine router line = (.ok (), d)) (h : Reaches router d rest e t) :
    Reaches router c (line ++ Bytes.lineEnd ++ rest) e t

theorem atLine_fresh (id : SlotId) (address : String) (dial : Endpoint → Except IoFault PeerSocket)
    (toClient : Outlet Reply) (toPeer : Outlet Bytes) :
    AtLine (fresh (σ := σ) id address dial toClient toPeer) :=
  ⟨.inl rfl, rfl, rfl⟩

theorem AtLine.room (hc : AtLine c) : c.clientBuffer.length < bufferCapacity := by
  rw [hc.buffer]
  decide

/-- A line that is accepted leads to the next, or to frames. -/
theorem AtLine.takeLine (hc : AtLine c) (h : c.takeLine router line = (.ok (), d)) :
    d.phase = .relaying ∨ AtLine d := by
  have hkept := takeLine_withClient router line [] {} c
  have hself : c.withClient c.clientBuffer c.fromClient = c := rfl
  rw [hc.buffer, hc.inlet] at hself
  rw [hself, h] at hkept
  have hd : d = d.withClient [] {} := congrArg Prod.snd hkept
  have hat (hphase : d.phase = .headers) : AtLine d :=
    ⟨.inr hphase, congrArg clientBuffer hd, congrArg fromClient hd⟩
  unfold Connection.takeLine at h
  split at h
  · split at h
    · cases h
    · cases h
      exact .inr (hat rfl)
  · next hline =>
    split at h
    · cases h
    · cases h
      exact .inr (hat (hc.phase.resolve_left hline))
    · unfold upgrade at h
      split at h
      · cases h
      · split at h
        · cases h
        · split at h
          · cases h
          · cases h
            exact .inl rfl

/-- A line that is refused leaves the phase as it is, and is no reason to say that it is too long. -/
theorem takeLine_error {cause : Error} (hphase : c.phase = .requestLine ∨ c.phase = .headers)
    (h : c.takeLine router line = (.error cause, d)) :
    d.phase ≠ .relaying ∧ Verdict.close cause.termination ≠ .overflow := by
  have hhttp {cause : Error} (h : ∃ status, cause.termination = .http status) :
      Verdict.close cause.termination ≠ .overflow := by
    obtain ⟨status, hstatus⟩ := h
    rw [hstatus]
    nofun
  have hnot : c.phase ≠ .relaying := by
    rcases hphase with hphase | hphase <;> rw [hphase] <;> decide
  unfold takeLine at h
  split at h
  · split at h
    · next hpath =>
      obtain ⟨message, rfl⟩ := Handshake.path?_error hpath
      cases h
      exact ⟨hnot, nofun⟩
    · cases h
  · split at h
    · next hfeed =>
      cases h
      exact ⟨hnot, hhttp (Handshake.Request.feed_error hfeed)⟩
    · cases h
    · unfold upgrade at h
      split at h
      · next hgrant =>
        cases h
        exact ⟨hnot, hhttp (Handshake.Request.grant_error hgrant)⟩
      · split at h
        · next hconnect =>
          cases h
          exact ⟨hnot, hhttp (connectPeer_error hconnect)⟩
        · split at h
          · cases h
            exact ⟨hnot, by decide⟩
          · cases h

/-- Bytes without the end of a line are kept, if there is more room than they take. -/
theorem hearClient_unended (hc : AtLine c) (hs : Bytes.indexOf? Bytes.lineEnd s = none)
    (hfits : s.length ≤ bufferCapacity) :
    (hearClient router s c).1 = if s.length = bufferCapacity then .overflow else .continue := by
  by_cases hne : s = []
  · rw [hne, hearClient_nil hc.room hc.inlet]
    rfl
  · have hroom : s.length ≤ clientRoom c := by rw [clientRoom, hc.buffer]; exact hfits
    have hbuffer : { c with clientBuffer := c.clientBuffer ++ s } = { c with clientBuffer := s } := by
      rw [hc.buffer, List.nil_append]
    have hstep : ({ c with clientBuffer := s } : Connection σ).useStep router =
        .done (.ok .continue, { c with clientBuffer := s }) := by
      rw [useStep_line router (c := { c with clientBuffer := s }) hc.phase, lineStep,
        Bytes.splitLine?, hs]
      rfl
    have huse : useClientBuffer router { c with clientBuffer := s } =
        (.ok .continue, { c with clientBuffer := s }) := Loop.run_done hstep
    rw [hearClient_once hc.inlet hne hroom, reader_digestClient, hbuffer, huse, afterUse, checkRoom]
    dsimp only
    split
    · rfl
    · rfl

/-- A line that is too long overflows the buffer. -/
theorem hearClient_overlong (hc : AtLine c) (hs : Overlong s) :
    ((hearClient router).takeAll [s] c).1 = .overflow := by
  have hnone : Bytes.indexOf? Bytes.lineEnd (s.take bufferCapacity) = none := by
    cases h : Bytes.indexOf? Bytes.lineEnd (s.take bufferCapacity) with
    | none => rfl
    | some n =>
        have hinside := Bytes.indexOf?_le h
        have hfound := Bytes.indexOf?_append (y := s.drop bufferCapacity) h
        rw [List.take_append_drop] at hfound
        rw [List.length_take_of_le hs.arrived] at hinside
        exact absurd hinside (Nat.not_le.mpr (hs.unended n hfound))
  have hlength : (s.take bufferCapacity).length = bufferCapacity :=
    List.length_take_of_le hs.arrived
  have hfirst : (hearClient router (s.take bufferCapacity) c).1 = _ :=
    hearClient_unended hc hnone (Nat.le_of_eq hlength)
  rw [if_pos hlength] at hfirst
  have hcut : [s].flatten = [s.take bufferCapacity, s.drop bufferCapacity].flatten := by
    rw [List.flatten_singleton, List.flatten_cons, List.flatten_singleton, List.take_append_drop]
  rw [verdict_congr hc.room hc.inlet hcut]
  rcases hr : hearClient router (s.take bufferCapacity) c with ⟨v, d⟩
  rw [hr] at hfirst
  obtain rfl : v = .overflow := hfirst
  exact congrArg Prod.fst (Reader.takeAll_close hr)

/-- A line that fits and is accepted leads on to what is behind it. -/
theorem hearClient_accepted (hc : AtLine c) (hline : Bytes.indexOf? Bytes.lineEnd line = none)
    (hfits : line.length + Bytes.lineEnd.length ≤ bufferCapacity)
    (htake : c.takeLine router line = (.ok (), d)) :
    ((hearClient router).takeAll [line ++ Bytes.lineEnd ++ rest] c).1 =
      ((hearClient router).takeAll [rest] d).1 := by
  have hear := hearClient_line router line hc.phase hc.buffer hc.inlet hline hfits
  rw [htake] at hear
  have hcut : [line ++ Bytes.lineEnd ++ rest].flatten =
      [line ++ Bytes.lineEnd, rest].flatten := by
    rw [List.flatten_singleton, List.flatten_cons, List.flatten_singleton]
  rw [verdict_congr hc.room hc.inlet hcut, Reader.takeAll_continue hear]

/-- One that fits and is refused closes the connection, for another reason than its length. -/
theorem hearClient_rejected {cause : Error} (hc : AtLine c)
    (hline : Bytes.indexOf? Bytes.lineEnd line = none)
    (hfits : line.length + Bytes.lineEnd.length ≤ bufferCapacity)
    (htake : c.takeLine router line = (.error cause, d)) :
    ((hearClient router).takeAll [line ++ Bytes.lineEnd ++ rest] c).1 ≠ .overflow := by
  have hear := hearClient_line router line hc.phase hc.buffer hc.inlet hline hfits
  rw [htake] at hear
  have hcut : [line ++ Bytes.lineEnd ++ rest].flatten =
      [line ++ Bytes.lineEnd, rest].flatten := by
    rw [List.flatten_singleton, List.flatten_cons, List.flatten_singleton]
  rw [verdict_congr hc.room hc.inlet hcut, Reader.takeAll_close hear]
  exact (takeLine_error hc.phase htake).2

/-! ### Frames do not overflow -/

theorem intent_error_ne {header : Frame.Header} {cause : Error} (h : intent header = .error cause) :
    Verdict.close cause.termination ≠ .overflow := by
  unfold intent at h
  split at h
  · cases h
    decide
  · split at h
    · cases h
      decide
    · split at h
      · split at h <;> cases h
        decide
      · cases h
        decide

theorem act_verdict_ne (payload : Bytes) (c : Connection σ) (i : Intent) :
    (act payload c i).1.verdict ≠ .overflow := by
  cases i with
  | forward =>
      unfold act sendToPeer
      cases c.peer with
      | none => nofun
      | some socket =>
          dsimp only
          rcases socket.send payload c.toPeer with ⟨fault | _, outlet⟩
          · nofun
          · nofun
  | pong =>
      unfold act
      dsimp only
      split
      · nofun
      · nofun
  | ignore => nofun
  | close => nofun

/-- A step that is done while frames are relayed has left room in the buffer, or closes the
connection for another reason. -/
theorem frameStep_done (h : c.frameStep = .done (o, d)) :
    (o = .ok .continue → d.clientBuffer.length < bufferCapacity) ∧ o.verdict ≠ .overflow := by
  cases hp : Frame.Header.parse? c.clientBuffer with
  | none =>
      rw [frameStep_unparsed hp] at h
      cases h
      refine ⟨fun _ => Nat.lt_of_not_le fun hfull => ?_, nofun⟩
      exact Frame.Header.parse?_ne_none (Nat.le_trans (by decide) hfull) hp
  | some header =>
      by_cases hlong : bufferCapacity < header.frameLength
      · rw [frameStep_tooLong hp hlong] at h
        cases h
        exact ⟨nofun, by decide⟩
      · cases hd : Frame.decode? c.clientBuffer with
        | none =>
            rw [frameStep_undecoded hp hlong hd] at h
            cases h
            refine ⟨fun _ => Nat.lt_of_not_le fun hfull => ?_, nofun⟩
            rw [Frame.decode?_of_le hp (Nat.le_trans (Nat.le_of_not_lt hlong) hfull)] at hd
            cases hd
        | some p =>
            obtain ⟨frame, buffer⟩ := p
            rw [frameStep_decoded hp hlong hd] at h
            unfold useFrame at h
            cases hi : intent frame.header with
            | error cause =>
                rw [hi] at h
                cases h
                exact ⟨nofun, intent_error_ne hi⟩
            | ok i =>
                have hact := act_verdict_ne frame.payload { c with clientBuffer := buffer } i
                rw [hi] at h
                dsimp only at h hact
                rcases ha : act frame.payload { c with clientBuffer := buffer } i with
                  ⟨cause | _ | t, e⟩
                all_goals rw [ha] at h hact
                · cases h
                  exact ⟨nofun, hact⟩
                · cases h
                · cases h
                  exact ⟨nofun, hact⟩

theorem lineStep_done (hphase : c.phase = .requestLine ∨ c.phase = .headers)
    (h : c.lineStep router = .done (o, d)) : d.phase ≠ .relaying := by
  unfold lineStep at h
  split at h
  · cases h
    rcases hphase with hphase | hphase <;> rw [hphase] <;> decide
  · next line rest _ =>
    split at h
    · next htake =>
      cases h
      exact (takeLine_error (c := { c with clientBuffer := rest }) hphase htake).1
    · cases h

theorem useClientBuffer_done (h : useClientBuffer router c = (o, d)) (hphase : d.phase = .relaying) :
    (o = .ok .continue → d.clientBuffer.length < bufferCapacity) ∧ o.verdict ≠ .overflow := by
  obtain ⟨b, -, hdone⟩ : ∃ b : Connection σ, True ∧
      b.useStep router = .done (useClientBuffer router c) :=
    Loop.invariant (fun _ => True) (fun _ _ _ _ => trivial) c trivial
  rw [h] at hdone
  unfold useStep at hdone
  split at hdone
  · next hline => exact absurd hphase (lineStep_done (.inl hline) hdone)
  · next hline => exact absurd hphase (lineStep_done (.inr hline) hdone)
  · exact frameStep_done hdone
  · next hclosed =>
    cases hdone
    rw [hclosed] at hphase
    cases hphase

/-- **No client's buffer overflows while frames are relayed**, be it that the upgrade has only just
been granted. -/
theorem takeFromClient_fits {inlet rest : Inlet}
    (h : takeFromClient router (inlet, c) = (o, rest, d)) (hphase : d.phase = .relaying) :
    o.verdict ≠ .overflow := by
  obtain ⟨s, -, hdone⟩ : ∃ s : Inlet × Connection σ, True ∧
      clientStep router s = .done (takeFromClient router (inlet, c)) :=
    Loop.invariant (fun _ => True) (fun _ _ _ _ => trivial) (inlet, c) trivial
  obtain ⟨before, b⟩ := s
  rw [h] at hdone
  simp only [clientStep] at hdone
  split at hdone
  · cases hdone
    rintro ⟨⟩
  · cases hdone
    rintro ⟨⟩
  · cases hdone
    rintro ⟨⟩
  · split at hdone
    · next huse =>
      split at hdone
      · next hfull =>
        cases hdone
        exact absurd hfull (Nat.ne_of_lt ((useClientBuffer_done huse hphase).1 rfl))
      · cases hdone
    · next huse =>
      cases hdone
      exact (useClientBuffer_done huse hphase).2

theorem hearClient_fits {pieces : List Bytes}
    (hphase : ((hearClient router).takeAll pieces c).2.phase = .relaying) :
    ((hearClient router).takeAll pieces c).1 ≠ .overflow := by
  induction pieces generalizing c with
  | nil => nofun
  | cons x xs ih =>
      rcases hr : hearClient router x c with ⟨_ | t, d⟩
      · rw [Reader.takeAll_continue hr] at hphase ⊢
        exact ih hphase
      · rw [Reader.takeAll_close hr] at hphase ⊢
        unfold hearClient readClient at hr
        rcases ht : takeFromClient router ((Gateway.deliver .client x c).fromClient,
          Gateway.deliver .client x c) with ⟨o, rest, e⟩
        rw [ht] at hr
        obtain ⟨hv, rfl⟩ := Prod.mk.inj hr
        rw [← hv]
        exact takeFromClient_fits ht hphase

/-- A connection that relays goes on relaying. -/
theorem hearClient_relaying {pieces : List Bytes} (hc : c.phase = .relaying) :
    ((hearClient router).takeAll pieces c).2.phase = .relaying := by
  induction pieces generalizing c with
  | nil => exact hc
  | cons x xs ih =>
      obtain ⟨e, inlet, hmoves, he⟩ := readClient_moves router (Gateway.deliver .client x c)
      have hphase : (hearClient router x c).2.phase = .relaying := by
        rw [hearClient, he]
        exact (hmoves.relaying hc).1
      rcases hr : hearClient router x c with ⟨_ | t, d⟩
      all_goals rw [hr] at hphase
      · rw [Reader.takeAll_continue hr]
        exact ih hphase
      · rw [Reader.takeAll_close hr]
        exact hphase

/-! ### The line that is too long -/

theorem reaches_of_overflow (hc : AtLine c)
    (h : ((hearClient router).takeAll [s] c).1 = .overflow) :
    ∃ d t, Reaches router c s d t ∧ Overlong t := by
  induction hn : s.length using Nat.strongRecOn generalizing c s with
  | ind n ih =>
  subst hn
  cases hs : Bytes.splitLine? s with
  | none =>
      have hnone : Bytes.indexOf? Bytes.lineEnd s = none := Option.map_eq_none_iff.mp hs
      refine ⟨c, s, .here hc, Nat.le_of_not_lt fun hshort => ?_, fun n hn => ?_⟩
      · rw [takeAll_singleton, hearClient_unended hc hnone (Nat.le_of_lt hshort),
          if_neg (Nat.ne_of_lt hshort)] at h
        cases h
      · rw [hnone] at hn
        cases hn
  | some p =>
      obtain ⟨line, rest⟩ := p
      obtain ⟨rfl, hindex, hline⟩ := Bytes.splitLine?_split hs
      by_cases hfits : line.length + Bytes.lineEnd.length ≤ bufferCapacity
      · rcases htake : c.takeLine router line with ⟨cause | _, d⟩
        · exact absurd h (hearClient_rejected hc hline hfits htake)
        · rw [hearClient_accepted hc hline hfits htake] at h
          rcases hc.takeLine htake with hrelaying | hd
          · exact absurd h (hearClient_fits (hearClient_relaying hrelaying))
          · obtain ⟨e, t, hreaches, hlong⟩ := ih rest.length
              (by simp only [List.length_append, Bytes.lineEnd, List.length_cons]; omega) hd h rfl
            exact ⟨e, t, .line hc hline hfits htake hreaches, hlong⟩
      · have hinside := Bytes.indexOf?_le hindex
        refine ⟨c, _, .here hc, by omega, fun n hn => ?_⟩
        rw [hindex] at hn
        cases hn
        omega

theorem Reaches.overflow (h : Reaches router c s d t) (ht : Overlong t) :
    ((hearClient router).takeAll [s] c).1 = .overflow := by
  induction h with
  | here hc => exact hearClient_overlong hc ht
  | line hc hline hfits htake _ ih =>
      rw [hearClient_accepted hc hline hfits htake]
      exact ih ht

/-- **A client's buffer overflows before the upgrade exactly if its stream comes to a line that is
too long**: a whole buffer of it has arrived, and its end, if it has one, is not within that. -/
theorem overflow_iff_line (hc : AtLine c) (pieces : List Bytes) :
    ((hearClient router).takeAll pieces c).1 = .overflow ↔
      ∃ d t, Reaches router c pieces.flatten d t ∧ Overlong t := by
  rw [verdict_congr hc.room hc.inlet List.flatten_singleton.symm]
  exact ⟨reaches_of_overflow hc, fun ⟨_, _, hreaches, hlong⟩ => hreaches.overflow hlong⟩

/-! ### One frame -/

/-- The connection is at the beginning of a frame. -/
structure AtFrame (c : Connection σ) : Prop where
  phase : c.phase = .relaying
  buffer : c.clientBuffer = []
  inlet : c.fromClient = {}

theorem AtFrame.room (hc : AtFrame c) : c.clientBuffer.length < bufferCapacity := by
  rw [hc.buffer]
  decide

/-- What a frame that has been decoded leads to. -/
def heed (header : Frame.Header) (payload : Bytes) (c : Connection σ) : Verdict × Connection σ :=
  match intent header with
  | .error cause => (.close cause.termination, c)
  | .ok i => ((act payload c i).1.verdict, (act payload c i).2)

variable {header : Frame.Header} {frame part more : Bytes}

/-- Bytes for which there is room are used in one read. -/
theorem AtFrame.hearClient_eq (hc : AtFrame c) (hs : s ≠ []) (hfits : s.length ≤ bufferCapacity) :
    hearClient router s c = afterUse (useClientBuffer router { c with clientBuffer := s }) := by
  have hroom : s.length ≤ clientRoom c := by
    rw [clientRoom, hc.buffer]
    exact hfits
  rw [hearClient_once hc.inlet hs hroom, reader_digestClient, hc.buffer, List.nil_append]

/-- **A frame that fits into a buffer is decoded** as soon as all of it has arrived. -/
theorem hearClient_frame (hc : AtFrame c) (hp : Frame.Header.parse? frame = some header)
    (hlength : frame.length = header.length + header.payloadLength)
    (hfits : frame.length ≤ bufferCapacity) :
    let r := heed header (Frame.unmask header.mask (frame.drop header.length)) c
    outline (hearClient router frame c) = outline r ∧
      (r.1 = .continue → hearClient router frame c = r) := by
  intro r
  have hne : frame ≠ [] := by
    rintro rfl
    cases hp
  obtain ⟨buffer, hdrop, hstep⟩ := frameStep_complete (c := { c with clientBuffer := frame }) hp
    (hlength ▸ hfits) (Nat.le_of_eq hlength.symm)
  have hpayload : (frame.drop header.length).take header.payloadLength =
      frame.drop header.length :=
    List.take_of_length_le (by rw [List.length_drop]; omega)
  have hnil : buffer.drop (header.length + header.payloadLength) = [] := by
    rw [hdrop, ← hlength]
    exact List.drop_length
  -- acting takes no notice of what is in the buffer
  have hwith : { c with clientBuffer := buffer } = c.withClient buffer {} := by
    rw [← hc.inlet]
    rfl
  have hself : c.withClient [] {} = c := by
    have hsame : c.withClient c.clientBuffer c.fromClient = c := rfl
    rwa [hc.buffer, hc.inlet] at hsame
  have huse : ({ c with clientBuffer := frame } : Connection σ).useStep router =
      useFrame ⟨header, Frame.unmask header.mask (frame.drop header.length),
        header.length + header.payloadLength⟩ (c.withClient buffer {}) := by
    dsimp only at hstep
    rw [useStep_frame router (c := { c with clientBuffer := frame }) hc.phase, hstep, hpayload,
      hwith]
  rw [hc.hearClient_eq hne hfits]
  unfold useFrame at huse
  simp only [r, heed]
  cases hi : intent header with
  | error cause =>
      rw [hi] at huse
      have hrun : useClientBuffer router { c with clientBuffer := frame } = _ := Loop.run_done huse
      rw [hrun]
      exact ⟨rfl, by rintro ⟨⟩⟩
  | ok i =>
      have hact := act_withClient (Frame.unmask header.mask (frame.drop header.length)) buffer {} c i
      have hkept := act_withClient (Frame.unmask header.mask (frame.drop header.length)) [] {} c i
      rw [hself] at hkept
      rw [hi] at huse
      dsimp only at huse ⊢
      rw [hact] at huse
      rcases ha : act (Frame.unmask header.mask (frame.drop header.length)) c i with
        ⟨cause | _ | t, e⟩
      all_goals rw [ha] at huse hkept
      · have hrun : useClientBuffer router { c with clientBuffer := frame } = _ :=
          Loop.run_done huse
        rw [hrun]
        exact ⟨rfl, by rintro ⟨⟩⟩
      · have hempty : (e.withClient buffer {}).dropFrame (header.length + header.payloadLength) =
            e := by
          have he : e = e.withClient [] {} := congrArg Prod.snd hkept
          rw [he]
          show e.withClient (buffer.drop _) {} = _
          rw [hnil]
        dsimp only at huse
        rw [hempty] at huse
        have hbuffer : e.clientBuffer = [] := congrArg (fun r => r.2.clientBuffer) hkept
        have hrun : useClientBuffer router { c with clientBuffer := frame } = (.ok .continue, e) :=
          (Loop.run_again huse).trans (Loop.run_done (useStep_nil router hbuffer))
        have hroom : e.clientBuffer.length ≠ bufferCapacity := by
          rw [hbuffer]
          decide
        rw [hrun, afterUse, checkRoom, if_neg hroom]
        exact ⟨rfl, fun _ => rfl⟩
      · have hrun : useClientBuffer router { c with clientBuffer := frame } = _ :=
          Loop.run_done huse
        rw [hrun]
        refine ⟨?_, by rintro ⟨⟩⟩
        dsimp only
        split
        · rfl
        · rfl

/-- A frame of which bytes are missing is waited for. -/
theorem hearClient_awaited (hc : AtFrame c) (hr : Frame.ruling part = .wait) :
    ((hearClient router).takeAll [part] c).1 = .continue := by
  rw [takeAll_singleton]
  by_cases hne : part = []
  · rw [hne, hearClient_nil hc.room hc.inlet]
  · obtain ⟨hstep, hafter⟩ :=
      useStep_wait router (c := { c with clientBuffer := part }) hc.phase hr
    have hrun : useClientBuffer router { c with clientBuffer := part } = _ := Loop.run_done hstep
    rw [hc.hearClient_eq hne (Nat.le_of_lt (Frame.length_lt_of_wait hr)), hrun, hafter]

/-- A header is within the first bytes for which a buffer has room. -/
theorem parse?_take (hp : Frame.Header.parse? s = some header) :
    Frame.Header.parse? (s.take bufferCapacity) = some header := by
  cases htake : Frame.Header.parse? (s.take bufferCapacity) with
  | some other =>
      have happend := Frame.Header.parse?_append (s.drop bufferCapacity) htake
      rwa [List.take_append_drop, hp, eq_comm] at happend
  | none =>
      have hshort : (s.take bufferCapacity).length < 14 := Nat.lt_of_not_le fun hle =>
        Frame.Header.parse?_ne_none hle htake
      have hcapacity : 14 ≤ bufferCapacity := by decide
      rw [List.length_take] at hshort
      rw [List.take_of_length_le (by omega), hp] at htake
      cases htake

/-- **A frame that does not fit into a buffer is refused** as soon as its header has arrived. -/
theorem hearClient_tooLong (hc : AtFrame c) (hp : Frame.Header.parse? part = some header)
    (hlong : bufferCapacity < header.length + header.payloadLength) :
    ((hearClient router).takeAll [part] c).1 =
      .close (.close .tooLarge "Frame exceeds receive buffer") := by
  have htake := parse?_take hp
  have hne : part.take bufferCapacity ≠ [] := by
    intro hempty
    rw [hempty] at htake
    cases htake
  have hstep : ({ c with clientBuffer := part.take bufferCapacity } : Connection σ).useStep router =
      .done (.error (.protocolError .tooLarge "Frame exceeds receive buffer"),
        { c with clientBuffer := part.take bufferCapacity }) := by
    rw [useStep_frame router (c := { c with clientBuffer := part.take bufferCapacity }) hc.phase]
    exact frameStep_tooLong htake (Frame.Header.lt_frameLength_iff.mpr hlong)
  have hrun : useClientBuffer router { c with clientBuffer := part.take bufferCapacity } = _ :=
    Loop.run_done hstep
  have hear : hearClient router (part.take bufferCapacity) c = _ :=
    hc.hearClient_eq hne (List.length_take_le _ _)
  rw [hrun] at hear
  have hcut : [part].flatten = [part.take bufferCapacity, part.drop bufferCapacity].flatten := by
    rw [List.flatten_singleton, List.flatten_cons, List.flatten_singleton, List.take_append_drop]
  rw [verdict_congr hc.room hc.inlet hcut, Reader.takeAll_close hear]
  rfl

/-! ### Frames in a stream -/

/-- The first bytes of a client lead to the beginning of a frame. -/
structure ComesTo (router : Router σ) (c : Connection σ) (front : Bytes) (d : Connection σ) :
    Prop where
  room : c.clientBuffer.length < bufferCapacity
  inlet : c.fromClient = {}
  heard : hearClient router front c = (.continue, d)
  phase : d.phase = .relaying
  buffer : d.clientBuffer = []

theorem ComesTo.atFrame {front : Bytes} (h : ComesTo router c front d) : AtFrame d :=
  ⟨h.phase, h.buffer, (hearClient_continue h.room h.inlet h.heard).2⟩

/-- What follows the bytes that lead to a frame is heard from there on. -/
theorem ComesTo.outline_eq {front : Bytes} (h : ComesTo router c front d)
    {pieces behind : List Bytes} (hpieces : pieces.flatten = front ++ behind.flatten) :
    outline ((hearClient router).takeAll pieces c) =
      outline ((hearClient router).takeAll behind d) := by
  rw [outline_congr h.room h.inlet (hpieces.trans List.flatten_cons.symm),
    Reader.takeAll_continue h.heard]

/-- **The limits of frames**, in every stream and however it is cut. -/
structure LimitsFrames (router : Router σ) : Prop where
  /-- No buffer overflows. -/
  fits : ∀ (c : Connection σ) inlet, (takeFromClient router (inlet, c)).2.2.phase = .relaying →
    (takeFromClient router (inlet, c)).1.verdict ≠ .overflow
  /-- A frame that fits is decoded once it has arrived, and what is behind it is heard next. -/
  decoded : ∀ (c : Connection σ) front d frame header more pieces, ComesTo router c front d →
    Frame.Header.parse? frame = some header →
    frame.length = header.length + header.payloadLength → frame.length ≤ bufferCapacity →
    pieces.flatten = front ++ (frame ++ more) →
    let r := heed header (Frame.unmask header.mask (frame.drop header.length)) d
    outline ((hearClient router).takeAll pieces c) =
      outline (if r.1 = .continue then (hearClient router).takeAll [more] r.2 else r)
  /-- Until then it is waited for. -/
  awaited : ∀ (c : Connection σ) front d part pieces, ComesTo router c front d →
    (∀ header, Frame.Header.parse? part = some header →
      header.length + header.payloadLength ≤ bufferCapacity ∧
        part.length < header.length + header.payloadLength) →
    pieces.flatten = front ++ part → ((hearClient router).takeAll pieces c).1 = .continue
  /-- A frame that does not fit is refused once its header has arrived. -/
  refused : ∀ (c : Connection σ) front d part header pieces, ComesTo router c front d →
    Frame.Header.parse? part = some header →
    bufferCapacity < header.length + header.payloadLength → pieces.flatten = front ++ part →
    ((hearClient router).takeAll pieces c).1 =
      .close (.close .tooLarge "Frame exceeds receive buffer")
  /-- It is so after the very read that brings the last byte of the header. -/
  atOnce : ∀ (c e : Connection σ) inlet header, inlet.waiting ≠ [] → 0 < clientRoom c →
    Loop.Visits (useStep router)
      { c with clientBuffer := c.clientBuffer ++ inlet.waiting.take (clientRoom c) } e →
    e.phase = .relaying →
    (Frame.Header.parse? e.clientBuffer = none → clientStep router (inlet, c) =
      .again ({ inlet with waiting := inlet.waiting.drop (clientRoom c) }, e)) ∧
    (Frame.Header.parse? e.clientBuffer = some header →
      bufferCapacity < header.length + header.payloadLength → clientStep router (inlet, c) =
        .done (.error (.protocolError .tooLarge "Frame exceeds receive buffer"),
          { inlet with waiting := inlet.waiting.drop (clientRoom c) }, e))

theorem ruling_eq_wait (h : ∀ header, Frame.Header.parse? part = some header →
    header.length + header.payloadLength ≤ bufferCapacity ∧
      part.length < header.length + header.payloadLength) : Frame.ruling part = .wait := by
  unfold Frame.ruling
  cases hp : Frame.Header.parse? part with
  | none => rfl
  | some header =>
      obtain ⟨hfits, hshort⟩ := h header hp
      dsimp only
      rw [if_neg (Nat.not_lt.mpr hfits), if_pos hshort]

/-- What a read leads to if using what it brings comes to a state in which the loop is done. -/
theorem digestClient_visits {bytes : Bytes} {result : Outcome × Connection σ}
    (hvisits : Loop.Visits (useStep router) { c with clientBuffer := c.clientBuffer ++ bytes } e)
    (hdone : e.useStep router = .done result) :
    digestClient router bytes c = checkRoom result := by
  have hrun : useClientBuffer router { c with clientBuffer := c.clientBuffer ++ bytes } =
      useClientBuffer router e := hvisits.run_eq (useStep_descends router)
  have hresult : useClientBuffer router e = result := Loop.run_done hdone
  rw [digestClient, hrun, hresult]

/-- Frames of any length, in any stream, are within their limits. -/
theorem limitsFrames (router : Router σ) : LimitsFrames router where
  fits c inlet hphase := takeFromClient_fits rfl hphase
  decoded c front d frame header more pieces h hp hlength hfits hpieces := by
    intro r
    obtain ⟨houtline, hsame⟩ := hearClient_frame h.atFrame hp hlength hfits
    have hbehind : outline ((hearClient router).takeAll pieces c) =
        outline ((hearClient router).takeAll [frame, more] d) := by
      refine h.outline_eq ?_
      rw [hpieces, List.flatten_cons, List.flatten_singleton]
    rw [hbehind]
    by_cases hgo : r.1 = .continue
    · have hear : hearClient router frame d = (.continue, r.2) :=
        (hsame hgo).trans (Prod.ext hgo rfl)
      rw [if_pos hgo, Reader.takeAll_continue hear]
    · rw [if_neg hgo, ← houtline]
      rcases hr : hearClient router frame d with ⟨_ | t, e⟩
      · rw [hr] at houtline
        exact absurd (congrArg Outline.verdict houtline).symm hgo
      · rw [Reader.takeAll_close hr]
  awaited c front d part pieces h hpart hpieces := by
    have hbehind : outline ((hearClient router).takeAll pieces c) =
        outline ((hearClient router).takeAll [part] d) :=
      h.outline_eq (by rw [hpieces, List.flatten_singleton])
    exact (congrArg Outline.verdict hbehind).trans
      (hearClient_awaited h.atFrame (ruling_eq_wait hpart))
  refused c front d part header pieces h hp hlong hpieces := by
    have hbehind : outline ((hearClient router).takeAll pieces c) =
        outline ((hearClient router).takeAll [part] d) :=
      h.outline_eq (by rw [hpieces, List.flatten_singleton])
    exact (congrArg Outline.verdict hbehind).trans (hearClient_tooLong h.atFrame hp hlong)
  atOnce c e inlet header hwaiting hroom hvisits hphase := by
    rw [clientStep_waiting router hwaiting hroom]
    constructor
    · intro hp
      have hdone : e.useStep router = .done (.ok .continue, e) :=
        (useStep_frame router hphase).trans (frameStep_unparsed hp)
      have hlen := (frameStep_done (frameStep_unparsed hp)).1 rfl
      rw [digestClient_visits hvisits hdone, checkRoom, if_neg (Nat.ne_of_lt hlen)]
    · intro hp hlong
      have hdone : e.useStep router = .done _ := (useStep_frame router hphase).trans
        (frameStep_tooLong hp (Frame.Header.lt_frameLength_iff.mpr hlong))
      rw [digestClient_visits hvisits hdone]
      rfl

end Connection

end WsRelay
