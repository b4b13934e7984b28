import WsRelay.Gateway
import WsRelay.Proofs.Arrivals
import WsRelay.Proofs.Frame.Prefix
import WsRelay.Proofs.Occurrence
/-! # What a client sends, piece by piece

`hearClient` is what bytes that arrive from a client lead to.  It reads them as the client's buffer
has room, and every read is digested on its own (`digestClient`, `drains_client`).

What becomes of the frame at the front of a buffer is one of four things (`frameStep_unparsed`,
`frameStep_tooLong`, `frameStep_undecoded`, `frameStep_decoded`), the last of them `useFrame`.
A line or a frame that can be used can be used in the same way when more bytes stand behind it in
the buffer (`useStep_grow`).  Hence using a buffer and then what is added to it comes to using both
together (`useClientBuffer_grow`). -/

namespace WsRelay.Connection

variable {σ : Type} (router : Router σ)

/-- The connection with another client's buffer, and with something else waiting to be read. -/
def withClient (buffer : Bytes) (inlet : Inlet) (c : Connection σ) : Connection σ :=
  { c with clientBuffer := buffer, fromClient := inlet }

/-- The connection with more bytes in the client's buffer, and with something else waiting. -/
def grow (bytes : Bytes) (inlet : Inlet) (c : Connection σ) : Connection σ :=
  c.withClient (c.clientBuffer ++ bytes) inlet

/-- Bytes arrive from the client, whose socket is readable then. -/
def hearClient : Reader (Connection σ) :=
  fun bytes c => (Gateway.deliver .client bytes c).readClient router

/-- How many bytes of the client there is room for. -/
def clientRoom (c : Connection σ) : Nat :=
  bufferCapacity - c.clientBuffer.length

/-- A client's buffer that is full, and more is waited for, closes the connection. -/
def checkRoom : Outcome × Connection σ → Outcome × Connection σ
  | (.ok .continue, c) =>
    if c.clientBuffer.length = bufferCapacity then (.error clientOverflow, c)
    else (.ok .continue, c)
  | r => r

theorem checkRoom_of_ne {o : Outcome} (c : Connection σ) (h : o ≠ .ok .continue) :
    checkRoom (o, c) = (o, c) := by
  match o, h with
  | .ok .continue, h => exact absurd rfl h
  | .ok (.close _), _ => rfl
  | .error _, _ => rfl

theorem checkRoom_eq_continue {r : Outcome × Connection σ} {d : Connection σ}
    (h : checkRoom r = (.ok .continue, d)) :
    r = (.ok .continue, d) ∧ d.clientBuffer.length ≠ bufferCapacity := by
  match r, h with
  | (.ok .continue, c), h =>
      simp only [checkRoom] at h
      split at h
      · cases h
      · next hne =>
        cases h
        exact ⟨rfl, hne⟩
  | (.ok (.close _), _), h => cases h
  | (.error _, _), h => cases h

/-- Whether more is to be read once the buffer has been used. -/
def afterUse (r : Outcome × Connection σ) : Verdict × Connection σ :=
  ((checkRoom r).1.verdict, (checkRoom r).2)

/-- What bytes read from the client lead to. -/
def digestClient : Digest (Connection σ) := fun bytes c =>
  checkRoom (useClientBuffer router { c with clientBuffer := c.clientBuffer ++ bytes })

theorem reader_digestClient (bytes : Bytes) (c : Connection σ) :
    (digestClient router).reader bytes c =
      afterUse (useClientBuffer router { c with clientBuffer := c.clientBuffer ++ bytes }) := rfl

theorem grow_eq {c : Connection σ} {buffer bytes : Bytes} {i : Inlet}
    (h : c.clientBuffer = buffer) : c.grow bytes i = c.withClient (buffer ++ bytes) i := by
  rw [grow, h]

theorem grow_nil {c : Connection σ} {bytes : Bytes} {i : Inlet} (h : bytes = []) :
    (c.grow bytes i).clientBuffer = c.clientBuffer := by
  show c.clientBuffer ++ bytes = _
  rw [h, List.append_nil]

theorem dropFrame_grow {n : Nat} {c : Connection σ} (bytes : Bytes) (i : Inlet)
    (h : n ≤ c.clientBuffer.length) :
    (c.grow bytes i).dropFrame n = (c.dropFrame n).grow bytes i := by
  show c.withClient ((c.clientBuffer ++ bytes).drop n) i = _
  rw [List.drop_append_of_le_length h]
  rfl

/-! ### Lines and frames with more behind them -/

theorem upgrade_withClient (b : Bytes) (i : Inlet) (c : Connection σ) :
    (c.withClient b i).upgrade router =
      ((c.upgrade router).1, (c.upgrade router).2.withClient b i) := by
  have hg : (c.withClient b i).request.grant = c.request.grant := rfl
  have hc : (c.withClient b i).connectPeer router = c.connectPeer router := rfl
  unfold upgrade
  rw [hg, hc]
  cases c.request.grant with
  | error e => rfl
  | ok key =>
      rcases c.connectPeer router with e | ⟨route, socket⟩
      · rfl
      · have ho (reply : Reply) :
            (c.withClient b i).toClient.offer reply = c.toClient.offer reply := rfl
        have hn : (c.withClient b i).request.protocols = c.request.protocols := rfl
        dsimp only
        rw [ho, hn]
        rcases c.toClient.offer _ with ⟨_ | _, outlet⟩ <;> rfl

theorem takeLine_withClient (line : Bytes) (b : Bytes) (i : Inlet) (c : Connection σ) :
    (c.withClient b i).takeLine router line =
      ((c.takeLine router line).1, (c.takeLine router line).2.withClient b i) := by
  have hp : (c.withClient b i).phase = c.phase := rfl
  have hf : (c.withClient b i).request.feed line = c.request.feed line := rfl
  unfold takeLine
  rw [hp]
  split
  · split <;> rfl
  · rw [hf]
    split
    · rfl
    · rfl
    · exact upgrade_withClient router b i c

theorem act_withClient (payload b : Bytes) (i : Inlet) (c : Connection σ) (intent : Intent) :
    act payload (c.withClient b i) intent =
      ((act payload c intent).1, (act payload c intent).2.withClient b i) := by
  cases intent with
  | forward =>
      have hp : (c.withClient b i).peer = c.peer := rfl
      simp only [act, sendToPeer, hp]
      cases c.peer with
      | none => rfl
      | some socket =>
          dsimp only
          have ht : (c.withClient b i).toPeer = c.toPeer := rfl
          rw [ht]
          rcases socket.send payload c.toPeer with ⟨_ | _, outlet⟩ <;> rfl
  | pong =>
      have ho : (c.withClient b i).toClient = c.toClient := rfl
      simp only [act, ho]
      rcases c.toClient.offer (.frame .pong payload) with ⟨_ | _, outlet⟩ <;> rfl
  | ignore => rfl
  | close => rfl

/-- How a step with more bytes in the buffer compares to the one without them: it is the same unless
more bytes were waited for. -/
def Grown (bytes : Bytes) (i : Inlet) (c : Connection σ)
    (grown : Step (Connection σ) (Outcome × Connection σ)) :
    Step (Connection σ) (Outcome × Connection σ) → Prop
  | .again d => grown = .again (d.grow bytes i)
  | .done (.ok .continue, d) =>
    d = c ∧ (bytes = [] → grown = .done (.ok .continue, c.grow bytes i))
  | .done (outcome, d) => grown = .done (outcome, d.grow bytes i)

theorem lineStep_grow (bytes : Bytes) (i : Inlet) (c : Connection σ) :
    Grown bytes i c ((c.grow bytes i).lineStep router) (c.lineStep router) := by
  unfold lineStep
  cases hs : Bytes.splitLine? c.clientBuffer with
  | none => exact ⟨rfl, fun h => by rw [grow_nil h, hs]⟩
  | some p =>
      obtain ⟨line, rest⟩ := p
      have hs' : Bytes.splitLine? (c.grow bytes i).clientBuffer = some (line, rest ++ bytes) :=
        Bytes.splitLine?_append hs
      have ht := takeLine_withClient router line (rest ++ bytes) i
        { c with clientBuffer := rest }
      have hb : (takeLine router line { c with clientBuffer := rest }).2.clientBuffer = rest :=
        takeLine_clientBuffer _ _ _
      have he : { c.grow bytes i with clientBuffer := rest ++ bytes } =
          ({ c with clientBuffer := rest } : Connection σ).withClient (rest ++ bytes) i := rfl
      rw [hs']
      dsimp only
      rw [he, ht]
      rcases hr : takeLine router line { c with clientBuffer := rest } with ⟨e | _, d⟩
      all_goals
        rw [hr] at hb
        show _ = _
        rw [grow_eq hb]

/-- What a frame that has been decoded leads to. -/
def useFrame (frame : Frame.Decoded) (c : Connection σ) :
    Step (Connection σ) (Outcome × Connection σ) :=
  match intent frame.header with
  | .error e => .done (.error e, c)
  | .ok intent =>
    match act frame.payload c intent with
    | (.error e, c) => .done (.error e, c)
    | (.ok .continue, c) => .again (c.dropFrame frame.length)
    | (.ok (.close termination), c) =>
      .done (.ok (.close termination), if intent = .close then c.dropFrame frame.length else c)

variable {frame : Frame.Decoded} {header : Frame.Header} {buffer : Bytes} {c : Connection σ}

theorem frameStep_unparsed (hp : Frame.Header.parse? c.clientBuffer = none) :
    c.frameStep = .done (.ok .continue, c) := by
  rw [frameStep, hp]

theorem frameStep_tooLong (hp : Frame.Header.parse? c.clientBuffer = some header)
    (hlong : bufferCapacity < header.frameLength) :
    c.frameStep =
      .done (.error (.protocolError .tooLarge "Frame exceeds receive buffer"), c) := by
  rw [frameStep, hp]
  exact if_pos hlong

theorem frameStep_undecoded (hp : Frame.Header.parse? c.clientBuffer = some header)
    (hshort : ¬ bufferCapacity < header.frameLength) (hd : Frame.decode? c.clientBuffer = none) :
    c.frameStep = .done (.ok .continue, c) := by
  rw [frameStep, hp]
  dsimp only
  rw [if_neg hshort, hd]

theorem frameStep_decoded (hp : Frame.Header.parse? c.clientBuffer = some header)
    (hshort : ¬ bufferCapacity < header.frameLength)
    (hd : Frame.decode? c.clientBuffer = some (frame, buffer)) :
    c.frameStep = useFrame frame { c with clientBuffer := buffer } := by
  rw [frameStep, hp]
  dsimp only
  rewrite [if_neg hshort, hd]
  rfl

theorem useFrame_grow (bytes : Bytes) (i : Inlet) (c₀ : Connection σ)
    (hlen : frame.length ≤ c.clientBuffer.length) :
    Grown bytes i c₀ (useFrame frame (c.grow bytes i)) (useFrame frame c) := by
  unfold useFrame
  cases intent frame.header with
  | error e => rfl
  | ok intent =>
      have ha := act_withClient frame.payload (c.clientBuffer ++ bytes) i c intent
      have hb : (act frame.payload c intent).2.clientBuffer = c.clientBuffer :=
        act_clientBuffer _ _ _
      dsimp only
      rw [grow, ha]
      rcases hr : act frame.payload c intent with ⟨e | _ | t, d⟩
      all_goals
        rw [hr] at hb
        have hgrow := dropFrame_grow bytes i (n := frame.length) (c := d) (by rw [hb]; exact hlen)
        rw [grow_eq hb] at hgrow
      · show _ = _
        rw [grow_eq hb]
      · show Step.again _ = _
        rw [hgrow]
      · show Step.done (_, if _ then _ else _) =
          Step.done (_, Connection.grow _ _ (if _ then _ else _))
        split
        · rw [hgrow]
        · rw [grow_eq hb]

theorem frameStep_grow (bytes : Bytes) (i : Inlet) (c : Connection σ) :
    Grown bytes i c (c.grow bytes i).frameStep c.frameStep := by
  cases hp : Frame.Header.parse? c.clientBuffer with
  | none =>
      rw [frameStep_unparsed hp]
      exact ⟨rfl, fun h => frameStep_unparsed (by rw [grow_nil h, hp])⟩
  | some header =>
      have hp' : Frame.Header.parse? (c.grow bytes i).clientBuffer = some header :=
        Frame.Header.parse?_append bytes hp
      by_cases hlong : bufferCapacity < header.frameLength
      · rw [frameStep_tooLong hp hlong, frameStep_tooLong hp' hlong]
        rfl
      · cases hd : Frame.decode? c.clientBuffer with
        | none =>
            rw [frameStep_undecoded hp hlong hd]
            exact ⟨rfl, fun h => frameStep_undecoded hp' hlong (by rw [grow_nil h, hd])⟩
        | some p =>
            obtain ⟨frame, buffer⟩ := p
            have hd' : Frame.decode? (c.grow bytes i).clientBuffer =
                some (frame, buffer ++ bytes) := Frame.decode?_append bytes hd
            obtain ⟨-, hlen, hbuffer⟩ := Frame.decode?_length hd
            rw [← hbuffer] at hlen
            rw [frameStep_decoded hp hlong hd, frameStep_decoded hp' hlong hd']
            exact useFrame_grow bytes i c (c := { c with clientBuffer := buffer }) hlen

theorem useStep_grow (bytes : Bytes) (i : Inlet) (c : Connection σ) :
    Grown bytes i c ((c.grow bytes i).useStep router) (c.useStep router) := by
  have hp : (c.grow bytes i).phase = c.phase := rfl
  unfold useStep
  rw [hp]
  cases c.phase with
  | requestLine => exact lineStep_grow router bytes i c
  | headers => exact lineStep_grow router bytes i c
  | relaying => exact frameStep_grow bytes i c
  | closed => exact ⟨rfl, fun _ => rfl⟩

/-- **Using a buffer, and then what is added to it, is using both together**: a buffer that is used
up to where more is needed comes to the same from there, and otherwise the bytes behind it make no
difference. -/
theorem useClientBuffer_grow (bytes : Bytes) (i : Inlet) (c : Connection σ) :
    ((useClientBuffer router c).1 = .ok .continue →
      useClientBuffer router (c.grow bytes i) =
        useClientBuffer router ((useClientBuffer router c).2.grow bytes i)) ∧
    ((useClientBuffer router c).1 ≠ .ok .continue →
      useClientBuffer router (c.grow bytes i) =
        ((useClientBuffer router c).1, (useClientBuffer router c).2.grow bytes i)) := by
  refine Loop.induction (motive := fun c (r : Outcome × Connection σ) =>
    (r.1 = .ok .continue →
      useClientBuffer router (c.grow bytes i) = useClientBuffer router (r.2.grow bytes i)) ∧
    (r.1 ≠ .ok .continue → useClientBuffer router (c.grow bytes i) = (r.1, r.2.grow bytes i)))
    ?_ ?_ c
  · intro c result hs
    have hg := useStep_grow router bytes i c
    rw [hs] at hg
    match result, hg with
    | (.ok .continue, d), hg =>
        have hd : d = c := hg.1
        exact ⟨fun _ => by rw [hd], fun h => absurd rfl h⟩
    | (.ok (.close t), d), hg => exact ⟨fun h => (by cases h), fun _ => Loop.run_done hg⟩
    | (.error e, d), hg => exact ⟨fun h => (by cases h), fun _ => Loop.run_done hg⟩
  · intro c d hs hd
    have hg := useStep_grow router bytes i c
    rw [hs] at hg
    have hrun : useClientBuffer router (c.grow bytes i) = useClientBuffer router (d.grow bytes i) :=
      Loop.run_again hg
    rw [hrun]
    exact hd

/-! ### What waits to be read -/

/-- The connection with something else waiting to be read from the client. -/
def setInlet (i : Inlet) (c : Connection σ) : Connection σ :=
  { c with fromClient := i }

theorem grow_nil_eq (i : Inlet) (c : Connection σ) : c.grow [] i = c.setInlet i := by
  rw [grow, List.append_nil]
  rfl

/-- What waits to be read makes no difference to how a buffer is used. -/
theorem useClientBuffer_setInlet (i : Inlet) (c : Connection σ) :
    useClientBuffer router (c.setInlet i) =
      ((useClientBuffer router c).1, (useClientBuffer router c).2.setInlet i) := by
  refine Loop.induction (motive := fun c (r : Outcome × Connection σ) =>
    useClientBuffer router (c.setInlet i) = (r.1, r.2.setInlet i)) ?_ ?_ c
  · intro c result hs
    have hg := useStep_grow router [] i c
    rw [hs, grow_nil_eq] at hg
    match result, hg with
    | (.ok .continue, d), hg => exact Loop.run_done (by rw [hg.2 rfl, hg.1, grow_nil_eq])
    | (.ok (.close t), d), hg => exact Loop.run_done (by rw [hg, grow_nil_eq])
    | (.error e, d), hg => exact Loop.run_done (by rw [hg, grow_nil_eq])
  · intro c d hs hd
    have hg := useStep_grow router [] i c
    rw [hs, grow_nil_eq] at hg
    have hagain : (c.setInlet i).useStep router = .again (d.setInlet i) := by
      rw [← grow_nil_eq i d]
      exact hg
    exact (Loop.run_again hagain).trans hd

theorem fromClient_useClientBuffer (c : Connection σ) :
    (useClientBuffer router c).2.fromClient = c.fromClient := by
  have h := useClientBuffer_setInlet router c.fromClient c
  have hc : c.setInlet c.fromClient = c := rfl
  rw [hc] at h
  exact congrArg (fun r => r.2.fromClient) h

theorem digestClient_setInlet (i : Inlet) (bytes : Bytes) (c : Connection σ) :
    digestClient router bytes (c.setInlet i) =
      ((digestClient router bytes c).1, (digestClient router bytes c).2.setInlet i) := by
  have h := useClientBuffer_setInlet router i
    { c with clientBuffer := c.clientBuffer ++ bytes }
  have hc : { c.setInlet i with clientBuffer := (c.setInlet i).clientBuffer ++ bytes } =
      ({ c with clientBuffer := c.clientBuffer ++ bytes } : Connection σ).setInlet i := rfl
  unfold digestClient
  rw [hc, h]
  rcases useClientBuffer router { c with clientBuffer := c.clientBuffer ++ bytes } with
    ⟨e | _ | t, d⟩
  · rfl
  · show (if d.clientBuffer.length = bufferCapacity then _ else _) = _
    dsimp only [checkRoom]
    split <;> rfl
  · rfl

/-- A step that waits leaves the connection as it is. -/
theorem eq_of_useStep_waits {router : Router σ} {c d : Connection σ}
    (h : c.useStep router = .done (.ok .continue, d)) : d = c := by
  have hg := useStep_grow router [] {} c
  rw [h] at hg
  exact hg.1

/-- What is used of a buffer does not come back. -/
theorem length_useClientBuffer_le {router : Router σ} {c d : Connection σ}
    (h : useClientBuffer router c = (.ok .continue, d)) :
    d.clientBuffer.length ≤ c.clientBuffer.length := by
  obtain ⟨b, hb, hdone⟩ : ∃ b : Connection σ, b.clientBuffer.length ≤ c.clientBuffer.length ∧
      b.useStep router = .done (useClientBuffer router c) :=
    Loop.invariant (fun b => b.clientBuffer.length ≤ c.clientBuffer.length)
      (fun a b ha hs => Nat.le_trans (Nat.le_of_lt (useStep_descends router a b hs)) ha) c
      (Nat.le_refl _)
  rw [h] at hdone
  rw [eq_of_useStep_waits hdone]
  exact hb

/-! ### Reads -/

/-- A read when nothing waits is the last one. -/
theorem clientStep_idle {inlet : Inlet} (h : inlet.waiting = []) (c : Connection σ) :
    ∃ o, clientStep router (inlet, c) = .done (o, inlet, c) := by
  have hread (room : Nat) : inlet.read room = (inlet.tail.read, inlet) :=
    if_pos (List.isEmpty_iff.mpr h)
  simp only [clientStep, hread]
  cases inlet.tail with
  | more => exact ⟨_, rfl⟩
  | ended => exact ⟨_, rfl⟩
  | failed fault => exact ⟨_, rfl⟩

/-- What waits is digested as the buffer has room for it. -/
theorem clientStep_waiting {inlet : Inlet} (h : inlet.waiting ≠ []) (hroom : 0 < clientRoom c) :
    clientStep router (inlet, c) =
      match digestClient router (inlet.waiting.take (clientRoom c)) c with
      | (.ok .continue, d) =>
        .again ({ inlet with waiting := inlet.waiting.drop (clientRoom c) }, d)
      | (outcome, d) =>
        .done (outcome, { inlet with waiting := inlet.waiting.drop (clientRoom c) }, d) := by
  have hread : inlet.read (clientRoom c) = (.data (inlet.waiting.take (clientRoom c)),
      { inlet with waiting := inlet.waiting.drop (clientRoom c) }) := by
    rw [Inlet.read, if_neg (by simpa using h)]
  obtain ⟨b, bytes, hb⟩ : ∃ b bytes, inlet.waiting.take (clientRoom c) = b :: bytes := by
    obtain ⟨b, waiting, hwaiting⟩ := List.exists_cons_of_ne_nil h
    obtain ⟨n, hn⟩ := Nat.exists_eq_add_of_lt hroom
    rw [hwaiting, hn, Nat.zero_add, List.take_succ_cons]
    exact ⟨b, _, rfl⟩
  rw [hb] at hread ⊢
  unfold clientRoom at hread ⊢
  simp only [clientStep, hread, digestClient]
  rcases useClientBuffer router { c with clientBuffer := c.clientBuffer ++ b :: bytes } with
    ⟨e | _ | t, d⟩
  · rfl
  · dsimp only [checkRoom]
    split <;> rfl
  · rfl

/-- The client's loop digests what waits as the buffer has room for it. -/
theorem drains_client :
    Drains (fun w => ({ waiting := w } : Inlet)) clientRoom (digestClient router)
      (clientStep router) where
  idle c _ := rfl
  reads c w hw hroom := by
    rw [clientStep_waiting router hw hroom]
    rcases digestClient router (w.take (clientRoom c)) c with ⟨e | _ | t, d⟩ <;> rfl

theorem hearClient_eq {c : Connection σ} (h : c.fromClient = {}) (bytes : Bytes) :
    hearClient router bytes c =
      ((takeFromClient router ({ waiting := bytes }, c.setInlet { waiting := bytes })).1.verdict,
        (takeFromClient router ({ waiting := bytes }, c.setInlet { waiting := bytes })).2.2.setInlet
          (takeFromClient router ({ waiting := bytes }, c.setInlet { waiting := bytes })).2.1) := by
  have hd : Gateway.deliver .client bytes c = c.setInlet { waiting := bytes } := by
    rw [Gateway.deliver, h]
    rfl
  rw [hearClient, hd, readClient]
  rfl

/-- Bytes that arrive from a client are explained by an account that explains every read for which
the buffer has room, if the account does not look at what waits to be read. -/
theorem explains_hearClient {ρ : Type} {A : Account (Connection σ) ρ} (hi : A.Ignores setInlet)
    (hroom : ∀ c s, A.admits c s → 0 < clientRoom c)
    (hd : ∀ c piece rest, piece ≠ [] → piece.length ≤ clientRoom c → A.admits c (piece ++ rest) →
      A.Explains c piece rest ((digestClient router).reader piece c))
    (c : Connection σ) (bytes rest : Bytes)
    (h : (A.restrict (·.fromClient = {})).admits c (bytes ++ rest)) :
    (A.restrict (·.fromClient = {})).Explains c bytes rest (hearClient router bytes c) :=
  (drains_client router).explains_reader (clientStep_descends router) hi (·.fromClient = {})
    (fun bytes _ h => hearClient_eq router h bytes) (fun _ => rfl) hroom hd c bytes rest h

end WsRelay.Connection
