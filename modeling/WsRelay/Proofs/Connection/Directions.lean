import WsRelay.Proofs.Connection.Output
import WsRelay.Proofs.Peer.Conservation
/-! # The two directions of a connection

While there is relaying, what the client sends and what the peer sends go their ways without
meeting, though both end up at one connection and both are answered through the client's socket.
`clientHalf` is what the one direction works on, `peerHalf` what the other does.

What a call comes to for its own half depends on nothing but that half (`readClient_matched`,
`readPeer_matched`: two connections that are `Matched` in it stay so), and it leaves the other half
alone (`peerHalf_readClient`, `clientHalf_readPeer`).  So a half that is worked on among arrivals of
both sides comes to what it comes to among those of its own side (`run_alone`), and it makes no
difference how the arrivals of the two sides are interleaved (`run_interleaved`). -/

namespace WsRelay

/-! ### Loops that go the same way -/

/-- Two steps that go on with states as `R` says, or are done with results as `S` says. -/
inductive Step.Alike {α β : Type} (R : α → α → Prop) (S : β → β → Prop) :
    Step α β → Step α β → Prop
  | again {a b : α} (h : R a b) : Alike R S (.again a) (.again b)
  | done {r s : β} (h : S r s) : Alike R S (.done r) (.done s)

/-- Two runs of a loop go the same way if every two repetitions do. -/
theorem Loop.run_alike {α β : Type} {R : α → α → Prop} {S : β → β → Prop} {measure : α → Nat}
    {step : α → Step α β} (hstep : ∀ a b, R a b → Step.Alike R S (step a) (step b))
    (descends : ∀ a b, step a = .again b → measure b < measure a) {a b : α} (h : R a b) :
    S (run measure step descends a) (run measure step descends b) := by
  refine Loop.induction
    (motive := fun a r => ∀ b, R a b → S r (run measure step descends b)) ?_ ?_ a b h
  · intro a result hs b hb
    have halike := hstep a b hb
    rw [hs] at halike
    cases hb' : step b with
    | again b' =>
        rw [hb'] at halike
        cases halike
    | done other =>
        rw [hb'] at halike
        cases halike with
        | done hresult =>
            rw [run_done hb']
            exact hresult
  · intro a a' hs ih b hb
    have halike := hstep a b hb
    rw [hs] at halike
    cases hb' : step b with
    | again b' =>
        rw [hb'] at halike
        cases halike with
        | again hnext =>
            rw [run_again hb']
            exact ih b' hnext
    | done other =>
        rw [hb'] at halike
        cases halike

/-! ### Writing to a peer -/

/-- What comes of writing to a peer's socket. -/
def PeerSocket.writer (s : PeerSocket) (payload : Bytes) (outlet : Outlet Bytes) :
    Except IoFault Unit × Outlet Bytes :=
  s.send payload outlet

theorem PeerSocket.writer_arrive (bytes : Bytes) (s : PeerSocket) :
    (s.arrive bytes).writer = s.writer := by
  cases s <;> rfl

theorem PeerSocket.writer_read (room : Nat) (s : PeerSocket) :
    (s.read room).2.writer = s.writer := by
  unfold read
  split
  case h_6 => split <;> rfl
  all_goals rfl

namespace Connection

variable {σ : Type} {c d : Connection σ}

/-! ### The halves of a connection -/

/-- What the client's direction works on. -/
structure ClientHalf where
  buffer : Bytes
  fromClient : Inlet
  toPeer : Outlet Bytes
  writer : Option (Bytes → Outlet Bytes → Except IoFault Unit × Outlet Bytes)
  /-- The answers to pings, among all that the client was sent. -/
  pongs : List Reply

/-- What the peer's direction works on. -/
structure PeerHalf (σ : Type) where
  buffer : Bytes
  peer : Option PeerSocket
  route : Option (Route σ)
  memory : Memory σ
  /-- Everything else that the client was sent. -/
  frames : List Reply

def clientHalf (c : Connection σ) : ClientHalf where
  buffer := c.clientBuffer
  fromClient := c.fromClient
  toPeer := c.toPeer
  writer := c.peer.map PeerSocket.writer
  pongs := c.toClient.taken.filter (·.isPong)

def peerHalf (c : Connection σ) : PeerHalf σ where
  buffer := c.peerBuffer
  peer := c.peer
  route := c.route
  memory := c.memory
  frames := c.toClient.taken.filter (!·.isPong)

/-- There is relaying, and the client's socket takes what is written. -/
structure Serving (c : Connection σ) : Prop where
  phase : c.phase = .relaying
  takes : c.toClient.TakesAll

/-- Two connections in which the same is there to work on, as far as `half` shows it. -/
structure Matched {γ : Type} (half : Connection σ → γ) (c d : Connection σ) : Prop where
  left : Serving c
  right : Serving d
  same : half c = half d

/-- Two calls come to the same outcome, and leave the same to work on. -/
def Ends {γ ω : Type} (half : Connection σ → γ) (r s : ω × Connection σ) : Prop :=
  ∃ outcome c d, r = (outcome, c) ∧ s = (outcome, d) ∧ Matched half c d

theorem Matched.ends {γ ω : Type} {half : Connection σ → γ} (h : Matched half c d)
    (outcome : ω) : Ends half (outcome, c) (outcome, d) :=
  ⟨outcome, c, d, rfl, rfl, h⟩

theorem Serving.offer (h : Serving c) (reply : Reply) :
    Serving { c with toClient := (c.toClient.offer reply).2 } where
  phase := h.phase
  takes n := by
    show (c.toClient.offer reply).2.accepts n = true
    rw [accepts_offer]
    exact h.takes n

theorem Serving.offer_eq (h : Serving c) (reply : Reply) :
    c.toClient.offer reply = (true, (c.toClient.offer reply).2) := by
  rw [h.takes.offer]

theorem Serving.taken_offer (h : Serving c) (reply : Reply) :
    (c.toClient.offer reply).2.taken = c.toClient.taken ++ [reply] := by
  rw [Outlet.taken_offer, if_pos (by rw [h.offer_eq])]

theorem ClientMoves.serving (h : ClientMoves c d) (hc : Serving c) : Serving d :=
  ⟨(h.relaying hc.phase).1, h.moves.takesAll hc.takes⟩

theorem PeerMoves.serving (h : PeerMoves c d) (hc : Serving c) : Serving d :=
  ⟨h.frame.1.trans hc.phase, h.moves.takesAll hc.takes⟩

/-! ### What the client's direction works on -/

namespace Matched

theorem clientBuffer (h : Matched clientHalf c d) : c.clientBuffer = d.clientBuffer :=
  congrArg ClientHalf.buffer h.same

theorem withClientBuffer (h : Matched clientHalf c d) (buffer : Bytes) :
    Matched clientHalf { c with clientBuffer := buffer } { d with clientBuffer := buffer } where
  left := ⟨h.left.phase, h.left.takes⟩
  right := ⟨h.right.phase, h.right.takes⟩
  same := by
    show { c.clientHalf with buffer } = { d.clientHalf with buffer }
    rw [h.same]

theorem setInlet (h : Matched clientHalf c d) (inlet : Inlet) :
    Matched clientHalf (c.setInlet inlet) (d.setInlet inlet) where
  left := ⟨h.left.phase, h.left.takes⟩
  right := ⟨h.right.phase, h.right.takes⟩
  same := by
    show { c.clientHalf with fromClient := inlet } = { d.clientHalf with fromClient := inlet }
    rw [h.same]

theorem withToPeer (h : Matched clientHalf c d) (outlet : Outlet Bytes) :
    Matched clientHalf { c with toPeer := outlet } { d with toPeer := outlet } where
  left := ⟨h.left.phase, h.left.takes⟩
  right := ⟨h.right.phase, h.right.takes⟩
  same := by
    show { c.clientHalf with toPeer := outlet } = { d.clientHalf with toPeer := outlet }
    rw [h.same]

theorem pong (h : Matched clientHalf c d) (payload : Bytes) :
    Matched clientHalf { c with toClient := (c.toClient.offer (.frame .pong payload)).2 }
      { d with toClient := (d.toClient.offer (.frame .pong payload)).2 } where
  left := h.left.offer _
  right := h.right.offer _
  same := by
    have hpongs (e : Connection σ) (he : Serving e) :
        { e with toClient := (e.toClient.offer (.frame .pong payload)).2 }.clientHalf =
          { e.clientHalf with pongs := e.clientHalf.pongs ++ [.frame .pong payload] } := by
      simp only [clientHalf, he.taken_offer, List.filter_append]
      rfl
    rw [hpongs c h.left, hpongs d h.right, h.same]

end Matched

theorem sendToPeer_eq {socket : PeerSocket} (h : c.peer = some socket) (payload : Bytes) :
    c.sendToPeer payload = ((socket.writer payload c.toPeer).1.mapError .peerIo,
      { c with toPeer := (socket.writer payload c.toPeer).2 }) := by
  unfold sendToPeer PeerSocket.writer
  rw [h]
  dsimp only
  rcases socket.send payload c.toPeer with ⟨_ | _, outlet⟩
  · rfl
  · rfl

theorem sendToPeer_matched (h : Matched clientHalf c d) (payload : Bytes) :
    Ends clientHalf (c.sendToPeer payload) (d.sendToPeer payload) := by
  have hwriter : c.peer.map PeerSocket.writer = d.peer.map PeerSocket.writer :=
    congrArg ClientHalf.writer h.same
  have houtlet : c.toPeer = d.toPeer := congrArg ClientHalf.toPeer h.same
  cases hd : d.peer with
  | none =>
      rw [hd, Option.map_none, Option.map_eq_none_iff] at hwriter
      rw [sendToPeer, sendToPeer, hwriter, hd]
      exact h.ends _
  | some t =>
      rw [hd, Option.map_some, Option.map_eq_some_iff] at hwriter
      obtain ⟨s, hs, hst⟩ := hwriter
      rw [sendToPeer_eq hs, sendToPeer_eq hd, hst, houtlet]
      exact (h.withToPeer _).ends _

theorem act_matched (h : Matched clientHalf c d) (payload : Bytes) (i : Intent) :
    Ends clientHalf (act payload c i) (act payload d i) := by
  cases i with
  | forward =>
      obtain ⟨o, c', d', hc, hd, hmatch⟩ := sendToPeer_matched h payload
      simp only [act, hc, hd]
      cases o with
      | error e => exact hmatch.ends _
      | ok => exact hmatch.ends _
  | pong =>
      simp only [act]
      rw [h.left.offer_eq, h.right.offer_eq]
      exact (h.pong payload).ends _
  | ignore => exact h.ends _
  | close => exact h.ends _

/-! ### Frames of the client -/

theorem useFrame_matched (h : Matched clientHalf c d) (frame : Frame.Decoded) :
    Step.Alike (Matched clientHalf) (Ends clientHalf) (useFrame frame c) (useFrame frame d) := by
  unfold useFrame
  cases intent frame.header with
  | error e => exact .done (h.ends _)
  | ok i =>
      obtain ⟨o, c', d', hc, hd, hmatch⟩ := act_matched h frame.payload i
      have hdrop : Matched clientHalf (c'.dropFrame frame.length) (d'.dropFrame frame.length) := by
        unfold dropFrame
        rw [hmatch.clientBuffer]
        exact hmatch.withClientBuffer _
      dsimp only
      rw [hc, hd]
      rcases o with e | _ | t
      · exact .done (hmatch.ends _)
      · exact .again hdrop
      · refine .done ?_
        split
        · exact hdrop.ends _
        · exact hmatch.ends _

theorem frameStep_matched (h : Matched clientHalf c d) :
    Step.Alike (Matched clientHalf) (Ends clientHalf) c.frameStep d.frameStep := by
  have hbuffer := h.clientBuffer
  cases hp : Frame.Header.parse? d.clientBuffer with
  | none =>
      rw [frameStep_unparsed hp, frameStep_unparsed (hbuffer ▸ hp)]
      exact .done (h.ends _)
  | some header =>
      by_cases hlong : bufferCapacity < header.frameLength
      · rw [frameStep_tooLong hp hlong, frameStep_tooLong (hbuffer ▸ hp) hlong]
        exact .done (h.ends _)
      · cases hd : Frame.decode? d.clientBuffer with
        | none =>
            rw [frameStep_undecoded hp hlong hd,
              frameStep_undecoded (hbuffer ▸ hp) hlong (hbuffer ▸ hd)]
            exact .done (h.ends _)
        | some p =>
            obtain ⟨frame, buffer⟩ := p
            rw [frameStep_decoded hp hlong hd,
              frameStep_decoded (hbuffer ▸ hp) hlong (hbuffer ▸ hd)]
            exact useFrame_matched (h.withClientBuffer buffer) frame

variable (router : Router σ)

theorem useStep_matched (h : Matched clientHalf c d) :
    Step.Alike (Matched clientHalf) (Ends clientHalf) (c.useStep router) (d.useStep router) := by
  unfold useStep
  rw [h.left.phase, h.right.phase]
  exact frameStep_matched h

theorem useClientBuffer_matched (h : Matched clientHalf c d) :
    Ends clientHalf (useClientBuffer router c) (useClientBuffer router d) :=
  Loop.run_alike (fun _ _ h => useStep_matched router h) _ h

/-- Two states of a loop that reads: the same waits at the socket. -/
def MatchedReading {γ ι : Type} (half : Connection σ → γ) (s t : ι × Connection σ) : Prop :=
  s.1 = t.1 ∧ Matched half s.2 t.2

/-- Two loops that read come to the same outcome. -/
def EndsReading {γ ι ω : Type} (half : Connection σ → γ) (r s : ω × ι × Connection σ) : Prop :=
  ∃ outcome inlet c d, r = (outcome, inlet, c) ∧ s = (outcome, inlet, d) ∧ Matched half c d

theorem Matched.endsReading {γ ι ω : Type} {half : Connection σ → γ} (h : Matched half c d)
    (outcome : ω) (inlet : ι) : EndsReading half (outcome, inlet, c) (outcome, inlet, d) :=
  ⟨outcome, inlet, c, d, rfl, rfl, h⟩

theorem clientStep_matched {s t : Inlet × Connection σ} (h : MatchedReading clientHalf s t) :
    Step.Alike (MatchedReading clientHalf) (EndsReading clientHalf) (clientStep router s)
      (clientStep router t) := by
  obtain ⟨inlet, c⟩ := s
  obtain ⟨_, d⟩ := t
  obtain ⟨rfl, h⟩ : inlet = _ ∧ Matched clientHalf c d := h
  simp only [clientStep]
  rw [h.clientBuffer]
  rcases inlet.read (bufferCapacity - d.clientBuffer.length) with ⟨(_ | ⟨b, bytes⟩) | _ | _, rest⟩
  · exact .done (h.endsReading _ _)
  · obtain ⟨o, c', d', hc, hd, hmatch⟩ :=
      useClientBuffer_matched router (h.withClientBuffer (d.clientBuffer ++ b :: bytes))
    dsimp only
    rw [hc, hd]
    rcases o with e | _ | t
    · exact .done (hmatch.endsReading _ _)
    · dsimp only
      rw [hmatch.clientBuffer]
      split
      · exact .done (hmatch.endsReading _ _)
      · exact .again ⟨rfl, hmatch⟩
    · exact .done (hmatch.endsReading _ _)
  · exact .done (h.endsReading _ _)
  · exact .done (h.endsReading _ _)

/-- What the client's side comes to depends on the client's half alone. -/
theorem readClient_matched (h : Matched clientHalf c d) :
    Ends clientHalf (c.readClient router) (d.readClient router) := by
  have hinlet : c.fromClient = d.fromClient := congrArg ClientHalf.fromClient h.same
  obtain ⟨o, inlet, c', d', hc, hd, hmatch⟩ :
      EndsReading clientHalf (takeFromClient router (c.fromClient, c))
        (takeFromClient router (d.fromClient, d)) :=
    Loop.run_alike (fun _ _ => clientStep_matched router) _ ⟨hinlet, h⟩
  rw [readClient, readClient, hc, hd]
  exact (hmatch.setInlet inlet).ends _

/-! ### What the peer's direction works on -/

namespace Matched

theorem peerBuffer (h : Matched peerHalf c d) : c.peerBuffer = d.peerBuffer :=
  congrArg PeerHalf.buffer h.same

theorem withPeerBuffer (h : Matched peerHalf c d) (buffer : Bytes) :
    Matched peerHalf { c with peerBuffer := buffer } { d with peerBuffer := buffer } where
  left := ⟨h.left.phase, h.left.takes⟩
  right := ⟨h.right.phase, h.right.takes⟩
  same := by
    show { c.peerHalf with buffer } = { d.peerHalf with buffer }
    rw [h.same]

theorem withMemory (h : Matched peerHalf c d) (memory : Memory σ) :
    Matched peerHalf { c with memory } { d with memory } where
  left := ⟨h.left.phase, h.left.takes⟩
  right := ⟨h.right.phase, h.right.takes⟩
  same := by
    show { c.peerHalf with memory } = { d.peerHalf with memory }
    rw [h.same]

theorem setPeer (h : Matched peerHalf c d) (socket : PeerSocket) :
    Matched peerHalf (c.setPeer socket) (d.setPeer socket) where
  left := ⟨h.left.phase, h.left.takes⟩
  right := ⟨h.right.phase, h.right.takes⟩
  same := by
    show { c.peerHalf with peer := some socket } = { d.peerHalf with peer := some socket }
    rw [h.same]

theorem dropUnit (h : Matched peerHalf c d) (n : Nat) :
    Matched peerHalf (c.dropUnit n) (d.dropUnit n) := by
  unfold Connection.dropUnit
  rw [h.peerBuffer]
  exact h.withPeerBuffer _

theorem message (h : Matched peerHalf c d) {kind : MessageKind} {opcode : Opcode}
    (hkind : kind.opcode? = some opcode) {payload payload' : Bytes} (hp : payload = payload') :
    Matched peerHalf { c with toClient := (c.toClient.offer (.frame opcode payload)).2 }
      { d with toClient := (d.toClient.offer (.frame opcode payload')).2 } where
  left := h.left.offer _
  right := h.right.offer _
  same := by
    have hframes (e : Connection σ) (he : Serving e) :
        { e with toClient := (e.toClient.offer (.frame opcode payload)).2 }.peerHalf =
          { e.peerHalf with frames := e.peerHalf.frames ++ [.frame opcode payload] } := by
      simp only [peerHalf, he.taken_offer, List.filter_append]
      cases kind <;> cases hkind <;> rfl
    rw [← hp, hframes c h.left, hframes d h.right, h.same]

end Matched

/-! ### Units of the peer -/

/-- What comes of the length and the kind that a framing has answered. -/
def useCut (route : Route σ) (cut : Cut) (c : Connection σ) :
    Step (Connection σ) (Except Error Unit × Connection σ) :=
  if cut.length = 0 then .done (.ok (), c)
  else if c.peerBuffer.length < cut.length then
    .done (.error (.framing route.framing.name (.overrun cut.length c.peerBuffer.length)), c)
  else match cut.kind.opcode? with
    | none => .again (c.dropUnit cut.length)
    | some opcode =>
      match c.toClient.offer (.frame opcode (c.peerBuffer.take cut.length)) with
      | (true, outlet) => .again ({ c with toClient := outlet }.dropUnit cut.length)
      | (false, outlet) => .done (.error (.io .brokenPipe), { c with toClient := outlet })

theorem useCut_matched (h : Matched peerHalf c d) (route : Route σ) (cut : Cut) :
    Step.Alike (Matched peerHalf) (Ends peerHalf) (useCut route cut c) (useCut route cut d) := by
  have hbuffer := h.peerBuffer
  unfold useCut
  by_cases hzero : cut.length = 0
  · rw [if_pos hzero, if_pos hzero]
    exact .done (h.ends _)
  · rw [if_neg hzero, if_neg hzero]
    by_cases hover : d.peerBuffer.length < cut.length
    · rw [if_pos (hbuffer ▸ hover), if_pos hover, hbuffer]
      exact .done (h.ends _)
    · rw [if_neg (hbuffer ▸ hover), if_neg hover]
      cases hkind : cut.kind.opcode? with
      | none => exact .again (h.dropUnit _)
      | some opcode =>
          dsimp only
          rw [h.left.offer_eq, h.right.offer_eq]
          exact .again ((h.message hkind (by rw [hbuffer])).dropUnit _)

theorem forwardStep_idle {lastRead : Nat} (h : c.route = none ∨ c.peerBuffer = []) :
    c.forwardStep lastRead = .done (.ok (), c) := by
  unfold forwardStep
  split
  · rfl
  · next route hroute =>
    rw [hroute] at h
    rw [h.resolve_left nofun]
    rfl

theorem forwardStep_asked {lastRead : Nat} {route : Route σ} (hroute : c.route = some route)
    (hne : c.peerBuffer ≠ []) :
    c.forwardStep lastRead =
      match c.answer route lastRead with
      | (.error cause, memory) =>
        .done (.error (.framing route.framing.name cause), { c with memory })
      | (.ok cut, memory) => useCut route cut { c with memory } := by
  have hempty : ¬ c.peerBuffer.isEmpty = true := by rwa [List.isEmpty_iff]
  unfold forwardStep
  rw [hroute]
  dsimp only
  rw [if_neg hempty]
  rfl

theorem forwardStep_matched (lastRead : Nat) (h : Matched peerHalf c d) :
    Step.Alike (Matched peerHalf) (Ends peerHalf) (c.forwardStep lastRead)
      (d.forwardStep lastRead) := by
  have hroute : c.route = d.route := congrArg PeerHalf.route h.same
  have hmemory : c.memory = d.memory := congrArg PeerHalf.memory h.same
  by_cases hidle : d.route = none ∨ d.peerBuffer = []
  · rw [forwardStep_idle hidle, forwardStep_idle (by rwa [hroute, h.peerBuffer])]
    exact .done (h.ends _)
  · obtain ⟨hsome, hne⟩ := not_or.mp hidle
    obtain ⟨route, hd⟩ := Option.ne_none_iff_exists'.mp hsome
    have hanswer : c.answer route lastRead = d.answer route lastRead := by
      rw [answer, answer, h.peerBuffer, hmemory]
    rw [forwardStep_asked hd hne, forwardStep_asked (hroute.trans hd) (by rwa [h.peerBuffer]),
      hanswer]
    rcases d.answer route lastRead with ⟨cause | cut, memory⟩
    · exact .done ((h.withMemory memory).ends _)
    · exact useCut_matched (h.withMemory memory) route cut

theorem takePeerBytes_matched (h : Matched peerHalf c d) (bytes : Bytes) :
    Ends peerHalf (takePeerBytes bytes c) (takePeerBytes bytes d) := by
  have hfill : Matched peerHalf { c with peerBuffer := c.peerBuffer ++ bytes }
      { d with peerBuffer := d.peerBuffer ++ bytes } := by
    rw [h.peerBuffer]
    exact h.withPeerBuffer _
  obtain ⟨o, c', d', hc, hd, hmatch⟩ :
      Ends peerHalf (forward bytes.length { c with peerBuffer := c.peerBuffer ++ bytes })
        (forward bytes.length { d with peerBuffer := d.peerBuffer ++ bytes }) :=
    Loop.run_alike (fun _ _ => forwardStep_matched bytes.length) _ hfill
  rw [takePeerBytes, takePeerBytes, hc, hd]
  cases o with
  | error e => exact hmatch.ends _
  | ok =>
      dsimp only
      rw [hmatch.peerBuffer]
      exact hmatch.ends _

theorem peerStep_matched {s t : PeerSocket × Connection σ} (h : MatchedReading peerHalf s t) :
    Step.Alike (MatchedReading peerHalf) (EndsReading peerHalf) (peerStep s) (peerStep t) := by
  obtain ⟨socket, c⟩ := s
  obtain ⟨_, d⟩ := t
  obtain ⟨rfl, h⟩ : socket = _ ∧ Matched peerHalf c d := h
  simp only [peerStep]
  rw [h.peerBuffer]
  rcases socket.read (bufferCapacity - d.peerBuffer.length) with ⟨bytes | _ | _, rest⟩
  · dsimp only
    split
    · exact .done (h.endsReading _ _)
    · split
      · exact .done (h.endsReading _ _)
      · obtain ⟨o, c', d', hc, hd, hmatch⟩ := takePeerBytes_matched h bytes
        rw [hc, hd]
        cases o with
        | none => exact .again ⟨rfl, hmatch⟩
        | some e => exact .done (hmatch.endsReading _ _)
  · exact .done (h.endsReading _ _)
  · exact .done (h.endsReading _ _)

/-- What the peer's side comes to depends on the peer's half alone. -/
theorem readPeer_matched (h : Matched peerHalf c d) :
    Ends peerHalf c.readPeer d.readPeer := by
  have hpeer : c.peer = d.peer := congrArg PeerHalf.peer h.same
  cases hd : d.peer with
  | none =>
      rw [readPeer, readPeer, hpeer, hd]
      exact h.ends _
  | some socket =>
      obtain ⟨o, rest, c', d', hc', hd', hmatch⟩ :
          EndsReading peerHalf (takeFromPeer (socket, c)) (takeFromPeer (socket, d)) :=
        Loop.run_alike (fun _ _ => peerStep_matched) _ ⟨rfl, h⟩
      rw [readPeer, readPeer, hpeer, hd]
      dsimp only
      rw [hc', hd']
      exact (hmatch.setPeer rest).ends _

/-! ### What the other direction leaves alone -/

/-- From `c` to `d` the client has been sent `frames`. -/
def Relays (c d : Connection σ) (frames : List Reply) : Prop :=
  (∀ reply ∈ frames, reply.IsRelayed) ∧ d.toClient.taken = c.toClient.taken ++ frames

theorem Relays.trans {e : Connection σ} {frames more : List Reply} (h : Relays c d frames)
    (hmore : Relays d e more) : Relays c e (frames ++ more) := by
  refine ⟨List.forall_mem_append.mpr ⟨h.1, hmore.1⟩, ?_⟩
  rw [hmore.2, h.2, List.append_assoc]

theorem isRelayed_of_isPong {reply : Reply} (h : reply.isPong = true) : reply.IsRelayed := by
  unfold Reply.isPong at h
  split at h
  · exact ⟨.pong, by decide, _, rfl⟩
  · cases h

/-- While there is relaying, the client's side sends answers to pings, and leaves the peer's half
alone. -/
theorem readClient_relays (hc : Serving c) :
    Serving (c.readClient router).2 ∧ (c.readClient router).2.peerHalf = c.peerHalf ∧
      ∃ pongs, Relays c (c.readClient router).2 pongs := by
  obtain ⟨d, inlet, hmoves, hd⟩ := readClient_moves router c
  obtain ⟨-, hroute, hpeer, pongs, hpongs, htaken⟩ := hmoves.relaying hc.phase
  obtain ⟨hbuffer, hmemory⟩ := hmoves.frame
  have hserving := hmoves.serving hc
  rw [hd]
  refine ⟨⟨hserving.phase, hserving.takes⟩, ?_, pongs, fun reply hr => ?_, htaken⟩
  · have hnone : pongs.filter (!·.isPong) = [] := by
      refine List.filter_eq_nil_iff.mpr fun reply hr => ?_
      rw [hpongs reply hr]
      exact Bool.false_ne_true
    show d.peerHalf = c.peerHalf
    rw [peerHalf, htaken, List.filter_append, hnone, List.append_nil, hbuffer, hpeer, hroute,
      hmemory]
    rfl
  · exact isRelayed_of_isPong (hpongs reply hr)

/-- The peer's side sends units, and leaves alone what the client's direction works on. -/
theorem PeerMoves.relays (h : PeerMoves c d) :
    d.fromClient = c.fromClient ∧ d.toPeer = c.toPeer ∧
      ∃ frames, Relays c d frames ∧ ∀ reply ∈ frames, reply.isPong = false := by
  induction h with
  | refl => exact ⟨rfl, rfl, [], ⟨List.forall_mem_nil _, (List.append_nil _).symm⟩,
      List.forall_mem_nil _⟩
  | @tail e _ _ hm ih =>
      obtain ⟨hfrom, hto, frames, hframes, hunits⟩ := ih
      cases hm with
      | @message kind opcode payload hroute hkind =>
          have hunit : (Reply.frame opcode payload).isPong = false := by
            cases kind <;> cases hkind <;> rfl
          refine ⟨hfrom, hto, ?_⟩
          by_cases hsent : (e.toClient.offer (.frame opcode payload)).1 = true
          · refine ⟨frames ++ [.frame opcode payload], hframes.trans ⟨?_, ?_⟩, ?_⟩
            · exact List.forall_mem_singleton.mpr (relayed_of_kind hkind payload)
            · rw [Outlet.taken_offer, if_pos hsent]
            · exact List.forall_mem_append.mpr ⟨hunits, List.forall_mem_singleton.mpr hunit⟩
          · refine ⟨frames, ⟨hframes.1, ?_⟩, hunits⟩
            rw [Outlet.taken_offer, if_neg hsent]
            exact hframes.2
      | _ => exact ⟨hfrom, hto, frames, hframes, hunits⟩

/-- The peer's side sends units, and leaves the client's half alone. -/
theorem readPeer_relays (hc : Serving c) :
    Serving c.readPeer.2 ∧ c.readPeer.2.clientHalf = c.clientHalf ∧
      ∃ frames, Relays c c.readPeer.2 frames := by
  cases hpeer : c.peer with
  | none =>
      rw [readPeer, hpeer]
      exact ⟨hc, rfl, [], List.forall_mem_nil _, (List.append_nil _).symm⟩
  | some socket =>
      obtain ⟨d, after, hmoves, hd⟩ := readPeer_moves hpeer
      obtain ⟨hfrom, hto, frames, hframes, hunits⟩ := hmoves.relays
      have hserving := hmoves.serving hc
      have hwriter := keeps_readPeer PeerSocket.writer_read c
      rw [hd] at hwriter ⊢
      refine ⟨⟨hserving.phase, hserving.takes⟩, ?_, frames, hframes⟩
      have hnone : frames.filter (·.isPong) = [] := by
        refine List.filter_eq_nil_iff.mpr fun reply hr => ?_
        rw [hunits reply hr]
        exact Bool.false_ne_true
      have hpongs : (d.setPeer after).toClient.taken.filter (·.isPong) =
          c.toClient.taken.filter (·.isPong) := by
        show d.toClient.taken.filter _ = _
        rw [hframes.2, List.filter_append, hnone, List.append_nil]
      show ClientHalf.mk d.clientBuffer d.fromClient d.toPeer _ _ = _
      rw [hwriter, hpongs, hmoves.frame.2.2, hfrom, hto]
      rfl

/-! ### Arrivals of both sides -/

end Connection

/-- Bytes that arrive from one of the sides. -/
structure Arrival where
  side : Side
  bytes : Bytes
deriving DecidableEq, Repr

namespace Arrival

variable {σ : Type}

/-- The bytes arrive, and the socket they arrive at is readable then. -/
def operations (router : Connection.Router σ) (dial : Endpoint → Except IoFault PeerSocket) :
    Arrival → List (Operation σ)
  | ⟨.client, bytes⟩ => [.arrive .client bytes, .readClient router dial]
  | ⟨.peer, bytes⟩ => [.arrive .peer bytes, .readPeer]

/-- The verdicts on the arrivals of one side. -/
def verdictsOf (side : Side) (arrivals : List Arrival) (verdicts : List Verdict) : List Verdict :=
  ((arrivals.zip verdicts).filter (·.1.side = side)).map (·.2)

end Arrival

namespace Connection

open Arrival

variable {σ : Type} {c d : Connection σ} (router : Router σ)
  (dial : Endpoint → Except IoFault PeerSocket)

/-- The connection when bytes of the client have arrived. -/
def hasClientBytes (bytes : Bytes) (dial : Endpoint → Except IoFault PeerSocket)
    (c : Connection σ) : Connection σ :=
  { c with fromClient := c.fromClient.arrive bytes, dial }

/-- The connection when bytes of the peer have arrived. -/
def hasPeerBytes (bytes : Bytes) (c : Connection σ) : Connection σ :=
  { c with peer := c.peer.map (·.arrive bytes) }

theorem run_client (bytes : Bytes) (c : Connection σ) :
    run (operations router dial ⟨.client, bytes⟩) c =
      ([((c.hasClientBytes bytes dial).readClient router).1],
        ((c.hasClientBytes bytes dial).readClient router).2) := rfl

theorem run_peer (bytes : Bytes) (c : Connection σ) :
    run (operations router dial ⟨.peer, bytes⟩) c =
      ([(c.hasPeerBytes bytes).readPeer.1], (c.hasPeerBytes bytes).readPeer.2) := rfl

/-- Every arrival leads to one verdict. -/
theorem run_operations (a : Arrival) (c : Connection σ) :
    ∃ v d, run (a.operations router dial) c = ([v], d) := by
  obtain ⟨_ | _, bytes⟩ := a
  · exact ⟨_, _, run_client router dial bytes c⟩
  · exact ⟨_, _, run_peer router dial bytes c⟩

theorem run_relays {c : Connection σ} (a : Arrival) (hc : Serving c) :
    Serving (run (a.operations router dial) c).2 ∧
      ∃ frames, Relays c (run (a.operations router dial) c).2 frames := by
  obtain ⟨_ | _, bytes⟩ := a
  · have hserving : Serving (c.hasClientBytes bytes dial) := ⟨hc.phase, hc.takes⟩
    obtain ⟨hafter, -, pongs, hpongs⟩ := readClient_relays router hserving
    exact ⟨hafter, pongs, hpongs⟩
  · have hserving : Serving (c.hasPeerBytes bytes) := ⟨hc.phase, hc.takes⟩
    obtain ⟨hafter, -, frames, hframes⟩ := readPeer_relays hserving
    exact ⟨hafter, frames, hframes⟩

/-- What `half` shows is worked on by the arrivals of one side alone. -/
structure WorkedOnBy {γ : Type} (half : Connection σ → γ) (side : Side) : Prop where
  own : ∀ a c d, a.side = side → Matched half c d →
    Ends half (run (operations router dial a) c) (run (operations router dial a) d)
  other : ∀ a c, a.side ≠ side → Serving c → half (run (operations router dial a) c).2 = half c

theorem clientHalf_workedOn : WorkedOnBy router dial (clientHalf (σ := σ)) .client where
  own := by
    rintro ⟨_, bytes⟩ c d rfl h
    have hinlet : c.fromClient = d.fromClient := congrArg ClientHalf.fromClient h.same
    have harrived : Matched clientHalf (c.hasClientBytes bytes dial)
        (d.hasClientBytes bytes dial) := by
      have hset := h.setInlet (c.fromClient.arrive bytes)
      refine ⟨⟨h.left.phase, h.left.takes⟩, ⟨h.right.phase, h.right.takes⟩, hset.same.trans ?_⟩
      rw [hinlet]
      rfl
    obtain ⟨v, c', d', hc, hd, hmatch⟩ := readClient_matched router harrived
    rw [run_client, run_client, hc, hd]
    exact hmatch.ends _
  other := by
    rintro ⟨_ | _, bytes⟩ c hside hc
    · exact absurd rfl hside
    · have hserving : Serving (c.hasPeerBytes bytes) := ⟨hc.phase, hc.takes⟩
      obtain ⟨-, hhalf, -⟩ := readPeer_relays hserving
      have hwriter : (c.hasPeerBytes bytes).peer.map PeerSocket.writer =
          c.peer.map PeerSocket.writer := by
        show (c.peer.map _).map _ = _
        rw [Option.map_map]
        exact congrArg (c.peer.map ·) (funext fun s => s.writer_arrive bytes)
      rw [run_peer, hhalf]
      show { c.clientHalf with writer := (c.hasPeerBytes bytes).peer.map PeerSocket.writer } = _
      rw [hwriter]
      rfl

theorem peerHalf_workedOn : WorkedOnBy router dial (peerHalf (σ := σ)) .peer where
  own := by
    rintro ⟨_, bytes⟩ c d rfl h
    have harrived : Matched peerHalf (c.hasPeerBytes bytes) (d.hasPeerBytes bytes) := by
      refine ⟨⟨h.left.phase, h.left.takes⟩, ⟨h.right.phase, h.right.takes⟩, ?_⟩
      show { c.peerHalf with peer := c.peerHalf.peer.map (PeerSocket.arrive bytes) } =
        { d.peerHalf with peer := d.peerHalf.peer.map (PeerSocket.arrive bytes) }
      rw [h.same]
    obtain ⟨v, c', d', hc, hd, hmatch⟩ := readPeer_matched harrived
    rw [run_peer, run_peer, hc, hd]
    exact hmatch.ends _
  other := by
    rintro ⟨_ | _, bytes⟩ c hside hc
    · have hserving : Serving (c.hasClientBytes bytes dial) := ⟨hc.phase, hc.takes⟩
      obtain ⟨-, hhalf, -⟩ := readClient_relays router hserving
      exact hhalf
    · exact absurd rfl hside

/-! ### Interleavings -/

/-- Arrivals one after the other relay frames. -/
theorem runs_relay (arrivals : List Arrival) (hc : Serving c) :
    Serving (run (arrivals.flatMap (operations router dial)) c).2 ∧
      ∃ frames, Relays c (run (arrivals.flatMap (operations router dial)) c).2 frames := by
  induction arrivals generalizing c with
  | nil => exact ⟨hc, [], List.forall_mem_nil _, (List.append_nil _).symm⟩
  | cons a arrivals ih =>
      obtain ⟨hserving, frames, hframes⟩ := run_relays router dial a hc
      obtain ⟨hafter, more, hmore⟩ := ih hserving
      rw [List.flatMap_cons, run_append]
      exact ⟨hafter, frames ++ more, hframes.trans hmore⟩

variable {router dial}

theorem verdictsOf_cons (side : Side) (a : Arrival) (arrivals : List Arrival) (v : Verdict)
    (verdicts : List Verdict) :
    verdictsOf side (a :: arrivals) (v :: verdicts) =
      if a.side = side then v :: verdictsOf side arrivals verdicts
      else verdictsOf side arrivals verdicts := by
  by_cases hside : a.side = side
  · simp [verdictsOf, hside]
  · simp [verdictsOf, hside]

/-- **A half that one side works on comes to the same as if nothing came from the other side**, and
so do the verdicts on this side's arrivals. -/
theorem run_alone {γ : Type} {half : Connection σ → γ} {side : Side}
    (hhalf : WorkedOnBy router dial half side) (arrivals : List Arrival)
    (h : Matched half c d) :
    let r := run (arrivals.flatMap (operations router dial)) c
    let s := run ((arrivals.filter (·.side = side)).flatMap (operations router dial)) d
    Matched half r.2 s.2 ∧ verdictsOf side arrivals r.1 = s.1 := by
  induction arrivals generalizing c d with
  | nil => exact ⟨h, rfl⟩
  | cons a arrivals ih =>
      obtain ⟨v, c', hc⟩ := run_operations router dial a c
      have hrun : run ((a :: arrivals).flatMap (operations router dial)) c =
          (v :: (run (arrivals.flatMap (operations router dial)) c').1,
            (run (arrivals.flatMap (operations router dial)) c').2) := by
        rw [List.flatMap_cons, run_append, hc]
        rfl
      dsimp only
      rw [hrun, verdictsOf_cons]
      by_cases hside : a.side = side
      · obtain ⟨outcome, e, d', hce, hd, hmatch⟩ := hhalf.own a c d hside h
        obtain ⟨rfl, rfl⟩ := Prod.mk.inj (hc.symm.trans hce)
        obtain ⟨hafter, hverdicts⟩ := ih hmatch
        rw [if_pos hside, List.filter_cons_of_pos (by simpa using hside), List.flatMap_cons,
          run_append, hd]
        refine ⟨hafter, ?_⟩
        rw [hverdicts]
        rfl
      · have hserving := (run_relays router dial a h.left).1
        have hother := hhalf.other a c hside h.left
        rw [hc] at hserving hother
        rw [if_neg hside, List.filter_cons_of_neg (by simpa using hside)]
        exact ih ⟨hserving, h.right, hother.trans h.same⟩

/-- It makes no difference for a half how the arrivals of its side are interleaved with others. -/
theorem run_agree {γ : Type} {half : Connection σ → γ} {side : Side}
    (hhalf : WorkedOnBy router dial half side) (hc : Serving c) {xs ys : List Arrival}
    (h : xs.filter (·.side = side) = ys.filter (·.side = side)) :
    let r := run (xs.flatMap (operations router dial)) c
    let s := run (ys.flatMap (operations router dial)) c
    half r.2 = half s.2 ∧ verdictsOf side xs r.1 = verdictsOf side ys s.1 := by
  obtain ⟨hxs, hvxs⟩ := run_alone hhalf xs ⟨hc, hc, rfl⟩
  obtain ⟨hys, hvys⟩ := run_alone hhalf ys ⟨hc, hc, rfl⟩
  rw [h] at hxs hvxs
  exact ⟨hxs.same.trans hys.same.symm, hvxs.trans hvys.symm⟩

/-- A frame that is sent to the client. -/
def frameOf (f : Opcode × Bytes) : Reply :=
  .frame f.1 f.2

theorem frameOf_injective : Function.Injective frameOf := by
  rintro ⟨opcode, payload⟩ ⟨opcode', payload'⟩ h
  cases h
  rfl

theorem isPong_frameOf (f : Opcode × Bytes) : (frameOf f).isPong = decide (f.1 = .pong) := by
  obtain ⟨opcode, payload⟩ := f
  cases opcode <;> rfl

/-- From `c` to `d` the client has been sent these frames, one after the other and each in one
piece. -/
structure Writes (c d : Connection σ) (sent : List (Opcode × Bytes)) : Prop where
  opcodes : ∀ f ∈ sent, f.1 ∈ [Opcode.text, .binary, .pong]
  taken : d.toClient.taken = c.toClient.taken ++ sent.map frameOf
  written : d.toClient.taken.flatMap Reply.bytes =
    c.toClient.taken.flatMap Reply.bytes ++ sent.flatMap fun f => Frame.encode f.1 f.2

theorem exists_map_frameOf {frames : List Reply} (h : ∀ reply ∈ frames, reply.IsRelayed) :
    ∃ sent : List (Opcode × Bytes), (∀ f ∈ sent, f.1 ∈ [Opcode.text, .binary, .pong]) ∧
      frames = sent.map frameOf := by
  induction frames with
  | nil => exact ⟨[], List.forall_mem_nil _, rfl⟩
  | cons reply frames ih =>
      obtain ⟨⟨opcode, hop, payload, rfl⟩, hframes⟩ := List.forall_mem_cons.mp h
      obtain ⟨sent, hsent, rfl⟩ := ih hframes
      exact ⟨(opcode, payload) :: sent, List.forall_mem_cons.mpr ⟨hop, hsent⟩, rfl⟩

theorem Relays.writes {frames : List Reply} (h : Relays c d frames) : ∃ sent, Writes c d sent := by
  obtain ⟨hframes, htaken⟩ := h
  obtain ⟨sent, hsent, rfl⟩ := exists_map_frameOf hframes
  refine ⟨sent, hsent, htaken, ?_⟩
  rw [htaken, List.flatMap_append, List.flatMap_map]
  rfl

/-- **The two directions do not get in each other's way.**  While there is relaying, and the client's
socket takes what is written, two lists of arrivals in which the same arrives from the client and
the same from the peer, each in the same order, lead to the same: the same payloads for the peer,
the same messages and the same pongs for the client, each in the same order and every frame in one
piece, the same bytes in the buffers, the same in the framing's memory, and the same verdicts on the
arrivals of either side. -/
theorem run_interleaved (hphase : c.phase = .relaying) (htakes : c.toClient.TakesAll)
    {xs ys : List Arrival} (h : ∀ side, xs.filter (·.side = side) = ys.filter (·.side = side)) :
    let r := run (xs.flatMap (operations router dial)) c
    let s := run (ys.flatMap (operations router dial)) c
    r.2.toPeer.taken = s.2.toPeer.taken ∧
      (∃ sent sent', Writes c r.2 sent ∧ Writes c s.2 sent' ∧
        sent.filter (·.1 ≠ .pong) = sent'.filter (·.1 ≠ .pong) ∧
        sent.filter (·.1 = .pong) = sent'.filter (·.1 = .pong)) ∧
      r.2.clientBuffer = s.2.clientBuffer ∧ r.2.peerBuffer = s.2.peerBuffer ∧
      r.2.memory = s.2.memory ∧ r.2.phase = .relaying ∧ s.2.phase = .relaying ∧
      ∀ side, verdictsOf side xs r.1 = verdictsOf side ys s.1 := by
  intro r s
  have hc : Serving c := ⟨hphase, htakes⟩
  obtain ⟨hclient, hclientVerdicts⟩ := run_agree (clientHalf_workedOn router dial) hc (h .client)
  obtain ⟨hpeer, hpeerVerdicts⟩ := run_agree (peerHalf_workedOn router dial) hc (h .peer)
  obtain ⟨hr, _, hrelays⟩ := runs_relay router dial xs hc
  obtain ⟨hs, _, hrelays'⟩ := runs_relay router dial ys hc
  obtain ⟨sent, hsent⟩ := hrelays.writes
  obtain ⟨sent', hsent'⟩ := hrelays'.writes
  have hfilter (p : Reply → Bool) (q : Opcode × Bytes → Bool) (hpq : ∀ f, p (frameOf f) = q f)
      (hsame : r.2.toClient.taken.filter p = s.2.toClient.taken.filter p) :
      sent.filter q = sent'.filter q := by
    have hq : p ∘ frameOf = q := funext hpq
    rw [hsent.taken, hsent'.taken, List.filter_append, List.filter_append,
      List.append_cancel_left_eq, List.filter_map, List.filter_map, hq] at hsame
    exact (List.map_inj_right fun _ _ => frameOf_injective.eq_iff.mp).mp hsame
  refine ⟨?_, ⟨sent, sent', hsent, hsent', ?_, ?_⟩, ?_, ?_, ?_, hr.phase, hs.phase, ?_⟩
  · exact congrArg (fun half => half.toPeer.taken) hclient
  · refine hfilter (!·.isPong) _ (fun f => ?_) (congrArg PeerHalf.frames hpeer)
    rw [isPong_frameOf, decide_not]
  · exact hfilter (·.isPong) _ isPong_frameOf (congrArg ClientHalf.pongs hclient)
  · exact congrArg ClientHalf.buffer hclient
  · exact congrArg PeerHalf.buffer hpeer
  · exact congrArg PeerHalf.memory hpeer
  · intro side
    cases side with
    | client => exact hclientVerdicts
    | peer => exact hpeerVerdicts

/-- A ping, a record in two pieces and a message, interleaved in two ways. -/
theorem run_interleaved_pings :
    let route : Route Unit := { host := "", framing := ⟨"auto", Framing.auto⟩ }
    let c : Connection Unit :=
      { id := ⟨0, 0⟩, phase := .relaying, dial := fun _ => .error .unsupported,
        peer := some (.stream {}), route := some route }
    let xs : List Arrival := [⟨.client, [0x89, 0x81, 0, 0, 0, 0, 1]⟩, ⟨.peer, [2]⟩,
      ⟨.client, [0x82, 0x81, 0, 0, 0, 0, 3]⟩]
    let ys : List Arrival := [⟨.peer, [2]⟩, ⟨.client, [0x89, 0x81, 0, 0, 0, 0, 1]⟩,
      ⟨.client, [0x82, 0x81, 0, 0, 0, 0, 3]⟩]
    let r := run (xs.flatMap (operations (fun _ => none) c.dial)) c
    let s := run (ys.flatMap (operations (fun _ => none) c.dial)) c
    (c.phase = .relaying ∧ c.toClient.TakesAll ∧
      ∀ side, xs.filter (·.side = side) = ys.filter (·.side = side)) ∧
    r.2.toPeer.taken = s.2.toPeer.taken ∧ r.2.clientBuffer = s.2.clientBuffer ∧
      r.2.peerBuffer = s.2.peerBuffer := by
  intro route c xs ys r s
  have htakes : c.toClient.TakesAll := fun _ => rfl
  have hsides (side : Side) : xs.filter (·.side = side) = ys.filter (·.side = side) := by
    cases side <;> decide
  obtain ⟨htoPeer, -, hclient, hpeer, -⟩ := run_interleaved rfl htakes hsides
  exact ⟨⟨rfl, htakes, hsides⟩, htoPeer, hclient, hpeer⟩

end Connection

end WsRelay
