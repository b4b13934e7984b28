import WsRelay.Proofs.Client.Admission
import WsRelay.Proofs.Connection.ControlFrames
import WsRelay.Proofs.Handshake.Answer
import WsRelay.Proofs.Handshake.Offers
import WsRelay.Proofs.Peer.Protocols
/-! # What a client can bring into the answer

The answer that grants an upgrade repeats a text of the client: the subprotocol that is accepted.
It is an offer, and offers are stretches of lines (`Neat`), so no line end comes in with it.  A
carriage return or a line feed that stands alone can, since a line goes on until both stand
together.  This takes a protocol option that accepts any offer: else the accepted one is the option
up to case, and has no other line feeds than that (`AnsweredBy.plain`).

Every operation leaves the kept offers neat and answers accordingly (`apply_keeps`), and
`run_answer` says how the answer reads, whether a line ends in carriage return and line feed or in a
line feed alone. -/

namespace WsRelay

open Handshake

variable {σ : Type} {b : SinglePeer σ}

/-- If the reply grants an upgrade, it proves a key, and the backend has chosen the subprotocol
among offers without line ends. -/
def AnsweredBy (b : SinglePeer σ) (reply : Reply) : Prop :=
  ∀ accept protocol, reply = .switching accept protocol → (∃ key, accept = acceptKey key) ∧
    ∃ offers : List String, (∀ offer ∈ offers, Text.OneLine offer) ∧
      protocol = b.protocol.bind fun wanted => offers.find? (takes wanted)

section
variable {accept : String} {protocol : Option String}

theorem answeredBy_frame (opcode : Opcode) (payload : Bytes) :
    AnsweredBy b (.frame opcode payload) := nofun

theorem answeredBy_goodbye? {phase : Phase} {termination : Termination} {reply : Reply}
    (h : Connection.goodbye? phase termination = some reply) : AnsweredBy b reply := by
  obtain ⟨-, payload, rfl⟩ | ⟨-, line, rfl⟩ := Connection.goodbye?_cases h <;> exact nofun

theorem AnsweredBy.plain_accept (h : AnsweredBy b (.switching accept protocol)) :
    Text.Plain accept := by
  obtain ⟨⟨key, rfl⟩, -⟩ := h _ _ rfl
  exact plain_acceptKey key

/-- The accepted subprotocol has no line end. -/
theorem AnsweredBy.oneLine (h : AnsweredBy b (.switching accept protocol)) :
    ∀ name ∈ protocol, Text.OneLine name := by
  obtain ⟨-, offers, hoffers, rfl⟩ := h _ _ rfl
  intro name hname
  obtain ⟨wanted, -, hfind⟩ := Option.bind_eq_some_iff.mp hname
  exact hoffers name (List.mem_of_find?_eq_some hfind)

/-- It has no carriage returns and no line feeds if the option has none and is not `*`. -/
theorem AnsweredBy.plain (h : AnsweredBy b (.switching accept protocol))
    (hb : ∀ wanted, b.protocol = some wanted → wanted ≠ "*" ∧ Text.Plain wanted) :
    ∀ name ∈ protocol, Text.Plain name := by
  obtain ⟨-, offers, -, rfl⟩ := h _ _ rfl
  intro name hname
  obtain ⟨wanted, hwanted, hfind⟩ := Option.bind_eq_some_iff.mp hname
  obtain ⟨hone, hplain⟩ := hb wanted hwanted
  obtain ⟨before, after, -, ⟨hany, -⟩ | ⟨-, hsame, -⟩⟩ := find?_takes hfind
  · exact absurd hany hone
  · exact Text.plain_of_sameIgnoringCase hsame hplain

end

namespace Connection

variable {c d e : Connection σ}

/-- No offer that the request keeps has a line end. -/
def Neat (c : Connection σ) : Prop :=
  ∀ offer ∈ c.request.protocols, Text.OneLine offer

/-- If the offers were neat, they still are, and whatever the client is sent in between is answered
by the backend `b`. -/
def Keeps (b : SinglePeer σ) (c d : Connection σ) : Prop :=
  Neat c → Neat d ∧ Told (AnsweredBy b) c d

theorem Keeps.trans (h : Keeps b c d) (hnext : Keeps b d e) : Keeps b c e := fun hc =>
  have hd := h hc
  have he := hnext hd.1
  ⟨he.1, hd.2.trans he.2⟩

theorem Keeps.of_told (hrequest : d.request = c.request) (h : Told (AnsweredBy b) c d) :
    Keeps b c d := fun hc =>
  ⟨by rwa [Neat, hrequest], h⟩

theorem Keeps.of_eq (hrequest : d.request = c.request) (h : d.toClient = c.toClient) :
    Keeps b c d :=
  .of_told hrequest (.of_eq h)

/-! ### The client's side -/

/-- The upgrade is answered with the backend's choice. -/
theorem upgrade_keeps (c : Connection σ) : Keeps b c (c.upgrade b.route).2 := by
  unfold upgrade
  split
  · exact .of_eq rfl rfl
  · next key _ =>
    split
    · exact .of_eq rfl rfl
    · next route socket hconnect =>
      intro hneat
      have hchoice : route.protocolName? c.request.protocols =
          b.protocol.bind fun wanted => c.request.protocols.find? (takes wanted) :=
        SinglePeer.protocolName?_route (connectPeer_route _ hconnect)
      have hanswered : AnsweredBy b (.switching (acceptKey key)
          (route.protocolName? c.request.protocols)) := by
        rintro _ _ ⟨⟩
        exact ⟨⟨key, rfl⟩, c.request.protocols, hneat, hchoice⟩
      split
      all_goals
        next hoffer => exact ⟨hneat, .offer hanswered (by rw [hoffer])⟩

/-- A line without a line end adds none. -/
theorem takeLine_keeps {line : Bytes} (hline : Bytes.OneLine line) (c : Connection σ) :
    Keeps b c (c.takeLine b.route line).2 := by
  unfold takeLine
  split
  · split
    · exact .of_eq rfl rfl
    · exact fun _ => ⟨List.forall_mem_nil _, .of_eq rfl⟩
  · split
    · exact .of_eq rfl rfl
    · next hfeed => exact fun hc => ⟨Request.oneLine_feed hline hc hfeed, .of_eq rfl⟩
    · exact upgrade_keeps c

theorem lineStep_keeps : Keeps b c (c.lineStep b.route).state := by
  unfold lineStep
  split
  · exact .of_eq rfl rfl
  · next line rest hsplit =>
    have hkeeps := takeLine_keeps (b := b) (Bytes.OneLine.splitLine? hsplit)
      { c with clientBuffer := rest }
    split
    all_goals
      next htake =>
      rw [htake] at hkeeps
      exact hkeeps

/-- Once there is relaying, no request is changed and none is answered. -/
theorem ClientMoves.keeps (h : ClientMoves c d) (hphase : c.phase = .relaying) :
    d.phase = .relaying ∧ Keeps b c d := by
  have hnot {e : Connection σ} {p : Phase} (he : e.phase = .relaying) (hp : e.phase = p)
      (hne : p ≠ .relaying) : False :=
    hne (hp.symm.trans he)
  induction h with
  | refl => exact ⟨hphase, .of_eq rfl rfl⟩
  | tail _ hm ih =>
      obtain ⟨hrelaying, hkeeps⟩ := ih
      cases hm with
      | read | use | forward => exact ⟨hrelaying, hkeeps.trans (.of_eq rfl rfl)⟩
      | pong payload =>
          exact ⟨hrelaying, hkeeps.trans (.of_told rfl (.offer (answeredBy_frame _ _) rfl))⟩
      | «open» _ hp | header _ hp | upgrade _ _ _ _ hp | untold _ _ hp =>
          exact (hnot hrelaying hp nofun).elim

theorem useStep_keeps (c : Connection σ) : Keeps b c (c.useStep b.route).state := by
  unfold useStep
  cases hphase : c.phase with
  | requestLine => exact lineStep_keeps
  | headers => exact lineStep_keeps
  | relaying => exact ((frameStep_moves hphase).keeps hphase).2
  | closed => exact .of_eq rfl rfl

theorem ClientReads.keeps {s : Inlet × Connection σ}
    {step : Step _ (Outcome × Inlet × Connection σ)} (h : ClientReads b.route s step) :
    Keeps b s.2 step.state.2 := by
  have huse {bytes : Bytes} {outcome : Outcome} {d : Connection σ}
      (hu : useClientBuffer b.route { s.2 with clientBuffer := s.2.clientBuffer ++ bytes } =
        (outcome, d)) : Keeps b s.2 d := by
    have hkeeps : Keeps b { s.2 with clientBuffer := s.2.clientBuffer ++ bytes }
        (useClientBuffer b.route { s.2 with clientBuffer := s.2.clientBuffer ++ bytes }).2 :=
      Loop.run_related (fun _ _ _ => .trans) useStep_keeps _ _
    rw [hu] at hkeeps
    exact hkeeps
  cases h with
  | nothing => exact .of_eq rfl rfl
  | stopped => exact .of_eq rfl rfl
  | closed _ hu => exact huse hu
  | full _ hu => exact huse hu
  | again _ hu => exact huse hu

theorem readClient_keeps (c : Connection σ) : Keeps b c (c.readClient b.route).2 :=
  Loop.run_related (R := fun s t : Inlet × Connection σ => Keeps b s.2 t.2)
    (fun _ _ _ => .trans) (fun s => (clientStep_reads b.route s).keeps) _ (c.fromClient, c)

/-! ### All operations -/

theorem PeerMoves.keeps (h : PeerMoves c d) : Keeps b c d := by
  induction h with
  | refl => exact .of_eq rfl rfl
  | tail _ hm ih =>
      refine ih.trans ?_
      cases hm with
      | message => exact .of_told rfl (.offer (answeredBy_frame _ _) rfl)
      | _ => exact .of_eq rfl rfl

theorem close_keeps (termination : Termination) (c : Connection σ) :
    Keeps b c (c.close termination) := by
  unfold close
  split
  · exact .of_eq rfl rfl
  · cases h : goodbye? c.phase termination with
    | none => exact .of_eq rfl rfl
    | some reply => exact .of_told rfl (.offer (answeredBy_goodbye? h) rfl)

/-- Every operation leaves the offers neat, and the client is answered by the backend. -/
theorem apply_keeps {op : Operation σ}
    (hop : ∀ router dial, op = .readClient router dial → router = b.route) (c : Connection σ) :
    Keeps b c (op.apply c).2 := by
  cases op with
  | readClient router dial =>
      obtain rfl := hop router dial rfl
      exact readClient_keeps { c with dial }
  | readPeer =>
      show Keeps b c c.readPeer.2
      cases hpeer : c.peer with
      | none =>
          rw [readPeer, hpeer]
          exact .of_eq rfl rfl
      | some socket =>
          obtain ⟨d, after, hmoves, hd⟩ := readPeer_moves hpeer
          rw [hd]
          exact hmoves.keeps
  | close termination => exact close_keeps termination c
  | release => exact .of_eq rfl rfl
  | beginWatch side watch => cases side <;> exact .of_eq rfl rfl
  | endWatch side => cases side <;> exact .of_eq rfl rfl
  | arrive side bytes => cases side <;> exact .of_eq rfl rfl
  | hangUp side tail => cases side <;> exact .of_eq rfl rfl

theorem run_answered {ops : List (Operation σ)}
    (hops : ∀ router dial, .readClient router dial ∈ ops → router = b.route) (c : Connection σ) :
    Keeps b c (run ops c).2 := by
  induction ops generalizing c with
  | nil => exact .of_eq rfl rfl
  | cons op ops ih =>
      have hop : ∀ router dial, op = .readClient router dial → router = b.route :=
        fun router dial h => hops router dial (h ▸ List.mem_cons_self)
      have hrest : ∀ router dial, .readClient router dial ∈ ops → router = b.route :=
        fun router dial h => hops router dial (List.mem_cons_of_mem op h)
      exact (apply_keeps hop c).trans (ih hrest (op.apply c).2)

/-! ### The answer -/

/-- The subprotocol that a reply names. -/
def named? : Reply → Option String
  | .switching _ protocol => protocol
  | _ => none

theorem mem_map_named? {name : String} {replies : List Reply} :
    some name ∈ replies.map named? ↔ ∃ accept, .switching accept (some name) ∈ replies := by
  simp only [List.mem_map]
  constructor
  · rintro ⟨_ | _ | _, hreply, hname⟩
    · cases hname
      exact ⟨_, hreply⟩
    · cases hname
    · cases hname
  · rintro ⟨accept, hreply⟩
    exact ⟨_, hreply, rfl⟩

/-- **What the answer reads like.**  Whatever a client sends, the answer that grants its upgrade has
the lines that it is made of, and no others: the status, three headers, at most one for the accepted
subprotocol, and the empty line.  Only the subprotocol can bring a carriage return or a line feed,
and only if the protocol option is `*`.  If it brings none, line feeds alone mark the same lines. -/
theorem run_answer {settings : Settings} {framings : FramingTable σ}
    (hb : SinglePeer.ofSettings settings framings = .ok b)
    (hplain : ∀ wanted, settings.option? "protocol" = some wanted → Text.Plain wanted)
    (id : SlotId) (address : String) (dial : Endpoint → Except IoFault PeerSocket)
    (accepts : Nat → Bool) (toPeer : Outlet Bytes) {ops : List (Operation σ)}
    (hops : ∀ router dial, .readClient router dial ∈ ops → router = b.route) :
    let sent := (run ops (fresh id address dial { accepts } toPeer)).2.toClient.taken
    ∀ accept protocol, .switching accept protocol ∈ sent →
      let lines := answerLines accept protocol
      let answer := (Reply.switching accept protocol).bytes
      Bytes.linesBy .crlf answer = lines.map Utf8.encode ++ [[]] ∧
      (∀ line ∈ answerLines accept none, Bytes.Plain (Utf8.encode line)) ∧
      (settings.option? "protocol" ≠ some "*" → ∀ name ∈ protocol, Text.Plain name) ∧
      ((∀ name ∈ protocol, Text.Plain name) →
        (∀ line ∈ lines, Bytes.Plain (Utf8.encode line)) ∧
        Bytes.linesBy .lf answer = lines.map (Utf8.encode · ++ [13]) ++ [[]]) := by
  intro sent accept protocol hsent lines answer
  have hanswered : AnsweredBy b (.switching accept protocol) := by
    have hkept := run_answered hops (fresh id address dial { accepts } toPeer)
      (List.forall_mem_nil _)
    exact (hkept.2 _ hsent).resolve_left List.not_mem_nil
  have hkey := hanswered.plain_accept
  refine ⟨linesBy_crlf_switching hkey hanswered.oneLine, fun line hline => ?_, fun hone => ?_,
    fun hname => ⟨fun line hline => ?_, linesBy_lf_switching hkey hname⟩⟩
  · exact Utf8.plain_encode.mpr (plain_answerLines_none hkey line hline)
  · refine hanswered.plain fun wanted hwanted => ?_
    rw [SinglePeer.ofSettings_protocol hb] at hwanted
    exact ⟨fun hany => hone (hany ▸ hwanted), hplain wanted hwanted⟩
  · exact Utf8.plain_encode.mpr (plain_answerLines hkey hname line hline)

/-- A client that offers the subprotocol of the option as a capital letter, after an offer that has
a line feed. -/
theorem run_answer_capital :
    let settings : Settings := { options := [("host", "unix://socket"), ("protocol", "c")] }
    ∃ b : SinglePeer Unit, SinglePeer.ofSettings settings .standard = .ok b ∧
    let request := Utf8.encode ("GET / HTTP/1.1\r\nSec-WebSocket-Version: 13\r\n" ++
      "Sec-WebSocket-Key: key\r\nUpgrade: websocket\r\nConnection: Upgrade\r\n" ++
      "Sec-WebSocket-Protocol: a\nb, C\r\n\r\n")
    let dial : Endpoint → Except IoFault PeerSocket := fun _ => .ok (.stream {})
    let ops : List (Operation Unit) := [.arrive .client request, .readClient b.route dial]
    ∃ accept, .switching accept (some "C") ∈
        (run ops (fresh ⟨0, 0⟩ "" dial {} {})).2.toClient.taken ∧
      Bytes.linesBy .lf (Reply.switching accept (some "C")).bytes =
        (answerLines accept (some "C")).map (Utf8.encode · ++ [13]) ++ [[]] := by
  intro settings
  let b : SinglePeer Unit :=
    { peer := { SinglePeer.startPeer with host := "unix://socket" }
      protocol := some "c"
      framings := .standard }
  refine ⟨b, rfl, ?_⟩
  intro request dial ops
  have hplain : ∀ wanted, settings.option? "protocol" = some wanted → Text.Plain wanted := by
    rintro _ ⟨⟩
    decide
  have hops : ∀ router dial, .readClient router dial ∈ ops → router = b.route := by
    intro router dial h
    rcases List.mem_cons.mp h with h | h
    · cases h
    · cases List.mem_singleton.mp h
      rfl
  have hnamed : some "C" ∈
      (run ops (fresh ⟨0, 0⟩ "" dial {} {})).2.toClient.taken.map named? := by
    decide +kernel
  obtain ⟨accept, hsent⟩ := mem_map_named?.mp hnamed
  have hb : SinglePeer.ofSettings settings .standard = .ok b := rfl
  obtain ⟨-, -, hone, hlines⟩ :=
    run_answer hb hplain ⟨0, 0⟩ "" dial (fun _ => true) {} hops accept (some "C") hsent
  exact ⟨accept, hsent, (hlines (hone (by decide))).2⟩

/-- While any offer is accepted, what stands behind the line feed in an offer is a line to a reader
who looks for line feeds alone. -/
theorem run_answer_injected :
    let settings : Settings := { options := [("host", "unix://socket"), ("protocol", "*")] }
    (∀ option ∈ settings.options, Text.Plain option.1 ∧ Text.Plain option.2) ∧
    ∃ b : SinglePeer Unit, SinglePeer.ofSettings settings .standard = .ok b ∧
    let request := Utf8.encode ("GET / HTTP/1.1\r\nSec-WebSocket-Version: 13\r\n" ++
      "Sec-WebSocket-Key: key\r\nUpgrade: websocket\r\nConnection: Upgrade\r\n" ++
      "Sec-WebSocket-Protocol: a\nX: b\r\n\r\n")
    let dial : Endpoint → Except IoFault PeerSocket := fun _ => .ok (.stream {})
    let ops : List (Operation Unit) := [.arrive .client request, .readClient b.route dial]
    ∃ accept protocol, .switching accept protocol ∈
        (run ops (fresh ⟨0, 0⟩ "" dial {} {})).2.toClient.taken ∧
      Utf8.encode ("X: b" ++ "\r") ∈
        Bytes.linesBy .lf (Reply.switching accept protocol).bytes := by
  intro settings
  let b : SinglePeer Unit :=
    { peer := { SinglePeer.startPeer with host := "unix://socket" }
      protocol := some "*"
      framings := .standard }
  refine ⟨by decide, b, rfl, ?_⟩
  intro request dial ops
  have hnamed : some ("a" ++ "\n" ++ "X: b") ∈
      (run ops (fresh ⟨0, 0⟩ "" dial {} {})).2.toClient.taken.map named? := by
    decide +kernel
  obtain ⟨accept, hsent⟩ := mem_map_named?.mp hnamed
  have hplain : Text.Plain "X: b" := by decide
  exact ⟨accept, _, hsent, mem_linesBy_lf_switching accept "a" hplain⟩

end Connection

end WsRelay
