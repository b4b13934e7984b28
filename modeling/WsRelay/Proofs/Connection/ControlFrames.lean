import WsRelay.Proofs.Client.Relaying
import WsRelay.Proofs.Connection.Output
/-! # Control frames

A client is sent control frames of two kinds.  A close frame carries no more than RFC 6455 §5.5
allows, since its reason is cut.  A pong carries whatever the ping carried that it answers: a ping
is not refused for its length, so the only limit is that of the client's buffer.

`MeetsPing` says that a ping comes to the front of the client's buffer in the course of operations.
Every pong answers one, and if the client's socket takes what is written, every such ping is
answered (`run_control`). -/

namespace WsRelay

/-! ### The length of a ping -/

namespace Frame

/-- The header of a masked frame has eight bytes or more, unless the payload is short. -/
theorem Header.parse?_masked {bs : Bytes} {h : Header} (hp : parse? bs = some h)
    (hmask : h.mask.isSome) : 6 ≤ h.length ∧ (8 ≤ h.length ∨ h.payloadLength ≤ 127) := by
  match bs, hp with
  | first :: second :: rest, hp =>
    simp only [parse?] at hp
    split at hp
    · cases hp
    · next n used after hs =>
      have hlength := splitLength_length hs
      have hshort : 4 ≤ used ∨ n ≤ 127 := by
        have hseven : (second &&& 0x7F).toNat ≤ 127 := by
          rw [UInt8.toNat_and]
          exact Nat.and_le_right
        unfold splitLength at hs
        split at hs
        · split at hs <;> cases hs
          exact .inl (Nat.le_refl _)
        · split at hs
          · split at hs <;> cases hs
            exact .inl (by decide)
          · cases hs
            exact .inr hseven
      split at hp
      · cases hp
        cases hmask
      · split at hp
        · cases hp
          dsimp only
          omega
        · cases hp

/-- A masked frame has at least eight bytes that are not payload, unless the payload is short. -/
theorem length_payload_of_decode? {buffer after : Bytes} {frame : Decoded}
    (h : decode? buffer = some (frame, after)) (hmask : frame.header.mask.isSome) :
    frame.payload.length + 8 ≤ max frame.length 135 := by
  unfold decode? at h
  split at h
  · cases h
  · next header hp =>
    dsimp only at h
    split at h
    · cases h
    · next hwhole =>
      obtain ⟨rfl, -⟩ := Prod.mk.inj (Option.some.inj h)
      have hmasked := Header.parse?_masked hp hmask
      have hle : header.frameLength ≤ header.length + header.payloadLength := Nat.min_le_right _ _
      rw [List.length_take] at hwhole
      simp only [length_unmask, List.length_drop, List.length_take]
      omega

end Frame

namespace Connection

variable {σ : Type} {router : Router σ} {c d e : Connection σ} {payload : Bytes}

/-! ### Pings -/

/-- A whole ping is at the front of the client's buffer, in a phase in which frames are looked
for. -/
structure Pinged (c : Connection σ) (payload : Bytes) : Prop where
  phase : c.phase = .relaying
  frame : ∃ frame buffer, Frame.decode? c.clientBuffer = some (frame, buffer) ∧
    frame.header.opcode = Opcode.ping.value ∧ frame.header.fin = true ∧
    frame.header.mask.isSome ∧ frame.payload = payload

/-- In the course of operations, a ping comes to the front of the client's buffer when the next
frame is looked for. -/
def MeetsPing (ops : List (Operation σ)) (c : Connection σ) (payload : Bytes) : Prop :=
  ∃ before router dial after e, ops = before ++ .readClient router dial :: after ∧
    LooksAtClient router { (run before c).2 with dial } e ∧ Pinged e payload

theorem MeetsPing.cons {op : Operation σ} {ops : List (Operation σ)}
    (h : MeetsPing ops (op.apply c).2 payload) : MeetsPing (op :: ops) c payload := by
  obtain ⟨before, router, dial, after, e, rfl, hlooks, hping⟩ := h
  exact ⟨op :: before, router, dial, after, e, rfl, hlooks, hping⟩

/-- It is the ping that asks for a pong. -/
theorem intent_eq_pong_iff {h : Frame.Header} : intent h = .ok .pong ↔
    h.opcode = Opcode.ping.value ∧ h.fin = true ∧ h.mask.isSome := by
  unfold intent
  cases h.mask with
  | none => exact ⟨nofun, nofun⟩
  | some key =>
      dsimp only [Option.isNone]
      rw [if_neg Bool.false_ne_true]
      cases hop : Opcode.ofValue? h.opcode with
      | none =>
          refine ⟨nofun, fun ⟨hping, _⟩ => ?_⟩
          rw [hping, Opcode.ofValue?_value] at hop
          cases hop
      | some opcode =>
          rw [Opcode.ofValue?_eq_some_iff] at hop
          rw [hop]
          cases h.fin <;> cases opcode <;> simp [Opcode.value]

theorem Pinged.length_le (h : Pinged c payload) (hfits : c.clientBuffer.length ≤ bufferCapacity) :
    payload.length + 8 ≤ bufferCapacity := by
  obtain ⟨-, frame, buffer, hdecode, -, -, hmask, rfl⟩ := h
  have hlength := Frame.length_payload_of_decode? hdecode hmask
  obtain ⟨-, hframe, -⟩ := Frame.decode?_length hdecode
  have hcapacity : 135 ≤ bufferCapacity := by decide
  omega

/-- A ping is answered, however long it is. -/
theorem Pinged.useStep (h : Pinged c payload) (hfits : c.clientBuffer.length ≤ bufferCapacity) :
    (c.useStep router).state.toClient = (c.toClient.offer (.frame .pong payload)).2 := by
  obtain ⟨hphase, frame, buffer, hdecode, hop, hfin, hmask, rfl⟩ := h
  obtain ⟨-, hlength, -⟩ := Frame.decode?_length hdecode
  have hstep : c.useStep router = c.frameStep := by rw [Connection.useStep, hphase]
  cases hp : Frame.Header.parse? c.clientBuffer with
  | none =>
      rw [Frame.decode?, hp] at hdecode
      cases hdecode
  | some header =>
      have hshort : ¬ bufferCapacity < header.frameLength := fun hlong => by
        rw [Frame.decode?_of_lt hp (by omega)] at hdecode
        cases hdecode
      rw [hstep, frameStep_decoded hp hshort hdecode, useFrame,
        intent_eq_pong_iff.mpr ⟨hop, hfin, hmask⟩]
      simp only [act]
      rcases c.toClient.offer (.frame .pong frame.payload) with ⟨_ | _, outlet⟩ <;> rfl

/-! ### What is told -/

/-- Whatever the client is sent in between is as `P` says. -/
def Told (P : Reply → Prop) (c d : Connection σ) : Prop :=
  ∀ reply ∈ d.toClient.taken, reply ∈ c.toClient.taken ∨ P reply

variable {P Q : Reply → Prop}

theorem Told.of_eq (h : d.toClient = c.toClient) : Told P c d := fun _ hr =>
  .inl (h ▸ hr)

theorem Told.trans (h : Told P c d) (hnext : Told P d e) : Told P c e := fun reply hr =>
  (hnext reply hr).elim (h reply) .inr

theorem Told.mono (hPQ : ∀ reply, P reply → Q reply) (h : Told P c d) : Told Q c d :=
  fun reply hr => (h reply hr).imp_right (hPQ reply)

theorem Told.offer {reply : Reply} (hP : P reply) (h : d.toClient = (c.toClient.offer reply).2) :
    Told P c d := by
  intro other hother
  rw [h, Outlet.taken_offer] at hother
  split at hother
  · rcases List.mem_append.mp hother with hold | hnew
    · exact .inl hold
    · obtain rfl := List.mem_singleton.mp hnew
      exact .inr hP
  · exact .inl hother

/-- If the reply is a control frame, it is a close frame of a length that is allowed, or a pong with
a payload as `Q` says. -/
def Controlled (Q : Bytes → Prop) (reply : Reply) : Prop :=
  ∀ opcode payload, reply = .frame opcode payload → opcode.isControl →
    (opcode = .close ∧ payload.length ≤ CloseCode.controlLimit) ∨ (opcode = .pong ∧ Q payload)

variable {S : Bytes → Prop}

theorem Controlled.mono {T : Bytes → Prop} (hST : ∀ payload, S payload → T payload)
    {reply : Reply} (h : Controlled S reply) : Controlled T reply := fun opcode payload hr hop =>
  (h opcode payload hr hop).imp_right fun ⟨hpong, hs⟩ => ⟨hpong, hST payload hs⟩

theorem controlled_switching (accept : String) (protocol : Option String) :
    Controlled S (.switching accept protocol) := nofun

theorem controlled_pong (h : S payload) : Controlled S (.frame .pong payload) := by
  rintro _ _ ⟨⟩ _
  exact .inr ⟨rfl, h⟩

theorem controlled_of_kind {kind : MessageKind} {opcode : Opcode} (h : kind.opcode? = some opcode)
    (payload : Bytes) : Controlled S (.frame opcode payload) := by
  rintro _ _ ⟨⟩ hop
  cases kind <;> cases h <;> cases hop

theorem controlled_goodbye? {phase : Phase} {termination : Termination} {reply : Reply}
    (h : goodbye? phase termination = some reply) : Controlled S reply := by
  unfold goodbye? at h
  split at h
  · next code reason =>
    cases h
    rintro _ _ ⟨⟩ _
    exact .inl ⟨rfl, code.length_payload_le reason⟩
  · cases h
    exact nofun
  · cases h

/-! ### The client's side -/

theorem takeLine_told (router : Router σ) (line : Bytes) (c : Connection σ) :
    Told (Controlled S) c (c.takeLine router line).2 := by
  unfold takeLine
  split
  · split <;> exact .of_eq rfl
  · split
    · exact .of_eq rfl
    · exact .of_eq rfl
    · unfold upgrade
      split
      · exact .of_eq rfl
      · split
        · exact .of_eq rfl
        · split
          all_goals
            next hoffer => exact .offer (controlled_switching _ _) (by rw [hoffer])

theorem lineStep_told : Told (Controlled S) c (c.lineStep router).state := by
  unfold lineStep
  split
  · exact .of_eq rfl
  · next line rest _ =>
    have htold := takeLine_told (S := S) router line { c with clientBuffer := rest }
    split
    all_goals
      next htake =>
      rw [htake] at htold
      exact htold

/-- An answer to a frame is an answer to a ping. -/
theorem frameStep_told (hphase : c.phase = .relaying) :
    Told (Controlled (Pinged c)) c c.frameStep.state := by
  cases hp : Frame.Header.parse? c.clientBuffer with
  | none =>
      rw [frameStep_unparsed hp]
      exact .of_eq rfl
  | some header =>
      by_cases hlong : bufferCapacity < header.frameLength
      · rw [frameStep_tooLong hp hlong]
        exact .of_eq rfl
      · cases hdecode : Frame.decode? c.clientBuffer with
        | none =>
            rw [frameStep_undecoded hp hlong hdecode]
            exact .of_eq rfl
        | some p =>
            obtain ⟨frame, buffer⟩ := p
            rw [frameStep_decoded hp hlong hdecode, useFrame]
            cases hi : intent frame.header with
            | error _ => exact .of_eq rfl
            | ok i =>
                dsimp only
                cases i with
                | forward =>
                    simp only [act, sendToPeer]
                    cases c.peer with
                    | none => exact .of_eq rfl
                    | some socket =>
                        dsimp only
                        rcases socket.send frame.payload c.toPeer with ⟨_ | _, outlet⟩
                        all_goals exact .of_eq rfl
                | pong =>
                    obtain ⟨hop, hfin, hmask⟩ := intent_eq_pong_iff.mp hi
                    have hping : Pinged c frame.payload :=
                      ⟨hphase, frame, buffer, hdecode, hop, hfin, hmask, rfl⟩
                    simp only [act]
                    rcases ho : c.toClient.offer (.frame .pong frame.payload) with ⟨_ | _, outlet⟩
                    all_goals exact .offer (controlled_pong hping) (by rw [ho]; rfl)
                | ignore => exact .of_eq rfl
                | close => exact .of_eq rfl

theorem useStep_told : Told (Controlled (Pinged c)) c (c.useStep router).state := by
  unfold useStep
  cases hphase : c.phase with
  | requestLine => exact lineStep_told
  | headers => exact lineStep_told
  | relaying => exact frameStep_told hphase
  | closed => exact .of_eq rfl

/-- An answer to a frame answers a ping that comes to the front while the buffer is used. -/
theorem useClientBuffer_told (router : Router σ) (c : Connection σ) :
    Told (Controlled fun payload => ∃ e, Loop.Visits (useStep router) c e ∧ Pinged e payload) c
      (useClientBuffer router c).2 :=
  Loop.run_visited (R := Told _) (fun _ => .of_eq rfl) (fun _ _ _ => .trans) _ c
    fun e hvisits => useStep_told.mono fun _ => .mono fun _ hping => ⟨e, hvisits, hping⟩

theorem readClient_told (c : Connection σ) :
    Told (Controlled fun payload => ∃ e, LooksAtClient router c e ∧ Pinged e payload) c
      (c.readClient router).2 := by
  refine Loop.run_visited (R := fun s t : Inlet × Connection σ => Told _ s.2 t.2)
    (fun _ => .of_eq rfl) (fun _ _ _ => .trans) (clientStep_descends router) (c.fromClient, c) ?_
  rintro ⟨inlet, e⟩ hvisits
  dsimp only
  unfold clientStep
  dsimp only
  split
  · exact .of_eq rfl
  · exact .of_eq rfl
  · exact .of_eq rfl
  · next b bytes rest hread =>
    have huse := useClientBuffer_told router
      { e with clientBuffer := e.clientBuffer ++ b :: bytes }
    have htold := huse.mono (Q := Controlled fun payload =>
        ∃ e, LooksAtClient router c e ∧ Pinged e payload)
      fun _ => .mono fun _ ⟨f, hf, hping⟩ =>
        ⟨f, ⟨inlet, b :: bytes, rest, e, hvisits, hread, List.cons_ne_nil _ _, hf⟩, hping⟩
    split
    · next hused =>
      rw [hused] at htold
      split <;> exact htold
    · next hused =>
      rw [hused] at htold
      exact htold

/-! ### All operations -/

theorem PeerMoves.told (h : PeerMoves c d) : Told (Controlled S) c d := by
  induction h with
  | refl => exact .of_eq rfl
  | tail _ hm ih =>
      refine ih.trans ?_
      cases hm with
      | message kind payload hroute hkind => exact .offer (controlled_of_kind hkind payload) rfl
      | _ => exact .of_eq rfl

theorem close_told (termination : Termination) (c : Connection σ) :
    Told (Controlled S) c (c.close termination) := by
  unfold close
  split
  · exact .of_eq rfl
  · cases h : goodbye? c.phase termination with
    | none => exact .of_eq rfl
    | some reply => exact .offer (controlled_goodbye? h) rfl

theorem apply_told (op : Operation σ) (ops : List (Operation σ)) (c : Connection σ) :
    Told (Controlled (MeetsPing (op :: ops) c)) c (op.apply c).2 := by
  cases op with
  | readClient router dial =>
      exact (readClient_told { c with dial }).mono fun _ => .mono fun _ ⟨e, hlooks, hping⟩ =>
        ⟨[], router, dial, ops, e, rfl, hlooks, hping⟩
  | readPeer =>
      show Told _ c c.readPeer.2
      cases hpeer : c.peer with
      | none =>
          rw [readPeer, hpeer]
          exact .of_eq rfl
      | some socket =>
          obtain ⟨d, after, hmoves, hd⟩ := readPeer_moves hpeer
          rw [hd]
          exact hmoves.told
  | close termination => exact close_told termination c
  | release => exact .of_eq rfl
  | beginWatch side watch => cases side <;> exact .of_eq rfl
  | endWatch side => cases side <;> exact .of_eq rfl
  | arrive side bytes => cases side <;> exact .of_eq rfl
  | hangUp side tail => cases side <;> exact .of_eq rfl

theorem run_told (ops : List (Operation σ)) (c : Connection σ) :
    Told (Controlled (MeetsPing ops c)) c (run ops c).2 := by
  induction ops generalizing c with
  | nil => exact .of_eq rfl
  | cons op ops ih =>
      exact (apply_told op ops c).trans ((ih (op.apply c).2).mono fun _ => .mono fun _ => .cons)

/-! ### Every ping is answered -/

/-- If the client's socket takes what is written, the pong is sent in the end. -/
theorem readClient_pongs (hlooks : LooksAtClient router c e) (hping : Pinged e payload)
    (hfits : e.clientBuffer.length ≤ bufferCapacity) (htakes : e.toClient.TakesAll) :
    .frame .pong payload ∈ (c.readClient router).2.toClient.taken := by
  obtain ⟨inlet, bytes, rest, d, hvisits, hread, hne, huse⟩ := hlooks
  -- it is sent at once, and what is sent stays sent while the buffer is used and more is read
  have hsent : .frame .pong payload ∈ (e.useStep router).state.toClient.taken := by
    rw [hping.useStep hfits, htakes.offer]
    exact List.mem_reverse.mpr List.mem_cons_self
  have hused : .frame .pong payload ∈
      (useClientBuffer router
        { d with clientBuffer := d.clientBuffer ++ bytes }).2.toClient.taken :=
    (huse.related_run (R := ClientMoves) (fun _ => .refl) (fun _ _ _ => .trans)
      (useStep_moves router) (useStep_descends router)).moves.prefix_taken.subset hsent
  have hstep : (clientStep router (inlet, d)).state.2.toClient = (useClientBuffer router
      { d with clientBuffer := d.clientBuffer ++ bytes }).2.toClient := by
    obtain ⟨b, bytes, rfl⟩ := List.exists_cons_of_ne_nil hne
    unfold clientRoom at hread
    simp only [clientStep, hread]
    split
    · next hu =>
      rw [hu]
      split <;> rfl
    · next hu =>
      rw [hu]
      rfl
  rw [← hstep] at hused
  exact (hvisits.related_run (R := fun s t => ClientMoves s.2 t.2) (fun _ => .refl)
    (fun _ _ _ => .trans) (fun s => (clientStep_reads router s).moves)
    (clientStep_descends router)).moves.prefix_taken.subset hused

/-- **The control frames a client is sent** are close frames, whose payload is as short as RFC 6455
§5.5 demands, and pongs.  Every pong carries the whole payload of a ping that came to the front of
the client's buffer, which can be anything up to eight bytes less than the buffer holds.  If the
client's socket takes what is written, every ping that comes there is answered so. -/
theorem run_control (id : SlotId) (address : String)
    (dial : Endpoint → Except IoFault PeerSocket) (accepts : Nat → Bool) (toPeer : Outlet Bytes)
    (ops : List (Operation σ)) :
    let start : Connection σ := fresh id address dial { accepts } toPeer
    let sent := (run ops start).2.toClient.taken
    (∀ opcode payload, .frame opcode payload ∈ sent → opcode.isControl →
      (opcode = .close ∧ payload.length ≤ CloseCode.controlLimit) ∨
        (opcode = .pong ∧ MeetsPing ops start payload ∧ payload.length + 8 ≤ bufferCapacity)) ∧
    ((∀ n, accepts n = true) → ∀ payload, MeetsPing ops start payload →
      .frame .pong payload ∈ sent) := by
  intro start sent
  have hstart : Coherent start := coherent_fresh id address dial { accepts } toPeer
  have hreach {before : List (Operation σ)} {router : Router σ}
      {dial : Endpoint → Except IoFault PeerSocket} {e : Connection σ}
      (h : LooksAtClient router { (run before start).2 with dial } e) : Moves start e :=
    ((run_moves before start).tail (setDial_move dial _)).trans h.moves.moves
  refine ⟨fun opcode payload hsent hop => ?_, fun htakes payload hmeets => ?_⟩
  · have htold := (run_told ops start _ hsent).resolve_left List.not_mem_nil
    refine (htold opcode payload rfl hop).imp_right fun ⟨hpong, hmeets⟩ => ⟨hpong, hmeets, ?_⟩
    obtain ⟨before, router, dial, after, e, -, hlooks, hping⟩ := hmeets
    exact hping.length_le ((hreach hlooks).coherent hstart).clientFits
  · obtain ⟨before, router, dial, after, e, rfl, hlooks, hping⟩ := hmeets
    have hpong := readClient_pongs hlooks hping ((hreach hlooks).coherent hstart).clientFits
      ((hreach hlooks).takesAll htakes)
    have hlater : Moves ({ (run before start).2 with dial }.readClient router).2
        (run (before ++ .readClient router dial :: after) start).2 := by
      rw [run_append]
      exact run_moves after _
    exact hlater.prefix_taken.subset hpong

/-- A ping of 126 bytes after an opening handshake. -/
theorem run_control_long :
    let route : Route Unit :=
      { transport := .unixStream, host := "socket", framing := ⟨"auto", Framing.auto⟩ }
    let router : Router Unit := fun _ => some route
    let dial : Endpoint → Except IoFault PeerSocket := fun _ => .ok (.stream {})
    let request := Utf8.encode ("GET / HTTP/1.1\r\nSec-WebSocket-Version: 13\r\n" ++
      "Sec-WebSocket-Key: key\r\nUpgrade: websocket\r\nConnection: Upgrade\r\n\r\n")
    let ping : Bytes := [0x89, 0xFE, 0, 126, 0, 0, 0, 0] ++ List.replicate 126 112
    let ops : List (Operation Unit) := [.arrive .client request, .readClient router dial,
      .arrive .client ping, .readClient router dial]
    ¬ ∀ opcode payload, .frame opcode payload ∈
        (run ops (fresh ⟨0, 0⟩ "" dial {} {})).2.toClient.taken →
      opcode.isControl → payload.length ≤ CloseCode.controlLimit := by
  intro route router dial request ping ops hlimit
  have hsent : .frame .pong (List.replicate 126 112) ∈
      (run ops (fresh ⟨0, 0⟩ "" dial {} {})).2.toClient.taken := by decide +kernel
  have hlength := hlimit .pong _ hsent rfl
  rw [List.length_replicate] at hlength
  exact absurd hlength (by decide)

end Connection

end WsRelay
