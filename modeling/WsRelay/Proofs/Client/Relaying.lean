import WsRelay.Proofs.Client.Intake
import WsRelay.Proofs.Client.Interpreter
/-! # What a client's frames lead to

After the upgrade, and as long as what is sent is taken, a connection does with a client's bytes
what `Frame.interpreter` says (`hearClient_interprets`).  One frame is the work of `frameStep_wait`,
`frameStep_stop` and `frameStep_pass`, one for each ruling; so the loop over the buffer performs
what the interpreter says (`performs_useStep`), and what arrives in pieces keeps to the account
`relayed` of the whole stream. -/

namespace WsRelay

namespace Frame

variable {h : Header}

theorem Header.lt_frameLength_iff :
    bufferCapacity < h.frameLength ↔ bufferCapacity < h.length + h.payloadLength := by
  have : bufferCapacity < Header.lengthLimit := by decide
  unfold Header.frameLength
  omega

theorem Header.frameLength_eq (hle : h.length + h.payloadLength ≤ bufferCapacity) :
    h.frameLength = h.length + h.payloadLength := by
  have : bufferCapacity < Header.lengthLimit := by decide
  unfold Header.frameLength
  omega

end Frame

namespace Connection

/-- The opcodes of the frames that ask for something. -/
def Intent.opcodes : Intent → List UInt8
  | forward => [1, 2]
  | pong => [9]
  | ignore => [10]
  | close => [8]

/-- What a frame is taken to ask for goes by its opcode. -/
theorem opcode_of_intent {h : Frame.Header} {i : Intent} (hi : intent h = .ok i) :
    h.opcode ∈ i.opcodes := by
  unfold intent at hi
  split at hi
  · cases hi
  · split at hi
    · cases hi
    · next op hop =>
      rw [Opcode.ofValue?_eq_some_iff] at hop
      split at hi
      · rw [hop]
        cases op <;> cases hi <;> decide
      · cases hi

/-- The ruling on a frame that has arrived in full is what the frame is taken to ask for. -/
theorem rulingOn_eq (h : Frame.Header) (payload : Bytes) :
    Frame.rulingOn h payload =
      match intent h with
      | .error e => .stop e.termination
      | .ok .close => .stop (.close .normal "Client requested termination")
      | .ok _ => .pass ⟨h.opcode, Frame.unmask h.mask payload⟩ (h.length + h.payloadLength) := by
  unfold Frame.rulingOn intent
  cases h.mask with
  | none => rfl
  | some key =>
      dsimp only [Option.isNone]
      rw [if_neg Bool.false_ne_true]
      cases hv : Opcode.ofValue? h.opcode with
      | none => rw [if_pos (Opcode.ofValue?_eq_none_iff.mp hv)]; rfl
      | some op =>
          have hmem : ¬ h.opcode ∉ ([0, 1, 2, 8, 9, 10] : List UInt8) := by
            rw [← Opcode.ofValue?_eq_none_iff, hv]
            exact Option.some_ne_none op
          rw [if_neg hmem]
          rw [Opcode.ofValue?_eq_some_iff] at hv
          rw [hv]
          cases h.fin <;> cases op <;> rfl

/-- A frame that is passed asks for something else than the end. -/
theorem intent_of_rulingOn_pass {h : Frame.Header} {payload : Bytes} {p : Frame.Passed} {n : Nat}
    (hr : Frame.rulingOn h payload = .pass p n) : ∃ i, intent h = .ok i ∧ i ≠ .close ∧
      p = ⟨h.opcode, Frame.unmask h.mask payload⟩ ∧ n = h.length + h.payloadLength := by
  rw [rulingOn_eq] at hr
  cases hi : intent h with
  | error e =>
      rw [hi] at hr
      cases hr
  | ok i =>
      rw [hi] at hr
      refine ⟨i, rfl, ?_⟩
      cases i with
      | close => cases hr
      | forward => cases hr; exact ⟨nofun, rfl, rfl⟩
      | pong => cases hr; exact ⟨nofun, rfl, rfl⟩
      | ignore => cases hr; exact ⟨nofun, rfl, rfl⟩

/-! ### One frame -/

variable {σ : Type}

/-- The connection relays frames, and what it sends is taken. -/
structure Relaying (c : Connection σ) : Prop where
  phase : c.phase = .relaying
  peer : ∃ socket, c.peer = some socket ∧ ∀ inlet, socket ≠ .pipeOut inlet
  toClient : c.toClient.TakesAll
  toPeer : c.toPeer.TakesAll

/-- The frames of a client: the messages go to the peer, and a ping is answered with a pong. -/
def frameLedger : Ledger (Connection σ) Frame.Passed (List Bytes × List Reply) where
  buffer := clientBuffer
  noted c := (c.toPeer.taken, c.toClient.taken)
  note sent frames :=
    (sent.1 ++ frames.filterMap Frame.Passed.message?,
      sent.2 ++ (frames.filterMap Frame.Passed.ping?).map (.frame .pong))
  note_nil sent := Prod.ext (List.append_nil _) (List.append_nil _)
  note_append sent xs ys := by
    simp only [List.filterMap_append, List.map_append, List.append_assoc]

variable {c d : Connection σ} {p : Frame.Passed} {n : Nat} {t : Termination}

/-- A frame that does not ask for the end is dealt with as its opcode says. -/
theorem act_of_relaying (hc : Relaying c) {i : Intent} (hi : i ≠ .close)
    (hop : p.opcode ∈ i.opcodes) :
    ∃ d, act p.payload c i = (.ok .continue, d) ∧ Relaying d ∧ frameLedger.Notes c [p] d := by
  obtain ⟨op, payload⟩ := p
  obtain ⟨socket, hsocket, hwrite⟩ := hc.peer
  cases i with
  | forward =>
      obtain ⟨after, hsend, hall, htaken⟩ :=
        PeerSocket.send_of_takesAll payload hwrite hc.toPeer
      refine ⟨{ c with toPeer := after }, ?_,
        ⟨hc.phase, ⟨socket, hsocket, hwrite⟩, hc.toClient, hall⟩, ?_⟩
      · simp only [act, sendToPeer, hsocket, hsend]
      · simp only [Intent.opcodes, List.mem_cons, List.not_mem_nil, or_false] at hop
        rcases hop with rfl | rfl
        · exact Prod.ext htaken (List.append_nil _).symm
        · exact Prod.ext htaken (List.append_nil _).symm
  | pong =>
      refine ⟨{ c with toClient := (c.toClient.offer (.frame .pong payload)).2 }, ?_,
        ⟨hc.phase, hc.peer, ?_, hc.toPeer⟩, ?_⟩
      · simp only [act, hc.toClient.offer]
      · rw [hc.toClient.offer]
        exact hc.toClient
      · simp only [Intent.opcodes, List.mem_cons, List.not_mem_nil, or_false] at hop
        subst hop
        refine Prod.ext (List.append_nil _).symm ?_
        show (c.toClient.offer _).2.taken = _
        rw [Outlet.taken_offer, hc.toClient.offer]
        rfl
  | ignore =>
      refine ⟨c, rfl, hc, ?_⟩
      simp only [Intent.opcodes, List.mem_cons, List.not_mem_nil, or_false] at hop
      subst hop
      exact Prod.ext (List.append_nil _).symm (List.append_nil _).symm
  | close => exact absurd rfl hi

theorem frameStep_wait (hr : Frame.ruling c.clientBuffer = .wait) :
    c.frameStep = .done (.ok .continue, c) := by
  unfold Frame.ruling at hr
  cases hp : Frame.Header.parse? c.clientBuffer with
  | none => exact frameStep_unparsed hp
  | some h =>
      rw [hp] at hr
      dsimp only at hr
      split at hr
      · cases hr
      · next hlong =>
        split at hr
        · next hlt =>
          refine frameStep_undecoded hp (by rwa [Frame.Header.lt_frameLength_iff]) ?_
          exact Frame.decode?_of_lt hp (by rwa [Frame.Header.frameLength_eq (by omega)])
        · exact absurd hr (Frame.rulingOn_ne_wait _)

/-- A frame that has arrived in full is decoded, and done with what it asks for. -/
theorem frameStep_complete {h : Frame.Header} (hp : Frame.Header.parse? c.clientBuffer = some h)
    (hshort : h.length + h.payloadLength ≤ bufferCapacity)
    (hall : h.length + h.payloadLength ≤ c.clientBuffer.length) :
    ∃ buffer, buffer.drop (h.length + h.payloadLength) =
        c.clientBuffer.drop (h.length + h.payloadLength) ∧
      c.frameStep =
        useFrame ⟨h, Frame.unmask h.mask ((c.clientBuffer.drop h.length).take h.payloadLength),
          h.length + h.payloadLength⟩ { c with clientBuffer := buffer } := by
  have hlen := Frame.Header.frameLength_eq hshort
  have hd := Frame.decode?_of_le hp (by rwa [hlen])
  have hdrop := Frame.drop_decoded hd
  have hfits : ¬ bufferCapacity < h.frameLength := by
    rw [hlen]
    omega
  have hstep := frameStep_decoded hp hfits hd
  dsimp only at hdrop
  rw [hlen] at hdrop hstep
  rw [List.drop_take, Nat.add_sub_cancel_left] at hdrop hstep
  exact ⟨_, hdrop, hstep⟩

theorem frameStep_stop (hr : Frame.ruling c.clientBuffer = .stop t) :
    ∃ o d, c.frameStep = .done (o, d) ∧ o.verdict = .close t ∧
      d.toClient = c.toClient ∧ d.toPeer = c.toPeer := by
  have hwait : Frame.ruling c.clientBuffer ≠ .wait := by
    rw [hr]
    exact fun h => by cases h
  obtain ⟨h, hp, ⟨hlong, hstop⟩ | ⟨hshort, hall, hon⟩⟩ := Frame.ruling_cases hwait
  · rw [hstop] at hr
    cases hr
    have hlong := Frame.Header.lt_frameLength_iff.mpr hlong
    exact ⟨_, _, frameStep_tooLong hp hlong, rfl, rfl, rfl⟩
  · obtain ⟨buffer, -, hstep⟩ := frameStep_complete hp hshort hall
    rw [hon, rulingOn_eq] at hr
    rw [hstep, useFrame]
    cases hi : intent h with
    | error e =>
        rw [hi] at hr
        cases hr
        exact ⟨_, _, rfl, rfl, rfl, rfl⟩
    | ok i =>
        rw [hi] at hr
        cases i with
        | close =>
            cases hr
            exact ⟨_, _, rfl, rfl, rfl, rfl⟩
        | forward => cases hr
        | pong => cases hr
        | ignore => cases hr

/-- A frame that is passed is decoded, and dealt with as its opcode says. -/
theorem frameStep_act (hr : Frame.ruling c.clientBuffer = .pass p n) :
    ∃ buffer i, i ≠ .close ∧ p.opcode ∈ i.opcodes ∧
      ∀ d, act p.payload { c with clientBuffer := buffer } i = (.ok .continue, d) →
        c.frameStep = .again (d.dropFrame n) ∧
        (d.dropFrame n).clientBuffer = c.clientBuffer.drop n := by
  have hwait : Frame.ruling c.clientBuffer ≠ .wait := by
    rw [hr]
    exact fun h => by cases h
  obtain ⟨h, hp, ⟨-, hstop⟩ | ⟨hshort, hall, hon⟩⟩ := Frame.ruling_cases hwait
  · rw [hstop] at hr
    cases hr
  · obtain ⟨buffer, hdrop, hstep⟩ := frameStep_complete hp hshort hall
    obtain ⟨i, hi, hclose, rfl, rfl⟩ := intent_of_rulingOn_pass (hon.symm.trans hr)
    refine ⟨buffer, i, hclose, opcode_of_intent hi, fun d hact => ?_⟩
    have hbuffer := act_clientBuffer
      (Frame.unmask h.mask ((c.clientBuffer.drop h.length).take h.payloadLength))
      { c with clientBuffer := buffer } i
    rw [hstep, useFrame, hi]
    dsimp only at hact ⊢
    rw [hact] at hbuffer ⊢
    refine ⟨rfl, ?_⟩
    show d.clientBuffer.drop _ = _
    rw [hbuffer]
    exact hdrop

variable (router : Router σ)

/-- From the upgrade on, what is in the buffer is used frame by frame. -/
theorem useStep_frame (hphase : c.phase = .relaying) : c.useStep router = c.frameStep := by
  rw [useStep, hphase]

/-- A buffer that is waited on is left as it is, and has room. -/
theorem useStep_wait (hphase : c.phase = .relaying) (hr : Frame.ruling c.clientBuffer = .wait) :
    c.useStep router = .done (.ok .continue, c) ∧
      afterUse (.ok .continue, c) = (.continue, c) := by
  have hroom : checkRoom (.ok .continue, c) = (.ok .continue, c) :=
    if_neg (Nat.ne_of_lt (Frame.length_lt_of_wait hr))
  constructor
  · rw [useStep_frame router hphase]
    exact frameStep_wait hr
  · rw [afterUse, hroom]
    rfl

/-- A frame that ends the connection leads to nothing else. -/
theorem useStep_stop (hphase : c.phase = .relaying) (hr : Frame.ruling c.clientBuffer = .stop t) :
    ∃ result, c.useStep router = .done result ∧ (afterUse result).1 = .close t ∧
      (afterUse result).2.toClient = c.toClient ∧ (afterUse result).2.toPeer = c.toPeer := by
  obtain ⟨o, d, hframe, ho, htc, htp⟩ := frameStep_stop hr
  have hstep : c.useStep router = .done (o, d) := (useStep_frame router hphase).trans hframe
  have hne : o ≠ .ok .continue := by
    rintro rfl
    cases ho
  refine ⟨_, hstep, ?_⟩
  rw [afterUse, checkRoom_of_ne d hne]
  exact ⟨ho, htc, htp⟩

/-- The account of a client's stream: it is interpreted as frames. -/
def relayed : Account (Connection σ) (Verdict × (List Bytes × List Reply) × Option Bytes) :=
  frameLedger.account Frame.interpreter fun c _ => Relaying c

end Connection

end WsRelay
