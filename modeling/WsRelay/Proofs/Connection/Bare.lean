import WsRelay.Proofs.Connection.Directions
import WsRelay.Proofs.Gateway.Incidents
/-! # Connections without what a gateway gives them

A connection makes of an incident what it would make of it without its identifier and its waits, as
long as nobody looks at the identifier to find its peer (`apply_bare`); and it ends the same way
(`close_bare`). -/

namespace WsRelay

/-! ### Loops that run side by side -/

/-- A step with another state, or another result. -/
def Step.map {α β : Type} (f : α → α) (g : β → β) : Step α β → Step α β
  | .again a => .again (f a)
  | .done r => .done (g r)

/-- If every repetition is the same from other states, so is a loop. -/
theorem Loop.run_map {α β : Type} {measure : α → Nat} {step : α → Step α β} {f : α → α} {g : β → β}
    (hstep : ∀ a, step (f a) = (step a).map f g)
    (descends : ∀ a b, step a = .again b → measure b < measure a) (a : α) :
    run measure step descends (f a) = g (run measure step descends a) := by
  refine Loop.run_alike (R := fun a b => b = f a) (S := fun r s => s = g r) ?_ descends rfl
  rintro a _ rfl
  rw [hstep]
  cases step a with
  | again b => exact .again rfl
  | done r => exact .done rfl

namespace Connection

variable {σ : Type}

/-- A result with the connection bare. -/
def bareResult {ω : Type} : ω × Connection σ → ω × Connection σ
  | (outcome, c) => (outcome, c.bare)

/-- A state of a loop that reads, with the connection bare. -/
def bareReading {ω ι : Type} : ω × ι × Connection σ → ω × ι × Connection σ
  | (outcome, inlet, c) => (outcome, inlet, c.bare)

/-- The connection's identifier makes no difference to where it goes. -/
def IgnoresId (router : Router σ) : Prop :=
  ∀ enquiry id, router { enquiry with id } = router enquiry

/-- What a client was sent goes with the phase, whatever the gateway has given the connection. -/
theorem Spoken.of_bare_eq {c d : Connection σ} (hc : Spoken c) (h : d.bare = c.bare) :
    Spoken d := by
  have hbare : Spoken d.bare := by
    rw [h]
    exact hc
  exact hbare

variable {router : Router σ} (hrouter : IgnoresId router) (c : Connection σ)

/-! ### The client's side -/

include hrouter in
theorem connectPeer_bare : c.bare.connectPeer router = c.connectPeer router := by
  have henquiry : router c.bare.enquiry = router c.enquiry := hrouter c.enquiry ⟨0, 0⟩
  unfold connectPeer
  rw [henquiry]
  rfl

include hrouter in
theorem upgrade_bare : c.bare.upgrade router = bareResult (c.upgrade router) := by
  unfold upgrade
  rw [connectPeer_bare hrouter, bare_request, bare_toClient]
  cases c.request.grant with
  | error e => rfl
  | ok key =>
      rcases c.connectPeer router with e | ⟨route, socket⟩
      · rfl
      · dsimp only
        rcases c.toClient.offer _ with ⟨_ | _, outlet⟩ <;> rfl

include hrouter in
theorem takeLine_bare (line : Bytes) :
    c.bare.takeLine router line = bareResult (c.takeLine router line) := by
  unfold takeLine
  rw [upgrade_bare hrouter, bare_phase, bare_request]
  split
  · cases Handshake.path? line <;> rfl
  · rcases c.request.feed line with e | request | _ <;> rfl

include hrouter in
theorem lineStep_bare : c.bare.lineStep router = (c.lineStep router).map bare bareResult := by
  unfold lineStep
  rw [bare_clientBuffer]
  rcases Bytes.splitLine? c.clientBuffer with - | ⟨line, rest⟩
  · rfl
  · have hrest : { c.bare with clientBuffer := rest } = { c with clientBuffer := rest }.bare := rfl
    dsimp only
    rw [hrest, takeLine_bare hrouter]
    rcases takeLine router line { c with clientBuffer := rest } with ⟨_ | _, d⟩ <;> rfl

theorem sendToPeer_bare (payload : Bytes) :
    c.bare.sendToPeer payload = bareResult (c.sendToPeer payload) := by
  unfold sendToPeer
  rw [bare_peer, bare_toPeer]
  rcases c.peer with - | socket
  · rfl
  · dsimp only
    rcases socket.send payload c.toPeer with ⟨_ | _, outlet⟩ <;> rfl

theorem act_bare (payload : Bytes) (i : Intent) :
    act payload c.bare i = bareResult (act payload c i) := by
  cases i with
  | forward =>
      simp only [act]
      rw [sendToPeer_bare]
      rcases c.sendToPeer payload with ⟨_ | _, d⟩ <;> rfl
  | pong =>
      simp only [act, bare_toClient]
      rcases c.toClient.offer (.frame .pong payload) with ⟨_ | _, outlet⟩ <;> rfl
  | ignore => rfl
  | close => rfl

theorem useFrame_bare (frame : Frame.Decoded) :
    useFrame frame c.bare = (useFrame frame c).map bare bareResult := by
  unfold useFrame
  cases intent frame.header with
  | error e => rfl
  | ok i =>
      dsimp only
      rw [act_bare]
      rcases act frame.payload c i with ⟨e | _ | t, d⟩
      · rfl
      · rfl
      · dsimp only [bareResult]
        split <;> rfl

theorem frameStep_bare : c.bare.frameStep = c.frameStep.map bare bareResult := by
  cases hp : Frame.Header.parse? c.clientBuffer with
  | none =>
      rw [frameStep_unparsed hp, frameStep_unparsed (c := c.bare) hp]
      rfl
  | some header =>
      by_cases hlong : bufferCapacity < header.frameLength
      · rw [frameStep_tooLong hp hlong, frameStep_tooLong (c := c.bare) hp hlong]
        rfl
      · cases hd : Frame.decode? c.clientBuffer with
        | none =>
            rw [frameStep_undecoded hp hlong hd, frameStep_undecoded (c := c.bare) hp hlong hd]
            rfl
        | some p =>
            obtain ⟨frame, buffer⟩ := p
            rw [frameStep_decoded hp hlong hd, frameStep_decoded (c := c.bare) hp hlong hd]
            exact useFrame_bare { c with clientBuffer := buffer } frame

include hrouter in
theorem useStep_bare : c.bare.useStep router = (c.useStep router).map bare bareResult := by
  unfold useStep
  rw [bare_phase]
  cases c.phase with
  | requestLine => exact lineStep_bare hrouter c
  | headers => exact lineStep_bare hrouter c
  | relaying => exact frameStep_bare c
  | closed => rfl

include hrouter in
theorem useClientBuffer_bare :
    useClientBuffer router c.bare = bareResult (useClientBuffer router c) :=
  Loop.run_map (useStep_bare hrouter) _ c

include hrouter in
theorem clientStep_bare (inlet : Inlet) :
    clientStep router (inlet, c.bare) =
      (clientStep router (inlet, c)).map bareResult bareReading := by
  simp only [clientStep, bare_clientBuffer]
  rcases inlet.read (bufferCapacity - c.clientBuffer.length) with ⟨(_ | ⟨b, bytes⟩) | _ | _, rest⟩
  · rfl
  · have hread : { c.bare with clientBuffer := c.clientBuffer ++ b :: bytes } =
        { c with clientBuffer := c.clientBuffer ++ b :: bytes }.bare := rfl
    dsimp only
    rw [hread, useClientBuffer_bare hrouter]
    rcases useClientBuffer router { c with clientBuffer := c.clientBuffer ++ b :: bytes } with
      ⟨e | _ | t, d⟩
    · rfl
    · dsimp only [bareResult]
      rw [bare_clientBuffer]
      split <;> rfl
    · rfl
  · rfl
  · rfl

include hrouter in
theorem readClient_bare : c.bare.readClient router = bareResult (c.readClient router) := by
  have htake : takeFromClient router (c.fromClient, c.bare) =
      bareReading (takeFromClient router (c.fromClient, c)) :=
    Loop.run_map (f := bareResult) (fun s => clientStep_bare hrouter s.2 s.1) _ (c.fromClient, c)
  unfold readClient
  rw [bare_fromClient, htake]
  rfl

/-! ### The peer's side -/

theorem useCut_bare (route : Route σ) (cut : Cut) :
    useCut route cut c.bare = (useCut route cut c).map bare bareResult := by
  unfold useCut
  rw [bare_peerBuffer, bare_toClient]
  split
  · rfl
  · split
    · rfl
    · rcases cut.kind.opcode? with - | opcode
      · rfl
      · dsimp only
        rcases c.toClient.offer _ with ⟨_ | _, outlet⟩ <;> rfl

theorem forwardStep_bare (lastRead : Nat) :
    c.bare.forwardStep lastRead = (c.forwardStep lastRead).map bare bareResult := by
  by_cases hidle : c.route = none ∨ c.peerBuffer = []
  · rw [forwardStep_idle hidle, forwardStep_idle (c := c.bare) hidle]
    rfl
  · obtain ⟨hsome, hne⟩ := not_or.mp hidle
    obtain ⟨route, hroute⟩ := Option.ne_none_iff_exists'.mp hsome
    rw [forwardStep_asked hroute hne, forwardStep_asked (c := c.bare) hroute hne]
    have hanswer : c.bare.answer route lastRead = c.answer route lastRead := rfl
    rw [hanswer]
    rcases c.answer route lastRead with ⟨cause | cut, memory⟩
    · rfl
    · exact useCut_bare { c with memory } route cut

theorem takePeerBytes_bare (bytes : Bytes) :
    takePeerBytes bytes c.bare = bareResult (takePeerBytes bytes c) := by
  have hread : { c.bare with peerBuffer := c.peerBuffer ++ bytes } =
      { c with peerBuffer := c.peerBuffer ++ bytes }.bare := rfl
  have hforward (d : Connection σ) :
      forward bytes.length d.bare = bareResult (forward bytes.length d) :=
    Loop.run_map (fun d => forwardStep_bare d bytes.length) _ d
  unfold takePeerBytes
  rw [bare_peerBuffer, hread, hforward]
  rcases forward bytes.length { c with peerBuffer := c.peerBuffer ++ bytes } with ⟨_ | _, d⟩ <;> rfl

theorem peerStep_bare (socket : PeerSocket) :
    peerStep (socket, c.bare) = (peerStep (socket, c)).map bareResult bareReading := by
  simp only [peerStep]
  rw [bare_peerBuffer]
  rcases socket.read (bufferCapacity - c.peerBuffer.length) with ⟨bytes | _ | _, rest⟩
  · dsimp only
    rw [takePeerBytes_bare]
    by_cases hended : bytes = [] ∧ ¬ socket.isDatagram
    · rw [if_pos hended, if_pos hended]
      rfl
    · rw [if_neg hended, if_neg hended]
      by_cases hcut : bytes.length = bufferCapacity - c.peerBuffer.length ∧ socket.isDatagram
      · rw [if_pos hcut, if_pos hcut]
        rfl
      · rw [if_neg hcut, if_neg hcut]
        rcases takePeerBytes bytes c with ⟨_ | _, d⟩ <;> rfl
  · rfl
  · rfl

theorem readPeer_bare : c.bare.readPeer = bareResult c.readPeer := by
  unfold readPeer
  rw [bare_peer]
  rcases c.peer with - | socket
  · rfl
  · have htake : takeFromPeer (socket, c.bare) = bareReading (takeFromPeer (socket, c)) :=
      Loop.run_map (f := bareResult) (fun s => peerStep_bare s.2 s.1) _ (socket, c)
    dsimp only
    rw [htake]
    rfl

/-! ### Incidents -/

include hrouter in
theorem handle_bare (side : Side) (fault : Option IoFault) :
    Gateway.handle router side fault c.bare = bareResult (Gateway.handle router side fault c) := by
  cases fault with
  | some fault => rfl
  | none =>
      cases side with
      | client => exact readClient_bare hrouter c
      | peer => exact readPeer_bare c

include hrouter in
/-- What a connection makes of an incident, it makes of it without what the gateway gives it. -/
theorem apply_bare (incident : Incident) :
    incident.apply router c.bare = bareResult (incident.apply router c) := by
  cases incident with
  | ready side fault =>
      have hend : c.bare.endWatch side = (c.endWatch side).bare := by cases side <;> rfl
      simp only [Incident.apply]
      rw [hend, handle_bare hrouter]
      rfl
  | arrive side bytes => cases side <;> rfl
  | hangUp side tail => cases side <;> rfl

/-- And it ends as it would. -/
theorem close_bare (t : Termination) : (c.bare.close t).bare = (c.close t).bare := by
  unfold close
  rw [bare_phase]
  split
  · rfl
  · cases goodbye? c.phase t <;> rfl

variable {c} {d : Connection σ}

include hrouter in
/-- Connections that are the same when bare make the same of an incident. -/
theorem apply_alike (h : c.bare = d.bare) (incident : Incident) :
    (incident.apply router c).1 = (incident.apply router d).1 ∧
      (incident.apply router c).2.bare = (incident.apply router d).2.bare := by
  have hboth := apply_bare hrouter c incident
  rw [h, apply_bare hrouter d incident] at hboth
  obtain ⟨hverdict, hbare⟩ := Prod.mk.inj hboth
  exact ⟨hverdict.symm, hbare.symm⟩

theorem close_alike (h : c.bare = d.bare) (t : Termination) :
    (c.close t).bare = (d.close t).bare := by
  rw [← close_bare c, h, close_bare]

end Connection

end WsRelay
