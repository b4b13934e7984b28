import WsRelay.Proofs.Client.Admission
import WsRelay.Proofs.Connection.Output
/-! # What a client is told at the end

When a read is answered with the verdict to close, how the connection is to end has been worked out
from what went wrong, while what can still be said to the client goes by how far the connection has
come.  The two fit together: `Closes` lists what makes the client's side close a connection, phase
by phase, and whatever makes the peer's side do so is told with a close frame
(`takeFromPeer_tells`).

A life `Heeds` its verdicts if each verdict to close is carried out at once.  Then the client is
told of every failure in the form that the phase allows (`run_farewell`). -/

namespace WsRelay

/-- The failure is told with a close frame. -/
def Error.IsTold (e : Error) : Prop :=
  ∃ code reason, e.termination = .close code reason

/-- The connection goes on, or is closed with a close frame. -/
def Outcome.GoesOnOrTells (o : Outcome) : Prop :=
  o = .ok .continue ∨ ∃ code reason, o.verdict = .close (.close code reason)

theorem Error.IsTold.goesOnOrTells {e : Error} (h : e.IsTold) :
    Outcome.GoesOnOrTells (.error e) := by
  obtain ⟨code, reason, hend⟩ := h
  exact .inr ⟨code, reason, congrArg Verdict.close hend⟩

/-! ### Requests that are refused -/

namespace Handshake

theorem path?_error {line : Bytes} {e : Error} (h : path? line = .error e) :
    ∃ message, e = .requestLine message := by
  unfold path? at h
  split at h
  · cases h
    exact ⟨_, rfl⟩
  · dsimp only at h
    split at h
    · cases h
    · cases h
      exact ⟨_, rfl⟩

theorem Request.feed_error {request : Request} {line : Bytes} {e : Error}
    (h : request.feed line = .error e) : ∃ status, e.termination = .http status := by
  unfold Request.feed at h
  split at h
  · cases h
  · split at h
    · cases h
      exact ⟨_, rfl⟩
    · split at h
      · cases h
        exact ⟨_, rfl⟩
      · cases h

theorem Request.grant_error {request : Request} {e : Error} (h : request.grant = .error e) :
    ∃ status, e.termination = .http status := by
  unfold Request.grant at h
  split at h
  · cases h
    exact ⟨_, rfl⟩
  · split at h
    · split at h
      · cases h
      · cases h
        exact ⟨_, rfl⟩
    · cases h
      exact ⟨_, rfl⟩

end Handshake

/-! ### Reads that bring nothing -/

theorem Inlet.read_empty {i rest : Inlet} {room : Nat} (hroom : 0 < room)
    (h : i.read room = (.data [], rest)) : rest.waiting = [] ∧ rest.tail = .ended := by
  rcases i.read_cases room with ⟨hwaiting, hread⟩ | ⟨hwaiting, hread⟩
  · rw [hread, Prod.mk.injEq, Tail.read_eq_data_iff] at h
    obtain ⟨⟨htail, -⟩, rfl⟩ := h
    exact ⟨hwaiting, htail⟩
  · rw [hread, Prod.mk.injEq, Read.data.injEq, List.take_eq_nil_iff] at h
    obtain ⟨hzero | hnil, -⟩ := h
    · omega
    · exact absurd hnil hwaiting

theorem Inlet.read_failed {i rest : Inlet} {room : Nat} {fault : IoFault}
    (h : i.read room = (.failed fault, rest)) : rest.waiting = [] ∧ rest.tail = .failed fault := by
  rcases i.read_cases room with ⟨hwaiting, hread⟩ | ⟨-, hread⟩
  · rw [hread, Prod.mk.injEq, Tail.read_eq_failed_iff] at h
    obtain ⟨htail, rfl⟩ := h
    exact ⟨hwaiting, htail⟩
  · rw [hread] at h
    cases h

namespace Connection

variable {σ : Type} {router : Router σ} {c d : Connection σ} {o : Outcome}

/-! ### The client's side -/

/-- What can go wrong with a line or a frame, in the phase in which it leaves the connection. -/
inductive Refuses (d : Connection σ) : Outcome → Prop
  /-- The request line is refused. -/
  | line (hphase : d.phase = .requestLine) (message : String) :
    Refuses d (.error (.requestLine message))
  /-- The request is refused, or its peer is not reached. -/
  | request (hphase : d.phase = .headers) {cause : Error} {status : String}
      (h : cause.termination = .http status) : Refuses d (.error cause)
  /-- The upgrade is granted, and the client cannot be told so. -/
  | untold (hphase : d.phase = .headers) {n : Nat} (hn : d.toClient.offered = n + 1)
      (hrefused : d.toClient.accepts n = false) : Refuses d (.error (.io .brokenPipe))
  /-- A frame is refused, cannot be passed on or answered, or asks for the end. -/
  | frame (hphase : d.phase = .relaying) {o : Outcome} {code : CloseCode} {reason : String}
      (h : o.verdict = .close (.close code reason)) : Refuses d o

/-- What makes the client's side close a connection. -/
inductive Closes (d : Connection σ) : Outcome → Prop
  /-- The client's stream has ended. -/
  | ended (hwaiting : d.fromClient.waiting = []) (htail : d.fromClient.tail = .ended) :
    Closes d (.error .clientClosed)
  /-- The client's socket fails. -/
  | failed {fault : IoFault} (hwaiting : d.fromClient.waiting = [])
      (htail : d.fromClient.tail = .failed fault) : Closes d (.error (.io fault))
  /-- The client's buffer is full of what cannot be used. -/
  | full (h : d.clientBuffer.length = bufferCapacity) : Closes d (.error clientOverflow)
  /-- A line or a frame. -/
  | used {o : Outcome} (h : Refuses d o) : Closes d o

theorem connectPeer_error {e : Error} (h : c.connectPeer router = .error e) :
    ∃ status, e.termination = .http status := by
  by_cases hreached : PeerReached router c.dial c.enquiry
  · obtain ⟨route, socket, hconnect⟩ := (connectPeer_eq router c).1 hreached
    rw [h] at hconnect
    cases hconnect
  · obtain ⟨cause, hconnect, hend⟩ := (connectPeer_eq router c).2 hreached
    rw [h] at hconnect
    cases hconnect
    exact ⟨_, hend⟩

/-- An upgrade that fails leaves the phase as it is. -/
theorem upgrade_refuses {e : Error} (hphase : c.phase = .headers)
    (h : c.upgrade router = (.error e, d)) : Refuses d (.error e) := by
  unfold upgrade at h
  split at h
  · next hgrant =>
    obtain ⟨status, hstatus⟩ := Handshake.Request.grant_error hgrant
    cases h
    exact .request hphase hstatus
  · split at h
    · next hconnect =>
      obtain ⟨status, hstatus⟩ := connectPeer_error hconnect
      cases h
      exact .request hphase hstatus
    · split at h
      · next outlet hoffer =>
        unfold Outlet.offer at hoffer
        dsimp only at hoffer
        split at hoffer
        · cases hoffer
        · next hrefused =>
          cases hoffer
          cases h
          exact .untold hphase rfl (Bool.eq_false_iff.mpr hrefused)
      · cases h

theorem takeLine_refuses {line : Bytes} {e : Error}
    (hphase : c.phase = .requestLine ∨ c.phase = .headers)
    (h : c.takeLine router line = (.error e, d)) : Refuses d (.error e) := by
  unfold takeLine at h
  split at h
  · next hline =>
    split at h
    · next hpath =>
      obtain ⟨message, rfl⟩ := Handshake.path?_error hpath
      cases h
      exact .line hline message
    · cases h
  · next hline =>
    have hheaders : c.phase = .headers := hphase.resolve_left hline
    split at h
    · next hfeed =>
      obtain ⟨status, hstatus⟩ := Handshake.Request.feed_error hfeed
      cases h
      exact .request hheaders hstatus
    · cases h
    · exact upgrade_refuses hheaders h

theorem lineStep_refuses (hphase : c.phase = .requestLine ∨ c.phase = .headers)
    (h : c.lineStep router = .done (o, d)) : o = .ok .continue ∨ Refuses d o := by
  unfold lineStep at h
  split at h
  · cases h
    exact .inl rfl
  · next line rest hs =>
    split at h
    · next e c' htake =>
      cases h
      exact .inr (takeLine_refuses (c := { c with clientBuffer := rest }) hphase htake)
    · cases h

theorem intent_error {header : Frame.Header} {e : Error} (h : intent header = .error e) :
    e.IsTold := by
  unfold intent at h
  split at h
  · cases h
    exact ⟨_, _, rfl⟩
  · split at h
    · cases h
      exact ⟨_, _, rfl⟩
    · split at h
      · split at h <;> cases h
        exact ⟨_, _, rfl⟩
      · cases h
        exact ⟨_, _, rfl⟩

theorem sendToPeer_error {payload : Bytes} {r : Except Error Unit}
    (h : c.sendToPeer payload = (r, d)) : d.phase = c.phase ∧ ∀ e, r = .error e → e.IsTold := by
  unfold sendToPeer at h
  split at h
  · cases h
    refine ⟨rfl, fun e he => ?_⟩
    cases he
    exact ⟨_, _, rfl⟩
  · split at h
    · cases h
      exact ⟨rfl, nofun⟩
    · cases h
      refine ⟨rfl, fun e he => ?_⟩
      cases he
      exact ⟨_, _, rfl⟩

/-- What a frame asks for is done, or the connection is closed with a close frame. -/
theorem act_tells {payload : Bytes} {i : Intent} (h : act payload c i = (o, d)) :
    d.phase = c.phase ∧ Outcome.GoesOnOrTells o := by
  cases i with
  | forward =>
      rcases hsend : c.sendToPeer payload with ⟨e | _, c'⟩
      all_goals
        obtain ⟨hphase, htold⟩ := sendToPeer_error hsend
        simp only [act, hsend] at h
        cases h
      · exact ⟨hphase, (htold e rfl).goesOnOrTells⟩
      · exact ⟨hphase, .inl rfl⟩
  | pong =>
      simp only [act] at h
      split at h
      · cases h
        exact ⟨rfl, .inl rfl⟩
      · cases h
        exact ⟨rfl, .inr ⟨_, _, rfl⟩⟩
  | ignore =>
      cases h
      exact ⟨rfl, .inl rfl⟩
  | close =>
      cases h
      exact ⟨rfl, .inr ⟨_, _, rfl⟩⟩

theorem useFrame_refuses {frame : Frame.Decoded} (hphase : c.phase = .relaying)
    (h : useFrame frame c = .done (o, d)) : Refuses d o := by
  unfold useFrame at h
  split at h
  · next e hintent =>
    obtain ⟨code, reason, hend⟩ := intent_error hintent
    cases h
    exact .frame hphase (congrArg Verdict.close hend)
  · next i _ =>
    split at h
    · next hact =>
      cases h
      obtain ⟨hkept, hnever | ⟨code, reason, hend⟩⟩ := act_tells hact
      · cases hnever
      · exact .frame (hkept.trans hphase) hend
    · cases h
    · next t c' hact =>
      cases h
      obtain ⟨hkept, hnever | ⟨code, reason, hend⟩⟩ := act_tells hact
      · cases hnever
      · refine .frame ?_ hend
        split
        · exact hkept.trans hphase
        · exact hkept.trans hphase

theorem frameStep_refuses (hphase : c.phase = .relaying) (h : c.frameStep = .done (o, d)) :
    o = .ok .continue ∨ Refuses d o := by
  cases hp : Frame.Header.parse? c.clientBuffer with
  | none =>
      rw [frameStep_unparsed hp] at h
      cases h
      exact .inl rfl
  | some header =>
      by_cases hlong : bufferCapacity < header.frameLength
      · rw [frameStep_tooLong hp hlong] at h
        cases h
        exact .inr (.frame hphase rfl)
      · cases hd : Frame.decode? c.clientBuffer with
        | none =>
            rw [frameStep_undecoded hp hlong hd] at h
            cases h
            exact .inl rfl
        | some p =>
            obtain ⟨frame, buffer⟩ := p
            rw [frameStep_decoded hp hlong hd] at h
            exact .inr (useFrame_refuses (c := { c with clientBuffer := buffer }) hphase h)

theorem useStep_refuses (h : c.useStep router = .done (o, d)) :
    o = .ok .continue ∨ Refuses d o := by
  unfold useStep at h
  split at h
  · next hphase => exact lineStep_refuses (.inl hphase) h
  · next hphase => exact lineStep_refuses (.inr hphase) h
  · next hphase => exact frameStep_refuses hphase h
  · cases h
    exact .inl rfl

theorem useClientBuffer_refuses (h : useClientBuffer router c = (o, d)) :
    o = .ok .continue ∨ Refuses d o := by
  obtain ⟨b, -, hdone⟩ : ∃ b : Connection σ, True ∧
      b.useStep router = .done (useClientBuffer router c) :=
    Loop.invariant (fun _ => True) (fun _ _ _ _ => trivial) c trivial
  rw [h] at hdone
  exact useStep_refuses hdone

theorem Refuses.setInlet (inlet : Inlet) (h : Refuses d o) : Refuses (d.setInlet inlet) o := by
  cases h with
  | line hphase message => exact .line (d := d.setInlet inlet) hphase message
  | request hphase h => exact .request (d := d.setInlet inlet) hphase h
  | untold hphase hn hrefused => exact .untold (d := d.setInlet inlet) hphase hn hrefused
  | frame hphase h => exact .frame (d := d.setInlet inlet) hphase h

theorem clientStep_closes {s : Inlet × Connection σ} {inlet : Inlet}
    (hroom : s.2.clientBuffer.length < bufferCapacity)
    (h : clientStep router s = .done (o, inlet, d)) :
    o = .ok .continue ∨ Closes (d.setInlet inlet) o := by
  obtain ⟨before, c⟩ := s
  simp only [clientStep] at h
  split at h
  · cases h
    exact .inl rfl
  · next hread =>
    cases h
    obtain ⟨hwaiting, htail⟩ := Inlet.read_failed hread
    exact .inr (.failed hwaiting htail)
  · next hread =>
    cases h
    obtain ⟨hwaiting, htail⟩ := Inlet.read_empty (Nat.sub_pos_of_lt hroom) hread
    exact .inr (.ended hwaiting htail)
  · split at h
    · split at h
      · next hfull =>
        cases h
        exact .inr (.full hfull)
      · cases h
    · next hne huse =>
      cases h
      rcases useClientBuffer_refuses huse with hgo | hrefuses
      · exact absurd hgo hne
      · exact .inr (.used (hrefuses.setInlet inlet))

/-- What the client's side closes a connection for, if there was room in the buffer. -/
theorem takeFromClient_closes {inlet : Inlet} (hroom : c.clientBuffer.length < bufferCapacity)
    (h : takeFromClient router (c.fromClient, c) = (o, inlet, d)) :
    o = .ok .continue ∨ Closes (d.setInlet inlet) o := by
  obtain ⟨s, hs, hdone⟩ : ∃ s : Inlet × Connection σ, s.2.clientBuffer.length < bufferCapacity ∧
      clientStep router s = .done (takeFromClient router (c.fromClient, c)) :=
    Loop.invariant (fun s => s.2.clientBuffer.length < bufferCapacity)
      (fun s _ hs h => ClientReads.room (h ▸ clientStep_reads router s) hs) (c.fromClient, c) hroom
  rw [h] at hdone
  exact clientStep_closes hs hdone

/-! ### The peer's side -/

theorem forwardStep_error_told {lastRead : Nat} {e : Error}
    (h : c.forwardStep lastRead = .done (.error e, d)) : e.IsTold := by
  unfold forwardStep at h
  split at h
  · cases h
  · split at h
    · cases h
    · dsimp only at h
      split at h
      · cases h
        exact ⟨_, _, rfl⟩
      · split at h
        · cases h
        · split at h
          · cases h
            exact ⟨_, _, rfl⟩
          · split at h
            · cases h
            · split at h
              · cases h
              · cases h
                exact ⟨_, _, rfl⟩

theorem takePeerBytes_told {bytes : Bytes} {e : Error} (h : takePeerBytes bytes c = (some e, d)) :
    e.IsTold := by
  unfold takePeerBytes at h
  split at h
  · next e' d' hforward =>
    cases h
    obtain ⟨b, -, hdone⟩ : ∃ b : Connection σ, True ∧ b.forwardStep bytes.length =
        .done (forward bytes.length { c with peerBuffer := c.peerBuffer ++ bytes }) :=
      Loop.invariant (fun _ => True) (fun _ _ _ _ => trivial) _ trivial
    rw [hforward] at hdone
    exact forwardStep_error_told hdone
  · split at h
    · cases h
      exact ⟨_, _, rfl⟩
    · cases h

theorem peerStep_tells {s : PeerSocket × Connection σ} {socket : PeerSocket}
    (h : peerStep s = .done (o, socket, d)) : Outcome.GoesOnOrTells o := by
  obtain ⟨before, c⟩ := s
  simp only [peerStep] at h
  split at h
  · cases h
    exact .inl rfl
  · cases h
    exact .inr ⟨_, _, rfl⟩
  · split at h
    · cases h
      exact .inr ⟨_, _, rfl⟩
    · split at h
      · cases h
        exact .inr ⟨_, _, rfl⟩
      · split at h
        · next htake =>
          cases h
          exact (takePeerBytes_told htake).goesOnOrTells
        · cases h

/-- Whatever the peer's side closes a connection for, the client is told with a close frame. -/
theorem takeFromPeer_tells (s : PeerSocket × Connection σ) :
    Outcome.GoesOnOrTells (takeFromPeer s).1 := by
  obtain ⟨t, -, hdone⟩ : ∃ t : PeerSocket × Connection σ, True ∧
      peerStep t = .done (takeFromPeer s) :=
    Loop.invariant (fun _ => True) (fun _ _ _ _ => trivial) s trivial
  exact peerStep_tells hdone

/-! ### The last thing that is said -/

/-- From `d` to `e` the client has been sent one thing more, in these bytes. -/
structure Says (reply : Reply) (wire : Bytes) (d e : Connection σ) : Prop where
  taken : e.toClient.taken = d.toClient.taken ++ [reply]
  written : e.toClient.taken.flatMap Reply.bytes =
    d.toClient.taken.flatMap Reply.bytes ++ wire

/-- From `d` to `e` the client has been sent one close frame more: the only frame of its message,
not masked, with at most 125 bytes in it, of which the first two are the code. -/
def SaysClose (code : Nat) (reason : Bytes) (d e : Connection σ) : Prop :=
  2 + reason.length ≤ 125 ∧
    Says (.frame .close (Bytes.ofNat 2 code ++ reason))
      (0x88 :: UInt8.ofNat (2 + reason.length) ::
        UInt8.ofNat (code / 256) :: UInt8.ofNat code :: reason) d e

/-- From `d` to `e` the client has been sent one status more. -/
def SaysStatus (status : String) (d e : Connection σ) : Prop :=
  Says (.status status) (Utf8.encode ("HTTP/1.1 " ++ status ++ "\r\n\r\n")) d e

variable {t : Termination} {cause : Error}

theorem taken_close (h : goodbye? d.phase t = none) :
    (d.close t).toClient.taken = d.toClient.taken := by
  unfold close
  split
  · rfl
  · rw [h]
    rfl

/-- If anything is said at the end, it is taken. -/
def LastTaken (t : Termination) (d : Connection σ) : Prop :=
  (goodbye? d.phase t).isSome → d.toClient.accepts d.toClient.offered = true

theorem says_close {reply : Reply} (h : goodbye? d.phase t = some reply)
    (htaken : LastTaken t d) : Says reply reply.bytes d (d.close t) := by
  have hnot : d.phase ≠ .closed := by
    intro hclosed
    rw [hclosed] at h
    rcases goodbye?_cases h with ⟨hphase, -⟩ | ⟨hphase, -⟩ <;> cases hphase
  have hsaid : (d.close t).toClient.taken = d.toClient.taken ++ [reply] := by
    unfold close
    rw [if_neg hnot, h]
    show (d.toClient.offer reply).2.taken = _
    rw [Outlet.taken_offer, if_pos]
    unfold Outlet.offer
    dsimp only
    rw [if_pos (htaken (Option.isSome_of_mem h))]
  refine ⟨hsaid, ?_⟩
  rw [hsaid, List.flatMap_append, List.flatMap_singleton]

/-- Where frames are expected, what is said is a close frame with the code, and with what there is
room for of the reason. -/
theorem saysClose_close (h : d.phase = .relaying) {code : CloseCode} {reason : String}
    (htaken : LastTaken (.close code reason) d) :
    SaysClose code.value (CloseCode.fitting 123 reason.toList) d
      (d.close (.close code reason)) := by
  have hlength : (code.payload reason).length = 2 + (CloseCode.fitting 123 reason.toList).length :=
    List.length_append
  have hlimit : (code.payload reason).length ≤ 125 := CloseCode.length_payload_le code reason
  have hsays : Says (Reply.goodbye code reason) (Reply.goodbye code reason).bytes d
      (d.close (.close code reason)) := says_close (by rw [h]; rfl) htaken
  have hwire : (Reply.goodbye code reason).bytes =
      0x88 :: UInt8.ofNat (code.payload reason).length :: code.payload reason :=
    Frame.encode_short .close hlimit
  rw [hwire, hlength] at hsays
  exact ⟨hlength ▸ hlimit, hsays⟩

theorem saysStatus_close (h : d.phase = .headers) {status : String}
    (htaken : LastTaken (.http status) d) : SaysStatus status d (d.close (.http status)) := by
  have hreply : goodbye? d.phase (.http status) = some (.status status) := by
    rw [h]
    rfl
  exact says_close hreply htaken

/-- The client cannot be told: it has gone, or has been too long about its request. -/
inductive Lost (d : Connection σ) : Error → Prop
  /-- The client's stream has ended. -/
  | ended (hwaiting : d.fromClient.waiting = []) (htail : d.fromClient.tail = .ended) :
    Lost d .clientClosed
  /-- The client's buffer is full. -/
  | full (h : d.clientBuffer.length = bufferCapacity) : Lost d clientOverflow
  /-- Reading from the client's socket fails. -/
  | failed {fault : IoFault} (hwaiting : d.fromClient.waiting = [])
      (htail : d.fromClient.tail = .failed fault) : Lost d (.io fault)
  /-- The last thing that was written to the client's socket was not taken. -/
  | untold {n : Nat} (hn : d.toClient.offered = n + 1) (hrefused : d.toClient.accepts n = false) :
    Lost d (.io .brokenPipe)

theorem Lost.ne_http (h : Lost d cause) (status : String) : cause.termination ≠ .http status := by
  cases h <;> exact nofun

/-- **What the client is told**, if a read that came to `outcome` has left the connection as `d`, it
is to end as `t` says, and it is ended as `e`. -/
structure Farewell (outcome : Outcome) (t : Termination) (d e : Connection σ) : Prop where
  /-- No status is sent where frames are expected. -/
  notHttp : d.phase = .relaying → ∀ status, t ≠ .http status
  /-- If nothing is said where frames are expected, the client has ended its stream. -/
  silent : d.phase = .relaying → t = .silent →
    d.fromClient.waiting = [] ∧ d.fromClient.tail = .ended ∧
      e.toClient.taken = d.toClient.taken
  /-- Otherwise there is one close frame, with the code of the verdict. -/
  close : d.phase = .relaying → ∀ code reason, t = .close code reason →
    ∃ told, SaysClose code.value told d e
  /-- Before the upgrade there is one status, unless the client is lost. -/
  headers : d.phase = .headers → ∃ cause, outcome = .error cause ∧ t = cause.termination ∧
    ((Lost d cause ∧ e.toClient.taken = d.toClient.taken) ∨
      (¬ Lost d cause ∧ ∃ status, t = .http status ∧ SaysStatus status d e))
  /-- Nothing is said before the request line. -/
  requestLine : d.phase = .requestLine → e.toClient.taken = d.toClient.taken

theorem taken_close_requestLine (h : d.phase = .requestLine) (t : Termination) :
    (d.close t).toClient.taken = d.toClient.taken := by
  refine taken_close ?_
  rw [h]
  cases t <;> rfl

theorem Lost.farewell (h : Lost d cause) (htaken : LastTaken cause.termination d) :
    Farewell (.error cause) cause.termination d (d.close cause.termination) where
  notHttp _ status := h.ne_http status
  silent hphase hsilent := by
    cases h with
    | ended hwaiting htail =>
        refine ⟨hwaiting, htail, taken_close ?_⟩
        rw [hphase]
        rfl
    | _ => cases hsilent
  close hphase code reason ht := by
    rw [ht] at htaken ⊢
    exact ⟨_, saysClose_close hphase htaken⟩
  headers hphase := by
    refine ⟨cause, rfl, rfl, .inl ⟨h, taken_close ?_⟩⟩
    rw [hphase]
    cases h <;> rfl
  requestLine hphase := taken_close_requestLine hphase _

/-- Where frames are expected, a close frame is always in order. -/
theorem farewell_of_relaying (hphase : d.phase = .relaying) {code : CloseCode} {reason : String}
    (htaken : LastTaken (.close code reason) d) :
    Farewell o (.close code reason) d (d.close (.close code reason)) where
  notHttp _ _ := nofun
  silent _ := nofun
  close _ _ _ ht := by
    cases ht
    exact ⟨_, saysClose_close hphase htaken⟩
  headers h := by
    rw [hphase] at h
    cases h
  requestLine h := by
    rw [hphase] at h
    cases h

theorem Refuses.farewell (h : Refuses d o) (ht : o.verdict = .close t) (htaken : LastTaken t d) :
    Farewell o t d (d.close t) := by
  cases h with
  | line hphase message =>
      have hnot {p : Phase} (hp : d.phase = p) (hne : p ≠ .requestLine) : False :=
        hne (hp.symm.trans hphase)
      exact {
        notHttp := fun hp => (hnot hp nofun).elim
        silent := fun hp => (hnot hp nofun).elim
        close := fun hp => (hnot hp nofun).elim
        headers := fun hp => (hnot hp nofun).elim
        requestLine := fun hp => taken_close_requestLine hp t }
  | @request hphase cause status hstatus =>
      obtain rfl : cause.termination = t := Verdict.close.inj ht
      have hnot {p : Phase} (hp : d.phase = p) (hne : p ≠ .headers) : False :=
        hne (hp.symm.trans hphase)
      exact {
        notHttp := fun hp => (hnot hp nofun).elim
        silent := fun hp => (hnot hp nofun).elim
        close := fun hp => (hnot hp nofun).elim
        headers := fun _ => by
          rw [hstatus] at htaken
          refine ⟨cause, rfl, rfl, .inr ⟨fun hlost => hlost.ne_http status hstatus, status,
            hstatus, ?_⟩⟩
          rw [hstatus]
          exact saysStatus_close hphase htaken
        requestLine := fun hp => (hnot hp nofun).elim }
  | untold hphase hn hrefused =>
      obtain rfl := Verdict.close.inj ht
      exact Lost.farewell (.untold hn hrefused) htaken
  | frame hphase hend =>
      rw [hend] at ht
      obtain rfl := Verdict.close.inj ht
      exact farewell_of_relaying hphase htaken

theorem Closes.farewell (h : Closes d o) (ht : o.verdict = .close t) (htaken : LastTaken t d) :
    Farewell o t d (d.close t) := by
  cases h with
  | ended hwaiting htail =>
      obtain rfl := Verdict.close.inj ht
      exact Lost.farewell (.ended hwaiting htail) htaken
  | failed hwaiting htail =>
      obtain rfl := Verdict.close.inj ht
      exact Lost.farewell (.failed hwaiting htail) htaken
  | full hfull =>
      obtain rfl := Verdict.close.inj ht
      exact Lost.farewell (.full hfull) htaken
  | used hrefuses => exact hrefuses.farewell ht htaken

/-- Once a connection is closed there is nothing to be said. -/
theorem farewell_of_closed {e : Connection σ} (h : d.phase = .closed) : Farewell o t d e := by
  have hnot {p : Phase} (hp : d.phase = p) (hne : p ≠ .closed) : False := hne (hp.symm.trans h)
  exact {
    notHttp := fun hp => (hnot hp nofun).elim
    silent := fun hp => (hnot hp nofun).elim
    close := fun hp => (hnot hp nofun).elim
    headers := fun hp => (hnot hp nofun).elim
    requestLine := fun hp => (hnot hp nofun).elim }

/-! ### Verdicts that are heeded -/

end Connection

/-- What a read comes to. -/
def Operation.outcome {σ : Type} : Operation σ → Connection σ → Outcome
  | readClient router dial, c => (Connection.takeFromClient router (c.fromClient, { c with dial })).1
  | readPeer, c =>
    match c.peer with
    | none => .ok .continue
    | some socket => (Connection.takeFromPeer (socket, c)).1
  | _, _ => .ok .continue

namespace Connection

variable {σ : Type} {c : Connection σ} {op : Operation σ} {ops : List (Operation σ)}
  {t : Termination}

/-- Every verdict to close is carried out at once. -/
def Heeds (ops : List (Operation σ)) (c : Connection σ) : Prop :=
  ∀ before op rest t, ops = before ++ op :: rest →
    (op.apply (run before c).2).1 = some (.close t) → ∃ after, rest = .close t :: after

theorem heeds_nil (c : Connection σ) : Heeds [] c := by
  intro before op rest t hops
  cases before <;> cases hops

theorem heeds_cons : Heeds (op :: ops) c ↔
    (∀ t, (op.apply c).1 = some (.close t) → ∃ after, ops = .close t :: after) ∧
      Heeds ops (op.apply c).2 := by
  constructor
  · intro h
    refine ⟨fun t => h [] op ops t rfl, fun before op' rest t hops => ?_⟩
    exact h (op :: before) op' rest t (by rw [hops]; rfl)
  · rintro ⟨hfirst, hrest⟩ before op' rest t hops
    cases before with
    | nil =>
        cases hops
        exact hfirst t
    | cons _ before =>
        cases hops
        exact hrest before op' rest t rfl

/-- Between operations there is room in the buffers, unless the connection is closed or is just to be
closed. -/
def Settled (c : Connection σ) (ops : List (Operation σ)) : Prop :=
  HasRoom c ∨ c.phase = .closed ∨ ∃ t rest, ops = .close t :: rest

theorem Moves.closed {d : Connection σ} (h : Moves c d) (hc : c.phase = .closed) :
    d.phase = .closed := by
  have hrank := h.rank_le
  rw [hc] at hrank
  cases hd : d.phase with
  | closed => rfl
  | _ => rw [hd] at hrank; exact absurd hrank (by decide)

theorem phase_close (t : Termination) (c : Connection σ) : (c.close t).phase = .closed := by
  unfold close
  split
  · assumption
  · rfl

theorem Settled.apply (h : Settled c (op :: ops))
    (hheeds : ∀ t, (op.apply c).1 = some (.close t) → ∃ after, ops = .close t :: after) :
    Settled (op.apply c).2 ops := by
  rcases h with hroom | hclosed | ⟨t, rest, hclose⟩
  · cases hv : (op.apply c).1 with
    | none => exact .inl (apply_room op hroom (by rw [hv]; exact nofun))
    | some v =>
        cases v with
        | «continue» =>
            refine .inl (apply_room op hroom fun v' hv' => ?_)
            rw [hv] at hv'
            exact (Option.some.inj hv').symm
        | close t =>
            obtain ⟨after, hafter⟩ := hheeds t hv
            exact .inr (.inr ⟨t, after, hafter⟩)
  · exact .inr (.inl ((apply_moves op c).closed hclosed))
  · cases hclose
    exact .inr (.inl (phase_close t c))

theorem Settled.run {before rest : List (Operation σ)} (h : Settled c (before ++ rest))
    (hheeds : Heeds (before ++ rest) c) : Settled (Connection.run before c).2 rest := by
  induction before generalizing c with
  | nil => exact h
  | cons op before ih =>
      obtain ⟨hfirst, hrest⟩ := heeds_cons.mp hheeds
      exact ih (h.apply hfirst) hrest

theorem readClient_farewell (router : Router σ) (hroom : c.clientBuffer.length < bufferCapacity)
    (hverdict : (c.readClient router).1 = .close t)
    (htaken : LastTaken t (c.readClient router).2) :
    Farewell (takeFromClient router (c.fromClient, c)).1 t (c.readClient router).2
      ((c.readClient router).2.close t) := by
  rcases htake : takeFromClient router (c.fromClient, c) with ⟨o, inlet, d⟩
  have hread : c.readClient router = (o.verdict, d.setInlet inlet) := by
    rw [readClient, htake]
    rfl
  rw [hread] at hverdict htaken ⊢
  rcases takeFromClient_closes hroom htake with rfl | hcloses
  · cases hverdict
  · exact hcloses.farewell hverdict htaken

theorem readPeer_farewell {socket : PeerSocket} (hpeer : c.peer = some socket)
    (hphase : c.phase = .relaying) (hverdict : c.readPeer.1 = .close t)
    (htaken : LastTaken t c.readPeer.2) :
    Farewell o t c.readPeer.2 (c.readPeer.2.close t) := by
  obtain ⟨d, after, hmoves, hd⟩ := readPeer_moves hpeer
  have hrelaying : c.readPeer.2.phase = .relaying := by
    rw [hd]
    exact hmoves.frame.1.trans hphase
  have houtcome : c.readPeer.1 = (takeFromPeer (socket, c)).1.verdict := by
    rw [readPeer, hpeer]
  rw [houtcome] at hverdict
  rcases takeFromPeer_tells (socket, c) with hgo | ⟨code, reason, hend⟩
  · rw [hgo] at hverdict
    cases hverdict
  · rw [hend] at hverdict
    obtain rfl := Verdict.close.inj hverdict
    exact farewell_of_relaying hrelaying htaken

/-- A read with a verdict to close tells the client why. -/
theorem apply_farewell (hc : Coherent c) (hs : Settled c (op :: ops))
    (hverdict : (op.apply c).1 = some (.close t))
    (htaken : LastTaken t (op.apply c).2) :
    Farewell (op.outcome c) t (op.apply c).2 ((op.apply c).2.close t) := by
  cases op with
  | readClient router dial =>
      rcases hs with hroom | hclosed | ⟨_, _, hclose⟩
      · exact readClient_farewell router (c := { c with dial }) hroom.client
          (Option.some.inj hverdict) htaken
      · exact farewell_of_closed ((apply_moves (.readClient router dial) c).closed hclosed)
      · cases hclose
  | readPeer =>
      have hread : c.readPeer.1 = .close t := Option.some.inj hverdict
      cases hpeer : c.peer with
      | none =>
          rw [readPeer, hpeer] at hread
          cases hread
      | some socket =>
          have hphase : c.phase = .relaying := hc.peer.mp (Option.isSome_of_mem hpeer)
          exact readPeer_farewell hpeer hphase hread htaken
  | _ => cases hverdict

/-- **A client is told of every failure in the form that its connection allows.**  Whatever is done
with a connection after it was accepted, if every verdict to close is carried out at once and the
last write is taken: Where frames are expected, the client is sent one close frame with the code of
the verdict, unless it has ended its stream.  Where header lines are expected, it is sent one
status, unless its stream has ended, its buffer is full, or its socket has failed; then nothing is
sent, as where a request line is expected. -/
theorem run_farewell (id : SlotId) (address : String)
    (dial : Endpoint → Except IoFault PeerSocket) (accepts : Nat → Bool) (toPeer : Outlet Bytes)
    {before rest : List (Operation σ)}
    (hheeds : Heeds (before ++ op :: rest) (fresh id address dial { accepts } toPeer))
    (hverdict :
      (op.apply (run before (fresh id address dial { accepts } toPeer)).2).1 = some (.close t)) :
    let start : Connection σ := fresh id address dial { accepts } toPeer
    let c := (run before start).2
    let d := (run (before ++ [op]) start).2
    let e := (run (before ++ [op, .close t]) start).2
    (∃ after, before ++ op :: rest = before ++ [op, .close t] ++ after) ∧
      (LastTaken t d → Farewell (op.outcome c) t d e) := by
  intro start c d e
  have hd : d = (op.apply c).2 := by
    show (run (before ++ [op]) start).2 = _
    rw [run_append]
    rfl
  have he : e = d.close t := by
    rw [hd]
    show (run (before ++ [op, .close t]) start).2 = _
    rw [run_append]
    rfl
  obtain ⟨after, rfl⟩ := hheeds before op rest t rfl hverdict
  refine ⟨⟨after, by simp⟩, fun htaken => ?_⟩
  have hpos : 0 < bufferCapacity := Nat.zero_lt_succ _
  have hc : Coherent c := (run_moves before start).coherent (coherent_fresh id address _ _ toPeer)
  have hsettled : Settled c (op :: .close t :: after) :=
    Settled.run (.inl ⟨hpos, hpos⟩) hheeds
  rw [he, hd]
  rw [hd] at htaken
  exact apply_farewell hc hsettled hverdict htaken

/-- A header line without a colon. -/
theorem run_farewell_header :
    let dial : Endpoint → Except IoFault PeerSocket := fun _ => .error .unsupported
    let start : Connection Unit := fresh ⟨0, 0⟩ "" dial {} {}
    let before : List (Operation Unit) := [.arrive .client (Utf8.encode "GET / HTTP/1.1\r\nx\r\n")]
    let op : Operation Unit := .readClient (fun _ => none) dial
    let t : Termination := .http "500 Header format"
    let d := (run (before ++ [op]) start).2
    let e := (run (before ++ [op, .close t]) start).2
    Heeds (before ++ op :: [.close t]) start ∧
      (op.apply (run before start).2).1 = some (.close t) ∧ d.phase = .headers ∧
      Farewell (op.outcome (run before start).2) t d e ∧
      SaysStatus "500 Header format" d e := by
  intro dial start before op t d e
  have hverdict : (op.apply (run before start).2).1 = some (.close t) := by decide +kernel
  have hheeds : Heeds (before ++ op :: [.close t]) start := by
    refine heeds_cons.mpr ⟨nofun, heeds_cons.mpr ⟨fun t' ht' => ⟨[], ?_⟩,
      heeds_cons.mpr ⟨nofun, heeds_nil _⟩⟩⟩
    obtain rfl : t = t' := Verdict.close.inj (Option.some.inj (hverdict.symm.trans ht'))
    rfl
  have hphase : d.phase = .headers := by decide +kernel
  obtain ⟨-, htold⟩ := run_farewell ⟨0, 0⟩ "" dial (fun _ => true) {} hheeds hverdict
  have hfarewell := htold fun _ => by decide +kernel
  refine ⟨hheeds, hverdict, hphase, hfarewell, ?_⟩
  obtain ⟨cause, -, hend, ⟨hlost, -⟩ | ⟨-, status, hstatus, hsaid⟩⟩ := hfarewell.headers hphase
  · exact absurd hend.symm (hlost.ne_http _)
  · obtain rfl : "500 Header format" = status := Termination.http.inj hstatus
    exact hsaid

end Connection

end WsRelay
