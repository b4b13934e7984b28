import WsRelay.Proofs.Client.Intake
/-! # Cuts in what a client sends

The bytes of a client lead to the same whether they arrive at once, one by one or in any other
pieces (`hearClient_chunking`): through the request line, the header lines, the upgrade and the
frames behind it, and however long the stream is.  Reads that the buffer has room for can be
digested byte by byte (`digestClient_cons`), and the stream taken in byte by byte is the account
that every way of cutting it keeps to. -/

namespace WsRelay.Connection

variable {σ : Type} {router : Router σ}

/-- A connection that has just been accepted: nothing has been read, and no peer is known.  What
its sockets take, and what comes of connecting to a peer, is open. -/
def fresh (id : SlotId) (address : String) (dial : Endpoint → Except IoFault PeerSocket)
    (toClient : Outlet Reply) (toPeer : Outlet Bytes) : Connection σ :=
  { id, address, dial, toClient, toPeer }

/-- What is looked at of a connection. -/
structure Outline where
  verdict : Verdict
  phase : Phase
  toClient : List Reply
  toPeer : List Bytes
  /-- What the connection goes on with, if it does: the request and what is left in the buffer. -/
  kept : Option (Handshake.Request × Bytes)

/-- What is looked at of a connection, and whether it goes on. -/
def outline : Verdict × Connection σ → Outline
  | (verdict, c) =>
    { verdict
      phase := c.phase
      toClient := c.toClient.taken
      toPeer := c.toPeer.taken
      kept := if verdict = .continue then some (c.request, c.clientBuffer) else none }

/-- The client's stream taken in byte by byte. -/
def clientBytes (router : Router σ) : Account (Connection σ) Outline :=
  .byteByByte (digestClient router).reader (fun c _ => c.clientBuffer.length < bufferCapacity)
    outline

theorem outline_setInlet (i : Inlet) (v : Verdict) (c : Connection σ) :
    outline (v, c.setInlet i) = outline (v, c) := rfl

theorem clientBytes_ignores : (clientBytes router).Ignores setInlet :=
  Account.ignores_byteByByte
    (fun i bytes c => by rw [Digest.reader, digestClient_setInlet]; rfl)
    (fun _ _ _ h => h) outline_setInlet

/-- A digest after which reading goes on has left room in the buffer, and no more in it than there
was and was added. -/
theorem digestClient_continue {bytes : Bytes} {c d : Connection σ}
    (h : digestClient router bytes c = (.ok .continue, d))
    (hroom : bytes.length ≤ clientRoom c) (hc : c.clientBuffer.length < bufferCapacity) :
    d.clientBuffer.length < bufferCapacity ∧
      d.clientBuffer.length ≤ c.clientBuffer.length + bytes.length := by
  obtain ⟨hu, hne⟩ := checkRoom_eq_continue h
  have hlen := length_useClientBuffer_le hu
  simp only [List.length_append] at hlen
  unfold clientRoom at hroom
  omega

/-- The first byte of a read can be digested before the others. -/
theorem digestClient_cons (c : Connection σ) (x : UInt8) (y : Bytes) (hy : y ≠ [])
    (hroom : (x :: y).length ≤ clientRoom c) :
    Account.Splits (digestClient router).reader outline c [x] y
      ((digestClient router).reader [x] c) := by
  have hy' : 0 < y.length := List.length_pos_iff.mpr hy
  obtain ⟨hgo, hstop⟩ := useClientBuffer_grow router y c.fromClient
    { c with clientBuffer := c.clientBuffer ++ [x] }
  have hfrom := fromClient_useClientBuffer router { c with clientBuffer := c.clientBuffer ++ [x] }
  have hboth : (digestClient router).reader ([x] ++ y) c =
      afterUse (useClientBuffer router
        (grow y c.fromClient { c with clientBuffer := c.clientBuffer ++ [x] })) := by
    rw [reader_digestClient, ← List.append_assoc]
    rfl
  rw [reader_digestClient]
  rcases hu : useClientBuffer router { c with clientBuffer := c.clientBuffer ++ [x] } with ⟨o, d⟩
  rw [hu] at hgo hstop hfrom
  by_cases ho : o = .ok .continue
  · subst ho
    have hlen := length_useClientBuffer_le hu
    simp only [List.length_append, List.length_cons, List.length_nil] at hlen hroom
    unfold clientRoom at hroom
    have hd : checkRoom (.ok .continue, d) = (.ok .continue, d) := by
      rw [checkRoom, if_neg (by omega)]
    rw [afterUse, hd]
    have hfrom : d.fromClient = c.fromClient := hfrom
    show (digestClient router).reader ([x] ++ y) c = _
    rw [hboth, hgo rfl, ← hfrom]
    rfl
  · rw [hstop ho, afterUse, checkRoom_of_ne _ ho] at hboth
    rw [afterUse, checkRoom_of_ne _ ho]
    cases hv : o.verdict with
    | «continue» => exact absurd (Outcome.eq_continue hv) ho
    | close t =>
        rw [hv] at hboth
        exact ⟨_, hboth, rfl⟩

/-- A piece keeps to the account of the bytes taken in one by one. -/
theorem explains_clientBytes (c : Connection σ) (piece rest : Bytes)
    (hc : ((clientBytes router).restrict (·.fromClient = {})).admits c (piece ++ rest)) :
    ((clientBytes router).restrict (·.fromClient = {})).Explains c piece rest
      (hearClient router piece c) := by
  have hroom (d : Connection σ) (s : Bytes) (hd : (clientBytes router).admits d s) :
      0 < clientRoom d := Nat.sub_pos_of_lt hd
  have hnext (d : Connection σ) (x : UInt8) (rest : Bytes) (b : Connection σ)
      (hd : d.clientBuffer.length < bufferCapacity)
      (hb : (digestClient router).reader [x] d = (.continue, b)) :
      b.clientBuffer.length < bufferCapacity ∧ clientRoom d ≤ clientRoom b + 1 := by
    obtain ⟨hv, rfl⟩ := Prod.mk.inj hb
    have hlen := digestClient_continue (Prod.ext (Outcome.eq_continue hv) rfl)
      (Nat.sub_pos_of_lt hd) hd
    simp only [List.length_cons, List.length_nil] at hlen
    have hle : (digestClient router [x] d).2.clientBuffer.length ≤ d.clientBuffer.length + 1 :=
      hlen.2
    refine ⟨hlen.1, ?_⟩
    show bufferCapacity - _ ≤ bufferCapacity - (digestClient router [x] d).2.clientBuffer.length + 1
    omega
  exact explains_hearClient router clientBytes_ignores hroom
    (fun a piece rest => Account.explains_byteByByte hnext digestClient_cons rest piece a) c piece
    rest hc

/-- Every way of cutting a client's bytes keeps to the account of the bytes taken in one by one. -/
theorem outline_takeAll (c : Connection σ) (hc : c.clientBuffer.length < bufferCapacity)
    (hi : c.fromClient = {}) (xs : List Bytes) :
    outline ((hearClient router).takeAll xs c) = (clientBytes router).result c xs.flatten :=
  (Account.explains_takeAll explains_clientBytes xs [] c ⟨hc, hi⟩).view_eq

/-- A client that is to be heard on has had all its bytes read, and the buffer has room. -/
theorem hearClient_continue {bytes : Bytes} {c d : Connection σ}
    (hc : c.clientBuffer.length < bufferCapacity) (hi : c.fromClient = {})
    (h : hearClient router bytes c = (.continue, d)) :
    d.clientBuffer.length < bufferCapacity ∧ d.fromClient = {} := by
  have hexplained : ((clientBytes router).restrict (·.fromClient = {})).Explains c bytes []
      (hearClient router bytes c) := explains_clientBytes c bytes [] ⟨hc, hi⟩
  rw [h] at hexplained
  exact hexplained.1

/-- A piece for which the buffer has room is digested in one read. -/
theorem hearClient_once {bytes : Bytes} {c : Connection σ} (hi : c.fromClient = {})
    (hbytes : bytes ≠ []) (hroom : bytes.length ≤ clientRoom c) :
    hearClient router bytes c = (digestClient router).reader bytes c := by
  have hpos : 0 < clientRoom c := Nat.lt_of_lt_of_le (List.length_pos_iff.mpr hbytes) hroom
  have hstep := (drains_client router).reads (c.setInlet { waiting := bytes }) bytes hbytes hpos
  have hkept : (digestClient router bytes c).2.fromClient = {} := by
    have hself : c.setInlet {} = c := by rw [← hi]; rfl
    have hset := digestClient_setInlet router {} bytes c
    rw [hself] at hset
    rw [hset]
    rfl
  have hall : clientRoom (c.setInlet { waiting := bytes }) = clientRoom c := rfl
  rw [hall, List.take_of_length_le hroom, List.drop_of_length_le hroom,
    digestClient_setInlet] at hstep
  rw [hearClient_eq router hi, Digest.reader]
  rcases hd : digestClient router bytes c with ⟨e | _ | t, d⟩
  all_goals
    rw [hd] at hstep hkept
    have hself : d.setInlet {} = d := by rw [← hkept]; rfl
  · have hrun : takeFromClient router _ = _ := Loop.run_done hstep
    rw [hrun]
    exact congrArg (Prod.mk _) hself
  · have hlen : d.clientBuffer.length < bufferCapacity := by
      refine (digestClient_continue hd hroom ?_).1
      unfold clientRoom at hpos
      omega
    have hidle := (drains_client router).idle (d.setInlet { waiting := bytes })
      (Nat.sub_pos_of_lt hlen)
    have hrun : takeFromClient router _ = _ := (Loop.run_again hstep).trans (Loop.run_done hidle)
    rw [hrun]
    exact congrArg (Prod.mk _) hself
  · have hrun : takeFromClient router _ = _ := Loop.run_done hstep
    rw [hrun]
    exact congrArg (Prod.mk _) hself

/-- **Cuts in what a client sends do not matter.**  Two ways of cutting the same bytes into
arrivals, each of them read when it comes until the connection is to be closed, lead a fresh
connection to the same verdict and phase, with the same sent to the client and to the peer.  If the
connection goes on, its request and the bytes in the client's buffer are the same too. -/
theorem hearClient_chunking (id : SlotId) (address : String)
    (dial : Endpoint → Except IoFault PeerSocket) (toClient : Outlet Reply) (toPeer : Outlet Bytes)
    {xs ys : List Bytes} (h : xs.flatten = ys.flatten) :
    let c : Connection σ := fresh id address dial toClient toPeer
    let r := (hearClient router).takeAll xs c
    let s := (hearClient router).takeAll ys c
    r.1 = s.1 ∧ r.2.phase = s.2.phase ∧ r.2.toClient.taken = s.2.toClient.taken ∧
      r.2.toPeer.taken = s.2.toPeer.taken ∧
      (r.1 = .continue → r.2.request = s.2.request ∧ r.2.clientBuffer = s.2.clientBuffer) := by
  intro c r s
  have hc : c.clientBuffer.length < bufferCapacity := Nat.zero_lt_succ _
  have he : outline r = outline s := by
    rw [outline_takeAll c hc rfl, outline_takeAll c hc rfl, h]
  obtain ⟨hv, hp, htc, htp, hk⟩ := Outline.mk.inj he
  refine ⟨hv, hp, htc, htp, fun hr => ?_⟩
  rw [if_pos hr, if_pos (hv ▸ hr)] at hk
  exact Prod.mk.inj (Option.some.inj hk)

/-- A request line and a header line, cut inside the line ends, and the same bytes at once. -/
theorem hearClient_chunking_lineEnds :
    let xs : List Bytes := [[71, 69, 84, 32, 47, 32, 72, 84, 84, 80, 47, 49, 46, 49, 13],
      [10, 72, 111, 115, 116], [58, 32, 97, 13], [], [10, 13]]
    let c : Connection Unit := fresh ⟨0, 0⟩ "" (fun _ => .error .unsupported) {} {}
    let r := (hearClient fun _ => none).takeAll xs c
    let s := (hearClient fun _ => none).takeAll [xs.flatten] c
    xs.flatten = [xs.flatten].flatten ∧
      r.1 = s.1 ∧ r.2.phase = s.2.phase ∧ r.2.toClient.taken = s.2.toClient.taken ∧
      r.2.toPeer.taken = s.2.toPeer.taken ∧
      (r.1 = .continue → r.2.request = s.2.request ∧ r.2.clientBuffer = s.2.clientBuffer) :=
  ⟨by decide, hearClient_chunking ⟨0, 0⟩ "" (fun _ => .error .unsupported) {} {} (by decide)⟩

end WsRelay.Connection
