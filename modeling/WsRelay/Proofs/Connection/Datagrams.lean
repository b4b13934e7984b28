import WsRelay.Proofs.Client.Relaying
import WsRelay.Proofs.Peer.Datagrams
/-! # Relaying to and from a peer with datagrams

A connection whose peer sends datagrams keeps them apart: those that have been read were read
whole, in order, and all others still wait (`Datagrams`, kept by `Datagrams.apply`).  What its
client has sent has been interpreted, and every message in it was offered to the peer's socket once
(`Posted`, kept by `Posted.apply`).  `run_datagrams` puts the two directions together. -/

namespace WsRelay

variable {σ : Type}

open Framing

namespace Outlet

variable {α : Type} {o : Outlet α}

/-- Items are offered, one after the other. -/
def offerAll (o : Outlet α) (items : List α) : Outlet α :=
  items.foldl (fun o item => (o.offer item).2) o

theorem offerAll_append (o : Outlet α) (xs ys : List α) :
    o.offerAll (xs ++ ys) = (o.offerAll xs).offerAll ys :=
  List.foldl_append

/-- Each item is taken, and was offered once. -/
theorem TakesAll.offerAll (h : o.TakesAll) (items : List α) :
    (o.offerAll items).TakesAll ∧ (o.offerAll items).taken = o.taken ++ items ∧
      (o.offerAll items).offered = o.offered + items.length := by
  induction items generalizing o with
  | nil => exact ⟨h, (List.append_nil _).symm, rfl⟩
  | cons item items ih =>
      have hoffer := h.offer item
      have htaken := o.taken_offer item
      rw [hoffer] at htaken
      obtain ⟨hall, htaken', hoffered⟩ := ih (o := (o.offer item).2) (by rw [hoffer]; exact h)
      refine ⟨hall, ?_, ?_⟩
      · refine htaken'.trans ?_
        rw [hoffer, htaken, if_pos rfl, List.append_assoc, List.singleton_append]
      · refine hoffered.trans ?_
        rw [hoffer, List.length_cons]
        dsimp only
        omega

end Outlet

namespace Operation

/-- The datagram with which an operation adds to those that wait at the peer's socket. -/
def datagram? : Operation σ → Option Bytes
  | arrive .peer bytes => some bytes
  | _ => none

/-- The bytes with which an operation adds to what waits at the client's socket. -/
def spoken : Operation σ → Bytes
  | arrive .client bytes => bytes
  | _ => []

end Operation

namespace Connection

variable {route : Route σ} {queued read : List Bytes} {before : List Reply}
  {ops : List (Operation σ)} {units : List Message} {b c d : Connection σ} {tail : Tail}

/-! ### From the peer to the client -/

/-- The datagrams that are not empty, up to the first that is as long as the buffer. -/
def passable (xs : List Bytes) : List Bytes :=
  (xs.takeWhile (·.length < bufferCapacity)).filter (· ≠ [])

theorem takeWhile_of_short {xs : List Bytes} (h : ∀ x ∈ xs, x.length < bufferCapacity)
    (ys : List Bytes) : (xs ++ ys).takeWhile (·.length < bufferCapacity) =
      xs ++ ys.takeWhile (·.length < bufferCapacity) :=
  List.takeWhile_append_of_pos fun x hx => decide_eq_true (h x hx)

theorem passable_append {xs : List Bytes} (h : ∀ x ∈ xs, x.length < bufferCapacity)
    (ys : List Bytes) : passable (xs ++ ys) = passable xs ++ passable ys := by
  have hxs := takeWhile_of_short h []
  rw [List.append_nil, List.takeWhile_nil, List.append_nil] at hxs
  rw [passable, passable, passable, takeWhile_of_short h, hxs, List.filter_append]

/-- **What has become of a peer's datagrams** in the course of operations: those that have been read
are whole, and shorter than the buffer, and their bytes are where those of any peer are. -/
structure Datagrams (route : Route σ) (queued : List Bytes) (tail : Tail) (before : List Reply)
    (ops : List (Operation σ)) (read : List Bytes) (units : List Message) (c : Connection σ) : Prop
    extends Conserved route (.datagram queued tail) before ops read.flatten units c where
  socket : ∃ waiting tail, c.peer = some (.datagram waiting tail) ∧
    read ++ waiting = queued ++ ops.filterMap Operation.datagram?
  short : ∀ x ∈ read, x.length < bufferCapacity
  awaiting : Awaiting route c
  /-- If the framing passes on all there is, there is one unit for each that is not empty. -/
  passed : ∀ textual, PassesOn textual route.framing.rule → c.peerBuffer = [] ∧
    units.filterMap Message.reply? = (passable read).map (passedOn textual)

theorem Unread.datagrams (h : Unread route (.datagram queued tail) c) :
    Datagrams route queued tail c.toClient.taken [] [] [] c where
  toConserved := h.conserved
  socket := ⟨queued, tail, h.peer, (List.append_nil _).symm⟩
  short := List.forall_mem_nil _
  awaiting := ⟨h.route, by rw [peerRoom, h.peerBuffer]; decide, .inl h.peerBuffer⟩
  passed _ _ := ⟨h.peerBuffer, rfl⟩

/-- An operation by which nothing is read from the peer. -/
theorem Datagrams.unread (h : Datagrams route queued tail before ops read units c) {op : Operation σ}
    (hconserved : Conserved route (.datagram queued tail) before (ops ++ [op]) read.flatten units d)
    (hroute : d.route = c.route) (hbuffer : d.peerBuffer = c.peerBuffer ∧ d.memory = c.memory)
    (hpeer : ∀ waiting tail, c.peer = some (.datagram waiting tail) →
      ∃ tail, d.peer = some (.datagram (waiting ++ op.datagram?.toList) tail)) :
    Datagrams route queued tail before (ops ++ [op]) read units d where
  toConserved := hconserved
  socket := by
    obtain ⟨waiting, tail', hsocket, hread⟩ := h.socket
    obtain ⟨tail'', hafter⟩ := hpeer waiting tail' hsocket
    refine ⟨_, tail'', hafter, ?_⟩
    rw [← List.append_assoc, hread, List.filterMap_append, List.append_assoc]
    cases hdatagram : op.datagram? with
    | none => rw [List.filterMap_cons_none hdatagram]; rfl
    | some x => rw [List.filterMap_cons_some hdatagram]; rfl
  short := h.short
  awaiting := by
    obtain ⟨hroute', hroom, hwaits⟩ := h.awaiting
    refine ⟨hroute.trans hroute', ?_, ?_⟩
    · rwa [peerRoom, hbuffer.1]
    · rwa [hbuffer.1, hbuffer.2]
  passed textual hrule := by
    rw [hbuffer.1]
    exact h.passed textual hrule

/-- Reading from the peer. -/
theorem Datagrams.readPeer (h : Datagrams route queued tail before ops read units c)
    (hclient : c.toClient.TakesAll) (hgo : c.readPeer.1 = .continue) :
    ∃ read units,
      Datagrams route queued tail before (ops ++ [.readPeer]) read units c.readPeer.2 := by
  obtain ⟨waiting, tail', hpeer, hread⟩ := h.socket
  obtain ⟨n, hcutting⟩ := h.cutting
  obtain ⟨taken, left, more, hxs, hshort, hextends, hgoes⟩ := takeDatagrams_cutting hcutting waiting
  have hawaiting := takeDatagrams_awaiting h.awaiting waiting
  have hphase : c.readPeer.2.phase = .relaying := by
    obtain ⟨d, socket', hmoves, hd⟩ := readPeer_moves hpeer
    rw [hd]
    exact hmoves.frame.1.trans h.phase
  have hall := readPeer_datagrams hpeer
  cases hr : takeDatagrams waiting c with
  | mk stopped d =>
  rw [hr] at hextends hgoes hall hawaiting
  cases stopped with
  | some p =>
      rw [hall] at hgo
      cases hgo
  | none =>
  obtain ⟨rfl, n', hcut⟩ := hgoes rfl
  rw [List.append_nil] at hxs
  subst hxs
  rw [hall] at hphase ⊢
  have hreadAll : ∀ x ∈ read ++ taken, x.length < bufferCapacity :=
    List.forall_mem_append.mpr ⟨h.short, hshort⟩
  rw [← List.flatten_append] at hcut
  refine ⟨read ++ taken, units ++ more, ⟨hphase, ⟨n', hcut.hasRoute, hcut.cuts⟩, ?_, ?_⟩,
    ⟨[], tail', rfl, ?_⟩, hreadAll, ?_, fun textual hrule => ?_⟩
  · rw [List.flatten_append]
    refine h.waits.append .readPeer fun socket hsocket => ⟨.datagram [] tail', rfl, ?_⟩
    obtain rfl : .datagram taken tail' = socket := Option.some.inj (hpeer.symm.trans hsocket)
    exact ⟨rfl, rfl⟩
  · show Sends before _ _ d.toClient.taken
    rw [hextends.taken]
    exact h.sends.append .readPeer more
  · rw [List.append_nil, hread, List.filterMap_append]
    exact congrArg (queued ++ ·) (List.append_nil _).symm
  · obtain ⟨hroute, hroom, hwaits⟩ := hawaiting rfl
    exact ⟨hroute, hroom, hwaits⟩
  · obtain ⟨hbuffer, hunits⟩ := h.passed textual hrule
    obtain ⟨hd, htaken, -⟩ :=
      takeDatagrams_passed hrule ⟨h.awaiting.hasRoute, hbuffer, hclient⟩ taken
    rw [hr, hextends.taken, List.append_cancel_left_eq] at htaken
    rw [hr] at hd
    refine ⟨hd.peerBuffer, ?_⟩
    rw [List.filterMap_append, hunits, htaken, passable_append h.short, List.map_append]
    rfl

/-- Every operation that does not end a connection, and after which it is to go on, keeps the
datagrams apart. -/
theorem Datagrams.apply (h : Datagrams route queued tail before ops read units c)
    (hclient : c.toClient.TakesAll) (op : Operation σ) (hop : op.goesOn = true)
    (hgo : ∀ v ∈ (op.apply c).1, v = .continue) :
    ∃ read units, Datagrams route queued tail before (ops ++ [op]) read units (op.apply c).2 := by
  -- operations by which nothing is read leave the peer's socket as it is, unless they say otherwise
  have hsame {op : Operation σ} {peer : Option PeerSocket} (hpeer : peer = c.peer)
      (hnone : op.datagram? = none) (waiting : List Bytes) (tail : Tail)
      (hsocket : c.peer = some (.datagram waiting tail)) :
      ∃ tail, peer = some (.datagram (waiting ++ op.datagram?.toList) tail) := by
    rw [hnone, Option.toList_none, List.append_nil]
    exact ⟨tail, hpeer.trans hsocket⟩
  have hconserved := h.toConserved
  cases op with
  | close termination => cases hop
  | release => cases hop
  | readPeer => exact h.readPeer hclient (hgo _ rfl)
  | readClient router dial =>
      obtain ⟨d, inlet, hmoves, hd⟩ := readClient_moves router { c with dial }
      obtain ⟨-, hroute, hpeer, -⟩ := hmoves.relaying h.phase
      have hread := hconserved.readClient router dial
      rw [hd] at hread
      refine ⟨read, units, ?_⟩
      show Datagrams _ _ _ _ _ _ _ ({ c with dial }.readClient router).2
      rw [hd]
      exact h.unread hread hroute hmoves.frame (hsame hpeer rfl)
  | beginWatch side watch =>
      cases side <;> exact ⟨_, _, h.unread
        (hconserved.idle rfl rfl ⟨rfl, rfl⟩ rfl (adds_nothing rfl _)) rfl ⟨rfl, rfl⟩ (hsame rfl rfl)⟩
  | endWatch side =>
      cases side <;> exact ⟨_, _, h.unread
        (hconserved.idle rfl rfl ⟨rfl, rfl⟩ rfl (adds_nothing rfl _)) rfl ⟨rfl, rfl⟩ (hsame rfl rfl)⟩
  | arrive side bytes =>
      cases side with
      | client => exact ⟨_, _, h.unread
          (hconserved.idle rfl rfl ⟨rfl, rfl⟩ rfl (adds_nothing rfl _)) rfl ⟨rfl, rfl⟩
          (hsame rfl rfl)⟩
      | peer =>
          refine ⟨_, _, h.unread (hconserved.idle rfl rfl ⟨rfl, rfl⟩ rfl (adds_arrive bytes _)) rfl
            ⟨rfl, rfl⟩ fun waiting tail hsocket => ⟨tail, ?_⟩⟩
          show c.peer.map _ = _
          rw [hsocket]
          rfl
  | hangUp side tail' =>
      cases side with
      | client => exact ⟨_, _, h.unread
          (hconserved.idle rfl rfl ⟨rfl, rfl⟩ rfl (adds_nothing rfl _)) rfl ⟨rfl, rfl⟩
          (hsame rfl rfl)⟩
      | peer =>
          refine ⟨_, _, h.unread (hconserved.idle rfl rfl ⟨rfl, rfl⟩ rfl (adds_hangUp tail' _)) rfl
            ⟨rfl, rfl⟩ fun waiting tail hsocket => ⟨tail', ?_⟩⟩
          show c.peer.map _ = _
          rw [hsocket]
          exact congrArg (fun xs => some (PeerSocket.datagram xs tail')) (List.append_nil _).symm

/-! ### From the client to the peer -/

/-- A client's messages, each offered to the peer's socket. -/
def postLedger : Ledger (Connection σ) Frame.Passed (Outlet Bytes) where
  buffer := clientBuffer
  noted := toPeer
  note outlet frames := outlet.offerAll (frames.filterMap Frame.Passed.message?)
  note_nil _ := rfl
  note_append outlet xs ys := by
    rw [List.filterMap_append, Outlet.offerAll_append]

/-- The connection relays the frames of a client to a peer that takes datagrams. -/
structure Posting (c : Connection σ) : Prop extends Relaying c where
  datagram : c.peer.map (·.isDatagram) = some true

theorem Posting.socket (hc : Posting c) : ∃ waiting tail, c.peer = some (.datagram waiting tail) := by
  obtain ⟨socket, hsocket, hdatagram⟩ := Option.map_eq_some_iff.mp hc.datagram
  cases socket with
  | datagram waiting tail => exact ⟨waiting, tail, hsocket⟩
  | stream inlet => cases hdatagram
  | pipeIn => cases hdatagram
  | pipeOut inlet => cases hdatagram

/-- What the connection does not look at while frames are relayed. -/
theorem Posting.of_same (hc : Posting c) (hphase : d.phase = c.phase)
    (hclient : d.toClient.TakesAll) (hpost : d.toPeer = c.toPeer)
    (hpeer : d.peer.map (·.isDatagram) = c.peer.map (·.isDatagram)) : Posting d := by
  have hdatagram := hpeer.trans hc.datagram
  refine ⟨⟨hphase.trans hc.phase, ?_, hclient, hpost ▸ hc.toPeer⟩, hdatagram⟩
  obtain ⟨socket, hsocket, hsome⟩ := Option.map_eq_some_iff.mp hdatagram
  refine ⟨socket, hsocket, ?_⟩
  rintro inlet rfl
  cases hsome

variable {p : Frame.Passed} {n : Nat} {inlet : Inlet} {bytes heard : Bytes}

theorem act_posts (hc : Posting c) {i : Intent} (hi : i ≠ .close) (hop : p.opcode ∈ i.opcodes) :
    ∃ d, act p.payload c i = (.ok .continue, d) ∧ Posting d ∧ postLedger.Notes c [p] d := by
  obtain ⟨waiting, tail, hpeer⟩ := hc.socket
  obtain ⟨d, hact, hd, -⟩ := act_of_relaying hc.toRelaying hi hop
  have hsame := (act_moves p.payload i hc.phase).relaying hc.phase
  rw [hact] at hsame
  refine ⟨d, hact, ⟨hd, ?_⟩, ?_⟩
  · rw [hsame.2.2.1]
    exact hc.datagram
  obtain ⟨op, payload⟩ := p
  cases i with
  | forward =>
      simp only [act, sendToPeer, hpeer, PeerSocket.send, PeerSocket.send.offerTo,
        hc.toPeer.offer, Prod.mk.injEq, true_and] at hact
      subst hact
      simp only [Intent.opcodes, List.mem_cons, List.not_mem_nil, or_false] at hop
      have hoffer := (congrArg Prod.snd (hc.toPeer.offer payload)).symm
      rcases hop with rfl | rfl
      · exact hoffer
      · exact hoffer
  | pong =>
      simp only [act, hc.toClient.offer, Prod.mk.injEq, true_and] at hact
      subst hact
      simp only [Intent.opcodes, List.mem_cons, List.not_mem_nil, or_false] at hop
      subst hop
      rfl
  | ignore =>
      cases hact
      simp only [Intent.opcodes, List.mem_cons, List.not_mem_nil, or_false] at hop
      subst hop
      rfl
  | close => exact absurd rfl hi

variable (router : Router σ)

/-- Every step offers the peer's socket what the interpreter says is a message. -/
theorem performs_posts :
    postLedger.Performs Frame.interpreter (useStep router) afterUse Posting Posting where
  wait c hc hr := by
    obtain ⟨hstep, hafter⟩ := useStep_wait router hc.phase hr
    refine ⟨_, hstep, ?_⟩
    rw [hafter]
    exact ⟨rfl, rfl, hc, rfl⟩
  stop c t hc hr := by
    obtain ⟨result, hstep, hclose, -, htp⟩ := useStep_stop router hc.phase hr
    exact ⟨result, hstep, hclose, htp⟩
  pass c p n hc hr := by
    obtain ⟨buffer, i, hclose, hop, hstep⟩ := frameStep_act hr
    have hc' : Posting { c with clientBuffer := buffer } :=
      ⟨⟨hc.phase, hc.peer, hc.toClient, hc.toPeer⟩, hc.datagram⟩
    obtain ⟨d, hact, hd, hnotes⟩ := act_posts hc' hclose hop
    obtain ⟨hagain, hbuffer⟩ := hstep d hact
    rw [useStep_frame router hc.phase]
    exact ⟨_, hagain, ⟨⟨hd.phase, hd.peer, hd.toClient, hd.toPeer⟩, hd.datagram⟩, hnotes, hbuffer⟩

/-- What a read brings is interpreted. -/
theorem digestClient_posts (hc : Posting c) (bytes : Bytes) :
    (digestClient router bytes c).1.verdict =
        (Frame.interpreter.run (c.clientBuffer ++ bytes)).verdict ∧
      postLedger.Notes c (Frame.interpreter.run (c.clientBuffer ++ bytes)).items
        (digestClient router bytes c).2 ∧
      ((digestClient router bytes c).1 = .ok .continue →
        Posting (digestClient router bytes c).2 ∧
        (digestClient router bytes c).2.clientBuffer =
          (Frame.interpreter.run (c.clientBuffer ++ bytes)).rest) := by
  have hc' : Posting { c with clientBuffer := c.clientBuffer ++ bytes } :=
    ⟨⟨hc.phase, hc.peer, hc.toClient, hc.toPeer⟩, hc.datagram⟩
  obtain ⟨hv, hnotes, hgo⟩ := (performs_posts router).run (useStep_descends router) hc'
  exact ⟨hv, hnotes, fun h => hgo (congrArg Outcome.verdict h)⟩

/-- What reading from the client leads to: `heard` was read, and has been interpreted. -/
structure Hears (c : Connection σ) (inlet : Inlet) (heard : Bytes)
    (r : Outcome × Inlet × Connection σ) : Prop where
  waits : heard ++ r.2.1.waiting = inlet.waiting
  notes : postLedger.Notes c (Frame.interpreter.run (c.clientBuffer ++ heard)).items r.2.2
  goes : r.1 = .ok .continue → Posting r.2.2 ∧
    (Frame.interpreter.run (c.clientBuffer ++ heard)).verdict = .continue ∧
    r.2.2.clientBuffer = (Frame.interpreter.run (c.clientBuffer ++ heard)).rest

/-- A buffer that waits is left as it is. -/
theorem run_waiting {buffer : Bytes} (hwait : Frame.ruling buffer = .wait) :
    Frame.interpreter.run (buffer ++ []) = { rest := buffer } := by
  rw [List.append_nil]
  exact Interpreter.run_wait hwait

/-- Nothing was read. -/
theorem hears_nothing (hc : Posting c) (hwait : Frame.ruling c.clientBuffer = .wait)
    (o : Outcome) (inlet : Inlet) : Hears c inlet [] (o, inlet, c) := by
  refine ⟨rfl, ?_, fun _ => ⟨hc, ?_, ?_⟩⟩
  · rw [run_waiting hwait]
    exact Ledger.notes_nil rfl
  · rw [run_waiting hwait]
  · rw [run_waiting hwait]

/-- **What waits at the client's socket is interpreted**, as far as it is read. -/
theorem takeFromClient_hears (hc : Posting c) (hwait : Frame.ruling c.clientBuffer = .wait)
    (inlet : Inlet) : ∃ heard, Hears c inlet heard (takeFromClient router (inlet, c)) := by
  refine Loop.induction (motive := fun (s : Inlet × Connection σ) r => Posting s.2 →
    Frame.ruling s.2.clientBuffer = .wait → ∃ heard, Hears s.2 s.1 heard r) ?_ ?_
    (inlet, c) hc hwait
  · rintro ⟨inlet, c⟩ r hs hc hwait
    by_cases hwaiting : inlet.waiting = []
    · obtain ⟨o, hidle⟩ := clientStep_idle router hwaiting c
      cases hidle.symm.trans hs
      exact ⟨[], hears_nothing hc hwait o inlet⟩
    · rw [clientStep_waiting router hwaiting
        (Nat.sub_pos_of_lt (Frame.length_lt_of_wait hwait))] at hs
      obtain ⟨-, hnotes, -⟩ := digestClient_posts router hc (inlet.waiting.take (clientRoom c))
      refine ⟨inlet.waiting.take (clientRoom c), ?_⟩
      rcases hd : digestClient router (inlet.waiting.take (clientRoom c)) c with ⟨e | _ | t, d⟩
      all_goals rw [hd] at hs hnotes
      · cases hs
        exact ⟨List.take_append_drop _ _, hnotes, nofun⟩
      · cases hs
      · cases hs
        exact ⟨List.take_append_drop _ _, hnotes, nofun⟩
  · rintro ⟨inlet, c⟩ ⟨inlet', d⟩ hs ih hc hwait
    have hwaiting : inlet.waiting ≠ [] := fun hempty => by
      obtain ⟨o, hidle⟩ := clientStep_idle router hempty c
      cases hidle.symm.trans hs
    rw [clientStep_waiting router hwaiting
      (Nat.sub_pos_of_lt (Frame.length_lt_of_wait hwait))] at hs
    obtain ⟨hv, hnotes, hgo⟩ := digestClient_posts router hc (inlet.waiting.take (clientRoom c))
    rcases hd : digestClient router (inlet.waiting.take (clientRoom c)) c with ⟨e | _ | t, d'⟩
    all_goals rw [hd] at hs hv hnotes hgo
    · cases hs
    · cases hs
      obtain ⟨hposting, hrest⟩ := hgo rfl
      obtain ⟨heard, hheard⟩ := ih hposting (by
        rw [hrest]
        exact Interpreter.ruling_rest hv.symm)
      have happend := Interpreter.run_append (I := Frame.interpreter) heard hv.symm
      rw [List.append_assoc, ← hrest] at happend
      refine ⟨inlet.waiting.take (clientRoom c) ++ heard, ?_, ?_, fun ho => ?_⟩
      · rw [List.append_assoc, hheard.waits]
        exact List.take_append_drop _ _
      · rw [happend]
        exact hnotes.trans hheard.notes
      · rw [happend]
        exact hheard.goes ho
    · cases hs

variable {first : Connection σ} {router}

/-- **What has become of a client's bytes** in the course of operations: `heard` have been read, and
interpreted; each message in it was offered to the peer's socket once, and all other bytes still
wait. -/
structure Posted (first : Connection σ) (ops : List (Operation σ)) (heard : Bytes)
    (c : Connection σ) : Prop extends Posting c where
  waits : heard ++ c.fromClient.waiting =
    first.fromClient.waiting ++ ops.flatMap Operation.spoken
  goes : (Frame.interpreter.run (first.clientBuffer ++ heard)).verdict = .continue
  rest : c.clientBuffer = (Frame.interpreter.run (first.clientBuffer ++ heard)).rest
  offered : postLedger.Notes first (Frame.interpreter.run (first.clientBuffer ++ heard)).items c

theorem Posted.nothing (hc : Posting c) (hwait : Frame.ruling c.clientBuffer = .wait) :
    Posted c [] [] c := by
  refine ⟨hc, (List.append_nil _).symm, ?_, ?_, ?_⟩
  · rw [run_waiting hwait]
  · rw [run_waiting hwait]
  · rw [run_waiting hwait]
    exact Ledger.notes_nil rfl

/-- An operation by which nothing is read from the client. -/
theorem Posted.unread (h : Posted first ops heard c) {op : Operation σ}
    (hphase : d.phase = c.phase) (hclient : d.toClient.TakesAll) (hpost : d.toPeer = c.toPeer)
    (hpeer : d.peer.map (·.isDatagram) = c.peer.map (·.isDatagram))
    (hbuffer : d.clientBuffer = c.clientBuffer)
    (hwaits : d.fromClient.waiting = c.fromClient.waiting ++ op.spoken) :
    Posted first (ops ++ [op]) heard d where
  toPosting := h.toPosting.of_same hphase hclient hpost hpeer
  waits := by
    rw [hwaits, ← List.append_assoc, h.waits, List.flatMap_append, List.flatMap_singleton,
      List.append_assoc]
  goes := h.goes
  rest := hbuffer.trans h.rest
  offered := hpost.trans h.offered

/-- Reading from the client once more. -/
theorem Posted.hears (h : Posted first ops heard c) (router : Router σ)
    (dial : Endpoint → Except IoFault PeerSocket) :
    ∃ more, more ++ ({ c with dial }.readClient router).2.fromClient.waiting =
        c.fromClient.waiting ∧
      postLedger.Notes first (Frame.interpreter.run (first.clientBuffer ++ (heard ++ more))).items
        ({ c with dial }.readClient router).2 ∧
      (({ c with dial }.readClient router).1 = .continue →
        Posted first (ops ++ [.readClient router dial]) (heard ++ more)
          ({ c with dial }.readClient router).2) := by
  have hc : Posting { c with dial } := h.toPosting.of_same rfl h.toClient rfl rfl
  have hwait : Frame.ruling c.clientBuffer = .wait := by
    rw [h.rest]
    exact Interpreter.ruling_rest h.goes
  obtain ⟨more, hmore⟩ := takeFromClient_hears router (c := { c with dial }) hc hwait c.fromClient
  have happend := Interpreter.run_append (I := Frame.interpreter) more h.goes
  rw [List.append_assoc, ← h.rest] at happend
  have hnotes : postLedger.Notes first
      (Frame.interpreter.run (first.clientBuffer ++ (heard ++ more))).items
      ({ c with dial }.readClient router).2 := by
    rw [happend]
    exact Ledger.Notes.trans h.offered hmore.notes
  refine ⟨more, hmore.waits, hnotes, fun hgo => ?_⟩
  obtain ⟨hposting, hgoes, hrest⟩ := hmore.goes (Outcome.eq_continue hgo)
  refine ⟨hposting.of_same rfl hposting.toClient rfl rfl, ?_, ?_, ?_, hnotes⟩
  · have hwaits := (congrArg (heard ++ ·) hmore.waits).trans h.waits
    rw [List.append_assoc, List.flatMap_append, List.flatMap_singleton]
    exact hwaits.trans (congrArg _ (List.append_nil _).symm)
  · rw [happend]
    exact hgoes
  · rw [happend]
    exact hrest

/-- Every operation that does not end a connection, and after which it is to go on, keeps to the
interpretation of what the client sends. -/
theorem Posted.apply (h : Posted first ops heard c) (op : Operation σ) (hop : op.goesOn = true)
    (hgo : ∀ v ∈ (op.apply c).1, v = .continue) :
    ∃ heard, Posted first (ops ++ [op]) heard (op.apply c).2 := by
  have hmap {f : PeerSocket → PeerSocket} (hf : ∀ s, (f s).isDatagram = s.isDatagram) :
      (c.peer.map f).map (·.isDatagram) = c.peer.map (·.isDatagram) := by
    rw [Option.map_map]
    exact congrArg (c.peer.map ·) (funext hf)
  have hsame := (List.append_nil c.fromClient.waiting).symm
  cases op with
  | close termination => cases hop
  | release => cases hop
  | readClient router dial =>
      obtain ⟨more, -, -, hgoes⟩ := h.hears router dial
      exact ⟨_, hgoes (hgo _ rfl)⟩
  | readPeer =>
      obtain ⟨hserving, hhalf, -⟩ := readPeer_relays ⟨h.phase, h.toClient⟩
      refine ⟨heard, h.unread (hserving.phase.trans h.phase.symm) hserving.takes
        (congrArg ClientHalf.toPeer hhalf) ?_ (congrArg ClientHalf.buffer hhalf) ?_⟩
      · exact keeps_readPeer PeerSocket.isDatagram_read c
      · exact (congrArg (·.fromClient.waiting) hhalf).trans hsame
  | beginWatch side watch => cases side <;> exact ⟨_, h.unread rfl h.toClient rfl rfl rfl hsame⟩
  | endWatch side => cases side <;> exact ⟨_, h.unread rfl h.toClient rfl rfl rfl hsame⟩
  | arrive side bytes =>
      cases side with
      | client => exact ⟨_, h.unread rfl h.toClient rfl rfl rfl rfl⟩
      | peer =>
          refine ⟨_, h.unread rfl h.toClient rfl (hmap fun s => ?_) rfl hsame⟩
          cases s <;> rfl
  | hangUp side tail =>
      cases side with
      | client => exact ⟨_, h.unread rfl h.toClient rfl rfl rfl hsame⟩
      | peer =>
          refine ⟨_, h.unread rfl h.toClient rfl (hmap fun s => ?_) rfl hsame⟩
          cases s <;> rfl

/-! ### Both directions -/

/-- What is kept by every operation is kept by operations one after the other. -/
theorem Datagrams.run (h : Datagrams route queued tail before ops read units c)
    (hposted : Posted first ops heard c) (more : List (Operation σ))
    (hmore : ∀ op ∈ more, op.goesOn = true) (hgo : ∀ v ∈ (run more c).1, v = .continue) :
    ∃ read units heard, Datagrams route queued tail before (ops ++ more) read units
      (Connection.run more c).2 ∧ Posted first (ops ++ more) heard (Connection.run more c).2 := by
  induction more generalizing ops read units heard c with
  | nil =>
      rw [List.append_nil]
      exact ⟨read, units, heard, h, hposted⟩
  | cons op more ih =>
      rw [run_cons] at hgo ⊢
      have hop := hmore op List.mem_cons_self
      have hverdict (v : Verdict) (hv : v ∈ (op.apply c).1) : v = .continue :=
        hgo v (List.mem_append_left _ (Option.mem_toList.mpr hv))
      obtain ⟨read', units', hread⟩ := h.apply hposted.toClient op hop hverdict
      obtain ⟨heard', hheard⟩ := hposted.apply op hop hverdict
      obtain ⟨read'', units'', heard'', hrest⟩ :=
        ih hread hheard (fun op hmem => hmore op (List.mem_cons_of_mem _ hmem))
          fun v hv => hgo v (List.mem_append_right _ hv)
      rw [List.append_assoc, List.singleton_append] at hrest
      exact ⟨read'', units'', heard'', hrest⟩

/-- **What the datagrams that wait lead to** when the peer's socket is readable. -/
structure TakesWhole (route : Route σ) (waiting : List Bytes) (tail : Tail) (c : Connection σ) :
    Prop where
  /-- They are taken whole, one after the other, unless one of them closes the connection. -/
  reads : c.readPeer =
    match takeDatagrams waiting c with
    | (some (e, left), d) => (.close e.termination, d.setPeer (.datagram left tail))
    | (none, d) => ((idleOutcome tail).verdict, d.setPeer (.datagram [] tail))
  /-- One that leaves no room behind it closes the connection, and is not looked at. -/
  long : ∀ front x back d, waiting = front ++ x :: back → takeDatagrams front c = (none, d) →
    peerRoom d ≤ x.length →
    c.readPeer = (.close (.close .tooLarge "Receive size limit exceeded"),
      d.setPeer (.datagram back tail))
  /-- An empty one is nothing to a framing of this library. -/
  empty : ∀ name, FramingTable.standard.get? name = some route.framing → ∀ front back d,
    waiting = front ++ [] :: back → takeDatagrams front c = (none, d) →
    takePeerBytes [] d = (none, d)
  /-- And so they might as well not come. -/
  without : ∀ name, FramingTable.standard.get? name = some route.framing →
    (takeDatagrams waiting c).2 = (takeDatagrams (waiting.filter (· ≠ [])) c).2 ∧
      (takeDatagrams waiting c).1.map (·.1) =
        (takeDatagrams (waiting.filter (· ≠ [])) c).1.map (·.1)

theorem Awaiting.takesWhole {waiting : List Bytes} (hc : Awaiting route c)
    (hpeer : c.peer = some (.datagram waiting tail)) : TakesWhole route waiting tail c where
  reads := readPeer_datagrams hpeer
  long front x back d hwaiting hfront hlong := by
    have hreads := readPeer_datagrams hpeer
    rw [hwaiting, takeDatagrams_append (by rw [hfront]), hfront, takeDatagrams_long hlong] at hreads
    exact hreads
  empty name hname front back d _ hfront := by
    have hd := takeDatagrams_awaiting hc front (by rw [hfront])
    rw [hfront] at hd
    exact takePeerBytes_nil (waitsOn_standard hname) hd
  without name hname := takeDatagrams_filter (waitsOn_standard hname) hc waiting

/-- **Datagrams are passed on** in one frame each, up to the first that is as long as the buffer, if
what waits is read as well; such a datagram closes the connection. -/
structure PassesAll (textual : Bytes → Bool) (before : List Reply) (xs : List Bytes)
    (r : Verdict × Connection σ) : Prop where
  frames : ∃ frames, r.2.toClient.taken = before ++ frames ∧
    frames.filter (!·.isPong) = (passable xs).map (passedOn textual)
  close : (∃ x ∈ xs, bufferCapacity ≤ x.length) →
    r.1 = .close (.close .tooLarge "Receive size limit exceeded")

theorem Datagrams.passesAll {textual : Bytes → Bool}
    (h : Datagrams route queued tail before ops read units c) (hclient : c.toClient.TakesAll)
    (hrule : PassesOn textual route.framing.rule) :
    PassesAll textual before (queued ++ ops.filterMap Operation.datagram?) c.readPeer := by
  obtain ⟨waiting, tail', hpeer, hread⟩ := h.socket
  obtain ⟨hbuffer, hunits⟩ := h.passed textual hrule
  obtain ⟨-, htaken, herror⟩ :=
    takeDatagrams_passed hrule ⟨h.awaiting.hasRoute, hbuffer, hclient⟩ waiting
  obtain ⟨frames, hframes, hfilter, -⟩ := h.sends
  have hreads := readPeer_datagrams hpeer
  rw [← hread]
  have hunit (xs : List Bytes) :
      (xs.map (passedOn textual)).filter (!·.isPong) = xs.map (passedOn textual) := by
    refine List.filter_eq_self.mpr (List.forall_mem_map.mpr fun x _ => ?_)
    unfold passedOn
    split <;> rfl
  constructor
  · refine ⟨frames ++ (passable waiting).map (passedOn textual), ?_, ?_⟩
    · have hafter : c.readPeer.2.toClient = (takeDatagrams waiting c).2.toClient := by
        rw [hreads]
        rcases takeDatagrams waiting c with ⟨_ | ⟨e, left⟩, d⟩ <;> rfl
      rw [hafter, htaken, hframes, List.append_assoc]
      rfl
    · rw [List.filter_append, hfilter, hunits, passable_append h.short, List.map_append, hunit]
  · rintro ⟨x, hx, hlong⟩
    have hwaits : x ∈ waiting := (List.mem_append.mp hx).resolve_left fun hmem =>
      absurd hlong (Nat.not_le.mpr (h.short x hmem))
    rw [if_neg fun hall => absurd hlong (Nat.not_le.mpr (hall x hwaits))] at herror
    obtain ⟨⟨e, left⟩, hsome, rfl⟩ := Option.map_eq_some_iff.mp herror
    rw [hreads]
    rcases ht : takeDatagrams waiting c with ⟨stopped, d⟩
    rw [ht] at hsome
    dsimp only at hsome
    subst hsome
    rfl

/-- **Messages are sent to a peer**, each in one datagram: it is offered once, and taken. -/
structure Delivers (before after : Outlet Bytes) (messages : List Bytes) : Prop where
  taken : after.taken = before.taken ++ messages
  offered : after.offered = before.offered + messages.length

theorem delivers_of_notes {frames : List Frame.Passed} (hall : c.toPeer.TakesAll)
    (h : postLedger.Notes c frames d) :
    Delivers c.toPeer d.toPeer (frames.filterMap Frame.Passed.message?) := by
  obtain ⟨-, htaken, hoffered⟩ := hall.offerAll (frames.filterMap Frame.Passed.message?)
  have h : d.toPeer = c.toPeer.offerAll (frames.filterMap Frame.Passed.message?) := h
  rw [h]
  exact ⟨htaken, hoffered⟩

/-- The framings that pass on all there is, by their names, and what they pass on as text. -/
def isPassing (name : String) (textual : Bytes → Bool) : Prop :=
  (name = "binary" ∧ textual = fun _ => false) ∨ (name = "auto" ∧ textual = isTextual)

theorem passesOn_of_isPassing {name : String} {textual : Bytes → Bool} {framing : Framing σ}
    (h : isPassing name textual) (hname : FramingTable.standard.get? name = some framing) :
    PassesOn textual framing.rule := by
  rcases h with ⟨rfl, rfl⟩ | ⟨rfl, rfl⟩
  · obtain rfl : ⟨"binary", binary⟩ = framing := Option.some.inj hname
    exact passesOn_binary
  · obtain rfl : ⟨"auto", auto⟩ = framing := Option.some.inj hname
    exact passesOn_auto

/-- **Datagrams are kept apart** in both directions, as long as what is sent is taken.  A connection
that has just been upgraded has, as long as it is to go on, read its peer's datagrams whole and in
order, and cut the units it has sent out of their bytes.  What waits is read in the same way
(`TakesWhole`); a framing that passes on all there is sends one frame for each datagram that is not
empty (`PassesAll`).  The messages that the client has sent, empty ones as well, have been sent to
the peer in one datagram each, and so are those that are read next.

The first part is about frames that stand in the client's buffer when they come to be used, be it
in the same read as the line that ends the request. -/
theorem run_datagrams (hc : Unread route (.datagram queued tail) c)
    (hwait : Frame.ruling c.clientBuffer = .wait) (hclient : c.toClient.TakesAll)
    (hpeer : c.toPeer.TakesAll) (ops : List (Operation σ)) (hops : ∀ op ∈ ops, op.goesOn = true)
    (hgo : ∀ v ∈ (run ops c).1, v = .continue) :
    let d := (run ops c).2
    let arrived := queued ++ ops.filterMap Operation.datagram?
    (∀ router (e : Connection σ), Posting e → Delivers e.toPeer (useClientBuffer router e).2.toPeer
      (Frame.interpreter.run e.clientBuffer).messages) ∧
    ∃ read units heard,
      (Datagrams route queued tail c.toClient.taken ops read units d ∧
        units.flatMap (·.payload) ++ d.peerBuffer = read.flatten ∧
        ∀ waiting tail, d.peer = some (.datagram waiting tail) →
          read ++ waiting = arrived ∧ TakesWhole route waiting tail d) ∧
      (∀ name textual, isPassing name textual →
        FramingTable.standard.get? name = some route.framing →
        PassesAll textual c.toClient.taken arrived d.readPeer) ∧
      (Posted c ops heard d ∧
        Delivers c.toPeer d.toPeer (Frame.interpreter.run (c.clientBuffer ++ heard)).messages) ∧
      ∀ router dial, ∃ more, more <+: d.fromClient.waiting ∧
        Delivers c.toPeer ({ d with dial }.readClient router).2.toPeer
          (Frame.interpreter.run (c.clientBuffer ++ (heard ++ more))).messages := by
  intro d arrived
  refine ⟨fun router e he => ?_, ?_⟩
  · have hsame (r : Outcome × Connection σ) : (afterUse r).2.toPeer = r.2.toPeer := by
      rcases r with ⟨e | _ | t, b⟩
      · rfl
      · dsimp only [afterUse, checkRoom]
        split <;> rfl
      · rfl
    obtain ⟨-, hnotes, -⟩ := (performs_posts router).run (useStep_descends router) he
    have hdelivers := delivers_of_notes he.toPeer hnotes
    rw [hsame] at hdelivers
    exact hdelivers
  · have hposting : Posting c := by
      refine ⟨⟨hc.phase, ⟨_, hc.peer, nofun⟩, hclient, hpeer⟩, ?_⟩
      rw [hc.peer]
      rfl
    obtain ⟨read, units, heard, hdatagrams, hposted⟩ :=
      hc.datagrams.run (.nothing hposting hwait) ops hops hgo
    rw [List.nil_append] at hdatagrams hposted
    obtain ⟨n, hcutting⟩ := hdatagrams.cutting
    refine ⟨read, units, heard,
      ⟨hdatagrams, hcutting.cuts.conserves, fun waiting tail' hsocket => ?_⟩,
      fun name textual hpassing hname => ?_, ⟨hposted, ?_⟩, fun router dial => ?_⟩
    · obtain ⟨waiting', tail'', hsocket', hread⟩ := hdatagrams.socket
      obtain ⟨rfl, rfl⟩ := PeerSocket.datagram.inj (Option.some.inj (hsocket'.symm.trans hsocket))
      exact ⟨hread, hdatagrams.awaiting.takesWhole hsocket⟩
    · exact hdatagrams.passesAll hposted.toClient (passesOn_of_isPassing hpassing hname)
    · exact delivers_of_notes hpeer hposted.offered
    · obtain ⟨more, hwaits, hnotes, -⟩ := hposted.hears router dial
      exact ⟨more, ⟨_, hwaits⟩, delivers_of_notes hpeer hnotes⟩

/-- An empty datagram and a text to a client that sends two empty messages, where `auto` passes on
all there is. -/
theorem run_datagrams_auto :
    let route : Route Unit := { host := "", framing := ⟨"auto", auto⟩ }
    let c : Connection Unit :=
      { id := ⟨0, 0⟩, phase := .relaying, dial := fun _ => .error .unsupported,
        peer := some (.datagram [] .more), route := some route }
    let frame : Bytes := [0x81, 0x80, 1, 2, 3, 4]
    let ops : List (Operation Unit) :=
      [.arrive .peer [], .arrive .peer [104, 105], .readPeer, .arrive .client (frame ++ frame),
        .readClient (fun _ => none) c.dial]
    let d := (run ops c).2
    (Unread route (.datagram [] .more) c ∧ Frame.ruling c.clientBuffer = .wait ∧
      c.toClient.TakesAll ∧ c.toPeer.TakesAll ∧ (∀ op ∈ ops, op.goesOn = true) ∧
      ∀ v ∈ (run ops c).1, v = .continue) ∧
    PassesAll isTextual [] [[], [104, 105]] d.readPeer ∧
    ∃ heard, Delivers {} d.toPeer (Frame.interpreter.run heard).messages := by
  intro route c frame ops d
  have hc : Unread route (.datagram [] .more) c := ⟨rfl, rfl, rfl, rfl, rfl⟩
  have hall : c.toClient.TakesAll ∧ c.toPeer.TakesAll := ⟨fun _ => rfl, fun _ => rfl⟩
  have hops : ∀ op ∈ ops, op.goesOn = true := by decide
  have hgo : ∀ v ∈ (run ops c).1, v = .continue := by decide +kernel
  obtain ⟨-, read, units, heard, -, hpasses, ⟨-, hdelivers⟩, -⟩ :=
    run_datagrams hc rfl hall.1 hall.2 ops hops hgo
  exact ⟨⟨hc, rfl, hall.1, hall.2, hops, hgo⟩,
    hpasses "auto" isTextual (.inr ⟨rfl, rfl⟩) rfl, heard, hdelivers⟩

end Connection

end WsRelay
