import WsRelay.Proofs.Client.Chunking
import WsRelay.Proofs.Connection.Operations
/-! # What holds of a connection all its life

A connection is `Coherent`: it holds a peer and a route exactly while it relays, it remembers
something for a framing and holds bytes of a peer at most while it relays, and its buffers never
hold more than their capacity.  Every move keeps this (`Move.coherent`), and no move takes a
connection back to an earlier phase (`Move.rank_le`), so both hold through any life
(`run_coherent`).

As long as no verdict was to close, both buffers have room left between operations (`run_room`).

A frame is looked for only in states that the client's loops pass through (`LooksAtClient`), and a
unit only in states that the peer's loops pass through (`LooksAtPeer`).  These are reached by moves
too, hence coherent: a peer is at hand whenever a frame is looked for, and a route whenever a unit
is. -/

namespace WsRelay

/-- The phases in the order in which a connection goes through them. -/
def Phase.rank : Phase → Nat
  | requestLine => 0
  | headers => 1
  | relaying => 2
  | closed => 3

namespace Connection

variable {σ : Type} {router : Router σ} {c d : Connection σ}

/-- The parts of a connection agree with its phase. -/
structure Coherent (c : Connection σ) : Prop where
  /-- A peer is held exactly while there is relaying. -/
  peer : c.peer.isSome ↔ c.phase = .relaying
  /-- It is known where the connection goes exactly while there is relaying. -/
  route : c.route.isSome ↔ c.phase = .relaying
  memory : c.memory ≠ .empty → c.phase = .relaying
  peerBuffer : c.peerBuffer ≠ [] → c.phase = .relaying
  clientFits : c.clientBuffer.length ≤ bufferCapacity
  peerFits : c.peerBuffer.length ≤ bufferCapacity

theorem coherent_fresh (id : SlotId) (address : String)
    (dial : Endpoint → Except IoFault PeerSocket) (toClient : Outlet Reply)
    (toPeer : Outlet Bytes) :
    Coherent (fresh id address dial toClient toPeer : Connection σ) where
  peer := ⟨nofun, nofun⟩
  route := ⟨nofun, nofun⟩
  memory h := absurd rfl h
  peerBuffer h := absurd rfl h
  clientFits := Nat.zero_le _
  peerFits := Nat.zero_le _

/-! ### Moves keep coherence -/

/-- What is read where there is room for it fits. -/
theorem clientFits_read {bytes : Bytes} (h : bytes.length ≤ clientRoom c)
    (hc : c.clientBuffer.length ≤ bufferCapacity) :
    (c.clientBuffer ++ bytes).length ≤ bufferCapacity := by
  unfold clientRoom at h
  rw [List.length_append]
  omega

theorem peerFits_read {bytes : Bytes} (h : bytes.length ≤ peerRoom c)
    (hc : c.peerBuffer.length ≤ bufferCapacity) :
    (c.peerBuffer ++ bytes).length ≤ bufferCapacity := by
  unfold peerRoom at h
  rw [List.length_append]
  omega

theorem length_dropUnit_le (n : Nat) (c : Connection σ) :
    (c.dropUnit n).peerBuffer.length ≤ c.peerBuffer.length := by
  rw [dropUnit, List.length_drop]
  exact Nat.sub_le _ _

theorem ClientMove.coherent (hc : Coherent c) (h : ClientMove c d) : Coherent d := by
  cases h with
  | read bytes hroom => exact { hc with clientFits := clientFits_read hroom hc.clientFits }
  | use buffer hlen => exact { hc with clientFits := Nat.le_trans hlen hc.clientFits }
  | «open» path hphase =>
      have hnot : c.phase ≠ .relaying := by
        rw [hphase]
        exact nofun
      exact {
        peer := ⟨fun h => absurd (hc.peer.mp h) hnot, nofun⟩
        route := ⟨fun h => absurd (hc.route.mp h) hnot, nofun⟩
        memory := fun h => absurd (hc.memory h) hnot
        peerBuffer := fun h => absurd (hc.peerBuffer h) hnot
        clientFits := hc.clientFits
        peerFits := hc.peerFits }
  | header request hphase => exact { hc with }
  | upgrade accept protocol route socket hphase hsent =>
      exact {
        peer := ⟨fun _ => rfl, fun _ => rfl⟩
        route := ⟨fun _ => rfl, fun _ => rfl⟩
        memory := fun _ => rfl
        peerBuffer := fun _ => rfl
        clientFits := hc.clientFits
        peerFits := hc.peerFits }
  | untold accept protocol hphase hrefused => exact { hc with }
  | forward outlet hphase => exact { hc with }
  | pong payload hphase => exact { hc with }

theorem PeerMove.coherent (hc : Coherent c) (h : PeerMove c d) : Coherent d := by
  cases h with
  | read bytes hpeer hroom =>
      exact { hc with
        peerBuffer := fun _ => hc.peer.mp hpeer
        peerFits := peerFits_read hroom hc.peerFits }
  | use n =>
      refine { hc with
        peerBuffer := fun hne => hc.peerBuffer fun h => hne ?_
        peerFits := Nat.le_trans (length_dropUnit_le n c) hc.peerFits }
      rw [dropUnit, h, List.drop_nil]
  | remember memory hroute => exact { hc with memory := fun _ => hc.route.mp hroute }
  | message kind payload hroute hkind => exact { hc with }

/-- What the framing remembers is given up with the route. -/
theorem memory_release (h : c.route = none → c.memory = .empty) : c.release.memory = .empty := by
  unfold release
  dsimp only
  split
  · rfl
  · next hroute => exact h hroute

/-- Whatever was there before the end, nothing of it is left. -/
theorem Coherent.release (hc : Coherent c) : Coherent c.release where
  peer := ⟨nofun, nofun⟩
  route := ⟨nofun, nofun⟩
  memory h := by
    refine absurd (memory_release fun hroute => Classical.byContradiction fun hmemory => ?_) h
    have := hc.route.mpr (hc.memory hmemory)
    rw [hroute] at this
    cases this
  peerBuffer h := absurd rfl h
  clientFits := Nat.zero_le _
  peerFits := Nat.zero_le _

/-- Every move keeps a connection coherent. -/
theorem Move.coherent (hc : Coherent c) (h : Move c d) : Coherent d := by
  cases h with
  | client h => exact h.coherent hc
  | peer h => exact h.coherent hc
  | sockets fromClient dial f => exact { hc with peer := by rw [Option.isSome_map]; exact hc.peer }
  | waits clientWatch peerWatch aborted => exact { hc with }
  | release => exact hc.release
  | goodbye _ => exact Coherent.release { hc with }

theorem Moves.coherent (h : Moves c d) (hc : Coherent c) : Coherent d :=
  h.keeps (fun _ _ hc h => h.coherent hc) hc

/-- No move leads back to an earlier phase. -/
theorem Move.rank_le (h : Move c d) : c.phase.rank ≤ d.phase.rank := by
  have hclosed (p : Phase) : p.rank ≤ Phase.closed.rank := by cases p <;> decide
  cases h with
  | client h =>
      cases h with
      | «open» path hphase =>
          rw [hphase]
          exact Nat.zero_le _
      | upgrade accept protocol route socket hphase hsent =>
          rw [hphase]
          exact Nat.le_succ _
      | _ => exact Nat.le_refl _
  | peer h => cases h <;> exact Nat.le_refl _
  | release => exact hclosed _
  | goodbye _ => exact hclosed _
  | _ => exact Nat.le_refl _

theorem Moves.rank_le (h : Moves c d) : c.phase.rank ≤ d.phase.rank := by
  induction h with
  | refl => exact Nat.le_refl _
  | tail _ hm ih => exact Nat.le_trans ih hm.rank_le

/-! ### Room in the buffers -/

/-- Both buffers have room left. -/
structure HasRoom (c : Connection σ) : Prop where
  client : c.clientBuffer.length < bufferCapacity
  peer : c.peerBuffer.length < bufferCapacity

/-- The client's loop goes on only with room left in the buffer. -/
theorem ClientReads.room {s t : Inlet × Connection σ} (h : ClientReads router s (.again t))
    (hs : s.2.clientBuffer.length < bufferCapacity) :
    t.2.clientBuffer.length < bufferCapacity := by
  cases h with
  | again hr hu hroom =>
      have hlen := Inlet.length_read_le hr
      have hle := length_useClientBuffer_le hu
      unfold clientRoom at hlen
      simp only [List.length_append] at hle
      dsimp only
      omega

/-- If reading from the client is not to end with a close, it ends where it found nothing. -/
theorem ClientReads.continue {s : Inlet × Connection σ} {inlet : Inlet}
    (h : ClientReads router s (.done (.ok .continue, inlet, d))) : d = s.2 := by
  cases h with
  | nothing => rfl
  | closed _ _ hend => exact (hend rfl).elim

theorem readClient_room (h : (c.readClient router).1 = .continue)
    (hc : c.clientBuffer.length < bufferCapacity) :
    (c.readClient router).2.clientBuffer.length < bufferCapacity := by
  -- the last repetition starts with room in the buffer, and changes nothing but the socket
  obtain ⟨s, hs, hdone⟩ : ∃ s : Inlet × Connection σ, s.2.clientBuffer.length < bufferCapacity ∧
      clientStep router s = .done (takeFromClient router (c.fromClient, c)) :=
    Loop.invariant (fun s => s.2.clientBuffer.length < bufferCapacity)
      (fun s _ hs h => ClientReads.room (h ▸ clientStep_reads router s) hs) (c.fromClient, c) hc
  have ho : (takeFromClient router (c.fromClient, c)).1 = .ok .continue :=
    Outcome.eq_continue h
  rcases ht : takeFromClient router (c.fromClient, c) with ⟨o, inlet, d⟩
  rw [ht] at hdone ho
  dsimp only at ho
  subst ho
  have hd : (c.readClient router).2.clientBuffer = d.clientBuffer := by
    simp only [readClient, ht]
  have hread := clientStep_reads router s
  rw [hdone] at hread
  rw [hd, hread.continue]
  exact hs

theorem Forwards.length_le {lastRead : Nat} {step : Step (Connection σ) (Except Error Unit × _)}
    (h : Forwards lastRead c step) : step.state.peerBuffer.length ≤ c.peerBuffer.length := by
  cases h with
  | idle => exact Nat.le_refl _
  | uncut => exact Nat.le_refl _
  | discarded => exact length_dropUnit_le _ _
  | sent => exact length_dropUnit_le _ _
  | unsent => exact Nat.le_refl _

theorem length_forward_le (lastRead : Nat) (c : Connection σ) :
    (c.forward lastRead).2.peerBuffer.length ≤ c.peerBuffer.length :=
  Loop.run_related (R := fun c d : Connection σ => d.peerBuffer.length ≤ c.peerBuffer.length)
    (fun _ _ _ hab hbc => Nat.le_trans hbc hab)
    (fun c => (forwardStep_forwards lastRead c).length_le)
    _ c

theorem takePeerBytes_room {bytes : Bytes} (h : takePeerBytes bytes c = (none, d))
    (hroom : bytes.length ≤ peerRoom c) (hc : c.peerBuffer.length < bufferCapacity) :
    d.peerBuffer.length < bufferCapacity := by
  have hle := length_forward_le bytes.length { c with peerBuffer := c.peerBuffer ++ bytes }
  unfold takePeerBytes at h
  split at h
  · cases h
  · next hf =>
    rw [hf] at hle
    obtain ⟨hne, rfl⟩ := Prod.mk.inj h
    split at hne
    · cases hne
    · next hne' =>
      unfold peerRoom at hroom
      simp only [List.length_append] at hle
      omega

/-- The peer's loop goes on only with room left in the buffer. -/
theorem PeerReads.room {s t : PeerSocket × Connection σ} (h : PeerReads s (.again t))
    (hs : s.2.peerBuffer.length < bufferCapacity) : t.2.peerBuffer.length < bufferCapacity := by
  cases h with
  | again hr _ ht => exact takePeerBytes_room ht (PeerSocket.length_read_le hr) hs

/-- If reading from the peer is not to end with a close, it ends where it found nothing. -/
theorem PeerReads.continue {s : PeerSocket × Connection σ} {socket : PeerSocket}
    (h : PeerReads s (.done (.ok .continue, socket, d))) : d = s.2 := by
  cases h with
  | nothing => rfl

theorem readPeer_room (h : c.readPeer.1 = .continue)
    (hc : c.peerBuffer.length < bufferCapacity) :
    c.readPeer.2.peerBuffer.length < bufferCapacity := by
  cases hpeer : c.peer with
  | none =>
      rw [readPeer, hpeer]
      exact hc
  | some socket =>
      obtain ⟨s, hs, hdone⟩ : ∃ s : PeerSocket × Connection σ,
          s.2.peerBuffer.length < bufferCapacity ∧
          peerStep s = .done (takeFromPeer (socket, c)) :=
        Loop.invariant (fun s => s.2.peerBuffer.length < bufferCapacity)
          (fun s _ hs h => PeerReads.room (h ▸ peerStep_reads s) hs) (socket, c) hc
      simp only [readPeer, hpeer] at h ⊢
      have ho : (takeFromPeer (socket, c)).1 = .ok .continue := Outcome.eq_continue h
      rcases ht : takeFromPeer (socket, c) with ⟨o, socket', d⟩
      rw [ht] at hdone ho
      dsimp only at ho
      subst ho
      show d.peerBuffer.length < bufferCapacity
      have hread := peerStep_reads s
      rw [hdone] at hread
      rw [hread.continue]
      exact hs

/-- An operation whose verdict, if it has one, is to go on leaves room in the buffers. -/
theorem apply_room (op : Operation σ) (hc : HasRoom c)
    (hgo : ∀ v ∈ (op.apply c).1, v = .continue) : HasRoom (op.apply c).2 := by
  have hpos : 0 < bufferCapacity := Nat.zero_lt_succ _
  have hreleased (c : Connection σ) : HasRoom c.release := ⟨hpos, hpos⟩
  cases op with
  | readClient router dial =>
      have hverdict : ({ c with dial }.readClient router).1 = .continue := hgo _ rfl
      obtain ⟨d, inlet, hmoves, hd⟩ := readClient_moves router { c with dial }
      refine ⟨readClient_room hverdict hc.client, ?_⟩
      show ({ c with dial }.readClient router).2.peerBuffer.length < _
      rw [hd]
      show d.peerBuffer.length < _
      rw [hmoves.frame.1]
      exact hc.peer
  | readPeer =>
      have hverdict : c.readPeer.1 = .continue := hgo _ rfl
      refine ⟨?_, readPeer_room hverdict hc.peer⟩
      show c.readPeer.2.clientBuffer.length < _
      cases hpeer : c.peer with
      | none =>
          rw [readPeer, hpeer]
          exact hc.client
      | some socket =>
          obtain ⟨d, socket', hmoves, hd⟩ := readPeer_moves hpeer
          rw [hd]
          show d.clientBuffer.length < _
          rw [hmoves.frame.2.2]
          exact hc.client
  | close termination =>
      show HasRoom (c.close termination)
      unfold close
      split
      · exact hc
      · exact hreleased _
  | release => exact hreleased c
  | beginWatch side watch => cases side <;> exact ⟨hc.client, hc.peer⟩
  | endWatch side => cases side <;> exact ⟨hc.client, hc.peer⟩
  | arrive side bytes => cases side <;> exact ⟨hc.client, hc.peer⟩
  | hangUp side tail => cases side <;> exact ⟨hc.client, hc.peer⟩

/-- As long as no verdict is to close, the buffers have room left between operations. -/
theorem run_room (ops : List (Operation σ)) (hc : HasRoom c)
    (hgo : ∀ v ∈ (run ops c).1, v = .continue) : HasRoom (run ops c).2 := by
  induction ops generalizing c with
  | nil => exact hc
  | cons op ops ih =>
      rw [run_cons] at hgo ⊢
      refine ih (apply_room op hc fun v hv => ?_) fun v hv => ?_
      · exact hgo v (List.mem_append_left _ (Option.mem_toList.mpr hv))
      · exact hgo v (List.mem_append_right _ hv)

/-! ### Where frames and units are looked for -/

/-- When the client's socket of `c` is readable, there comes a point where the next line or frame is
looked for in the buffer of `d`. -/
def LooksAtClient (router : Router σ) (c d : Connection σ) : Prop :=
  ∃ inlet bytes rest e, Loop.Visits (clientStep router) (c.fromClient, c) (inlet, e) ∧
    inlet.read (clientRoom e) = (.data bytes, rest) ∧ bytes ≠ [] ∧
    Loop.Visits (useStep router) { e with clientBuffer := e.clientBuffer ++ bytes } d

/-- When the peer's socket of `c` is readable, there comes a point where the next unit is looked for
in the buffer of `d`. -/
def LooksAtPeer (c d : Connection σ) : Prop :=
  ∃ first socket bytes rest e, c.peer = some first ∧
    Loop.Visits peerStep (first, c) (socket, e) ∧
    socket.read (peerRoom e) = (.data bytes, rest) ∧
    ¬ (bytes = [] ∧ ¬ socket.isDatagram) ∧ ¬ (bytes.length = peerRoom e ∧ socket.isDatagram) ∧
    Loop.Visits (forwardStep bytes.length) { e with peerBuffer := e.peerBuffer ++ bytes } d

theorem clientVisits_moves {s t : Inlet × Connection σ} (h : Loop.Visits (clientStep router) s t) :
    ClientMoves s.2 t.2 :=
  h.related (R := fun s t => ClientMoves s.2 t.2) (fun _ => .refl) (fun _ _ _ => .trans)
    fun s => (clientStep_reads router s).moves

theorem peerVisits_moves {s t : PeerSocket × Connection σ} (h : Loop.Visits peerStep s t)
    (hpeer : s.2.peer.isSome) : PeerMoves s.2 t.2 :=
  h.related
    (R := fun s t : PeerSocket × Connection σ => s.2.peer.isSome → PeerMoves s.2 t.2)
    (fun _ _ => .refl)
    (fun a b _ hab hbc ha => (hab ha).trans (hbc (by rw [(hab ha).frame.2.1]; exact ha)))
    (fun s => (peerStep_reads s).moves) hpeer

theorem LooksAtClient.moves (h : LooksAtClient router c d) : ClientMoves c d := by
  obtain ⟨inlet, bytes, rest, e, hvisits, hread, -, huse⟩ := h
  have hreach : ClientMoves c e := clientVisits_moves hvisits
  have hfill : ClientMove e { e with clientBuffer := e.clientBuffer ++ bytes } :=
    .read bytes (Inlet.length_read_le hread)
  exact (hreach.tail hfill).trans
    (huse.related (fun _ => .refl) (fun _ _ _ => .trans) (useStep_moves router))

theorem LooksAtPeer.moves (h : LooksAtPeer c d) : PeerMoves c d := by
  obtain ⟨first, socket, bytes, rest, e, hpeer, hvisits, hread, -, -, huse⟩ := h
  have hsome : c.peer.isSome := Option.isSome_of_mem hpeer
  have hreach : PeerMoves c e := peerVisits_moves hvisits hsome
  have hfill : PeerMove e { e with peerBuffer := e.peerBuffer ++ bytes } :=
    .read bytes (by rw [hreach.frame.2.1]; exact hsome) (PeerSocket.length_read_le hread)
  exact (hreach.tail hfill).trans (huse.related (fun _ => .refl) (fun _ _ _ => .trans)
    fun c => (forwardStep_forwards bytes.length c).moves)

/-- **A connection is coherent all its life.**  Whatever is done with it after it was accepted, in
whatever order, its parts agree with its phase and its phase never goes back; as long as no verdict
was to close, both buffers have room left between operations.  Hence a peer is at hand whenever a
frame is looked for while there is relaying, and the route whenever a unit is looked for. -/
theorem run_coherent (id : SlotId) (address : String)
    (dial : Endpoint → Except IoFault PeerSocket) (toClient : Outlet Reply) (toPeer : Outlet Bytes)
    (ops more : List (Operation σ)) :
    let (verdicts, c) := run ops (fresh id address dial toClient toPeer)
    let d := (run more c).2
    c.phase.rank ≤ d.phase.rank ∧ Coherent c ∧
      ((∀ v ∈ verdicts, v = .continue) → HasRoom c) ∧
      (∀ router dial e, LooksAtClient router { c with dial } e → e.phase = .relaying →
        e.peer.isSome) ∧
      (∀ e, LooksAtPeer c e → e.route.isSome) := by
  have hfresh := coherent_fresh (σ := σ) id address dial toClient toPeer
  have hpos : 0 < bufferCapacity := Nat.zero_lt_succ _
  have hc := (run_moves ops _).coherent hfresh
  refine ⟨(run_moves more _).rank_le, hc, run_room ops ⟨hpos, hpos⟩, ?_, ?_⟩
  · intro router dial e he hphase
    have hmoves : Moves (run ops (fresh id address _ toClient toPeer)).2 e :=
      he.moves.moves.head (setDial_move dial _)
    exact (hmoves.coherent hc).peer.mpr hphase
  · intro e he
    have hcoherent := he.moves.moves.coherent hc
    have hpeer := he.moves.frame.2.1
    obtain ⟨first, -, -, -, -, hfirst, -⟩ := he
    rw [hcoherent.route, ← hcoherent.peer, hpeer, hfirst]
    rfl

end Connection

end WsRelay
