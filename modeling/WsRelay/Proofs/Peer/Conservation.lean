import WsRelay.Proofs.Connection.Coherence
import WsRelay.Proofs.Peer.Cutting
/-! # What becomes of the bytes of a peer

Whatever a framing answers, no byte of a peer is lost, repeated or moved.  A connection that has
just been upgraded (`Unread`) keeps its peer's bytes together (`Conserved`) through every operation
that does not end it (`Conserved.apply`): those that have been read are cut into units or left in
the buffer, and all others still wait.  So the units that were cut are those its client has been
sent (`run_conserves`). -/

namespace WsRelay

variable {σ : Type}

open Framing

/-- The answer to a ping. -/
def Reply.isPong : Reply → Bool
  | frame .pong _ => true
  | _ => false

namespace Operation

/-- The operation does not end the connection. -/
def goesOn : Operation σ → Bool
  | close _ | release => false
  | _ => true

/-- The bytes with which an operation adds to what waits at the peer's socket. -/
def arrived : Operation σ → Bytes
  | arrive .peer bytes => bytes
  | _ => []

end Operation

namespace Connection

variable {route : Route σ} {first : PeerSocket} {before : List Reply} {ops : List (Operation σ)}
  {received bytes : Bytes} {units : List Message} {c d : Connection σ}

/-- A connection that has just been upgraded, and has read nothing from its peer. -/
structure Unread (route : Route σ) (socket : PeerSocket) (c : Connection σ) : Prop where
  phase : c.phase = .relaying
  route : c.route = some route
  peer : c.peer = some socket
  memory : c.memory = .empty
  peerBuffer : c.peerBuffer = []

/-- Such a connection is what an upgrade leads to, with the route that the backend has answered and a
socket that has been connected. -/
theorem unread_of_upgrade {router : Router σ} (h : c.upgrade router = (.ok (), d))
    (hmemory : c.memory = .empty) (hbuffer : c.peerBuffer = []) (hout : c.toClient.TakesAll) :
    ∃ route address socket, router c.enquiry = some route ∧ c.dial address = .ok socket ∧
      Unread route socket d ∧ d.toClient.TakesAll := by
  unfold upgrade at h
  split at h
  · cases h
  · split at h
    · cases h
    · next route socket hconnect =>
      rw [Outlet.offer, if_pos (hout _)] at h
      cases h
      unfold connectPeer at hconnect
      split at hconnect
      · cases hconnect
      · next hroute =>
        split at hconnect
        · cases hconnect
        · next address _ =>
          split at hconnect
          · cases hconnect
          · next hsocket =>
            cases hconnect
            exact ⟨route, address, socket, hroute, hsocket, ⟨rfl, rfl, rfl, hmemory, hbuffer⟩, hout⟩

/-! ### What waits, and what is sent -/

/-- Where the bytes are that waited at the peer's socket, or arrived there in the course of
operations: `received` have been read, and all others still wait. -/
def Waits (first : PeerSocket) (ops : List (Operation σ)) (received : Bytes)
    (peer : Option PeerSocket) : Prop :=
  ∃ socket, peer = some socket ∧ socket.isReadable = first.isReadable ∧
    received ++ socket.waiting =
      first.waiting ++ if first.isReadable then ops.flatMap Operation.arrived else []

theorem Waits.append {peer peer' : Option PeerSocket} (h : Waits first ops received peer)
    (op : Operation σ)
    (hop : ∀ socket, peer = some socket → ∃ after, peer' = some after ∧
      after.isReadable = socket.isReadable ∧
      bytes ++ after.waiting =
        socket.waiting ++ if socket.isReadable then op.arrived else []) :
    Waits first (ops ++ [op]) (received ++ bytes) peer' := by
  obtain ⟨socket, hpeer, hreadable, hwaiting⟩ := h
  obtain ⟨after, hpeer', hreadable', hwaiting'⟩ := hop socket hpeer
  refine ⟨after, hpeer', hreadable'.trans hreadable, ?_⟩
  rw [List.append_assoc, hwaiting', ← List.append_assoc, hwaiting, hreadable,
    List.flatMap_append, List.flatMap_singleton, List.append_assoc]
  split
  · rfl
  · rfl

/-- What a client is sent in the course of operations, after what it had been sent before: the
units, in order, and answers to pings in between if the client's side was read. -/
def Sends (before : List Reply) (ops : List (Operation σ)) (units : List Message)
    (taken : List Reply) : Prop :=
  ∃ frames, taken = before ++ frames ∧
    frames.filter (!·.isPong) = units.filterMap Message.reply? ∧
    ((∀ router dial, .readClient router dial ∉ ops) → frames = units.filterMap Message.reply?)

/-- A unit is not sent as an answer to a ping. -/
theorem isPong_reply {unit : Message} {reply : Reply} (h : unit.reply? = some reply) :
    reply.isPong = false := by
  obtain ⟨opcode, hopcode, rfl⟩ := Option.map_eq_some_iff.mp h
  cases hkind : unit.kind with
  | text => rw [hkind] at hopcode; cases hopcode; rfl
  | binary => rw [hkind] at hopcode; cases hopcode; rfl
  | discard => rw [hkind] at hopcode; cases hopcode

theorem Sends.append {taken : List Reply} (h : Sends before ops units taken) (op : Operation σ)
    (more : List Message) :
    Sends before (ops ++ [op]) (units ++ more) (taken ++ more.filterMap Message.reply?) := by
  obtain ⟨frames, rfl, hunits, hquiet⟩ := h
  refine ⟨frames ++ more.filterMap Message.reply?, List.append_assoc _ _ _, ?_, fun hno => ?_⟩
  · have hall : (more.filterMap Message.reply?).filter (!·.isPong) =
        more.filterMap Message.reply? := by
      refine List.filter_eq_self.mpr fun reply hr => ?_
      obtain ⟨unit, -, hreply⟩ := List.mem_filterMap.mp hr
      rw [isPong_reply hreply]
      rfl
    rw [List.filter_append, hall, hunits, List.filterMap_append]
  · rw [hquiet fun router dial hmem => hno router dial (List.mem_append_left _ hmem),
      List.filterMap_append]

theorem Sends.pongs {taken pongs : List Reply} (h : Sends before ops units taken)
    (hpongs : ∀ reply ∈ pongs, reply.isPong = true) (router : Router σ)
    (dial : Endpoint → Except IoFault PeerSocket) :
    Sends before (ops ++ [.readClient router dial]) units (taken ++ pongs) := by
  obtain ⟨frames, rfl, hunits, -⟩ := h
  refine ⟨frames ++ pongs, List.append_assoc _ _ _, ?_, fun hno => ?_⟩
  · have hnone : pongs.filter (!·.isPong) = [] :=
      List.filter_eq_nil_iff.mpr fun reply hr => by
        rw [hpongs reply hr]
        exact Bool.false_ne_true
    rw [List.filter_append, hnone, List.append_nil, hunits]
  · exact absurd (List.mem_append_right _ (List.mem_singleton_self _)) (hno router dial)

/-- **What has become of a peer's bytes** in the course of operations: `received` have been read,
the framing has cut them into `units`, and the client has been sent these. -/
structure Conserved (route : Route σ) (first : PeerSocket) (before : List Reply)
    (ops : List (Operation σ)) (received : Bytes) (units : List Message) (c : Connection σ) :
    Prop where
  phase : c.phase = .relaying
  cutting : ∃ n, Cutting route received n units c
  waits : Waits first ops received c.peer
  sends : Sends before ops units c.toClient.taken

theorem Unread.conserved (h : Unread route first c) :
    Conserved route first c.toClient.taken [] [] [] c where
  phase := h.phase
  cutting := by
    refine ⟨0, h.route, ?_⟩
    rw [h.peerBuffer, h.memory]
    exact .start
  waits := by
    refine ⟨first, h.peer, rfl, ?_⟩
    rw [List.flatMap_nil, ite_self, List.append_nil]
    rfl
  sends := ⟨[], (List.append_nil _).symm, rfl, fun _ => rfl⟩

/-! ### Operation by operation -/

/-- While there is relaying, the client's side sends answers to pings, and leaves alone what the
framing works on. -/
theorem ClientMoves.relaying (h : ClientMoves c d) (hphase : c.phase = .relaying) :
    d.phase = .relaying ∧ d.route = c.route ∧ d.peer = c.peer ∧
      ∃ pongs, (∀ reply ∈ pongs, reply.isPong = true) ∧
        d.toClient.taken = c.toClient.taken ++ pongs := by
  have hnot {c : Connection σ} {p : Phase} (hrelaying : c.phase = .relaying) (hp : c.phase = p)
      (hne : p ≠ .relaying) : False := hne (hp.symm.trans hrelaying)
  induction h with
  | refl => exact ⟨hphase, rfl, rfl, [], List.forall_mem_nil _, (List.append_nil _).symm⟩
  | tail _ hm ih =>
      obtain ⟨hrelaying, hroute, hpeer, pongs, hpongs, htaken⟩ := ih
      cases hm with
      | read => exact ⟨hrelaying, hroute, hpeer, pongs, hpongs, htaken⟩
      | use => exact ⟨hrelaying, hroute, hpeer, pongs, hpongs, htaken⟩
      | forward => exact ⟨hrelaying, hroute, hpeer, pongs, hpongs, htaken⟩
      | «open» _ h | header _ h | upgrade _ _ _ _ h | untold _ _ h =>
          exact (hnot hrelaying h nofun).elim
      | pong payload h =>
          refine ⟨hrelaying, hroute, hpeer, ?_⟩
          dsimp only
          rw [Outlet.taken_offer, htaken]
          split
          · refine ⟨pongs ++ [.frame .pong payload], ?_, List.append_assoc _ _ _⟩
            exact List.forall_mem_append.mpr ⟨hpongs, List.forall_mem_singleton.mpr rfl⟩
          · exact ⟨pongs, hpongs, rfl⟩

/-- What becomes of the peer's socket in an operation by which nothing is read from it. -/
def Adds (op : Operation σ) (peer peer' : Option PeerSocket) : Prop :=
  ∀ socket, peer = some socket → ∃ after, peer' = some after ∧
    after.isReadable = socket.isReadable ∧
    after.waiting = socket.waiting ++ if socket.isReadable then op.arrived else []

theorem eq_append_arrived {op : Operation σ} (h : op.arrived = []) (socket : PeerSocket) :
    socket.waiting = socket.waiting ++ if socket.isReadable then op.arrived else [] := by
  rw [h, ite_self, List.append_nil]

theorem adds_nothing {op : Operation σ} (h : op.arrived = []) (peer : Option PeerSocket) :
    Adds op peer peer := fun socket hsocket =>
  ⟨socket, hsocket, rfl, eq_append_arrived h socket⟩

theorem adds_map {op : Operation σ} {f : PeerSocket → PeerSocket}
    (hreadable : ∀ socket, (f socket).isReadable = socket.isReadable)
    (hwaiting : ∀ socket, (f socket).waiting =
      socket.waiting ++ if socket.isReadable then op.arrived else [])
    (peer : Option PeerSocket) : Adds op peer (peer.map f) := fun socket hsocket =>
  ⟨f socket, by rw [hsocket]; rfl, hreadable socket, hwaiting socket⟩

theorem adds_arrive (bytes : Bytes) (peer : Option PeerSocket) :
    Adds (σ := σ) (.arrive .peer bytes) peer (peer.map (·.arrive bytes)) := by
  refine adds_map (PeerSocket.isReadable_arrive bytes) (fun socket => ?_) peer
  exact PeerSocket.waiting_arrive bytes socket

theorem adds_hangUp (tail : Tail) (peer : Option PeerSocket) :
    Adds (σ := σ) (.hangUp .peer tail) peer (peer.map (·.withTail tail)) := by
  refine adds_map (PeerSocket.isReadable_withTail tail) (fun socket => ?_) peer
  rw [PeerSocket.waiting_withTail]
  exact eq_append_arrived rfl socket

/-- An operation by which nothing is read from the peer. -/
theorem Conserved.unread (h : Conserved route first before ops received units c)
    {op : Operation σ} (hphase : d.phase = .relaying) (hroute : d.route = c.route)
    (hbuffer : d.peerBuffer = c.peerBuffer ∧ d.memory = c.memory)
    (hsends : Sends before (ops ++ [op]) units d.toClient.taken) (hpeer : Adds op c.peer d.peer) :
    Conserved route first before (ops ++ [op]) received units d where
  phase := hphase
  cutting := by
    obtain ⟨n, hroute', hcuts⟩ := h.cutting
    refine ⟨n, hroute.trans hroute', ?_⟩
    rw [hbuffer.1, hbuffer.2]
    exact hcuts
  waits := by
    have hwaits : Waits first (ops ++ [op]) (received ++ []) d.peer := h.waits.append op hpeer
    rwa [List.append_nil] at hwaits
  sends := hsends

/-- An operation by which nothing is read at all. -/
theorem Conserved.idle (h : Conserved route first before ops received units c)
    {op : Operation σ} (hphase : d.phase = c.phase) (hroute : d.route = c.route)
    (hbuffer : d.peerBuffer = c.peerBuffer ∧ d.memory = c.memory)
    (hsent : d.toClient = c.toClient) (hpeer : Adds op c.peer d.peer) :
    Conserved route first before (ops ++ [op]) received units d := by
  refine h.unread (hphase.trans h.phase) hroute hbuffer ?_ hpeer
  have hsends := h.sends.append op []
  rw [List.append_nil, List.filterMap_nil, List.append_nil] at hsends
  rw [hsent]
  exact hsends

/-- Reading from the client. -/
theorem Conserved.readClient (h : Conserved route first before ops received units c)
    (router : Router σ) (dial : Endpoint → Except IoFault PeerSocket) :
    Conserved route first before (ops ++ [.readClient router dial]) received units
      ({ c with dial }.readClient router).2 := by
  obtain ⟨d, inlet, hmoves, hd⟩ := readClient_moves router { c with dial }
  obtain ⟨hphase, hroute, hpeer, pongs, hpongs, htaken⟩ := hmoves.relaying h.phase
  rw [hd]
  refine h.unread (d := d.setInlet inlet) hphase hroute hmoves.frame ?_ ?_
  · show Sends before _ units d.toClient.taken
    rw [htaken]
    exact h.sends.pongs hpongs router dial
  · show Adds _ c.peer d.peer
    rw [hpeer]
    exact adds_nothing rfl c.peer

/-- Reading from the peer. -/
theorem Conserved.readPeer (h : Conserved route first before ops received units c)
    (hgo : c.readPeer.1 = .continue) :
    ∃ bytes more, Conserved route first before (ops ++ [.readPeer]) (received ++ bytes)
      (units ++ more) c.readPeer.2 := by
  obtain ⟨n, hcutting⟩ := h.cutting
  obtain ⟨socket, hpeer, -⟩ := h.waits
  obtain ⟨bytes, more, hextends, -, hgoes⟩ := readPeer_takes hpeer hcutting
  obtain ⟨after, hafter, hreadable, hwaiting, hcutting'⟩ := hgoes hgo
  refine ⟨bytes, more, ?_, hcutting', ?_, ?_⟩
  · obtain ⟨d, socket', hmoves, hd⟩ := readPeer_moves hpeer
    rw [hd]
    exact hmoves.frame.1.trans h.phase
  · refine h.waits.append .readPeer fun socket' hsocket' => ⟨after, hafter, ?_⟩
    obtain rfl : socket = socket' := Option.some.inj (hpeer.symm.trans hsocket')
    exact ⟨hreadable, hwaiting.trans (eq_append_arrived rfl socket)⟩
  · rw [hextends.taken]
    exact h.sends.append .readPeer more

/-- Every operation that does not end a connection, and after which it is to go on, keeps a peer's
bytes together. -/
theorem Conserved.apply (h : Conserved route first before ops received units c) (op : Operation σ)
    (hop : op.goesOn = true) (hgo : ∀ v ∈ (op.apply c).1, v = .continue) :
    ∃ received units, Conserved route first before (ops ++ [op]) received units (op.apply c).2 := by
  cases op with
  | close termination => cases hop
  | release => cases hop
  | readClient router dial => exact ⟨_, _, h.readClient router dial⟩
  | readPeer =>
      obtain ⟨bytes, more, hread⟩ := h.readPeer (hgo _ rfl)
      exact ⟨_, _, hread⟩
  | beginWatch side watch =>
      cases side <;> exact ⟨_, _, h.idle rfl rfl ⟨rfl, rfl⟩ rfl (adds_nothing rfl _)⟩
  | endWatch side =>
      cases side <;> exact ⟨_, _, h.idle rfl rfl ⟨rfl, rfl⟩ rfl (adds_nothing rfl _)⟩
  | arrive side bytes =>
      cases side with
      | client => exact ⟨_, _, h.idle rfl rfl ⟨rfl, rfl⟩ rfl (adds_nothing rfl _)⟩
      | peer => exact ⟨_, _, h.idle rfl rfl ⟨rfl, rfl⟩ rfl (adds_arrive bytes _)⟩
  | hangUp side tail =>
      cases side with
      | client => exact ⟨_, _, h.idle rfl rfl ⟨rfl, rfl⟩ rfl (adds_nothing rfl _)⟩
      | peer => exact ⟨_, _, h.idle rfl rfl ⟨rfl, rfl⟩ rfl (adds_hangUp tail _)⟩

theorem Conserved.run (h : Conserved route first before ops received units c)
    (more : List (Operation σ)) (hmore : ∀ op ∈ more, op.goesOn = true)
    (hgo : ∀ v ∈ (run more c).1, v = .continue) :
    ∃ received units, Conserved route first before (ops ++ more) received units
      (Connection.run more c).2 := by
  induction more generalizing ops received units c with
  | nil =>
      rw [List.append_nil]
      exact ⟨received, units, h⟩
  | cons op more ih =>
      rw [run_cons] at hgo ⊢
      obtain ⟨received', units', hop⟩ := h.apply op (hmore op List.mem_cons_self) fun v hv =>
        hgo v (List.mem_append_left _ (Option.mem_toList.mpr hv))
      obtain ⟨received'', units'', hrest⟩ :=
        ih hop (fun op hmem => hmore op (List.mem_cons_of_mem _ hmem))
          fun v hv => hgo v (List.mem_append_right _ hv)
      rw [List.append_assoc, List.singleton_append] at hrest
      exact ⟨received'', units'', hrest⟩

/-- **No byte of a peer is lost, repeated or moved**, whatever the framing answers and whatever kind
of socket the peer has.  As long as a connection that has just been upgraded is to go on, the units
that its framing has cut, one after the other, and the bytes that are left make up what has been
read from the peer.  The client has been sent the units, each that is not discarded in one final,
unmasked frame, of the kind that the framing answered, or binary if it said nothing.  If the peer's
socket is read once more, and be it that the connection is to be closed then, the frames that are
sent go on with the same sequence of units. -/
theorem run_conserves (hc : Unread route first c) (ops : List (Operation σ))
    (hops : ∀ op ∈ ops, op.goesOn = true) (hgo : ∀ v ∈ (run ops c).1, v = .continue) :
    let d := (run ops c).2
    (∀ data n unit, unit? data (.ok { length := n }) = some unit → unit.kind = .binary) ∧
    ∃ received units, Conserved route first c.toClient.taken ops received units d ∧
      units.flatMap (·.payload) ++ d.peerBuffer = received ∧
      (∀ unit ∈ units, (unit.kind = .discard ∧ unit.reply? = none) ∨
        ∃ opcode header, unit.kind.opcode? = some opcode ∧
          unit.reply? = some (.frame opcode unit.payload) ∧
          Frame.decode? (Reply.frame opcode unit.payload).bytes =
            some (⟨header, unit.payload, (Reply.frame opcode unit.payload).bytes.length⟩,
              (Reply.frame opcode unit.payload).bytes) ∧
          header.fin = true ∧ header.reserved = 0 ∧ header.mask = none ∧
          header.opcode = opcode.value) ∧
      ∃ socket bytes more, d.peer = some socket ∧ bytes <+: socket.waiting ∧
        Extends route (received ++ bytes) units more d d.readPeer.2 ∧
        (units ++ more).flatMap (·.payload) <+: received ++ bytes := by
  intro d
  refine ⟨fun _ _ _ => kind_of_unit?, ?_⟩
  obtain ⟨received, units, h⟩ := hc.conserved.run ops hops hgo
  rw [List.nil_append] at h
  obtain ⟨n, hcutting⟩ := h.cutting
  obtain ⟨socket, hpeer, -⟩ := h.waits
  obtain ⟨bytes, more, hextends, hinside, -⟩ := readPeer_takes hpeer hcutting
  obtain ⟨_, rest, _, hcuts⟩ := hextends.cuts
  exact ⟨received, units, h, hcutting.cuts.conserves,
    fun unit hunit => Message.decode?_reply (hcutting.cuts.fits.2 unit hunit),
    socket, bytes, more, hpeer, hinside, hextends, ⟨rest, hcuts.conserves⟩⟩

/-- A framing that drops zeros and sends other bytes two by two, to a client whose second frame is
completed by a second arrival after the upgrade. -/
theorem run_conserves_pairs :
    let pairs : Framing Unit :=
      { name := "pairs"
        rule := fun data _ _ memory =>
          match data with
          | 0 :: _ => (.ok ⟨1, .discard⟩, memory)
          | _ :: _ :: _ => (.ok { length := 2 }, .extension ())
          | _ => (.ok { length := 0 }, memory) }
    let route : Route Unit := { host := "unix://socket", framing := pairs }
    let asking : Connection Unit :=
      { id := ⟨0, 0⟩, phase := .headers, dial := fun _ => .ok (.stream {})
        request := { version := 13, key := some "key", upgrade := true, connection := true } }
    let c := (asking.upgrade fun _ => some route).2
    let ops : List (Operation Unit) :=
      [.arrive .peer [0, 1, 2, 3], .readPeer, .arrive .peer [4, 5], .readPeer]
    let d := (run ops c).2
    (Unread route (.stream {}) c ∧ (∀ op ∈ ops, op.goesOn = true) ∧
      ∀ v ∈ (run ops c).1, v = .continue) ∧
    (∃ received units, Conserved route (.stream {}) c.toClient.taken ops received units d ∧
      units.flatMap (·.payload) ++ d.peerBuffer = received) ∧
    d.toClient.taken.tail = [.frame .binary [1, 2], .frame .binary [3, 4]] ∧ d.peerBuffer = [5] := by
  intro pairs route asking c ops d
  have hgranted : (asking.upgrade fun _ => some route).1 = .ok () := by decide +kernel
  obtain ⟨_, _, _, ⟨⟩, ⟨⟩, hc, -⟩ : ∃ route' address socket, some route = some route' ∧
      asking.dial address = .ok socket ∧ Unread route' socket c ∧ c.toClient.TakesAll :=
    unread_of_upgrade (Prod.ext hgranted rfl) rfl rfl fun _ => rfl
  have hops : ∀ op ∈ ops, op.goesOn = true := by decide
  have hgo : ∀ v ∈ (run ops c).1, v = .continue := by decide +kernel
  obtain ⟨-, received, units, hconserved, hunits, -⟩ := run_conserves hc ops hops hgo
  exact ⟨⟨hc, hops, hgo⟩, ⟨received, units, hconserved, hunits⟩, by decide +kernel,
    by decide +kernel⟩

end Connection

end WsRelay
