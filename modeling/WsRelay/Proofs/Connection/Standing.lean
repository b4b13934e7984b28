import WsRelay.Gateway
import WsRelay.Proofs.Connection.Moves
import WsRelay.Proofs.Peer.Cutting
/-! # What a connection's sockets leave alone

Whatever is read from a connection's sockets, and whatever arrives there, the connection goes by the
same identifier and waits for the same, it is not closed, and once it has a peer, that can be read or
not as before (`Stays`).  So what a gateway gives a connection changes only when the gateway changes
it; without that the connection is `bare`. -/

namespace WsRelay.Connection

variable {σ : Type} {c d e : Connection σ}

/-- As far as a gateway knows them, `d` is `c` after something was read or has arrived. -/
structure Stays (c d : Connection σ) : Prop where
  id : d.id = c.id
  watch? : d.watch? = c.watch?
  aborted : d.aborted = c.aborted
  opened : c.phase ≠ .closed → d.phase ≠ .closed
  relaying : c.phase = .relaying → d.phase = .relaying
  readable : c.phase = .relaying → d.peer.map (·.isReadable) = c.peer.map (·.isReadable)

/-- In particular if nothing has come of it for the phase. -/
theorem Stays.of_phase (hphase : d.phase = c.phase) (hid : d.id = c.id)
    (hwatch : d.watch? = c.watch?) (haborted : d.aborted = c.aborted)
    (hpeer : d.peer.map (·.isReadable) = c.peer.map (·.isReadable)) : Stays c d where
  id := hid
  watch? := hwatch
  aborted := haborted
  opened hc := hphase ▸ hc
  relaying hc := hphase.trans hc
  readable _ := hpeer

theorem Stays.refl (c : Connection σ) : Stays c c :=
  .of_phase rfl rfl rfl rfl rfl

theorem Stays.trans (h : Stays c d) (h' : Stays d e) : Stays c e where
  id := h'.id.trans h.id
  watch? := h'.watch?.trans h.watch?
  aborted := h'.aborted.trans h.aborted
  opened hc := h'.opened (h.opened hc)
  relaying hc := h'.relaying (h.relaying hc)
  readable hc := (h'.readable (h.relaying hc)).trans (h.readable hc)

/-! ### Waits -/

/-- A side has a socket that something may come from. -/
def isWatchable (c : Connection σ) : Side → Bool
  | .client => true
  | .peer => c.peer.any (·.isReadable)

/-- The connection without what a gateway gives it: its identifier and its waits. -/
def bare (c : Connection σ) : Connection σ :=
  { c with id := ⟨0, 0⟩, clientWatch := none, peerWatch := none, aborted := [] }

section

variable (c : Connection σ)

@[simp] theorem bare_phase : c.bare.phase = c.phase := rfl
@[simp] theorem bare_fromClient : c.bare.fromClient = c.fromClient := rfl
@[simp] theorem bare_toClient : c.bare.toClient = c.toClient := rfl
@[simp] theorem bare_clientBuffer : c.bare.clientBuffer = c.clientBuffer := rfl
@[simp] theorem bare_peer : c.bare.peer = c.peer := rfl
@[simp] theorem bare_toPeer : c.bare.toPeer = c.toPeer := rfl
@[simp] theorem bare_peerBuffer : c.bare.peerBuffer = c.peerBuffer := rfl
@[simp] theorem bare_request : c.bare.request = c.request := rfl

end

theorem isWatchable_bare (c : Connection σ) : c.bare.isWatchable = c.isWatchable := by
  funext side
  cases side <;> rfl

theorem isWatchable_congr (h : d.peer.map (·.isReadable) = c.peer.map (·.isReadable)) :
    d.isWatchable = c.isWatchable := by
  have hany (o : Option PeerSocket) : o.any (·.isReadable) = (o.map (·.isReadable)).getD false := by
    cases o <;> rfl
  funext side
  cases side with
  | client => rfl
  | peer =>
      show d.peer.any _ = c.peer.any _
      rw [hany, hany, h]

theorem lacksWatch_eq (c : Connection σ) (side : Side) :
    Gateway.lacksWatch c side = ((c.watch? side).isNone && c.isWatchable side) := by
  cases side
  · exact (Bool.and_true _).symm
  · rfl

@[simp] theorem bare_beginWatch (side : Side) (watch : Watch) (c : Connection σ) :
    (c.beginWatch side watch).bare = c.bare := by
  cases side <;> rfl

@[simp] theorem bare_endWatch (side : Side) (c : Connection σ) :
    (c.endWatch side).bare = c.bare := by
  cases side <;> rfl

theorem watch?_beginWatch (side other : Side) (watch : Watch) (c : Connection σ) :
    (c.beginWatch side watch).watch? other = if other = side then some watch else c.watch? other := by
  cases side <;> cases other <;> rfl

theorem watch?_endWatch (side other : Side) (c : Connection σ) :
    (c.endWatch side).watch? other = if other = side then none else c.watch? other := by
  cases side <;> cases other <;> rfl

/-- The waits of a connection are called off when it is closed. -/
theorem mem_aborted_close {watch : Watch} (hopen : c.phase ≠ .closed) (t : Termination) :
    watch ∈ (c.close t).aborted ↔
      watch ∈ c.aborted ∨ ∃ side, c.watch? side = some watch := by
  have hrelease (d : Connection σ) : watch ∈ d.release.aborted ↔
      watch ∈ d.aborted ∨ ∃ side, d.watch? side = some watch := by
    show watch ∈ d.aborted ++ d.clientWatch.toList ++ d.peerWatch.toList ↔ _
    simp only [List.mem_append, Option.mem_toList, or_assoc]
    refine or_congr_right ⟨?_, ?_⟩
    · rintro (h | h)
      · exact ⟨.client, h⟩
      · exact ⟨.peer, h⟩
    · rintro ⟨_ | _, h⟩
      · exact .inl h
      · exact .inr h
  unfold close
  rw [if_neg hopen]
  cases goodbye? c.phase t with
  | none => exact hrelease c
  | some reply => exact hrelease _

/-! ### Reading -/

theorem ClientMove.stays (h : ClientMove c d) : Stays c d := by
  have hnot {p : Phase} (hphase : c.phase = p) (hne : p ≠ .relaying) : c.phase ≠ .relaying :=
    hphase ▸ hne
  cases h with
  | «open» path hphase =>
      have hne := hnot hphase nofun
      exact ⟨rfl, rfl, rfl, fun _ => nofun, fun h => absurd h hne, fun h => absurd h hne⟩
  | upgrade accept protocol route socket hphase =>
      have hne := hnot hphase nofun
      exact ⟨rfl, rfl, rfl, fun _ => nofun, fun _ => rfl, fun h => absurd h hne⟩
  | _ => exact .of_phase rfl rfl rfl rfl rfl

theorem PeerMove.stays (h : PeerMove c d) : Stays c d := by
  cases h <;> exact .of_phase rfl rfl rfl rfl rfl

theorem ClientMoves.stays (h : ClientMoves c d) : Stays c d := by
  induction h with
  | refl => exact .refl c
  | tail _ hm ih => exact ih.trans hm.stays

theorem PeerMoves.stays (h : PeerMoves c d) : Stays c d := by
  induction h with
  | refl => exact .refl c
  | tail _ hm ih => exact ih.trans hm.stays

theorem setInlet_stays (inlet : Inlet) (c : Connection σ) : Stays c (c.setInlet inlet) :=
  .of_phase rfl rfl rfl rfl rfl

theorem readClient_stays (router : Router σ) (c : Connection σ) :
    Stays c (c.readClient router).2 := by
  obtain ⟨d, inlet, hmoves, hd⟩ := readClient_moves router c
  rw [hd]
  exact hmoves.stays.trans (setInlet_stays inlet d)

theorem readPeer_stays (c : Connection σ) : Stays c c.readPeer.2 := by
  have hreadable := keeps_readPeer PeerSocket.isReadable_read c
  cases hpeer : c.peer with
  | none =>
      rw [readPeer, hpeer]
      exact .refl c
  | some socket =>
      obtain ⟨d, after, hmoves, hd⟩ := readPeer_moves hpeer
      have hstays := hmoves.stays
      rw [hd] at hreadable ⊢
      exact { hstays with readable := fun _ => hreadable }

/-! ### Arrivals -/

theorem map_isReadable {f : PeerSocket → PeerSocket}
    (hf : ∀ socket, (f socket).isReadable = socket.isReadable) (peer : Option PeerSocket) :
    (peer.map f).map (·.isReadable) = peer.map (·.isReadable) := by
  rw [Option.map_map]
  exact congrArg (peer.map ·) (funext hf)

theorem deliver_stays (side : Side) (bytes : Bytes) (c : Connection σ) :
    Stays c (Gateway.deliver side bytes c) := by
  cases side with
  | client => exact .of_phase rfl rfl rfl rfl rfl
  | peer =>
      exact .of_phase rfl rfl rfl rfl (map_isReadable (PeerSocket.isReadable_arrive bytes) c.peer)

theorem endSide_stays (side : Side) (tail : Tail) (c : Connection σ) :
    Stays c (Gateway.endSide side tail c) := by
  cases side with
  | client => exact .of_phase rfl rfl rfl rfl rfl
  | peer =>
      exact .of_phase rfl rfl rfl rfl (map_isReadable (PeerSocket.isReadable_withTail tail) c.peer)

theorem isWatchable_deliver (side : Side) (bytes : Bytes) (c : Connection σ) :
    (Gateway.deliver side bytes c).isWatchable = c.isWatchable := by
  cases side with
  | client => exact isWatchable_congr rfl
  | peer => exact isWatchable_congr (map_isReadable (PeerSocket.isReadable_arrive bytes) c.peer)

theorem isWatchable_endSide (side : Side) (tail : Tail) (c : Connection σ) :
    (Gateway.endSide side tail c).isWatchable = c.isWatchable := by
  cases side with
  | client => exact isWatchable_congr rfl
  | peer => exact isWatchable_congr (map_isReadable (PeerSocket.isReadable_withTail tail) c.peer)

end WsRelay.Connection
