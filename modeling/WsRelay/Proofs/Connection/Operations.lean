import WsRelay.Proofs.Connection.Moves
/-! # The life of a connection

An `Operation` is anything that can be done with a connection, or can happen to its sockets in
between; `Connection.run` carries out one after the other and collects the verdicts.  A connection
can be run through operations in any order, also after a verdict to close it, and after its end.

A `Move` is a move of the client's side or of the peer's, a change of what the sockets hold, a
change of the waits, or the end.  Operations are made of moves (`run_moves`); to show that something
holds of a connection all its life, it is enough to look at every kind of move once. -/

namespace WsRelay

variable {σ : Type}

/-- What is done with a connection, or happens to its sockets in between. -/
inductive Operation (σ : Type) where
  /-- The client's socket is readable.  `router` is how the backend answers now, and `dial` what
  comes of connecting to an address now. -/
  | readClient (router : Connection.Router σ) (dial : Endpoint → Except IoFault PeerSocket)
  /-- The peer's socket is readable. -/
  | readPeer
  | close (termination : Termination)
  | release
  | beginWatch (side : Side) (watch : Watch)
  | endWatch (side : Side)
  /-- Bytes arrive at a socket. -/
  | arrive (side : Side) (bytes : Bytes)
  /-- The other end of a socket ends its stream, the socket fails, or it recovers. -/
  | hangUp (side : Side) (tail : Tail)

/-- The verdict of an operation, if it has one, and the connection after it. -/
def Operation.apply : Operation σ → Connection σ → Option Verdict × Connection σ
  | readClient router dial, c =>
    let (verdict, d) := { c with dial }.readClient router
    (some verdict, d)
  | readPeer, c =>
    let (verdict, d) := c.readPeer
    (some verdict, d)
  | close termination, c => (none, c.close termination)
  | release, c => (none, c.release)
  | beginWatch side watch, c => (none, c.beginWatch side watch)
  | endWatch side, c => (none, c.endWatch side)
  | arrive side bytes, c => (none, Gateway.deliver side bytes c)
  | hangUp side tail, c => (none, Gateway.endSide side tail c)

namespace Connection

/-- The verdicts of operations that are carried out one after the other, and the connection after
them. -/
def run : List (Operation σ) → Connection σ → List Verdict × Connection σ
  | [], c => ([], c)
  | op :: ops, c =>
    let (verdict, d) := op.apply c
    let (verdicts, e) := run ops d
    (verdict.toList ++ verdicts, e)

variable {c d : Connection σ}

theorem run_cons (op : Operation σ) (ops : List (Operation σ)) (c : Connection σ) :
    run (op :: ops) c =
      ((op.apply c).1.toList ++ (run ops (op.apply c).2).1, (run ops (op.apply c).2).2) := rfl

theorem run_append (ops more : List (Operation σ)) (c : Connection σ) :
    run (ops ++ more) c =
      ((run ops c).1 ++ (run more (run ops c).2).1, (run more (run ops c).2).2) := by
  induction ops generalizing c with
  | nil => rfl
  | cons op ops ih =>
      rw [List.cons_append, run_cons, ih, run_cons, List.append_assoc]

/-! ### Moves -/

/-- One thing that happens to a connection. -/
inductive Move : Connection σ → Connection σ → Prop
  | client {c d : Connection σ} (h : ClientMove c d) : Move c d
  | peer {c d : Connection σ} (h : PeerMove c d) : Move c d
  /-- The sockets hold something else, and connecting to an address comes to something else. -/
  | sockets {c : Connection σ} (fromClient : Inlet)
      (dial : Endpoint → Except IoFault PeerSocket) (f : PeerSocket → PeerSocket) :
    Move c { c with fromClient, dial, peer := c.peer.map f }
  /-- Something else is waited for. -/
  | waits {c : Connection σ} (clientWatch peerWatch : Option Watch) (aborted : List Watch) :
    Move c { c with clientWatch, peerWatch, aborted }
  /-- Everything is given up. -/
  | release {c : Connection σ} : Move c c.release
  /-- The client is told why the connection ends, or cannot be, and everything is given up. -/
  | goodbye {c : Connection σ} {termination : Termination} {reply : Reply}
      (h : goodbye? c.phase termination = some reply) :
    Move c { c with toClient := (c.toClient.offer reply).2 }.release

/-- Moves, one after the other. -/
abbrev Moves : Connection σ → Connection σ → Prop :=
  Relation.ReflTransGen Move

theorem ClientMoves.moves (h : ClientMoves c d) : Moves c d :=
  Relation.ReflTransGen.mono (fun _ _ => .client) _ _ h

theorem PeerMoves.moves (h : PeerMoves c d) : Moves c d :=
  Relation.ReflTransGen.mono (fun _ _ => .peer) _ _ h

theorem setInlet_move (inlet : Inlet) (c : Connection σ) : Move c (c.setInlet inlet) := by
  have h := Move.sockets (c := c) inlet c.dial fun socket => socket
  rwa [Option.map_id'] at h

theorem setDial_move (dial : Endpoint → Except IoFault PeerSocket) (c : Connection σ) :
    Move c { c with dial } := by
  have h := Move.sockets (c := c) c.fromClient dial fun socket => socket
  rwa [Option.map_id'] at h

theorem setPeer_move (socket : PeerSocket) (h : c.peer.isSome) : Move c (c.setPeer socket) := by
  obtain ⟨old, hold⟩ := Option.isSome_iff_exists.mp h
  have hmove := Move.sockets (c := c) c.fromClient c.dial fun _ => socket
  rwa [hold, Option.map_some] at hmove

theorem close_moves (termination : Termination) (c : Connection σ) :
    Moves c (c.close termination) := by
  unfold close
  split
  · exact .refl
  · cases h : goodbye? c.phase termination with
    | none => exact .single .release
    | some reply => exact .single (.goodbye h)

/-- Every operation is made of moves. -/
theorem apply_moves (op : Operation σ) (c : Connection σ) : Moves c (op.apply c).2 := by
  cases op with
  | readClient router dial =>
      obtain ⟨d, inlet, hmoves, hd⟩ := readClient_moves router { c with dial }
      show Moves c ({ c with dial }.readClient router).2
      rw [hd]
      exact (hmoves.moves.head (setDial_move dial c)).tail (setInlet_move inlet d)
  | readPeer =>
      show Moves c c.readPeer.2
      cases h : c.peer with
      | none =>
          rw [readPeer, h]
      | some socket =>
          obtain ⟨d, after, hmoves, hd⟩ := readPeer_moves h
          rw [hd]
          refine hmoves.moves.tail (setPeer_move after ?_)
          rw [hmoves.frame.2.1, h]
          rfl
  | close termination => exact close_moves termination c
  | release => exact .single .release
  | beginWatch side watch => cases side <;> exact .single (.waits _ _ _)
  | endWatch side => cases side <;> exact .single (.waits _ _ _)
  | arrive side bytes =>
      cases side with
      | client => exact .single (setInlet_move _ c)
      | peer => exact .single (.sockets _ _ _)
  | hangUp side tail =>
      cases side with
      | client => exact .single (setInlet_move _ c)
      | peer => exact .single (.sockets _ _ _)

/-- A life is made of moves. -/
theorem run_moves (ops : List (Operation σ)) (c : Connection σ) : Moves c (run ops c).2 := by
  induction ops generalizing c with
  | nil => exact .refl
  | cons op ops ih => exact (apply_moves op c).trans (ih (op.apply c).2)

/-- What every move keeps is kept by moves one after the other. -/
theorem Moves.keeps {p : Connection σ → Prop} (hmove : ∀ c d, p c → Move c d → p d)
    (h : Moves c d) (hc : p c) : p d := by
  induction h with
  | refl => exact hc
  | tail _ hm ih => exact hmove _ _ ih hm

end Connection

end WsRelay
