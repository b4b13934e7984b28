import Mathlib.Logic.Relation
import WsRelay.Proofs.Client.Intake
import WsRelay.Proofs.Peer.Intake
/-! # What a connection does

Whatever a connection does when one of its sockets is readable is made of small moves.
`ClientMove` lists those that what a client sends can lead to, `PeerMove` those that what a peer
sends can lead to.  Each says what has to be so before it, and what is other after it; all else
stays as it is.

Every step of the loops is a chain of such moves (`useStep_moves`, `ClientReads.moves`,
`Forwards.moves`, `PeerReads.moves`), and so is all that is done when a socket is readable
(`readClient_moves`, `readPeer_moves`) and every state that is passed through on the way
(`Loop.Visits.related`).  What holds of a connection throughout is therefore shown move by move. -/

namespace WsRelay

/-! ### States a loop passes through -/

/-- The state after a repetition, or the one with which the loop is done. -/
def Step.state {α β : Type} : Step α (β × α) → α
  | .again a => a
  | .done r => r.2

namespace Loop

variable {α β : Type} {a b : α}

/-- The states a loop passes through: the first, and each it goes on with. -/
inductive Visits (step : α → Step α β) (a : α) : α → Prop
  | start : Visits step a a
  | again {b c : α} (h : Visits step a b) (hs : step b = .again c) : Visits step a c

variable {step : α → Step α (β × α)} {R : α → α → Prop}

/-- A relation between the states before and after every repetition, if it is reflexive and
transitive, relates the first state to each that is passed through. -/
theorem Visits.related (hrefl : ∀ a, R a a) (htrans : ∀ a b c, R a b → R b c → R a c)
    (hstep : ∀ a, R a (step a).state) (h : Visits step a b) : R a b := by
  induction h with
  | start => exact hrefl a
  | @again b c _ hs ih =>
      have hb := hstep b
      rw [hs] at hb
      exact htrans a b c ih hb

/-- And it relates the first state to the one with which the loop is done. -/
theorem run_related {measure : α → Nat} (htrans : ∀ a b c, R a b → R b c → R a c)
    (hstep : ∀ a, R a (step a).state)
    (descends : ∀ a b, step a = .again b → measure b < measure a) (a : α) :
    R a (run measure step descends a).2 := by
  refine Loop.induction (motive := fun a (r : β × α) => R a r.2) ?_ ?_ a
  · intro a result hs
    have ha := hstep a
    rw [hs] at ha
    exact ha
  · intro a b hs hb
    have ha := hstep a
    rw [hs] at ha
    exact htrans a b _ ha hb

/-- If a relation, reflexive and transitive, holds across the repetitions of a loop, it relates the
first state to the one with which the loop is done. -/
theorem run_visited {measure : α → Nat} (hrefl : ∀ a, R a a)
    (htrans : ∀ a b c, R a b → R b c → R a c)
    (descends : ∀ a b, step a = .again b → measure b < measure a) (a : α)
    (hstep : ∀ b, Visits step a b → R b (step b).state) :
    R a (run measure step descends a).2 := by
  obtain ⟨b, ⟨hvisits, hb⟩, hdone⟩ : ∃ b, (Visits step a b ∧ R a b) ∧
      step b = .done (run measure step descends a) := by
    refine Loop.invariant (fun b => Visits step a b ∧ R a b) ?_ a ⟨.start, hrefl a⟩
    intro b c hb hs
    have hc := hstep b hb.1
    rw [hs] at hc
    exact ⟨hb.1.again hs, htrans a b c hb.2 hc⟩
  have hlast := hstep b hvisits
  rw [hdone] at hlast
  exact htrans a b _ hb hlast

/-- A loop comes to the same from every state that it passes through. -/
theorem Visits.run_eq {measure : α → Nat}
    (descends : ∀ a b, step a = .again b → measure b < measure a) (h : Visits step a b) :
    run measure step descends a = run measure step descends b := by
  induction h with
  | start => rfl
  | again _ hs ih => exact ih.trans (run_again hs)

/-- What comes of a state that is passed through is related to the state with which the loop is
done. -/
theorem Visits.related_run {measure : α → Nat} (hrefl : ∀ a, R a a)
    (htrans : ∀ a b c, R a b → R b c → R a c) (hstep : ∀ a, R a (step a).state)
    (descends : ∀ a b, step a = .again b → measure b < measure a) (h : Visits step a b) :
    R (step b).state (run measure step descends a).2 := by
  rw [h.run_eq descends]
  cases hs : step b with
  | again c =>
      rw [run_again hs]
      exact run_related htrans hstep descends c
  | done result =>
      rw [run_done hs]
      exact hrefl _

end Loop

/-! ### Reads -/

theorem Tail.read_eq_data_iff {tail : Tail} {bytes : Bytes} :
    tail.read = .data bytes ↔ tail = .ended ∧ bytes = [] := by
  cases tail <;> simp [read, eq_comm]

theorem Tail.read_eq_failed_iff {tail : Tail} {fault : IoFault} :
    tail.read = .failed fault ↔ tail = .failed fault := by
  cases tail <;> simp [read]

/-- A read meets the end of what waits, or brings as much of it as there is room for. -/
theorem Inlet.read_cases (i : Inlet) (room : Nat) :
    (i.waiting = [] ∧ i.read room = (i.tail.read, i)) ∨
      (i.waiting ≠ [] ∧ i.read room =
        (.data (i.waiting.take room), { i with waiting := i.waiting.drop room })) := by
  unfold read
  by_cases hwaiting : i.waiting = []
  · exact .inl ⟨hwaiting, if_pos (List.isEmpty_iff.mpr hwaiting)⟩
  · exact .inr ⟨hwaiting, if_neg fun h => hwaiting (List.isEmpty_iff.mp h)⟩

/-- A read brings no more bytes than there is room for. -/
theorem Inlet.length_read_le {i rest : Inlet} {room : Nat} {bytes : Bytes}
    (h : i.read room = (.data bytes, rest)) : bytes.length ≤ room := by
  rcases i.read_cases room with ⟨-, hread⟩ | ⟨-, hread⟩
  · rw [hread, Prod.mk.injEq, Tail.read_eq_data_iff] at h
    rw [h.1.2]
    exact Nat.zero_le _
  · rw [hread] at h
    cases h
    exact List.length_take_le _ _

/-- And so does a read from a peer. -/
theorem PeerSocket.length_read_le {s rest : PeerSocket} {room : Nat} {bytes : Bytes}
    (h : s.read room = (.data bytes, rest)) : bytes.length ≤ room := by
  cases s with
  | stream inlet =>
      obtain ⟨hr, -⟩ := Prod.mk.inj h
      exact Inlet.length_read_le (Prod.ext hr rfl)
  | pipeIn => cases h
  | pipeOut inlet =>
      simp only [read] at h
      split at h
      · cases h
        exact Nat.zero_le _
      · obtain ⟨hr, -⟩ := Prod.mk.inj h
        exact Inlet.length_read_le (Prod.ext hr rfl)
  | datagram waiting tail =>
      cases waiting with
      | nil => cases tail <;> cases h
      | cons d waiting =>
          cases h
          exact List.length_take_le _ _

namespace Connection

open Framing

variable {σ : Type} {c d : Connection σ}

/-! ### The client's side -/

/-- One thing a connection does with what its client sends. -/
inductive ClientMove : Connection σ → Connection σ → Prop
  /-- Bytes are read, no more than there is room for. -/
  | read {c : Connection σ} (bytes : Bytes) (h : bytes.length ≤ clientRoom c) :
    ClientMove c { c with clientBuffer := c.clientBuffer ++ bytes }
  /-- Bytes are used up, or unmasked where they stand. -/
  | use {c : Connection σ} (buffer : Bytes) (h : buffer.length ≤ c.clientBuffer.length) :
    ClientMove c { c with clientBuffer := buffer }
  /-- The request line is accepted. -/
  | open {c : Connection σ} (path : String) (h : c.phase = .requestLine) :
    ClientMove c { c with request := { path }, phase := .headers }
  /-- A header line is accepted. -/
  | header {c : Connection σ} (request : Handshake.Request) (h : c.phase = .headers) :
    ClientMove c { c with request }
  /-- The upgrade is granted, and the client told so. -/
  | upgrade {c : Connection σ} (accept : String) (protocol : Option String) (route : Route σ)
      (socket : PeerSocket) (h : c.phase = .headers)
      (hsent : (c.toClient.offer (.switching accept protocol)).1 = true) :
    ClientMove c { c with
      toClient := (c.toClient.offer (.switching accept protocol)).2
      peer := some socket
      route := some route
      phase := .relaying }
  /-- The upgrade is granted, and the client cannot be told so. -/
  | untold {c : Connection σ} (accept : String) (protocol : Option String)
      (h : c.phase = .headers)
      (hrefused : (c.toClient.offer (.switching accept protocol)).1 = false) :
    ClientMove c { c with toClient := (c.toClient.offer (.switching accept protocol)).2 }
  /-- A payload is sent to the peer, or cannot be. -/
  | forward {c : Connection σ} (outlet : Outlet Bytes) (h : c.phase = .relaying) :
    ClientMove c { c with toPeer := outlet }
  /-- A ping is answered, or cannot be. -/
  | pong {c : Connection σ} (payload : Bytes) (h : c.phase = .relaying) :
    ClientMove c { c with toClient := (c.toClient.offer (.frame .pong payload)).2 }

/-- What the client's side leads to, one move after the other. -/
abbrev ClientMoves : Connection σ → Connection σ → Prop :=
  Relation.ReflTransGen ClientMove

theorem upgrade_moves (router : Router σ) (h : c.phase = .headers) :
    ClientMoves c (c.upgrade router).2 := by
  unfold upgrade
  cases c.request.grant with
  | error e => exact .refl
  | ok key =>
      dsimp only
      rcases c.connectPeer router with e | ⟨route, socket⟩
      · exact .refl
      · dsimp only
        rcases ho : c.toClient.offer _ with ⟨_ | _, outlet⟩
        · have hmove := ClientMove.untold _ _ h (by rw [ho])
          rw [ho] at hmove
          exact .single hmove
        · have hmove := ClientMove.upgrade _ _ route socket h (by rw [ho])
          rw [ho] at hmove
          exact .single hmove

theorem takeLine_moves (router : Router σ) (line : Bytes)
    (h : c.phase = .requestLine ∨ c.phase = .headers) :
    ClientMoves c (c.takeLine router line).2 := by
  unfold takeLine
  split
  · next hline =>
    split
    · exact .refl
    · exact .single (.open _ hline)
  · next hline =>
    have hheaders : c.phase = .headers := h.resolve_left hline
    split
    · exact .refl
    · exact .single (.header _ hheaders)
    · exact upgrade_moves router hheaders

theorem lineStep_moves (router : Router σ) (h : c.phase = .requestLine ∨ c.phase = .headers) :
    ClientMoves c (c.lineStep router).state := by
  unfold lineStep
  split
  · exact .refl
  · next line rest hs =>
    have hlen := Bytes.splitLine?_length hs
    have huse : ClientMove c { c with clientBuffer := rest } := .use rest (by omega)
    have htake := (takeLine_moves router line (c := { c with clientBuffer := rest }) h).head huse
    split
    · next ht =>
      rw [ht] at htake
      exact htake
    · next ht =>
      rw [ht] at htake
      exact htake

theorem sendToPeer_moves (payload : Bytes) (h : c.phase = .relaying) :
    ClientMoves c (c.sendToPeer payload).2 := by
  unfold sendToPeer
  split
  · exact .refl
  · split
    · exact .single (.forward _ h)
    · exact .single (.forward _ h)

theorem act_moves (payload : Bytes) (i : Intent) (h : c.phase = .relaying) :
    ClientMoves c (act payload c i).2 := by
  cases i with
  | forward =>
      simp only [act]
      have hsend := sendToPeer_moves payload h
      split
      all_goals
        next hs =>
        rw [hs] at hsend
        exact hsend
  | pong =>
      have hmove := ClientMove.pong payload h
      simp only [act]
      rcases ho : c.toClient.offer (.frame .pong payload) with ⟨_ | _, outlet⟩
      all_goals
        rw [ho] at hmove
        exact .single hmove
  | ignore => exact .refl
  | close => exact .refl

theorem dropFrame_move (n : Nat) : ClientMove c (c.dropFrame n) :=
  .use _ (by rw [List.length_drop]; omega)

theorem useFrame_moves (frame : Frame.Decoded) (h : c.phase = .relaying) :
    ClientMoves c (useFrame frame c).state := by
  unfold useFrame
  cases intent frame.header with
  | error e => exact .refl
  | ok i =>
      have hact := act_moves frame.payload i h
      dsimp only
      rcases ha : act frame.payload c i with ⟨e | _ | t, d⟩
      all_goals rw [ha] at hact
      · exact hact
      · exact hact.tail (dropFrame_move _)
      · dsimp only [Step.state]
        split
        · exact hact.tail (dropFrame_move _)
        · exact hact

theorem frameStep_moves (h : c.phase = .relaying) : ClientMoves c c.frameStep.state := by
  cases hp : Frame.Header.parse? c.clientBuffer with
  | none =>
      rw [frameStep_unparsed hp]
      exact .refl
  | some header =>
      by_cases hlong : bufferCapacity < header.frameLength
      · rw [frameStep_tooLong hp hlong]
        exact .refl
      · cases hd : Frame.decode? c.clientBuffer with
        | none =>
            rw [frameStep_undecoded hp hlong hd]
            exact .refl
        | some p =>
            obtain ⟨frame, buffer⟩ := p
            obtain ⟨-, -, hlen⟩ := Frame.decode?_length hd
            rw [frameStep_decoded hp hlong hd]
            exact (useFrame_moves frame (c := { c with clientBuffer := buffer }) h).head
              (.use buffer (Nat.le_of_eq hlen))

/-- A line or a frame is used move by move. -/
theorem useStep_moves (router : Router σ) (c : Connection σ) :
    ClientMoves c (c.useStep router).state := by
  unfold useStep
  cases h : c.phase with
  | requestLine => exact lineStep_moves router (.inl h)
  | headers => exact lineStep_moves router (.inr h)
  | relaying => exact frameStep_moves h
  | closed => exact .refl

theorem useClientBuffer_moves (router : Router σ) (c : Connection σ) :
    ClientMoves c (useClientBuffer router c).2 :=
  Loop.run_related (fun _ _ _ => .trans) (useStep_moves router) _ c

/-- What one read from the client leads to. -/
inductive ClientReads (router : Router σ) (s : Inlet × Connection σ) :
    Step (Inlet × Connection σ) (Outcome × Inlet × Connection σ) → Prop
  /-- Nothing waits. -/
  | nothing {rest : Inlet} : ClientReads router s (.done (.ok .continue, rest, s.2))
  /-- The stream has ended or fails. -/
  | stopped (e : Error) {rest : Inlet} : ClientReads router s (.done (.error e, rest, s.2))
  /-- Using what was read closes the connection. -/
  | closed {bytes : Bytes} {rest : Inlet} {outcome : Outcome} {d : Connection σ}
      (hr : s.1.read (clientRoom s.2) = (.data bytes, rest))
      (hu : useClientBuffer router { s.2 with clientBuffer := s.2.clientBuffer ++ bytes } =
        (outcome, d))
      (hend : outcome ≠ .ok .continue) : ClientReads router s (.done (outcome, rest, d))
  /-- What was read is used, and the buffer is full of what is left. -/
  | full {bytes : Bytes} {rest : Inlet} {d : Connection σ}
      (hr : s.1.read (clientRoom s.2) = (.data bytes, rest))
      (hu : useClientBuffer router { s.2 with clientBuffer := s.2.clientBuffer ++ bytes } =
        (.ok .continue, d)) : ClientReads router s (.done (.error clientOverflow, rest, d))
  /-- What was read is used, and there is room for more. -/
  | again {bytes : Bytes} {rest : Inlet} {d : Connection σ}
      (hr : s.1.read (clientRoom s.2) = (.data bytes, rest))
      (hu : useClientBuffer router { s.2 with clientBuffer := s.2.clientBuffer ++ bytes } =
        (.ok .continue, d))
      (hroom : d.clientBuffer.length ≠ bufferCapacity) : ClientReads router s (.again (rest, d))

theorem clientStep_reads (router : Router σ) (s : Inlet × Connection σ) :
    ClientReads router s (clientStep router s) := by
  obtain ⟨inlet, c⟩ := s
  simp only [clientStep]
  split
  · exact .nothing
  · exact .stopped _
  · exact .stopped _
  · next b bytes rest hr =>
    split
    · next hu =>
      split
      · exact .full hr hu
      · next hroom => exact .again hr hu hroom
    · next hend hu => exact .closed hr hu hend

theorem ClientReads.moves {router : Router σ} {s : Inlet × Connection σ}
    {step : Step _ (Outcome × Inlet × Connection σ)} (h : ClientReads router s step) :
    ClientMoves s.2 step.state.2 := by
  have huse {bytes : Bytes} {rest : Inlet} (hr : s.1.read (clientRoom s.2) = (.data bytes, rest))
      {outcome : Outcome} {d : Connection σ}
      (hu : useClientBuffer router { s.2 with clientBuffer := s.2.clientBuffer ++ bytes } =
        (outcome, d)) : ClientMoves s.2 d := by
    have hmoves := useClientBuffer_moves router
      { s.2 with clientBuffer := s.2.clientBuffer ++ bytes }
    rw [hu] at hmoves
    exact hmoves.head (.read bytes (Inlet.length_read_le hr))
  cases h with
  | nothing => exact .refl
  | stopped => exact .refl
  | closed hr hu => exact huse hr hu
  | full hr hu => exact huse hr hu
  | again hr hu => exact huse hr hu

/-- What is done when the client's socket is readable is done move by move; what waits there is
other afterwards. -/
theorem readClient_moves (router : Router σ) (c : Connection σ) :
    ∃ d inlet, ClientMoves c d ∧ (c.readClient router).2 = d.setInlet inlet :=
  ⟨_, _, Loop.run_related (R := fun s t => ClientMoves s.2 t.2) (fun _ _ _ => .trans)
    (fun s => (clientStep_reads router s).moves) _ (c.fromClient, c), rfl⟩

/-- The client's side leaves alone what is read from the peer. -/
theorem ClientMoves.frame (h : ClientMoves c d) :
    d.peerBuffer = c.peerBuffer ∧ d.memory = c.memory := by
  induction h with
  | refl => exact ⟨rfl, rfl⟩
  | tail _ hm ih => cases hm <;> exact ih

/-! ### The peer's side -/

/-- What the framing of a route answers about the peer's buffer. -/
def answer (route : Route σ) (lastRead : Nat) (c : Connection σ) :
    Except FramingError Cut × Memory σ :=
  route.framing.rule c.peerBuffer (min lastRead c.peerBuffer.length) route.framingConfig c.memory

end Connection

/-- The unit that an answer cuts off the front of the data, if it does: an answer of 0, or of more
than there is, cuts nothing. -/
def Framing.unit? (data : Bytes) : Except FramingError Cut → Option Message
  | .error _ => none
  | .ok cut =>
    if 0 < cut.length ∧ cut.length ≤ data.length then some ⟨cut.kind, data.take cut.length⟩
    else none

theorem Framing.unit?_eq_some_iff {data : Bytes} {answer : Except FramingError Cut}
    {unit : Message} : unit? data answer = some unit ↔
      ∃ cut, answer = .ok cut ∧ 0 < cut.length ∧ cut.length ≤ data.length ∧
        unit = ⟨cut.kind, data.take cut.length⟩ := by
  cases answer with
  | error e => simp [unit?]
  | ok cut => simp [unit?, and_assoc, eq_comm]

namespace Connection

open Framing

variable {σ : Type} {c d : Connection σ}

/-- What asking the framing about the peer's buffer once leads to. -/
inductive Forwards (lastRead : Nat) (c : Connection σ) :
    Step (Connection σ) (Except Error Unit × Connection σ) → Prop
  /-- There is nothing to ask about. -/
  | idle : Forwards lastRead c (.done (.ok (), c))
  /-- No unit is cut. -/
  | uncut {route : Route σ} (result : Except Error Unit) (hroute : c.route = some route)
      (hne : c.peerBuffer ≠ [])
      (hunit : unit? c.peerBuffer (c.answer route lastRead).1 = none) :
    Forwards lastRead c (.done (result, { c with memory := (c.answer route lastRead).2 }))
  /-- A unit is cut and not sent. -/
  | discarded {route : Route σ} {unit : Message} (hroute : c.route = some route)
      (hne : c.peerBuffer ≠ [])
      (hunit : unit? c.peerBuffer (c.answer route lastRead).1 = some unit)
      (hreply : unit.reply? = none) :
    Forwards lastRead c
      (.again ({ c with memory := (c.answer route lastRead).2 }.dropUnit unit.payload.length))
  /-- A unit is cut and sent. -/
  | sent {route : Route σ} {unit : Message} {opcode : Opcode} (hroute : c.route = some route)
      (hne : c.peerBuffer ≠ [])
      (hunit : unit? c.peerBuffer (c.answer route lastRead).1 = some unit)
      (hkind : unit.kind.opcode? = some opcode)
      (htaken : (c.toClient.offer (.frame opcode unit.payload)).1 = true) :
    Forwards lastRead c
      (.again ({ c with
        memory := (c.answer route lastRead).2
        toClient := (c.toClient.offer (.frame opcode unit.payload)).2 }.dropUnit
          unit.payload.length))
  /-- A unit is cut and cannot be sent: it stays in the buffer. -/
  | unsent {route : Route σ} {unit : Message} {opcode : Opcode} (hroute : c.route = some route)
      (hkind : unit.kind.opcode? = some opcode)
      (hrefused : (c.toClient.offer (.frame opcode unit.payload)).1 = false) :
    Forwards lastRead c (.done (.error (.io .brokenPipe), { c with
      memory := (c.answer route lastRead).2
      toClient := (c.toClient.offer (.frame opcode unit.payload)).2 }))

/-- What a unit that is cut leads to. -/
theorem forwards_of_unit {lastRead : Nat} {route : Route σ} {cut : Cut} {unit : Message}
    (hroute : c.route = some route) (hne : c.peerBuffer ≠ [])
    (hunit : unit? c.peerBuffer (c.answer route lastRead).1 = some unit)
    (hlen : unit.payload.length = cut.length) :
    Forwards lastRead c
      (match unit.kind.opcode? with
      | none => .again ({ c with memory := (c.answer route lastRead).2 }.dropUnit cut.length)
      | some opcode =>
        match c.toClient.offer (.frame opcode unit.payload) with
        | (true, outlet) =>
          .again ({ c with
            memory := (c.answer route lastRead).2, toClient := outlet }.dropUnit cut.length)
        | (false, outlet) =>
          .done (.error (.io .brokenPipe),
            { c with memory := (c.answer route lastRead).2, toClient := outlet })) := by
  rw [← hlen]
  cases hk : unit.kind.opcode? with
  | none => exact .discarded hroute hne hunit (by rw [Message.reply?, hk]; rfl)
  | some opcode =>
      dsimp only
      rcases ho : c.toClient.offer (.frame opcode unit.payload) with ⟨_ | _, outlet⟩
      · have hstep : Forwards lastRead c _ := .unsent hroute hk (by rw [ho])
        rw [ho] at hstep
        exact hstep
      · have hstep : Forwards lastRead c _ := .sent hroute hne hunit hk (by rw [ho])
        rw [ho] at hstep
        exact hstep

/-- Asking the framing once leads to one of these. -/
theorem forwardStep_forwards (lastRead : Nat) (c : Connection σ) :
    Forwards lastRead c (c.forwardStep lastRead) := by
  unfold forwardStep
  split
  · exact .idle
  · next route hroute =>
    split
    · exact .idle
    · next hempty =>
      have hne : c.peerBuffer ≠ [] := fun h => hempty (by rw [h]; rfl)
      dsimp only
      split
      · next cause memory hrule =>
        have ha : c.answer route lastRead = (.error cause, memory) := hrule
        have hmemory : memory = (c.answer route lastRead).2 := by rw [ha]
        rw [hmemory]
        exact .uncut _ hroute hne (by rw [ha]; rfl)
      · next cut memory hrule =>
        have ha : c.answer route lastRead = (.ok cut, memory) := hrule
        have hmemory : memory = (c.answer route lastRead).2 := by rw [ha]
        rw [hmemory]
        split
        · next hzero => exact .uncut _ hroute hne (by rw [ha]; exact if_neg (by omega))
        · next hzero =>
          split
          · next hover => exact .uncut _ hroute hne (by rw [ha]; exact if_neg (by omega))
          · next hover =>
            have hunit : unit? c.peerBuffer (c.answer route lastRead).1 =
                some ⟨cut.kind, c.peerBuffer.take cut.length⟩ :=
              unit?_eq_some_iff.mpr ⟨cut, by rw [ha], by omega, by omega, rfl⟩
            have hlen : (c.peerBuffer.take cut.length).length = cut.length := by
              rw [List.length_take]
              omega
            exact forwards_of_unit hroute hne hunit hlen

/-- One thing a connection does with what its peer sends. -/
inductive PeerMove : Connection σ → Connection σ → Prop
  /-- Bytes are read, no more than there is room for. -/
  | read {c : Connection σ} (bytes : Bytes) (h : c.peer.isSome)
      (hroom : bytes.length ≤ peerRoom c) :
    PeerMove c { c with peerBuffer := c.peerBuffer ++ bytes }
  /-- Bytes are used up. -/
  | use {c : Connection σ} (n : Nat) : PeerMove c (c.dropUnit n)
  /-- The framing remembers something else. -/
  | remember {c : Connection σ} (memory : Memory σ) (h : c.route.isSome) :
    PeerMove c { c with memory }
  /-- A unit is sent to the client, or cannot be. -/
  | message {c : Connection σ} (kind : MessageKind) {opcode : Opcode} (payload : Bytes)
      (h : c.route.isSome) (hkind : kind.opcode? = some opcode) :
    PeerMove c { c with toClient := (c.toClient.offer (.frame opcode payload)).2 }

/-- What the peer's side leads to, one move after the other. -/
abbrev PeerMoves : Connection σ → Connection σ → Prop :=
  Relation.ReflTransGen PeerMove

theorem Forwards.moves {lastRead : Nat} {step : Step (Connection σ) (Except Error Unit × _)}
    (h : Forwards lastRead c step) : PeerMoves c step.state := by
  have hremember {route : Route σ} (hroute : c.route = some route) (memory : Memory σ) :
      PeerMoves c { c with memory } :=
    .single (.remember memory (Option.isSome_of_mem hroute))
  cases h with
  | idle => exact .refl
  | uncut _ hroute => exact hremember hroute _
  | discarded hroute => exact (hremember hroute _).tail (.use _)
  | @sent route unit _ hroute _ _ hkind =>
      refine ((hremember hroute (c.answer route lastRead).2).tail ?_).tail (.use _)
      exact .message unit.kind unit.payload (Option.isSome_of_mem hroute) hkind
  | @unsent route unit _ hroute hkind =>
      refine (hremember hroute (c.answer route lastRead).2).tail ?_
      exact .message unit.kind unit.payload (Option.isSome_of_mem hroute) hkind

theorem forward_moves (lastRead : Nat) (c : Connection σ) :
    PeerMoves c (c.forward lastRead).2 :=
  Loop.run_related (fun _ _ _ => .trans)
    (fun c => (forwardStep_forwards lastRead c).moves) _ c

/-- The peer's side leaves alone what it does not work on. -/
theorem PeerMoves.frame (h : PeerMoves c d) :
    d.phase = c.phase ∧ d.peer = c.peer ∧ d.clientBuffer = c.clientBuffer := by
  induction h with
  | refl => exact ⟨rfl, rfl, rfl⟩
  | tail _ hm ih => cases hm <;> exact ih

theorem takePeerBytes_moves {bytes : Bytes} (h : c.peer.isSome)
    (hroom : bytes.length ≤ peerRoom c) : PeerMoves c (takePeerBytes bytes c).2 := by
  have hforward := (forward_moves bytes.length
    { c with peerBuffer := c.peerBuffer ++ bytes }).head (.read bytes h hroom)
  unfold takePeerBytes
  rcases hr : forward bytes.length { c with peerBuffer := c.peerBuffer ++ bytes } with ⟨_ | _, d⟩
  all_goals
    rw [hr] at hforward
    exact hforward

/-- What one read from the peer leads to. -/
inductive PeerReads (s : PeerSocket × Connection σ) :
    Step (PeerSocket × Connection σ) (Outcome × PeerSocket × Connection σ) → Prop
  /-- Nothing waits. -/
  | nothing {rest : PeerSocket} (hr : s.1.read (peerRoom s.2) = (.nothing, rest)) :
    PeerReads s (.done (.ok .continue, rest, s.2))
  /-- The stream has ended or fails, or a datagram may have lost its end. -/
  | stopped (e : Error) : PeerReads s (.done (.error e, (s.1.read (peerRoom s.2)).2, s.2))
  /-- Bytes are taken, which closes the connection. -/
  | closed {bytes : Bytes} {rest : PeerSocket} {e : Error} {d : Connection σ}
      (hr : s.1.read (peerRoom s.2) = (.data bytes, rest))
      (hwhole : ¬ (bytes.length = peerRoom s.2 ∧ s.1.isDatagram))
      (ht : takePeerBytes bytes s.2 = (some e, d)) : PeerReads s (.done (.error e, rest, d))
  /-- Bytes are taken, and there is room for more. -/
  | again {bytes : Bytes} {rest : PeerSocket} {d : Connection σ}
      (hr : s.1.read (peerRoom s.2) = (.data bytes, rest))
      (hwhole : ¬ (bytes.length = peerRoom s.2 ∧ s.1.isDatagram))
      (ht : takePeerBytes bytes s.2 = (none, d)) : PeerReads s (.again (rest, d))

theorem peerStep_reads (s : PeerSocket × Connection σ) : PeerReads s (peerStep s) := by
  obtain ⟨socket, c⟩ := s
  have hstopped {result : Read} {rest : PeerSocket}
      (hr : socket.read (peerRoom c) = (result, rest)) (e : Error) :
      PeerReads (socket, c) (.done (.error e, rest, c)) := by
    have hrest : rest = (socket.read (peerRoom c)).2 := by rw [hr]
    rw [hrest]
    exact .stopped e
  simp only [peerStep]
  split
  · next hr => exact .nothing hr
  · next hr => exact hstopped hr _
  · next bytes rest hr =>
    split
    · exact hstopped hr _
    · split
      · exact hstopped hr _
      · next hwhole =>
        split
        · next ht => exact .closed hr hwhole ht
        · next ht => exact .again hr hwhole ht

theorem PeerReads.moves {s : PeerSocket × Connection σ}
    {step : Step _ (Outcome × PeerSocket × Connection σ)} (h : PeerReads s step)
    (hpeer : s.2.peer.isSome) : PeerMoves s.2 step.state.2 := by
  have htake {bytes : Bytes} {rest : PeerSocket}
      (hr : s.1.read (peerRoom s.2) = (.data bytes, rest)) {e? : Option Error} {d : Connection σ}
      (ht : takePeerBytes bytes s.2 = (e?, d)) : PeerMoves s.2 d := by
    have hmoves := takePeerBytes_moves hpeer (PeerSocket.length_read_le hr)
    rwa [ht] at hmoves
  cases h with
  | nothing => exact .refl
  | stopped => exact .refl
  | closed hr _ ht => exact htake hr ht
  | again hr _ ht => exact htake hr ht

/-- What is done when the peer's socket is readable is done move by move; what waits there is other
afterwards. -/
theorem readPeer_moves {socket : PeerSocket} (h : c.peer = some socket) :
    ∃ d socket', PeerMoves c d ∧ c.readPeer.2 = d.setPeer socket' := by
  have hmoves := Loop.run_related
    (R := fun s t : PeerSocket × Connection σ => s.2.peer.isSome → PeerMoves s.2 t.2)
    (fun a b _ hab hbc ha => (hab ha).trans (hbc (by rw [(hab ha).frame.2.1]; exact ha)))
    (fun s => (peerStep_reads s).moves) peerStep_descends (socket, c) (by rw [h]; rfl)
  refine ⟨(takeFromPeer (socket, c)).2.2, (takeFromPeer (socket, c)).2.1, hmoves, ?_⟩
  simp only [readPeer, h]
  rfl

theorem PeerReads.keeps {γ : Type} {f : PeerSocket → γ}
    (hf : ∀ room socket, f (PeerSocket.read room socket).2 = f socket)
    {s : PeerSocket × Connection σ} {step : Step _ (Outcome × PeerSocket × Connection σ)}
    (h : PeerReads s step) : f step.state.1 = f s.1 := by
  have hread {result : Read} {rest : PeerSocket} (hr : s.1.read (peerRoom s.2) = (result, rest)) :
      f rest = f s.1 := by
    have hkept := hf (peerRoom s.2) s.1
    rwa [hr] at hkept
  cases h with
  | nothing hr => exact hread hr
  | stopped => exact hf _ _
  | closed hr => exact hread hr
  | again hr => exact hread hr

/-- What a read from a socket does not change is the same after all that waits there is read. -/
theorem keeps_readPeer {γ : Type} {f : PeerSocket → γ}
    (hf : ∀ room socket, f (PeerSocket.read room socket).2 = f socket) (c : Connection σ) :
    c.readPeer.2.peer.map f = c.peer.map f := by
  cases hpeer : c.peer with
  | none =>
      rw [readPeer, hpeer]
      dsimp only
      rw [hpeer]
  | some socket =>
      have hkept : f (takeFromPeer (socket, c)).2.1 = f socket :=
        Loop.run_related (R := fun s t : PeerSocket × Connection σ => f t.1 = f s.1)
          (fun _ _ _ hab hbc => hbc.trans hab) (fun s => (peerStep_reads s).keeps hf)
          peerStep_descends (socket, c)
      rw [readPeer, hpeer]
      exact congrArg some hkept

end Connection

end WsRelay
