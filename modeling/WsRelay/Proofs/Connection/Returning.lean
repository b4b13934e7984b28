import WsRelay.Proofs.Connection.Coherence
/-! # A readable socket is dealt with

What is done when a socket is readable is a loop of reads with a loop inside it: lines and frames
are used on the client's side, units are cut on the peer's.  The loops come to an end whatever the
sockets hold and whatever the framing answers.  `Loop.Ends` counts the repetitions of a loop that go
on; `Loop.ends` bounds their number if each of them takes as much off a measure.

A read that goes on takes a byte or a datagram off what waits.  A line or a frame has two bytes at
least and stands in the client's buffer whole (`Front.bounds`); it is taken off the buffer or the
loop is done (`useStep_account`).  A unit has a byte at least and no more than the peer's buffer
has: with any other answer of the framing the loop is done (`forwardStep_account`).  So no length is
taken off a shorter one, and the buffers never hold more than their capacity (`Fits`), which is what
the room for a read is reckoned from.

`readable_returns` has all of this for both sockets of any connection. -/

namespace WsRelay

namespace Loop

variable {α β : Type} {step : α → Step α β}

/-- From a state, `n` repetitions go on and the next one is done, with this result. -/
inductive Ends (step : α → Step α β) : Nat → α → β → Prop
  | done {a : α} {result : β} (h : step a = .done result) : Ends step 0 a result
  | again {n : Nat} {a b : α} {result : β} (h : step a = .again b) (hrest : Ends step n b result) :
    Ends step (n + 1) a result

/-- If every repetition that goes on takes `k` off a measure, `k` times their number is no more than
the measure at the start. -/
theorem ends {measure size : α → Nat} {k : Nat}
    (descends : ∀ a b, step a = .again b → measure b < measure a)
    (hstep : ∀ a b, step a = .again b → size b + k ≤ size a) (a : α) :
    ∃ n, Ends step n a (run measure step descends a) ∧ k * n ≤ size a := by
  refine Loop.induction (motive := fun a result => ∃ n, Ends step n a result ∧ k * n ≤ size a)
    ?_ ?_ a
  · exact fun a result h => ⟨0, .done h, Nat.zero_le _⟩
  · rintro a b h ⟨n, hends, hn⟩
    refine ⟨n + 1, .again h hends, ?_⟩
    have hle := hstep a b h
    rw [Nat.mul_succ]
    omega

/-- No more repetitions go on than the loop's own measure is at the start. -/
theorem ends_within {measure : α → Nat}
    (descends : ∀ a b, step a = .again b → measure b < measure a) (a : α) :
    ∃ n, Ends step n a (run measure step descends a) ∧ n ≤ measure a := by
  obtain ⟨n, hends, hn⟩ := ends (k := 1) descends descends a
  rw [Nat.one_mul] at hn
  exact ⟨n, hends, hn⟩

end Loop

namespace Connection

open Framing

variable {σ : Type} {router : Router σ} {c d : Connection σ} {lastRead n : Nat}

/-! ### What is taken off the buffers -/

/-- The line or the frame at the front of the client's buffer is `n` bytes long. -/
inductive Front (c : Connection σ) : Nat → Prop
  | line {line rest : Bytes} (hphase : c.phase = .requestLine ∨ c.phase = .headers)
    (h : Bytes.splitLine? c.clientBuffer = some (line, rest)) : Front c (line.length + 2)
  | frame {frame : Frame.Decoded} {buffer : Bytes} (hphase : c.phase = .relaying)
    (h : Frame.decode? c.clientBuffer = some (frame, buffer)) : Front c frame.length

/-- A line or a frame stands in the buffer whole. -/
theorem Front.bounds (h : Front c n) : 2 ≤ n ∧ n ≤ c.clientBuffer.length := by
  cases h with
  | line _ h =>
      have hlen := Bytes.splitLine?_length h
      omega
  | frame _ h =>
      obtain ⟨htwo, hle, -⟩ := Frame.decode?_length h
      exact ⟨htwo, hle⟩

theorem length_lineStep {line rest : Bytes}
    (h : Bytes.splitLine? c.clientBuffer = some (line, rest)) :
    (c.lineStep router).state.clientBuffer.length + (line.length + 2) = c.clientBuffer.length := by
  have hlen := Bytes.splitLine?_length h
  have htake := takeLine_clientBuffer router line { c with clientBuffer := rest }
  unfold lineStep
  rw [h]
  dsimp only
  rcases ht : takeLine router line { c with clientBuffer := rest } with ⟨_ | _, d⟩
  all_goals
    rw [ht] at htake
    dsimp only at htake
    dsimp only [Step.state]
    rw [htake]
    omega

/-- A frame that has been decoded is used up, or stays and is the last that is used. -/
theorem length_useFrame {frame : Frame.Decoded} (hlen : frame.length ≤ c.clientBuffer.length) :
    (∃ result, useFrame frame c = .done result ∧
      result.2.clientBuffer.length = c.clientBuffer.length) ∨
    (useFrame frame c).state.clientBuffer.length + frame.length = c.clientBuffer.length := by
  unfold useFrame
  cases intent frame.header with
  | error e => exact .inl ⟨_, rfl, rfl⟩
  | ok intent =>
      have hact := act_clientBuffer frame.payload c intent
      dsimp only
      rcases ha : act frame.payload c intent with ⟨e | _ | t, d⟩
      all_goals
        rw [ha] at hact
        dsimp only at hact
        have hdrop : (d.dropFrame frame.length).clientBuffer.length + frame.length =
            c.clientBuffer.length := by
          rw [dropFrame, List.length_drop, hact]
          omega
      · exact .inl ⟨_, rfl, congrArg _ hact⟩
      · exact .inr hdrop
      · dsimp only
        split
        · exact .inr hdrop
        · exact .inl ⟨_, rfl, congrArg _ hact⟩

/-- **What one step takes off the client's buffer.**  The step is the last one and takes nothing, or
it takes the line or the frame at the front. -/
theorem useStep_account (router : Router σ) (c : Connection σ) :
    (∃ result, c.useStep router = .done result ∧
      result.2.clientBuffer.length = c.clientBuffer.length) ∨
    ∃ n, Front c n ∧ (c.useStep router).state.clientBuffer.length + n = c.clientBuffer.length := by
  have hline (hphase : c.phase = .requestLine ∨ c.phase = .headers) :
      (∃ result, c.lineStep router = .done result ∧
        result.2.clientBuffer.length = c.clientBuffer.length) ∨
      ∃ n, Front c n ∧
        (c.lineStep router).state.clientBuffer.length + n = c.clientBuffer.length := by
    cases hs : Bytes.splitLine? c.clientBuffer with
    | none => exact .inl ⟨(.ok .continue, c), by rw [lineStep, hs], rfl⟩
    | some p => exact .inr ⟨_, .line hphase hs, length_lineStep hs⟩
  unfold useStep
  cases hphase : c.phase with
  | requestLine => exact hline (.inl hphase)
  | headers => exact hline (.inr hphase)
  | relaying =>
      dsimp only
      cases hp : Frame.Header.parse? c.clientBuffer with
      | none => exact .inl ⟨_, frameStep_unparsed hp, rfl⟩
      | some header =>
          by_cases hlong : bufferCapacity < header.frameLength
          · exact .inl ⟨_, frameStep_tooLong hp hlong, rfl⟩
          · cases hd : Frame.decode? c.clientBuffer with
            | none => exact .inl ⟨_, frameStep_undecoded hp hlong hd, rfl⟩
            | some p =>
                obtain ⟨frame, buffer⟩ := p
                obtain ⟨-, hle, hbuffer⟩ := Frame.decode?_length hd
                rw [frameStep_decoded hp hlong hd, ← hbuffer]
                rw [← hbuffer] at hle
                exact (length_useFrame (c := { c with clientBuffer := buffer }) hle).imp_right
                  fun h => ⟨_, .frame hphase hd, h⟩
  | closed => exact .inl ⟨_, rfl, rfl⟩

/-- A line or a frame that is used shortens the client's buffer by two bytes at least. -/
theorem useStep_shortens (h : c.useStep router = .again d) :
    d.clientBuffer.length + 2 ≤ c.clientBuffer.length := by
  rcases useStep_account router c with ⟨result, hdone, -⟩ | ⟨n, hfront, hlen⟩
  · rw [h] at hdone
    cases hdone
  · have htwo := hfront.bounds.1
    rw [h] at hlen
    dsimp only [Step.state] at hlen
    omega

/-- The framing answers that a unit of `n` bytes stands at the front of the peer's buffer. -/
def Announces (lastRead : Nat) (c : Connection σ) (n : Nat) : Prop :=
  ∃ route cut, c.route = some route ∧ (c.answer route lastRead).1 = .ok cut ∧ cut.length = n

/-- A unit is cut if the framing's answer is neither 0 nor more than there is. -/
theorem announces_of_unit? {route : Route σ} {unit : Message} (hroute : c.route = some route)
    (h : unit? c.peerBuffer (c.answer route lastRead).1 = some unit) :
    Announces lastRead c unit.payload.length ∧ 0 < unit.payload.length ∧
      unit.payload.length ≤ c.peerBuffer.length := by
  obtain ⟨cut, hanswer, hpos, hle, rfl⟩ := unit?_eq_some_iff.mp h
  have hlen : (c.peerBuffer.take cut.length).length = cut.length := List.length_take_of_le hle
  dsimp only
  rw [hlen]
  exact ⟨⟨route, cut, hroute, hanswer, rfl⟩, hpos, hle⟩

/-- **What one step takes off the peer's buffer.**  The step is the last one and takes nothing, or
it takes as many bytes as the framing has answered, at least one and no more than there are. -/
theorem forwardStep_account (lastRead : Nat) (c : Connection σ) :
    (∃ result, c.forwardStep lastRead = .done result ∧ result.2.peerBuffer = c.peerBuffer) ∨
    ∃ n d, c.forwardStep lastRead = .again d ∧ Announces lastRead c n ∧ 0 < n ∧
      d.peerBuffer.length + n = c.peerBuffer.length := by
  have hcut {route : Route σ} {unit : Message} (hroute : c.route = some route)
      (hunit : unit? c.peerBuffer (c.answer route lastRead).1 = some unit)
      {e : Connection σ} (he : e.peerBuffer = c.peerBuffer) :
      Announces lastRead c unit.payload.length ∧ 0 < unit.payload.length ∧
        (e.dropUnit unit.payload.length).peerBuffer.length + unit.payload.length =
          c.peerBuffer.length := by
    obtain ⟨hannounces, hpos, hle⟩ := announces_of_unit? hroute hunit
    refine ⟨hannounces, hpos, ?_⟩
    rw [dropUnit, List.length_drop, he]
    omega
  have hforwards := forwardStep_forwards lastRead c
  generalize c.forwardStep lastRead = step at hforwards ⊢
  cases hforwards with
  | idle => exact .inl ⟨_, rfl, rfl⟩
  | uncut => exact .inl ⟨_, rfl, rfl⟩
  | discarded hroute _ hunit => exact .inr ⟨_, _, rfl, hcut hroute hunit rfl⟩
  | sent hroute _ hunit => exact .inr ⟨_, _, rfl, hcut hroute hunit rfl⟩
  | unsent => exact .inl ⟨_, rfl, rfl⟩

/-! ### The buffers fit -/

/-- No more is held of a client or of a peer than there is room for. -/
structure Fits (c : Connection σ) : Prop where
  client : c.clientBuffer.length ≤ bufferCapacity
  peer : c.peerBuffer.length ≤ bufferCapacity

theorem ClientMoves.fits (h : ClientMoves c d) (hc : Fits c) : Fits d := by
  induction h with
  | refl => exact hc
  | tail _ hm ih =>
      refine ⟨?_, ?_⟩
      · cases hm with
        | read bytes hroom => exact clientFits_read hroom ih.client
        | use buffer hle => exact Nat.le_trans hle ih.client
        | _ => exact ih.client
      · cases hm <;> exact ih.peer

theorem PeerMoves.fits (h : PeerMoves c d) (hc : Fits c) : Fits d := by
  induction h with
  | refl => exact hc
  | tail _ hm ih =>
      refine ⟨?_, ?_⟩
      · cases hm <;> exact ih.client
      · cases hm with
        | read bytes _ hroom => exact peerFits_read hroom ih.peer
        | use n => exact Nat.le_trans (length_dropUnit_le n _) ih.peer
        | _ => exact ih.peer

/-! ### The loops come to an end -/

/-- What holds when the client's socket of `c` is readable. -/
structure ClientReturns (router : Router σ) (c : Connection σ) : Prop where
  /-- The reads come to an end, and no more of them go on than bytes wait. -/
  ends : ∃ n outcome inlet d,
    Loop.Ends (clientStep router) n (c.fromClient, c) (outcome, inlet, d) ∧
      n ≤ c.fromClient.waiting.length ∧
      c.readClient router = (outcome.verdict, { d with fromClient := inlet })
  /-- A read takes a byte off what waits, or is the last one. -/
  reads (s t : Inlet × Connection σ) (h : clientStep router s = .again t) :
    t.1.waiting.length < s.1.waiting.length
  /-- Lines and frames come to an end, and no more of them are used than there are pairs of
  bytes. -/
  uses (d : Connection σ) : ∃ n,
    Loop.Ends (useStep router) n d (useClientBuffer router d) ∧ 2 * n ≤ d.clientBuffer.length
  /-- A step takes the line or the frame at the front off the buffer, which has at least as many
  bytes, or it takes nothing and is the last one. -/
  takes (d : Connection σ) :
    (∃ result, d.useStep router = .done result ∧
      result.2.clientBuffer.length = d.clientBuffer.length) ∨
    ∃ n, Front d n ∧ 2 ≤ n ∧
      (d.useStep router).state.clientBuffer.length + n = d.clientBuffer.length
  /-- The length of the buffer can be taken off the capacity at every read. -/
  room (s : Inlet × Connection σ) (h : Loop.Visits (clientStep router) (c.fromClient, c) s) :
    s.2.clientBuffer.length ≤ bufferCapacity
  /-- What is read fits. -/
  fits (d : Connection σ) (h : LooksAtClient router c d) : d.clientBuffer.length ≤ bufferCapacity
  after : Fits (c.readClient router).2

/-- What holds when the peer's socket of `c` is readable. -/
structure PeerReturns (c : Connection σ) : Prop where
  idle (h : c.peer = none) : c.readPeer = (.continue, c)
  /-- The reads come to an end, and no more of them go on than bytes, or datagrams, wait. -/
  ends (socket : PeerSocket) (h : c.peer = some socket) : ∃ n outcome rest d,
    Loop.Ends peerStep n (socket, c) (outcome, rest, d) ∧ n ≤ socket.pending ∧
      c.readPeer = (outcome.verdict, { d with peer := some rest })
  /-- A read takes a byte or a datagram off what waits, or is the last one. -/
  reads (s t : PeerSocket × Connection σ) (h : peerStep s = .again t) : t.1.pending < s.1.pending
  /-- Units come to an end, and no more of them are cut than there are bytes. -/
  uses (lastRead : Nat) (d : Connection σ) : ∃ n,
    Loop.Ends (forwardStep lastRead) n d (forward lastRead d) ∧ n ≤ d.peerBuffer.length
  /-- A step takes as many bytes off the buffer as the framing has answered, and the buffer has at
  least as many, or it takes nothing and is the last one. -/
  takes (lastRead : Nat) (d : Connection σ) :
    (∃ result, d.forwardStep lastRead = .done result ∧ result.2.peerBuffer = d.peerBuffer) ∨
    ∃ n e, d.forwardStep lastRead = .again e ∧ Announces lastRead d n ∧ 0 < n ∧
      e.peerBuffer.length + n = d.peerBuffer.length
  /-- The length of the buffer can be taken off the capacity at every read. -/
  room (socket : PeerSocket) (s : PeerSocket × Connection σ) (h : c.peer = some socket)
    (hvisits : Loop.Visits peerStep (socket, c) s) : s.2.peerBuffer.length ≤ bufferCapacity
  /-- What is read fits. -/
  fits (d : Connection σ) (h : LooksAtPeer c d) : d.peerBuffer.length ≤ bufferCapacity
  after : Fits c.readPeer.2

theorem clientReturns (router : Router σ) (hc : Fits c) : ClientReturns router c where
  ends := by
    obtain ⟨n, hends, hn⟩ := Loop.ends_within (clientStep_descends router) (c.fromClient, c)
    exact ⟨n, _, _, _, hends, hn, rfl⟩
  reads := clientStep_descends router
  uses d := Loop.ends (useStep_descends router) (fun _ _ => useStep_shortens) d
  takes d := (useStep_account router d).imp_right fun ⟨n, hfront, hlen⟩ =>
    ⟨n, hfront, hfront.bounds.1, hlen⟩
  room s h := ((clientVisits_moves h).fits hc).client
  fits d h := (h.moves.fits hc).client
  after := by
    obtain ⟨d, inlet, hmoves, hd⟩ := readClient_moves router c
    rw [hd]
    exact ⟨(hmoves.fits hc).client, (hmoves.fits hc).peer⟩

theorem peerReturns (hc : Fits c) : PeerReturns c where
  idle h := by rw [readPeer, h]
  ends socket h := by
    obtain ⟨n, hends, hn⟩ := Loop.ends_within peerStep_descends (socket, c)
    exact ⟨n, _, _, _, hends, hn, by rw [readPeer, h]; rfl⟩
  reads := peerStep_descends
  uses lastRead d := Loop.ends_within (forwardStep_descends lastRead) d
  takes := forwardStep_account
  room socket s h hvisits :=
    ((peerVisits_moves hvisits (Option.isSome_of_mem h)).fits hc).peer
  fits d h := (h.moves.fits hc).peer
  after := by
    cases hpeer : c.peer with
    | none =>
        rw [readPeer, hpeer]
        exact hc
    | some socket =>
        obtain ⟨d, rest, hmoves, hd⟩ := readPeer_moves hpeer
        rw [hd]
        exact ⟨(hmoves.fits hc).client, (hmoves.fits hc).peer⟩

/-- **A readable socket is dealt with, and that comes to an end.**  Whatever waits from the client
and from the peer, whatever is held of both, and whatever the framing answers, reading from either
is done after so many reads, each of which uses what it brought in so many steps; and no length is
taken off a shorter one. -/
theorem readable_returns (router : Router σ) (hc : Fits c) :
    ClientReturns router c ∧ PeerReturns c :=
  ⟨clientReturns router hc, peerReturns hc⟩

/-- Two pings and the beginning of a third wait from a client, and datagrams, two of them empty,
from a peer whose framing always answers more than there is, which is where its loop is done. -/
theorem readable_returns_overrun :
    let greedy : Framing Unit :=
      { name := "greedy"
        rule := fun data _ _ memory => (.ok { length := data.length + 1 }, memory) }
    let c : Connection Unit :=
      { id := ⟨0, 0⟩
        phase := .relaying
        fromClient := { waiting := [0x89, 0x80, 0, 0, 0, 0, 0x89, 0x80, 0, 0, 0, 0, 0x89] }
        dial := fun _ => .error .unsupported
        peer := some (.datagram [[], [1, 2], []] .more)
        route := some { host := "udp://localhost", framing := greedy } }
    Fits c ∧ ClientReturns (fun _ => none) c ∧ PeerReturns c ∧
      { c with peerBuffer := [1, 2] }.forwardStep 2 =
        .done (.error (.framing "greedy" (.overrun 3 2)), { c with peerBuffer := [1, 2] }) := by
  intro greedy c
  have hc : Fits c := ⟨Nat.zero_le _, Nat.zero_le _⟩
  obtain ⟨hclient, hpeer⟩ := readable_returns (fun _ => none) hc
  exact ⟨hc, hclient, hpeer, rfl⟩

end Connection

end WsRelay
