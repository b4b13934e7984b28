import WsRelay.Proofs.Framing.Cuts
/-! # What a read from a peer leads to

A connection's framing has cut what was received into units, and the rest is in the buffer
(`Cutting`).  Every answer that goes on keeps it so (`Forwards.again_cutting`), and every read after
which more is read (`PeerReads.again_cutting`).  Whatever comes of reading all that waits, the units
that were cut go on with the same sequence, and they are all that the client has been sent
(`readPeer_takes`). -/

namespace WsRelay

variable {σ : Type}

open Framing

/-! ### What waits at the peer's socket -/

/-- What is read and what waits after it make up what waited. -/
theorem Inlet.waiting_read {i rest : Inlet} {room : Nat} {bytes : Bytes}
    (h : i.read room = (.data bytes, rest)) : bytes ++ rest.waiting = i.waiting := by
  rcases i.read_cases room with ⟨-, hread⟩ | ⟨-, hread⟩
  · rw [hread, Prod.mk.injEq, Tail.read_eq_data_iff] at h
    obtain ⟨⟨-, rfl⟩, rfl⟩ := h
    rfl
  · rw [hread] at h
    cases h
    exact List.take_append_drop _ _

theorem Inlet.read_nothing {i rest : Inlet} {room : Nat} (h : i.read room = (.nothing, rest)) :
    rest = i := by
  rcases i.read_cases room with ⟨-, hread⟩ | ⟨-, hread⟩
  · rw [hread] at h
    exact (Prod.mk.inj h).2.symm
  · rw [hread] at h
    cases h

namespace PeerSocket

/-- The bytes that wait to be read, those of datagrams one after the other. -/
def waiting : PeerSocket → Bytes
  | stream inlet | pipeOut inlet => inlet.waiting
  | datagram waiting _ => waiting.flatten
  | pipeIn => []

variable {s rest : PeerSocket} {room : Nat} {bytes : Bytes}

/-- Unless a datagram may have lost its end, what is read and what waits after it make up what
waited. -/
theorem waiting_read (h : s.read room = (.data bytes, rest))
    (hwhole : ¬ (bytes.length = room ∧ s.isDatagram)) : bytes ++ rest.waiting = s.waiting := by
  cases s with
  | stream inlet =>
      obtain ⟨hr, rfl⟩ := Prod.mk.inj h
      exact Inlet.waiting_read (Prod.ext hr rfl)
  | pipeIn => cases h
  | pipeOut inlet =>
      simp only [read] at h
      split at h
      · cases h
        rfl
      · obtain ⟨hr, rfl⟩ := Prod.mk.inj h
        exact Inlet.waiting_read (Prod.ext hr rfl)
  | datagram waiting tail =>
      cases waiting with
      | nil => cases tail <;> cases h
      | cons d waiting =>
          cases h
          have hshort : d.length ≤ room := Nat.le_of_not_lt fun hlt =>
            hwhole ⟨by rw [List.length_take, Nat.min_eq_left (Nat.le_of_lt hlt)], rfl⟩
          rw [List.take_of_length_le hshort]
          rfl

theorem read_nothing (h : s.read room = (.nothing, rest)) : rest = s := by
  cases s with
  | stream inlet =>
      obtain ⟨hr, rfl⟩ := Prod.mk.inj h
      exact congrArg stream (Inlet.read_nothing (Prod.ext hr rfl))
  | pipeIn => cases h
  | pipeOut inlet =>
      simp only [read] at h
      split at h
      · cases h
      · obtain ⟨hr, rfl⟩ := Prod.mk.inj h
        exact congrArg pipeOut (Inlet.read_nothing (Prod.ext hr rfl))
  | datagram waiting tail =>
      cases waiting with
      | nil => cases tail <;> cases h <;> rfl
      | cons d waiting => cases h

theorem isReadable_read (room : Nat) (s : PeerSocket) :
    (s.read room).2.isReadable = s.isReadable := by
  unfold read
  split
  case h_6 => split <;> rfl
  all_goals rfl

theorem waiting_arrive (bytes : Bytes) (s : PeerSocket) :
    (s.arrive bytes).waiting = s.waiting ++ if s.isReadable then bytes else [] := by
  cases s with
  | datagram waiting tail =>
      show (waiting ++ [bytes]).flatten = _
      rw [List.flatten_append, List.flatten_singleton]
      rfl
  | _ => rfl

theorem isReadable_arrive (bytes : Bytes) (s : PeerSocket) :
    (s.arrive bytes).isReadable = s.isReadable := by
  cases s <;> rfl

theorem waiting_withTail (tail : Tail) (s : PeerSocket) :
    (s.withTail tail).waiting = s.waiting := by
  cases s <;> rfl

theorem isReadable_withTail (tail : Tail) (s : PeerSocket) :
    (s.withTail tail).isReadable = s.isReadable := by
  cases s <;> rfl

end PeerSocket

namespace Connection

variable {route : Route σ} {received bytes : Bytes} {n : Nat} {units : List Message}
  {c d : Connection σ}

/-! ### One answer, and one read -/

/-- A connection's framing has cut what was received from the peer into units, and the rest is in
the buffer. -/
structure Cutting (route : Route σ) (received : Bytes) (lastRead : Nat) (units : List Message)
    (c : Connection σ) : Prop where
  hasRoute : c.route = some route
  cuts : Cuts route.framing.rule route.framingConfig received lastRead units c.peerBuffer c.memory

/-- From `c` to `d` the framing has cut `more` units, and these are all that the client has been
sent. -/
structure Extends (route : Route σ) (received : Bytes) (units more : List Message)
    (c d : Connection σ) : Prop where
  cuts : ∃ lastRead rest memory,
    Cuts route.framing.rule route.framingConfig received lastRead (units ++ more) rest memory
  taken : d.toClient.taken = c.toClient.taken ++ more.filterMap Message.reply?

/-- Nothing has been cut yet. -/
theorem Cutting.extends_nil (hc : Cutting route received n units c) :
    Extends route received units [] c c where
  cuts := ⟨n, _, _, by rw [List.append_nil]; exact hc.cuts⟩
  taken := (List.append_nil _).symm

theorem Extends.trans {received' : Bytes} {more more' : List Message} {e : Connection σ}
    (h : Extends route received units more c d)
    (h' : Extends route received' (units ++ more) more' d e) :
    Extends route received' units (more ++ more') c e where
  cuts := by
    rw [← List.append_assoc]
    exact h'.cuts
  taken := by rw [h'.taken, h.taken, List.filterMap_append, List.append_assoc]

/-- An answer that goes on has cut a unit, and the client has been sent it. -/
theorem Forwards.again_cutting (h : Forwards n c (.again d))
    (hc : Cutting route received n units c) :
    ∃ unit, Cutting route received n (units ++ [unit]) d ∧
      d.toClient.taken = c.toClient.taken ++ [unit].filterMap Message.reply? := by
  generalize hs :
    (Step.again d : Step (Connection σ) (Except Error Unit × Connection σ)) = step at h
  cases h with
  | idle => cases hs
  | uncut => cases hs
  | unsent => cases hs
  | @discarded route' unit hroute hne hunit hreply =>
      cases hs
      obtain rfl : route' = route := Option.some.inj (hroute.symm.trans hc.hasRoute)
      refine ⟨unit, ⟨hc.hasRoute, hc.cuts.unit hne hunit⟩, ?_⟩
      rw [List.filterMap_cons, hreply, List.filterMap_nil, List.append_nil]
      rfl
  | @sent route' unit opcode hroute hne hunit hkind htaken =>
      cases hs
      obtain rfl : route' = route := Option.some.inj (hroute.symm.trans hc.hasRoute)
      refine ⟨unit, ⟨hc.hasRoute, hc.cuts.unit hne hunit⟩, ?_⟩
      show (c.toClient.offer _).2.taken = _
      rw [Outlet.taken_offer, if_pos htaken, List.filterMap_cons, Message.reply?, hkind]
      rfl

/-- An answer that does not go on sends nothing; unless it is a failure, no unit was cut. -/
theorem Forwards.done_cutting {result : Except Error Unit} (h : Forwards n c (.done (result, d)))
    (hc : Cutting route received n units c) :
    d.toClient.taken = c.toClient.taken ∧
      (result = .ok () → Cutting route received n units d) := by
  generalize hs : (Step.done (result, d) :
    Step (Connection σ) (Except Error Unit × Connection σ)) = step at h
  cases h with
  | discarded => cases hs
  | sent => cases hs
  | idle =>
      cases hs
      exact ⟨rfl, fun _ => hc⟩
  | @uncut route' result hroute hne hunit =>
      cases hs
      obtain rfl : route' = route := Option.some.inj (hroute.symm.trans hc.hasRoute)
      exact ⟨rfl, fun _ => ⟨hc.hasRoute, hc.cuts.uncut hne hunit⟩⟩
  | unsent hroute hkind hrefused =>
      cases hs
      refine ⟨?_, nofun⟩
      show (c.toClient.offer _).2.taken = _
      rw [Outlet.taken_offer, if_neg (by rw [hrefused]; exact Bool.false_ne_true)]

/-- Asking the framing again and again cuts units as long as it finds one. -/
theorem forward_cutting (hc : Cutting route received n units c) :
    ∃ more, Extends route received units more c (c.forward n).2 ∧
      ((c.forward n).1 = .ok () → Cutting route received n (units ++ more) (c.forward n).2) := by
  -- the units that were cut before grow from one answer to the next, so they are quantified
  refine Loop.induction
    (motive := fun c (r : Except Error Unit × Connection σ) => ∀ units,
      Cutting route received n units c →
      ∃ more, Extends route received units more c r.2 ∧
        (r.1 = .ok () → Cutting route received n (units ++ more) r.2)) ?_ ?_ c units hc
  · intro c r hs units hc
    have hstep := forwardStep_forwards n c
    rw [hs] at hstep
    obtain ⟨htaken, hgo⟩ := hstep.done_cutting hc
    refine ⟨[], ⟨⟨_, _, _, by rw [List.append_nil]; exact hc.cuts⟩, ?_⟩, fun hok => ?_⟩
    · rw [htaken, List.filterMap_nil, List.append_nil]
    · rw [List.append_nil]
      exact hgo hok
  · intro c d hs ih units hc
    have hstep := forwardStep_forwards n c
    rw [hs] at hstep
    obtain ⟨unit, hd, htaken⟩ := hstep.again_cutting hc
    obtain ⟨more, hmore, hgo⟩ := ih _ hd
    rw [List.append_assoc] at hgo
    refine ⟨[unit] ++ more, ⟨?_, ?_⟩, hgo⟩
    · rw [← List.append_assoc]
      exact hmore.cuts
    · rw [hmore.taken, htaken, List.filterMap_append, List.append_assoc]

/-- What is read is cut, until the framing finds no unit any more. -/
theorem takePeerBytes_cutting (hc : Cutting route received n units c)
    (hroom : bytes.length ≤ peerRoom c) :
    ∃ more, Extends route (received ++ bytes) units more c (takePeerBytes bytes c).2 ∧
      ((takePeerBytes bytes c).1 = none →
        Cutting route (received ++ bytes) bytes.length (units ++ more)
          (takePeerBytes bytes c).2) := by
  have hfits : (c.peerBuffer ++ bytes).length ≤ bufferCapacity := by
    have := hc.cuts.fits.1
    unfold peerRoom at hroom
    rw [List.length_append]
    omega
  have hread : Cutting route (received ++ bytes) bytes.length units
      { c with peerBuffer := c.peerBuffer ++ bytes } := ⟨hc.hasRoute, hc.cuts.read bytes hfits⟩
  obtain ⟨more, hmore, hgo⟩ := forward_cutting hread
  refine ⟨more, ?_⟩
  unfold takePeerBytes
  rcases hf : forward bytes.length { c with peerBuffer := c.peerBuffer ++ bytes } with ⟨e | _, d⟩
  all_goals rw [hf] at hmore hgo
  · exact ⟨⟨hmore.cuts, hmore.taken⟩, nofun⟩
  · exact ⟨⟨hmore.cuts, hmore.taken⟩, fun _ => hgo rfl⟩

/-! ### All that waits -/

/-- What reading from a peer's socket leads to: `bytes` were read, and `more` units cut. -/
structure Takes (route : Route σ) (received : Bytes) (units : List Message) (socket : PeerSocket)
    (c : Connection σ) (bytes : Bytes) (more : List Message)
    (r : Outcome × PeerSocket × Connection σ) : Prop
    extends Extends route (received ++ bytes) units more c r.2.2 where
  inside : bytes <+: socket.waiting
  isReadable : r.2.1.isReadable = socket.isReadable
  goes : r.1 = .ok .continue →
    (∃ n, Cutting route (received ++ bytes) n (units ++ more) r.2.2) ∧
      bytes ++ r.2.1.waiting = socket.waiting

/-- A read after which nothing more is read. -/
theorem PeerReads.done_takes {socket : PeerSocket} {r : Outcome × PeerSocket × Connection σ}
    (h : PeerReads (socket, c) (.done r)) (hc : Cutting route received n units c) :
    ∃ bytes more, Takes route received units socket c bytes more r := by
  have hnone {outcome : Outcome} {rest : PeerSocket} (hread : rest.isReadable = socket.isReadable)
      (hgo : outcome = .ok .continue → rest = socket) :
      Takes route received units socket c [] [] (outcome, rest, c) :=
    { toExtends := by
        rw [List.append_nil]
        exact hc.extends_nil
      inside := List.nil_prefix
      isReadable := hread
      goes := fun ho => by
        rw [List.append_nil, List.append_nil, hgo ho]
        exact ⟨⟨n, hc⟩, rfl⟩ }
  have hreadable := PeerSocket.isReadable_read (peerRoom c) socket
  cases h with
  | nothing hr =>
      obtain rfl := PeerSocket.read_nothing hr
      exact ⟨_, _, hnone rfl fun _ => rfl⟩
  | stopped => exact ⟨_, _, hnone hreadable fun h => by cases h⟩
  | closed hr hwhole ht =>
      obtain ⟨more, hmore, -⟩ := takePeerBytes_cutting hc (PeerSocket.length_read_le hr)
      rw [ht] at hmore
      rw [hr] at hreadable
      exact ⟨_, more, {
        toExtends := hmore
        inside := ⟨_, PeerSocket.waiting_read hr hwhole⟩
        isReadable := hreadable
        goes := fun h => by cases h }⟩

/-- A read after which more is read. -/
theorem PeerReads.again_cutting {socket rest : PeerSocket}
    (h : PeerReads (socket, c) (.again (rest, d))) (hc : Cutting route received n units c) :
    ∃ bytes more, Extends route (received ++ bytes) units more c d ∧
      Cutting route (received ++ bytes) bytes.length (units ++ more) d ∧
      rest.isReadable = socket.isReadable ∧ bytes ++ rest.waiting = socket.waiting := by
  have hreadable := PeerSocket.isReadable_read (peerRoom c) socket
  cases h with
  | again hr hwhole ht =>
      obtain ⟨more, hmore, hgo⟩ := takePeerBytes_cutting hc (PeerSocket.length_read_le hr)
      rw [ht] at hmore hgo
      rw [hr] at hreadable
      exact ⟨_, more, hmore, hgo rfl, hreadable, PeerSocket.waiting_read hr hwhole⟩

/-- Reading all that waits. -/
theorem takeFromPeer_takes (socket : PeerSocket) (hc : Cutting route received n units c) :
    ∃ bytes more, Takes route received units socket c bytes more (takeFromPeer (socket, c)) := by
  -- what was received, and cut, before grows from one read to the next
  refine Loop.induction
    (motive := fun s r => ∀ received n units, Cutting route received n units s.2 →
      ∃ bytes more, Takes route received units s.1 s.2 bytes more r) ?_ ?_
    (socket, c) received n units hc
  · exact fun s r hs received n units hc => PeerReads.done_takes (hs ▸ peerStep_reads s) hc
  · rintro ⟨socket, c⟩ ⟨rest, d⟩ hs ih received n units hc
    obtain ⟨bytes, more, hfirst, hd, hreadable, hwaiting⟩ :=
      PeerReads.again_cutting (hs ▸ peerStep_reads (socket, c)) hc
    obtain ⟨bytes', more', hrest⟩ := ih _ _ _ hd
    refine ⟨bytes ++ bytes', more ++ more', ?_, ?_, ?_, fun ho => ?_⟩
    · rw [← List.append_assoc]
      exact hfirst.trans hrest.toExtends
    · dsimp only
      rw [← hwaiting]
      exact List.prefix_append_right_inj _ |>.mpr hrest.inside
    · exact hrest.isReadable.trans hreadable
    · obtain ⟨hcut, heq⟩ := hrest.goes ho
      rw [← List.append_assoc, ← List.append_assoc, List.append_assoc bytes, heq]
      exact ⟨hcut, hwaiting⟩

theorem readPeer_takes {socket : PeerSocket} (hpeer : c.peer = some socket)
    (hc : Cutting route received n units c) :
    ∃ bytes more, Extends route (received ++ bytes) units more c c.readPeer.2 ∧
      bytes <+: socket.waiting ∧
      (c.readPeer.1 = .continue → ∃ after, c.readPeer.2.peer = some after ∧
        after.isReadable = socket.isReadable ∧ bytes ++ after.waiting = socket.waiting ∧
        ∃ n, Cutting route (received ++ bytes) n (units ++ more) c.readPeer.2) := by
  obtain ⟨bytes, more, h⟩ := takeFromPeer_takes socket hc
  simp only [readPeer, hpeer]
  refine ⟨bytes, more, ⟨h.cuts, h.taken⟩, h.inside, fun hgo => ?_⟩
  obtain ⟨⟨n, hcut⟩, hwaiting⟩ := h.goes (Outcome.eq_continue hgo)
  exact ⟨_, rfl, h.isReadable, hwaiting, n, hcut.hasRoute, hcut.cuts⟩

end Connection

end WsRelay
