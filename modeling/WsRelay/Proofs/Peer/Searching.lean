import WsRelay.Proofs.Framing.Recall
import WsRelay.Proofs.Framing.Streams
import WsRelay.Proofs.Peer.Conservation
import WsRelay.Proofs.Peer.Datagrams
/-! # Searching for delimiters

A framing by a delimiter searches only the bytes that were read last, and as many before them as may
hold the start of a delimiter.  That is enough because of what is known when it is asked: no
delimiter lies in the bytes before those that were read last (`Searching`).  It holds after every
read, since the framing has waited with what was there before, and after every unit that is cut off
the front (`Searching.again`), even though bytes that were read last may be cut off with it.

So whenever the framing is asked in the course of reads from a peer (`Asks`), it finds the end of the
first delimiter in the whole buffer (`asks_first`). -/

namespace WsRelay

variable {σ : Type}

namespace Framing

variable {needle data : Bytes}

/-- The first occurrence of `needle` in `data` ends after `n` bytes; `n` is 0 if there is none. -/
inductive EndsFirst (needle data : Bytes) : (n : Nat) → Prop
  | found {before after : Bytes} (hdata : before ++ needle ++ after = data)
      (hfirst : ∀ k < before.length, ¬ needle <+: data.drop k) :
      EndsFirst needle data (before ++ needle).length
  | absent (h : ¬ needle <:+: data) : EndsFirst needle data 0

theorem endsFirst_needleEnd? (needle data : Bytes) :
    EndsFirst needle data ((needleEnd? needle data).getD 0) := by
  unfold needleEnd?
  cases h : Bytes.indexOf? needle data with
  | none =>
      refine .absent ?_
      rintro ⟨before, after, rfl⟩
      refine Bytes.indexOf?_eq_none_iff.mp h before.length (by simp) ?_
      rw [List.append_assoc, List.drop_left]
      exact List.prefix_append needle after
  | some k =>
      obtain ⟨hle, ⟨after, hafter⟩, hfirst⟩ := Bytes.indexOf?_eq_some_iff.mp h
      have hlen : (data.take k).length = k := List.length_take_of_le hle
      have hdata : data.take k ++ needle ++ after = data := by
        rw [List.append_assoc, hafter, List.take_append_drop]
      have hfound := EndsFirst.found hdata (by rwa [hlen])
      rwa [List.length_append, hlen] at hfound

end Framing

namespace Connection

open Framing

variable {route : Route σ} {c d e : Connection σ} {bytes needle : Bytes} {n : Nat}
  {k : Configurable}

/-! ### Reads -/

/-- From `c` to `d`, bytes are read from the peer again and again, and after each read the framing is
asked until it waits for more.  What is done in between leaves alone what the framing works on. -/
inductive ReadsOn (c : Connection σ) : Connection σ → Prop
  | start : ReadsOn c c
  | read {d e : Connection σ} (h : ReadsOn c d) (bytes : Bytes)
      (hforward :
        forward bytes.length { d with peerBuffer := d.peerBuffer ++ bytes } = (.ok (), e)) :
      ReadsOn c e
  | other {d e : Connection σ} (h : ReadsOn c d)
      (hsame : e.route = d.route ∧ e.peerBuffer = d.peerBuffer ∧ e.memory = d.memory) :
      ReadsOn c e

/-- In the course of such reads the framing is asked about the buffer of `d`, after a read of `n`
bytes. -/
inductive Asks (c : Connection σ) (n : Nat) (d : Connection σ) : Prop
  | after {e : Connection σ} (h : ReadsOn c e) (bytes : Bytes) (hlen : bytes.length = n)
      (hvisits :
        Loop.Visits (forwardStep n) { e with peerBuffer := e.peerBuffer ++ bytes } d)
      (hne : d.peerBuffer ≠ [])

/-! ### What has been searched -/

/-- An answer after which the framing is asked again has cut bytes off the front of the buffer. -/
theorem forwardStep_cuts (hroute : c.route = some route) (h : c.forwardStep n = .again d) :
    ∃ cut, c.answer route n = (.ok cut, d.memory) ∧ cut.length ≠ 0 ∧
      d.peerBuffer = c.peerBuffer.drop cut.length := by
  have hne : c.peerBuffer ≠ [] := by
    intro hempty
    rw [forwardStep_idle (.inr hempty)] at h
    cases h
  rw [forwardStep_asked hroute hne] at h
  rcases ha : c.answer route n with ⟨cause | cut, memory⟩
  · rw [ha] at h
    cases h
  · rw [ha] at h
    dsimp only [useCut] at h
    split at h
    · cases h
    · next hpos =>
      split at h
      · cases h
      · split at h
        · cases h
          exact ⟨cut, rfl, hpos, rfl⟩
        · split at h <;> cases h
          exact ⟨cut, rfl, hpos, rfl⟩

/-- The framing looks for `needle`, and no needle lies in the bytes before the `n` that were read
last. -/
structure Searching (k : Configurable) (needle : Bytes) (n : Nat) (route : Route σ)
    (c : Connection σ) : Prop where
  hasRoute : c.route = some route
  goesBy : k.goesBy route.framingConfig c.memory = .ok (.needle needle)
  searched : needleEnd? needle (c.peerBuffer.take (c.peerBuffer.length - n)) = none

namespace Searching

theorem answer_eq (h : Searching k needle n route c) (hroute : route.framing = k.framing) :
    c.answer route n =
      (k.answer (.needle needle : Memory σ) c.peerBuffer (min n c.peerBuffer.length),
        .needle needle) := by
  rw [answer, hroute, Configurable.rule_of_ok h.goesBy]

theorem cut_length {cut : Cut} {memory : Memory σ} (h : Searching k needle n route c)
    (hroute : route.framing = k.framing) (hanswer : c.answer route n = (.ok cut, memory)) :
    cut.length = unitEnd c.peerBuffer (min n c.peerBuffer.length) needle ∧
      memory = .needle needle := by
  obtain ⟨kind, hkind⟩ :=
    k.exists_answer_needle (σ := σ) needle c.peerBuffer (min n c.peerBuffer.length)
  rw [h.answer_eq hroute, hkind] at hanswer
  cases hanswer
  exact ⟨rfl, rfl⟩

/-- What is found among the bytes that were read last is the first needle of all. -/
theorem unitEnd_eq (h : Searching k needle n route c) (hneedle : needle ≠ []) :
    unitEnd c.peerBuffer (min n c.peerBuffer.length) needle =
      (needleEnd? needle c.peerBuffer).getD 0 := by
  have hold : c.peerBuffer.length - min n c.peerBuffer.length = c.peerBuffer.length - n := by
    omega
  exact Framing.unitEnd_eq hneedle (by rw [hold]; exact h.searched)

/-- A read leaves what was searched before. -/
theorem read (h : Searching k needle 0 route c) (bytes : Bytes) :
    Searching k needle bytes.length route { c with peerBuffer := c.peerBuffer ++ bytes } where
  hasRoute := h.hasRoute
  goesBy := h.goesBy
  searched := by
    have hsearched := h.searched
    rw [Nat.sub_zero, List.take_length] at hsearched
    dsimp only
    rw [List.length_append, Nat.add_sub_cancel, List.take_left]
    exact hsearched

/-- After a unit that was cut off, the bytes before those that were read last are still without a
needle: the unit ends among the latter. -/
theorem again (h : Searching k needle n route c) (hneedle : needle ≠ [])
    (hroute : route.framing = k.framing) (hs : c.forwardStep n = .again d) :
    Searching k needle n route d := by
  obtain ⟨cut, hanswer, hpos, hbuffer⟩ := forwardStep_cuts h.hasRoute hs
  obtain ⟨hcut, hmemory⟩ := h.cut_length hroute hanswer
  refine ⟨(forwardStep_again hs).trans h.hasRoute, ?_, ?_⟩
  · rw [hmemory]
    exact Configurable.goesBy_of_holds (Configurable.holds_of_goesBy h.goesBy)
  · have hlength : cut.length = (needleEnd? needle c.peerBuffer).getD 0 :=
      hcut.trans (h.unitEnd_eq hneedle)
    cases hend : needleEnd? needle c.peerBuffer with
    | none => exact absurd (by rw [hlength, hend]; rfl) hpos
    | some m =>
        have hall : c.peerBuffer.take (c.peerBuffer.length - n) ++
            c.peerBuffer.drop (c.peerBuffer.length - n) = c.peerBuffer := List.take_append_drop _ _
        have hbeyond : (c.peerBuffer.take (c.peerBuffer.length - n)).length < m :=
          (delimited needle hneedle).beyond h.searched (by rw [hall]; exact hend)
        have hm : cut.length = m := by rw [hlength, hend, Option.getD_some]
        rw [List.length_take] at hbeyond
        have hnone : d.peerBuffer.length - n = 0 := by
          rw [hbuffer, List.length_drop]
          omega
        rw [hnone, List.take_zero]
        exact (delimited needle hneedle).find_nil

/-- Where the framing waits for more, the whole buffer has been searched. -/
theorem stops (h : Searching k needle n route c) (hneedle : needle ≠ [])
    (hroute : route.framing = k.framing) (hs : Stops route n c (.ok ()) d) :
    Searching k needle 0 route d := by
  cases hs with
  | empty hempty =>
      refine ⟨h.hasRoute, h.goesBy, ?_⟩
      rw [hempty]
      exact (delimited needle hneedle).find_nil
  | waits hwaits =>
      obtain ⟨hcut, rfl⟩ := h.cut_length hroute hwaits
      refine ⟨h.hasRoute, ?_, ?_⟩
      · exact Configurable.goesBy_of_holds (Configurable.holds_of_goesBy h.goesBy)
      · dsimp only
        rw [Nat.sub_zero, List.take_length]
        refine (delimited needle hneedle).getD_eq_zero.mp ?_
        exact (h.unitEnd_eq hneedle).symm.trans hcut.symm

end Searching

/-- Between reads, all that is in the buffer has been searched. -/
theorem ReadsOn.searching (h : ReadsOn c d) (hc : Searching k needle 0 route c)
    (hneedle : needle ≠ []) (hroute : route.framing = k.framing) :
    Searching k needle 0 route d := by
  induction h with
  | start => exact hc
  | @read d e _ bytes hforward ih =>
      obtain ⟨b, hb, hdone⟩ :
          ∃ b : Connection σ, Searching k needle bytes.length route b ∧
            b.forwardStep bytes.length =
              .done (forward bytes.length { d with peerBuffer := d.peerBuffer ++ bytes }) :=
        Loop.invariant (fun b : Connection σ => Searching k needle bytes.length route b)
          (fun _ _ ha hs => ha.again hneedle hroute hs) _ (ih.read bytes)
      rw [hforward] at hdone
      exact hb.stops hneedle hroute (forwardStep_stops hb.hasRoute hdone)
  | @other d e _ hsame ih =>
      obtain ⟨hsame, hbuffer, hmemory⟩ := hsame
      exact ⟨hsame.trans ih.hasRoute, by rw [hmemory]; exact ih.goesBy,
        by rw [hbuffer]; exact ih.searched⟩

/-- Whenever the framing is asked, all but the bytes that were read last have been searched. -/
theorem Asks.searching (h : Asks c n d) (hc : Searching k needle 0 route c)
    (hneedle : needle ≠ []) (hroute : route.framing = k.framing) :
    Searching k needle n route d := by
  obtain ⟨hreads, bytes, rfl, hvisits, -⟩ := h
  have hfilled := (hreads.searching hc hneedle hroute).read bytes
  clear hreads
  induction hvisits with
  | start => exact hfilled
  | again _ hs ih => exact ih.again hneedle hroute hs

/-! ### Reads of a connection -/

theorem forward_of_takePeerBytes (h : takePeerBytes bytes c = (none, d)) :
    forward bytes.length { c with peerBuffer := c.peerBuffer ++ bytes } = (.ok (), d) := by
  unfold takePeerBytes at h
  split at h
  · cases h
  · next hforward =>
    obtain ⟨-, rfl⟩ := Prod.mk.inj h
    exact hforward

theorem ReadsOn.peerStep {s t : PeerSocket × Connection σ} (h : ReadsOn c s.2)
    (hs : peerStep s = .again t) : ReadsOn c t.2 := by
  have hreads := peerStep_reads s
  rw [hs] at hreads
  cases hreads with
  | again _ _ ht => exact h.read _ (forward_of_takePeerBytes ht)

theorem ReadsOn.readPeer (h : ReadsOn c d) (hgo : d.readPeer.1 = .continue) :
    ReadsOn c d.readPeer.2 := by
  cases hpeer : d.peer with
  | none =>
      rw [Connection.readPeer, hpeer]
      exact h
  | some socket =>
      -- the last repetition finds nothing, and changes nothing but the socket
      obtain ⟨s, hs, hdone⟩ : ∃ s : PeerSocket × Connection σ, ReadsOn c s.2 ∧
          Connection.peerStep s = .done (takeFromPeer (socket, d)) :=
        Loop.invariant (fun s => ReadsOn c s.2) (fun _ _ hs => hs.peerStep) (socket, d) h
      simp only [Connection.readPeer, hpeer] at hgo ⊢
      have houtcome : (takeFromPeer (socket, d)).1 = .ok .continue := Outcome.eq_continue hgo
      rcases ht : takeFromPeer (socket, d) with ⟨outcome, socket', e⟩
      rw [ht] at hdone houtcome
      dsimp only at houtcome
      subst houtcome
      have hread := peerStep_reads s
      rw [hdone] at hread
      rw [hread.continue]
      exact hs.other ⟨rfl, rfl, rfl⟩

theorem ReadsOn.apply (h : ReadsOn c d) (hphase : d.phase = .relaying) (op : Operation σ)
    (hop : op.goesOn = true) (hgo : ∀ v ∈ (op.apply d).1, v = .continue) :
    ReadsOn c (op.apply d).2 ∧ (op.apply d).2.phase = .relaying := by
  cases op with
  | close termination => cases hop
  | release => cases hop
  | readClient router dial =>
      obtain ⟨e, inlet, hmoves, he⟩ := readClient_moves router { d with dial }
      obtain ⟨hrelaying, hroute, -⟩ := hmoves.relaying hphase
      show ReadsOn c ({ d with dial }.readClient router).2 ∧
        ({ d with dial }.readClient router).2.phase = .relaying
      rw [he]
      exact ⟨h.other ⟨hroute, hmoves.frame⟩, hrelaying⟩
  | readPeer =>
      refine ⟨h.readPeer (hgo _ rfl), ?_⟩
      show d.readPeer.2.phase = .relaying
      cases hpeer : d.peer with
      | none =>
          rw [Connection.readPeer, hpeer]
          exact hphase
      | some socket =>
          obtain ⟨e, socket', hmoves, he⟩ := readPeer_moves hpeer
          rw [he]
          exact hmoves.frame.1.trans hphase
  | beginWatch side watch => cases side <;> exact ⟨h.other ⟨rfl, rfl, rfl⟩, hphase⟩
  | endWatch side => cases side <;> exact ⟨h.other ⟨rfl, rfl, rfl⟩, hphase⟩
  | arrive side bytes => cases side <;> exact ⟨h.other ⟨rfl, rfl, rfl⟩, hphase⟩
  | hangUp side tail => cases side <;> exact ⟨h.other ⟨rfl, rfl, rfl⟩, hphase⟩

/-- As long as a connection is to go on, all that is done with it is to read on. -/
theorem ReadsOn.run (h : ReadsOn c d) (hphase : d.phase = .relaying) (ops : List (Operation σ))
    (hops : ∀ op ∈ ops, op.goesOn = true) (hgo : ∀ v ∈ (run ops d).1, v = .continue) :
    ReadsOn c (run ops d).2 := by
  induction ops generalizing d with
  | nil => exact h
  | cons op ops ih =>
      rw [run_cons] at hgo ⊢
      obtain ⟨hread, hrelaying⟩ := h.apply hphase op (hops op List.mem_cons_self) fun v hv =>
        hgo v (List.mem_append_left _ (Option.mem_toList.mpr hv))
      exact ih hread hrelaying (fun op hop => hops op (List.mem_cons_of_mem _ hop))
        fun v hv => hgo v (List.mem_append_right _ hv)

/-- When the peer's socket of `c` is readable, there comes a point where `n` bytes are read and the
framing is asked about the buffer of `d`. -/
def AsksNow (c : Connection σ) (n : Nat) (d : Connection σ) : Prop :=
  ∃ first socket bytes rest e, c.peer = some first ∧
    Loop.Visits peerStep (first, c) (socket, e) ∧
    socket.read (peerRoom e) = (.data bytes, rest) ∧ bytes.length = n ∧
    ¬ (bytes = [] ∧ ¬ socket.isDatagram) ∧ ¬ (bytes.length = peerRoom e ∧ socket.isDatagram) ∧
    Loop.Visits (forwardStep n) { e with peerBuffer := e.peerBuffer ++ bytes } d ∧
    d.peerBuffer ≠ []

theorem AsksNow.asks (h : AsksNow d n e) (hd : ReadsOn c d) : Asks c n e := by
  obtain ⟨first, socket, bytes, rest, b, -, hvisits, -, hlen, -, -, hasked, hne⟩ := h
  refine .after (e := b) ?_ bytes hlen hasked hne
  generalize ht : (socket, b) = t at hvisits
  obtain rfl : t.2 = b := by rw [← ht]
  clear ht hasked
  induction hvisits with
  | start => exact hd
  | again _ hs ih => exact ih.peerStep hs

/-- **Searching the bytes that were read last finds the first delimiter in the buffer.**  The framing
goes by a delimiter, and nothing is in the peer's buffer.  From then on, whenever it is asked after a
read, be it about what a unit has left of the buffer, it answers with the end of the first delimiter
there is, and waits if there is none.  What a relaying connection asks when its peer's socket is
readable is asked in this way, whatever has been done with it before. -/
theorem asks_first (hroute : c.route = some route) (hframing : route.framing = k.framing)
    (hbuffer : c.peerBuffer = []) (hneedle : needle ≠ [])
    (hgoesBy : k.goesBy route.framingConfig c.memory = .ok (.needle needle)) :
    (∀ n d, Asks c n d →
      let found := unitEnd d.peerBuffer (min n d.peerBuffer.length) needle
      EndsFirst needle d.peerBuffer found ∧
        ∃ kind, d.answer route n = (.ok ⟨found, kind⟩, .needle needle)) ∧
      (c.phase = .relaying → ∀ ops, (∀ op ∈ ops, Operation.goesOn op = true) →
        (∀ v ∈ (run ops c).1, v = .continue) →
          ∀ n d, AsksNow (run ops c).2 n d → Asks c n d) := by
  have hc : Searching k needle 0 route c := by
    refine ⟨hroute, hgoesBy, ?_⟩
    rw [hbuffer]
    exact (delimited needle hneedle).find_nil
  refine ⟨fun n d hasks => ?_, fun hphase ops hops hgo n d hnow => ?_⟩
  · have hd := hasks.searching hc hneedle hframing
    obtain ⟨kind, hkind⟩ :=
      k.exists_answer_needle (σ := σ) needle d.peerBuffer (min n d.peerBuffer.length)
    refine ⟨?_, kind, ?_⟩
    · rw [hd.unitEnd_eq hneedle]
      exact endsFirst_needleEnd? needle d.peerBuffer
    · rw [hd.answer_eq hframing, hkind]
  · exact hnow.asks (ReadsOn.start.run hphase ops hops hgo)

/-- A needle that overlaps with itself arrives in two pieces.  After the first one is cut off, what is
left of the second has no needle. -/
theorem asks_first_overlapping :
    let k := Configurable.separator
    let route : Route Unit := { host := "", framing := k.framing, framingConfig := "aba" }
    let needle : Bytes := [97, 98, 97]
    let c : Connection Unit :=
      { id := ⟨0, 0⟩, phase := .relaying, dial := fun _ => .error .unsupported,
        peer := some (.stream {}), route := some route }
    let d : Connection Unit := { c with memory := .needle needle, peerBuffer := [97, 98] }
    let e := { d with peerBuffer := d.peerBuffer ++ [97, 98, 97] }
    let rest := (forwardStep 3 e).state
    (c.route = some route ∧ route.framing = k.framing ∧ c.peerBuffer = [] ∧ needle ≠ [] ∧
      k.goesBy route.framingConfig c.memory = .ok (.needle needle)) ∧
    (Asks c 3 e ∧ e.peerBuffer = [97, 98, 97, 98, 97] ∧ EndsFirst needle e.peerBuffer 3) ∧
    Asks c 3 rest ∧ rest.peerBuffer = [98, 97] ∧ EndsFirst needle rest.peerBuffer 0 := by
  intro k route needle c d e rest
  have hgoesBy : k.goesBy route.framingConfig c.memory = .ok (.needle needle) :=
    k.goesBy_empty "aba"
  have hwaits : forwardStep 2 { c with peerBuffer := c.peerBuffer ++ [97, 98] } =
      .done (.ok (), d) := by
    dsimp only [k, route, needle, c, d]
    rfl
  have hforward : forward 2 { c with peerBuffer := c.peerBuffer ++ [97, 98] } = (.ok (), d) :=
    Loop.run_done hwaits
  have hreads : ReadsOn c d := ReadsOn.start.read [97, 98] hforward
  have hbuffer : e.peerBuffer = [97, 98, 97, 98, 97] := rfl
  have hrest : rest.peerBuffer = [98, 97] := by decide +kernel
  have hstep : forwardStep 3 e = .again rest := by
    dsimp only [k, route, needle, c, d, e, rest]
    rfl
  have hasks : Asks c 3 e := .after hreads [97, 98, 97] rfl .start (by rw [hbuffer]; simp)
  have hagain : Asks c 3 rest :=
    .after hreads [97, 98, 97] rfl (.again .start hstep) (by rw [hrest]; simp)
  obtain ⟨hall, -⟩ := asks_first rfl rfl rfl (List.cons_ne_nil _ _) hgoesBy
  have hfirst := (hall 3 e hasks).1
  have hnone := (hall 3 rest hagain).1
  have hthree : unitEnd e.peerBuffer (min 3 e.peerBuffer.length) needle = 3 := by decide +kernel
  have hzero : unitEnd rest.peerBuffer (min 3 rest.peerBuffer.length) needle = 0 := by
    decide +kernel
  rw [hthree] at hfirst
  rw [hzero] at hnone
  exact ⟨⟨rfl, rfl, rfl, List.cons_ne_nil _ _, hgoesBy⟩, ⟨hasks, hbuffer, hfirst⟩, hagain, hrest,
    hnone⟩

end Connection

end WsRelay
