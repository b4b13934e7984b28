import WsRelay.Proofs.Framing.Streams
import WsRelay.Proofs.Peer.Conservation
import WsRelay.Proofs.Peer.Intake
/-! # Cuts in what a peer sends

With a framing of streams, the bytes of a peer lead to the same however they are cut
(`hearPeer_chunking`).  The framing is asked again and again about what is left of a buffer, often
about its last bytes only; what counts in the end are the units of the whole stream, as the framing
finds them when it is asked about all of it. -/

namespace WsRelay.Connection

open Framing

variable {σ : Type} {route : Route σ} {c d : Connection σ}

/-- A connection that has just been upgraded, to a peer that is a stream: nothing has been read from
the peer, and nothing waits. -/
structure JustUpgraded (route : Route σ) (c : Connection σ) : Prop where
  phase : c.phase = .relaying
  route : c.route = some route
  memory : c.memory = .empty
  peerBuffer : c.peerBuffer = []
  peer : ∃ source, IsStream source ∧ c.peer = some (source [])

theorem Unread.justUpgraded {source : Bytes → PeerSocket} (h : Unread route (source []) c)
    (hs : IsStream source) : JustUpgraded route c :=
  ⟨h.phase, h.route, h.memory, h.peerBuffer, source, hs, h.peer⟩

theorem IsStream.read_ended {source : Bytes → PeerSocket} (hs : IsStream source) (room : Nat) :
    ∃ rest, ((source []).withTail .ended).read room = (.data [], rest) := by
  cases hs with
  | socket => exact ⟨_, rfl⟩
  | pipe =>
      by_cases hroom : room = 0
      · exact ⟨_, if_pos hroom⟩
      · exact ⟨_, if_neg hroom⟩

/-- The end of a peer's stream closes the connection, and nothing more is sent. -/
theorem readPeer_ended {source : Bytes → PeerSocket} (hs : IsStream source)
    (hpeer : c.peer = some (source [])) :
    (Gateway.endSide .peer .ended c).readPeer.1 = .close Error.peerClosed.termination ∧
      (Gateway.endSide .peer .ended c).readPeer.2.toClient = c.toClient := by
  have hended : Gateway.endSide .peer .ended c = c.setPeer ((source []).withTail .ended) := by
    rw [Gateway.endSide, hpeer]
    rfl
  obtain ⟨rest, hread⟩ := hs.read_ended
    (bufferCapacity - (c.setPeer ((source []).withTail .ended)).peerBuffer.length)
  have hstream : ¬ ((source []).withTail .ended).isDatagram = true := by
    cases hs <;> exact Bool.false_ne_true
  have hstep : peerStep ((source []).withTail .ended, c.setPeer ((source []).withTail .ended)) =
      .done (.error .peerClosed, rest, c.setPeer ((source []).withTail .ended)) := by
    simp only [peerStep, hread]
    rw [if_pos ⟨trivial, hstream⟩]
  have htake : takeFromPeer
      ((source []).withTail .ended, c.setPeer ((source []).withTail .ended)) =
      (.error .peerClosed, rest, c.setPeer ((source []).withTail .ended)) := Loop.run_done hstep
  rw [hended]
  have hsocket : (c.setPeer ((source []).withTail .ended)).peer =
      some ((source []).withTail .ended) := rfl
  simp only [readPeer, hsocket, htake]
  exact ⟨rfl, rfl⟩

/-- **Cuts in what a peer sends do not matter.**  Two ways of cutting the same bytes into arrivals,
each of them read when it comes until the connection is to be closed, lead a connection that has
just been upgraded to the same verdict, with the same frames sent to the client.  If the connection
goes on, the same bytes are left in the buffer; and if the peer then ends its stream, every complete
unit of the stream has been sent before the connection is closed. -/
theorem hearPeer_chunking {name : String}
    (hname : name ∈ ["separator", "newline", "fixedlength", "dynamic32"])
    (hframing : FramingTable.standard.get? name = some route.framing)
    (hcount : name = "fixedlength" → Text.radixNat? route.framingConfig ≠ some 0)
    (hc : JustUpgraded route c) (hout : c.toClient.TakesAll) {xs ys : List Bytes}
    (h : xs.flatten = ys.flatten) :
    let r := hearPeer.takeAll xs c
    let s := hearPeer.takeAll ys c
    r.1 = s.1 ∧ r.2.toClient.taken = s.2.toClient.taken ∧
      (r.1 = .continue → r.2.peerBuffer = s.2.peerBuffer) ∧
      (r.1 = .continue → ∃ messages,
        Units route.framing.rule route.framingConfig xs.flatten messages r.2.peerBuffer ∧
        let ended := (Gateway.endSide .peer .ended r.2).readPeer
        ended.1 = .close Error.peerClosed.termination ∧
        ended.2.toClient.taken = c.toClient.taken ++ messages.filterMap Message.reply?) := by
  intro r s
  obtain ⟨remembers, C, F⟩ := exists_follows hname hframing hcount
  obtain ⟨source, hs, hpeer⟩ := hc.peer
  have hhear : Hearing route remembers c := ⟨hc.route, hc.memory ▸ F.empty, hout⟩
  have hview (pieces : List Bytes) :=
    forwarded_takeAll F hs hhear hc.peerBuffer hpeer pieces trivial
  simp only [forwarded, Ledger.account, unitLedger, hc.peerBuffer, List.nil_append,
    Prod.mk.injEq] at hview
  obtain ⟨⟨hv, hsent, hrest⟩, hidle⟩ := hview xs
  obtain ⟨⟨hv', hsent', hrest'⟩, -⟩ := hview ys
  rw [← h] at hv' hsent' hrest'
  refine ⟨hv.trans hv'.symm, hsent.trans hsent'.symm, fun hr => ?_, fun hr => ?_⟩
  · rw [← hrest', if_pos hr, if_pos (hv'.trans (hv.symm.trans hr))] at hrest
    exact Option.some.inj hrest
  · have hgo : (C.interpreter.run xs.flatten).verdict = .continue := hv.symm.trans hr
    rw [if_pos hr, if_pos hgo] at hrest
    have hunits := units_of_run F hgo
    rw [← Option.some.inj hrest] at hunits
    obtain ⟨hclose, hsame⟩ := readPeer_ended hs (hidle hr)
    refine ⟨_, hunits, hclose, ?_⟩
    rw [hsame]
    exact hsent

/-- Records of four bytes, cut inside, and the same bytes at once, after an upgrade. -/
theorem hearPeer_chunking_records :
    let route : Route Unit :=
      { host := "unix://socket", framing := ⟨"fixedlength", fixedLength⟩, framingConfig := "4" }
    let asking : Connection Unit :=
      { id := ⟨0, 0⟩, phase := .headers, dial := fun _ => .ok (.stream {})
        request := { version := 13, key := some "key", upgrade := true, connection := true } }
    let c := (asking.upgrade fun _ => some route).2
    let xs : List Bytes := [[1, 2, 3], [4, 5, 6, 7], [8, 9, 10, 11, 12, 13]]
    let records : List Reply :=
      [.frame .binary [1, 2, 3, 4], .frame .binary [5, 6, 7, 8], .frame .binary [9, 10, 11, 12]]
    let r := hearPeer.takeAll xs c
    let s := hearPeer.takeAll [xs.flatten] c
    ("fixedlength" ∈ ["separator", "newline", "fixedlength", "dynamic32"] ∧
      FramingTable.standard.get? "fixedlength" = some route.framing ∧
      ("fixedlength" = "fixedlength" → Text.radixNat? route.framingConfig ≠ some 0) ∧
      JustUpgraded route c ∧ c.toClient.TakesAll ∧ xs.flatten = [xs.flatten].flatten) ∧
      (r.1 = .continue ∧ s.1 = .continue) ∧
      (r.2.toClient.taken.tail = records ∧ s.2.toClient.taken.tail = records) ∧
      (r.2.peerBuffer = [13] ∧ s.2.peerBuffer = [13]) ∧
      let ended := (Gateway.endSide .peer .ended r.2).readPeer
      ended.1 = .close Error.peerClosed.termination ∧ ended.2.toClient.taken.tail = records := by
  intro route asking c xs records r s
  have hname : "fixedlength" ∈ ["separator", "newline", "fixedlength", "dynamic32"] := by decide
  have hcount : "fixedlength" = "fixedlength" → Text.radixNat? route.framingConfig ≠ some 0 :=
    fun _ => by decide
  have hgranted : (asking.upgrade fun _ => some route).1 = .ok () := by decide +kernel
  obtain ⟨_, _, _, ⟨⟩, ⟨⟩, hunread, hout⟩ : ∃ route' address socket, some route = some route' ∧
      asking.dial address = .ok socket ∧ Unread route' socket c ∧ c.toClient.TakesAll :=
    unread_of_upgrade (Prod.ext hgranted rfl) rfl rfl fun _ => rfl
  have hc : JustUpgraded route c := hunread.justUpgraded .socket
  have hxs : xs.flatten = [xs.flatten].flatten := by decide
  obtain ⟨hverdict, htaken, hbuffer, hended⟩ := hearPeer_chunking hname rfl hcount hc hout hxs
  have hgo : r.1 = .continue := by decide +kernel
  have hrecords : r.2.toClient.taken.tail = records := by decide +kernel
  have hleft : r.2.peerBuffer = [13] := by decide +kernel
  have hlast : (Gateway.endSide .peer .ended r.2).readPeer.2.toClient.taken.tail = records := by
    decide +kernel
  obtain ⟨_, -, hclosed, -⟩ := hended hgo
  exact ⟨⟨hname, rfl, hcount, hc, hout, hxs⟩, ⟨hgo, hverdict ▸ hgo⟩, ⟨hrecords, htaken ▸ hrecords⟩,
    ⟨hleft, hbuffer hgo ▸ hleft⟩, hclosed, hlast⟩

end WsRelay.Connection
