import WsRelay.Gateway
import WsRelay.Proofs.Framing.Cutter
/-! # What a peer sends, piece by piece

`hearPeer` is what bytes that arrive from a peer lead to.  It reads them as the peer's buffer has
room, and every read is digested on its own (`digestPeer`, `drains_peer`).

If the framing follows a cutter, one unit is the work of `forwardStep_wait`, `forwardStep_error` and
`forwardStep_unit`, one for each answer of the cutter; so the loop over the buffer performs what the
cutter's interpreter says (`performs_forwardStep`): the units are sent to the client, and a full
buffer without a unit closes the connection.  What arrives in pieces keeps to the account
`forwarded` of the whole stream (`forwarded_takeAll`). -/

namespace WsRelay.Connection

open Framing

variable {σ : Type}

/-- The connection with its peer's socket in another state. -/
def setPeer (socket : PeerSocket) (c : Connection σ) : Connection σ :=
  { c with peer := some socket }

/-- Bytes arrive from the peer, whose socket is readable then. -/
def hearPeer : Reader (Connection σ) :=
  fun bytes c => (Gateway.deliver .peer bytes c).readPeer

/-- How many bytes of the peer there is room for. -/
def peerRoom (c : Connection σ) : Nat :=
  bufferCapacity - c.peerBuffer.length

/-- A peer's buffer that is full after all units have been forwarded closes the connection. -/
def checkPeerRoom : Except Error Unit × Connection σ → Outcome × Connection σ
  | (.error e, c) => (.error e, c)
  | (.ok (), c) =>
    (if c.peerBuffer.length = bufferCapacity then .error peerOverflow else .ok .continue, c)

/-- Whether more is to be read once the units have been forwarded. -/
def afterForward (r : Except Error Unit × Connection σ) : Verdict × Connection σ :=
  ((checkPeerRoom r).1.verdict, (checkPeerRoom r).2)

/-- What bytes read from the peer lead to. -/
def digestPeer : Digest (Connection σ) := fun bytes c =>
  checkPeerRoom (forward bytes.length { c with peerBuffer := c.peerBuffer ++ bytes })

/-! ### Reads -/

/-- A peer's stream, from a socket or from a pipe, that has not ended. -/
inductive IsStream : (Bytes → PeerSocket) → Prop
  | socket : IsStream fun w => .stream { waiting := w }
  | pipe : IsStream fun w => .pipeOut { waiting := w }

variable {source : Bytes → PeerSocket}

theorem IsStream.arrive (hs : IsStream source) (bytes : Bytes) :
    (source []).arrive bytes = source bytes := by
  cases hs <;> rfl

theorem IsStream.not_isDatagram (hs : IsStream source) (w : Bytes) :
    ¬ (source w).isDatagram = true := by
  cases hs <;> exact Bool.false_ne_true

theorem IsStream.read_nil (hs : IsStream source) {room : Nat} (hroom : 0 < room) :
    (source []).read room = (.nothing, source []) := by
  cases hs with
  | socket => rfl
  | pipe => exact if_neg (Nat.ne_of_gt hroom)

theorem IsStream.read (hs : IsStream source) {room : Nat} (hroom : 0 < room) {w : Bytes}
    (hw : w ≠ []) : (source w).read room = (.data (w.take room), source (w.drop room)) := by
  have hread : ({ waiting := w } : Inlet).read room =
      (.data (w.take room), { waiting := w.drop room }) := by
    rw [Inlet.read, if_neg (by simpa using hw)]
  cases hs with
  | socket => simp only [PeerSocket.read, hread]
  | pipe => simp only [PeerSocket.read, hread, if_neg (Nat.ne_of_gt hroom)]

/-- The peer's loop digests what waits as the buffer has room for it. -/
theorem drains_peer (hs : IsStream source) :
    Drains source peerRoom (digestPeer (σ := σ)) peerStep where
  idle c hroom := by
    have hread := hs.read_nil hroom
    unfold peerRoom at hread
    simp only [peerStep, hread]
  reads c w hw hroom := by
    have hread := hs.read hroom hw
    unfold peerRoom at hread hroom
    have hne : w.take (bufferCapacity - c.peerBuffer.length) ≠ [] := by
      intro h
      have := congrArg List.length h
      have := List.length_pos_iff.mpr hw
      rw [List.length_take, List.length_nil] at *
      omega
    simp only [peerStep, hread]
    rw [if_neg (fun h => hne h.1), if_neg (fun h => hs.not_isDatagram w h.2)]
    simp only [takePeerBytes, digestPeer, peerRoom]
    rcases forward (w.take (bufferCapacity - c.peerBuffer.length)).length _ with ⟨e | _, d⟩
    · rfl
    · dsimp only [checkPeerRoom]
      by_cases hfull : d.peerBuffer.length = bufferCapacity
      · rw [if_pos hfull, if_pos hfull]
      · rw [if_neg hfull, if_neg hfull]

theorem hearPeer_eq (hs : IsStream source) {c : Connection σ} (h : c.peer = some (source []))
    (bytes : Bytes) :
    hearPeer bytes c =
      ((takeFromPeer (source bytes, c.setPeer (source bytes))).1.verdict,
        (takeFromPeer (source bytes, c.setPeer (source bytes))).2.2.setPeer
          (takeFromPeer (source bytes, c.setPeer (source bytes))).2.1) := by
  have hd : Gateway.deliver .peer bytes c = c.setPeer (source bytes) := by
    rw [Gateway.deliver, h, Option.map_some, hs.arrive]
    rfl
  rw [hearPeer, hd]
  rfl

/-! ### One unit -/

variable {route : Route σ} {remembers : Memory σ → Prop} {C : Cutter} {domain : Bytes → Prop}

/-- The peer's bytes are framed as the route says, and what is sent to the client is taken. -/
structure Hearing (route : Route σ) (remembers : Memory σ → Prop) (c : Connection σ) : Prop where
  route : c.route = some route
  memory : remembers c.memory
  toClient : c.toClient.TakesAll

/-- The peer's buffer is to be asked about again: it has come from the domain, and nothing is
complete in it without the bytes that arrived last. -/
structure Ready (route : Route σ) (remembers : Memory σ → Prop) (C : Cutter)
    (domain : Bytes → Prop) (lastRead : Nat) (c : Connection σ) : Prop
    extends Hearing route remembers c where
  fits : c.peerBuffer.length ≤ bufferCapacity
  domain : domain c.peerBuffer
  searched : C.ends (c.peerBuffer.take (c.peerBuffer.length - lastRead)) = .ok 0

/-- The units of a peer: those that are not discarded are sent to the client. -/
def unitLedger : Ledger (Connection σ) Message (List Reply) where
  buffer := peerBuffer
  noted c := c.toClient.taken
  note sent messages := sent ++ messages.filterMap Message.reply?
  note_nil sent := List.append_nil _
  note_append sent xs ys := by
    simp only [List.filterMap_append, List.append_assoc]

variable {lastRead n : Nat} {c d : Connection σ} {e : FramingError}
  (F : Follows route.framing.rule route.framingConfig remembers C domain)

include F

/-- The framing answers as the cutter does. -/
theorem rule_eq_cut (hc : Ready route remembers C domain lastRead c) (hb : c.peerBuffer ≠ []) :
    ∃ memory, remembers memory ∧
      route.framing.rule c.peerBuffer (min lastRead c.peerBuffer.length) route.framingConfig
        c.memory = (C.cut c.peerBuffer, memory) := by
  have hsearched : C.ends (c.peerBuffer.take (c.peerBuffer.length -
      min lastRead c.peerBuffer.length)) = .ok 0 := by
    have heq : c.peerBuffer.length - min lastRead c.peerBuffer.length =
        c.peerBuffer.length - lastRead := by omega
    rw [heq]
    exact hc.searched
  obtain ⟨hcut, hm⟩ := F.answers hc.memory hb hc.domain hsearched
  exact ⟨_, hm, Prod.ext hcut rfl⟩

theorem forwardStep_wait (hc : Ready route remembers C domain lastRead c)
    (h : C.ends c.peerBuffer = .ok 0) :
    ∃ memory, remembers memory ∧ c.forwardStep lastRead = .done (.ok (), { c with memory }) := by
  by_cases hb : c.peerBuffer = []
  · refine ⟨c.memory, hc.memory, ?_⟩
    show c.forwardStep lastRead = .done (.ok (), c)
    unfold forwardStep
    split
    · rfl
    · rw [if_pos (List.isEmpty_iff.mpr hb)]
  · obtain ⟨memory, hm, hrule⟩ := rule_eq_cut F hc hb
    rw [Cutter.cut_of_zero h] at hrule
    refine ⟨memory, hm, ?_⟩
    simp only [forwardStep, hc.route, hrule, List.isEmpty_iff, hb]
    rfl

theorem forwardStep_error (hc : Ready route remembers C domain lastRead c)
    (h : C.ends c.peerBuffer = .error e) :
    ∃ memory, c.forwardStep lastRead =
      .done (.error (.framing route.framing.name e), { c with memory }) := by
  have hb : c.peerBuffer ≠ [] := by
    intro hb
    rw [hb, C.nil] at h
    cases h
  obtain ⟨memory, -, hrule⟩ := rule_eq_cut F hc hb
  rw [Cutter.cut_of_error h] at hrule
  refine ⟨memory, ?_⟩
  simp only [forwardStep, hc.route, hrule, List.isEmpty_iff, hb]
  rfl

/-- After a unit the buffer is to be asked about again. -/
theorem ready_dropUnit (hc : Ready route remembers C domain lastRead c)
    (h : C.ends c.peerBuffer = .ok n) (hd : Hearing route remembers d)
    (hbuffer : d.peerBuffer = c.peerBuffer.drop n) : Ready route remembers C domain lastRead d where
  toHearing := hd
  fits := by
    rw [hbuffer, List.length_drop]
    exact Nat.le_trans (Nat.sub_le _ _) hc.fits
  domain := by
    rw [hbuffer]
    exact F.domain_drop hc.domain h
  searched := by
    have hall : C.ends (c.peerBuffer.take (c.peerBuffer.length - lastRead) ++
        c.peerBuffer.drop (c.peerBuffer.length - lastRead)) = .ok n := by
      rw [List.take_append_drop, h]
    have hrest := C.resumes hc.searched hall
    rw [List.drop_take] at hrest
    rw [hbuffer, List.length_drop, Nat.sub_right_comm]
    exact hrest

theorem forwardStep_unit (hc : Ready route remembers C domain lastRead c)
    (h : C.ends c.peerBuffer = .ok n) (hn : n ≠ 0) :
    ∃ d, c.forwardStep lastRead = .again d ∧ Ready route remembers C domain lastRead d ∧
      unitLedger.Notes c [⟨C.kind (c.peerBuffer.take n), c.peerBuffer.take n⟩] d ∧
      d.peerBuffer = c.peerBuffer.drop n := by
  have hb : c.peerBuffer ≠ [] := by
    intro hb
    rw [hb, C.nil] at h
    exact hn (Except.ok.inj h).symm
  obtain ⟨memory, hm, hrule⟩ := rule_eq_cut F hc hb
  rw [Cutter.cut_of_pos h hn] at hrule
  have hle := C.inside h
  cases hk : (C.kind (c.peerBuffer.take n)).opcode? with
  | none =>
      have hd : Hearing route remembers (dropUnit n { c with memory }) :=
        ⟨hc.route, hm, hc.toClient⟩
      refine ⟨_, ?_, ready_dropUnit F hc h hd rfl, ?_, rfl⟩
      · simp only [forwardStep, hc.route, hrule, List.isEmpty_iff, hb, hn, hk,
          Nat.not_lt_of_le hle]
        rfl
      · show _ = _ ++ List.filterMap _ _
        simp only [List.filterMap_cons, Message.reply?, hk, Option.map_none, List.filterMap_nil,
          List.append_nil]
        rfl
  | some opcode =>
      have hoffer := hc.toClient.offer (.frame opcode (c.peerBuffer.take n))
      have hd : Hearing route remembers (dropUnit n { c with
          memory, toClient := (c.toClient.offer (.frame opcode (c.peerBuffer.take n))).2 }) := by
        refine ⟨hc.route, hm, ?_⟩
        show Outlet.TakesAll (c.toClient.offer _).2
        rw [hoffer]
        exact hc.toClient
      refine ⟨_, ?_, ready_dropUnit F hc h hd rfl, ?_, rfl⟩
      · simp only [forwardStep, hc.route, hrule, List.isEmpty_iff, hb, hn, hk,
          Nat.not_lt_of_le hle, hoffer]
        rfl
      · show (c.toClient.offer _).2.taken = _ ++ List.filterMap _ _
        rw [Outlet.taken_offer, hoffer]
        simp only [List.filterMap_cons, Message.reply?, hk, Option.map_some, List.filterMap_nil]
        rfl

/-! ### A buffer, and a stream -/

/-- Every step does what the interpreter says of the unit at the front of the buffer. -/
theorem performs_forwardStep :
    unitLedger.Performs C.interpreter (forwardStep lastRead) afterForward
      (Ready route remembers C domain lastRead) (Hearing route remembers) where
  wait c hc hr := by
    obtain ⟨hends, hlen⟩ := Cutter.ruling_eq_wait_iff.mp hr
    have hlen : c.peerBuffer.length < bufferCapacity := hlen
    obtain ⟨memory, hm, hstep⟩ := forwardStep_wait F hc hends
    refine ⟨_, hstep, ?_⟩
    simp only [afterForward, checkPeerRoom, if_neg (Nat.ne_of_lt hlen)]
    exact ⟨rfl, rfl, ⟨hc.route, hm, hc.toClient⟩, rfl⟩
  stop c t hc hr := by
    have hr : C.ruling c.peerBuffer = .stop t := hr
    cases hends : C.ends c.peerBuffer with
    | error e =>
        obtain ⟨memory, hstep⟩ := forwardStep_error F hc hends
        rw [Cutter.ruling_of_error hends hc.fits] at hr
        cases hr
        exact ⟨_, hstep, rfl, rfl⟩
    | ok n =>
        by_cases hn : n = 0
        · subst hn
          obtain ⟨memory, -, hstep⟩ := forwardStep_wait F hc hends
          have hfull : c.peerBuffer.length = bufferCapacity := by
            refine Nat.le_antisymm hc.fits (Nat.le_of_not_lt fun hlt => ?_)
            rw [Cutter.ruling_of_zero hends hlt] at hr
            cases hr
          rw [Cutter.ruling_of_full hends hfull] at hr
          cases hr
          refine ⟨_, hstep, ?_⟩
          simp only [afterForward, checkPeerRoom, if_pos hfull]
          exact ⟨rfl, rfl⟩
        · rw [Cutter.ruling_of_pos hends hn hc.fits] at hr
          cases hr
  pass c m n hc hr := by
    obtain ⟨hends, hn, rfl⟩ := Cutter.ends_of_ruling_pass hr
    exact forwardStep_unit F hc hends hn

omit F

/-- The account of a peer's stream: it is interpreted as units. -/
def forwarded (route : Route σ) (remembers : Memory σ → Prop) (C : Cutter)
    (domain : Bytes → Prop) : Account (Connection σ) (Verdict × List Reply × Option Bytes) :=
  unitLedger.account C.interpreter fun c s =>
    Hearing route remembers c ∧ domain (c.peerBuffer ++ s)

theorem forwarded_ignores : (forwarded route remembers C domain).Ignores setPeer :=
  Ledger.ignores (fun _ _ _ h => ⟨⟨h.1.route, h.1.memory, h.1.toClient⟩, h.2⟩) (fun _ _ => rfl)
    fun _ _ => rfl

include F

/-- Every read there is room for is interpreted. -/
theorem explains_digestPeer (c : Connection σ) (piece rest : Bytes)
    (hroom : piece.length ≤ peerRoom c)
    (hc : (forwarded route remembers C domain).admits c (piece ++ rest)) :
    (forwarded route remembers C domain).Explains c piece rest (digestPeer.reader piece c) := by
  obtain ⟨⟨hhear, hdomain⟩, hwait⟩ := hc
  obtain ⟨hends, hlen⟩ := Cutter.ruling_eq_wait_iff.mp hwait
  rw [← List.append_assoc] at hdomain
  have hready : Ready route remembers C domain piece.length
      { c with peerBuffer := c.peerBuffer ++ piece } :=
    { route := hhear.route
      memory := hhear.memory
      toClient := hhear.toClient
      fits := by
        have hlen : c.peerBuffer.length < bufferCapacity := hlen
        unfold peerRoom at hroom
        rw [List.length_append]
        omega
      domain := F.domain_take hdomain
      searched := by
        rw [List.length_append, Nat.add_sub_cancel, List.take_left]
        exact hends }
  obtain ⟨hv, hnotes, hgo⟩ :=
    (performs_forwardStep F).run (forwardStep_descends piece.length) hready
  refine Ledger.explains (r := digestPeer.reader piece c) hv hnotes fun h => ?_
  obtain ⟨hd, hrest⟩ := hgo h
  refine ⟨⟨hd, ?_⟩, hrest⟩
  have hbuffer : (digestPeer.reader piece c).2.peerBuffer =
      (C.interpreter.run (c.peerBuffer ++ piece)).rest := hrest
  rw [hbuffer]
  exact domain_rest F rest hdomain

/-- What arrives in pieces is interpreted as one stream.  If the connection goes on, nothing waits
to be read. -/
theorem forwarded_takeAll (hs : IsStream source) (hc : Hearing route remembers c)
    (hbuffer : c.peerBuffer = []) (hpeer : c.peer = some (source [])) (pieces : List Bytes)
    (hdomain : domain pieces.flatten) :
    (forwarded route remembers C domain).view (hearPeer.takeAll pieces c) =
        (forwarded route remembers C domain).result c pieces.flatten ∧
      ((hearPeer.takeAll pieces c).1 = .continue →
        (hearPeer.takeAll pieces c).2.peer = some (source [])) := by
  have hread (c : Connection σ) (bytes rest : Bytes) :=
    (drains_peer hs).explains_reader peerStep_descends forwarded_ignores
      (·.peer = some (source [])) (fun bytes _ h => hearPeer_eq hs h bytes) (fun _ => rfl)
      (fun c _ h => Nat.sub_pos_of_lt (Cutter.ruling_eq_wait_iff.mp h.2).2)
      (fun c piece rest _ hroom h => explains_digestPeer F c piece rest hroom h) c bytes rest
  have hwait : C.ruling c.peerBuffer = .wait := by
    rw [hbuffer]
    exact Cutter.ruling_of_zero C.nil (Nat.zero_lt_succ _)
  have hdomain' : domain (c.peerBuffer ++ (pieces.flatten ++ [])) := by
    rw [hbuffer, List.nil_append, List.append_nil]
    exact hdomain
  have hexplained := Account.explains_takeAll hread pieces [] c ⟨⟨⟨hc, hdomain'⟩, hwait⟩, hpeer⟩
  refine ⟨hexplained.view_eq, fun hv => ?_⟩
  rcases hr : hearPeer.takeAll pieces c with ⟨v, d⟩
  rw [hr] at hexplained hv
  dsimp only at hv
  subst hv
  exact hexplained.1.2

end WsRelay.Connection
