import WsRelay.Proofs.Client.Limits
import WsRelay.Proofs.Connection.Directions
import WsRelay.Proofs.Peer.Chunking
/-! # How much of a connection is held

The limits of a client's lines and frames are those of `WsRelay.Proofs.Client.Limits`.  On the
peer's side a buffer holds one unit at a time.  A stream `Begins` with those of its units that end
within a buffer, and overflows the buffer if what comes next has filled it and no unit ends in it
(`Fills`).  The framings of streams see to it that this is so whatever the stream, in pieces of any
size, and whatever comes from the client in between (`limitsUnits`).

`capacity_exact` puts the three limits together. -/

namespace WsRelay

open Framing

namespace Framing

variable {σ : Type} {rule : Rule σ} {config : String} {s rest : Bytes} {messages : List Message}

/-- The stream begins with these units: the rule finds each of them in as much of what is left of
the stream as a buffer holds, and remembers nothing. -/
inductive Begins (rule : Rule σ) (config : String) : Bytes → List Message → Bytes → Prop
  | nil {s : Bytes} : Begins rule config s [] s
  | unit {s rest : Bytes} {messages : List Message} {n : Nat} {kind : MessageKind} (hs : s ≠ [])
      (hn : 0 < n) (h : (rule (s.take bufferCapacity) (s.take bufferCapacity).length config
        .empty).1 = .ok ⟨n, kind⟩)
      (more : Begins rule config (s.drop n) messages rest) :
    Begins rule config s (⟨kind, s.take n⟩ :: messages) rest

/-- A whole buffer of the stream has arrived, and the rule finds no unit in it, and no fault. -/
structure Fills (rule : Rule σ) (config : String) (s : Bytes) : Prop where
  arrived : bufferCapacity ≤ s.length
  unended : ∃ kind, (rule (s.take bufferCapacity) bufferCapacity config .empty).1 = .ok ⟨0, kind⟩

/-- A unit is found behind others. -/
theorem Begins.concat (h : Begins rule config s messages rest) {n : Nat} {kind : MessageKind}
    (hrest : rest ≠ []) (hn : 0 < n)
    (hunit : (rule (rest.take bufferCapacity) (rest.take bufferCapacity).length config
      .empty).1 = .ok ⟨n, kind⟩) :
    Begins rule config s (messages ++ [⟨kind, rest.take n⟩]) (rest.drop n) := by
  induction h with
  | nil => exact .unit hrest hn hunit .nil
  | unit hs hm hfirst _ ih => exact .unit hs hm hfirst (ih hrest hunit)

variable {remembers : Memory σ → Prop} {C : Cutter}

section

variable (F : Follows rule config remembers C fun _ => True)

include F

/-- What the front of a stream leads to is what the rule says of a buffer full of it. -/
theorem ruling_eq_rule (hs : s ≠ []) :
    C.ruling s =
      match (rule (s.take bufferCapacity) (s.take bufferCapacity).length config .empty).1 with
      | .error _ => .stop (.close .unexpected "Framing error")
      | .ok cut =>
        if cut.length ≠ 0 then .pass ⟨cut.kind, s.take cut.length⟩ cut.length
        else if s.length < bufferCapacity then .wait
        else .stop (.close .tooLarge "Receive size limit exceeded") := by
  have hne : s.take bufferCapacity ≠ [] := by
    intro h
    rcases List.take_eq_nil_iff.mp h with h | h
    · cases h
    · exact hs h
  have hcut := (F.answers F.empty hne trivial (by rw [Nat.sub_self]; exact C.nil)).1
  rw [hcut]
  unfold Cutter.ruling Cutter.cut
  cases hends : C.ends (s.take bufferCapacity) with
  | error e => rfl
  | ok n =>
      dsimp only [Except.map]
      by_cases hn : n = 0
      · rw [if_neg (not_not.mpr hn), if_neg (not_not.mpr hn)]
      · have hle := C.inside hends
        rw [List.length_take] at hle
        rw [if_pos hn, if_pos hn, if_neg hn, List.take_take, Nat.min_eq_left (by omega)]

/-- The units that a stream begins with are the first that its interpreter finds. -/
theorem Begins.run_eq (h : Begins rule config s messages rest) :
    C.interpreter.run s = (C.interpreter.run rest).after messages := by
  induction h with
  | nil => rfl
  | @unit s _ _ n kind hs hn hunit _ ih =>
      have hr : C.interpreter.ruling s = .pass ⟨kind, s.take n⟩ n := by
        refine (ruling_eq_rule F hs).trans ?_
        rw [hunit]
        exact if_pos (Nat.ne_of_gt hn)
      rw [Interpreter.run_pass hr, ih]
      rfl

theorem Fills.ruling_eq (h : Fills rule config s) :
    C.ruling s = .stop (.close .tooLarge "Receive size limit exceeded") := by
  have hs : s ≠ [] := by
    rintro rfl
    exact absurd h.arrived (by decide)
  obtain ⟨kind, hunended⟩ := h.unended
  rw [ruling_eq_rule F hs, List.length_take_of_le h.arrived, hunended]
  dsimp only
  rw [if_neg (fun hne => hne rfl), if_neg (Nat.not_lt.mpr h.arrived)]

/-- A stream begins with the units that its interpreter finds, and where this stops because a buffer
overflows, one is filled. -/
theorem begins_run (s : Bytes) :
    ∃ rest, Begins rule config s (C.interpreter.run s).items rest ∧
      ((C.interpreter.run s).verdict = .overflow → Fills rule config rest) := by
  have hempty : C.ruling [] = .wait := Cutter.ruling_of_zero C.nil (by decide)
  refine Interpreter.run_induction (motive := fun s i =>
    ∃ rest, Begins rule config s i.items rest ∧
      (i.verdict = .overflow → Fills rule config rest)) ?_ ?_ ?_ s
  · exact fun s _ => ⟨s, .nil, nofun⟩
  · intro s t hr
    refine ⟨s, .nil, fun ht => ?_⟩
    obtain rfl : t = .close .tooLarge "Receive size limit exceeded" := by cases ht; rfl
    have hr : C.ruling s = _ := hr
    have hs : s ≠ [] := by
      rintro rfl
      rw [hempty] at hr
      cases hr
    rw [ruling_eq_rule F hs] at hr
    split at hr
    · cases hr
    · next cut hcut =>
      obtain ⟨n, kind⟩ := cut
      split at hr
      · cases hr
      · next hzero =>
        obtain rfl : n = 0 := Decidable.not_not.mp hzero
        split at hr
        · cases hr
        · next hfull =>
          have harrived := Nat.le_of_not_lt hfull
          rw [List.length_take_of_le harrived] at hcut
          exact ⟨harrived, kind, hcut⟩
  · intro s m n hr ⟨rest, hbegins, hfills⟩
    have hr : C.ruling s = .pass m n := hr
    have hs : s ≠ [] := by
      rintro rfl
      rw [hempty] at hr
      cases hr
    rw [ruling_eq_rule F hs] at hr
    split at hr
    · cases hr
    · next cut hcut =>
      split at hr
      · next hn =>
        cases hr
        exact ⟨rest, .unit hs (Nat.pos_of_ne_zero hn) hcut hbegins, hfills⟩
      · split at hr <;> cases hr

/-- **The interpreter overflows exactly if the stream fills a buffer**, behind units that it has
begun with. -/
theorem overflow_iff_fills (s : Bytes) :
    (C.interpreter.run s).verdict = .overflow ↔
      ∃ messages rest, Begins rule config s messages rest ∧ Fills rule config rest := by
  constructor
  · intro h
    obtain ⟨rest, hbegins, hfills⟩ := begins_run F s
    exact ⟨_, rest, hbegins, hfills h⟩
  · rintro ⟨messages, rest, hbegins, hfills⟩
    have hstop : C.interpreter.ruling rest = _ := hfills.ruling_eq F
    rw [hbegins.run_eq F, Interpreter.run_stop hstop]
    rfl

end

end Framing

/-- A reader goes on from where it has come to. -/
theorem Reader.takeAll_append {α : Type} {read : Reader α} {xs : List Bytes} {a b : α}
    (h : read.takeAll xs a = (.continue, b)) (ys : List Bytes) :
    read.takeAll (xs ++ ys) a = read.takeAll ys b := by
  induction xs generalizing a with
  | nil =>
      cases h
      rfl
  | cons x xs ih =>
      rcases hr : read x a with ⟨_ | t, d⟩
      · rw [takeAll_continue hr] at h
        rw [List.cons_append, takeAll_continue hr]
        exact ih h
      · rw [takeAll_close hr] at h
        cases h

namespace Connection

open Arrival

variable {σ : Type} {route : Route σ} {c d : Connection σ}

/-! ### The limits of units -/

/-- What the peer has sent. -/
def peerBytes (arrivals : List Arrival) : Bytes :=
  ((arrivals.filter (·.side = .peer)).map (·.bytes)).flatten

/-- **The limits of units**, in every stream of a peer, however it is cut and whatever comes from the
client in between: `arrivals` have come, and then come some more bytes of the peer. -/
structure LimitsUnits (route : Route σ) (c : Connection σ) : Prop where
  /-- A buffer overflows exactly if it is filled. -/
  overflow_iff : ∀ router dial (arrivals : List Arrival) (bytes : Bytes),
    let r := run (arrivals.flatMap (operations router dial)) c
    (∀ v ∈ verdictsOf .peer arrivals r.1, v = .continue) →
    ((hearPeer bytes r.2).1 = .overflow ↔ ∃ messages rest,
      Begins route.framing.rule route.framingConfig (peerBytes arrivals ++ bytes) messages rest ∧
        Fills route.framing.rule route.framingConfig rest)
  /-- The units before that have been sent to the client; -/
  sent : ∀ router dial (arrivals : List Arrival) (bytes : Bytes),
    let r := run (arrivals.flatMap (operations router dial)) c
    (∀ v ∈ verdictsOf .peer arrivals r.1, v = .continue) → ∀ messages rest,
      Begins route.framing.rule route.framingConfig (peerBytes arrivals ++ bytes) messages rest →
      c.toClient.taken.filter (!·.isPong) ++ messages.filterMap Message.reply? <+:
        (hearPeer bytes r.2).2.toClient.taken.filter (!·.isPong)
  /-- and so has one that leaves no byte of the buffer free. -/
  exact : ∀ router dial (arrivals : List Arrival) (bytes : Bytes),
    let r := run (arrivals.flatMap (operations router dial)) c
    (∀ v ∈ verdictsOf .peer arrivals r.1, v = .continue) → ∀ messages rest kind,
      Begins route.framing.rule route.framingConfig (peerBytes arrivals ++ bytes) messages rest →
      bufferCapacity ≤ rest.length →
      (route.framing.rule (rest.take bufferCapacity) bufferCapacity route.framingConfig .empty).1 =
        .ok ⟨bufferCapacity, kind⟩ →
      c.toClient.taken.filter (!·.isPong) ++
          (messages ++ [(⟨kind, rest.take bufferCapacity⟩ : Message)]).filterMap Message.reply? <+:
        (hearPeer bytes r.2).2.toClient.taken.filter (!·.isPong)

/-- Arrivals of the peer alone are heard piece by piece. -/
theorem run_peer_pieces {router : Router σ} {dial : Endpoint → Except IoFault PeerSocket}
    {arrivals : List Arrival} (hpeer : ∀ a ∈ arrivals, a.side = .peer)
    (hgo : ∀ v ∈ (run (arrivals.flatMap (operations router dial)) c).1, v = .continue) :
    hearPeer.takeAll (arrivals.map (·.bytes)) c =
      (.continue, (run (arrivals.flatMap (operations router dial)) c).2) := by
  induction arrivals generalizing c with
  | nil => rfl
  | cons a arrivals ih =>
      obtain ⟨side, bytes⟩ := a
      obtain ⟨hside, hothers⟩ := List.forall_mem_cons.mp hpeer
      obtain rfl : side = .peer := hside
      rw [List.flatMap_cons, run_append, run_peer] at hgo ⊢
      obtain ⟨hfirst, hgo⟩ := List.forall_mem_append.mp hgo
      have hear : hearPeer bytes c = (.continue, (hearPeer bytes c).2) :=
        Prod.ext (hfirst _ (List.mem_singleton_self _)) rfl
      rw [List.map_cons, Reader.takeAll_continue hear]
      exact ih hothers hgo

/-- What comes from the client in between makes no difference to what is heard of the peer. -/
theorem hearPeer_among {router : Router σ} {dial : Endpoint → Except IoFault PeerSocket}
    {arrivals : List Arrival} (hc : Serving c) (bytes : Bytes)
    (hgo : ∀ v ∈ verdictsOf .peer arrivals (run (arrivals.flatMap (operations router dial)) c).1,
      v = .continue) :
    let r := run (arrivals.flatMap (operations router dial)) c
    let s := hearPeer.takeAll (((arrivals.filter (·.side = .peer)).map (·.bytes)) ++ [bytes]) c
    (hearPeer bytes r.2).1 = s.1 ∧
      (hearPeer bytes r.2).2.toClient.taken.filter (!·.isPong) =
        s.2.toClient.taken.filter (!·.isPong) := by
  intro r s
  obtain ⟨hmatch, hverdicts⟩ :=
    run_alone (peerHalf_workedOn router dial) arrivals (⟨hc, hc, rfl⟩ : Matched peerHalf c c)
  rw [hverdicts] at hgo
  have hpieces := run_peer_pieces (fun a ha => by simpa using (List.mem_filter.mp ha).2) hgo
  obtain ⟨v, r', s', hr, hs, hafter⟩ :=
    (peerHalf_workedOn router dial).own ⟨.peer, bytes⟩ _ _ rfl hmatch
  have hlast : s = hearPeer bytes _ :=
    (Reader.takeAll_append hpieces [bytes]).trans (takeAll_singleton _ _ _)
  rw [run_peer] at hr hs
  obtain ⟨hv, hr'⟩ := Prod.mk.inj hr
  obtain ⟨hv', hs'⟩ := Prod.mk.inj hs
  rw [hlast]
  refine ⟨(List.cons.inj (hv.trans hv'.symm)).1, ?_⟩
  have hframes : r'.toClient.taken.filter (!·.isPong) = s'.toClient.taken.filter (!·.isPong) :=
    congrArg PeerHalf.frames hafter.same
  rw [← hr', ← hs'] at hframes
  exact hframes

theorem filter_replies (messages : List Message) :
    (messages.filterMap Message.reply?).filter (!·.isPong) = messages.filterMap Message.reply? := by
  refine List.filter_eq_self.mpr fun reply hmem => ?_
  obtain ⟨unit, -, hreply⟩ := List.mem_filterMap.mp hmem
  rw [isPong_reply hreply]
  rfl

variable {name : String}

/-- The framings of streams keep to the limits of units. -/
theorem limitsUnits (hname : name ∈ ["separator", "newline", "fixedlength", "dynamic32"])
    (hframing : FramingTable.standard.get? name = some route.framing)
    (hcount : name = "fixedlength" → Text.radixNat? route.framingConfig ≠ some 0)
    (hc : JustUpgraded route c) (hout : c.toClient.TakesAll) : LimitsUnits route c := by
  obtain ⟨remembers, C, F⟩ := exists_follows hname hframing hcount
  obtain ⟨source, hs, hpeer⟩ := hc.peer
  have hhear : Hearing route remembers c := ⟨hc.route, hc.memory ▸ F.empty, hout⟩
  have hview (pieces : List Bytes) :=
    (forwarded_takeAll F hs hhear hc.peerBuffer hpeer pieces trivial).1
  simp only [forwarded, Ledger.account, unitLedger, hc.peerBuffer, List.nil_append,
    Prod.mk.injEq] at hview
  have hbytes (arrivals : List Arrival) (bytes : Bytes) :
      (((arrivals.filter (·.side = .peer)).map (·.bytes)) ++ [bytes]).flatten =
        peerBytes arrivals ++ bytes := by
    rw [List.flatten_append, List.flatten_singleton]
    rfl
  have hsent (router : Router σ) (dial : Endpoint → Except IoFault PeerSocket)
      (arrivals : List Arrival) (bytes : Bytes)
      (hgo : ∀ v ∈ verdictsOf .peer arrivals
        (run (arrivals.flatMap (operations router dial)) c).1, v = .continue)
      (messages : List Message) (rest : Bytes) (hbegins : Begins route.framing.rule
        route.framingConfig (peerBytes arrivals ++ bytes) messages rest) :
      c.toClient.taken.filter (!·.isPong) ++ messages.filterMap Message.reply? <+:
        (hearPeer bytes (run (arrivals.flatMap (operations router dial)) c).2).2.toClient.taken.filter
          (!·.isPong) := by
    obtain ⟨-, hframes⟩ := hearPeer_among ⟨hc.phase, hout⟩ bytes hgo
    obtain ⟨-, htaken, -⟩ := hview (((arrivals.filter (·.side = .peer)).map (·.bytes)) ++ [bytes])
    rw [hbytes, hbegins.run_eq F] at htaken
    rw [hframes, htaken, List.filter_append, filter_replies]
    refine List.prefix_append_right_inj _ |>.mpr ?_
    show _ <+: (messages ++ (C.interpreter.run rest).items).filterMap Message.reply?
    rw [List.filterMap_append]
    exact List.prefix_append _ _
  refine ⟨fun router dial arrivals bytes hgo => ?_, hsent,
    fun router dial arrivals bytes hgo messages rest kind hbegins hfull hunit => ?_⟩
  · obtain ⟨hverdict, -⟩ := hearPeer_among ⟨hc.phase, hout⟩ bytes hgo
    obtain ⟨hv, -⟩ := hview (((arrivals.filter (·.side = .peer)).map (·.bytes)) ++ [bytes])
    rw [hverdict, hv, hbytes]
    exact overflow_iff_fills F _
  · have hne : rest ≠ [] := by
      rintro rfl
      exact absurd hfull (by decide)
    refine hsent router dial arrivals bytes hgo _ _
      (hbegins.concat (n := bufferCapacity) hne (by decide) ?_)
    rw [List.length_take_of_le hfull]
    exact hunit

/-! ### All limits -/

/-- **The limits of the buffers are exact.**  A connection that is at the beginning of a line, as one
is that has just been accepted, overflows its client's buffer exactly if the stream comes to a line
of which a whole buffer has arrived and whose end is not within that.  While frames are relayed the
client's buffer does not overflow: a frame that fits into it is decoded however it is cut, and one
that does not is refused as soon as its header has arrived.  With a framing of streams, and as long
as what is sent to the client is taken, the peer's buffer overflows exactly if a whole buffer has
arrived in which the framing finds neither a unit nor a fault; a unit that fills the buffer is
sent. -/
theorem capacity_exact (hname : name ∈ ["separator", "newline", "fixedlength", "dynamic32"])
    (hframing : FramingTable.standard.get? name = some route.framing)
    (hcount : name = "fixedlength" → Text.radixNat? route.framingConfig ≠ some 0)
    (router : Router σ) :
    (∀ c : Connection σ, AtLine c → ∀ pieces,
      ((hearClient router).takeAll pieces c).1 = .overflow ↔
        ∃ d t, Reaches router c pieces.flatten d t ∧ Overlong t) ∧
    LimitsFrames router ∧
    ∀ c : Connection σ, JustUpgraded route c → c.toClient.TakesAll → LimitsUnits route c :=
  ⟨fun _ hc pieces => overflow_iff_line hc pieces, limitsFrames router,
    fun _ hc hout => limitsUnits hname hframing hcount hc hout⟩

/-- A connection that has just been accepted, and one to a peer whose records fill the buffer, of
which one arrives at once and is sent. -/
theorem capacity_exact_records :
    let route : Route Unit :=
      { host := "", framing := ⟨"fixedlength", fixedLength⟩, framingConfig := "16384" }
    let fresh : Connection Unit := fresh ⟨0, 0⟩ "" (fun _ => .error .unsupported) {} {}
    let c : Connection Unit :=
      { id := ⟨0, 0⟩, phase := .relaying, dial := fun _ => .error .unsupported,
        peer := some (.stream {}), route := some route }
    let record : Bytes := List.replicate bufferCapacity 7
    ("fixedlength" ∈ ["separator", "newline", "fixedlength", "dynamic32"] ∧
      FramingTable.standard.get? "fixedlength" = some route.framing ∧
      ("fixedlength" = "fixedlength" → Text.radixNat? route.framingConfig ≠ some 0)) ∧
    (∀ pieces, ((hearClient fun _ => none).takeAll pieces fresh).1 = .overflow ↔
      ∃ d t, Reaches (fun _ => none) fresh pieces.flatten d t ∧ Overlong t) ∧
    (LimitsFrames (fun _ => none : Router Unit) ∧ LimitsUnits route c) ∧
    [.frame .binary record] <+: (hearPeer record c).2.toClient.taken.filter (!·.isPong) := by
  intro route fresh c record
  have hname : "fixedlength" ∈ ["separator", "newline", "fixedlength", "dynamic32"] := by decide
  have hcount : "fixedlength" = "fixedlength" → Text.radixNat? route.framingConfig ≠ some 0 :=
    fun _ => by decide
  have hframing : FramingTable.standard.get? "fixedlength" = some route.framing := rfl
  obtain ⟨hlines, hframes, hunits⟩ := capacity_exact hname hframing hcount fun _ => none
  have hc := hunits c ⟨rfl, rfl, rfl, rfl, _, .socket, rfl⟩ fun _ => rfl
  have hlength : record.length = bufferCapacity := List.length_replicate
  have hall : record.take bufferCapacity = record := List.take_of_length_le (Nat.le_of_eq hlength)
  have hradix : Text.radixNat? route.framingConfig = some bufferCapacity := by decide
  have hrule : (route.framing.rule (record.take bufferCapacity) bufferCapacity
      route.framingConfig .empty).1 = .ok ⟨bufferCapacity, .binary⟩ := by
    rw [hall]
    simp only [route, fixedLength, hradix, recordEnd, hlength]
    rfl
  have hsent := hc.exact (fun _ => none) (fun _ => .error .unsupported) [] record nofun [] record
    .binary .nil (Nat.le_of_eq hlength.symm) hrule
  rw [hall] at hsent
  exact ⟨⟨hname, hframing, hcount⟩, hlines fresh (atLine_fresh _ _ _ _ _), ⟨hframes, hc⟩, hsent⟩

end Connection

end WsRelay
