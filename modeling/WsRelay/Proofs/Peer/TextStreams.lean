import WsRelay.Proofs.Framing.Streams
import WsRelay.Proofs.Framing.Textual
import WsRelay.Proofs.Json.Edges
import WsRelay.Proofs.Peer.Chunking
import WsRelay.Proofs.Peer.Cutting
/-! # Streams of text from a peer

A stream of text that is cut into lines or into JSON values stays text, wherever it is cut into
arrivals.  Lines end with an ASCII byte, so each of them begins where a character does
(`wellFormed_line`); JSON values have ASCII bytes on both edges, so they are well-formed even where
what was passed on before them ended inside a character (`Json.wellFormed_front`).

What the client is sent are the units that the framing has cut off the stream, whatever becomes of
the connection in the end (`hearPeer_cuts`). -/

namespace WsRelay

open Utf8

variable {σ : Type}

namespace Framing

variable {data needle : Bytes} {config : String} {memory : Memory σ} {unit : Message}
  {lastRead n : Nat}

/-! ### Lines -/

/-- What ends where a needle does has the needle at its end. -/
theorem suffix_unitEnd (h : unitEnd data lastRead needle ≠ 0) :
    needle <:+ data.take (unitEnd data lastRead needle) := by
  unfold unitEnd at h ⊢
  split at h
  · exact absurd rfl h
  · next hne =>
    rw [if_neg hne]
    dsimp only at h ⊢
    split at h
    · exact absurd rfl h
    · next k hk =>
      rw [Bytes.search?_eq] at hk
      have hat := (Bytes.indexOf?_eq_some_iff.mp hk).2.1
      rw [List.drop_drop] at hat
      rw [List.take_add, ← List.prefix_iff_eq_take.mp hat]
      exact List.suffix_append _ needle

/-- A line end is made of ASCII bytes. -/
theorem ascii_terminator (config : String) : ∀ b ∈ terminator config, b.toNat < 0x80 := by
  unfold terminator
  dsimp only
  split
  · decide +kernel
  · split
    · decide +kernel
    · split <;> decide +kernel

/-- What an answer cuts off, if it does. -/
theorem eq_of_unit? {cut : Cut} (h : unit? data (.ok cut) = some unit) :
    cut.length ≠ 0 ∧ unit = ⟨cut.kind, data.take cut.length⟩ := by
  obtain ⟨_, hanswer, hpos, -, rfl⟩ := unit?_eq_some_iff.mp h
  cases hanswer
  exact ⟨Nat.ne_of_gt hpos, rfl⟩

/-- What the framing by lines remembers, if it does. -/
def RemembersLines (config : String) (memory : Memory σ) : Prop :=
  memory = .empty ∨ memory = .needle (terminator config)

theorem newline_keeps (hm : RemembersLines config memory) (data : Bytes) (lastRead : Nat) :
    RemembersLines config (newline data lastRead config memory).2 := by
  rcases hm with rfl | rfl <;> exact .inr rfl

/-- A unit is a line, sent as text if it looks like it. -/
theorem unit?_newline (hm : RemembersLines config memory)
    (h : unit? data (newline data lastRead config memory).1 = some unit) :
    unit.kind = textKind unit.payload ∧ EndsAscii unit.payload := by
  have hanswer : (newline data lastRead config memory).1 =
      .ok ⟨unitEnd data lastRead (terminator config),
        if unitEnd data lastRead (terminator config) = 0 then .binary
        else textKind (data.take (unitEnd data lastRead (terminator config)))⟩ := by
    rcases hm with rfl | rfl <;> rfl
  rw [hanswer] at h
  obtain ⟨hne, rfl⟩ := eq_of_unit? h
  dsimp only at hne ⊢
  obtain ⟨front, hfront⟩ := suffix_unitEnd hne
  refine ⟨if_neg hne, ?_⟩
  rw [← hfront]
  exact (endsAscii_of_ascii (ascii_terminator config)).append_right (terminator_ne_nil config)

/-- A unit is a value and the blanks before it, sent as text if it looks like it, or all there is
if that is no JSON. -/
theorem unit?_jsonValue (h : unit? data (jsonValue data lastRead config memory).1 = some unit) :
    (∃ w v r, Json.Front data w v r ∧ unit = ⟨textKind (w ++ v), w ++ v⟩) ∨
      Json.scan data = .invalid ∧ unit = ⟨.binary, data⟩ := by
  unfold jsonValue at h
  cases hscan : Json.scan data with
  | complete n =>
      rw [hscan] at h
      obtain ⟨w, v, r, hfront, rfl⟩ := Json.scan_eq_complete_iff.mp hscan
      obtain ⟨-, rfl⟩ := eq_of_unit? h
      have htake : data.take (w.length + v.length) = w ++ v := by
        rw [hfront.split, ← List.append_assoc, ← List.length_append, List.take_left]
      exact .inl ⟨w, v, r, hfront, by rw [htake]⟩
  | incomplete =>
      rw [hscan] at h
      exact absurd rfl (eq_of_unit? h).1
  | invalid =>
      rw [hscan] at h
      obtain ⟨-, rfl⟩ := eq_of_unit? h
      exact .inr ⟨rfl, by rw [List.take_length]⟩

/-! ### Streams of text -/

variable {received rest stream : Bytes} {units : List Message}

/-- Well-formed bytes that are sent as what they look like are sent as text. -/
theorem reply?_of_wellFormed (hkind : unit.kind = textKind unit.payload)
    (htext : WellFormed unit.payload) : unit.reply? = some (.frame .text unit.payload) := by
  rw [Message.reply?, hkind, textKind, if_pos (isTextual_of_wellFormed htext)]
  rfl

theorem endsAscii_flatMap (h : ∀ unit ∈ units, EndsAscii unit.payload) :
    EndsAscii (units.flatMap (·.payload)) := by
  induction units with
  | nil => exact endsAscii_of_ascii (List.forall_mem_nil _)
  | cons unit units ih =>
      obtain ⟨hunit, hunits⟩ := List.forall_mem_cons.mp h
      rw [List.flatMap_cons]
      exact hunit.append (ih hunits)

/-- What ends with an ASCII byte, behind others that do, is well-formed if the stream is. -/
theorem wellFormed_line {earlier later : List Message}
    (h : ∀ line ∈ earlier ++ unit :: later, EndsAscii line.payload)
    (htext : WellFormed ((earlier ++ unit :: later).flatMap (·.payload) ++ rest)) :
    WellFormed unit.payload := by
  have hearlier : EndsAscii (earlier.flatMap (·.payload)) :=
    endsAscii_flatMap fun line hline => h line (List.mem_append_left _ hline)
  rw [List.flatMap_append, List.flatMap_cons, List.append_assoc, List.append_assoc] at htext
  obtain ⟨-, hbehind⟩ := htext.behind hearlier
  exact (hbehind.behind (h unit (List.mem_append_right _ List.mem_cons_self))).1

/-- **Lines of a text are sent as text.** -/
theorem Cuts.lines (h : Cuts newline config received n units rest memory)
    (hinside : received <+: stream) (htext : WellFormed stream) :
    ∀ unit ∈ units,
      unit.reply? = some (.frame .text unit.payload) ∧ WellFormed unit.payload := by
  obtain ⟨-, hasked⟩ := h.asked (RemembersLines config) (.inl rfl)
    fun data lastRead memory hm => newline_keeps hm data lastRead
  have hlines : ∀ unit ∈ units, unit.kind = textKind unit.payload ∧ EndsAscii unit.payload := by
    intro unit hunit
    obtain ⟨earlier, later, hunits⟩ := List.append_of_mem hunit
    obtain ⟨data, lastRead, memory, hm, hcut, -⟩ := hasked earlier unit later hunits
    exact unit?_newline hm hcut
  obtain ⟨more, rfl⟩ := hinside
  rw [← h.conserves, List.append_assoc] at htext
  intro unit hunit
  obtain ⟨earlier, later, rfl⟩ := List.append_of_mem hunit
  have hends : ∀ line ∈ earlier ++ unit :: later, EndsAscii line.payload :=
    fun line hline => (hlines line hline).2
  have hwell := wellFormed_line hends htext
  exact ⟨reply?_of_wellFormed (hlines unit hunit).1 hwell, hwell⟩

/-- **Values in a text are sent as text**, also behind what is no JSON. -/
theorem Cuts.values (h : Cuts jsonValue config received n units rest memory)
    (hinside : received <+: stream) (htext : WellFormed stream) :
    ∀ earlier unit later, units = earlier ++ unit :: later → ∃ data,
      earlier.flatMap (·.payload) ++ data <+: stream ∧
        ((∃ w v r, Json.Front data w v r ∧ unit.payload = w ++ v ∧
            unit.reply? = some (.frame .text unit.payload) ∧ WellFormed unit.payload) ∨
          Json.scan data = .invalid ∧ unit = ⟨.binary, data⟩) := by
  obtain ⟨-, hasked⟩ := h.asked (fun _ => True) trivial fun _ _ _ _ => trivial
  intro earlier unit later hunits
  obtain ⟨data, lastRead, memory, -, hcut, hdata⟩ := hasked earlier unit later hunits
  refine ⟨data, hdata.trans hinside, ?_⟩
  rcases unit?_jsonValue hcut with ⟨w, v, r, hfront, rfl⟩ | hother
  · obtain ⟨more, rfl⟩ := hdata.trans hinside
    rw [List.append_assoc] at htext
    have hwell := Json.wellFormed_front hfront htext
    exact .inl ⟨w, v, r, hfront, rfl, reply?_of_wellFormed rfl hwell, hwell⟩
  · exact .inr hother

end Framing

namespace Connection

open Framing

variable {route : Route σ} {received : Bytes} {n : Nat} {units : List Message} {c : Connection σ}

/-! ### What is cut off what arrives -/

/-- Bytes that arrive piece by piece at a peer's socket that can be read. -/
theorem hearPeer_takes {socket : PeerSocket} (hpeer : c.peer = some socket)
    (hreadable : socket.isReadable = true) (hc : Cutting route received n units c)
    (pieces : List Bytes) :
    let r := hearPeer.takeAll pieces c
    ∃ bytes more, Extends route (received ++ bytes) units more c r.2 ∧
      bytes <+: socket.waiting ++ pieces.flatten ∧
      (r.1 = .continue → ∃ after, r.2.peer = some after ∧
        bytes ++ after.waiting = socket.waiting ++ pieces.flatten ∧
        ∃ n, Cutting route (received ++ bytes) n (units ++ more) r.2) := by
  induction pieces generalizing c socket received n units with
  | nil =>
      refine ⟨[], [], ?_, List.nil_prefix,
        fun _ => ⟨socket, hpeer, (List.append_nil _).symm, n, ?_⟩⟩
      · rw [List.append_nil]
        exact hc.extends_nil
      · rw [List.append_nil, List.append_nil]
        exact hc
  | cons piece pieces ih =>
      have hdeliver : Gateway.deliver .peer piece c = c.setPeer (socket.arrive piece) := by
        rw [Gateway.deliver, hpeer]
        rfl
      have hwaiting : (socket.arrive piece).waiting = socket.waiting ++ piece := by
        rw [PeerSocket.waiting_arrive, if_pos hreadable]
      obtain ⟨bytes, more, hfirst, hinside, hgo⟩ :=
        readPeer_takes (c := c.setPeer (socket.arrive piece)) rfl ⟨hc.hasRoute, hc.cuts⟩
      rw [PeerSocket.isReadable_arrive, hreadable, hwaiting] at hgo
      rw [hwaiting] at hinside
      rw [List.flatten_cons, ← List.append_assoc]
      rcases hr : hearPeer piece c with ⟨verdict, d⟩
      have hpair : (c.setPeer (socket.arrive piece)).readPeer = (verdict, d) := by
        rw [← hr, hearPeer, hdeliver]
      rw [hpair] at hfirst hgo
      have hread : Extends route (received ++ bytes) units more c d := ⟨hfirst.cuts, hfirst.taken⟩
      cases verdict with
      | close termination =>
          rw [Reader.takeAll_close hr]
          exact ⟨bytes, more, hread, hinside.trans (List.prefix_append _ _), fun h => by cases h⟩
      | «continue» =>
          rw [Reader.takeAll_continue hr]
          obtain ⟨after, hafter, hreadable', hrest, m, hcutting⟩ := hgo rfl
          obtain ⟨bytes', more', hmore, hinside', hgo'⟩ := ih hafter hreadable' hcutting
          rw [← hrest, List.append_assoc bytes after.waiting]
          refine ⟨bytes ++ bytes', more ++ more', ?_,
            (List.prefix_append_right_inj bytes).mpr hinside', fun hcontinue => ?_⟩
          · rw [← List.append_assoc]
            exact hread.trans hmore
          · obtain ⟨last, hlast, hwhole, k, hcuts⟩ := hgo' hcontinue
            refine ⟨last, hlast, ?_, k, ?_⟩
            · rw [List.append_assoc, hwhole]
            · rw [← List.append_assoc, ← List.append_assoc]
              exact hcuts

theorem IsStream.isReadable {source : Bytes → PeerSocket} (hs : IsStream source) :
    (source []).isReadable = true := by
  cases hs <;> rfl

theorem IsStream.waiting_nil {source : Bytes → PeerSocket} (hs : IsStream source) :
    (source []).waiting = [] := by
  cases hs <;> rfl

/-- **What the client is sent are the units that the framing has cut off the stream**, whatever
becomes of the connection in the end; if it goes on, they and the bytes that are left make up all
that has arrived. -/
theorem hearPeer_cuts (hc : JustUpgraded route c) (pieces : List Bytes) :
    let r := hearPeer.takeAll pieces c
    ∃ received n units rest memory,
      Cuts route.framing.rule route.framingConfig received n units rest memory ∧
      received <+: pieces.flatten ∧
      r.2.toClient.taken = c.toClient.taken ++ units.filterMap Message.reply? ∧
      (r.1 = .continue → ∃ socket, r.2.peer = some socket ∧
        units.flatMap (·.payload) ++ (r.2.peerBuffer ++ socket.waiting) = pieces.flatten) := by
  intro r
  obtain ⟨source, hs, hpeer⟩ := hc.peer
  have hstart : Cutting route [] 0 [] c :=
    ⟨hc.route, by rw [hc.peerBuffer, hc.memory]; exact .start⟩
  obtain ⟨received, units, ⟨⟨n, rest, memory, hcuts⟩, htaken⟩, hinside, hgo⟩ :=
    hearPeer_takes hpeer hs.isReadable hstart pieces
  rw [hs.waiting_nil, List.nil_append] at hinside hgo
  rw [List.nil_append, List.nil_append] at hcuts
  refine ⟨received, n, units, rest, memory, hcuts, hinside, htaken, fun hcontinue => ?_⟩
  obtain ⟨socket, hsocket, hwhole, m, hcutting⟩ := hgo hcontinue
  refine ⟨socket, hsocket, ?_⟩
  rw [List.nil_append, List.nil_append] at hcutting
  rw [← List.append_assoc, hcutting.cuts.conserves, hwhole]

/-- **Streams of text stay text.**  Well-formed bytes arrive from a peer, in whatever pieces, at a
connection that has just been upgraded; the client is sent the units that the framing cuts off them.
If these are lines, every frame holds text, and its payload is well-formed.  If they are JSON
values, so does every frame that was cut as a value and the blanks before it off what had been left
of the stream; any other unit is all that was left then, because it is no JSON, and is sent as
binary. -/
theorem hearPeer_text (hc : JustUpgraded route c) {pieces : List Bytes}
    (htext : WellFormed pieces.flatten) :
    let r := hearPeer.takeAll pieces c
    ∃ units : List Message,
      r.2.toClient.taken = c.toClient.taken ++ units.filterMap Message.reply? ∧
      units.flatMap (·.payload) <+: pieces.flatten ∧
      (r.1 = .continue → ∃ socket, r.2.peer = some socket ∧
        units.flatMap (·.payload) ++ (r.2.peerBuffer ++ socket.waiting) = pieces.flatten) ∧
      (FramingTable.standard.get? "newline" = some route.framing → ∀ unit ∈ units,
        unit.reply? = some (.frame .text unit.payload) ∧ WellFormed unit.payload) ∧
      (FramingTable.standard.get? "json" = some route.framing →
        ∀ earlier unit later, units = earlier ++ unit :: later → ∃ data,
          earlier.flatMap (·.payload) ++ data <+: pieces.flatten ∧
            ((∃ w v r, Json.Front data w v r ∧ unit.payload = w ++ v ∧
                unit.reply? = some (.frame .text unit.payload) ∧ WellFormed unit.payload) ∨
              Json.scan data = .invalid ∧ unit = ⟨.binary, data⟩)) := by
  intro r
  obtain ⟨received, n, units, rest, memory, hcuts, hinside, htaken, hgo⟩ := hearPeer_cuts hc pieces
  refine ⟨units, htaken, ?_, hgo, fun hframing => ?_, fun hframing => ?_⟩
  · exact (List.prefix_append _ rest).trans (hcuts.conserves ▸ hinside)
  · rw [← Option.some.inj hframing] at hcuts
    exact hcuts.lines hinside htext
  · rw [← Option.some.inj hframing] at hcuts
    exact hcuts.values hinside htext

/-- A character that is cut in two in front of a string, and one inside of it, as lines and as JSON
values: these begin after two stretches of one byte each. -/
theorem hearPeer_text_cut :
    let c (framing : Framing Unit) : Connection Unit :=
      { id := ⟨0, 0⟩, phase := .relaying, dial := fun _ => .error .unsupported,
        peer := some (.stream {}), route := some { host := "", framing } }
    let lines : Framing Unit := ⟨"newline", newline⟩
    let values : Framing Unit := ⟨"json", jsonValue⟩
    let pieces : List Bytes := [[0xC3], [0xA9], [34, 0xC3], [0xA9, 34, 13, 10]]
    (JustUpgraded { host := "", framing := lines } (c lines) ∧
      JustUpgraded { host := "", framing := values } (c values) ∧ WellFormed pieces.flatten) ∧
    (∃ units : List Message,
      (hearPeer.takeAll pieces (c lines)).2.toClient.taken = units.filterMap Message.reply? ∧
      ∀ unit ∈ units,
        unit.reply? = some (.frame .text unit.payload) ∧ WellFormed unit.payload) ∧
    (∃ units : List Message,
      (hearPeer.takeAll pieces (c values)).2.toClient.taken = units.filterMap Message.reply? ∧
      ∀ earlier unit later, units = earlier ++ unit :: later → ∃ data,
        earlier.flatMap (·.payload) ++ data <+: pieces.flatten ∧
          ((∃ w v r, Json.Front data w v r ∧ unit.payload = w ++ v ∧
              unit.reply? = some (.frame .text unit.payload) ∧ WellFormed unit.payload) ∨
            Json.scan data = .invalid ∧ unit = ⟨.binary, data⟩)) ∧
    (hearPeer.takeAll pieces (c lines)).2.toClient.taken =
      [.frame .text [0xC3, 0xA9, 34, 0xC3, 0xA9, 34, 13, 10]] ∧
    (hearPeer.takeAll pieces (c values)).2.toClient.taken =
      [.frame .binary [0xC3], .frame .binary [0xA9], .frame .text [34, 0xC3, 0xA9, 34]] := by
  intro c lines values pieces
  have hlines : JustUpgraded { host := "", framing := lines } (c lines) :=
    ⟨rfl, rfl, rfl, rfl, _, .socket, rfl⟩
  have hvalues : JustUpgraded { host := "", framing := values } (c values) :=
    ⟨rfl, rfl, rfl, rfl, _, .socket, rfl⟩
  have htext : WellFormed pieces.flatten := ⟨"é\"é\"\r\n", by decide⟩
  obtain ⟨units, htaken, -, -, hnewline, -⟩ := hearPeer_text hlines htext
  obtain ⟨units', htaken', -, -, -, hjson⟩ := hearPeer_text hvalues htext
  exact ⟨⟨hlines, hvalues, htext⟩, ⟨units, htaken, hnewline rfl⟩, ⟨units', htaken', hjson rfl⟩,
    by decide +kernel, by decide +kernel⟩

end Connection

end WsRelay
