import WsRelay.Proofs.Connection.Granting
/-! # Which subprotocol is agreed on

The backend chooses among the offers that a request has kept, which are those of the client without
repetitions, and the connection writes the chosen one into its answer (`Opening.taken_of_admitted`).
`opening_protocol` says what comes of this in terms of the bytes of the client's header lines and of
the protocol option alone: however the request arrives, the answer names the first offer that the
option takes, if there is one.

Offers are compared and named as they are read, with U+FFFD for what is malformed in them.  A
well-formed offer is named byte for byte; another one is named as the client has not written it
(`opening_protocol_replaced`). -/

namespace WsRelay

open Handshake Connection

namespace Opening

variable {σ : Type} {o : Opening σ} {path : Bytes}

/-- The first offer of some kind that the backend is told of is the first that the client made. -/
theorem find?_enquiry (p : String → Bool) :
    (o.enquiry path).protocols.find? p = (offers o.fields).find? p :=
  Request.find?_collect p { path := Utf8.decodeLossy path } o.fields

/-- No offer has a line end in it. -/
theorem oneLine_of_mem_offers {offer : String} (h : offer ∈ offers o.fields) :
    Text.OneLine offer :=
  Request.oneLine_of_mem_offers
    (fun l hl => Bytes.oneLine_iff.mpr (o.fits l (List.mem_cons_of_mem _ hl)).1) h

/-- **The answer** names the first offer that the protocol option takes. -/
theorem taken_of_admitted {settings : Settings} {framings : FramingTable σ} {b : SinglePeer σ}
    (hb : SinglePeer.ofSettings settings framings = .ok b) (hrouter : o.router = b.route)
    (hadmitted : o.Admitted path) (toPeer : Outlet Bytes) {pieces : List Bytes}
    (h : pieces.flatten = o.stream) :
    ∃ key, ((hearClient o.router).takeAll pieces (o.start toPeer)).2.toClient.taken =
      [.switching (acceptKey key)
        ((settings.option? "protocol").bind fun wanted =>
          (offers o.fields).find? (takes wanted))] := by
  obtain ⟨d, key, route, hheard, -, hroute, htaken⟩ := heard_of_granted hadmitted toPeer
  have hsent : ((hearClient o.router).takeAll pieces (o.start toPeer)).2.toClient.taken =
      (o.heard toPeer).2.toClient.taken :=
    congrArg Outline.toClient (outline_heard toPeer h)
  rw [hheard] at hsent
  rw [hrouter] at hroute
  have hprotocol : route.protocolName? (o.enquiry path).protocols =
      (settings.option? "protocol").bind fun wanted => (offers o.fields).find? (takes wanted) := by
    rw [SinglePeer.protocolName?_route hroute, SinglePeer.ofSettings_protocol hb]
    simp only [find?_enquiry]
  exact ⟨key, by rw [hsent, htaken, hprotocol]⟩

end Opening

/-- **The subprotocol that is agreed on is an offer.**  However a request that is admitted is cut
into arrivals, the answer has a line for a subprotocol exactly if the protocol option is set and
either is `*`, with an offer made, or is an offer as it is read, up to the case of letters.  What the
line names is an offer as it is read: the first of all, or the first that is the option.  If the
client has written that offer in UTF-8, it is named byte for byte. -/
theorem opening_protocol {σ : Type} {settings : Settings} {framings : FramingTable σ}
    {b : SinglePeer σ} (hb : SinglePeer.ofSettings settings framings = .ok b) (o : Opening σ)
    (hrouter : o.router = b.route) {path : Bytes} (hadmitted : o.Admitted path)
    (toPeer : Outlet Bytes) {pieces : List Bytes} (h : pieces.flatten = o.stream) :
    let offers : List Bytes := (o.headers.flatMap stretchesOf).filter (offerOf · ≠ "")
    let same (s t : String) : Prop := s.toList.map Char.toLower = t.toList.map Char.toLower
    let sent := ((hearClient o.router).takeAll pieces (o.start toPeer)).2.toClient.taken
    ∃ accept protocol, sent = [.switching accept protocol] ∧
      Bytes.linesBy .crlf (sent.flatMap Reply.bytes) =
        (answerLines accept protocol).map Utf8.encode ++ [[]] ∧
      (protocol.isSome = true ↔ ∃ wanted, settings.option? "protocol" = some wanted ∧
        (wanted = "*" ∧ offers ≠ [] ∨ ∃ offer ∈ offers, same (offerOf offer) wanted)) ∧
      ∀ name, protocol = some name → ∃ wanted before offer after,
        settings.option? "protocol" = some wanted ∧ offers = before ++ offer :: after ∧
        (wanted = "*" ∧ before = [] ∨ wanted ≠ "*" ∧ same name wanted ∧
          ∀ earlier ∈ before, ¬ same (offerOf earlier) wanted) ∧
        (name = offerOf offer ∧ Text.Trims (Utf8.decodeLossy offer) name) ∧
        (Utf8.WellFormed offer → ∃ front back, Text.Blank front ∧ Text.Blank back ∧
          offer = Utf8.encode front ++ Utf8.encode name ++ Utf8.encode back) := by
  intro offers same sent
  have hoffers : Handshake.offers o.fields = offers.map offerOf := offers_filterMap o.headers
  obtain ⟨key, htaken⟩ := Opening.taken_of_admitted hb hrouter hadmitted toPeer h
  have hline {wanted name : String}
      (hfind : (Handshake.offers o.fields).find? (takes wanted) = some name) : Text.OneLine name :=
    Opening.oneLine_of_mem_offers (List.mem_of_find?_eq_some hfind)
  generalize hname : ((settings.option? "protocol").bind fun wanted =>
    (Handshake.offers o.fields).find? (takes wanted)) = protocol at htaken
  have hsent : sent = [.switching (acceptKey key) protocol] := htaken
  refine ⟨acceptKey key, protocol, hsent, ?_, ?_, ?_⟩
  · rw [hsent, List.flatMap_singleton]
    refine linesBy_crlf_switching (plain_acceptKey key) fun name hmem => ?_
    rw [Option.mem_def.mp hmem, Option.bind_eq_some_iff] at hname
    obtain ⟨wanted, -, hfind⟩ := hname
    exact hline hfind
  · rw [← hname, hoffers]
    cases settings.option? "protocol" with
    | none => simp
    | some wanted =>
        simp only [Option.bind_some, Option.some.injEq, exists_eq_left', isSome_find?_takes,
          ne_eq, List.map_eq_nil_iff, List.mem_map, exists_exists_and_eq_and,
          Text.sameIgnoringCase_iff, same]
  · rintro name rfl
    obtain ⟨wanted, hwanted, hfind⟩ := Option.bind_eq_some_iff.mp hname
    rw [hoffers] at hfind
    obtain ⟨named, rest, hsplit, hfirst⟩ := find?_takes hfind
    -- the stretches are split where the offers that they are read as are split
    obtain ⟨before, more, hstretches, rfl, hmore⟩ := List.map_eq_append_iff.mp hsplit
    obtain ⟨offer, after, rfl, rfl, -⟩ := List.map_eq_cons_iff.mp hmore
    refine ⟨wanted, before, offer, after, hwanted, hstretches, ?_, ⟨rfl, Text.trims_trim _⟩,
      exists_around⟩
    simpa only [List.map_eq_nil_iff, List.forall_mem_map, ← Bool.not_eq_true,
      Text.sameIgnoringCase_iff] using hfirst

/-- Four offers in two header lines, one of them empty, of which the second is the option. -/
theorem opening_protocol_second :
    let settings : Settings := { options := [("host", "unix://socket"), ("protocol", "chat")] }
    ∃ b : SinglePeer Unit, SinglePeer.ofSettings settings .standard = .ok b ∧
    let o : Opening Unit :=
      { id := ⟨0, 0⟩
        address := ""
        router := b.route
        dial := fun _ => .ok (.stream {})
        accepts := fun _ => true
        line := Utf8.encode "GET / HTTP/1.1"
        headers := ["Sec-WebSocket-Version: 13", "Sec-WebSocket-Protocol: soap, , Chat",
          "Sec-WebSocket-Key: key", "Upgrade: websocket", "Connection: Upgrade",
          "Sec-WebSocket-Protocol: chat,soap"].map Utf8.encode
        fits := by decide +kernel
        nonempty := by decide +kernel }
    (∃ path, o.Admitted path) ∧
      ∃ accept, ((hearClient o.router).takeAll [o.stream] (o.start {})).2.toClient.taken =
        [.switching accept (some "Chat")] := by
  intro settings
  let b : SinglePeer Unit :=
    { peer := { SinglePeer.startPeer with host := "unix://socket" }
      protocol := some "chat"
      framings := .standard }
  refine ⟨b, rfl, ?_⟩
  intro o
  have hendpoint (protocol : Option Nat) :
      Route.endpoint { b.peer with protocol } = .ok (.unixStream "socket") := by
    simp [b, Route.endpoint, Route.target, SinglePeer.startPeer, Transport.ofHost,
      Transport.withScheme, Transport.scheme, Text.stripStart?, List.isPrefixOf?]
  have hadmitted : o.Admitted [47] :=
    { line := ⟨List.forall_mem_singleton.mpr rfl, 32, Utf8.encode "1.1", rfl, by decide +kernel⟩
      headers := by decide +kernel
      version := ⟨"13", by decide +kernel, by decide +kernel⟩
      upgrade := ⟨by decide +kernel, ⟨"websocket", by decide +kernel, by decide +kernel⟩,
        ⟨"Upgrade", by decide +kernel, by decide +kernel⟩⟩
      peer := ⟨_, .unixStream "socket", .stream {}, rfl, hendpoint _, rfl⟩
      told := rfl }
  have hb : SinglePeer.ofSettings settings .standard = .ok b := rfl
  have hpieces : [o.stream].flatten = o.stream := List.append_nil o.stream
  obtain ⟨accept, protocol, htaken, -, hsome, hfirst⟩ :=
    opening_protocol hb o rfl hadmitted {} hpieces
  have hoption : settings.option? "protocol" = some "chat" := by decide
  have hoffers : (o.headers.flatMap stretchesOf).filter (offerOf · ≠ "") =
      [" soap", " Chat", " chat", "soap"].map Utf8.encode := by
    decide +kernel
  have hread : offerOf (Utf8.encode " Chat") = "Chat" := by decide +kernel
  rw [hoffers] at hsome hfirst
  dsimp only at hsome hfirst
  obtain ⟨name, rfl⟩ := Option.isSome_iff_exists.mp
    (hsome.mpr ⟨"chat", hoption, .inr ⟨Utf8.encode " Chat", by decide, by rw [hread]; decide⟩⟩)
  obtain ⟨wanted, before, offer, after, hwanted, hsplit, hrest, ⟨rfl, -⟩, -⟩ := hfirst name rfl
  obtain rfl : "chat" = wanted := Option.some.inj (hoption.symm.trans hwanted)
  obtain ⟨hany, -⟩ | ⟨-, hsame, hbefore⟩ := hrest
  · exact absurd hany (by decide)
  · -- one offer stands before the one that is named: `soap` is not it, and `Chat` is
    refine ⟨⟨_, hadmitted⟩, accept, ?_⟩
    rcases before with _ | ⟨first, _ | ⟨second, before⟩⟩
    · cases hsplit
      exact absurd hsame (by decide +kernel)
    · cases hsplit
      rw [htaken, hread]
    · obtain ⟨-, htail⟩ := List.cons.inj hsplit
      obtain ⟨rfl, -⟩ := List.cons.inj htail
      refine absurd ?_ (hbefore _ (List.mem_cons_of_mem _ List.mem_cons_self))
      decide +kernel

/-- An offer that is malformed is named as the client has written it nowhere. -/
theorem opening_protocol_replaced :
    let settings : Settings := { options := [("host", "unix://socket"), ("protocol", "*")] }
    ∃ b : SinglePeer Unit, SinglePeer.ofSettings settings .standard = .ok b ∧
    let o : Opening Unit :=
      { id := ⟨0, 0⟩
        address := ""
        router := b.route
        dial := fun _ => .ok (.stream {})
        accepts := fun _ => true
        line := Utf8.encode "GET / HTTP/1.1"
        headers := ["Sec-WebSocket-Version: 13", "Sec-WebSocket-Key: key", "Upgrade: websocket",
          "Connection: Upgrade"].map Utf8.encode ++
          [Utf8.encode "Sec-WebSocket-Protocol: " ++ [0x61, 0xFF, 0x62]]
        fits := by decide +kernel
        nonempty := by decide +kernel }
    ∃ accept, .switching accept (some "a\uFFFDb") ∈
        ((hearClient o.router).takeAll [o.stream] (o.start {})).2.toClient.taken ∧
      ¬ Utf8.encode "a\uFFFDb" <:+: o.stream := by
  intro settings
  let b : SinglePeer Unit :=
    { peer := { SinglePeer.startPeer with host := "unix://socket" }
      protocol := some "*"
      framings := .standard }
  refine ⟨b, rfl, ?_⟩
  intro o
  have hnamed : some "a\uFFFDb" ∈
      ((hearClient o.router).takeAll [o.stream] (o.start {})).2.toClient.taken.map named? := by
    decide +kernel
  obtain ⟨accept, hsent⟩ := mem_map_named?.mp hnamed
  refine ⟨accept, hsent, fun hwithin => ?_⟩
  -- the replacement character begins with a byte that the client has not sent
  have hbyte : 0xEF ∈ Utf8.encode "a\uFFFDb" := by decide +kernel
  exact absurd (hwithin.subset hbyte) (by decide +kernel)

end WsRelay
