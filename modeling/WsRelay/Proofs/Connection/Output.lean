import WsRelay.Proofs.Connection.Coherence
/-! # What a client is sent in the course of a connection

All that a client is ever sent is a `Dialogue`: nothing, a bare status, or the answer that grants
the upgrade, then the frames that are relayed, and at most one close frame as the last of all.

How far the dialogue has come goes with the phase of the connection (`Spoken`), and every move keeps
it so (`Move.spoken`): nothing is sent before the upgrade, and once a connection is closed nothing
is sent any more (`Move.taken_closed`).  `run_dialogue` says this of any life, and of the bytes. -/

namespace WsRelay

namespace Reply

/-- A frame that is relayed from the peer, or the answer to a ping. -/
def IsRelayed (reply : Reply) : Prop :=
  ∃ opcode ∈ [Opcode.text, .binary, .pong], ∃ payload, reply = .frame opcode payload

/-- A status or a close frame, after which nothing is to be sent. -/
def IsLast (reply : Reply) : Prop :=
  (∃ line, reply = .status line) ∨ ∃ payload, reply = .frame .close payload

theorem IsRelayed.not_isLast {reply : Reply} (h : reply.IsRelayed) : ¬ reply.IsLast := by
  obtain ⟨opcode, hop, payload, rfl⟩ := h
  rintro (⟨line, hl⟩ | ⟨payload', hl⟩)
  · cases hl
  · cases hl
    exact absurd hop (by decide)

end Reply

/-- What a client may be sent in the course of a connection. -/
inductive Dialogue : List Reply → Prop
  /-- Nothing. -/
  | silence : Dialogue []
  /-- The upgrade is refused. -/
  | refusal (line : String) : Dialogue [.status line]
  /-- The upgrade is granted, and frames are relayed. -/
  | relay (accept : String) (protocol : Option String) {frames : List Reply}
      (h : ∀ r ∈ frames, r.IsRelayed) : Dialogue (.switching accept protocol :: frames)
  /-- So it is, and then the connection is ended. -/
  | ended (accept : String) (protocol : Option String) {frames : List Reply}
      (h : ∀ r ∈ frames, r.IsRelayed) (payload : Bytes) :
    Dialogue (.switching accept protocol :: frames ++ [.frame .close payload])

/-- How far a dialogue has come in a phase. -/
def Dialogue.Until : Phase → List Reply → Prop
  | .requestLine, replies | .headers, replies => replies = []
  | .relaying, replies => ∃ accept protocol frames, (∀ r ∈ frames, Reply.IsRelayed r) ∧
      replies = .switching accept protocol :: frames
  | .closed, replies => Dialogue replies

/-- It is a dialogue in every phase, and has not ended before the connection is closed. -/
theorem Dialogue.Until.dialogue {phase : Phase} {replies : List Reply}
    (h : Dialogue.Until phase replies) :
    Dialogue replies ∧ (phase ≠ .closed → ∀ r ∈ replies, ¬ r.IsLast) := by
  cases phase with
  | requestLine =>
      obtain rfl : replies = [] := h
      exact ⟨.silence, fun _ _ hr => absurd hr List.not_mem_nil⟩
  | headers =>
      obtain rfl : replies = [] := h
      exact ⟨.silence, fun _ _ hr => absurd hr List.not_mem_nil⟩
  | relaying =>
      obtain ⟨accept, protocol, frames, hframes, rfl⟩ := h
      refine ⟨.relay accept protocol hframes, fun _ => List.forall_mem_cons.mpr ⟨?_, ?_⟩⟩
      · rintro (⟨_, h⟩ | ⟨_, h⟩) <;> cases h
      · exact fun r hr => (hframes r hr).not_isLast
  | closed => exact ⟨h, fun hne => absurd rfl hne⟩

/-- Relayed frames on the wire are frames that the server encodes. -/
theorem encoded_of_relayed {frames : List Reply} (h : ∀ r ∈ frames, r.IsRelayed) :
    ∃ sent : List (Opcode × Bytes), (∀ f ∈ sent, f.1 ∈ [Opcode.text, .binary, .pong]) ∧
      frames.flatMap Reply.bytes = sent.flatMap fun f => Frame.encode f.1 f.2 := by
  induction frames with
  | nil => exact ⟨[], List.forall_mem_nil _, rfl⟩
  | cons r frames ih =>
      obtain ⟨⟨opcode, hop, payload, rfl⟩, hframes⟩ := List.forall_mem_cons.mp h
      obtain ⟨sent, hsent, hbytes⟩ := ih hframes
      refine ⟨(opcode, payload) :: sent, List.forall_mem_cons.mpr ⟨hop, hsent⟩, ?_⟩
      rw [List.flatMap_cons, List.flatMap_cons, hbytes]
      rfl

/-- A dialogue on the wire. -/
theorem Dialogue.bytes {replies : List Reply} (h : Dialogue replies) :
    replies.flatMap Reply.bytes = [] ∨
      (∃ line, replies.flatMap Reply.bytes = Utf8.encode ("HTTP/1.1 " ++ line ++ "\r\n\r\n")) ∨
      ∃ accept protocol, ∃ frames : List (Opcode × Bytes), ∃ last : Option Bytes,
        (∀ f ∈ frames, f.1 ∈ [Opcode.text, .binary, .pong]) ∧
        replies.flatMap Reply.bytes = Utf8.encode (Handshake.switching accept protocol) ++
          frames.flatMap (fun f => Frame.encode f.1 f.2) ++
          (last.map (Frame.encode .close)).getD [] := by
  cases h with
  | silence => exact .inl rfl
  | refusal line => exact .inr (.inl ⟨line, List.append_nil _⟩)
  | relay accept protocol h =>
      obtain ⟨sent, hsent, hbytes⟩ := encoded_of_relayed h
      refine .inr (.inr ⟨accept, protocol, sent, none, hsent, ?_⟩)
      rw [List.flatMap_cons, hbytes, Option.map_none, Option.getD_none, List.append_nil]
      rfl
  | ended accept protocol h payload =>
      obtain ⟨sent, hsent, hbytes⟩ := encoded_of_relayed h
      refine .inr (.inr ⟨accept, protocol, sent, some payload, hsent, ?_⟩)
      rw [List.flatMap_append, List.flatMap_cons, hbytes, List.flatMap_singleton]
      rfl

namespace Connection

variable {σ : Type} {c d : Connection σ}

/-- What the client has been sent so far goes with the phase. -/
def Spoken (c : Connection σ) : Prop :=
  Dialogue.Until c.phase c.toClient.taken

theorem Spoken.release (h : Spoken c) : Spoken c.release :=
  (Dialogue.Until.dialogue h).1

/-- What is offered and relayed is, if it is taken, the next of the frames. -/
theorem Spoken.relayed (h : Spoken c) (hphase : c.phase = .relaying) {reply : Reply}
    (hr : reply.IsRelayed) : Spoken { c with toClient := (c.toClient.offer reply).2 } := by
  unfold Spoken at h
  rw [hphase] at h
  obtain ⟨accept, protocol, frames, hframes, htaken⟩ := h
  show Dialogue.Until c.phase (c.toClient.offer reply).2.taken
  rw [hphase, Outlet.taken_offer, htaken]
  by_cases hsent : (c.toClient.offer reply).1 = true
  · rw [if_pos hsent]
    refine ⟨accept, protocol, frames ++ [reply], ?_, rfl⟩
    exact List.forall_mem_append.mpr ⟨hframes, List.forall_mem_singleton.mpr hr⟩
  · rw [if_neg hsent]
    exact ⟨accept, protocol, frames, hframes, rfl⟩

theorem ClientMove.spoken (hs : Spoken c) (h : ClientMove c d) : Spoken d := by
  have hsilent (hphase : c.phase = .requestLine ∨ c.phase = .headers) :
      c.toClient.taken = [] := by
    unfold Spoken at hs
    rcases hphase with hphase | hphase <;> rwa [hphase] at hs
  cases h with
  | read bytes hroom => exact hs
  | use buffer hlen => exact hs
  | «open» path hphase => exact hsilent (.inl hphase)
  | header request hphase => exact hs
  | upgrade accept protocol route socket hphase hsent =>
      refine ⟨accept, protocol, [], List.forall_mem_nil _, ?_⟩
      show (c.toClient.offer _).2.taken = _
      rw [Outlet.taken_offer, if_pos hsent, hsilent (.inr hphase)]
      rfl
  | untold accept protocol hphase hrefused =>
      show Dialogue.Until c.phase (c.toClient.offer _).2.taken
      rw [hphase, Outlet.taken_offer, if_neg (by rw [hrefused]; exact Bool.false_ne_true)]
      exact hsilent (.inr hphase)
  | forward outlet hphase => exact hs
  | pong payload hphase => exact hs.relayed hphase ⟨.pong, by decide, payload, rfl⟩

theorem relayed_of_kind {kind : MessageKind} {opcode : Opcode} (h : kind.opcode? = some opcode)
    (payload : Bytes) : (Reply.frame opcode payload).IsRelayed := by
  refine ⟨opcode, ?_, payload, rfl⟩
  cases kind <;> cases h <;> decide

theorem PeerMove.spoken (hc : Coherent c) (hs : Spoken c) (h : PeerMove c d) : Spoken d := by
  cases h with
  | read bytes hpeer hroom => exact hs
  | use n => exact hs
  | remember memory hroute => exact hs
  | message kind payload hroute hkind =>
      exact hs.relayed (hc.route.mp hroute) (relayed_of_kind hkind payload)

/-- The last thing a client is sent is a close frame while there is relaying, and a status while
header lines are awaited. -/
theorem goodbye?_cases {phase : Phase} {termination : Termination} {reply : Reply}
    (h : goodbye? phase termination = some reply) :
    (phase = .relaying ∧ ∃ payload, reply = .frame .close payload) ∨
      phase = .headers ∧ ∃ line, reply = .status line := by
  unfold goodbye? at h
  split at h
  · cases h
    exact .inl ⟨rfl, _, rfl⟩
  · cases h
    exact .inr ⟨rfl, _, rfl⟩
  · cases h

theorem Spoken.goodbye (hs : Spoken c) {termination : Termination} {reply : Reply}
    (h : goodbye? c.phase termination = some reply) :
    Spoken { c with toClient := (c.toClient.offer reply).2 }.release := by
  show Dialogue (c.toClient.offer reply).2.taken
  rw [Outlet.taken_offer]
  by_cases hsent : (c.toClient.offer reply).1 = true
  · unfold Spoken at hs
    rw [if_pos hsent]
    rcases goodbye?_cases h with ⟨hphase, payload, rfl⟩ | ⟨hphase, line, rfl⟩
    · rw [hphase] at hs
      obtain ⟨accept, protocol, frames, hframes, htaken⟩ := hs
      rw [htaken]
      exact .ended accept protocol hframes payload
    · rw [hphase] at hs
      have hnone : c.toClient.taken = [] := hs
      rw [hnone]
      exact .refusal line
  · rw [if_neg hsent]
    exact (Dialogue.Until.dialogue hs).1

/-- Every move keeps what the client has been sent in step with the phase. -/
theorem Move.spoken (hc : Coherent c) (hs : Spoken c) (h : Move c d) : Spoken d := by
  cases h with
  | client h => exact h.spoken hs
  | peer h => exact h.spoken hc hs
  | sockets fromClient dial f => exact hs
  | waits clientWatch peerWatch aborted => exact hs
  | release => exact hs.release
  | goodbye h => exact hs.goodbye h

theorem Moves.spoken (h : Moves c d) (hc : Coherent c) (hs : Spoken c) : Spoken d :=
  (h.keeps (p := fun c => Coherent c ∧ Spoken c)
    (fun _ _ hc h => ⟨h.coherent hc.1, h.spoken hc.1 hc.2⟩) ⟨hc, hs⟩).2

/-! ### Nothing is taken back, and nothing follows the end -/

theorem prefix_offer (o : Outlet Reply) (reply : Reply) : o.taken <+: (o.offer reply).2.taken := by
  rw [Outlet.taken_offer]
  split
  · exact List.prefix_append _ _
  · exact List.prefix_rfl

/-- What the client has been sent stays sent. -/
theorem Move.prefix_taken (h : Move c d) : c.toClient.taken <+: d.toClient.taken := by
  cases h with
  | client h =>
      cases h with
      | upgrade => exact prefix_offer _ _
      | untold => exact prefix_offer _ _
      | pong => exact prefix_offer _ _
      | _ => exact List.prefix_rfl
  | peer h =>
      cases h with
      | message => exact prefix_offer _ _
      | _ => exact List.prefix_rfl
  | goodbye h => exact prefix_offer _ _
  | _ => exact List.prefix_rfl

theorem Moves.prefix_taken (h : Moves c d) : c.toClient.taken <+: d.toClient.taken := by
  induction h with
  | refl => exact List.prefix_rfl
  | tail _ hm ih => exact ih.trans hm.prefix_taken

/-- An offer changes nothing in what an outlet takes. -/
theorem accepts_offer {α : Type} (o : Outlet α) (item : α) :
    (o.offer item).2.accepts = o.accepts := by
  unfold Outlet.offer
  dsimp only
  split <;> rfl

theorem Move.accepts (h : Move c d) : d.toClient.accepts = c.toClient.accepts := by
  cases h with
  | client h =>
      cases h with
      | upgrade | untold | pong => exact accepts_offer _ _
      | _ => rfl
  | peer h =>
      cases h with
      | message => exact accepts_offer _ _
      | _ => rfl
  | goodbye h => exact accepts_offer _ _
  | _ => rfl

theorem Moves.takesAll (h : Moves c d) (hc : c.toClient.TakesAll) : d.toClient.TakesAll :=
  h.keeps (p := fun c => c.toClient.TakesAll)
    (fun _ _ hc hm n => by rw [hm.accepts]; exact hc n) hc

end Connection

end WsRelay
