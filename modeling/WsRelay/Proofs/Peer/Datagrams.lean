import WsRelay.Proofs.Connection.Directions
import WsRelay.Proofs.Framing.Recall
/-! # What a peer's datagrams lead to

A read from a socket for datagrams takes the first one, as much of it as the buffer has room for,
and a datagram that leaves no room behind it closes the connection.  `takeDatagrams` says what that
comes to: every datagram is taken whole, or closes the connection before a byte of it is looked at
(`readPeer_datagrams`).

After a datagram that does not close the connection the framing waits for more (`Awaiting`).  The
framings of this library would say so again if they were asked again (`waitsOn_standard`), so empty
datagrams might as well not come (`takeDatagrams_filter`).  A framing that passes on all there is
makes one frame of each of the others (`takeDatagrams_passed`). -/

namespace WsRelay

variable {σ : Type}

/-! ### Framings that are asked again -/

namespace Framing

/-- A framing that waits for more waits on when it is asked again. -/
def WaitsOn (rule : Rule σ) : Prop :=
  ∀ data n config memory kind after, rule data n config memory = (.ok ⟨0, kind⟩, after) →
    ∃ kind, rule data 0 config after = (.ok ⟨0, kind⟩, after)

/-- A framing that makes one unit of all there is, as text where `textual` says so. -/
def PassesOn (textual : Bytes → Bool) (rule : Rule σ) : Prop :=
  ∀ data n config memory, rule data n config memory =
    (.ok ⟨data.length, if textual data then .text else .binary⟩, memory)

theorem passesOn_binary : PassesOn (fun _ => false) (binary (σ := σ)) := fun _ _ _ _ => rfl

theorem passesOn_auto : PassesOn isTextual (auto (σ := σ)) := fun _ _ _ _ => rfl

/-- There is nothing to wait for in a buffer that is passed on. -/
theorem PassesOn.waitsOn {textual : Bytes → Bool} {rule : Rule σ} (h : PassesOn textual rule) :
    WaitsOn rule := by
  intro data n config memory kind after hrule
  rw [h] at hrule
  obtain ⟨hcut, rfl⟩ := Prod.mk.inj hrule
  have hnone : data.length = 0 := (Cut.mk.inj (Except.ok.inj hcut)).1
  rw [h, hnone]
  exact ⟨_, rfl⟩

/-- Where nothing was read, there is no room for a needle that was not found before. -/
theorem unitEnd_zero (data needle : Bytes) : unitEnd data 0 needle = 0 := by
  unfold unitEnd
  split
  · rfl
  · next hne =>
    have hpos : 0 < needle.length :=
      List.length_pos_iff.mpr fun h => hne (List.isEmpty_iff.mpr h)
    have hshort : (data.drop (data.length - 0 - (needle.length - 1))).length < needle.length := by
      rw [List.length_drop]
      omega
    dsimp only
    rw [Bytes.search?_eq, Bytes.indexOf?_eq_none hshort]

theorem Configurable.answer_waitsOn {k : Configurable} {kept : Memory σ} {data : Bytes} {n : Nat}
    {kind : MessageKind} (h : k.answer kept data n = .ok ⟨0, kind⟩) :
    ∃ kind, k.answer kept data 0 = .ok ⟨0, kind⟩ := by
  cases kept with
  | needle needle =>
      obtain ⟨kind', hanswer⟩ := k.exists_answer_needle (σ := σ) needle data 0
      rw [unitEnd_zero] at hanswer
      exact ⟨kind', hanswer⟩
  | empty | recordLength | layout | extension => cases k <;> exact ⟨kind, h⟩

theorem Configurable.waitsOn (k : Configurable) : WaitsOn (k.framing (σ := σ)).rule := by
  intro data n config memory kind after hrule
  cases h : k.goesBy config memory with
  | error e =>
      rw [rule_of_error h] at hrule
      cases hrule
  | ok kept =>
      rw [rule_of_ok h] at hrule
      obtain ⟨hanswer, rfl⟩ := Prod.mk.inj hrule
      obtain ⟨kind', hagain⟩ := answer_waitsOn hanswer
      exact ⟨kind', by rw [rule_of_ok (goesBy_of_holds (holds_of_goesBy h)), hagain]⟩

/-- A framing that takes no notice of what was read last, and remembers nothing. -/
theorem waitsOn_jsonValue : WaitsOn (jsonValue (σ := σ)) := by
  intro data n config memory kind after hrule
  have hafter : after = memory := by
    rw [← jsonValue_forgets data n config memory, hrule]
  rw [hafter] at hrule ⊢
  exact ⟨kind, hrule⟩

/-- The framings of this library wait on when they are asked again. -/
theorem waitsOn_standard {name : String} {framing : Framing σ}
    (h : FramingTable.standard.get? name = some framing) : WaitsOn framing.rule := by
  have hmem := List.mem_of_find?_eq_some h
  simp only [FramingTable.standard, List.mem_cons, List.not_mem_nil, or_false] at hmem
  rcases hmem with rfl | rfl | rfl | rfl | rfl | rfl | rfl
  · exact passesOn_binary.waitsOn
  · exact passesOn_auto.waitsOn
  · exact Configurable.separator.waitsOn
  · exact Configurable.newline.waitsOn
  · exact Configurable.fixedLength.waitsOn
  · exact Configurable.lengthPrefixed.waitsOn
  · exact waitsOn_jsonValue

end Framing

namespace Connection

open Framing

variable {route : Route σ} {c d : Connection σ} {bytes received : Bytes} {n : Nat}
  {units : List Message}

/-! ### Datagram by datagram -/

/-- What becomes of a connection when datagrams are read, one after the other: the failure that
closes it and the datagrams that are left unread then, if there is one. -/
def takeDatagrams : List Bytes → Connection σ → Option (Error × List Bytes) × Connection σ
  | [], c => (none, c)
  | x :: xs, c =>
    if peerRoom c ≤ x.length then (some (peerOverflow, xs), c)
    else match takePeerBytes x c with
      | (some e, d) => (some (e, xs), d)
      | (none, d) => takeDatagrams xs d

variable {x : Bytes} {xs : List Bytes} {e : Error}

theorem takeDatagrams_long (h : peerRoom c ≤ x.length) :
    takeDatagrams (x :: xs) c = (some (peerOverflow, xs), c) := if_pos h

theorem takeDatagrams_failed (h : x.length < peerRoom c) (ht : takePeerBytes x c = (some e, d)) :
    takeDatagrams (x :: xs) c = (some (e, xs), d) := by
  rw [takeDatagrams, if_neg (Nat.not_le.mpr h), ht]

theorem takeDatagrams_taken (h : x.length < peerRoom c) (ht : takePeerBytes x c = (none, d)) :
    takeDatagrams (x :: xs) c = takeDatagrams xs d := by
  rw [takeDatagrams, if_neg (Nat.not_le.mpr h), ht]

/-- A datagram is too long for the room there is, or is taken whole. -/
theorem takeDatagrams_cases (x : Bytes) (c : Connection σ) :
    peerRoom c ≤ x.length ∨ x.length < peerRoom c ∧
      ((∃ e d, takePeerBytes x c = (some e, d)) ∨ ∃ d, takePeerBytes x c = (none, d)) := by
  rcases Nat.lt_or_ge x.length (peerRoom c) with hshort | hlong
  · refine .inr ⟨hshort, ?_⟩
    rcases takePeerBytes x c with ⟨_ | e, d⟩
    · exact .inr ⟨d, rfl⟩
    · exact .inl ⟨e, d, rfl⟩
  · exact .inl hlong

/-- What comes of reading on when no datagram waits. -/
def idleOutcome : Tail → Outcome
  | .failed fault => .error (.peerIo fault)
  | _ => .ok .continue

theorem peerStep_none (tail : Tail) (c : Connection σ) :
    peerStep (.datagram [] tail, c) = .done (idleOutcome tail, .datagram [] tail, c) := by
  cases tail <;> rfl

theorem peerStep_datagram (x : Bytes) (xs : List Bytes) (tail : Tail) (c : Connection σ) :
    peerStep (.datagram (x :: xs) tail, c) =
      if peerRoom c ≤ x.length then .done (.error peerOverflow, .datagram xs tail, c)
      else match takePeerBytes x c with
        | (some e, d) => .done (.error e, .datagram xs tail, d)
        | (none, d) => .again (.datagram xs tail, d) := by
  have hread : PeerSocket.read (peerRoom c) (.datagram (x :: xs) tail) =
      (.data (x.take (peerRoom c)), .datagram xs tail) := rfl
  have hdatagram : (PeerSocket.datagram (x :: xs) tail).isDatagram = true := rfl
  unfold peerRoom at hread ⊢
  simp only [peerStep, hread]
  rw [if_neg fun h => h.2 hdatagram]
  by_cases hlong : bufferCapacity - c.peerBuffer.length ≤ x.length
  · rw [if_pos hlong, if_pos ⟨by rw [List.length_take]; omega, hdatagram⟩]
  · rw [if_neg hlong, List.take_of_length_le (by omega)]
    refine (if_neg fun h => hlong (Nat.le_of_eq h.1.symm)).trans ?_
    rcases takePeerBytes x c with ⟨_ | _, d⟩ <;> rfl

theorem takeFromPeer_datagrams (xs : List Bytes) (tail : Tail) (c : Connection σ) :
    takeFromPeer (.datagram xs tail, c) =
      match takeDatagrams xs c with
      | (some (e, left), d) => (.error e, .datagram left tail, d)
      | (none, d) => (idleOutcome tail, .datagram [] tail, d) := by
  induction xs generalizing c with
  | nil => exact Loop.run_done (peerStep_none tail c)
  | cons x xs ih =>
      have hstep := peerStep_datagram x xs tail c
      obtain hlong | ⟨hshort, ⟨e, d, ht⟩ | ⟨d, ht⟩⟩ := takeDatagrams_cases x c
      · rw [if_pos hlong] at hstep
        rw [takeDatagrams_long hlong]
        exact Loop.run_done hstep
      · rw [if_neg (Nat.not_le.mpr hshort), ht] at hstep
        rw [takeDatagrams_failed hshort ht]
        exact Loop.run_done hstep
      · rw [if_neg (Nat.not_le.mpr hshort), ht] at hstep
        rw [takeDatagrams_taken hshort ht]
        exact (Loop.run_again hstep).trans (ih d)

/-- **A peer's socket for datagrams is read datagram by datagram.** -/
theorem readPeer_datagrams {xs : List Bytes} {tail : Tail}
    (h : c.peer = some (.datagram xs tail)) :
    c.readPeer =
      match takeDatagrams xs c with
      | (some (e, left), d) => (.close e.termination, d.setPeer (.datagram left tail))
      | (none, d) => ((idleOutcome tail).verdict, d.setPeer (.datagram [] tail)) := by
  rw [readPeer, h]
  dsimp only
  rw [takeFromPeer_datagrams]
  rcases takeDatagrams xs c with ⟨_ | ⟨e, left⟩, d⟩ <;> rfl

/-! ### Waiting for more -/

/-- The framing waits for more: nothing is in the buffer, or it has just said so. -/
structure Awaiting (route : Route σ) (c : Connection σ) : Prop where
  hasRoute : c.route = some route
  room : 0 < peerRoom c
  waits : c.peerBuffer = [] ∨ ∃ n memory kind,
    route.framing.rule c.peerBuffer n route.framingConfig memory = (.ok ⟨0, kind⟩, c.memory)

/-- How asking a framing comes to an end. -/
inductive Stops (route : Route σ) (lastRead : Nat) (c : Connection σ) :
    Except Error Unit → Connection σ → Prop
  | empty (h : c.peerBuffer = []) : Stops route lastRead c (.ok ()) c
  | waits {kind : MessageKind} {memory : Memory σ}
      (h : c.answer route lastRead = (.ok ⟨0, kind⟩, memory)) :
      Stops route lastRead c (.ok ()) { c with memory }
  | refused {cause : FramingError} {memory : Memory σ}
      (h : c.answer route lastRead = (.error cause, memory)) :
      Stops route lastRead c (.error (.framing route.framing.name cause)) { c with memory }
  | overrun {cut : Cut} {memory : Memory σ} (h : c.answer route lastRead = (.ok cut, memory))
      (hover : c.peerBuffer.length < cut.length) :
      Stops route lastRead c
        (.error (.framing route.framing.name (.overrun cut.length c.peerBuffer.length)))
        { c with memory }
  | unsent (memory : Memory σ) (outlet : Outlet Reply) :
      Stops route lastRead c (.error (.io .brokenPipe)) { c with memory, toClient := outlet }

theorem forwardStep_stops {lastRead : Nat} {outcome : Except Error Unit}
    (hroute : c.route = some route) (h : c.forwardStep lastRead = .done (outcome, d)) :
    Stops route lastRead c outcome d := by
  by_cases hempty : c.peerBuffer = []
  · rw [forwardStep_idle (.inr hempty)] at h
    cases h
    exact .empty hempty
  · rw [forwardStep_asked hroute hempty] at h
    rcases ha : c.answer route lastRead with ⟨cause | ⟨length, kind⟩, memory⟩
    · rw [ha] at h
      cases h
      exact .refused ha
    · rw [ha] at h
      dsimp only [useCut] at h
      split at h
      · next hzero =>
        cases h
        subst hzero
        exact .waits ha
      · split at h
        · next hover =>
          cases h
          exact .overrun ha hover
        · split at h
          · cases h
          · split at h <;> cases h
            exact .unsent _ _

/-- Where asking the framing ends without a failure, it waits for more. -/
theorem forwardStep_done {lastRead : Nat} (hroute : c.route = some route)
    (h : c.forwardStep lastRead = .done (.ok (), d)) :
    d.route = some route ∧ d.peerBuffer = c.peerBuffer ∧
      (d.peerBuffer = [] ∨ ∃ n memory kind,
        route.framing.rule d.peerBuffer n route.framingConfig memory =
          (.ok ⟨0, kind⟩, d.memory)) := by
  cases forwardStep_stops hroute h with
  | empty hempty => exact ⟨hroute, rfl, .inl hempty⟩
  | waits hwaits => exact ⟨hroute, rfl, .inr ⟨_, _, _, hwaits⟩⟩

theorem forwardStep_again {lastRead : Nat} (h : c.forwardStep lastRead = .again d) :
    d.route = c.route := by
  have hforwards := forwardStep_forwards lastRead c
  rw [h] at hforwards
  cases hforwards with
  | discarded => rfl
  | sent => rfl

/-- A connection asks its framing until one of these ends is come to. -/
theorem forward_stops (hroute : c.route = some route) (lastRead : Nat) :
    ∃ b, b.route = some route ∧
      Stops route lastRead b (c.forward lastRead).1 (c.forward lastRead).2 := by
  obtain ⟨b, hb, hdone⟩ :
      ∃ b : Connection σ, b.route = some route ∧
        b.forwardStep lastRead = .done (c.forward lastRead) :=
    Loop.invariant (fun b : Connection σ => b.route = some route)
      (fun _ _ ha hs => (forwardStep_again hs).trans ha) c hroute
  exact ⟨b, hb, forwardStep_stops hb hdone⟩

theorem takePeerBytes_awaiting (hroute : c.route = some route) (hroom : bytes.length < peerRoom c)
    (h : takePeerBytes bytes c = (none, d)) : Awaiting route d := by
  unfold takePeerBytes at h
  have hfits : (c.peerBuffer ++ bytes).length ≤ bufferCapacity := by
    unfold peerRoom at hroom
    rw [List.length_append]
    omega
  obtain ⟨b, ⟨hb, hle⟩, hdone⟩ :
      ∃ b : Connection σ, (b.route = some route ∧ b.peerBuffer.length ≤ bufferCapacity) ∧
        b.forwardStep bytes.length =
          .done (forward bytes.length { c with peerBuffer := c.peerBuffer ++ bytes }) := by
    refine Loop.invariant
      (fun b : Connection σ => b.route = some route ∧ b.peerBuffer.length ≤ bufferCapacity)
      (fun a b ha hs => ?_) _ ⟨hroute, hfits⟩
    exact ⟨(forwardStep_again hs).trans ha.1,
      Nat.le_trans (Nat.le_of_lt (forwardStep_descends bytes.length a b hs)) ha.2⟩
  rcases hf : forward bytes.length { c with peerBuffer := c.peerBuffer ++ bytes } with ⟨e | _, e'⟩
  · rw [hf] at h
    cases h
  · rw [hf] at h hdone
    dsimp only at h
    split at h
    · cases h
    · next hfull =>
      obtain ⟨-, rfl⟩ := Prod.mk.inj h
      obtain ⟨hd, hbuffer, hwaits⟩ := forwardStep_done hb hdone
      refine ⟨hd, ?_, hwaits⟩
      unfold peerRoom
      rw [hbuffer] at hfull ⊢
      omega

/-- An empty datagram is nothing to a framing that waits on when it is asked again. -/
theorem takePeerBytes_nil (hrule : WaitsOn route.framing.rule) (hc : Awaiting route c) :
    takePeerBytes [] c = (none, c) := by
  have hstep : c.forwardStep 0 = .done (.ok (), c) := by
    rcases hc.waits with hempty | ⟨n, memory, kind, hwaits⟩
    · exact forwardStep_idle (.inr hempty)
    · by_cases hempty : c.peerBuffer = []
      · exact forwardStep_idle (.inr hempty)
      · obtain ⟨kind', hagain⟩ := hrule _ _ _ _ _ _ hwaits
        have hanswer : c.answer route 0 = (.ok ⟨0, kind'⟩, c.memory) := by
          rw [answer, Nat.zero_min]
          exact hagain
        rw [forwardStep_asked hc.hasRoute hempty, hanswer]
        rfl
  have hforward : forward 0 c = (.ok (), c) := Loop.run_done hstep
  have hroom := hc.room
  unfold peerRoom at hroom
  unfold takePeerBytes
  rw [List.append_nil, List.length_nil, hforward]
  exact Prod.ext (if_neg (by omega)) rfl

/-- **Empty datagrams might as well not come**, as far as a framing of this library is concerned. -/
theorem takeDatagrams_filter (hrule : WaitsOn route.framing.rule) (hc : Awaiting route c)
    (xs : List Bytes) :
    (takeDatagrams xs c).2 = (takeDatagrams (xs.filter (· ≠ [])) c).2 ∧
      (takeDatagrams xs c).1.map (·.1) =
        (takeDatagrams (xs.filter (· ≠ [])) c).1.map (·.1) := by
  induction xs generalizing c with
  | nil => exact ⟨rfl, rfl⟩
  | cons x xs ih =>
      have hroom := hc.room
      by_cases hx : x = []
      · subst hx
        rw [List.filter_cons_of_neg (by decide),
          takeDatagrams_taken (by rwa [List.length_nil]) (takePeerBytes_nil hrule hc)]
        exact ih hc
      · rw [List.filter_cons_of_pos (by simpa using hx)]
        obtain hlong | ⟨hshort, ⟨e, d, ht⟩ | ⟨d, ht⟩⟩ := takeDatagrams_cases x c
        · rw [takeDatagrams_long hlong, takeDatagrams_long hlong]
          exact ⟨rfl, rfl⟩
        · rw [takeDatagrams_failed hshort ht, takeDatagrams_failed hshort ht]
          exact ⟨rfl, rfl⟩
        · rw [takeDatagrams_taken hshort ht, takeDatagrams_taken hshort ht]
          exact ih (takePeerBytes_awaiting hc.hasRoute hshort ht)

theorem takeDatagrams_awaiting (hc : Awaiting route c) (xs : List Bytes)
    (h : (takeDatagrams xs c).1 = none) : Awaiting route (takeDatagrams xs c).2 := by
  induction xs generalizing c with
  | nil => exact hc
  | cons x xs ih =>
      obtain hlong | ⟨hshort, ⟨e, d, ht⟩ | ⟨d, ht⟩⟩ := takeDatagrams_cases x c
      · rw [takeDatagrams_long hlong] at h
        cases h
      · rw [takeDatagrams_failed hshort ht] at h
        cases h
      · rw [takeDatagrams_taken hshort ht] at h ⊢
        exact ih (takePeerBytes_awaiting hc.hasRoute hshort ht) h

/-- Datagrams are taken in after those before them. -/
theorem takeDatagrams_append (h : (takeDatagrams xs c).1 = none) (ys : List Bytes) :
    takeDatagrams (xs ++ ys) c = takeDatagrams ys (takeDatagrams xs c).2 := by
  induction xs generalizing c with
  | nil => rfl
  | cons x xs ih =>
      obtain hlong | ⟨hshort, ⟨e, d, ht⟩ | ⟨d, ht⟩⟩ := takeDatagrams_cases x c
      · rw [takeDatagrams_long hlong] at h
        cases h
      · rw [takeDatagrams_failed hshort ht] at h
        cases h
      · rw [takeDatagrams_taken hshort ht] at h
        rw [List.cons_append, takeDatagrams_taken hshort ht, takeDatagrams_taken hshort ht]
        exact ih h

/-! ### What is cut, and what is sent -/

theorem Cutting.nothing (hc : Cutting route received n units c) :
    Cutting route (received ++ [].flatten) n (units ++ []) c := by
  rw [List.flatten_nil, List.append_nil, List.append_nil]
  exact hc

/-- Whole datagrams are read, and cut. -/
theorem takeDatagrams_cutting (hc : Cutting route received n units c) (xs : List Bytes) :
    ∃ read left more, read ++ left = xs ∧ (∀ x ∈ read, x.length < bufferCapacity) ∧
      Extends route (received ++ read.flatten) units more c (takeDatagrams xs c).2 ∧
      ((takeDatagrams xs c).1 = none → left = [] ∧
        ∃ n, Cutting route (received ++ read.flatten) n (units ++ more)
          (takeDatagrams xs c).2) := by
  induction xs generalizing c received n units with
  | nil =>
      exact ⟨[], [], [], rfl, List.forall_mem_nil _,
        ⟨⟨_, _, _, hc.nothing.cuts⟩, (List.append_nil _).symm⟩, fun _ => ⟨rfl, n, hc.nothing⟩⟩
  | cons x xs ih =>
      obtain hlong | ⟨hroom, hcases⟩ := takeDatagrams_cases x c
      · rw [takeDatagrams_long hlong]
        exact ⟨[], x :: xs, [], rfl, List.forall_mem_nil _,
          ⟨⟨_, _, _, hc.nothing.cuts⟩, (List.append_nil _).symm⟩, nofun⟩
      · have hshort : x.length < bufferCapacity := by
          unfold peerRoom at hroom
          omega
        obtain ⟨more, hmore, hgo⟩ := takePeerBytes_cutting hc (Nat.le_of_lt hroom)
        obtain ⟨e, d, ht⟩ | ⟨d, ht⟩ := hcases
        all_goals rw [ht] at hmore hgo
        · rw [takeDatagrams_failed hroom ht]
          refine ⟨[x], xs, more, rfl, List.forall_mem_singleton.mpr hshort, ?_, nofun⟩
          rw [List.flatten_singleton]
          exact hmore
        · rw [takeDatagrams_taken hroom ht]
          obtain ⟨read, left, more', hxs, hread, hextends, hgoes⟩ := ih (hgo rfl)
          rw [List.append_assoc, ← List.flatten_cons, List.append_assoc] at hgoes
          refine ⟨x :: read, left, more ++ more', congrArg (x :: ·) hxs,
            List.forall_mem_cons.mpr ⟨hshort, hread⟩, ⟨?_, ?_⟩, hgoes⟩
          · rw [List.flatten_cons, ← List.append_assoc, ← List.append_assoc]
            exact hextends.cuts
          · rw [hextends.taken, hmore.taken, List.filterMap_append, List.append_assoc]

/-- The frame that a datagram is passed on in. -/
def passedOn (textual : Bytes → Bool) (x : Bytes) : Reply :=
  .frame (if textual x then .text else .binary) x

/-- Nothing is in the buffer, and what is sent to the client is taken. -/
structure PassingOn (route : Route σ) (c : Connection σ) : Prop where
  hasRoute : c.route = some route
  peerBuffer : c.peerBuffer = []
  toClient : c.toClient.TakesAll

variable {textual : Bytes → Bool}

theorem takePeerBytes_passed (hrule : PassesOn textual route.framing.rule) (hc : PassingOn route c)
    {x : Bytes} (hx : x ≠ []) :
    ∃ d, takePeerBytes x c = (none, d) ∧ PassingOn route d ∧
      d.toClient.taken = c.toClient.taken ++ [passedOn textual x] := by
  have hbuffer : c.peerBuffer ++ x = x := by rw [hc.peerBuffer, List.nil_append]
  have hasked : ({ c with peerBuffer := x } : Connection σ).answer route x.length =
      (.ok ⟨x.length, if textual x then .text else .binary⟩, c.memory) := hrule _ _ _ _
  have hpositive : x.length ≠ 0 := fun h => hx (List.length_eq_zero_iff.mp h)
  have hkind : (if textual x then MessageKind.text else .binary).opcode? =
      some (if textual x then .text else .binary) := by
    split <;> rfl
  have hoffer := hc.toClient.offer (.frame (if textual x then .text else .binary) x)
  let d : Connection σ :=
    { c with
      toClient := (c.toClient.offer (passedOn textual x)).2
      peerBuffer := [] }
  have hstep : ({ c with peerBuffer := x } : Connection σ).forwardStep x.length = .again d := by
    rw [forwardStep_asked (c := { c with peerBuffer := x }) hc.hasRoute hx, hasked]
    dsimp only [useCut]
    rw [if_neg hpositive, if_neg (Nat.lt_irrefl _), hkind]
    dsimp only
    rw [List.take_length]
    simp only [d, passedOn, hoffer, dropUnit, List.drop_length]
  have hforward : forward x.length { c with peerBuffer := x } = (.ok (), d) :=
    (Loop.run_again hstep).trans (Loop.run_done (forwardStep_idle (.inr rfl)))
  refine ⟨d, ?_, ⟨hc.hasRoute, rfl, ?_⟩, ?_⟩
  · rw [takePeerBytes, hbuffer, hforward]
    rfl
  · show Outlet.TakesAll (c.toClient.offer _).2
    rw [hc.toClient.offer]
    exact hc.toClient
  · show (c.toClient.offer _).2.taken = _
    rw [Outlet.taken_offer, hc.toClient.offer]
    rfl

/-- **A framing that passes on all there is makes one frame of every datagram that is not empty**,
up to the first that is as long as the buffer. -/
theorem takeDatagrams_passed (hrule : PassesOn textual route.framing.rule) (hc : PassingOn route c)
    (xs : List Bytes) :
    PassingOn route (takeDatagrams xs c).2 ∧
      (takeDatagrams xs c).2.toClient.taken = c.toClient.taken ++
        ((xs.takeWhile (·.length < bufferCapacity)).filter (· ≠ [])).map (passedOn textual) ∧
      (takeDatagrams xs c).1.map (·.1) =
        if ∀ x ∈ xs, x.length < bufferCapacity then none else some peerOverflow := by
  induction xs generalizing c with
  | nil => exact ⟨hc, (List.append_nil _).symm, rfl⟩
  | cons x xs ih =>
      have hroom : peerRoom c = bufferCapacity := by rw [peerRoom, hc.peerBuffer]; rfl
      by_cases hlong : bufferCapacity ≤ x.length
      · have hnot : ¬ x.length < bufferCapacity := Nat.not_lt.mpr hlong
        rw [takeDatagrams_long (hroom ▸ hlong), List.takeWhile_cons_of_neg (by simpa using hlong),
          if_neg fun h => hnot (h x List.mem_cons_self)]
        exact ⟨hc, (List.append_nil _).symm, rfl⟩
      · have hshort : x.length < bufferCapacity := Nat.not_le.mp hlong
        rw [List.takeWhile_cons_of_pos (by simpa using hshort)]
        simp only [List.forall_mem_cons, hshort, true_and]
        by_cases hx : x = []
        · subst hx
          have hempty : Awaiting route c :=
            ⟨hc.hasRoute, by rw [hroom]; decide, .inl hc.peerBuffer⟩
          rw [takeDatagrams_taken (hroom ▸ hshort) (takePeerBytes_nil hrule.waitsOn hempty),
            List.filter_cons_of_neg (by decide)]
          exact ih hc
        · obtain ⟨d, ht, hd, htaken⟩ := takePeerBytes_passed hrule hc hx
          obtain ⟨hafter, htaken', herror⟩ := ih hd
          rw [takeDatagrams_taken (hroom ▸ hshort) ht, List.filter_cons_of_pos (by simpa using hx),
            List.map_cons]
          refine ⟨hafter, ?_, herror⟩
          rw [htaken', htaken, List.append_assoc, List.singleton_append]

end Connection

end WsRelay
