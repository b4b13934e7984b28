import WsRelay.Proofs.Gateway.Isolation
/-! # Every connection is closed once

A connection leaves the registry when it is closed, by a verdict or by the shutdown, and it is closed
when it leaves the registry.  The shutdown goes through a list of identifiers that was made before
the first connection is closed; every one of them still stands for its connection when its turn
comes (`Sweeps`).  So in a run that ends with a shutdown every accepted connection ends up at a place
of its own among the finished ones, closed once, and nothing is left (`run_shutdown`). -/

namespace WsRelay

namespace Connection

variable {σ : Type} {c : Connection σ}

/-! ### Connections that have ended -/

/-- A connection has given everything up. -/
structure Ended (c : Connection σ) : Prop where
  phase : c.phase = .closed
  peer : c.peer = none
  route : c.route = none
  memory : c.memory = .empty
  watch : ∀ side, c.watch? side = none

theorem ended_close (hopen : c.phase ≠ .closed) (hc : Coherent c) (t : Termination) :
    Ended (c.close t) := by
  have hphase := phase_close t c
  have hcoherent := (close_moves t c).coherent hc
  have hnot : (c.close t).phase ≠ .relaying := by
    rw [hphase]
    exact nofun
  refine ⟨hphase, ?_, ?_, ?_, ?_⟩
  · rw [← Option.not_isSome_iff_eq_none, hcoherent.peer]
    exact hnot
  · rw [← Option.not_isSome_iff_eq_none, hcoherent.route]
    exact hnot
  · exact Classical.byContradiction fun hne => hnot (hcoherent.memory hne)
  · unfold close
    rw [if_neg hopen]
    rintro (_ | _) <;> rfl

/-- Nothing is written to a client to which there is nothing to be said. -/
theorem toClient_close {t : Termination} (h : goodbye? c.phase t = none) :
    (c.close t).toClient = c.toClient := by
  unfold close
  split
  · rfl
  · rw [h]
    rfl

end Connection

namespace Gateway

open Connection

variable {σ : Type} {g g' : Gateway σ} {id : SlotId} {c : Connection σ}

/-! ### The sweep -/

/-- How a connection ends that there is when the relay shuts down. -/
def leave : Termination :=
  .close .goingAway "Shutting down"

/-- The connections of some identifiers are closed, one after the other. -/
structure Sweeps (g g' : Gateway σ) (ids : List SlotId) : Prop where
  regular : Regular g'
  length : g'.finished.length = g.finished.length + ids.length
  before : g.finished <+: g'.finished
  /-- Each is the next of the finished ones. -/
  closed : ∀ id ∈ ids, ∀ c, g.connections.get? id = some c →
    g'.finished[g.finished.length + ids.idxOf id]? = some (c.close leave)
  gone : ∀ id ∈ ids, g'.connections.get? id = none
  other : ∀ id ∉ ids, g'.connections.get? id = g.connections.get? id

theorem getElem?_of_prefix {α : Type} {l m : List α} (h : l <+: m) {n : Nat} {a : α}
    (hn : l[n]? = some a) : m[n]? = some a := by
  obtain ⟨rest, rfl⟩ := h
  rwa [List.getElem?_append_left (List.getElem?_eq_some_iff.mp hn).1]

theorem Regular.sweeps (h : Regular g) {ids : List SlotId} (hnodup : ids.Nodup)
    (hids : ∀ id ∈ ids, (g.connections.get? id).isSome) :
    Sweeps g (ids.foldl (fun g id => g.close id leave) g) ids := by
  induction ids generalizing g with
  | nil =>
      exact {
        regular := h
        length := rfl
        before := List.prefix_rfl
        closed := fun _ hmem => absurd hmem List.not_mem_nil
        gone := fun _ hmem => absurd hmem List.not_mem_nil
        other := fun _ _ => rfl }
  | cons first ids ih =>
      obtain ⟨hfirst, hnodup⟩ := List.nodup_cons.mp hnodup
      obtain ⟨c, hget⟩ := Option.isSome_iff_exists.mp (hids first List.mem_cons_self)
      have hfinished : (g.close first leave).finished = g.finished ++ [c.close leave] := by
        rw [close_eq hget]
      have hlength : (g.close first leave).finished.length = g.finished.length + 1 := by
        rw [hfinished, List.length_append]
        rfl
      have hgone : (g.close first leave).connections.get? first = none := by
        rw [close_eq hget]
        exact Slots.get?_remove_self _ _
      have hkept (id : SlotId) (hmem : id ∈ ids) :
          (g.close first leave).connections.get? id = g.connections.get? id :=
        get?_close_other (fun heq : id = first => hfirst (heq ▸ hmem)) leave
      have hrest := ih (h.close hget leave) hnodup fun id hmem => by
        rw [hkept id hmem]
        exact hids id (List.mem_cons_of_mem _ hmem)
      refine {
        regular := hrest.regular
        length := by rw [List.foldl_cons, hrest.length, hlength, List.length_cons]; omega
        before := (hfinished ▸ List.prefix_append _ _ : g.finished <+: _).trans hrest.before
        closed := fun id hmem d hd => ?_
        gone := fun id hmem => ?_
        other := fun id hnot => ?_ }
      · rw [List.foldl_cons]
        by_cases hid : id = first
        · rw [hid] at hd ⊢
          obtain rfl := Option.some.inj (hget.symm.trans hd)
          rw [List.idxOf_cons_self, Nat.add_zero]
          refine getElem?_of_prefix hrest.before ?_
          rw [hfinished, List.getElem?_concat_length]
        · have hmem := (List.mem_cons.mp hmem).resolve_left hid
          rw [List.idxOf_cons_ne _ (Ne.symm hid), ← hrest.closed id hmem d (by rwa [hkept id hmem]),
            hlength]
          congr 1
          omega
      · rw [List.foldl_cons]
        by_cases hmem' : id ∈ ids
        · exact hrest.gone id hmem'
        · obtain rfl := (List.mem_cons.mp hmem).resolve_right hmem'
          rw [hrest.other id hmem', hgone]
      · obtain ⟨hne, hnot⟩ := not_or.mp (List.mem_cons.not.mp hnot)
        rw [List.foldl_cons, hrest.other id hnot]
        exact get?_close_other hne leave

/-! ### The shutdown -/

theorem shutdown_sweeps (h : Regular g) : ∃ swept, Sweeps g swept g.connections.ids ∧
    g.shutdown = { swept with waits := [], backend := swept.backend.reset } := by
  have hids : ∀ id ∈ g.connections.ids, (g.connections.get? id).isSome := fun id hmem =>
    (Slots.mem_ids_iff h.capacity_lt id).mp hmem
  exact ⟨_, h.sweeps (Slots.nodup_ids h.capacity_lt) hids, rfl⟩

/-- Nothing is registered after a sweep over all identifiers. -/
theorem Sweeps.vacant (h : Sweeps g g' g.connections.ids) (hregular : Regular g) (id : SlotId) :
    g'.connections.get? id = none := by
  by_cases hmem : id ∈ g.connections.ids
  · exact h.gone id hmem
  · rw [h.other id hmem, ← Option.not_isSome_iff_eq_none]
    exact fun hsome => hmem ((Slots.mem_ids_iff hregular.capacity_lt id).mpr hsome)

theorem Sweeps.empty (h : Sweeps g g' g.connections.ids) (hregular : Regular g) :
    g'.connections.ids = [] ∧ g'.connections.size = 0 := by
  have hids : g'.connections.ids = [] := List.eq_nil_iff_forall_not_mem.mpr fun id hmem => by
    have hsome := (Slots.mem_ids_iff h.regular.capacity_lt id).mp hmem
    rw [h.vacant hregular id] at hsome
    cases hsome
  refine ⟨hids, ?_⟩
  rw [h.regular.tidy.size, ← Slots.length_ids, hids]
  rfl

/-- Where the connection of a place is after the shutdown. -/
def resting (g : Gateway σ) : Place → Place
  | .registered id => .finished (g.finished.length + g.connections.ids.idxOf id)
  | .finished n => .finished n

/-- How a connection was closed: once, as its last verdict said, or by the shutdown if no verdict was
to close it. -/
inductive ClosedOnce (g : Gateway σ) (life : Life) : Prop
  | verdict {n : Nat} {before : List Verdict} {t : Termination} {d : Connection σ}
      (hplace : life.place = .finished n) (hverdicts : life.verdicts = before ++ [.close t])
      (hbefore : ∀ v ∈ before, v = .continue) (hopen : d.phase ≠ .closed)
      (hclosed : g.finished[n]? = some (d.close t))
      (hrests : g.shutdown.finished[n]? = some (d.close t))
  | shutdown {id : SlotId} {c : Connection σ} (hplace : life.place = .registered id)
      (hverdicts : ∀ v ∈ life.verdicts, v = .continue) (hget : g.connections.get? id = some c)
      (hopen : c.phase ≠ .closed)
      (hrests : g.shutdown.at? (g.resting life.place) = some (c.close leave))

theorem Told.closedOnce {life : Life} (h : Told g life c) (hregular : Regular g) :
    ClosedOnce g life := by
  obtain ⟨swept, hsweeps, hshutdown⟩ := shutdown_sweeps hregular
  cases hplace : life.place with
  | registered id =>
      have hget : g.connections.get? id = some c := by
        have hat := h.at?
        rwa [hplace] at hat
      have hmem : id ∈ g.connections.ids :=
        (Slots.mem_ids_iff hregular.capacity_lt id).mpr (Option.isSome_of_mem hget)
      refine .shutdown hplace (h.goes id hplace) hget (hregular.registered id c hget).opened ?_
      rw [hplace, hshutdown]
      exact hsweeps.closed id hmem c hget
  | finished n =>
      obtain ⟨before, t, d, hverdicts, hbefore, hopen, -, rfl⟩ := h.ends n hplace
      have hclosed : g.finished[n]? = some (d.close t) := by
        have hat := h.at?
        rwa [hplace] at hat
      refine .verdict hplace hverdicts hbefore hopen hclosed ?_
      rw [hshutdown]
      exact getElem?_of_prefix hsweeps.before hclosed

/-- After the shutdown each connection has a place of its own among the finished ones, and nobody
else is there. -/
theorem Faithful.resting_perm {lives : List Life} (h : Faithful g lives) (hregular : Regular g) :
    (lives.map fun life => g.resting life.place).Perm
      ((List.range g.shutdown.finished.length).map .finished) := by
  obtain ⟨swept, hsweeps, hshutdown⟩ := shutdown_sweeps hregular
  have hids (id : SlotId) : id ∈ g.connections.ids ↔ .registered id ∈ lives.map (·.place) :=
    (Slots.mem_ids_iff hregular.capacity_lt id).trans (h.mem_places (.registered id))
  have hfinished (n : Nat) : n < g.finished.length ↔ .finished n ∈ lives.map (·.place) := by
    rw [← h.mem_places, at?]
    simp
  have hlength : g.shutdown.finished.length = g.finished.length + g.connections.ids.length := by
    rw [hshutdown]
    exact hsweeps.length
  have hmap : (lives.map fun life => g.resting life.place) =
      (lives.map (·.place)).map g.resting := by
    rw [List.map_map]
    rfl
  rw [hmap, hlength]
  refine (List.perm_ext_iff_of_nodup ?_ ?_).mpr fun place => ?_
  · refine h.places_nodup.map_on fun p hp q hq heq => ?_
    cases p with
    | registered id =>
        cases q with
        | registered id' =>
            have hidx : g.connections.ids.idxOf id = g.connections.ids.idxOf id' :=
              Nat.add_left_cancel (Place.finished.inj heq)
            rw [List.idxOf_inj ((hids id).mpr hp) |>.mp hidx]
        | finished n =>
            have hlt := (hfinished n).mpr hq
            have hn := Place.finished.inj heq
            omega
    | finished n =>
        cases q with
        | registered id =>
            have hlt := (hfinished n).mpr hp
            have hn := Place.finished.inj heq
            omega
        | finished m => exact heq
  · exact List.nodup_range.map fun _ _ heq => Place.finished.inj heq
  · rw [List.mem_map, List.mem_map]
    constructor
    · rintro ⟨p, hp, rfl⟩
      cases p with
      | registered id =>
          have hlt := List.idxOf_lt_length_of_mem ((hids id).mpr hp)
          exact ⟨_, List.mem_range.mpr (Nat.add_lt_add_left hlt _), rfl⟩
      | finished n =>
          have hlt := (hfinished n).mpr hp
          exact ⟨n, List.mem_range.mpr (by omega), rfl⟩
    · rintro ⟨m, hm, rfl⟩
      have hm := List.mem_range.mp hm
      by_cases hlt : m < g.finished.length
      · exact ⟨.finished m, (hfinished m).mp hlt, rfl⟩
      · have hi : m - g.finished.length < g.connections.ids.length := by omega
        refine ⟨_, (hids _).mp (List.getElem_mem hi), ?_⟩
        rw [resting, (Slots.nodup_ids hregular.capacity_lt).idxOf_getElem _ hi]
        congr 1
        omega

/-- A connection that is at rest has given everything up. -/
theorem Told.ended {life : Life} (h : Told g life c) (hregular : Regular g) :
    ∃ e, g.shutdown.at? (g.resting life.place) = some e ∧ Ended e := by
  cases h.closedOnce hregular with
  | verdict hplace _ _ _ hclosed hrests =>
      obtain ⟨before, t, d, -, -, hopen, hcoherent, rfl⟩ := h.ends _ hplace
      have hat := h.at?
      rw [hplace] at hat ⊢
      exact ⟨_, hrests.trans (hclosed.symm.trans hat), ended_close hopen hcoherent t⟩
  | shutdown hplace _ hget hopen hrests =>
      exact ⟨_, hrests, ended_close hopen (hregular.registered _ _ hget).coherent leave⟩

theorem Faithful.ended {lives : List Life} (h : Faithful g lives) (hregular : Regular g) :
    ∀ e ∈ g.shutdown.finished, Ended e := by
  intro e he
  obtain ⟨n, hn⟩ := List.mem_iff_getElem?.mp he
  have hplace : .finished n ∈ lives.map fun life => g.resting life.place := by
    rw [(h.resting_perm hregular).mem_iff]
    exact List.mem_map_of_mem (List.mem_range.mpr (List.getElem?_eq_some_iff.mp hn).1)
  obtain ⟨life, hlife, hrests⟩ := List.mem_map.mp hplace
  obtain ⟨c, htold⟩ := h.told life hlife
  obtain ⟨e', hat, hended⟩ := htold.ended hregular
  rw [hrests] at hat
  obtain rfl : e = e' := Option.some.inj (hn.symm.trans hat)
  exact hended

/-! ### What clients are told -/

/-- The reason given at the shutdown is not cut. -/
theorem fitting_shuttingDown :
    CloseCode.fitting 123 "Shutting down".toList = Utf8.encode "Shutting down" := by
  decide +kernel

/-- **Every accepted connection is closed exactly once.**  After a run that ends with the shutdown,
whatever backend was asked for peers, each connection is at a place of its own among the finished
ones, with nobody else there; it was closed once, by the last of its verdicts or else by the
shutdown.  Nothing is registered and nothing waited for, and no connection holds a peer or framing
state.  A client whose frames were relayed when the shutdown began is sent a close frame with code
1001 as the last thing, if the write is taken, and was sent none before; a client that was not
upgraded by then is sent nothing. -/
theorem run_shutdown (backend : Backend σ) {events : List Event}
    (hsockets : ({ backend } : Gateway σ).SocketsSuffice events) :
    let g := ({ backend } : Gateway σ).run events
    let after := g.shutdown
    (lives backend events).map (·.client) = clients events ∧
    ((lives backend events).map fun life => g.resting life.place).Perm
      ((List.range after.finished.length).map .finished) ∧
    (∀ life ∈ lives backend events, ClosedOnce g life) ∧
    (after.connections.ids = [] ∧ after.connections.size = 0 ∧
      ∀ id, after.connections.get? id = none) ∧
    after.waits = [] ∧ (∀ e ∈ after.finished, Ended e) ∧
    ∀ life ∈ lives backend events, ∀ id c, life.place = .registered id →
      g.connections.get? id = some c →
      ∃ e, after.at? (g.resting life.place) = some e ∧
        (c.phase = .relaying → LastTaken leave c →
          SaysClose 1001 (Utf8.encode "Shutting down") c e ∧
          (life.client.toClient.taken = [] → ∀ reply ∈ c.toClient.taken, ¬ reply.IsLast)) ∧
        (c.phase ≠ .relaying → e.toClient = c.toClient) := by
  intro g after
  have hkept : WellKept g := run_wellKept (wellKept_empty backend) hsockets
  have hfaithful : Faithful g (lives backend events) := run_faithful backend hsockets
  obtain ⟨swept, hsweeps, hshutdown⟩ := shutdown_sweeps hkept.toRegular
  have hvacant := hsweeps.empty hkept.toRegular
  refine ⟨lives_clients backend events, hfaithful.resting_perm hkept.toRegular,
    fun life hlife => ?_, ?_, rfl, hfaithful.ended hkept.toRegular,
    fun life hlife id c hplace hget => ?_⟩
  · obtain ⟨c, htold⟩ := hfaithful.told life hlife
    exact htold.closedOnce hkept.toRegular
  · show g.shutdown.connections.ids = [] ∧ g.shutdown.connections.size = 0 ∧
      ∀ id, g.shutdown.connections.get? id = none
    rw [hshutdown]
    exact ⟨hvacant.1, hvacant.2, hsweeps.vacant hkept.toRegular⟩
  · obtain ⟨c', htold⟩ := hfaithful.told life hlife
    obtain rfl : c' = c := by
      have hat := htold.at?
      rw [hplace] at hat
      exact Option.some.inj (hat.symm.trans hget)
    have hopen := (hkept.registered id c' hget).opened
    refine ⟨c'.close leave, ?_, fun hphase hlast => ⟨?_, fun hfresh => ?_⟩, fun hphase => ?_⟩
    · cases htold.closedOnce hkept.toRegular with
      | verdict hfinished =>
          rw [hplace] at hfinished
          cases hfinished
      | shutdown hplace' _ hget' _ hrests =>
          obtain rfl := Place.registered.inj (hplace.symm.trans hplace')
          obtain rfl := Option.some.inj (hget.symm.trans hget')
          exact hrests
    · rw [← fitting_shuttingDown]
      exact saysClose_close hphase hlast
    · exact (Dialogue.Until.dialogue (htold.spoken hfresh)).2 hopen
    · refine toClient_close ?_
      cases hc : c'.phase with
      | relaying => exact absurd hc hphase
      | _ => rfl

/-- The relay shuts down with two connections, of which one is upgraded. -/
theorem run_shutdown_upgraded :
    let request := Utf8.encode ("GET / HTTP/1.1\r\nSec-WebSocket-Version: 13\r\n" ++
      "Sec-WebSocket-Key: key\r\nUpgrade: websocket\r\nConnection: Upgrade\r\n\r\n")
    let client : Accepted :=
      { fromClient := { waiting := request }, dial := fun _ => .ok (.stream {}) }
    let backend : Backend Unit := (SinglePeer.new .standard).toBackend
    let events : List Event := [.accept client, .ready 0 none, .accept client]
    let g := ({ backend } : Gateway Unit).run events
    ({ backend } : Gateway Unit).SocketsSuffice events ∧ g.shutdown.waits = [] ∧
      ∃ c e, g.connections.get? ⟨0, 0⟩ = some c ∧ g.shutdown.at? (.finished 0) = some e ∧
        SaysClose 1001 (Utf8.encode "Shutting down") c e := by
  intro request client backend events g
  have hsockets : ({ backend } : Gateway Unit).SocketsSuffice events :=
    socketsSuffice_of_clients backend (by decide)
  obtain ⟨hplaces, hresting, hfound⟩ :
      (lives backend events).map (·.place) = [.registered ⟨0, 0⟩, .registered ⟨1, 0⟩] ∧
      g.resting (.registered ⟨0, 0⟩) = .finished 0 ∧
      ((g.connections.get? ⟨0, 0⟩).any fun c =>
        c.phase = .relaying ∧ c.toClient.accepts c.toClient.offered = true) = true := by
    decide +kernel
  obtain ⟨c, hget, hc⟩ := (Option.any_eq_true _ _).mp hfound
  obtain ⟨hphase, htaken⟩ := of_decide_eq_true hc
  obtain ⟨life, hlife, hplace⟩ : ∃ life ∈ lives backend events, life.place = .registered ⟨0, 0⟩ :=
    List.mem_map.mp (hplaces ▸ List.mem_cons_self)
  obtain ⟨-, -, -, -, hwaits, -, hgoodbye⟩ := run_shutdown backend hsockets
  obtain ⟨e, hat, hfarewell, -⟩ := hgoodbye life hlife _ c hplace hget
  rw [hplace, hresting] at hat
  exact ⟨hsockets, hwaits, c, e, hget, hat, (hfarewell hphase fun _ => htaken).1⟩

end Gateway

end WsRelay
