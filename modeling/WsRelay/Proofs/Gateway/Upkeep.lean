import WsRelay.Proofs.Connection.Coherence
import WsRelay.Proofs.Gateway.Incidents
import WsRelay.Proofs.Gateway.Waits
/-! # No connection is left unwatched

A gateway is `WellKept` if its waits are linked to its connections, every registered connection
waits for each socket that something may come from, and nothing else is pending.  Every event keeps
it so (`step_wellKept`), in whatever order clients are accepted and waits are over, and so it is
between the events of any run (`run_watched`).

A connection takes up a socket of the process, and a process has no more than `socketLimit` of them
at a time.  This keeps the slots within the numbers that there are for them. -/

namespace WsRelay

/-- The client that is accepted, if one is. -/
def Event.client? : Event → Option Accepted
  | accept client => some client
  | _ => none

namespace Connection

variable {σ : Type} {id : SlotId} {c d : Connection σ}

/-! ### Registered connections -/

/-- What holds of a connection as long as it is registered. -/
structure Registered (id : SlotId) (c : Connection σ) : Prop where
  named : c.id = id
  opened : c.phase ≠ .closed
  coherent : Coherent c
  aborted : c.aborted = []
  /-- It waits for no socket that nothing may come from. -/
  watch : ∀ side, (c.watch? side).isSome → c.isWatchable side

/-- A connection waits for every socket that something may come from. -/
def Attended (c : Connection σ) : Prop :=
  ∀ side, c.isWatchable side → (c.watch? side).isSome

theorem registered_connection (client : Accepted) (id : SlotId) :
    Registered id (client.connection id : Connection σ) where
  named := rfl
  opened := nofun
  coherent := {
    peer := ⟨nofun, nofun⟩
    route := ⟨nofun, nofun⟩
    memory := fun h => absurd rfl h
    peerBuffer := fun h => absurd rfl h
    clientFits := Nat.zero_le _
    peerFits := Nat.zero_le _ }
  aborted := rfl
  watch side := by cases side <;> exact nofun

/-- A connection that stays is registered as before. -/
theorem Registered.of_stays (h : Registered id c) (hstays : Stays c d) (hmoves : Moves c d) :
    Registered id d where
  named := hstays.id.trans h.named
  opened := hstays.opened h.opened
  coherent := hmoves.coherent h.coherent
  aborted := hstays.aborted.trans h.aborted
  watch side hwatch := by
    cases side with
    | client => rfl
    | peer =>
        rw [hstays.watch?] at hwatch
        have hreadable := h.watch .peer hwatch
        have hpeer : c.peer.isSome := by
          obtain ⟨socket, hsocket, -⟩ := (Option.any_eq_true _ _).mp hreadable
          rw [hsocket]
          rfl
        rw [isWatchable_congr (hstays.readable (h.coherent.peer.mp hpeer))]
        exact hreadable

theorem Registered.endWatch (h : Registered id c) (side : Side) :
    Registered id (c.endWatch side) where
  named := by cases side <;> exact h.named
  opened := by cases side <;> exact h.opened
  coherent := (apply_moves (.endWatch side) c).coherent h.coherent
  aborted := by cases side <;> exact h.aborted
  watch other hwatch := by
    rw [watch?_endWatch] at hwatch
    split at hwatch
    · cases hwatch
    · rw [← isWatchable_bare, bare_endWatch, isWatchable_bare]
      exact h.watch other hwatch

/-- Whatever a connection makes of an incident, it is registered as before. -/
theorem Registered.apply (h : Registered id c) (router : Router σ) (incident : Incident) :
    Registered id (incident.apply router c).2 := by
  have hmeet : Registered id (incident.meet c) := by
    cases incident with
    | ready side fault => exact h.endWatch side
    | _ => exact h
  exact hmeet.of_stays (Gateway.apply_stays router incident c)
    (Gateway.apply_moves router incident c)

theorem Registered.beginWatch (h : Registered id c) {side : Side}
    (hlacks : Gateway.lacksWatch c side = true) (watch : Watch) :
    Registered id (c.beginWatch side watch) := by
  rw [lacksWatch_eq, Bool.and_eq_true, Option.isNone_iff_eq_none] at hlacks
  obtain ⟨hnone, hwatchable⟩ := hlacks
  refine {
    named := by cases side <;> exact h.named
    opened := by cases side <;> exact h.opened
    coherent := (apply_moves (.beginWatch side watch) c).coherent h.coherent
    aborted := ?_
    watch := fun other hother => ?_ }
  · show c.aborted ++ (c.watch? side).toList = []
    rw [hnone, h.aborted]
    rfl
  · rw [← isWatchable_bare, bare_beginWatch, isWatchable_bare]
    rw [watch?_beginWatch] at hother
    split at hother
    · next heq => exact heq ▸ hwatchable
    · exact h.watch other hother

end Connection

namespace Gateway

open Connection

variable {σ : Type} {g : Gateway σ} {s t : Slots (Connection σ)} {id : SlotId} {c : Connection σ}

/-! ### Waits that connections know -/

/-- The name that a registered connection knows for the wait of a side. -/
def watchOf (s : Slots (Connection σ)) (id : SlotId) (side : Side) : Option Watch :=
  (s.get? id).bind (·.watch? side)

theorem watchOf_eq (hget : s.get? id = some c) : watchOf s id = c.watch? := by
  funext side
  rw [watchOf, hget]
  rfl

theorem watchOf_modify (hget : s.get? id = some c) (f : Connection σ → Connection σ) :
    watchOf (s.modify id f) = fun other side =>
      if other = id then (f c).watch? side else watchOf s other side := by
  funext other side
  by_cases hother : other = id
  · rw [if_pos hother, hother, watchOf_eq (Slots.get?_modify_self hget f)]
  · rw [if_neg hother, watchOf, Slots.get?_modify_other f hother]
    rfl

theorem watchOf_remove (s : Slots (Connection σ)) (id : SlotId) :
    watchOf (s.remove id).2 = fun other side =>
      if other = id then none else watchOf s other side := by
  funext other side
  by_cases hother : other = id
  · rw [if_pos hother, hother, watchOf, Slots.get?_remove_self]
    rfl
  · rw [if_neg hother, watchOf, Slots.get?_remove_other hother]
    rfl

theorem watchOf_same (hget : s.get? id = some c) :
    (fun other side => if other = id then c.watch? side else watchOf s other side) =
      watchOf s := by
  funext other side
  by_cases hother : other = id
  · rw [if_pos hother, hother, watchOf_eq hget]
  · rw [if_neg hother]

theorem watchOf_adds (h : Slots.Adds s t id c) (hc : c.watch? = fun _ => none) :
    watchOf t = watchOf s := by
  funext other side
  by_cases hother : other = id
  · rw [hother, watchOf_eq h.get?_self, hc, watchOf, h.get?_none]
    rfl
  · rw [watchOf, h.get?_other hother]
    rfl

/-- Another wait for one side of a connection. -/
theorem watchOf_side (hget : s.get? id = some c) (side : Side) (watch : Option Watch) :
    (fun other side' => if other = id ∧ side' = side then watch else watchOf s other side') =
      fun other side' => if other = id then (if side' = side then watch else c.watch? side')
        else watchOf s other side' := by
  funext other side'
  by_cases hother : other = id
  · rw [if_pos hother, hother, watchOf_eq hget]
    simp
  · rw [if_neg hother, if_neg fun h => hother h.1]

/-! ### Gateways in order -/

/-- The most sockets a process has at a time: they are numbered with 31 bits. -/
def socketLimit : Nat := 2 ^ 31

/-- What holds of a gateway also while it deals with an event. -/
structure Regular (g : Gateway σ) : Prop where
  tidy : g.connections.Tidy
  capacity_le : g.connections.capacity ≤ socketLimit
  registered : ∀ id c, g.connections.get? id = some c → Registered id c
  linked : Linked g.waits g.aborted g.nextWatch (watchOf g.connections)

/-- What holds of a gateway between events. -/
structure WellKept (g : Gateway σ) : Prop extends Regular g where
  attended : ∀ id c, g.connections.get? id = some c → Attended c

theorem Regular.capacity_lt (h : Regular g) : g.connections.capacity < 2 ^ 32 :=
  Nat.lt_of_le_of_lt h.capacity_le (by decide)

theorem wellKept_empty (backend : Backend σ) : WellKept ({ backend } : Gateway σ) where
  tidy := Slots.tidy_empty
  capacity_le := Nat.zero_le _
  registered _ _ h := nomatch h
  linked := .start
  attended _ _ h := nomatch h

/-- A connection is changed, and what is waited for with it. -/
theorem Regular.put (h : Regular g) (hget : g.connections.get? id = some c)
    {f : Connection σ → Connection σ} (hf : Registered id (f c)) {waits : List Wait} {next : Watch}
    (hlinked : Linked waits g.aborted next fun other side =>
      if other = id then (f c).watch? side else watchOf g.connections other side) :
    Regular { g with
      connections := g.connections.modify id f, waits := waits, nextWatch := next } where
  tidy := h.tidy.modify id f
  capacity_le := by
    rw [Slots.capacity_modify]
    exact h.capacity_le
  registered := Slots.forall_get?_modify hget h.registered hf
  linked := by
    rw [watchOf_modify hget]
    exact hlinked

theorem Regular.await (h : Regular g) (hget : g.connections.get? id = some c) {side : Side}
    (hlacks : lacksWatch c side = true) : Regular (g.await id side) := by
  have hnone : watchOf g.connections id side = none := by
    rw [lacksWatch_eq, Bool.and_eq_true, Option.isNone_iff_eq_none] at hlacks
    rw [watchOf_eq hget]
    exact hlacks.1
  refine h.put hget ((h.registered id c hget).beginWatch hlacks g.nextWatch) ?_
  have hlinked := h.linked.begin hnone
  rw [watchOf_side hget] at hlinked
  simpa only [watch?_beginWatch] using hlinked

theorem close_eq (hget : g.connections.get? id = some c) (t : Termination) :
    g.close id t = { g with
      connections := (g.connections.remove id).2
      aborted := g.aborted ++ (c.close t).aborted
      finished := g.finished ++ [c.close t] } := by
  unfold close
  rw [Slots.remove_eq hget]

theorem Regular.close (h : Regular g) (hget : g.connections.get? id = some c) (t : Termination) :
    Regular (g.close id t) := by
  have hc := h.registered id c hget
  rw [close_eq hget]
  exact {
    tidy := h.tidy.remove hget
    capacity_le := by
      rw [Slots.capacity_remove]
      exact h.capacity_le
    registered := Slots.forall_get?_remove h.registered
    linked := by
      rw [watchOf_remove]
      refine h.linked.callOff fun watch => ?_
      rw [mem_aborted_close hc.opened, hc.aborted, watchOf_eq hget]
      simp }

/-! ### Watching a connection -/

theorem watchSide_cases (hget : g.connections.get? id = some c) (side : Side) :
    (lacksWatch c side = true ∧ g.watchSide id side = g.await id side) ∨
      (lacksWatch c side = false ∧ g.watchSide id side = g) := by
  unfold watchSide
  rw [hget]
  cases h : lacksWatch c side with
  | true => exact .inl ⟨rfl, if_pos h⟩
  | false => exact .inr ⟨rfl, if_neg (h ▸ Bool.false_ne_true)⟩

/-- What watching one side of a connection leads to. -/
theorem watchSide_regular (h : Regular g) (hget : g.connections.get? id = some c) (side : Side) :
    Regular (g.watchSide id side) ∧ ∃ d, (g.watchSide id side).connections.get? id = some d ∧
      d.bare = c.bare ∧ (c.isWatchable side → (d.watch? side).isSome) ∧
      ∀ other, (c.watch? other).isSome → (d.watch? other).isSome := by
  rcases watchSide_cases hget side with ⟨hlacks, heq⟩ | ⟨hlacks, heq⟩
  · rw [heq]
    refine ⟨h.await hget hlacks, _, Slots.get?_modify_self hget _, bare_beginWatch _ _ _, ?_, ?_⟩
    · intro _
      rw [watch?_beginWatch, if_pos rfl]
      rfl
    · intro other hother
      rw [watch?_beginWatch]
      split
      · rfl
      · exact hother
  · rw [heq]
    refine ⟨h, c, hget, rfl, fun hwatchable => ?_, fun _ hother => hother⟩
    rw [lacksWatch_eq, hwatchable, Bool.and_true] at hlacks
    rwa [← Option.not_isNone, Bool.not_eq_true']

/-- Watching a connection leads to its being attended. -/
theorem watch_regular (h : Regular g) (hget : g.connections.get? id = some c) :
    Regular (g.watch id) ∧ ∃ d, (g.watch id).connections.get? id = some d ∧ d.bare = c.bare ∧
      Attended d := by
  obtain ⟨hfirst, d, hd, hbare, hclient, -⟩ := watchSide_regular h hget .client
  obtain ⟨hsecond, e, he, hbare', hpeer, hkept⟩ := watchSide_regular hfirst hd .peer
  refine ⟨hsecond, e, he, hbare'.trans hbare, fun side hwatchable => ?_⟩
  cases side with
  | client => exact hkept .client (hclient rfl)
  | peer =>
      refine hpeer ?_
      rw [← isWatchable_bare, ← hbare', isWatchable_bare]
      exact hwatchable

/-! ### Events -/

/-- A wait that a connection knows is answered when it is over. -/
theorem Regular.answered?_eq (h : Regular g) (hget : g.connections.get? id = some c) {side : Side}
    {watch : Watch} (hwatch : c.watch? side = some watch) :
    g.answered? watch = some (⟨watch, id, side⟩, c) := by
  have hknown : watchOf g.connections id side = some watch := by
    rw [watchOf_eq hget]
    exact hwatch
  have hlive := ((h.linked.known_iff ⟨watch, id, side⟩).mp hknown).2
  unfold answered?
  rw [h.linked.find?_eq hknown]
  dsimp only
  rw [if_neg fun hmem => hlive (List.contains_iff_mem.mp hmem), hget]
  rfl

/-- What a connection makes of an incident is put back. -/
theorem Regular.putBack (h : Regular g) {event : Event} {incident : Incident}
    (hconcern : g.concern? event = some (id, incident)) (hget : g.connections.get? id = some c) :
    Regular { g.heard event with
      connections := g.connections.modify id fun _ => (incident.apply g.backend.route c).2 } := by
  have hregistered := (h.registered id c hget).apply g.backend.route incident
  have hwatch := (apply_stays g.backend.route incident c).watch?
  have hsame : Linked g.waits g.aborted g.nextWatch fun other side =>
      if other = id then c.watch? side else watchOf g.connections other side := by
    rw [watchOf_same hget]
    exact h.linked
  cases event with
  | accept client => cases hconcern
  | ready watch fault =>
      obtain ⟨⟨wait, c'⟩, hanswered, heq⟩ := Option.map_eq_some_iff.mp hconcern
      obtain ⟨hmem, rfl, hlive, -⟩ := answered?_eq_some hanswered
      cases heq
      have hlinked := h.linked.isOver ((h.linked.known_iff wait).mpr ⟨hmem, hlive⟩)
      rw [watchOf_side hget] at hlinked
      refine h.put hget hregistered ?_
      rw [hwatch]
      show Linked _ _ _ fun other side =>
        if other = wait.id then (c.endWatch wait.side).watch? side else watchOf _ other side
      simp only [watch?_endWatch]
      exact hlinked
  | arrive target side bytes =>
      obtain ⟨c', -, heq⟩ := Option.map_eq_some_iff.mp hconcern
      cases heq
      refine h.put hget hregistered ?_
      rw [hwatch]
      exact hsame
  | hangUp target side tail =>
      obtain ⟨c', -, heq⟩ := Option.map_eq_some_iff.mp hconcern
      cases heq
      refine h.put hget hregistered ?_
      rw [hwatch]
      exact hsame

/-- How a gateway has dealt with what its connection made of an incident. -/
inductive Dealt (g g' : Gateway σ) (id : SlotId) : Option Verdict × Connection σ → Prop
  /-- There is no verdict, and the connection is put back. -/
  | quiet {d : Connection σ} (hget : g'.connections.get? id = some d)
      (hfinished : g'.finished = g.finished) : Dealt g g' id (none, d)
  /-- It is put back, and its sockets are watched. -/
  | goesOn {d : Connection σ} (e : Connection σ) (hget : g'.connections.get? id = some e)
      (hbare : e.bare = d.bare) (hattended : Attended e) (hfinished : g'.finished = g.finished) :
      Dealt g g' id (some .continue, d)
  /-- It is closed, and gone. -/
  | closed {d : Connection σ} {t : Termination} (hgone : g'.connections.get? id = none)
      (hfinished : g'.finished = g.finished ++ [d.close t]) : Dealt g g' id (some (.close t), d)

theorem step_dealt (h : Regular g) {event : Event} {incident : Incident}
    (hconcern : g.concern? event = some (id, incident)) (hget : g.connections.get? id = some c) :
    Regular (g.step event) ∧ Dealt g (g.step event) id (incident.apply g.backend.route c) := by
  obtain ⟨c', hget', hstep⟩ := step_concern hconcern
  obtain rfl := Option.some.inj (hget.symm.trans hget')
  have hput := h.putBack hconcern hget
  have hgetPut := Slots.get?_modify_self hget fun _ => (incident.apply g.backend.route c).2
  have hfinished := finished_heard g event
  rw [← connections_heard g event] at hput hgetPut
  rw [hstep]
  generalize incident.apply g.backend.route c = r at hput hgetPut
  rcases r with ⟨_ | _ | t, d⟩
  · exact ⟨hput, .quiet hgetPut hfinished⟩
  · obtain ⟨hregular, e, he, hbare, hattended⟩ := watch_regular hput hgetPut
    exact ⟨hregular, .goesOn e he hbare hattended ((finished_watch _ _).trans hfinished)⟩
  · rw [settle_close]
    refine ⟨hput.close hgetPut t, ?_⟩
    rw [close_eq hgetPut]
    exact .closed (Slots.get?_remove_self _ _) (congrArg (· ++ [d.close t]) hfinished)

/-- The connections that an event does not concern are as they were. -/
theorem get?_step_other {event : Event} {incident : Incident} {other : SlotId}
    (hconcern : g.concern? event = some (id, incident)) (hne : other ≠ id) :
    (g.step event).connections.get? other = g.connections.get? other := by
  obtain ⟨c, -, hstep⟩ := step_concern hconcern
  rw [hstep, get?_settle_other hne, connections_heard]

/-- An event that concerns a connection keeps everything in order. -/
theorem step_concern_wellKept (h : WellKept g) {event : Event} {incident : Incident}
    (hconcern : g.concern? event = some (id, incident)) : WellKept (g.step event) := by
  obtain ⟨c, hget, -⟩ := step_concern hconcern
  obtain ⟨hregular, hdealt⟩ := step_dealt h.toRegular hconcern hget
  refine { hregular with attended := fun other e hother => ?_ }
  by_cases hne : other = id
  · subst hne
    generalize happly : incident.apply g.backend.route c = r at hdealt
    cases hdealt with
    | @quiet d hd =>
        have hquiet := apply_quiet g.backend.route (congrArg Prod.fst happly)
        rw [happly] at hquiet
        obtain rfl : d = e := Option.some.inj (hd.symm.trans hother)
        intro side hwatchable
        rw [hquiet.1]
        rw [hquiet.2] at hwatchable
        exact h.attended other c hget side hwatchable
    | goesOn d hd hbare hattended =>
        obtain rfl : d = e := Option.some.inj (hd.symm.trans hother)
        exact hattended
    | closed hgone =>
        rw [hgone] at hother
        cases hother
  · rw [get?_step_other hconcern hne] at hother
    exact h.attended other e hother

/-- An event that concerns no connection keeps everything in order. -/
theorem heard_wellKept (h : WellKept g) {event : Event} (hconcern : g.concern? event = none) :
    WellKept (g.heard event) := by
  cases event with
  | ready watch fault =>
      -- a wait that is known would be answered
      refine { h with linked := h.linked.unknown fun id side hknown => ?_ }
      obtain ⟨c, hget, hwatch⟩ := Option.bind_eq_some_iff.mp hknown
      have hnone := Option.map_eq_none_iff.mp hconcern
      rw [h.answered?_eq hget hwatch] at hnone
      cases hnone
  | _ => exact h

/-- The connection of an accepted client is added. -/
theorem Regular.add (h : Regular g) (client : Accepted)
    (hsize : (g.accept client).connections.size ≤ socketLimit) :
    Slots.Adds g.connections (g.connections.add client.connection).2 g.connections.nextId
        (client.connection g.connections.nextId) ∧
      Regular { g with connections := (g.connections.add client.connection).2 } := by
  have hadds := h.tidy.adds h.capacity_lt client.connection
  rw [Slots.add_fst] at hadds
  rw [accept_eq, size_watch] at hsize
  refine ⟨hadds, {
    tidy := hadds.tidy h.tidy
    capacity_le := Nat.le_trans hadds.capacity_le (Nat.max_le.mpr ⟨h.capacity_le, hsize⟩)
    registered := hadds.forall_get? h.registered (registered_connection client _)
    linked := ?_ }⟩
  rw [watchOf_adds hadds (by funext side; cases side <;> rfl)]
  exact h.linked

theorem accept_wellKept (h : WellKept g) (client : Accepted)
    (hsize : (g.accept client).connections.size ≤ socketLimit) : WellKept (g.accept client) := by
  obtain ⟨hadds, hregular⟩ := h.add client hsize
  obtain ⟨hwatched, d, hd, -, hattended⟩ := watch_regular hregular hadds.get?_self
  refine { hwatched with attended := fun other e hother => ?_ }
  by_cases hne : other = g.connections.nextId
  · subst hne
    obtain rfl : d = e := Option.some.inj (hd.symm.trans hother)
    exact hattended
  · rw [accept_eq, get?_watch_other hne] at hother
    exact h.attended other e ((hadds.get?_other hne).symm.trans hother)

/-- Every event keeps a gateway in order. -/
theorem step_wellKept (h : WellKept g) (event : Event)
    (hsize : (g.step event).connections.size ≤ socketLimit) : WellKept (g.step event) := by
  cases hconcern : g.concern? event with
  | some concern => exact step_concern_wellKept h hconcern
  | none =>
      by_cases haccept : ∃ client, event = .accept client
      · obtain ⟨client, rfl⟩ := haccept
        exact accept_wellKept h client hsize
      · rw [step_unconcerned hconcern fun client heq => haccept ⟨client, heq⟩]
        exact heard_wellKept h hconcern

/-! ### Runs -/

/-- The process has sockets enough for the connections at any time. -/
def SocketsSuffice (g : Gateway σ) (events : List Event) : Prop :=
  ∀ before, before <+: events → (g.run before).connections.size ≤ socketLimit

theorem SocketsSuffice.head {event : Event} {events : List Event}
    (h : g.SocketsSuffice (event :: events)) : (g.step event).connections.size ≤ socketLimit :=
  h [event] (List.prefix_append [event] events)

theorem SocketsSuffice.tail {event : Event} {events : List Event}
    (h : g.SocketsSuffice (event :: events)) : (g.step event).SocketsSuffice events :=
  fun before hbefore => h (event :: before) ((List.prefix_cons_inj event).mpr hbefore)

theorem run_wellKept {events : List Event} (h : WellKept g) (hsockets : g.SocketsSuffice events) :
    WellKept (g.run events) := by
  induction events generalizing g with
  | nil => exact h
  | cons event events ih => exact ih (step_wellKept h event hsockets.head) hsockets.tail

/-- The clients that are accepted in the course of events. -/
def clients (events : List Event) : List Accepted :=
  events.filterMap Event.client?

theorem clients_append (events more : List Event) :
    clients (events ++ more) = clients events ++ clients more :=
  List.filterMap_append

theorem clients_singleton (event : Event) : clients [event] = event.client?.toList := by
  cases event <;> rfl

theorem size_step_le (g : Gateway σ) (event : Event) :
    (g.step event).connections.size ≤ g.connections.size + (clients [event]).length := by
  cases event with
  | accept client =>
      show (g.accept client).connections.size ≤ _
      rw [accept_eq, size_watch, Slots.size_add]
      exact Nat.le_refl _
  | ready watch fault =>
      cases hconcern : g.concern? (.ready watch fault) with
      | none => exact Nat.le_of_eq (by rw [step_unconcerned hconcern nofun]; rfl)
      | some concern =>
          obtain ⟨c, -, hstep⟩ := step_concern hconcern
          rw [hstep]
          exact size_settle_le _ _ _
  | arrive id side bytes => exact Nat.le_of_eq (Slots.size_modify _ _ _)
  | hangUp id side tail => exact Nat.le_of_eq (Slots.size_modify _ _ _)

theorem size_run_le (g : Gateway σ) (events : List Event) :
    (g.run events).connections.size ≤ g.connections.size + (clients events).length := by
  induction events generalizing g with
  | nil => exact Nat.le_refl _
  | cons event events ih =>
      have hstep := size_step_le g event
      have hlength : (clients (event :: events)).length =
          (clients [event]).length + (clients events).length := by
        rw [← List.length_append, ← clients_append]
        rfl
      have hrest := ih (g.step event)
      show ((g.step event).run events).connections.size ≤ _
      omega

/-- There are sockets for as many clients as a process can have. -/
theorem socketsSuffice_of_clients (backend : Backend σ) {events : List Event}
    (h : (clients events).length ≤ socketLimit) :
    ({ backend } : Gateway σ).SocketsSuffice events := by
  rintro before ⟨after, rfl⟩
  have hsize := size_run_le ({ backend } : Gateway σ) before
  rw [clients_append, List.length_append] at h
  have hempty : ({ backend } : Gateway σ).connections.size = 0 := rfl
  omega

/-! ### What is pending -/

/-- The waits that are not over and were not called off. -/
def pending (g : Gateway σ) : List Wait :=
  g.waits.filter (!g.aborted.contains ·.watch)

/-- How many of them are for a side of a connection. -/
def pendingFor (g : Gateway σ) (id : SlotId) (side : Side) : Nat :=
  g.pending.countP fun wait => wait.id = id ∧ wait.side = side

theorem WellKept.pendingFor_eq (h : WellKept g) (hget : g.connections.get? id = some c)
    (side : Side) : g.pendingFor id side = if c.isWatchable side then 1 else 0 := by
  have hiff : (c.watch? side).isSome = c.isWatchable side :=
    Bool.eq_iff_iff.mpr ⟨(h.registered id c hget).watch side, h.attended id c hget side⟩
  rw [pendingFor, pending, h.linked.countP_pending, watchOf_eq hget, hiff]

theorem WellKept.pending_registered (h : WellKept g) {wait : Wait} (hwait : wait ∈ g.pending) :
    (g.connections.get? wait.id).isSome := by
  obtain ⟨hmem, hlive⟩ := List.mem_filter.mp hwait
  have hknown := (h.linked.known_iff wait).mpr ⟨hmem, fun haborted => by
    rw [List.contains_iff_mem.mpr haborted] at hlive
    cases hlive⟩
  obtain ⟨c, hget, -⟩ := Option.bind_eq_some_iff.mp hknown
  rw [hget]
  rfl

/-- A wait that was called off, or whose connection is gone, is not answered. -/
theorem answered?_eq_none {watch : Watch}
    (h : watch ∈ g.aborted ∨
      ∀ wait ∈ g.waits, wait.watch = watch → g.connections.get? wait.id = none) :
    g.answered? watch = none := by
  rw [Option.eq_none_iff_forall_ne_some]
  rintro ⟨wait, c⟩ hanswered
  obtain ⟨hmem, hname, hlive, hget⟩ := answered?_eq_some hanswered
  rcases h with haborted | hgone
  · exact hlive haborted
  · rw [hgone wait hmem hname] at hget
    cases hget

/-- **No connection is left unwatched.**  Whatever backend is asked for peers, and in whatever order
clients are accepted, bytes arrive and waits are over, every registered connection has one wait
pending for its client, and one for its peer if it has a peer that can be read and none otherwise;
and no wait is pending for anybody else.  When a wait is over that was called off, or whose
connection is gone, nothing but the wait is forgotten, and what arrives for a connection that is gone
changes nothing. -/
theorem run_watched (backend : Backend σ) {events : List Event}
    (hsockets : ({ backend } : Gateway σ).SocketsSuffice events) :
    let g := ({ backend } : Gateway σ).run events
    (∀ id c, g.connections.get? id = some c → g.pendingFor id .client = 1 ∧
      g.pendingFor id .peer = if c.peer.any (·.isReadable) then 1 else 0) ∧
    (∀ wait ∈ g.pending, (g.connections.get? wait.id).isSome) ∧
    (∀ watch fault,
      (watch ∈ g.aborted ∨
        ∀ wait ∈ g.waits, wait.watch = watch → g.connections.get? wait.id = none) →
      g.step (.ready watch fault) = { g with waits := g.waits.filter (·.watch != watch) }) ∧
    ∀ id, g.connections.get? id = none →
      (∀ side bytes, g.step (.arrive id side bytes) = g) ∧
      ∀ side tail, g.step (.hangUp id side tail) = g := by
  intro g
  have h : WellKept g := run_wellKept (wellKept_empty backend) hsockets
  refine ⟨fun id c hget => ⟨h.pendingFor_eq hget .client, h.pendingFor_eq hget .peer⟩,
    fun wait => h.pending_registered, fun watch fault hstale => ?_, fun id hnone => ⟨?_, ?_⟩⟩
  · exact ready_unanswered (answered?_eq_none hstale) fault
  · exact fun side bytes => step_unconcerned (Option.map_eq_none_iff.mpr hnone) nofun
  · exact fun side tail => step_unconcerned (Option.map_eq_none_iff.mpr hnone) nofun

/-- One of two connections is upgraded, and closed because its client's socket fails. -/
theorem run_watched_closed :
    let request := Utf8.encode ("GET / HTTP/1.1\r\nSec-WebSocket-Version: 13\r\n" ++
      "Sec-WebSocket-Key: key\r\nUpgrade: websocket\r\nConnection: Upgrade\r\n\r\n")
    let client : Accepted :=
      { fromClient := { waiting := request }, dial := fun _ => .ok (.stream {}) }
    let backend : Backend Unit := (SinglePeer.new .standard).toBackend
    let events : List Event :=
      [.accept client, .ready 0 none, .accept client, .ready 1 (some .unsupported)]
    let g := ({ backend } : Gateway Unit).run events
    ({ backend } : Gateway Unit).SocketsSuffice events ∧ 2 ∈ g.aborted ∧
      g.step (.ready 2 none) = { g with waits := g.waits.filter (·.watch != 2) } ∧
      g.pendingFor ⟨1, 0⟩ .client = 1 ∧ g.pendingFor ⟨1, 0⟩ .peer = 0 := by
  intro request client backend events g
  have hsockets : ({ backend } : Gateway Unit).SocketsSuffice events :=
    socketsSuffice_of_clients backend (by decide)
  obtain ⟨haborted, hfound⟩ : 2 ∈ g.aborted ∧
      ((g.connections.get? ⟨1, 0⟩).any fun c => !c.peer.any (·.isReadable)) = true := by
    decide +kernel
  obtain ⟨hpending, -, hstale, -⟩ := run_watched backend hsockets
  obtain ⟨c, hget, hpeer⟩ := (Option.any_eq_true _ _).mp hfound
  obtain ⟨hone, hnone⟩ := hpending ⟨1, 0⟩ c hget
  rw [if_neg (by simpa using hpeer)] at hnone
  exact ⟨hsockets, haborted, hstale 2 none (.inl haborted), hone, hnone⟩

end Gateway

end WsRelay
