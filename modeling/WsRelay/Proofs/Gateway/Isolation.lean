import Mathlib.Data.List.Induction
import WsRelay.Proofs.Connection.Farewell
import WsRelay.Proofs.Gateway.Lives
/-! # Connections are isolated from each other

What comes of a connection, for its client, its peer and the gateway, is a matter of its client and
of what it met with itself (`Told.outcome?_eq`).  Each life in a run could have been lived alone:
there is a run of this one client in which every event is its own and is to it what it was among the
others (`lives_alone`).  So the other clients of a gateway, however many there are and whatever they
do, make no difference to it (`run_isolated`). -/

namespace WsRelay.Gateway

open Connection

variable {σ : Type} {backend : Backend σ} {g g' : Gateway σ} {event : Event} {id : SlotId}
  {c c' : Connection σ} {life life' : Life}

/-- What comes of a life: the verdicts, what the client is sent, and what is sent to the peer. -/
def outcome? (g : Gateway σ) (life : Life) : Option (List Verdict × List Reply × List Bytes) :=
  (g.at? life.place).map fun c => (life.verdicts, c.toClient.taken, c.toPeer.taken)

/-! ### The same life in other company -/

theorem Told.bare_eq (h : Told g life c) (h' : Told g' life' c')
    (hrouter : IgnoresId g.backend.route) (hbackend : g'.backend = g.backend)
    (hclient : life'.client = life.client) (hincidents : life'.incidents = life.incidents) :
    c'.bare = c.bare := by
  rw [h.bare hrouter, h'.bare (hbackend ▸ hrouter), hbackend, hclient, hincidents]

/-- What comes of a life is settled by its client and its incidents. -/
theorem Told.outcome?_eq (h : Told g life c) (h' : Told g' life' c')
    (hrouter : IgnoresId g.backend.route) (hbackend : g'.backend = g.backend)
    (hclient : life'.client = life.client)
    (hincidents : life'.incidents = life.incidents) : g'.outcome? life' = g.outcome? life := by
  have hbare := h.bare_eq h' hrouter hbackend hclient hincidents
  have hverdicts : life'.verdicts = life.verdicts := by
    rw [h.verdicts hrouter, h'.verdicts (hbackend ▸ hrouter), hbackend, hclient, hincidents]
  rw [outcome?, outcome?, h.at?, h'.at?, Option.map_some, Option.map_some, hverdicts,
    ← bare_toClient c', ← bare_toPeer c', hbare]
  rfl

/-! ### A life that is lived alone -/

/-- A wait that is over was for a socket that something may come from. -/
theorem isWatchable_of_concern (h : WellKept g) {side : Side} {fault : Option IoFault}
    (hconcern : g.concern? event = some (id, .ready side fault))
    (hget : g.connections.get? id = some c) : c.isWatchable side := by
  cases event with
  | accept client => cases hconcern
  | ready watch fault' =>
      obtain ⟨⟨wait, d⟩, hanswered, heq⟩ := Option.map_eq_some_iff.mp hconcern
      cases heq
      obtain ⟨hmem, rfl, hlive, -⟩ := answered?_eq_some hanswered
      have hknown := (h.linked.known_iff wait).mpr ⟨hmem, hlive⟩
      rw [watchOf_eq hget] at hknown
      exact (h.registered _ c hget).watch wait.side (Option.isSome_of_mem hknown)
  | arrive target side' bytes =>
      obtain ⟨d, -, heq⟩ := Option.map_eq_some_iff.mp hconcern
      cases heq
  | hangUp target side' tail =>
      obtain ⟨d, -, heq⟩ := Option.map_eq_some_iff.mp hconcern
      cases heq

/-- A registered connection can meet with anything that its sockets allow. -/
theorem exists_event (h : WellKept g) (hget : g.connections.get? id = some c)
    {incident : Incident}
    (hwatchable : ∀ side fault, incident = .ready side fault → c.isWatchable side) :
    ∃ event, event.client? = none ∧ g.concern? event = some (id, incident) := by
  cases incident with
  | ready side fault =>
      obtain ⟨watch, hwatch⟩ := Option.isSome_iff_exists.mp
        (h.attended id c hget side (hwatchable side fault rfl))
      refine ⟨.ready watch fault, rfl, ?_⟩
      show (g.answered? watch).map _ = _
      rw [h.answered?_eq hget hwatch]
      rfl
  | arrive side bytes =>
      refine ⟨.arrive id side bytes, rfl, ?_⟩
      show (g.connections.get? id).map _ = _
      rw [hget]
      rfl
  | hangUp side tail =>
      refine ⟨.hangUp id side tail, rfl, ?_⟩
      show (g.connections.get? id).map _ = _
      rw [hget]
      rfl

/-- A connection that was not closed is registered. -/
theorem Told.registered (h : Told g life c) (hopen : c.phase ≠ .closed) :
    ∃ id, life.place = .registered id := by
  cases hplace : life.place with
  | registered id => exact ⟨id, rfl⟩
  | finished n =>
      obtain ⟨before, t, d, -, -, -, -, rfl⟩ := h.ends n hplace
      exact absurd (phase_close t d) hopen

theorem backend_run (g : Gateway σ) (events : List Event) : (g.run events).backend = g.backend := by
  induction events generalizing g with
  | nil => rfl
  | cons event events ih => exact (ih (g.step event)).trans (backend_step g event)

/-- In a run of one client only, every event but its acceptance is part of its life. -/
structure Alone (backend : Backend σ) (life : Life) (events : List Event) (own : Life) :
    Prop where
  clients : clients events = [life.client]
  length : events.length = life.incidents.length + 1
  lives : lives backend events = [own]
  client : own.client = life.client
  incidents : own.incidents = life.incidents

theorem Alone.sockets {events : List Event} {own : Life} (h : Alone backend life events own) :
    ({ backend } : Gateway σ).SocketsSuffice events :=
  socketsSuffice_of_clients backend (by rw [h.clients]; exact (by decide : 1 ≤ socketLimit))

/-- One more incident of a life can be met with alone. -/
theorem Alone.meets {alone : List Event} {own : Life} (h : Alone backend life alone own)
    (hrouter : IgnoresId backend.route) (hkept : WellKept g) (hbackend : g.backend = backend)
    (htold : Told g life c)
    {incident : Incident} (hincident : g.incident? event life.place = some incident) :
    ∃ alone own, Alone backend (g.record event life) alone own := by
  obtain ⟨id, hconcern, hplace⟩ := incident?_eq_some hincident
  have hget : g.connections.get? id = some c := by
    have hat := htold.at?
    rwa [hplace] at hat
  -- alone, the connection is the same up to its identifier and its waits
  have hkeptOwn := run_wellKept (wellKept_empty backend) h.sockets
  obtain ⟨d, hown⟩ := (run_faithful backend h.sockets).told own (by rw [h.lives]; exact .head _)
  have hbare : d.bare = c.bare :=
    htold.bare_eq hown (hbackend ▸ hrouter) ((backend_run _ _).trans hbackend.symm) h.client
      h.incidents
  have hopen : d.phase ≠ .closed := by
    rw [← bare_phase, hbare, bare_phase]
    exact (hkept.registered id c hget).opened
  obtain ⟨ownId, hownPlace⟩ := hown.registered hopen
  have hgetOwn : (run { backend } alone).connections.get? ownId = some d := by
    have hat := hown.at?
    rwa [hownPlace] at hat
  obtain ⟨next, hnoClient, hnext⟩ : ∃ next : Event, next.client? = none ∧
      (run { backend } alone).concern? next = some (ownId, incident) := by
    refine exists_event hkeptOwn hgetOwn fun side fault heq => ?_
    rw [← isWatchable_bare, hbare, isWatchable_bare]
    exact isWatchable_of_concern hkept (heq ▸ hconcern) hget
  refine ⟨alone ++ [next], (run { backend } alone).record next own, ?_⟩
  have hnextIncident : (run { backend } alone).incident? next own.place = some incident := by
    rw [hownPlace]
    exact incident?_self hnext
  exact {
    clients := by
      rw [clients_append, clients_singleton, hnoClient]
      exact (List.append_nil _).trans h.clients
    length := by
      show _ = (life.incidents ++ (g.incident? event life.place).toList).length + 1
      rw [List.length_append, h.length, hincident, List.length_append]
      rfl
    lives := by
      rw [Gateway.lives, livesFrom_concat, ← Gateway.lives, h.lives, recordAll, hnoClient]
      rfl
    client := h.client
    incidents := by
      show own.incidents ++ _ = life.incidents ++ _
      rw [h.incidents, hincident, hnextIncident] }

/-- Every life can be lived alone. -/
theorem lives_alone (hrouter : IgnoresId backend.route) {events : List Event}
    (hsockets : ({ backend } : Gateway σ).SocketsSuffice events) :
    ∀ life ∈ lives backend events, ∃ alone own, Alone backend life alone own := by
  induction events using List.reverseRecOn with
  | nil => exact fun life hlife => absurd hlife List.not_mem_nil
  | append_singleton events event ih =>
      have hbefore : ({ backend } : Gateway σ).SocketsSuffice events := fun before hfront =>
        hsockets before (hfront.trans (List.prefix_append _ _))
      intro life hlife
      rw [lives, livesFrom_concat, ← lives] at hlife
      rcases List.mem_append.mp hlife with hold | hnew
      · obtain ⟨before, hmem, rfl⟩ := List.mem_map.mp hold
        obtain ⟨c, htold⟩ := (run_faithful backend hbefore).told before hmem
        obtain ⟨alone, own, halone⟩ := ih hbefore before hmem
        cases hincident : (run { backend } events).incident? event before.place with
        | none => exact ⟨alone, own, by rwa [record_of_none hincident]⟩
        | some incident =>
            exact halone.meets hrouter (run_wellKept (wellKept_empty backend) hbefore)
              (backend_run _ _) htold hincident
      · rw [Option.mem_toList] at hnew
        obtain ⟨client, -, rfl⟩ := Option.map_eq_some_iff.mp hnew
        exact ⟨[.accept client], _, rfl, rfl, rfl, rfl, rfl⟩

/-! ### Among others -/

theorem lives_clients (backend : Backend σ) (events : List Event) :
    (lives backend events).map (·.client) = clients events := by
  induction events using List.reverseRecOn with
  | nil => rfl
  | append_singleton events event ih =>
      rw [lives, livesFrom_concat, ← lives, recordAll, List.map_append, List.map_map, clients_append,
        clients_singleton]
      refine congrArg₂ (· ++ ·) ih ?_
      cases event.client? <;> rfl

/-- An event that does not concern a connection leaves it alone, and what is waited for. -/
theorem step_leaves (h : WellKept g) (hget : g.connections.get? id = some c)
    (hnone : g.incident? event (.registered id) = none)
    (hsize : (g.step event).connections.size ≤ socketLimit) :
    (g.step event).connections.get? id = some c ∧
      ∀ side, (g.step event).pendingFor id side = g.pendingFor id side := by
  have hafter : (g.step event).connections.get? id = some c :=
    (step_changes h event hsize).at?_eq hnone hget
  refine ⟨hafter, fun side => ?_⟩
  rw [(step_wellKept h event hsize).pendingFor_eq hafter, h.pendingFor_eq hget]

/-- The backend with one peer for every connection does not look at identifiers. -/
theorem ignoresId_toBackend (single : SinglePeer σ) : IgnoresId single.toBackend.route :=
  fun _ _ => rfl

/-- **Connections are isolated from each other.**  In any run of a gateway, every accepted client has
one life.  What comes of it - the verdicts, what the client is sent and what is sent to its peer - is
what comes of it in a run of this client alone, in which the same happens to it in the same order and
nothing else happens; and it is the same in any other company in which the same happens to it.  An
event that does not concern a registered connection leaves it as it is, and what is waited for. -/
theorem run_isolated (single : SinglePeer σ) {events : List Event}
    (hsockets : ({ backend := single.toBackend } : Gateway σ).SocketsSuffice events) :
    let backend := single.toBackend
    let start : Gateway σ := { backend }
    let g := start.run events
    (lives backend events).map (·.client) = clients events ∧
    (∀ life ∈ lives backend events, (g.outcome? life).isSome ∧
      (∃ alone own, Alone backend life alone own ∧
        (start.run alone).outcome? own = g.outcome? life) ∧
      ∀ others, start.SocketsSuffice others → ∀ other ∈ lives backend others,
        other.client = life.client → other.incidents = life.incidents →
        (start.run others).outcome? other = g.outcome? life) ∧
    ∀ id c event, g.connections.get? id = some c → g.incident? event (.registered id) = none →
      (g.step event).connections.size ≤ socketLimit →
      (g.step event).connections.get? id = some c ∧
        ∀ side, (g.step event).pendingFor id side = g.pendingFor id side := by
  intro backend start g
  have hrouter : IgnoresId backend.route := ignoresId_toBackend single
  have hsame (life : Life) (hlife : life ∈ lives backend events) (others : List Event)
      (hothers : start.SocketsSuffice others) (other : Life) (hother : other ∈ lives backend others)
      (hclient : other.client = life.client) (hincidents : other.incidents = life.incidents) :
      (start.run others).outcome? other = g.outcome? life := by
    obtain ⟨c, htold⟩ := (run_faithful backend hsockets).told life hlife
    obtain ⟨d, htold'⟩ := (run_faithful backend hothers).told other hother
    have hbackend : g.backend = backend := backend_run _ _
    refine htold.outcome?_eq htold' ?_ ((backend_run _ _).trans hbackend.symm) hclient hincidents
    rw [hbackend]
    exact hrouter
  refine ⟨lives_clients backend events, fun life hlife => ⟨?_, ?_, hsame life hlife⟩,
    fun id c event hget hnone hsize =>
      step_leaves (run_wellKept (wellKept_empty backend) hsockets) hget hnone hsize⟩
  · obtain ⟨c, htold⟩ := (run_faithful backend hsockets).told life hlife
    rw [outcome?, htold.at?]
    rfl
  · obtain ⟨alone, own, halone⟩ := lives_alone hrouter hsockets life hlife
    refine ⟨alone, own, halone, ?_⟩
    exact hsame life hlife alone halone.sockets own (by rw [halone.lives]; exact .head _)
      halone.client halone.incidents

/-- One of two connections is closed for its request line, and its slot is used again. -/
theorem run_isolated_reused :
    let client : Accepted := { dial := fun _ => .error .unsupported }
    let backend : Backend Unit := (SinglePeer.new .standard).toBackend
    let events : List Event := [.accept client, .accept client,
      .arrive ⟨0, 0⟩ .client [120, 13, 10], .ready 0 none, .accept client,
      .arrive ⟨0, 1⟩ .client [71], .ready 2 none]
    ({ backend } : Gateway Unit).SocketsSuffice events ∧
      (lives backend events).map (·.place) =
        [.finished 0, .registered ⟨1, 0⟩, .registered ⟨0, 1⟩] ∧
      ∀ life ∈ lives backend events, ∃ alone own, Alone backend life alone own ∧
        (run { backend } alone).outcome? own = (run { backend } events).outcome? life := by
  intro client backend events
  have hsockets : ({ backend } : Gateway Unit).SocketsSuffice events :=
    socketsSuffice_of_clients backend (by decide)
  have hplaces : (lives backend events).map (·.place) =
      [.finished 0, .registered ⟨1, 0⟩, .registered ⟨0, 1⟩] := by decide +kernel
  obtain ⟨-, hlives, -⟩ := run_isolated (.new .standard) hsockets
  exact ⟨hsockets, hplaces, fun life hlife => (hlives life hlife).2.1⟩

end WsRelay.Gateway
