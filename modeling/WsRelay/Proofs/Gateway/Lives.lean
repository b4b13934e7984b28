import WsRelay.Proofs.Connection.Bare
import WsRelay.Proofs.Gateway.Upkeep
/-! # The lives of a gateway's connections

Identifiers are used again, so a connection is not known by its identifier in the course of a run.
What is known of each accepted client's connection is kept in its `Life`: the client, where the
gateway has the connection, what it met with and which verdicts that led to.  The lives are written
down beside the run of a gateway (`lives`) and nothing in it depends on them.

Each connection has a place of its own, in the registry or among those that were closed, and no
place is anybody else's (`Faithful`).  A connection's state and its verdicts are those that its own
incidents lead to (`Told`); what happens to other connections does not enter into it. -/

namespace WsRelay

/-- The connection is to be closed. -/
def Verdict.closes : Verdict → Bool
  | .continue => false
  | .close _ => true

namespace Connection

variable {σ : Type}

/-- A connection meets with one more incident, and a verdict to close it is carried out. -/
def undergo (router : Router σ) (s : List Verdict × Connection σ) (incident : Incident) :
    List Verdict × Connection σ :=
  let (verdict, d) := incident.apply router s.2
  (s.1 ++ verdict.toList, match verdict with
    | some (.close t) => d.close t
    | _ => d)

/-- The verdicts that incidents lead to one after the other, and the connection after them. -/
def live (router : Router σ) (incidents : List Incident) (c : Connection σ) :
    List Verdict × Connection σ :=
  incidents.foldl (undergo router) ([], c)

theorem live_concat (router : Router σ) (incidents : List Incident) (incident : Incident)
    (c : Connection σ) :
    live router (incidents ++ [incident]) c = undergo router (live router incidents c) incident :=
  List.foldl_concat ..

theorem undergo_of_goes {router : Router σ} {c : Connection σ} {incident : Incident}
    (h : (incident.apply router c).1.any (·.closes) = false) (verdicts : List Verdict) :
    undergo router (verdicts, c) incident =
      (verdicts ++ (incident.apply router c).1.toList, (incident.apply router c).2) := by
  unfold undergo
  rcases hc : incident.apply router c with ⟨_ | _ | t, d⟩
  · rfl
  · rfl
  · rw [hc] at h
    cases h

theorem undergo_of_close {router : Router σ} {c : Connection σ} {incident : Incident}
    {t : Termination} (h : (incident.apply router c).1 = some (.close t))
    (verdicts : List Verdict) :
    undergo router (verdicts, c) incident =
      (verdicts ++ [.close t], (incident.apply router c).2.close t) := by
  unfold undergo
  rcases hc : incident.apply router c with ⟨verdict, d⟩
  rw [hc] at h
  obtain rfl : verdict = some (.close t) := h
  rfl

theorem undergo_alike {router : Router σ} (hrouter : IgnoresId router) {c d : Connection σ}
    (h : c.bare = d.bare) (verdicts : List Verdict) (incident : Incident) :
    (undergo router (verdicts, c) incident).1 = (undergo router (verdicts, d) incident).1 ∧
      (undergo router (verdicts, c) incident).2.bare =
        (undergo router (verdicts, d) incident).2.bare := by
  obtain ⟨hverdict, hbare⟩ := apply_alike hrouter h incident
  unfold undergo
  rcases hc : incident.apply router c with ⟨verdict, c'⟩
  rcases hd : incident.apply router d with ⟨verdict', d'⟩
  rw [hc, hd] at hverdict hbare
  obtain rfl : verdict = verdict' := hverdict
  refine ⟨rfl, ?_⟩
  rcases verdict with - | - | t
  · exact hbare
  · exact hbare
  · exact close_alike hbare t

end Connection

/-- Where a gateway has a connection. -/
inductive Place where
  /-- It is registered under an identifier. -/
  | registered (id : SlotId)
  /-- It is one of those that were closed, counted from 0. -/
  | finished (n : Nat)
deriving DecidableEq, Repr

/-- What is known of the connection of an accepted client. -/
structure Life where
  client : Accepted
  place : Place
  incidents : List Incident := []
  verdicts : List Verdict := []

namespace Gateway

open Connection

variable {σ : Type} {g : Gateway σ} {event : Event} {id : SlotId} {c : Connection σ}

/-! ### Places -/

/-- The connection at a place. -/
def at? (g : Gateway σ) : Place → Option (Connection σ)
  | .registered id => g.connections.get? id
  | .finished n => g.finished[n]?

/-- What an event does to the connections at their places. -/
inductive Changes (g : Gateway σ) (event : Event) (g' : Gateway σ) : Prop
  /-- A client is accepted, and its connection registered. -/
  | accepted (client : Accepted) (d : Connection σ) (hevent : event = .accept client)
      (hvacant : g.at? (.registered g.connections.nextId) = none)
      (hself : g'.at? (.registered g.connections.nextId) = some d)
      (hbare : d.bare = (client.connection ⟨0, 0⟩).bare)
      (hother : ∀ place ≠ .registered g.connections.nextId, g'.at? place = g.at? place)
  /-- It concerns no connection. -/
  | unconcerned (hclient : event.client? = none) (hconcern : g.concern? event = none)
      (hsame : ∀ place, g'.at? place = g.at? place)
  /-- A connection meets with an incident and goes on. -/
  | goesOn {id : SlotId} {incident : Incident} {c : Connection σ} (d : Connection σ)
      (hclient : event.client? = none) (hconcern : g.concern? event = some (id, incident))
      (hget : g.connections.get? id = some c)
      (hverdict : (incident.apply g.backend.route c).1.any (·.closes) = false)
      (hself : g'.at? (.registered id) = some d)
      (hbare : d.bare = (incident.apply g.backend.route c).2.bare)
      (hother : ∀ place ≠ .registered id, g'.at? place = g.at? place)
  /-- A connection meets with an incident and is closed. -/
  | closed {id : SlotId} {incident : Incident} {c : Connection σ} (t : Termination)
      (hclient : event.client? = none) (hconcern : g.concern? event = some (id, incident))
      (hget : g.connections.get? id = some c)
      (hverdict : (incident.apply g.backend.route c).1 = some (.close t))
      (hgone : g'.at? (.registered id) = none)
      (hself : g'.at? (.finished g.finished.length) =
        some ((incident.apply g.backend.route c).2.close t))
      (hother : ∀ place ≠ .registered id, place ≠ .finished g.finished.length →
        g'.at? place = g.at? place)

theorem client?_of_concern {incident : Incident} (h : g.concern? event = some (id, incident)) :
    event.client? = none := by
  cases event with
  | accept client => cases h
  | _ => rfl

theorem at?_finished_length (g : Gateway σ) : g.at? (.finished g.finished.length) = none :=
  List.getElem?_eq_none (Nat.le_refl _)

theorem at?_congr {g' : Gateway σ} {place : Place}
    (hget : ∀ id, place = .registered id → g'.connections.get? id = g.connections.get? id)
    (hfinished : g'.finished = g.finished) : g'.at? place = g.at? place := by
  cases place with
  | registered id => exact hget id rfl
  | finished n => exact congrArg (·[n]?) hfinished

theorem step_changes_accept (h : WellKept g) (client : Accepted)
    (hsize : (g.accept client).connections.size ≤ socketLimit) :
    Changes g (.accept client) (g.accept client) := by
  obtain ⟨hadds, hregular⟩ := h.add client hsize
  obtain ⟨-, d, hd, hbare, -⟩ := watch_regular hregular hadds.get?_self
  refine .accepted client d rfl hadds.get?_none hd hbare fun place hne => ?_
  refine at?_congr (fun id hplace => ?_) (finished_watch _ _)
  have hid : id ≠ g.connections.nextId := fun heq => hne (heq ▸ hplace)
  rw [accept_eq, get?_watch_other hid]
  exact hadds.get?_other hid

theorem step_changes_concern (h : WellKept g) {incident : Incident}
    (hconcern : g.concern? event = some (id, incident)) : Changes g event (g.step event) := by
  have hclient := client?_of_concern hconcern
  obtain ⟨c, hget, -⟩ := step_concern hconcern
  obtain ⟨-, hdealt⟩ := step_dealt h.toRegular hconcern hget
  have hregistered (other : SlotId) (hne : Place.registered other ≠ .registered id) :
      (g.step event).connections.get? other = g.connections.get? other :=
    get?_step_other hconcern fun heq => hne (congrArg Place.registered heq)
  have hplaces (hfinished : (g.step event).finished = g.finished) (place : Place)
      (hne : place ≠ .registered id) : (g.step event).at? place = g.at? place :=
    at?_congr (fun other heq => hregistered other (heq ▸ hne)) hfinished
  generalize happly : incident.apply g.backend.route c = r at hdealt
  cases hdealt with
  | quiet hd hfinished =>
      exact .goesOn _ hclient hconcern hget (by rw [happly]; rfl) hd (by rw [happly])
        (hplaces hfinished)
  | goesOn e he hbare hattended hfinished =>
      exact .goesOn e hclient hconcern hget (by rw [happly]; rfl) he (by rw [happly]; exact hbare)
        (hplaces hfinished)
  | @closed d t hgone hfinished =>
      refine .closed t hclient hconcern hget (by rw [happly]) hgone ?_ fun place hne hlast => ?_
      · show (g.step event).finished[g.finished.length]? = _
        rw [hfinished, happly, List.getElem?_concat_length]
      · cases place with
        | registered other => exact hregistered other hne
        | finished n =>
            have hn : n ≠ g.finished.length := fun heq => hlast (heq ▸ rfl)
            show (g.step event).finished[n]? = g.finished[n]?
            rw [hfinished]
            rcases Nat.lt_or_gt_of_ne hn with hlt | hgt
            · exact List.getElem?_append_left hlt
            · rw [List.getElem?_eq_none (by rw [List.length_append]; exact hgt),
                List.getElem?_eq_none (Nat.le_of_lt hgt)]

theorem step_changes (h : WellKept g) (event : Event)
    (hsize : (g.step event).connections.size ≤ socketLimit) :
    Changes g event (g.step event) := by
  cases hconcern : g.concern? event with
  | some concern => exact step_changes_concern h hconcern
  | none =>
      cases hclient : event.client? with
      | some client =>
          cases event with
          | accept accepted => exact step_changes_accept h accepted hsize
          | _ => cases hclient
      | none =>
          refine .unconcerned hclient hconcern fun place => ?_
          have hstep := step_unconcerned hconcern fun client heq => by
            rw [heq] at hclient
            cases hclient
          rw [hstep]
          exact at?_congr (fun id _ => by rw [connections_heard]) (finished_heard g event)

theorem backend_step (g : Gateway σ) (event : Event) : (g.step event).backend = g.backend := by
  cases event with
  | accept client => exact backend_watch _ _
  | ready watch fault =>
      cases hconcern : g.concern? (.ready watch fault) with
      | none =>
          rw [step_unconcerned hconcern nofun]
          rfl
      | some concern =>
          obtain ⟨c, -, hstep⟩ := step_concern hconcern
          rw [hstep, backend_settle]
          rfl
  | arrive target side bytes => rfl
  | hangUp target side tail => rfl

/-! ### Lives -/

/-- What an event is to the connection at a place, if it concerns it. -/
def incident? (g : Gateway σ) (event : Event) (place : Place) : Option Incident :=
  (g.concern? event).bind fun (id, incident) =>
    if place = .registered id then some incident else none

/-- The verdict of the connection at a place on an event. -/
def verdict? (g : Gateway σ) (event : Event) (place : Place) : Option Verdict :=
  (g.incident? event place).bind fun incident =>
    (g.at? place).bind fun c => (incident.apply g.backend.route c).1

/-- Where the connection of a place is after an event. -/
def relocate (g : Gateway σ) (event : Event) (place : Place) : Place :=
  if (g.verdict? event place).any (·.closes) then .finished g.finished.length else place

/-- A life after an event. -/
def record (g : Gateway σ) (event : Event) (life : Life) : Life :=
  { life with
    place := g.relocate event life.place
    incidents := life.incidents ++ (g.incident? event life.place).toList
    verdicts := life.verdicts ++ (g.verdict? event life.place).toList }

/-- The lives after an event; that of a client that is accepted is new. -/
def recordAll (g : Gateway σ) (event : Event) (lives : List Life) : List Life :=
  lives.map (g.record event) ++
    (event.client?.map fun client => ⟨client, .registered g.connections.nextId, [], []⟩).toList

/-- The lives after events, one after the other. -/
def livesFrom (g : Gateway σ) (lives : List Life) : List Event → List Life
  | [] => lives
  | event :: events => livesFrom (g.step event) (g.recordAll event lives) events

/-- The lives in a run, in the order in which clients are accepted. -/
def lives (backend : Backend σ) (events : List Event) : List Life :=
  livesFrom { backend } [] events

theorem livesFrom_concat (g : Gateway σ) (lives : List Life) (events : List Event)
    (event : Event) :
    g.livesFrom lives (events ++ [event]) =
      (g.run events).recordAll event (g.livesFrom lives events) := by
  induction events generalizing g lives with
  | nil => rfl
  | cons first events ih => exact ih (g.step first) (g.recordAll first lives)

theorem incident?_self {incident : Incident} (h : g.concern? event = some (id, incident)) :
    g.incident? event (.registered id) = some incident := by
  rw [incident?, h]
  exact if_pos rfl

theorem incident?_other {incident : Incident} (h : g.concern? event = some (id, incident))
    {place : Place} (hne : place ≠ .registered id) : g.incident? event place = none := by
  rw [incident?, h]
  exact if_neg hne

theorem incident?_eq_some {place : Place} {incident : Incident}
    (h : g.incident? event place = some incident) :
    ∃ id, g.concern? event = some (id, incident) ∧ place = .registered id := by
  obtain ⟨⟨id, found⟩, hconcern, hplace⟩ := Option.bind_eq_some_iff.mp h
  dsimp only at hplace
  split at hplace
  · next heq =>
    cases hplace
    exact ⟨id, hconcern, heq⟩
  · cases hplace

theorem incident?_none (h : g.concern? event = none) (place : Place) :
    g.incident? event place = none := by
  rw [incident?, h]
  rfl

theorem verdict?_self {incident : Incident} (h : g.concern? event = some (id, incident))
    (hget : g.connections.get? id = some c) :
    g.verdict? event (.registered id) = (incident.apply g.backend.route c).1 := by
  rw [verdict?, incident?_self h]
  exact congrArg (Option.bind · _) hget

theorem relocate_of_none {place : Place} (h : g.incident? event place = none) :
    g.relocate event place = place := by
  rw [relocate, verdict?, h]
  rfl

/-- What does not concern a connection is not part of its life. -/
theorem record_of_none {life : Life} (h : g.incident? event life.place = none) :
    g.record event life = life := by
  rw [record, relocate_of_none h, verdict?, h]
  simp

/-- What is known of a connection is so. -/
structure Told (g : Gateway σ) (life : Life) (c : Connection σ) : Prop where
  at? : g.at? life.place = some c
  /-- The verdicts are those that the incidents lead to, if the backend does not look at
  identifiers. -/
  verdicts : IgnoresId g.backend.route →
    life.verdicts = (live g.backend.route life.incidents (life.client.connection ⟨0, 0⟩)).1
  /-- So is the connection, up to its identifier and its waits. -/
  bare : IgnoresId g.backend.route →
    c.bare = (live g.backend.route life.incidents (life.client.connection ⟨0, 0⟩)).2.bare
  /-- What the client was sent goes with the phase, if it was sent nothing before it was accepted. -/
  spoken : life.client.toClient.taken = [] → Spoken c
  /-- No verdict was to close it as long as it is registered. -/
  goes : ∀ id, life.place = .registered id → ∀ v ∈ life.verdicts, v = .continue
  /-- It was closed by the last of its verdicts, and was not before. -/
  ends : ∀ n, life.place = .finished n → ∃ before t d, life.verdicts = before ++ [.close t] ∧
    (∀ v ∈ before, v = .continue) ∧ d.phase ≠ .closed ∧ Coherent d ∧ c = d.close t

/-- A place that an event does not concern has the same connection after it. -/
theorem Changes.at?_eq {g' : Gateway σ} (h : Changes g event g') {place : Place}
    (hnone : g.incident? event place = none) (hplace : g.at? place = some c) :
    g'.at? place = some c := by
  rw [← hplace]
  cases h with
  | accepted client d hevent hvacant hself hbare hother =>
      exact hother place fun heq => by rw [heq, hvacant] at hplace; cases hplace
  | unconcerned hclient hconcern hsame => exact hsame place
  | goesOn d hclient hconcern hget hverdict hself hbare hother =>
      exact hother place fun heq => by rw [heq, incident?_self hconcern] at hnone; cases hnone
  | closed t hclient hconcern hget hverdict hgone hself hother =>
      refine hother place (fun heq => ?_) fun heq => ?_
      · rw [heq, incident?_self hconcern] at hnone
        cases hnone
      · rw [heq, at?_finished_length] at hplace
        cases hplace

/-- What is told is what the incidents lead to, with one more of them. -/
theorem Told.concat {life : Life} (h : Told g life c) (hrouter : IgnoresId g.backend.route)
    (incident : Incident) :
    let next := live g.backend.route (life.incidents ++ [incident]) (life.client.connection ⟨0, 0⟩)
    (undergo g.backend.route (life.verdicts, c) incident).1 = next.1 ∧
      (undergo g.backend.route (life.verdicts, c) incident).2.bare = next.2.bare := by
  intro next
  have hnext : next = undergo g.backend.route (life.verdicts,
      (live g.backend.route life.incidents (life.client.connection ⟨0, 0⟩)).2) incident := by
    rw [h.verdicts hrouter]
    exact live_concat _ _ _ _
  rw [hnext]
  exact undergo_alike hrouter (h.bare hrouter) life.verdicts incident

/-- A connection that meets with an incident has it added to its life. -/
theorem Told.meets {g' : Gateway σ} {life : Life} (h : Told g life c) (hkept : WellKept g)
    (hchanges : Changes g event g') (hbackend : g'.backend = g.backend) {incident : Incident}
    (hincident : g.incident? event life.place = some incident) :
    ∃ d, Told g' (g.record event life) d := by
  obtain ⟨id, hconcern, hplace⟩ := incident?_eq_some hincident
  have hgetc : g.connections.get? id = some c := by
    have hat := h.at?
    rwa [hplace] at hat
  have hverdict := verdict?_self hconcern hgetc
  have hregistered := hkept.registered id _ hgetc
  have hspoken (hfresh : life.client.toClient.taken = []) :
      Spoken (incident.apply g.backend.route c).2 :=
    Moves.spoken ((meet_moves incident c).trans (apply_moves g.backend.route incident c))
      hregistered.coherent (h.spoken hfresh)
  have hrecord : g.record event life = { life with
      place := g.relocate event (.registered id)
      incidents := life.incidents ++ [incident]
      verdicts := life.verdicts ++ (incident.apply g.backend.route c).1.toList } := by
    rw [record, hplace, hverdict, incident?_self hconcern]
    rfl
  cases hchanges with
  | accepted client d hevent =>
      rw [hevent] at hconcern
      cases hconcern
  | unconcerned hclient hnone =>
      rw [hnone] at hconcern
      cases hconcern
  | goesOn d hclient hconcern' hget hgoes hself hbare' hother =>
      obtain ⟨rfl, rfl⟩ := Prod.mk.inj (Option.some.inj (hconcern.symm.trans hconcern'))
      obtain rfl := Option.some.inj (hgetc.symm.trans hget)
      have hlive (hrouter : IgnoresId g.backend.route) := h.concat hrouter incident
      rw [undergo_of_goes hgoes] at hlive
      rw [relocate, hverdict, hgoes] at hrecord
      rw [hrecord]
      refine ⟨d, {
        at? := hself
        verdicts := by rw [hbackend]; exact fun hrouter => (hlive hrouter).1
        bare := by rw [hbackend]; exact fun hrouter => hbare'.trans (hlive hrouter).2
        spoken := fun hfresh => (hspoken hfresh).of_bare_eq hbare'
        goes := fun _ _ v hv => ?_
        ends := fun _ hn => nomatch hn }⟩
      rcases List.mem_append.mp hv with hold | hnew
      · exact h.goes _ hplace v hold
      · rw [Option.mem_toList] at hnew
        rw [hnew] at hgoes
        cases v with
        | «continue» => rfl
        | close t => cases hgoes
  | closed t hclient hconcern' hget hclose hgone hself hother =>
      obtain ⟨rfl, rfl⟩ := Prod.mk.inj (Option.some.inj (hconcern.symm.trans hconcern'))
      obtain rfl := Option.some.inj (hgetc.symm.trans hget)
      have hlive (hrouter : IgnoresId g.backend.route) := h.concat hrouter incident
      rw [undergo_of_close hclose] at hlive
      rw [relocate, hverdict, hclose] at hrecord
      rw [hrecord]
      have happlied := hregistered.apply g.backend.route incident
      exact ⟨_, {
        at? := hself
        verdicts := by rw [hbackend]; exact fun hrouter => (hlive hrouter).1
        bare := by rw [hbackend]; exact fun hrouter => (hlive hrouter).2
        spoken := fun hfresh =>
          (close_moves t _).spoken happlied.coherent (hspoken hfresh)
        goes := fun _ hn => nomatch hn
        ends := fun _ _ => ⟨life.verdicts, t, _, rfl, h.goes _ hplace, happlied.opened,
          happlied.coherent, rfl⟩ }⟩

/-- A life is told as well with an event added to it. -/
theorem Told.record {g' : Gateway σ} {life : Life} (h : Told g life c) (hkept : WellKept g)
    (hchanges : Changes g event g') (hbackend : g'.backend = g.backend) :
    ∃ d, Told g' (g.record event life) d := by
  cases hincident : g.incident? event life.place with
  | some incident => exact h.meets hkept hchanges hbackend hincident
  | none =>
      rw [record_of_none hincident]
      refine ⟨c, { h with at? := hchanges.at?_eq hincident h.at?, verdicts := ?_, bare := ?_ }⟩
      · rw [hbackend]
        exact h.verdicts
      · rw [hbackend]
        exact h.bare

/-- The lives are those of the connections that there are, each at a place of its own. -/
structure Faithful (g : Gateway σ) (lives : List Life) : Prop where
  places_nodup : (lives.map (·.place)).Nodup
  occupied : ∀ place, (g.at? place).isSome → place ∈ lives.map (·.place)
  told : ∀ life ∈ lives, ∃ c, Told g life c

theorem faithful_empty (backend : Backend σ) : Faithful ({ backend } : Gateway σ) [] where
  places_nodup := List.nodup_nil
  occupied place h := by cases place <;> cases h
  told _ h := absurd h List.not_mem_nil

theorem place_recordAll (g : Gateway σ) (event : Event) (lives : List Life) :
    (g.recordAll event lives).map (·.place) = (lives.map (·.place)).map (g.relocate event) ++
      (event.client?.map fun _ => .registered g.connections.nextId).toList := by
  rw [recordAll, List.map_append, List.map_map, List.map_map]
  cases event.client? <;> rfl

/-- Where connections are after an event: each at one place, and nowhere else. -/
theorem Changes.places {g' : Gateway σ} (h : Changes g event g') {places : List Place}
    (hnodup : places.Nodup) (hplaces : ∀ place, (g.at? place).isSome ↔ place ∈ places) :
    let after := places.map (g.relocate event) ++
      (event.client?.map fun _ => .registered g.connections.nextId).toList
    after.Nodup ∧ ∀ place, (g'.at? place).isSome → place ∈ after := by
  intro after
  have hstay (hrelocate : ∀ place, g.relocate event place = place) :
      places.map (g.relocate event) = places := by
    rw [funext hrelocate]
    exact List.map_id _
  cases h with
  | accepted client d hevent hvacant hself hbare hother =>
      have hafter : after = places ++ [.registered g.connections.nextId] := by
        show places.map (g.relocate event) ++ _ = _
        rw [hstay fun place => relocate_of_none (incident?_none (by rw [hevent]; rfl) place), hevent]
        rfl
      have hnew : .registered g.connections.nextId ∉ places := fun hmem => by
        rw [← hplaces, hvacant] at hmem
        cases hmem
      rw [hafter]
      refine ⟨hnodup.append (List.nodup_singleton _) fun place hold hsingle => ?_,
        fun place hat => ?_⟩
      · exact hnew (List.mem_singleton.mp hsingle ▸ hold)
      · by_cases hplace : place = .registered g.connections.nextId
        · exact List.mem_append_right _ (List.mem_singleton.mpr hplace)
        · rw [hother place hplace, hplaces] at hat
          exact List.mem_append_left _ hat
  | unconcerned hclient hconcern hsame =>
      have hafter : after = places := by
        show places.map (g.relocate event) ++ _ = _
        rw [hstay fun place => relocate_of_none (incident?_none hconcern place), hclient]
        exact List.append_nil _
      rw [hafter]
      exact ⟨hnodup, fun place hat => (hplaces place).mp (hsame place ▸ hat)⟩
  | @goesOn id incident c d hclient hconcern hget hgoes hself hbare hother =>
      have hafter : after = places := by
        show places.map (g.relocate event) ++ _ = _
        rw [hstay fun place => ?_, hclient]
        · exact List.append_nil _
        · by_cases hplace : place = .registered id
          · rw [hplace, relocate, verdict?_self hconcern hget, hgoes]
            rfl
          · exact relocate_of_none (incident?_other hconcern hplace)
      rw [hafter]
      refine ⟨hnodup, fun place hat => (hplaces place).mp ?_⟩
      by_cases hplace : place = .registered id
      · rw [hplace]
        exact Option.isSome_of_mem hget
      · rwa [← hother place hplace]
  | @closed id incident c t hclient hconcern hget hclose hgone hself hother =>
      have hmoved : g.relocate event (.registered id) = .finished g.finished.length := by
        rw [relocate, verdict?_self hconcern hget, hclose]
        rfl
      have hkept (place : Place) (hplace : place ≠ .registered id) :
          g.relocate event place = place := relocate_of_none (incident?_other hconcern hplace)
      have hlast : .finished g.finished.length ∉ places := fun hmem => by
        rw [← hplaces, at?_finished_length] at hmem
        cases hmem
      have hafter : after = places.map (g.relocate event) := by
        show places.map (g.relocate event) ++ _ = _
        rw [hclient]
        exact List.append_nil _
      rw [hafter]
      refine ⟨hnodup.map_on fun p hp q hq heq => ?_, fun place hat => List.mem_map.mpr ?_⟩
      · by_cases hpid : p = .registered id
        · by_cases hqid : q = .registered id
          · rw [hpid, hqid]
          · rw [hpid, hmoved, hkept q hqid] at heq
            exact absurd (heq ▸ hq) hlast
        · by_cases hqid : q = .registered id
          · rw [hqid, hmoved, hkept p hpid] at heq
            exact absurd (heq ▸ hp) hlast
          · rwa [hkept p hpid, hkept q hqid] at heq
      · have hid : place ≠ .registered id := fun heq => by
          rw [heq, hgone] at hat
          cases hat
        by_cases hfinished : place = .finished g.finished.length
        · refine ⟨.registered id, (hplaces _).mp (Option.isSome_of_mem hget), ?_⟩
          rw [hmoved, hfinished]
        · rw [hother place hid hfinished, hplaces] at hat
          exact ⟨place, hat, hkept place hid⟩

theorem Faithful.mem_places {lives : List Life} (h : Faithful g lives) (place : Place) :
    (g.at? place).isSome ↔ place ∈ lives.map (·.place) := by
  refine ⟨h.occupied place, fun hmem => ?_⟩
  obtain ⟨life, hlife, rfl⟩ := List.mem_map.mp hmem
  obtain ⟨c, hc⟩ := h.told life hlife
  rw [hc.at?]
  rfl

theorem Faithful.step {lives : List Life} (h : Faithful g lives) (hkept : WellKept g)
    (hsize : (g.step event).connections.size ≤ socketLimit) :
    Faithful (g.step event) (g.recordAll event lives) := by
  have hchanges := step_changes hkept event hsize
  have hbackend := backend_step g event
  obtain ⟨hnodup, hoccupied⟩ := hchanges.places h.places_nodup h.mem_places
  rw [← place_recordAll] at hnodup hoccupied
  refine ⟨hnodup, hoccupied, fun life hlife => ?_⟩
  rcases List.mem_append.mp hlife with hold | hnew
  · obtain ⟨before, hbefore, rfl⟩ := List.mem_map.mp hold
    obtain ⟨c, hc⟩ := h.told before hbefore
    exact hc.record hkept hchanges hbackend
  · rw [Option.mem_toList] at hnew
    obtain ⟨client, hclient, rfl⟩ := Option.map_eq_some_iff.mp hnew
    cases hchanges with
    | accepted accepted d hevent hvacant hself hbare hother =>
        rw [hevent] at hclient
        cases hclient
        exact ⟨d, {
          at? := hself
          verdicts := fun _ => rfl
          bare := fun _ => hbare
          spoken := fun hfresh => Spoken.of_bare_eq (c := client.connection ⟨0, 0⟩) hfresh hbare
          goes := fun _ _ _ hv => absurd hv List.not_mem_nil
          ends := fun _ hn => nomatch hn }⟩
    | unconcerned hnone =>
        rw [hnone] at hclient
        cases hclient
    | goesOn d hnone =>
        rw [hnone] at hclient
        cases hclient
    | closed t hnone =>
        rw [hnone] at hclient
        cases hclient

theorem Faithful.run {lives : List Life} {events : List Event} (h : Faithful g lives)
    (hkept : WellKept g) (hsockets : g.SocketsSuffice events) :
    Faithful (g.run events) (g.livesFrom lives events) := by
  induction events generalizing g lives with
  | nil => exact h
  | cons event events ih =>
      exact ih (h.step hkept hsockets.head) (step_wellKept hkept event hsockets.head)
        hsockets.tail

theorem run_faithful (backend : Backend σ) {events : List Event}
    (hsockets : ({ backend } : Gateway σ).SocketsSuffice events) :
    Faithful (({ backend } : Gateway σ).run events) (lives backend events) :=
  (faithful_empty backend).run (wellKept_empty backend) hsockets

end Gateway

end WsRelay
