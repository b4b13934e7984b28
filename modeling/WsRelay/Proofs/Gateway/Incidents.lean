import WsRelay.Proofs.Connection.Operations
import WsRelay.Proofs.Connection.Standing
import WsRelay.Proofs.Slots.Changes
/-! # What an event is to a gateway's connections

An event is the acceptance of a client, or it concerns one registered connection (`concern?`), or
none.  What it is to the connection it concerns is an `Incident`: the connection makes something of
it (`Incident.apply`), the gateway deals with the verdict (`settle`), and that is all that happens
(`step_concern`).  An event that concerns none is forgotten (`step_unconcerned`). -/

namespace WsRelay

/-- What an event is to the connection it concerns. -/
inductive Incident where
  /-- The wait for a socket is over. -/
  | ready (side : Side) (fault : Option IoFault)
  /-- Bytes arrive at a socket. -/
  | arrive (side : Side) (bytes : Bytes)
  /-- The other end of a socket ends its stream, or the socket fails. -/
  | hangUp (side : Side) (tail : Tail)
deriving DecidableEq, Repr

/-- What a connection makes of an incident: its verdict, if it has one, and the connection after
it. -/
def Incident.apply {σ : Type} (router : Connection.Router σ) :
    Incident → Connection σ → Option Verdict × Connection σ
  | ready side fault, c =>
    let (verdict, d) := Gateway.handle router side fault (c.endWatch side)
    (some verdict, d)
  | arrive side bytes, c => (none, Gateway.deliver side bytes c)
  | hangUp side tail, c => (none, Gateway.endSide side tail c)

/-- A connection as it meets an incident: a wait that is over is forgotten. -/
def Incident.meet {σ : Type} : Incident → Connection σ → Connection σ
  | ready side _, c => c.endWatch side
  | _, c => c

/-- The connection of an accepted client. -/
def Accepted.connection {σ : Type} (client : Accepted) (id : SlotId) : Connection σ :=
  { id
    address := client.address
    fromClient := client.fromClient
    toClient := client.toClient
    toPeer := client.toPeer
    dial := client.dial }

namespace Gateway

variable {σ : Type} {g : Gateway σ} {id other : SlotId} {c : Connection σ}

/-! ### What a connection makes of an incident -/

theorem apply_stays (router : Connection.Router σ) (incident : Incident) (c : Connection σ) :
    Connection.Stays (incident.meet c) (incident.apply router c).2 := by
  cases incident with
  | ready side fault =>
      cases fault with
      | some fault => exact .refl _
      | none =>
          cases side with
          | client => exact Connection.readClient_stays router _
          | peer => exact Connection.readPeer_stays _
  | arrive side bytes => exact Connection.deliver_stays side bytes c
  | hangUp side tail => exact Connection.endSide_stays side tail c

theorem meet_moves (incident : Incident) (c : Connection σ) :
    Connection.Moves c (incident.meet c) := by
  cases incident with
  | ready side fault => exact Connection.apply_moves (.endWatch side) c
  | _ => exact .refl

theorem apply_moves (router : Connection.Router σ) (incident : Incident) (c : Connection σ) :
    Connection.Moves (incident.meet c) (incident.apply router c).2 := by
  cases incident with
  | ready side fault =>
      cases fault with
      | some fault => exact .refl
      | none =>
          cases side with
          | client => exact Connection.apply_moves (.readClient router c.dial) (c.endWatch .client)
          | peer => exact Connection.apply_moves .readPeer (c.endWatch .peer)
  | arrive side bytes => exact Connection.apply_moves (.arrive side bytes) c
  | hangUp side tail => exact Connection.apply_moves (.hangUp side tail) c

/-- An incident without a verdict changes nothing about what is to be waited for. -/
theorem apply_quiet (router : Connection.Router σ) {incident : Incident}
    (h : (incident.apply router c).1 = none) :
    (incident.apply router c).2.watch? = c.watch? ∧
      (incident.apply router c).2.isWatchable = c.isWatchable := by
  cases incident with
  | ready side fault => cases h
  | arrive side bytes =>
      exact ⟨(Connection.deliver_stays side bytes c).watch?,
        Connection.isWatchable_deliver side bytes c⟩
  | hangUp side tail =>
      exact ⟨(Connection.endSide_stays side tail c).watch?,
        Connection.isWatchable_endSide side tail c⟩

/-! ### Events and whom they concern -/

/-- The wait of a name, if it was not called off, and the connection it was for. -/
def answered? (g : Gateway σ) (watch : Watch) : Option (Wait × Connection σ) :=
  match g.waits.find? (·.watch == watch) with
  | none => none
  | some wait =>
    if g.aborted.contains watch then none else (g.connections.get? wait.id).map (wait, ·)

/-- The registered connection that an event concerns, and what it is to it. -/
def concern? (g : Gateway σ) : Event → Option (SlotId × Incident)
  | .accept _ => none
  | .ready watch fault => (g.answered? watch).map fun (wait, _) => (wait.id, .ready wait.side fault)
  | .arrive id side bytes => (g.connections.get? id).map fun _ => (id, .arrive side bytes)
  | .hangUp id side tail => (g.connections.get? id).map fun _ => (id, .hangUp side tail)

/-- The gateway once a wait of a name is over. -/
def forget (g : Gateway σ) (watch : Watch) : Gateway σ :=
  { g with waits := g.waits.filter (·.watch != watch) }

/-- The gateway once an event was taken note of. -/
def heard (g : Gateway σ) : Event → Gateway σ
  | .ready watch _ => g.forget watch
  | _ => g

/-- Puts a connection back, and deals with its verdict. -/
def settle (g : Gateway σ) (id : SlotId) : Option Verdict × Connection σ → Gateway σ
  | (verdict, c) =>
    let g := { g with connections := g.connections.modify id fun _ => c }
    match verdict with
    | none => g
    | some .continue => g.watch id
    | some (.close termination) => g.close id termination

theorem settle_close (g : Gateway σ) (id : SlotId) (t : Termination) (c : Connection σ) :
    g.settle id (some (.close t), c) =
      Gateway.close { g with connections := g.connections.modify id fun _ => c } id t := rfl

theorem connections_heard (g : Gateway σ) (event : Event) :
    (g.heard event).connections = g.connections := by
  cases event <;> rfl

theorem finished_heard (g : Gateway σ) (event : Event) :
    (g.heard event).finished = g.finished := by
  cases event <;> rfl

theorem forget_eq_self {watch : Watch} (h : g.waits.find? (·.watch == watch) = none) :
    g.forget watch = g := by
  have hfilter : g.waits.filter (·.watch != watch) = g.waits := by
    rw [List.filter_eq_self]
    intro wait hwait
    rw [List.find?_eq_none] at h
    exact bne_iff_ne.mpr fun heq => h wait hwait (beq_iff_eq.mpr heq)
  rw [forget, hfilter]

/-- A wait that is answered is pending, and for a registered connection. -/
theorem answered?_eq_some {watch : Watch} {wait : Wait} (h : g.answered? watch = some (wait, c)) :
    wait ∈ g.waits ∧ wait.watch = watch ∧ watch ∉ g.aborted ∧
      g.connections.get? wait.id = some c := by
  unfold answered? at h
  cases hfind : g.waits.find? (·.watch == watch) with
  | none =>
      rw [hfind] at h
      cases h
  | some found =>
      rw [hfind] at h
      dsimp only at h
      by_cases haborted : g.aborted.contains watch = true
      · rw [if_pos haborted] at h
        cases h
      · rw [if_neg haborted] at h
        obtain ⟨d, hget, heq⟩ := Option.map_eq_some_iff.mp h
        cases heq
        exact ⟨List.mem_of_find?_eq_some hfind, beq_iff_eq.mp (List.find?_some hfind :),
          fun hmem => haborted (List.contains_iff_mem.mpr hmem), hget⟩

theorem ready_unanswered {watch : Watch} (h : g.answered? watch = none) (fault : Option IoFault) :
    g.ready watch fault = g.forget watch := by
  unfold answered? at h
  unfold ready
  cases hfind : g.waits.find? (·.watch == watch) with
  | none => exact (forget_eq_self hfind).symm
  | some wait =>
      rw [hfind] at h
      dsimp only at h ⊢
      by_cases haborted : g.aborted.contains watch = true
      · rw [if_pos haborted]
        rfl
      · rw [if_neg haborted, Option.map_eq_none_iff] at h
        rw [if_neg haborted, h]
        rfl

theorem ready_answered {watch : Watch} {wait : Wait} (h : g.answered? watch = some (wait, c))
    (fault : Option IoFault) :
    g.connections.get? wait.id = some c ∧
      g.ready watch fault = (g.forget watch).settle wait.id
        ((Incident.ready wait.side fault).apply g.backend.route c) := by
  obtain ⟨-, -, hlive, hget⟩ := answered?_eq_some h
  refine ⟨hget, ?_⟩
  unfold answered? at h
  unfold ready
  cases hfind : g.waits.find? (·.watch == watch) with
  | none =>
      rw [hfind] at h
      cases h
  | some found =>
      rw [hfind] at h
      dsimp only at h ⊢
      have hnot : ¬ g.aborted.contains watch = true := fun hmem =>
        hlive (List.contains_iff_mem.mp hmem)
      rw [if_neg hnot] at h ⊢
      obtain ⟨_, -, heq⟩ := Option.map_eq_some_iff.mp h
      cases heq
      rw [hget]
      dsimp only [settle, forget, Incident.apply]
      cases (handle g.backend.route wait.side fault (c.endWatch wait.side)).1 <;> rfl

/-- An event that concerns a connection comes to what the connection makes of it. -/
theorem step_concern {event : Event} {incident : Incident}
    (h : g.concern? event = some (id, incident)) :
    ∃ c, g.connections.get? id = some c ∧
      g.step event = (g.heard event).settle id (incident.apply g.backend.route c) := by
  cases event with
  | accept client => cases h
  | ready watch fault =>
      obtain ⟨⟨wait, c⟩, hanswered, heq⟩ := Option.map_eq_some_iff.mp h
      cases heq
      obtain ⟨hget, hready⟩ := ready_answered hanswered fault
      exact ⟨c, hget, hready⟩
  | arrive target side bytes =>
      obtain ⟨c, hget, heq⟩ := Option.map_eq_some_iff.mp h
      cases heq
      exact ⟨c, hget, congrArg (Gateway.mk _ · _ _ _ _) (Slots.modify_const hget _)⟩
  | hangUp target side tail =>
      obtain ⟨c, hget, heq⟩ := Option.map_eq_some_iff.mp h
      cases heq
      exact ⟨c, hget, congrArg (Gateway.mk _ · _ _ _ _) (Slots.modify_const hget _)⟩

/-- An event that concerns no connection changes none. -/
theorem step_unconcerned {event : Event} (h : g.concern? event = none)
    (hevent : ∀ client, event ≠ .accept client) : g.step event = g.heard event := by
  cases event with
  | accept client => exact absurd rfl (hevent client)
  | ready watch fault => exact ready_unanswered (Option.map_eq_none_iff.mp h) fault
  | arrive target side bytes =>
      exact congrArg (Gateway.mk _ · _ _ _ _) (Slots.modify_none (Option.map_eq_none_iff.mp h) _)
  | hangUp target side tail =>
      exact congrArg (Gateway.mk _ · _ _ _ _) (Slots.modify_none (Option.map_eq_none_iff.mp h) _)

/-! ### What is left alone -/

/-- What no wait changes is the same once a connection is watched. -/
theorem watch_leaves {β : Type} (f : Gateway σ → β)
    (hawait : ∀ g side, f (await g id side) = f g) (g : Gateway σ) : f (g.watch id) = f g := by
  have hside (g : Gateway σ) (side : Side) : f (g.watchSide id side) = f g := by
    unfold watchSide
    split
    · rfl
    · split
      · exact hawait g side
      · rfl
  rw [watch, hside, hside]

theorem get?_watch_other (hne : other ≠ id) :
    (g.watch id).connections.get? other = g.connections.get? other :=
  watch_leaves (·.connections.get? other) (fun _ _ => Slots.get?_modify_other _ hne) g

@[simp] theorem finished_watch (g : Gateway σ) (id : SlotId) :
    (g.watch id).finished = g.finished :=
  watch_leaves (·.finished) (fun _ _ => rfl) g

@[simp] theorem backend_watch (g : Gateway σ) (id : SlotId) :
    (g.watch id).backend = g.backend :=
  watch_leaves (·.backend) (fun _ _ => rfl) g

@[simp] theorem size_watch (g : Gateway σ) (id : SlotId) :
    (g.watch id).connections.size = g.connections.size :=
  watch_leaves (·.connections.size) (fun _ _ => Slots.size_modify _ _ _) g

theorem get?_close_other (hne : other ≠ id) (t : Termination) :
    (g.close id t).connections.get? other = g.connections.get? other := by
  have hremove := Slots.get?_remove_other (s := g.connections) hne
  unfold close
  split
  · rfl
  · next hr =>
    rw [hr] at hremove
    exact hremove

/-- Dealing with one connection's verdict leaves every other as it is. -/
theorem get?_settle_other (hne : other ≠ id) (r : Option Verdict × Connection σ) :
    (g.settle id r).connections.get? other = g.connections.get? other := by
  obtain ⟨verdict, c⟩ := r
  have hmodify := Slots.get?_modify_other (s := g.connections) (fun _ => c) hne
  unfold settle
  rcases verdict with - | - | t
  · exact hmodify
  · exact (get?_watch_other hne).trans hmodify
  · exact (get?_close_other hne t).trans hmodify

theorem size_close_le (g : Gateway σ) (id : SlotId) (t : Termination) :
    (g.close id t).connections.size ≤ g.connections.size := by
  have hremove := Slots.size_remove_le g.connections id
  unfold close
  split
  · exact Nat.le_refl _
  · next hr =>
    rw [hr] at hremove
    exact hremove

theorem size_settle_le (g : Gateway σ) (id : SlotId) (r : Option Verdict × Connection σ) :
    (g.settle id r).connections.size ≤ g.connections.size := by
  obtain ⟨verdict, c⟩ := r
  have hmodify := Slots.size_modify g.connections id fun _ => c
  unfold settle
  rcases verdict with - | - | t
  · exact Nat.le_of_eq hmodify
  · exact Nat.le_of_eq ((size_watch _ _).trans hmodify)
  · exact Nat.le_trans (size_close_le _ _ _) (Nat.le_of_eq hmodify)

theorem backend_settle (g : Gateway σ) (id : SlotId) (r : Option Verdict × Connection σ) :
    (g.settle id r).backend = g.backend := by
  obtain ⟨verdict, c⟩ := r
  unfold settle
  rcases verdict with - | - | t
  · rfl
  · exact backend_watch _ _
  · unfold close
    dsimp only
    split <;> rfl

theorem accept_eq (g : Gateway σ) (client : Accepted) :
    g.accept client =
      { g with connections := (g.connections.add client.connection).2 }.watch
        g.connections.nextId := rfl

end Gateway

end WsRelay
