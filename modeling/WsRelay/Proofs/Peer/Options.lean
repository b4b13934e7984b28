import WsRelay.Peer.Backend
/-! # Options of a backend

An option of the backend sets one part of it, whatever the others are.  So options that are set one
after the other come to what the last one of each name says (`SinglePeer.configured`), and they can
be set if all of their names are known (`SinglePeer.ofSettings_eq_ok_iff`). -/

namespace WsRelay

/-- The value of an option: the last one counts. -/
def Settings.option? (settings : Settings) (name : String) : Option String :=
  settings.options.reverse.lookup name

namespace SinglePeer

variable {σ : Type} {b b' : SinglePeer σ} {options : List (String × String)}
variable {name value : String}

/-- The options there are. -/
def optionNames : List String := ["host", "port", "protocol", "framing", "framing-config"]

/-- The backend with each option set that has a value. -/
def configured (b : SinglePeer σ) (value? : String → Option String) : SinglePeer σ where
  peer := { b.peer with
    transport := if (value? "host").isSome then .detect else b.peer.transport
    host := (value? "host").getD b.peer.host
    port := (value? "port").or b.peer.port
    framing := ((value? "framing").map fun name => b.framings.find (some name)).getD b.peer.framing
    framingConfig := (value? "framing-config").getD b.peer.framingConfig }
  protocol := (value? "protocol").or b.protocol
  framings := b.framings

/-- Values that are set later go before those that were set earlier. -/
theorem configured_configured (b : SinglePeer σ) (first? later? : String → Option String) :
    (b.configured first?).configured later? =
      b.configured fun name => (later? name).or (first? name) := by
  have htransport (later first : Option String) (start : Transport) :
      (if later.isSome then .detect else if first.isSome then .detect else start) =
        if (later.or first).isSome then .detect else start := by
    cases later <;> rfl
  simp only [configured, htransport, Option.getD_or, Option.map_or, Option.or_assoc]

/-- An option that is known is set, and nothing else. -/
theorem set_eq (hname : name ∈ optionNames) (b : SinglePeer σ) (value : String) :
    b.set name value =
      .ok (b.configured fun other => if name = other then some value else none) := by
  simp only [optionNames, List.mem_cons, List.not_mem_nil, or_false] at hname
  rcases hname with rfl | rfl | rfl | rfl | rfl <;> rfl

/-- One that is not known is refused. -/
theorem mem_optionNames_of_set (h : b.set name value = .ok b') : name ∈ optionNames := by
  refine Decidable.byContradiction fun hname => ?_
  simp only [optionNames, List.mem_cons, List.not_mem_nil, or_false, not_or] at hname
  obtain ⟨hhost, hport, hprotocol, hframing, hconfig⟩ := hname
  rw [set, if_neg hhost, if_neg hport, if_neg hprotocol, if_neg hframing, if_neg hconfig] at h
  cases h

theorem lookup_reverse_cons (key : String) (entry : String × String)
    (options : List (String × String)) :
    (entry :: options).reverse.lookup key =
      (options.reverse.lookup key).or (if entry.1 = key then some entry.2 else none) := by
  rw [List.reverse_cons, List.lookup_append, List.lookup_cons, List.lookup_nil]
  by_cases h : entry.1 = key
  · rw [if_pos h, h, beq_self_eq_true]
  · rw [if_neg h, beq_eq_false_iff_ne.mpr (Ne.symm h)]

/-- The value of an option is that of the last one of its name. -/
theorem lookup_reverse_eq (key : String) (options : List (String × String)) :
    options.reverse.lookup key = ((options.filter (·.1 = key)).getLast?).map Prod.snd := by
  induction options with
  | nil => rfl
  | cons entry options ih =>
      rw [lookup_reverse_cons, ih]
      by_cases h : entry.1 = key
      · rw [List.filter_cons_of_pos (by simpa using h), List.getLast?_cons, if_pos h]
        cases (options.filter (·.1 = key)).getLast? <;> rfl
      · rw [List.filter_cons_of_neg (by simpa using h), if_neg h, Option.or_none]

theorem foldlM_set_cons (b : SinglePeer σ) (entry : String × String) :
    (entry :: options).foldlM (fun b (key, value) => b.set key value) b =
      match b.set entry.1 entry.2 with
      | .error e => .error e
      | .ok next => options.foldlM (fun b (key, value) => b.set key value) next := by
  rw [List.foldlM_cons]
  show (b.set entry.1 entry.2 >>= _) = _
  cases b.set entry.1 entry.2 <;> rfl

/-- Options that are all known come to the last one of each name. -/
theorem foldlM_set (hknown : ∀ option ∈ options, option.1 ∈ optionNames) (b : SinglePeer σ) :
    options.foldlM (fun b (key, value) => b.set key value) b =
      .ok (b.configured fun key => options.reverse.lookup key) := by
  induction options generalizing b with
  | nil => rfl
  | cons entry options ih =>
      obtain ⟨hentry, hoptions⟩ := List.forall_mem_cons.mp hknown
      rw [foldlM_set_cons, set_eq hentry]
      dsimp only
      rw [ih hoptions, configured_configured]
      simp only [lookup_reverse_cons]

/-- Options that can all be set are all known. -/
theorem known_of_foldlM
    (h : options.foldlM (fun b (key, value) => b.set key value) b = .ok b') :
    ∀ option ∈ options, option.1 ∈ optionNames := by
  induction options generalizing b with
  | nil => simp
  | cons entry options ih =>
      rw [foldlM_set_cons] at h
      cases hset : b.set entry.1 entry.2 with
      | error e =>
          rw [hset] at h
          cases h
      | ok next =>
          rw [hset] at h
          exact List.forall_mem_cons.mpr ⟨mem_optionNames_of_set hset, ih h⟩

/-- **A backend is set up if all of its options are known**, and then the last one of each name
counts. -/
theorem ofSettings_eq_ok_iff {settings : Settings} {framings : FramingTable σ} :
    ofSettings settings framings = .ok b ↔
      settings.backend = defaultBackend ∧
        (∀ option ∈ settings.options, option.1 ∈ optionNames) ∧
        b = (new framings).configured settings.option? := by
  unfold ofSettings
  split
  · next hbackend =>
    constructor
    · intro h
      have hknown := known_of_foldlM h
      rw [foldlM_set hknown] at h
      cases h
      exact ⟨hbackend, hknown, rfl⟩
    · rintro ⟨-, hknown, rfl⟩
      exact foldlM_set hknown (new framings)
  · next hbackend => exact ⟨nofun, fun h => absurd h.1 hbackend⟩

/-- Options of different names may be set in any order. -/
theorem ofSettings_reordered {settings : Settings} {framings : FramingTable σ}
    (hsame : ∀ name, options.filter (·.1 = name) = settings.options.filter (·.1 = name))
    (h : ofSettings settings framings = .ok b) :
    ofSettings { settings with options } framings = .ok b := by
  obtain ⟨hbackend, hknown, rfl⟩ := ofSettings_eq_ok_iff.mp h
  refine ofSettings_eq_ok_iff.mpr ⟨hbackend, fun option hoption => ?_, congrArg _ ?_⟩
  · have hmem : option ∈ options.filter (·.1 = option.1) := by simpa using hoption
    rw [hsame] at hmem
    exact hknown option (List.mem_filter.mp hmem).1
  · funext name
    simp only [Settings.option?, lookup_reverse_eq, hsame]

end SinglePeer

end WsRelay
