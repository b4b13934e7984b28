import WsRelay.Proofs.Peer.Hosts
import WsRelay.Proofs.Peer.Options
/-! # Ports behind hosts

A host may be written with a port behind it (`HostText`, `Route.endpoint_written`): if the route
has no port of its own, this is the port that is connected to, and the host is what stands before
it, without brackets.

A backend's route always has a port of its own, since it starts with one and no option takes it
away (`SinglePeer.ofSettings_eq`).  So the port behind a host that is set as an option is read and
thrown away, and the peer is looked for at the port that the backend started with
(`SinglePeer.ofSettings_written`). -/

namespace WsRelay

namespace Transport

/-- A scheme is a name without colons or brackets, a colon and two slashes. -/
theorem scheme_split : ∀ t ∈ withScheme, ∃ name, t.scheme = name ++ ":" ++ "//" ∧
    ':' ∉ name.toList ∧ name.toList.head? ∉ [none, some '['] := by
  unfold withScheme
  simp only [List.forall_mem_cons]
  exact ⟨⟨"unix-dgram", by decide⟩, ⟨"fifotx", by decide⟩, ⟨"fiforx", by decide⟩,
    ⟨"unix", by decide⟩, ⟨"tcp", by decide⟩, ⟨"udp", by decide⟩,
    fun _ h => absurd h List.not_mem_nil⟩

/-- A host without a scheme is reached over TCP. -/
theorem ofHost_plain {host : String}
    (h : ∀ t ∈ withScheme, Text.stripStart? t.scheme host = none) : ofHost host = (tcp, host) := by
  have hnone : withScheme.findSome? (fun t => (Text.stripStart? t.scheme host).map (t, ·)) =
      none := by
    rw [List.findSome?_eq_none_iff]
    intro t ht
    rw [h t ht]
    rfl
  rw [ofHost, hnone]
  rfl

end Transport

/-! ### Hosts with a port behind them -/

/-- A host as it is written with a port behind it: a name, or an address in brackets. -/
inductive HostText where
  | name (text : String)
  | literal (text : String)
deriving DecidableEq, Repr

namespace HostText

/-- The host itself. -/
def text : HostText → String
  | name text => text
  | literal text => text

/-- The host as it is written. -/
def spelled : HostText → String
  | name text => text
  | literal text => "[" ++ text ++ "]"

/-- A name is not mistaken for anything else, and an address ends at its bracket. -/
def WellFormed : HostText → Prop
  | name text => text ≠ "" ∧ ':' ∉ text.toList ∧ '[' ∉ text.toList
  | literal text => text ≠ "" ∧ ']' ∉ text.toList

instance (host : HostText) : Decidable host.WellFormed :=
  match host with
  | name text => inferInstanceAs (Decidable (text ≠ "" ∧ ':' ∉ text.toList ∧ '[' ∉ text.toList))
  | literal text => inferInstanceAs (Decidable (text ≠ "" ∧ ']' ∉ text.toList))

variable {host : HostText} {port : String}

/-- The form of the host with a port behind it. -/
def withPort : HostText → String → HostForm
  | name text, port => .namePort text port
  | literal text, port => .literalPort text port

theorem spelled_withPort (host : HostText) (port : String) :
    (host.withPort port).spelled = host.spelled ++ ":" ++ port := by
  cases host with
  | name text => rfl
  | literal text => simp [withPort, HostForm.spelled, spelled, ← String.toList_inj]

theorem wellFormed_withPort (h : host.WellFormed) (hport : ':' ∉ port.toList) :
    (host.withPort port).WellFormed := by
  cases host with
  | name text =>
      obtain ⟨hne, hcolon, hbracket⟩ := h
      refine ⟨hcolon, hport, ?_⟩
      rintro ⟨hhead, -⟩
      cases htext : text.toList with
      | nil => exact hne (String.toList_inj.mp htext)
      | cons c cs => simp_all
  | literal text => exact h.2

/-- The host and its port are told apart again. -/
theorem cutPort_spelled (h : host.WellFormed) (hport : ':' ∉ port.toList) :
    Endpoint.cutPort (host.spelled ++ ":" ++ port) = (host.text, some port) := by
  rw [← spelled_withPort, HostForm.cutPort_spelled (wellFormed_withPort h hport)]
  cases host <;> rfl

/-- A host is not mistaken for a scheme, whatever is behind its colon. -/
theorem ofHost_spelled (h : host.WellFormed) (hport : '/' ∉ port.toList) :
    Transport.ofHost (host.spelled ++ ":" ++ port) = (.tcp, host.spelled ++ ":" ++ port) := by
  refine Transport.ofHost_plain fun t ht => Option.eq_none_iff_forall_not_mem.mpr fun rest hrest => ?_
  obtain ⟨name, hscheme, hcolon, hhead⟩ := Transport.scheme_split t ht
  have hfront := Text.stripStart?_eq_some hrest
  rw [hscheme, String.append_assoc, String.append_assoc, String.append_assoc] at hfront
  cases host with
  | name text =>
      have hboth : some (text, port) = some (name, "//" ++ rest) := by
        rw [← Text.cut?_append h.2.1 port, ← Text.cut?_append hcolon ("//" ++ rest)]
        exact congrArg (Text.cut? ':') hfront
      rw [(Prod.mk.inj (Option.some.inj hboth)).2, String.toList_append] at hport
      exact hport (List.mem_append_left _ List.mem_cons_self)
  | literal text =>
      have hbracket := congrArg (fun s : String => s.toList.head?) hfront
      dsimp only [spelled] at hbracket
      simp only [String.toList_append] at hbracket
      cases hname : name.toList with
      | nil =>
          rw [hname] at hhead
          exact hhead List.mem_cons_self
      | cons c cs =>
          rw [hname] at hbracket hhead
          refine hhead (List.mem_cons_of_mem _ (List.mem_singleton.mpr ?_))
          exact hbracket.symm

end HostText

namespace Route

variable {σ : Type}

/-- The endpoint for a host behind a scheme: UDP if the scheme says so. -/
def reached (scheme host : String) (port : Nat) : Endpoint :=
  if scheme = "udp://" then .udp host port else .tcp host port

variable {scheme port : String} {host : HostText} {n : Nat}

/-- The port of the route goes before the one behind the host. -/
theorem hostAndPort_written (route : Route σ) (hwritten : host.WellFormed)
    (hport : Text.port? port = some n) :
    route.hostAndPort (host.spelled ++ ":" ++ port) =
      match Text.port? (Text.trim (route.port.getD port)) with
      | none => .error (.peerConnect route.host ("invalid port '" ++ route.port.getD port ++ "'"))
      | some m => .ok (host.text, m) := by
  have hcolon : ':' ∉ port.toList := fun h =>
    absurd (Text.digit_of_unsigned? hport _ h) (by decide)
  have hor : route.port.or (some port) = some (route.port.getD port) := by
    cases route.port <;> rfl
  rw [hostAndPort, host.cutPort_spelled hwritten hcolon]
  cases hm : Text.port? (Text.trim (route.port.getD port)) with
  | none => simp only [hor, hm]
  | some m => simp only [hor, hm]

theorem target_written (route : Route σ) (hdetect : route.transport = .detect)
    (hscheme : scheme ∈ ["", "tcp://", "udp://"]) (hwritten : host.WellFormed)
    (hport : Text.port? port = some n)
    (hhost : route.host = scheme ++ (host.spelled ++ ":" ++ port)) :
    route.target = ((if scheme = "udp://" then Transport.udp else .tcp),
      host.spelled ++ ":" ++ port) := by
  have hslash : '/' ∉ port.toList := fun h =>
    absurd (Text.digit_of_unsigned? hport _ h) (by decide)
  rw [target, hdetect]
  dsimp only
  rw [hhost]
  simp only [List.mem_cons, List.not_mem_nil, or_false] at hscheme
  rcases hscheme with rfl | rfl | rfl
  · rw [String.empty_append, host.ofHost_spelled hwritten hslash, if_neg (by decide)]
  · have htcp := Transport.ofHost_scheme (t := .tcp) (by decide)
    exact (htcp _).trans (by rw [if_neg (by decide)])
  · have hudp := Transport.ofHost_scheme (t := .udp) (by decide)
    exact (hudp _).trans (by rw [if_pos rfl])

/-- **A host that is written with a port behind it.**  The route goes to the host, at the route's
own port if it has one, and else at the port that stands behind the host. -/
theorem endpoint_written (route : Route σ) (hdetect : route.transport = .detect)
    (hscheme : scheme ∈ ["", "tcp://", "udp://"]) (hwritten : host.WellFormed)
    (hport : Text.port? port = some n)
    (hhost : route.host = scheme ++ (host.spelled ++ ":" ++ port)) :
    route.endpoint =
      match Text.port? (Text.trim (route.port.getD port)) with
      | none => .error (.peerConnect route.host ("invalid port '" ++ route.port.getD port ++ "'"))
      | some m => .ok (reached scheme host.text m) := by
  have hne : host.spelled ++ ":" ++ port ≠ "" := fun h => by
    have hlist := congrArg String.toList h
    rw [String.toList_append, String.toList_append] at hlist
    simp at hlist
  have hnetwork := route.hostAndPort_written hwritten hport
  rw [endpoint, route.target_written hdetect hscheme hwritten hport hhost]
  dsimp only
  rw [if_neg hne]
  unfold reached
  by_cases hudp : scheme = "udp://"
  · simp only [if_pos hudp]
    rw [hnetwork]
    cases Text.port? (Text.trim (route.port.getD port)) <;> rfl
  · simp only [if_neg hudp]
    rw [hnetwork]
    cases Text.port? (Text.trim (route.port.getD port)) <;> rfl

end Route

/-! ### Routes of a backend -/

namespace SinglePeer

variable {σ : Type}

/-- The route of a backend whose options are all known has the host that was set last, and the
port that was set last or the one from the start. -/
theorem ofSettings_eq (settings : Settings) (framings : FramingTable σ)
    (hbackend : settings.backend = defaultBackend)
    (hknown : ∀ option ∈ settings.options, option.1 ∈ optionNames) :
    ∃ b, ofSettings settings framings = .ok b ∧ ∀ request, ∃ route,
      b.route request = some route ∧ route.transport = .detect ∧
      route.host = (settings.option? "host").getD "tcp://localhost" ∧
      route.port = some ((settings.option? "port").getD "5900") := by
  refine ⟨_, ofSettings_eq_ok_iff.mpr ⟨hbackend, hknown, rfl⟩, fun request =>
    ⟨_, rfl, ite_self _, rfl, ?_⟩⟩
  show (settings.option? "port").or _ = _
  cases settings.option? "port" <;> rfl

/-- **The port behind a configured host is not used.**  Without a port option, the peer is looked
for at port 5900, whatever port stands behind its host; with one, at the port that was set last.
The port behind the host is the one that the same route would lead to if it had no port. -/
theorem ofSettings_written (settings : Settings) (framings : FramingTable σ)
    (hbackend : settings.backend = defaultBackend)
    (hknown : ∀ option ∈ settings.options, option.1 ∈ optionNames)
    {scheme port : String} {host : HostText} {n : Nat}
    (hscheme : scheme ∈ ["", "tcp://", "udp://"]) (hwritten : host.WellFormed)
    (hport : Text.port? port = some n)
    (hset : settings.option? "host" = some (scheme ++ (host.spelled ++ ":" ++ port))) :
    ∃ b, ofSettings settings framings = .ok b ∧ ∀ request, ∃ route,
      b.route request = some route ∧
      (settings.option? "port" = none →
        route.endpoint = .ok (Route.reached scheme host.text 5900)) ∧
      (∀ own m, settings.option? "port" = some own → Text.port? (Text.trim own) = some m →
        route.endpoint = .ok (Route.reached scheme host.text m)) ∧
      Route.endpoint { route with port := none } = .ok (Route.reached scheme host.text n) := by
  have hfixed : Text.port? "5900" = some 5900 := by decide
  obtain ⟨b, hb, hroutes⟩ := ofSettings_eq settings framings hbackend hknown
  refine ⟨b, hb, fun request => ?_⟩
  obtain ⟨route, hroute, hdetect, hhost, hown⟩ := hroutes request
  rw [hset, Option.getD_some] at hhost
  have hendpoint := route.endpoint_written hdetect hscheme hwritten hport hhost
  have hbare := Route.endpoint_written { route with port := none } hdetect hscheme hwritten hport
    hhost
  rw [hown, Option.getD_some] at hendpoint
  refine ⟨route, hroute, fun hnone => ?_, fun own m hsome hm => ?_, ?_⟩
  · rw [hnone, Option.getD_none, Text.trim_of_unsigned? hfixed, hfixed] at hendpoint
    exact hendpoint
  · rw [hsome, Option.getD_some, hm] at hendpoint
    exact hendpoint
  · simp only [Option.getD_none, Text.trim_of_unsigned? hport, hport] at hbare
    exact hbare

/-- An address in brackets with a port, behind a scheme; a later option names another host. -/
theorem ofSettings_written_literal :
    let settings : Settings :=
      { options := [("host", "tcp://example:80"), ("framing", "json"), ("host", "udp://[::1]:514")] }
    ∃ b, ofSettings settings (FramingTable.standard : FramingTable Unit) = .ok b ∧
      ∀ request, ∃ route, b.route request = some route ∧
        route.endpoint = .ok (.udp "::1" 5900) ∧
        Route.endpoint { route with port := none } = .ok (.udp "::1" 514) := by
  intro settings
  have hwritten : (HostText.literal "::1").WellFormed := by decide
  have hport : Text.port? "514" = some 514 := by decide
  have hset : settings.option? "host" =
      some ("udp://" ++ ((HostText.literal "::1").spelled ++ ":" ++ "514")) := by decide
  obtain ⟨b, hb, hroutes⟩ := ofSettings_written settings .standard rfl (by decide) (by decide)
    hwritten hport hset
  refine ⟨b, hb, fun request => ?_⟩
  obtain ⟨route, hroute, hnone, -, hbare⟩ := hroutes request
  exact ⟨route, hroute, hnone (by decide), hbare⟩

/-- A host option with a port behind the host and no port option, where the peer is not looked for
at this port. -/
theorem ofSettings_misses_port :
    let settings : Settings := { options := [("host", "tcp://localhost:8080")] }
    settings.option? "port" = none ∧
      ∃ b, ofSettings settings (FramingTable.standard : FramingTable Unit) = .ok b ∧
        ∀ request, ∃ route, b.route request = some route ∧
          route.endpoint = .ok (.tcp "localhost" 5900) ∧
          route.endpoint ≠ .ok (.tcp "localhost" 8080) := by
  intro settings
  obtain ⟨b, hb, hroutes⟩ := ofSettings_eq settings (FramingTable.standard : FramingTable Unit) rfl
    (by decide)
  refine ⟨by decide, b, hb, fun request => ?_⟩
  obtain ⟨route, hroute, hdetect, hhost, hown⟩ := hroutes request
  have hport : Text.port? "8080" = some 8080 := by decide
  have hfixed : Text.port? "5900" = some 5900 := by decide
  have hwritten : (HostText.name "localhost").WellFormed := by decide
  have hset : route.host = "tcp://" ++ ((HostText.name "localhost").spelled ++ ":" ++ "8080") :=
    hhost.trans (by decide)
  have hendpoint := route.endpoint_written hdetect (by decide) hwritten hport hset
  have hreached : route.endpoint = .ok (.tcp "localhost" 5900) := by
    rw [hendpoint, hown, Option.getD_some, show settings.option? "port" = none by decide,
      Option.getD_none, Text.trim_of_unsigned? hfixed, hfixed]
    exact congrArg Except.ok (if_neg (by decide))
  refine ⟨route, hroute, hreached, fun h => ?_⟩
  rw [hreached] at h
  cases h

end SinglePeer

end WsRelay
