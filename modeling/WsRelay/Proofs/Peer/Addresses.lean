import WsRelay.Framing.Table
import WsRelay.Peer.Route
import WsRelay.Proofs.Peer.Hosts
import WsRelay.Proofs.Text.Numbers
/-! # Addresses of peers

An address as it is displayed leads to the same address again (`endpoint_display`), unless its host
has a closing bracket of its own.

The host of a network peer is checked as far as it is used (`endpoint_checked`).  A route without a
port of its own leads somewhere only if all of its host is a name or an address in brackets with a
port behind it.  The port of a route goes before the one behind its host, which is then cut off and
not looked at (`endpoint_unchecked`).  Nothing is said of hosts that are not empty but name nothing
(`HostForm.Nameless`). -/

namespace WsRelay

namespace Endpoint

/-- The host of a network address. -/
def host? : Endpoint → Option String
  | tcp host _ | udp host _ => some host
  | unixStream _ | unixDatagram _ | fifoTx _ | fifoRx _ => none

/-- How the address is reached. -/
def transport : Endpoint → Transport
  | tcp .. => .tcp
  | udp .. => .udp
  | unixStream _ => .unixStream
  | unixDatagram _ => .unixDatagram
  | fifoTx _ => .fifoTx
  | fifoRx _ => .fifoRx

/-- The address without its scheme. -/
def bareAddress : Endpoint → String
  | tcp host port | udp host port => hostPort host port
  | unixStream path | unixDatagram path | fifoTx path | fifoRx path => path

/-- A host and a port that are reached over UDP, or else over TCP. -/
def network (t : Transport) (host : String) (port : Nat) : Endpoint :=
  if t = .udp then udp host port else tcp host port

/-- Ports have two bytes, and paths are not empty. -/
def WellFormed : Endpoint → Prop
  | tcp _ port | udp _ port => port < 65536
  | unixStream path | unixDatagram path | fifoTx path | fifoRx path => path ≠ ""

variable {a : Endpoint} {t : Transport} {host : String} {port : Nat}

theorem display_eq (a : Endpoint) : a.display = a.transport.scheme ++ a.bareAddress := by
  cases a <;> rfl

theorem transport_mem (a : Endpoint) : a.transport ∈ Transport.withScheme := by
  cases a <;> simp [transport, Transport.withScheme]

theorem network_wellFormed (h : port < 65536) : (network t host port).WellFormed := by
  unfold network
  split <;> exact h

/-- The form of a host with a port as it is displayed. -/
def hostForm (host : String) (port : Nat) : HostForm :=
  if ':' ∈ host.toList then .literalPort host (toString port) else .namePort host (toString port)

theorem spelled_hostForm (host : String) (port : Nat) :
    (hostForm host port).spelled = hostPort host port := by
  have hsingle : ":" = String.singleton ':' := by decide
  have hcolon : Text.contains host ":" = true ↔ ':' ∈ host.toList := by
    rw [hsingle]
    exact Text.contains_singleton
  unfold hostForm hostPort
  by_cases h : ':' ∈ host.toList
  · simp only [if_pos h, if_pos (hcolon.mpr h), HostForm.spelled]
  · simp only [if_neg h, if_neg (mt hcolon.mp h), HostForm.spelled]

theorem text_hostForm (host : String) (port : Nat) :
    (hostForm host port).text = host ∧ (hostForm host port).port? = some (toString port) := by
  unfold hostForm
  split <;> exact ⟨rfl, rfl⟩

/-- A host without closing brackets is displayed in its own form. -/
theorem wellFormed_hostForm (h : ']' ∉ host.toList) (port : Nat) :
    (hostForm host port).WellFormed := by
  have hdigits (c : Char) (hc : c.isDigit = false) : c ∉ (toString port).toList := by
    intro hmem
    rw [Text.isDigit_of_mem_toString hmem] at hc
    cases hc
  unfold hostForm
  split
  · exact h
  · next hname =>
    refine ⟨hname, hdigits ':' rfl, ?_⟩
    rintro ⟨-, hclosed⟩
    simp only [String.toList_append, List.mem_append] at hclosed
    rcases hclosed with (hclosed | hclosed) | hclosed
    · exact h hclosed
    · simp at hclosed
    · exact hdigits ']' rfl hclosed

theorem hostPort_ne_empty (host : String) (port : Nat) : hostPort host port ≠ "" := by
  unfold hostPort
  split <;> simp only [ne_eq, String.append_eq_empty_iff] <;> simp

end Endpoint

/-- All of the host is used: it is not empty, nothing is left unread, and what stands behind it as a
port is one. -/
def HostForm.Whole (form : HostForm) : Prop :=
  form.text ≠ "" ∧ form.unread = "" ∧ ∀ port ∈ form.port?, ∃ n, Text.IsPort (Text.trim port) n

/-- There is a host, but no name and no address in it. -/
def HostForm.Nameless (form : HostForm) : Prop :=
  form.text = "" ∧ form.spelled ≠ ""

namespace Route

variable {σ τ : Type} {route : Route σ} {t : Transport} {host : String} {form : HostForm}
  {a : Endpoint} {e : Error}

/-! ### What a route leads to -/

/-- The parts of a host that the route of a network peer goes by: its own port comes before the one
behind the host. -/
def LeadsTo (route : Route σ) (t : Transport) (form : HostForm) (a : Endpoint) : Prop :=
  ∃ port n, route.port.or form.port? = some port ∧ Text.IsPort (Text.trim port) n ∧
    a = Endpoint.network t form.text n

theorem hostAndPort_eq_ok_iff (h : form.WellFormed) {p : String × Nat} :
    route.hostAndPort form.spelled = .ok p ↔ ∃ port n, route.port.or form.port? = some port ∧
      Text.IsPort (Text.trim port) n ∧ p = (form.text, n) := by
  rw [hostAndPort, form.cutPort_spelled h]
  simp only [← Text.port?_eq_some_iff]
  cases hport : route.port.or form.port? with
  | none => simp
  | some port =>
      cases hn : Text.port? (Text.trim port) with
      | none => simp [hn]
      | some n => simp [hn, eq_comm]

theorem hostAndPort_error {host : String} (h : route.hostAndPort host = .error e) :
    ∃ message, e = .peerConnect route.host message := by
  unfold hostAndPort at h
  dsimp only at h
  split at h
  · cases h
    exact ⟨_, rfl⟩
  · split at h
    · cases h
      exact ⟨_, rfl⟩
    · cases h

/-- The endpoint of a network peer. -/
theorem endpoint_network (htarget : route.target = (t, host)) (hnetwork : t.hasPort = true) :
    route.endpoint = if host = "" then .error (.peerConnect route.host "empty peer address")
      else (route.hostAndPort host).map fun (name, port) => Endpoint.network t name port := by
  rw [endpoint, htarget]
  cases t <;> first | rfl | cases hnetwork

/-- A network peer is reached if there is a host and a port. -/
theorem endpoint_eq_ok_iff (htarget : route.target = (t, form.spelled))
    (hnetwork : t.hasPort = true) (h : form.WellFormed) :
    route.endpoint = .ok a ↔ form.spelled ≠ "" ∧ route.LeadsTo t form a := by
  rw [endpoint_network htarget hnetwork]
  split
  · next hempty => simp [hempty]
  · next hne =>
    have hparts (p : String × Nat) : route.hostAndPort form.spelled = .ok p ↔ _ :=
      hostAndPort_eq_ok_iff h
    cases hread : route.hostAndPort form.spelled with
    | error e =>
        simp only [Except.map, reduceCtorEq, false_iff, not_and]
        rintro - ⟨port, n, hport, hn, rfl⟩
        have hok := (hparts (form.text, n)).mpr ⟨port, n, hport, hn, rfl⟩
        rw [hread] at hok
        cases hok
    | ok p =>
        obtain ⟨port, n, hport, hn, rfl⟩ := (hparts p).mp hread
        simp only [Except.map, Except.ok.injEq]
        constructor
        · rintro rfl
          exact ⟨hne, port, n, hport, hn, rfl⟩
        · rintro ⟨-, port', n', hport', hn', rfl⟩
          rw [hport] at hport'
          obtain rfl := Option.some.inj hport'
          rw [← Text.port?_eq_some_iff] at hn hn'
          rw [hn] at hn'
          rw [Option.some.inj hn']

/-- Whatever is wrong with an address, the peer cannot be reached. -/
theorem endpoint_error_eq (h : route.endpoint = .error e) :
    ∃ message, e = .peerConnect route.host message := by
  have hmap {f : String × Nat → Endpoint} {host : String}
      (h : (route.hostAndPort host).map f = .error e) :
      ∃ message, e = .peerConnect route.host message := by
    cases hread : route.hostAndPort host with
    | error e' =>
        rw [hread] at h
        cases h
        exact hostAndPort_error hread
    | ok p =>
        rw [hread] at h
        cases h
  unfold endpoint at h
  dsimp only at h
  split at h
  · cases h
    exact ⟨_, rfl⟩
  · split at h <;> first | exact hmap h | cases h

/-- A target is reached in one way, which has a scheme of its own. -/
theorem target_ne_detect (route : Route σ) : route.target.1 ≠ .detect := by
  have hhost (host : String) : (Transport.ofHost host).1 ≠ .detect := by
    unfold Transport.ofHost
    cases hfound : Transport.withScheme.findSome?
        fun t => (Text.stripStart? t.scheme host).map (t, ·) with
    | none => simp
    | some p =>
        obtain ⟨t, ht, hp⟩ := List.exists_of_findSome?_eq_some hfound
        obtain ⟨rest, -, rfl⟩ := Option.map_eq_some_iff.mp hp
        rintro rfl
        simp [Transport.withScheme] at ht
  unfold target
  cases htransport : route.transport <;> simp [hhost]

/-- What is resolved is well-formed. -/
theorem wellFormed_of_endpoint (h : route.endpoint = .ok a) : a.WellFormed := by
  rcases htarget : route.target with ⟨t, host⟩
  by_cases hnetwork : t.hasPort = true
  · obtain ⟨form, hform, rfl⟩ := HostForm.exists_spelled host
    obtain ⟨-, port, n, -, hn, rfl⟩ := (endpoint_eq_ok_iff htarget hnetwork hform).mp h
    exact Endpoint.network_wellFormed hn.lt
  · have hdetect := route.target_ne_detect
    rw [endpoint, htarget] at h
    rw [htarget] at hdetect
    dsimp only at h hdetect
    split at h
    · cases h
    · next hne =>
      cases t with
      | detect => exact absurd rfl hdetect
      | tcp | udp => exact absurd rfl hnetwork
      | unixStream | unixDatagram | fifoTx | fifoRx =>
          cases h
          exact hne

/-! ### Displayed addresses -/

theorem target_display (a : Endpoint) (framing : Framing τ) :
    ({ host := a.display, framing } : Route τ).target = (a.transport, a.bareAddress) := by
  rw [a.display_eq]
  exact Transport.ofHost_scheme a.transport_mem a.bareAddress

/-- A network address is found in what it is displayed as. -/
theorem leadsTo_display {port : Nat} (t : Transport) (hport : port < 65536)
    (framing : Framing τ) (shown : String) :
    ({ host := shown, framing } : Route τ).LeadsTo t (Endpoint.hostForm host port)
      (Endpoint.network t host port) := by
  obtain ⟨htext, hsuffix⟩ := Endpoint.text_hostForm host port
  have hread := Text.port?_toString hport
  refine ⟨toString port, port, hsuffix, ?_, ?_⟩
  · rw [Text.trim_of_unsigned? hread]
    exact Text.port?_eq_some_iff.mp hread
  · rw [htext]

/-- A well-formed address leads to itself if its host has no closing bracket. -/
theorem endpoint_of_display (ha : a.WellFormed) (hhost : ∀ host ∈ a.host?, ']' ∉ host.toList)
    (framing : Framing τ) : ({ host := a.display, framing } : Route τ).endpoint = .ok a := by
  have htarget := target_display a framing
  have hnetwork (t : Transport) (host : String) (port : Nat) (ht : t.hasPort = true)
      (hport : port < 65536) (hhost : ']' ∉ host.toList)
      (htarget : ({ host := a.display, framing } : Route τ).target =
        (t, Endpoint.hostPort host port)) :
      ({ host := a.display, framing } : Route τ).endpoint = .ok (.network t host port) := by
    rw [← Endpoint.spelled_hostForm] at htarget
    rw [endpoint_eq_ok_iff htarget ht (Endpoint.wellFormed_hostForm hhost port)]
    refine ⟨?_, leadsTo_display t hport framing _⟩
    rw [Endpoint.spelled_hostForm]
    exact Endpoint.hostPort_ne_empty host port
  cases a with
  | tcp host port => exact hnetwork .tcp host port rfl ha (hhost host rfl) htarget
  | udp host port => exact hnetwork .udp host port rfl ha (hhost host rfl) htarget
  | unixStream path | unixDatagram path | fifoTx path | fifoRx path =>
      rw [endpoint, htarget]
      exact if_neg ha

/-- **Addresses are read back as they are displayed.**  If a route leads to an address, then the
address as it is displayed, with no transport and no port set, leads there as well, unless its host
has a closing bracket.  No scheme hides another, and an address with colons keeps its brackets from
its port. -/
theorem endpoint_display (framing : Framing τ) :
    (∀ (route : Route σ) (a : Endpoint), route.endpoint = .ok a →
      (∀ host ∈ a.host?, ']' ∉ host.toList) →
      ({ host := a.display, framing } : Route τ).endpoint = .ok a) ∧
    (∀ t ∈ Transport.withScheme, ∀ rest, Transport.ofHost (t.scheme ++ rest) = (t, rest)) ∧
    ∀ (literal : String) (port : Nat), ':' ∈ literal.toList → ']' ∉ literal.toList →
      Endpoint.hostPort literal port = "[" ++ literal ++ "]:" ++ toString port ∧
      Endpoint.cutPort (Endpoint.hostPort literal port) = (literal, some (toString port)) := by
  refine ⟨?_, ?_, ?_⟩
  · intro route a h hhost
    exact endpoint_of_display (wellFormed_of_endpoint h) hhost framing
  · intro t ht rest
    exact Transport.ofHost_scheme ht rest
  · intro literal port hcolon hclosed
    have hform := Endpoint.wellFormed_hostForm hclosed port
    have hspelled := Endpoint.spelled_hostForm literal port
    obtain ⟨htext, hport⟩ := Endpoint.text_hostForm literal port
    constructor
    · rw [← hspelled, Endpoint.hostForm, if_pos hcolon, HostForm.spelled]
    · rw [← hspelled, HostForm.cutPort_spelled hform, htext, hport]

/-- An address of IPv6 without brackets, whose port is set with blanks and a sign. -/
theorem endpoint_display_bare :
    let framing : Framing Unit := FramingTable.standard.fallback
    let route : Route Unit := { host := "::1", port := some " +22", framing }
    route.endpoint = .ok (.tcp "::1" 22) ∧
      (Endpoint.tcp "::1" 22).display = "tcp://[::1]:22" ∧
      ({ host := "tcp://[::1]:22", framing } : Route Unit).endpoint = .ok (.tcp "::1" 22) := by
  intro framing route
  have hroute : route.endpoint = .ok (.tcp "::1" 22) := by decide
  have hshown : (Endpoint.tcp "::1" 22).display = "tcp://[::1]:22" := by decide
  have hback := (endpoint_display (σ := Unit) framing).1 route _ hroute (by
    rintro host ⟨⟩
    decide)
  rw [hshown] at hback
  exact ⟨hroute, hshown, hback⟩

/-! ### Checked hosts -/

/-- Behind a host that is not left unread stands its port, if there is one. -/
theorem spelled_of_port? {port : String} (h : form.port? = some port) :
    form.spelled = form.text ++ ":" ++ port ∨ form.spelled = "[" ++ form.text ++ "]:" ++ port := by
  cases form with
  | name | literal | bare => cases h
  | namePort text suffix =>
      cases h
      exact .inl rfl
  | literalPort text suffix =>
      cases h
      exact .inr rfl

/-- A route without a port of its own leads to an address by all of its host. -/
theorem whole_of_leadsTo (hown : route.port = none) (htext : form.text ≠ "")
    (h : route.LeadsTo t form a) :
    form.Whole ∧ ∃ port, form.port? = some port ∧
      (form.spelled = form.text ++ ":" ++ port ∨
        form.spelled = "[" ++ form.text ++ "]:" ++ port) := by
  obtain ⟨port, n, hport, hn, -⟩ := h
  rw [hown, Option.none_or] at hport
  have hunread : form.unread = "" := by
    cases form with
    | name | literal | bare => cases hport
    | namePort | literalPort => rfl
  refine ⟨⟨htext, hunread, fun suffix hsuffix => ⟨n, ?_⟩⟩, port, hport, spelled_of_port? hport⟩
  rw [Option.some.inj (hsuffix.symm.trans hport)]
  exact hn

/-- **The host of a network peer is checked as far as it is used.**  What goes wrong is that the
peer cannot be reached.  An address has a host, the one that is written, and the port of the route or
else the one behind the host, in decimal digits.  Without a port of its own, a route leads somewhere
only if all of its host is used: it is a name or an address in brackets with a port behind it.  A
host that leaves nothing unread leads to its address exactly if it is not empty and there is a
port. -/
theorem endpoint_checked (route : Route σ) (htarget : route.target = (t, host))
    (hnetwork : t.hasPort = true) :
    (∀ e, route.endpoint = .error e → ∃ message, e = .peerConnect route.host message) ∧
    (∃ form : HostForm, form.WellFormed ∧ form.spelled = host) ∧
    ∀ form : HostForm, form.WellFormed → form.spelled = host → ¬ form.Nameless →
      (∀ a, route.endpoint = .ok a → form.text ≠ "" ∧ route.LeadsTo t form a) ∧
      (route.port = none → ∀ a, route.endpoint = .ok a →
        form.Whole ∧ ∃ port, form.port? = some port ∧
          (host = form.text ++ ":" ++ port ∨ host = "[" ++ form.text ++ "]:" ++ port)) ∧
      (form.unread = "" →
        ∀ a, route.endpoint = .ok a ↔ form.text ≠ "" ∧ route.LeadsTo t form a) := by
  refine ⟨fun e h => endpoint_error_eq h, HostForm.exists_spelled host, ?_⟩
  rintro form hform rfl hnamed
  have hiff (a : Endpoint) := endpoint_eq_ok_iff (a := a) htarget hnetwork hform
  have hchecked (a : Endpoint) (h : route.endpoint = .ok a) :
      form.text ≠ "" ∧ route.LeadsTo t form a := by
    obtain ⟨hne, hleads⟩ := (hiff a).mp h
    exact ⟨fun hempty => hnamed ⟨hempty, hne⟩, hleads⟩
  refine ⟨hchecked, fun hown a h => ?_, fun _ a => ⟨hchecked a, fun ⟨htext, hleads⟩ => ?_⟩⟩
  · obtain ⟨htext, hleads⟩ := hchecked a h
    exact whole_of_leadsTo hown htext hleads
  · refine (hiff a).mpr ⟨?_, hleads⟩
    cases form <;> simp_all [HostForm.spelled, HostForm.text]

/-- A host in brackets with its port behind it, where there is no other. -/
theorem endpoint_checked_literal :
    let route : Route Unit := { host := "udp://[::1]:514", framing := FramingTable.standard.fallback }
    route.target = (.udp, "[::1]:514") ∧ Transport.udp.hasPort = true ∧
      route.LeadsTo .udp (.literalPort "::1" "514") (.udp "::1" 514) ∧
      route.endpoint = .ok (.udp "::1" 514) := by
  intro route
  have htarget : route.target = (.udp, "[::1]:514") := by decide
  have hform : (HostForm.literalPort "::1" "514").WellFormed := by
    show ']' ∉ "::1".toList
    decide
  have htext : (HostForm.literalPort "::1" "514").text ≠ "" := by decide
  have hleads : route.LeadsTo .udp (.literalPort "::1" "514") (.udp "::1" 514) :=
    ⟨"514", 514, rfl, Text.port?_eq_some_iff.mp (by decide), rfl⟩
  obtain ⟨-, -, hforms⟩ := endpoint_checked route htarget rfl
  obtain ⟨-, -, hreached⟩ :=
    hforms (.literalPort "::1" "514") hform (by decide) fun hnameless => htext hnameless.1
  exact ⟨htarget, rfl, hleads, (hreached rfl _).mpr ⟨htext, hleads⟩⟩

/-- A host that leads somewhere though what stands behind its name is no port: the route has a port
of its own. -/
theorem endpoint_unchecked :
    let route : Route Unit :=
      { host := "localhost:http", port := some "22", framing := FramingTable.standard.fallback }
    route.target = (.tcp, "localhost:http") ∧ route.endpoint = .ok (.tcp "localhost" 22) ∧
      ¬ ∃ form : HostForm, form.WellFormed ∧ form.spelled = "localhost:http" ∧ form.Whole := by
  intro route
  refine ⟨by decide, by decide, ?_⟩
  rintro ⟨form, hform, hspelled, -, -, hport⟩
  have hcut := HostForm.cutPort_spelled hform
  have hparts : Endpoint.cutPort "localhost:http" = ("localhost", some "http") := by decide
  rw [hspelled, hparts] at hcut
  obtain ⟨n, hn⟩ := hport "http" (Prod.mk.inj hcut).2.symm
  rw [← Text.port?_eq_some_iff] at hn
  have hnone : Text.port? (Text.trim "http") = none := by decide
  rw [hnone] at hn
  cases hn

end Route

end WsRelay
