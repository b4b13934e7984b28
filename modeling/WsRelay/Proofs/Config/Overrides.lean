import WsRelay.Config.CommandLine
import WsRelay.Proofs.Config.Entries
import WsRelay.Proofs.Peer.Protocols
import WsRelay.Proofs.Text.Boundaries
/-! # Which settings count

A setting is given on the command line, in the configuration file, or by default, and what is given
first in this order counts (`CommandLine.settings_eq`).  The options of the command line stand
behind those of the file, so they go before them when the backend is set up.

The peer that connections are sent to is made up of the last option of each name
(`SinglePeer.route_eq`).  `settings_effective` says both, from the file and the flags to the
peer. -/

namespace WsRelay

open Settings (Entry entriesOf lastCore? optionsOf)

variable {σ : Type} {line : CommandLine} {open? : String → Except IoFault Bytes}
variable {es : List Entry}

/-! ### The settings -/

namespace CommandLine

/-- What the configuration file of a command line sets: nothing if none is named, and else what its
lines say, if all of them are right. -/
inductive FileSets (line : CommandLine) (open? : String → Except IoFault Bytes) :
    List Entry → Prop
  | unnamed (h : line.config = none) : FileSets line open? []
  | named {path text : String} {bytes : Bytes} {s : Settings} (hpath : line.config = some path)
    (hopen : open? path = .ok bytes) (htext : Utf8.decode? bytes = some text)
    (hparse : Settings.parse text path = .ok s) : FileSets line open? (entriesOf text)

/-- The settings that a command line and the entries of a file come to. -/
def effective (line : CommandLine) (es : List Entry) : Settings where
  listen := (line.listen.or (lastCore? "listen" es)).getD "::"
  port := (line.port.or ((lastCore? "port" es).bind Text.port?)).getD 8001
  backend := (line.backend.or (lastCore? "backend" es)).getD defaultBackend
  options := optionsOf es ++ line.options

/-- Flags go before what a file says. -/
theorem effective_of_followFrom {s : Settings} (h : s.FollowFrom es) :
    line.effective es =
      { listen := line.listen.getD s.listen
        port := line.port.getD s.port
        backend := line.backend.getD s.backend
        options := s.options ++ line.options } := by
  have hport : ((lastCore? "port" es).bind Text.port?).getD 8001 = s.port := by
    rcases h.port with ⟨hnone, hdefault⟩ | ⟨value, hvalue, hread⟩
    · rw [hnone, hdefault]
      rfl
    · rw [hvalue, Option.bind_some, hread]
      rfl
  simp only [effective, h.listen, h.backend, h.options, ← hport, Option.getD_or]

/-- A setting is what its flag says, without one what the last line of the file for it says, and
without either its default. -/
theorem settings_eq (h : line.FileSets open? es) :
    line.settings open? = .ok (line.effective es) := by
  cases h with
  | unnamed hnone =>
      rw [effective_of_followFrom Settings.followFrom_nil, settings, hnone]
      rfl
  | named hpath hopen htext hparse =>
      rw [effective_of_followFrom (Settings.parse_followFrom hparse), settings, hpath]
      simp only [Settings.ofFile, hopen, htext, hparse]
      rfl

/-- The port a file sets last is a port: with a wrong one the file would not have been read. -/
theorem FileSets.port?_isSome {value : String} (h : line.FileSets open? es)
    (hvalue : lastCore? "port" es = some value) : (Text.port? value).isSome = true := by
  cases h with
  | unnamed hnone => cases hvalue
  | named hpath hopen htext hparse =>
      rcases (Settings.parse_followFrom hparse).port with ⟨hnone, -⟩ | ⟨other, hother, hport⟩
      · rw [hnone] at hvalue
        cases hvalue
      · rw [hother] at hvalue
        cases hvalue
        rw [hport]
        rfl

/-- An option of the command line goes before those of its name in the file. -/
theorem effective_option? (line : CommandLine) (es : List Entry) (name : String) :
    (line.effective es).option? name =
      (line.options.reverse.lookup name).or ((optionsOf es).reverse.lookup name) := by
  rw [Settings.option?, effective, List.reverse_append, List.lookup_append]

end CommandLine

/-! ### The peer -/

/-- The peer that options lead to: each of its parts goes by the last option of its name. -/
def Settings.route (s : Settings) (framings : FramingTable σ) (offers : List String) : Route σ where
  transport := .detect
  host := (s.option? "host").getD "tcp://localhost"
  port := some ((s.option? "port").getD "5900")
  framing := match s.option? "framing" with
    | some name => framings.find (some name)
    | none => ⟨"auto", Framing.auto⟩
  framingConfig := (s.option? "framing-config").getD ""
  protocol := (s.option? "protocol").bind fun wanted => offers.findIdx? (takes wanted)

/-- **A connection is sent where the last option of each name says.** -/
theorem SinglePeer.route_eq {s : Settings} {framings : FramingTable σ} {b : SinglePeer σ}
    (h : ofSettings s framings = .ok b) (request : Enquiry) :
    b.route request = some (s.route framings request.protocols) := by
  obtain ⟨-, -, rfl⟩ := ofSettings_eq_ok_iff.mp h
  have htransport : (if (s.option? "host").isSome then Transport.detect else .detect) = .detect :=
    ite_self _
  have hport : (s.option? "port").or (some "5900") = some ((s.option? "port").getD "5900") := by
    cases s.option? "port" <;> rfl
  have hframing : ((s.option? "framing").map fun name => framings.find (some name)).getD
      ⟨"auto", Framing.auto⟩ = (s.route framings request.protocols).framing := by
    rw [Settings.route]
    cases s.option? "framing" <;> rfl
  simp only [route, chooseOffer?_eq, configured, new, startPeer, htransport, hport, hframing,
    Option.or_none]
  rfl

/-- **From the command line and the file to the peer.**  The host, the port and the backend are what
their flags say, without these what the last line of the file for them says, and without either
their defaults; the options are those of the file and then those of the command line.  The one
backend there is takes them if all of their names are known.  It then sends every connection to the
peer that the last option of each name says, which is one of the command line if there is one; and
options of different names may change places. -/
theorem settings_effective (h : line.FileSets open? es) (framings : FramingTable σ) :
    ∃ s, line.settings open? = .ok s ∧
      s.listen = (line.listen.or (lastCore? "listen" es)).getD "::" ∧
      s.port = (line.port.or ((lastCore? "port" es).bind Text.port?)).getD 8001 ∧
      (∀ value, lastCore? "port" es = some value → (Text.port? value).isSome = true) ∧
      s.backend = (line.backend.or (lastCore? "backend" es)).getD defaultBackend ∧
      s.options = optionsOf es ++ line.options ∧
      (∀ name, s.option? name =
        (line.options.reverse.lookup name).or ((optionsOf es).reverse.lookup name)) ∧
      (s.backend = defaultBackend →
        ((∃ b, SinglePeer.ofSettings s framings = .ok b) ↔
          ∀ option ∈ s.options, option.1 ∈ SinglePeer.optionNames) ∧
        ∀ b, SinglePeer.ofSettings s framings = .ok b →
          (∀ request, b.route request = some (s.route framings request.protocols)) ∧
          ∀ options : List (String × String),
            (∀ name, options.filter (·.1 = name) = s.options.filter (·.1 = name)) →
              SinglePeer.ofSettings { s with options } framings = .ok b) := by
  refine ⟨line.effective es, CommandLine.settings_eq h, rfl, rfl, fun _ => h.port?_isSome, rfl, rfl,
    CommandLine.effective_option? line es, fun hbackend => ⟨?_, fun b hb => ⟨?_, ?_⟩⟩⟩
  · constructor
    · rintro ⟨b, hb⟩
      exact (SinglePeer.ofSettings_eq_ok_iff.mp hb).2.1
    · exact fun hknown => ⟨_, SinglePeer.ofSettings_eq_ok_iff.mpr ⟨hbackend, hknown, rfl⟩⟩
  · exact SinglePeer.route_eq hb
  · exact fun options hsame => SinglePeer.ofSettings_reordered hsame hb

/-- A file and a command line that both name a host, and what comes of it. -/
theorem settings_effective_pair :
    let text := "port = 7000\n[backend]\nhost = near\nport = 1"
    let line : CommandLine :=
      { config := some "relay.conf", listen := some "::1", options := [("host", "far")] }
    let open? : String → Except IoFault Bytes := fun _ => .ok (Utf8.encode text)
    line.FileSets open? (entriesOf text) ∧
      ∃ s b, line.settings open? = .ok s ∧ s.listen = "::1" ∧ s.port = 7000 ∧
        SinglePeer.ofSettings s (FramingTable.standard : FramingTable Unit) = .ok b ∧
        (∀ request, ∃ route, b.route request = some route ∧ route.host = "far" ∧
          route.port = some "1") ∧
        SinglePeer.ofSettings
          { s with options := [("port", "1"), ("host", "near"), ("host", "far")] }
          (FramingTable.standard : FramingTable Unit) = .ok b := by
  intro text line open?
  have hparse : Settings.parse text "relay.conf" =
      .ok { port := 7000, options := [("host", "near"), ("port", "1")] } := by decide +kernel
  have hfile : line.FileSets open? (entriesOf text) :=
    .named rfl rfl (Utf8.decode?_encode text) hparse
  have hentries : entriesOf text =
      [⟨.core, "port", "7000"⟩, ⟨.backend, "host", "near"⟩, ⟨.backend, "port", "1"⟩] := by
    decide +kernel
  obtain ⟨s, hs, hlisten, hport, -, hbackend, hoptions, hover, hpeer⟩ :=
    settings_effective hfile (FramingTable.standard : FramingTable Unit)
  rw [hentries] at hlisten hport hbackend hoptions hover
  replace hoptions : s.options = [("host", "near"), ("port", "1"), ("host", "far")] := hoptions
  obtain ⟨hset, hroute⟩ := hpeer (hbackend.trans (by decide))
  obtain ⟨b, hb⟩ := hset.mpr (by rw [hoptions]; decide)
  obtain ⟨hroutes, hmoved⟩ := hroute b hb
  refine ⟨hfile, s, b, hs, hlisten.trans (by decide), hport.trans (by decide), hb,
    fun request => ⟨_, hroutes request, ?_, ?_⟩, hmoved _ fun name => ?_⟩
  · show (s.option? "host").getD _ = _
    rw [hover]
    decide
  · show some ((s.option? "port").getD _) = _
    rw [hover]
    decide
  · -- the two options of one name keep their order
    rw [hoptions]
    by_cases hname : "port" = name
    · subst hname
      decide
    · simp [List.filter_cons, hname]

end WsRelay
