import WsRelay.Proofs.Json.Tokens
import WsRelay.Proofs.Peer.Datagrams
/-! # Connections and the framings of this library

A connection asks its framing about the peer's buffer over and over, until the framing waits for more
or fails (`forward_stops`).  The framings of this library never look where there is nothing, and
never take more than there is (`guardedStandard`, `reliable_standard`).  So a connection that uses
one of them never has a framing to report that took too much, and when it is done without a failure
nothing is left in the buffer that the framing would not wait with if it were asked again
(`standard_contract`). -/

namespace WsRelay

variable {σ : Type}

namespace Framing

/-- The framings of this library, each with its guarded rule. -/
def guardedStandard : List (Framing σ × Guarded σ) :=
  [(⟨"binary", binary⟩, Rule.unguarded binary), (⟨"auto", auto⟩, Rule.unguarded auto),
    (Configurable.separator.framing, Configurable.separator.guarded),
    (Configurable.newline.framing, Configurable.newline.guarded),
    (Configurable.fixedLength.framing, Configurable.fixedLength.guarded),
    (Configurable.lengthPrefixed.framing, Configurable.lengthPrefixed.guarded),
    (⟨"json", jsonValue⟩, guardedJsonValue)]

/-- These are all there are. -/
theorem map_guardedStandard :
    guardedStandard.map Prod.fst = (FramingTable.standard (σ := σ)).entries := rfl

variable {framing : Framing σ} {guarded : Guarded σ}

theorem get?_guardedStandard (h : (framing, guarded) ∈ guardedStandard) :
    FramingTable.standard.get? framing.name = some framing := by
  simp only [guardedStandard, List.mem_cons, Prod.mk.injEq, List.not_mem_nil, or_false] at h
  rcases h with ⟨rfl, -⟩ | ⟨rfl, -⟩ | ⟨rfl, -⟩ | ⟨rfl, -⟩ | ⟨rfl, -⟩ | ⟨rfl, -⟩ | ⟨rfl, -⟩ <;> rfl

theorem guardedStandard_eq (h : (framing, guarded) ∈ guardedStandard) (data : Bytes)
    (lastRead : Nat) (config : String) (memory : Memory σ) :
    guarded data lastRead config memory = some (framing.rule data lastRead config memory) := by
  simp only [guardedStandard, List.mem_cons, Prod.mk.injEq, List.not_mem_nil, or_false] at h
  rcases h with ⟨rfl, rfl⟩ | ⟨rfl, rfl⟩ | ⟨rfl, rfl⟩ | ⟨rfl, rfl⟩ | ⟨rfl, rfl⟩ | ⟨rfl, rfl⟩ |
    ⟨rfl, rfl⟩
  · rfl
  · rfl
  · exact Configurable.separator.guarded_eq data lastRead config memory
  · exact Configurable.newline.guarded_eq data lastRead config memory
  · exact Configurable.fixedLength.guarded_eq data lastRead config memory
  · exact Configurable.lengthPrefixed.guarded_eq data lastRead config memory
  · exact guardedJsonValue_eq data lastRead config memory

theorem reliable_standard {name : String} (h : FramingTable.standard.get? name = some framing) :
    Reliable framing.rule := by
  have hmem := List.mem_of_find?_eq_some h
  simp only [FramingTable.standard, List.mem_cons, List.not_mem_nil, or_false] at hmem
  rcases hmem with rfl | rfl | rfl | rfl | rfl | rfl | rfl
  · exact reliable_binary
  · exact reliable_auto
  · exact Configurable.separator.reliable
  · exact Configurable.newline.reliable
  · exact Configurable.fixedLength.reliable
  · exact Configurable.lengthPrefixed.reliable
  · exact reliable_jsonValue

end Framing

namespace Connection

open Framing

variable {route : Route σ} {c d : Connection σ} {lastRead : Nat} {outcome : Except Error Unit}

theorem Stops.not_overrun (h : Stops route lastRead c outcome d)
    (hrule : Reliable route.framing.rule) (name : String) (taken buffered : Nat) :
    outcome ≠ .error (.framing name (.overrun taken buffered)) := by
  have hanswer : Answers c.peerBuffer (c.answer route lastRead).1 := hrule _ _ _ _
  cases h with
  | empty => exact nofun
  | waits => exact nofun
  | refused h =>
      rw [h] at hanswer
      rintro ⟨⟩
      exact hanswer _ _ rfl
  | overrun h hover =>
      rw [h] at hanswer
      exact absurd hanswer.1 (Nat.not_le_of_lt hover)
  | unsent => exact nofun

/-- A framing to which it makes no difference that it has been asked before waits with what is
left. -/
theorem Stops.waits_on (h : Stops route lastRead c (.ok ()) d) (hrule : Steady route.framing.rule) :
    d.peerBuffer = [] ∨ ∃ kind, (route.framing.rule d.peerBuffer (min lastRead d.peerBuffer.length)
      route.framingConfig d.memory).1 = .ok ⟨0, kind⟩ := by
  cases h with
  | empty h => exact .inl h
  | @waits kind memory h =>
      have hmemory := congrArg Prod.snd h
      rw [answer] at h hmemory
      refine .inr ⟨kind, ?_⟩
      dsimp only at hmemory ⊢
      rw [← hmemory, hrule, h]

/-- **The framings of this library keep to what connections rely on**, all that are in the table.
Whatever they are asked, and whatever they find in their memory, they do not look where there is
nothing, and a unit they cut is in the buffer and is text or binary.  A connection to a peer with
such a framing does not come to report that the framing took too much, and when it has forwarded what
it could without a failure, nothing is left or the framing would again wait with what is left. -/
theorem standard_contract :
    guardedStandard.map Prod.fst = (FramingTable.standard (σ := σ)).entries ∧
    ∀ (framing : Framing σ) (guarded : Guarded σ), (framing, guarded) ∈ guardedStandard →
      (∀ data lastRead config memory,
        guarded data lastRead config memory = some (framing.rule data lastRead config memory) ∧
          ∀ cut, (framing.rule data lastRead config memory).1 = .ok cut →
            cut.length ≤ data.length ∧ (cut.kind = .text ∨ cut.kind = .binary)) ∧
        ∀ (c : Connection σ) (route : Route σ) (lastRead : Nat), c.route = some route →
          route.framing = framing →
            let (outcome, d) := c.forward lastRead
            (∀ name taken buffered, outcome ≠ .error (.framing name (.overrun taken buffered))) ∧
              (outcome = .ok () → d.peerBuffer = [] ∨
                ∃ kind, (framing.rule d.peerBuffer (min lastRead d.peerBuffer.length)
                  route.framingConfig d.memory).1 = .ok ⟨0, kind⟩) := by
  refine ⟨map_guardedStandard, fun framing guarded h => ?_⟩
  have hget := get?_guardedStandard h
  have hreliable := reliable_standard hget
  refine ⟨fun data lastRead config memory => ⟨guardedStandard_eq h _ _ _ _, fun cut hcut => ?_⟩,
    ?_⟩
  · have hanswers := hreliable data lastRead config memory
    rw [hcut] at hanswers
    exact hanswers
  · rintro c route lastRead hroute rfl
    obtain ⟨b, -, hstops⟩ := forward_stops hroute lastRead
    rcases hforward : c.forward lastRead with ⟨outcome, d⟩
    rw [hforward] at hstops
    refine ⟨hstops.not_overrun hreliable, ?_⟩
    rintro rfl
    exact hstops.waits_on (steady_standard hget)

/-- The framing finds the layout of another one in its memory, and more bytes are said to have been
read last than there are. -/
theorem standard_contract_lines :
    let lines := Configurable.newline
    let route : Route Unit := { host := "", framing := lines.framing, framingConfig := " lf " }
    let c : Connection Unit :=
      { id := ⟨0, 0⟩, phase := .relaying, dial := fun _ => .error .unsupported,
        peer := some (.stream {}), route := some route, memory := .layout {},
        peerBuffer := [104, 105, 10, 255, 10, 13] }
    let d := (c.forward 100).2
    ((lines.framing, lines.guarded (σ := Unit)) ∈ guardedStandard ∧ c.route = some route ∧
      (c.forward 100).1 = .ok ()) ∧
      d.peerBuffer = [13] ∧
      d.toClient.taken = [.frame .text [104, 105, 10], .frame .binary [255, 10]] ∧
      (∃ answer, lines.guarded d.peerBuffer 100 " lf " d.memory = some answer) ∧
      ∃ kind, (lines.framing.rule d.peerBuffer (min 100 d.peerBuffer.length) " lf " d.memory).1 =
        .ok ⟨0, kind⟩ := by
  intro lines route c d
  have hmem : (lines.framing, lines.guarded (σ := Unit)) ∈ guardedStandard := by
    simp [guardedStandard, lines]
  have hok : (c.forward 100).1 = .ok () := by decide +kernel
  have hbuffer : d.peerBuffer = [13] := by decide +kernel
  have htaken : d.toClient.taken = [.frame .text [104, 105, 10], .frame .binary [255, 10]] := by
    decide +kernel
  obtain ⟨-, hcontract⟩ := standard_contract (σ := Unit)
  obtain ⟨hrule, hforward⟩ := hcontract _ _ hmem
  obtain ⟨hguarded, -⟩ := hrule d.peerBuffer 100 " lf " d.memory
  obtain ⟨-, hwaits⟩ := hforward c route 100 rfl rfl
  have hleft : d.peerBuffer ≠ [] := by
    rw [hbuffer]
    exact List.cons_ne_nil _ _
  exact ⟨⟨hmem, rfl, hok⟩, hbuffer, htaken, ⟨_, hguarded⟩, (hwaits hok).resolve_left hleft⟩

end Connection

end WsRelay
