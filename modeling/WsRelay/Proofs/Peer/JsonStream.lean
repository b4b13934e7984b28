import WsRelay.Proofs.Json.Stream
import WsRelay.Proofs.Peer.Chunking
/-! # Streams of JSON values from a peer

With the framing by JSON values, every value that its last byte closes is sent to the client as one
frame, with the blanks before it, however the stream is cut (`hearPeer_jsonUnits`). -/

namespace WsRelay.Connection

open Framing

variable {σ : Type} {route : Route σ} {c : Connection σ}

/-- The frame a client is sent for a unit: text if it looks like it. -/
def unitFrame (u : Bytes) : Reply :=
  .frame (if isTextual u then .text else .binary) u

theorem reply?_textKind (u : Bytes) : Message.reply? ⟨textKind u, u⟩ = some (unitFrame u) := by
  unfold Message.reply? textKind unitFrame
  split <;> rfl

/-- **Every unit of a stream of JSON values is sent as one frame**, in order, however the stream is
cut: a connection that has just been upgraded goes on after every arrival, and is left with the
blanks behind the last unit.  No part of a unit that is cut off before its end is forwarded. -/
theorem hearPeer_jsonUnits (hframing : FramingTable.standard.get? "json" = some route.framing)
    (hc : JustUpgraded route c) (hout : c.toClient.TakesAll) {units : List Bytes} {trailing : Bytes}
    (hunits : ∀ u ∈ units, Json.IsUnit u ∧ u.length ≤ bufferCapacity)
    (htrailing : Json.Blanks trailing) (hshort : trailing.length < bufferCapacity)
    {pieces : List Bytes} (h : pieces.flatten = units.flatten ++ trailing) :
    let r := hearPeer.takeAll pieces c
    r.1 = .continue ∧ r.2.toClient.taken = c.toClient.taken ++ units.map unitFrame ∧
      r.2.peerBuffer = trailing ∧
      ∀ u ∈ units, ∀ p, p <+: u → p ≠ u → ∀ lastRead memory,
        (route.framing.rule p lastRead route.framingConfig memory).1 = .ok ⟨0, .binary⟩ := by
  intro r
  have hrule : route.framing.rule = jsonValue := by
    rw [← Option.some.inj hframing]
  have F : Follows route.framing.rule route.framingConfig (fun _ => True)
      (Json.closing.cutter textKind) Json.BeginsUnits := by
    rw [hrule]
    exact Json.follows_jsonValue route.framingConfig
  obtain ⟨source, hs, hpeer⟩ := hc.peer
  have hdomain : Json.BeginsUnits pieces.flatten :=
    ⟨units, trailing, [], fun u hu => (hunits u hu).1, htrailing, by rw [List.append_nil, h]⟩
  obtain ⟨hview, -⟩ :=
    forwarded_takeAll F hs ⟨hc.route, trivial, hout⟩ hc.peerBuffer hpeer pieces hdomain
  have hrun := Json.run_units hunits htrailing hshort
  simp only [forwarded, Ledger.account, unitLedger, hc.peerBuffer, List.nil_append, h, hrun,
    if_true, Prod.mk.injEq] at hview
  obtain ⟨hv, hsent, hrest⟩ := hview
  refine ⟨hv, ?_, ?_, fun u hu p hp hne lastRead memory => ?_⟩
  · have hframes : (units.map fun u => (⟨textKind u, u⟩ : Message)).filterMap Message.reply? =
        units.map unitFrame := by
      rw [List.filterMap_map, ← List.filterMap_eq_map]
      exact congrArg (List.filterMap · units) (funext reply?_textKind)
    rw [hframes] at hsent
    exact hsent
  · rw [if_pos hv] at hrest
    exact Option.some.inj hrest
  · rw [hrule, jsonValue, Json.scan_incomplete (hunits u hu).1 hp hne]

/-- Two units, cut inside a key, a number and a word. -/
theorem hearPeer_jsonUnits_cut :
    let route : Route Unit := { host := "", framing := ⟨"json", jsonValue⟩ }
    let c : Connection Unit :=
      { id := ⟨0, 0⟩, phase := .relaying, dial := fun _ => .error .unsupported,
        peer := some (.stream {}), route := some route }
    let units : List Bytes := [[123, 34, 97, 34, 58, 49, 48, 125], [32, 116, 114, 117, 101]]
    let pieces : List Bytes :=
      [[123, 34], [97, 34, 58, 49], [48, 125, 32, 116, 114], [117, 101, 10]]
    let r := hearPeer.takeAll pieces c
    (FramingTable.standard.get? "json" = some route.framing ∧ JustUpgraded route c ∧
      c.toClient.TakesAll ∧ (∀ u ∈ units, Json.IsUnit u ∧ u.length ≤ bufferCapacity) ∧
      Json.Blanks [10] ∧ List.length ([10] : Bytes) < bufferCapacity ∧
      pieces.flatten = units.flatten ++ [10]) ∧
      r.1 = .continue ∧ r.2.toClient.taken = c.toClient.taken ++ units.map unitFrame ∧
      r.2.peerBuffer = [10] ∧
      ∀ u ∈ units, ∀ p, p <+: u → p ≠ u → ∀ lastRead memory,
        (route.framing.rule p lastRead route.framingConfig memory).1 = .ok ⟨0, .binary⟩ := by
  intro route c units pieces r
  have hc : JustUpgraded route c := ⟨rfl, rfl, rfl, rfl, _, .socket, rfl⟩
  have hblanks : Json.Blanks [] := by decide
  have hkey : Json.Text [34, 97, 34] :=
    .quoted (.plain (by decide) (by decide) (by decide) .nil)
  have hnumber : Json.Number [49, 48] :=
    .positive (@Json.Whole.digits 49 [48] rfl (by decide) (List.all_eq_true.mp rfl)) .absent .absent
  have hobject : Json.Derives .closed Json.depthLimit [123, 34, 97, 34, 58, 49, 48, 125] :=
    .container (.one (.member hblanks hkey hblanks hblanks (.number hnumber) hblanks))
  have hunits : ∀ u ∈ units, Json.IsUnit u ∧ u.length ≤ bufferCapacity := by
    intro u hu
    simp only [units, List.mem_cons, List.not_mem_nil, or_false] at hu
    rcases hu with rfl | rfl
    · exact ⟨⟨[], _, hblanks, hobject, rfl⟩, by decide⟩
    · exact ⟨⟨[32], [116, 114, 117, 101], by decide, .literal (by decide), rfl⟩, by decide⟩
  exact ⟨⟨rfl, hc, fun _ => rfl, hunits, by decide, by decide, by decide⟩,
    hearPeer_jsonUnits rfl hc (fun _ => rfl) hunits (by decide) (by decide) (by decide)⟩

end WsRelay.Connection
