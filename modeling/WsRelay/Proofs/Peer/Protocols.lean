import WsRelay.Proofs.Peer.Ports
import WsRelay.Proofs.Text.Lines
/-! # Which offer a backend accepts

The backend answers with the place of an offer, and the connection looks up the offer at that place.
Both together are a search: the accepted offer is the first that the protocol option takes
(`SinglePeer.protocolName?_route`).  The option counts as it was set last
(`SinglePeer.ofSettings_protocol`).

Texts that are the same up to the case of letters have the same other characters, so an offer that
is the configured subprotocol has no line ends if the configuration has none
(`Text.plain_of_sameIgnoringCase`). -/

namespace WsRelay

namespace Text

variable {s t : String} {c d : Char}

/-- A character that is no letter is that of no letter in lower case. -/
theorem eq_of_toLower (hc : c.toNat < 97) (h : d.toLower = c) : d = c := by
  unfold Char.toLower at h
  split at h
  · next hd =>
    -- a capital letter would have become a small one
    have hlow : 65 ≤ d.val.toNat := UInt32.le_iff_toNat_le.mp hd.1
    have hhigh : d.val.toNat ≤ 90 := UInt32.le_iff_toNat_le.mp hd.2
    have hval : (d.val + 32).toNat = c.toNat := congrArg (fun c : Char => c.val.toNat) h
    rw [UInt32.toNat_add] at hval
    have h32 : (32 : UInt32).toNat = 32 := rfl
    omega
  · exact h

/-- Texts are the same up to case if their letters are the same as small letters. -/
theorem sameIgnoringCase_iff : sameIgnoringCase s t = true ↔
    s.toList.map Char.toLower = t.toList.map Char.toLower := by
  rw [sameIgnoringCase, beq_iff_eq, lower, lower]
  exact ⟨fun h => String.ofList_injective h, congrArg String.ofList⟩

/-- Whatever is the same up to case has no line ends either. -/
theorem plain_of_sameIgnoringCase (h : sameIgnoringCase s t = true) (ht : Plain t) : Plain s := by
  have hlower := sameIgnoringCase_iff.mp h
  have hmem {c : Char} (hc : c.toNat < 97) (hown : c.toLower = c) (hcs : c ∈ s.toList) :
      c ∈ t.toList := by
    have hc' : c ∈ t.toList.map Char.toLower := by
      rw [← hlower]
      exact List.mem_map.mpr ⟨c, hcs, hown⟩
    obtain ⟨d, hd, heq⟩ := List.mem_map.mp hc'
    rwa [← eq_of_toLower hc heq]
  intro c hc
  constructor
  · rintro rfl
    exact (ht _ (hmem (by decide) (by decide) hc)).1 rfl
  · rintro rfl
    exact (ht _ (hmem (by decide) (by decide) hc)).2 rfl

end Text

/-- The protocol option takes an offer: `*` takes any, and else the case of letters is all that may
differ. -/
def takes (wanted offer : String) : Bool :=
  wanted == "*" || Text.sameIgnoringCase offer wanted

/-- There is an offer to take if the option takes any and there is one, or if there is one that is
the same up to case. -/
theorem isSome_find?_takes {wanted : String} {offers : List String} :
    (offers.find? (takes wanted)).isSome = true ↔ wanted = "*" ∧ offers ≠ [] ∨
      ∃ offer ∈ offers, Text.sameIgnoringCase offer wanted = true := by
  simp only [List.find?_isSome, takes, Bool.or_eq_true, beq_iff_eq]
  constructor
  · rintro ⟨offer, hoffer, hany | hsame⟩
    · exact .inl ⟨hany, List.ne_nil_of_mem hoffer⟩
    · exact .inr ⟨offer, hoffer, hsame⟩
  · rintro (⟨hany, hne⟩ | ⟨offer, hoffer, hsame⟩)
    · exact ⟨offers.head hne, List.head_mem hne, .inl hany⟩
    · exact ⟨offer, hoffer, .inr hsame⟩

/-- The offer that is taken is the first of all, or the first that is the same up to case. -/
theorem find?_takes {wanted name : String} {offers : List String}
    (h : offers.find? (takes wanted) = some name) : ∃ before after,
      offers = before ++ name :: after ∧
      (wanted = "*" ∧ before = [] ∨ wanted ≠ "*" ∧ Text.sameIgnoringCase name wanted = true ∧
        ∀ offer ∈ before, Text.sameIgnoringCase offer wanted = false) := by
  obtain ⟨htaken, before, after, hsplit, hbefore⟩ := List.find?_eq_some_iff_append.mp h
  refine ⟨before, after, hsplit, ?_⟩
  by_cases hany : wanted = "*"
  · refine .inl ⟨hany, List.eq_nil_iff_forall_not_mem.mpr fun offer hoffer => ?_⟩
    have hnot := hbefore offer hoffer
    simp [takes, hany] at hnot
  · have htakes (offer : String) : takes wanted offer = Text.sameIgnoringCase offer wanted := by
      simp [takes, hany]
    refine .inr ⟨hany, (htakes name).symm.trans htaken, fun offer hoffer => ?_⟩
    have hnot := hbefore offer hoffer
    rwa [htakes, Bool.not_eq_true'] at hnot

namespace SinglePeer

variable {σ : Type} {b : SinglePeer σ}

/-- The place that is chosen is that of the first offer that the protocol option takes. -/
theorem chooseOffer?_eq (b : SinglePeer σ) (offers : List String) :
    b.chooseOffer? offers = b.protocol.bind fun wanted => offers.findIdx? (takes wanted) := by
  unfold chooseOffer?
  cases b.protocol with
  | none => rfl
  | some wanted =>
      dsimp only [Option.bind_some]
      split
      · next h =>
        obtain ⟨rfl, hne⟩ := h
        cases offers with
        | nil => exact absurd rfl hne
        | cons offer offers => rfl
      · next h =>
        by_cases hany : wanted = "*"
        · have hnil : offers = [] := Decidable.byContradiction fun hne => h ⟨hany, hne⟩
          rw [hnil]
          rfl
        · have hsame : takes wanted = (Text.sameIgnoringCase · wanted) := by
            funext offer
            simp [takes, hany]
          rw [hsame]

/-- **The accepted offer** is the first that the protocol option takes. -/
theorem chooseOffer?_bind (b : SinglePeer σ) (offers : List String) :
    (b.chooseOffer? offers).bind (offers[·]?) =
      b.protocol.bind fun wanted => offers.find? (takes wanted) := by
  rw [chooseOffer?_eq, Option.bind_assoc]
  simp only [List.find?_eq_bind_findIdx?_getElem?]

theorem protocolName?_route {request : Enquiry} {route : Route σ}
    (h : b.route request = some route) :
    route.protocolName? request.protocols =
      b.protocol.bind fun wanted => request.protocols.find? (takes wanted) := by
  cases h
  exact chooseOffer?_bind b request.protocols

/-! ### The option -/

/-- The protocol option counts as it was set last. -/
theorem ofSettings_protocol {settings : Settings} {framings : FramingTable σ}
    (h : ofSettings settings framings = .ok b) : b.protocol = settings.option? "protocol" := by
  obtain ⟨-, -, rfl⟩ := ofSettings_eq_ok_iff.mp h
  exact Option.or_none

end SinglePeer

end WsRelay
