import WsRelay.Peer.Endpoint
import WsRelay.Proofs.Text.Cuts
/-! # How hosts are read

A scheme in front of a host is taken off again, whatever follows it (`Transport.ofHost_scheme`).

What is left is a name, an address in brackets or a bare address with colons of its own, and the
first two may have a port behind them (`HostForm`).  Every text has one of these forms
(`HostForm.exists_spelled`), and its parts are what is read of it (`HostForm.cutPort_spelled`). -/

namespace WsRelay

/-- **No scheme hides another.** -/
theorem Transport.ofHost_scheme {t : Transport} (ht : t ∈ Transport.withScheme) (rest : String) :
    Transport.ofHost (t.scheme ++ rest) = (t, rest) := by
  simp only [Transport.withScheme, List.mem_cons, List.not_mem_nil, or_false] at ht
  rcases ht with rfl | rfl | rfl | rfl | rfl | rfl <;>
    simp [Transport.ofHost, Transport.withScheme, Transport.scheme, Text.stripStart?,
      List.isPrefixOf?]

namespace Endpoint

/-- The text begins with a bracket that is closed. -/
def Bracketed (host : String) : Prop :=
  host.toList.head? = some '[' ∧ ']' ∈ host.toList

instance (host : String) : Decidable (Bracketed host) :=
  inferInstanceAs (Decidable (_ ∧ _))

variable {host text tail : String}

/-- An address in brackets ends at the first bracket that closes. -/
theorem bracketed?_eq_some_iff : bracketed? host = some (text, tail) ↔
    host = "[" ++ (text ++ ("]" ++ tail)) ∧ ']' ∉ text.toList := by
  rw [bracketed?, Option.bind_eq_some_iff]
  constructor
  · rintro ⟨rest, hstart, hcut⟩
    obtain ⟨rfl, hnot⟩ := Text.cut?_eq_some_iff.mp hcut
    exact ⟨Text.stripStart?_eq_some hstart, hnot⟩
  · rintro ⟨rfl, hnot⟩
    exact ⟨_, Text.stripStart?_append _ _, Text.cut?_append hnot tail⟩

theorem bracketed?_eq_none_iff : bracketed? host = none ↔ ¬ Bracketed host := by
  rw [bracketed?, Option.bind_eq_none_iff]
  constructor
  · rintro hnone ⟨hhead, hclosed⟩
    cases hhost : host.toList with
    | nil => simp [hhost] at hhead
    | cons c cs =>
        simp only [hhost, List.head?_cons, Option.some.injEq] at hhead
        subst hhead
        have hstart : host = "[" ++ String.ofList cs := by
          rw [← String.toList_inj, hhost]
          simp
        have hcut := hnone (String.ofList cs) (by rw [hstart, Text.stripStart?_append])
        rw [Text.cut?_eq_none_iff, String.toList_ofList] at hcut
        simp [hhost, hcut] at hclosed
  · intro hnot rest hstart
    rw [Text.cut?_eq_none_iff]
    intro hclosed
    refine hnot ⟨?_, ?_⟩
    · simp [Text.stripStart?_eq_some hstart]
    · simp [Text.stripStart?_eq_some hstart, hclosed]

end Endpoint

/-- The forms of a host. -/
inductive HostForm where
  | name (text : String)
  | namePort (text port : String)
  /-- An address in brackets with nothing behind it, or with something that is no port. -/
  | literal (text tail : String)
  | literalPort (text port : String)
  /-- An address with colons of its own. -/
  | bare (text : String)
deriving DecidableEq, Repr

namespace HostForm

/-- The host itself. -/
def text : HostForm → String
  | name text | namePort text _ | literal text _ | literalPort text _ | bare text => text

/-- The port behind the host. -/
def port? : HostForm → Option String
  | namePort _ port | literalPort _ port => some port
  | name _ | literal _ _ | bare _ => none

/-- What is neither the host nor its port. -/
def unread : HostForm → String
  | literal _ tail => tail
  | _ => ""

/-- The host as it is written. -/
def spelled : HostForm → String
  | name text => text
  | namePort text port => text ++ ":" ++ port
  | literal text tail => "[" ++ text ++ "]" ++ tail
  | literalPort text port => "[" ++ text ++ "]:" ++ port
  | bare text => text

/-- No form is mistaken for another. -/
def WellFormed : HostForm → Prop
  | name text => ':' ∉ text.toList ∧ ¬ Endpoint.Bracketed text
  | namePort text port =>
    ':' ∉ text.toList ∧ ':' ∉ port.toList ∧ ¬ Endpoint.Bracketed (text ++ ":" ++ port)
  | literal text tail => ']' ∉ text.toList ∧ tail.toList.head? ≠ some ':'
  | literalPort text _ => ']' ∉ text.toList
  | bare text => 2 ≤ text.toList.count ':' ∧ ¬ Endpoint.Bracketed text

variable {form : HostForm} {host text port : String}

theorem stripStart?_eq_none {c : Char} {s : String} (h : s.toList.head? ≠ some c) :
    Text.stripStart? (String.singleton c) s = none := by
  rw [Option.eq_none_iff_forall_ne_some]
  intro rest hstart
  simp [Text.stripStart?_eq_some hstart] at h

/-- Two colons are a colon with one behind it. -/
theorem two_le_count_iff {before after : String}
    (h : Text.cut? ':' host = some (before, after)) :
    2 ≤ host.toList.count ':' ↔ ':' ∈ after.toList := by
  obtain ⟨rfl, hnot⟩ := Text.cut?_eq_some_iff.mp h
  rw [String.toList_append, String.toList_append, List.count_append, List.count_append,
    List.count_eq_zero_of_not_mem hnot, String.toList_singleton, List.count_singleton_self,
    ← List.count_pos_iff]
  omega

/-- **The parts of a host are told apart.** -/
theorem cutPort_spelled (h : form.WellFormed) :
    Endpoint.cutPort form.spelled = (form.text, form.port?) := by
  unfold Endpoint.cutPort
  cases form with
  | name text =>
      obtain ⟨hcolon, hbracket⟩ := h
      simp only [spelled, Endpoint.bracketed?_eq_none_iff.mpr hbracket,
        Text.cut?_eq_none_iff.mpr hcolon]
      rfl
  | namePort text port =>
      obtain ⟨hcolon, hport, hbracket⟩ := h
      have hcut : Text.cut? ':' (text ++ ":" ++ port) = some (text, port) := by
        rw [String.append_assoc]
        exact Text.cut?_append hcolon port
      have hone : Text.contains port ":" = false := by
        rw [Bool.eq_false_iff]
        intro hin
        exact hport (Text.contains_singleton.mp hin)
      simp only [spelled, Endpoint.bracketed?_eq_none_iff.mpr hbracket, hcut, hone]
      rfl
  | literal text tail =>
      have hbracketed : Endpoint.bracketed? ("[" ++ text ++ "]" ++ tail) = some (text, tail) := by
        rw [Endpoint.bracketed?_eq_some_iff]
        exact ⟨by simp only [String.append_assoc], h.1⟩
      simp only [spelled, hbracketed]
      exact congrArg (text, ·) (stripStart?_eq_none h.2)
  | literalPort text port =>
      have hbracketed : Endpoint.bracketed? ("[" ++ text ++ "]:" ++ port) =
          some (text, ":" ++ port) := by
        rw [Endpoint.bracketed?_eq_some_iff]
        exact ⟨by simp [← String.toList_inj], h⟩
      simp only [spelled, hbracketed]
      rw [Text.stripStart?_append]
      rfl
  | bare text =>
      obtain ⟨hcolons, hbracket⟩ := h
      simp only [spelled, Endpoint.bracketed?_eq_none_iff.mpr hbracket]
      cases hcut : Text.cut? ':' text with
      | none => rfl
      | some parts =>
          obtain ⟨before, after⟩ := parts
          have hmore : Text.contains after ":" = true :=
            Text.contains_singleton.mpr ((two_le_count_iff hcut).mp hcolons)
          simp only [hmore]
          rfl

/-- **Every text has a form as a host.** -/
theorem exists_spelled (host : String) :
    ∃ form : HostForm, form.WellFormed ∧ form.spelled = host := by
  cases hbracketed : Endpoint.bracketed? host with
  | some parts =>
      obtain ⟨text, tail⟩ := parts
      obtain ⟨rfl, hnot⟩ := Endpoint.bracketed?_eq_some_iff.mp hbracketed
      cases htail : tail.toList with
      | nil =>
          refine ⟨literal text tail, ⟨hnot, by simp [htail]⟩, ?_⟩
          simp only [spelled, String.append_assoc]
      | cons c cs =>
          by_cases hc : c = ':'
          · refine ⟨literalPort text (String.ofList cs), hnot, ?_⟩
            simp [spelled, ← String.toList_inj, htail, hc]
          · refine ⟨literal text tail, ⟨hnot, by simp [htail, hc]⟩, ?_⟩
            simp only [spelled, String.append_assoc]
  | none =>
      have hplain := Endpoint.bracketed?_eq_none_iff.mp hbracketed
      cases hcut : Text.cut? ':' host with
      | none => exact ⟨name host, ⟨Text.cut?_eq_none_iff.mp hcut, hplain⟩, rfl⟩
      | some parts =>
          obtain ⟨before, after⟩ := parts
          by_cases hmore : ':' ∈ after.toList
          · exact ⟨bare host, ⟨(two_le_count_iff hcut).mpr hmore, hplain⟩, rfl⟩
          · obtain ⟨rfl, hnot⟩ := Text.cut?_eq_some_iff.mp hcut
            have hspelled : before ++ ":" ++ after = before ++ (String.singleton ':' ++ after) :=
              String.append_assoc
            refine ⟨namePort before after, ⟨hnot, hmore, ?_⟩, hspelled⟩
            rw [hspelled]
            exact hplain

end HostForm

end WsRelay
