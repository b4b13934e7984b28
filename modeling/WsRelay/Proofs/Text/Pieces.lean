import Mathlib.Data.List.Basic
import WsRelay.Proofs.Text.Blanks
import WsRelay.Proofs.Text.Cuts
/-! # Pieces of text

What is joined by a separator is cut there again (`pieces_intercalate`).  Where the pieces are
trimmed, it does not matter whether the text has been trimmed before (`map_trim_pieces`). -/

namespace WsRelay.Text

variable {s t : String} {sep : Char}

theorem piecesList_ne_nil (sep : Char) (cs : List Char) : piecesList sep cs ≠ [] := by
  cases cs with
  | nil => exact List.cons_ne_nil _ _
  | cons c cs =>
      rw [piecesList]
      split
      · exact List.cons_ne_nil _ _
      · split <;> exact List.cons_ne_nil _ _

/-- A separator cuts what stands on both sides of it. -/
theorem piecesList_append (cs ds : List Char) :
    piecesList sep (cs ++ sep :: ds) = piecesList sep cs ++ piecesList sep ds := by
  induction cs with
  | nil =>
      rw [List.nil_append, piecesList]
      exact if_pos rfl
  | cons c cs ih =>
      rw [List.cons_append, piecesList, piecesList, ih]
      split
      · rfl
      · cases hp : piecesList sep cs with
        | nil => exact absurd hp (piecesList_ne_nil sep cs)
        | cons p ps => rfl

theorem pieces_append (s t : String) :
    pieces sep (s ++ String.singleton sep ++ t) = pieces sep s ++ pieces sep t := by
  rw [pieces, String.toList_append, String.toList_append, String.toList_singleton,
    List.append_assoc, List.singleton_append, piecesList_append, List.map_append]
  rfl

theorem piecesList_eq_singleton {cs : List Char} (h : sep ∉ cs) : piecesList sep cs = [cs] := by
  induction cs with
  | nil => rfl
  | cons d cs ih =>
      simp only [List.mem_cons, not_or] at h
      rw [piecesList, if_neg (Ne.symm h.1), ih h.2]

theorem pieces_eq_singleton (h : sep ∉ s.toList) : pieces sep s = [s] := by
  rw [pieces, piecesList_eq_singleton h, List.map_singleton, String.ofList_toList]

theorem not_mem_piecesList {cs p : List Char} (h : p ∈ piecesList sep cs) : sep ∉ p := by
  induction cs generalizing p with
  | nil =>
      rw [piecesList, List.mem_singleton] at h
      simp [h]
  | cons d cs ih =>
      rw [piecesList] at h
      split at h
      · rcases List.mem_cons.mp h with rfl | hp
        · simp
        · exact ih hp
      · next hd =>
        split at h
        · next hnil => exact absurd hnil (piecesList_ne_nil sep cs)
        · next q qs hq =>
          rcases List.mem_cons.mp h with rfl | hp
          · have hfront := ih (p := q) (by simp [hq])
            simp [Ne.symm hd, hfront]
          · exact ih (by simp [hq, hp])

theorem not_mem_of_mem_pieces (h : t ∈ pieces sep s) : sep ∉ t.toList := by
  obtain ⟨p, hp, rfl⟩ := List.mem_map.mp h
  rw [String.toList_ofList]
  exact not_mem_piecesList hp

theorem pieces_ne_nil (sep : Char) (s : String) : pieces sep s ≠ [] := by
  simp [pieces, piecesList_ne_nil]

/-- What is joined by a separator is cut there, and wherever else it has the separator. -/
theorem pieces_intercalate {texts : List String} (h : texts ≠ []) :
    pieces sep ((String.singleton sep).intercalate texts) = texts.flatMap (pieces sep) := by
  induction texts with
  | nil => exact absurd rfl h
  | cons s texts ih =>
      cases texts with
      | nil => simp
      | cons t texts =>
          rw [String.intercalate_cons_cons, pieces_append, ih (by simp), List.flatMap_cons (x := s)]

/-- Texts without the separator are the pieces of what they are joined to. -/
theorem pieces_intercalate_append {texts more : List String} (h : ∀ s ∈ texts, sep ∉ s.toList)
    (hne : texts ≠ []) :
    pieces sep ((String.singleton sep).intercalate (texts ++ more)) =
      texts ++ more.flatMap (pieces sep) := by
  have hflat : texts.flatMap (pieces sep) = texts := by
    clear hne
    induction texts with
    | nil => rfl
    | cons s texts ih =>
        rw [List.flatMap_cons, pieces_eq_singleton (h s (by simp)),
          ih fun t ht => h t (by simp [ht])]
        rfl
  rw [pieces_intercalate (by simp [hne]), List.flatMap_append, hflat]

/-- Blanks in front of a text stay with its first piece, where they are trimmed. -/
theorem map_trim_pieces (hsep : isBlank sep = false) (s : String) :
    (pieces sep (trimStart s)).map trim = (pieces sep s).map trim := by
  obtain ⟨before, hbefore, hs⟩ := exists_trimStart s
  generalize trimStart s = t at hs ⊢
  have hnot : sep ∉ before.toList := fun hmem => by simp [hbefore sep hmem] at hsep
  have hfirst (l : String) (hl : sep ∉ l.toList) :
      (pieces sep (before ++ l)).map trim = [trim l] := by
    have hpad := trim_pad hbefore (show Blank "" by decide) l
    rw [String.append_empty] at hpad
    rw [pieces_eq_singleton (by simp [hnot, hl]), List.map_singleton, hpad]
  rw [hs]
  cases hcut : cut? sep t with
  | none =>
      have ht := cut?_eq_none_iff.mp hcut
      rw [hfirst t ht, pieces_eq_singleton ht, List.map_singleton]
  | some cut =>
      obtain ⟨l, r⟩ := cut
      obtain ⟨rfl, hl⟩ := cut?_eq_some_iff.mp hcut
      rw [← String.append_assoc, ← String.append_assoc, ← String.append_assoc, pieces_append,
        pieces_append, List.map_append, List.map_append, hfirst l hl, pieces_eq_singleton hl,
        List.map_singleton]

end WsRelay.Text
