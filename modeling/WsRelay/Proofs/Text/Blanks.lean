import Mathlib.Data.List.DropRight
import WsRelay.Text.Cut
/-! # Blanks around text

Blanks at either end of a text make no difference once it is trimmed (`trim_pad`), and trimming goes
no further than to a character that is no blank (`trim_around`).  What is left neither begins nor
ends with a blank (`trims_trim`). -/

namespace WsRelay.Text

variable {before after : String} {c : Char}

/-- The text has nothing but blanks. -/
def Blank (s : String) : Prop :=
  ∀ c ∈ s.toList, isBlank c = true

instance : DecidablePred Blank :=
  fun s => List.decidableBAll _ s.toList

theorem trimStart_trimStart (s : String) : trimStart (trimStart s) = trimStart s := by
  rw [trimStart, trimStart, String.toList_ofList, List.dropWhile_idempotent]

theorem exists_trimEnd (s : String) : ∃ after, Blank after ∧ s = trimEnd s ++ after := by
  refine ⟨String.ofList (s.toList.reverse.takeWhile isBlank).reverse, ?_, ?_⟩
  · intro c hc
    rw [String.toList_ofList, List.mem_reverse] at hc
    exact List.mem_takeWhile_imp hc
  · rw [trimEnd, ← String.ofList_append, ← List.reverse_append, List.takeWhile_append_dropWhile,
      List.reverse_reverse, String.ofList_toList]

theorem exists_trimStart (s : String) : ∃ before, Blank before ∧ s = before ++ trimStart s := by
  refine ⟨String.ofList (s.toList.takeWhile isBlank), ?_, ?_⟩
  · intro c hc
    rw [String.toList_ofList] at hc
    exact List.mem_takeWhile_imp hc
  · rw [trimStart, ← String.ofList_append, List.takeWhile_append_dropWhile, String.ofList_toList]

theorem trimStart_pad (h : Blank before) (s : String) : trimStart (before ++ s) = trimStart s := by
  rw [trimStart, String.toList_append, List.dropWhile_append_of_pos h, trimStart]

theorem trimEnd_pad (h : Blank after) (s : String) : trimEnd (s ++ after) = trimEnd s := by
  have hreverse : ∀ c ∈ after.toList.reverse, isBlank c = true := by
    intro c hc
    exact h c (List.mem_reverse.mp hc)
  rw [trimEnd, String.toList_append, List.reverse_append, List.dropWhile_append_of_pos hreverse,
    trimEnd]

/-- Trimming the start of a text does not reach behind a character that is no blank. -/
theorem trimStart_around (h : isBlank c = false) (s t : String) :
    trimStart (s ++ (String.singleton c ++ t)) = trimStart s ++ (String.singleton c ++ t) := by
  simp only [trimStart, ← String.toList_inj, String.toList_append, String.toList_ofList,
    String.toList_singleton, List.dropWhile_append]
  split
  · next hempty =>
    rw [List.isEmpty_iff.mp hempty, List.singleton_append, List.dropWhile_cons_of_neg (by simp [h])]
    rfl
  · rfl

/-- Trimming the end of a text does not reach in front of a character that is no blank. -/
theorem trimEnd_around (h : isBlank c = false) (s t : String) :
    trimEnd (s ++ (String.singleton c ++ t)) = s ++ (String.singleton c ++ trimEnd t) := by
  simp only [trimEnd, ← String.toList_inj, String.toList_append, String.toList_ofList,
    String.toList_singleton, List.reverse_append, List.dropWhile_append]
  split
  · next hempty =>
    rw [List.isEmpty_iff.mp hempty]
    simp [h]
  · simp

/-- Both ends of a text are trimmed up to a character that is no blank. -/
theorem trim_around (h : isBlank c = false) (s t : String) :
    trim (s ++ (String.singleton c ++ t)) =
      trimStart s ++ (String.singleton c ++ trimEnd t) := by
  rw [trim, trimStart_around h, trimEnd_around h]

/-- **Blanks around a text are trimmed with it.** -/
theorem trim_pad (hbefore : Blank before) (hafter : Blank after) (s : String) :
    trim (before ++ s ++ after) = trim s := by
  rw [String.append_assoc, trim, trimStart_pad hbefore]
  -- behind a text of blanks only, the blanks belong to the start
  by_cases hs : Blank s
  · have hnone (t : String) (h : Blank t) : trimStart t = "" := by
      rw [trimStart, List.dropWhile_eq_nil_iff.mpr h, String.ofList_nil]
    have hboth : Blank (s ++ after) := by
      intro c hc
      rw [String.toList_append, List.mem_append] at hc
      exact hc.elim (hs c) (hafter c)
    rw [hnone _ hboth, trim, hnone s hs]
  · have hsome : ¬ (s.toList.dropWhile isBlank).isEmpty = true := by
      rw [List.isEmpty_iff, List.dropWhile_eq_nil_iff]
      exact hs
    have hstart : trimStart (s ++ after) = trimStart s ++ after := by
      rw [trimStart, String.toList_append, List.dropWhile_append, if_neg hsome,
        String.ofList_append, String.ofList_toList, trimStart]
    rw [hstart, trimEnd_pad hafter, trim]

/-- What begins behind blanks begins so with more of them, and behind it. -/
theorem head?_trimStart_pad (hbefore : Blank before) (hafter : Blank after) (s : String) :
    (trimStart (before ++ s ++ after)).toList.head? = (trimStart s).toList.head? := by
  rw [String.append_assoc, trimStart_pad hbefore, trimStart, trimStart, String.toList_ofList,
    String.toList_ofList, String.toList_append, List.dropWhile_append]
  split
  · next hempty =>
    rw [List.isEmpty_iff.mp hempty, List.dropWhile_eq_nil_iff.mpr hafter]
  · next hsome =>
    rw [List.isEmpty_iff] at hsome
    rw [List.head?_append_of_ne_nil _ hsome]

theorem trim_trimStart (s : String) : trim (trimStart s) = trim s := by
  rw [trim, trimStart_trimStart, trim]

theorem trim_trimEnd (s : String) : trim (trimEnd s) = trim s := by
  obtain ⟨after, hafter, hs⟩ := exists_trimEnd s
  have hempty : Blank "" := by simp [Blank]
  have hpad := trim_pad hempty hafter (trimEnd s)
  rw [String.empty_append, ← hs] at hpad
  exact hpad.symm

/-! ### What is left -/

/-- The second text is the first without the blanks at its ends. -/
structure Trims (s t : String) : Prop where
  around : ∃ before after, Blank before ∧ Blank after ∧ s = before ++ t ++ after
  head : ∀ c ∈ t.toList.head?, isBlank c = false
  last : ∀ c ∈ t.toList.getLast?, isBlank c = false

theorem not_isBlank_head?_dropWhile (l : List Char) :
    ∀ c ∈ (l.dropWhile isBlank).head?, isBlank c = false := by
  intro c hc
  have hnot := List.head?_dropWhile_not isBlank l
  rw [Option.mem_def.mp hc] at hnot
  exact hnot

/-- Trimming leaves no blank at either end. -/
theorem trims_trim (s : String) : Trims s (trim s) where
  around := by
    obtain ⟨before, hbefore, hstart⟩ := exists_trimStart s
    obtain ⟨after, hafter, hend⟩ := exists_trimEnd (trimStart s)
    exact ⟨before, after, hbefore, hafter, by rw [String.append_assoc, trim, ← hend, ← hstart]⟩
  head c hc := by
    -- what the end is trimmed of begins as before, if anything is left of it
    obtain ⟨after, -, hend⟩ := exists_trimEnd (trimStart s)
    refine not_isBlank_head?_dropWhile s.toList c ?_
    have hlist : s.toList.dropWhile isBlank = (trim s).toList ++ after.toList := by
      rw [← String.toList_append, trim, ← hend, trimStart, String.toList_ofList]
    rw [hlist, Option.mem_def, List.head?_append, Option.mem_def.mp hc, Option.some_or]
  last c hc := by
    rw [trim, trimEnd, String.toList_ofList, List.getLast?_reverse] at hc
    exact not_isBlank_head?_dropWhile _ c hc

end WsRelay.Text
