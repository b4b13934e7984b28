/-! # Loops

A loop repeats a step that either goes on with a new state or is done.  Every state it goes on
with is smaller than the one before by some measure, so the loop comes to an end.

`Loop.run_again` and `Loop.run_done` unfold one repetition, `Loop.invariant` carries a property from
the first state to the result, and `Loop.induction` ties the result to the state a loop starts
in. -/

namespace WsRelay

/-- What one repetition of a loop leads to. -/
inductive Step (α β : Type) where
  | again (state : α)
  | done (result : β)

namespace Loop

variable {α β : Type}

/-- Repeats `step` until it is done. -/
def run (measure : α → Nat) (step : α → Step α β)
    (descends : ∀ a b, step a = .again b → measure b < measure a) (a : α) : β :=
  match h : step a with
  | .again b =>
    have : measure b < measure a := descends a b h
    run measure step descends b
  | .done result => result
termination_by measure a

variable {measure : α → Nat} {step : α → Step α β}
  {descends : ∀ a b, step a = .again b → measure b < measure a}

theorem run_again {a b : α} (h : step a = .again b) :
    run measure step descends a = run measure step descends b := by
  rw [run]
  split
  · next hb => rw [h] at hb; cases hb; rfl
  · next hb => rw [h] at hb; cases hb

theorem run_done {a : α} {result : β} (h : step a = .done result) :
    run measure step descends a = result := by
  rw [run]
  split
  · next hb => rw [h] at hb; cases hb
  · next hb => rw [h] at hb; cases hb; rfl

/-- What holds of the first state and is kept by every repetition holds of the state in which the
loop is done. -/
theorem invariant (p : α → Prop) (keeps : ∀ a b, p a → step a = .again b → p b) (a : α)
    (h : p a) : ∃ b, p b ∧ step b = .done (run measure step descends a) := by
  induction hn : measure a using Nat.strongRecOn generalizing a with
  | ind n ih =>
    cases hs : step a with
    | again b =>
      obtain ⟨c, hc, hd⟩ := ih (measure b) (hn ▸ descends a b hs) b (keeps a b h hs) rfl
      exact ⟨c, hc, by rw [run_again hs]; exact hd⟩
    | done result => exact ⟨a, h, by rw [run_done hs]; exact hs⟩

/-- A loop's result is to its first state as `motive` says if the result of a repetition that is
done is, and if one more repetition keeps it so. -/
theorem induction {motive : α → β → Prop}
    (done : ∀ a result, step a = .done result → motive a result)
    (again : ∀ a b, step a = .again b → motive b (run measure step descends b) →
      motive a (run measure step descends b)) (a : α) :
    motive a (run measure step descends a) := by
  induction hn : measure a using Nat.strongRecOn generalizing a with
  | ind n ih =>
    cases hs : step a with
    | again b =>
      rw [run_again hs]
      exact again a b hs (ih (measure b) (hn ▸ descends a b hs) b rfl)
    | done result =>
      rw [run_done hs]
      exact done a result hs

end Loop

end WsRelay
