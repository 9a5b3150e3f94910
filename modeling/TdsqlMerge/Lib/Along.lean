import Mathlib.Data.List.Basic

/-!
# Programs that are safe on the way

`step s a` lists the states that an action can lead to, and is empty where the action must not be taken.
`Along step safe goal as s`: from `s` the actions can be taken one after the other whatever comes of them, no
state on the way breaks `safe`, and the last one meets `goal`. It is what a step of a program that has still to
take these actions needs to know, whatever others do in between.
-/

namespace TdsqlMerge.Lib

/-- Every order of the successors is safe on the way along the actions, and meets the goal at their end. -/
def Along {σ α : Type} (step : σ → α → List σ) (safe goal : σ → Prop) : List α → σ → Prop
  | [], s => safe s ∧ goal s
  | a :: as, s => safe s ∧ step s a ≠ [] ∧ ∀ s' ∈ step s a, Along step safe goal as s'

variable {σ α : Type} {step : σ → α → List σ} {safe goal goal' : σ → Prop} {s s' : σ} {a : α} {as as' : List α}

/-- The state that the actions start from is safe. -/
theorem Along.here (along : Along step safe goal as s) : safe s := by
  cases as with
  | nil => exact along.1
  | cons a as => exact along.1

/-- The next action, if it leads to one state. -/
theorem Along.cons (here : safe s) (st : step s a = [s']) (along : Along step safe goal as s') :
    Along step safe goal (a :: as) s := by
  refine ⟨here, st ▸ List.cons_ne_nil _ _, ?_⟩
  rw [st]
  intro s1 mem
  rw [List.mem_singleton.mp mem]
  exact along

/-- Actions that start where others end. -/
theorem Along.append (along : Along step safe goal as s)
    (next : ∀ s, goal s → Along step safe goal' as' s) : Along step safe goal' (as ++ as') s := by
  induction as generalizing s with
  | nil => exact next s along.2
  | cons a as ih =>
    obtain ⟨here, some, all⟩ := along
    exact ⟨here, some, fun s' mem => ih (all s' mem)⟩

end TdsqlMerge.Lib
