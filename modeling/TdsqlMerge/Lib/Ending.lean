import TdsqlMerge.Lib.Machine

/-!
# Runs that end

A machine whose steps all make a measure smaller has no endless run (`length_add_le`), and from each of its
states a run leads to a state without a step (`exists_final`). `Steps.simulates` carries the runs of a machine over to
one that takes at most one step for each of its steps.
-/

namespace TdsqlMerge.Lib

variable {σ α : Type} {step : σ → α → Option σ} {ok : σ → α → Prop} {s s' : σ}

/-- No step is possible. -/
def Final {σ α : Type} (step : σ → α → Option σ) (s : σ) : Prop := ∀ a, step s a = none

/-- Every step that a run can take makes the measure smaller. -/
def Shrinks {σ α : Type} (step : σ → α → Option σ) (μ : σ → Nat) (s : σ) : Prop :=
  ∀ s1 a s2, Steps step (fun _ _ => True) s s1 → step s1 a = some s2 → μ s2 < μ s1

/-- The measure shrinks from later states as well. -/
lemma Shrinks.later {μ : σ → Nat} (shrinks : Shrinks step μ s) (run : Steps step (fun _ _ => True) s s') :
    Shrinks step μ s' :=
  fun s1 a s2 run' => shrinks s1 a s2 (run.trans run')

/-- The measure bounds the number of steps of a run. -/
theorem length_add_le {μ : σ → Nat} {as : List α} (shrinks : Shrinks step μ s)
    (run : as.foldlM step s = some s') : as.length + μ s' ≤ μ s := by
  induction as generalizing s with
  | nil =>
    cases run
    exact Nat.le_of_eq (Nat.zero_add _)
  | cons a as ih =>
    rw [List.foldlM_cons, Option.bind_eq_bind, Option.bind_eq_some_iff] at run
    obtain ⟨s1, st, run⟩ := run
    have first : Steps step (fun _ _ => True) s s1 := .single trivial st
    have less := shrinks s a s1 .refl st
    have rest := ih (shrinks.later first) run
    rw [List.length_cons]
    omega

/-- A run can always be carried on to a state without a step. -/
theorem exists_final {μ : σ → Nat} (shrinks : Shrinks step μ s) :
    ∃ s', Steps step (fun _ _ => True) s s' ∧ Final step s' := by
  generalize e : μ s = n
  induction n using Nat.strongRecOn generalizing s with
  | ind n ih =>
    by_cases final : Final step s
    · exact ⟨s, .refl, final⟩
    · obtain ⟨a, st⟩ := Classical.not_forall.mp final
      obtain ⟨s1, st⟩ := Option.ne_none_iff_exists'.mp st
      have first : Steps step (fun _ _ => True) s s1 := .single trivial st
      have less := shrinks s a s1 .refl st
      obtain ⟨s', run, final⟩ := ih (μ s1) (e ▸ less) (shrinks.later first) rfl
      exact ⟨s', first.trans run, final⟩

/-- A run is one of the machine it is seen as, where each of its steps is a step or none. -/
theorem Steps.simulates {σ' α' : Type} {step' : σ' → α' → Option σ'} {ok' : σ' → α' → Prop} (abs : σ → σ')
    (run : Steps step ok s s')
    (sim : ∀ s1 a s2, Steps step ok s s1 → ok s1 a → step s1 a = some s2 →
      abs s2 = abs s1 ∨ ∃ b, ok' (abs s1) b ∧ step' (abs s1) b = some (abs s2)) :
    Steps step' ok' (abs s) (abs s') := by
  apply run.invariant_along (I := fun s1 => Steps step' ok' (abs s) (abs s1)) .refl
  intro s1 a s2 before run' allowed st
  rcases sim s1 a s2 before allowed st with same | ⟨b, allowed, st⟩
  · rwa [same]
  · exact run'.trans (.single allowed st)

end TdsqlMerge.Lib
