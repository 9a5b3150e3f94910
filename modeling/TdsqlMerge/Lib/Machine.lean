import Mathlib.Logic.Relation

/-!
# Runs of a step machine

A machine takes a step of a label from some of its states. `Steps step ok` relates a state to those that
a run reaches whose steps all satisfy `ok`; `Steps.invariant` is the induction over runs, and
`Steps.of_checked` builds a run from the list of its labels. `Emits` relates them with what the steps of the
run put out.
-/

namespace TdsqlMerge.Lib

/-- `s'` is reached from `s` by steps that satisfy `ok` in the state before them. -/
def Steps {σ α : Type} (step : σ → α → Option σ) (ok : σ → α → Prop) : σ → σ → Prop :=
  Relation.ReflTransGen fun s s' => ∃ a, ok s a ∧ step s a = some s'

variable {σ α : Type} {step : σ → α → Option σ} {ok ok' : σ → α → Prop} {s s' s'' : σ}

/-- A run of no step. -/
lemma Steps.refl : Steps step ok s s := Relation.ReflTransGen.refl

/-- A run may follow another. -/
lemma Steps.trans (h : Steps step ok s s') (h' : Steps step ok s' s'') : Steps step ok s s'' :=
  Relation.ReflTransGen.trans h h'

/-- A step is a run. -/
lemma Steps.single {a : α} (allowed : ok s a) (st : step s a = some s') : Steps step ok s s' :=
  Relation.ReflTransGen.single ⟨a, allowed, st⟩

/-- What holds at the start and is kept by each step of the run holds in every state reached. -/
lemma Steps.invariant_along {I : σ → Prop} (run : Steps step ok s s') (init : I s)
    (keep : ∀ s1 a s2, Steps step ok s s1 → I s1 → ok s1 a → step s1 a = some s2 → I s2) : I s' := by
  induction run with
  | refl => exact init
  | tail run st ih =>
    obtain ⟨a, allowed, st⟩ := st
    exact keep _ a _ run ih allowed st

/-- What holds at the start and is kept by each step holds in every state reached. -/
lemma Steps.invariant {I : σ → Prop} (run : Steps step ok s s') (init : I s)
    (keep : ∀ s a s', I s → ok s a → step s a = some s' → I s') : I s' :=
  run.invariant_along init fun s a s' _ => keep s a s'

/-- A run under stricter conditions is a run. -/
lemma Steps.imp (run : Steps step ok s s') (imp : ∀ s a, ok s a → ok' s a) : Steps step ok' s s' := by
  apply run.invariant .refl
  intro s1 a s2 run allowed st
  exact run.trans (.single (imp s1 a allowed) st)

/-! ### Runs with outputs -/

/-- `s'` is reached from `s` by steps that satisfy `ok`, which put out the list in between. -/
inductive Emits {σ α β : Type} (step : σ → α → Option σ) (out : σ → α → List β) (ok : σ → α → Prop)
    (s : σ) : List β → σ → Prop where
  | refl : Emits step out ok s [] s
  | tail {bs : List β} {s1 s2 : σ} {a : α} : Emits step out ok s bs s1 → ok s1 a →
    step s1 a = some s2 → Emits step out ok s (bs ++ out s1 a) s2

section
variable {β : Type} {out : σ → α → List β} {bs bs' : List β}

/-- A run with outputs is a run. -/
lemma Emits.steps (run : Emits step out ok s bs s') : Steps step ok s s' := by
  induction run with
  | refl => exact .refl
  | tail _ allowed st ih => exact ih.trans (.single allowed st)

/-- Every run puts out something. -/
lemma Steps.emits (out : σ → α → List β) (run : Steps step ok s s') : ∃ bs, Emits step out ok s bs s' := by
  apply run.invariant_along (I := fun s' => ∃ bs, Emits step out ok s bs s')
  · exact ⟨[], .refl⟩
  · rintro s1 a s2 _ ⟨bs, run⟩ allowed st
    exact ⟨_, run.tail allowed st⟩

/-- A run under a stronger condition is one under a weaker. -/
lemma Emits.imp (run : Emits step out ok s bs s') (imp : ∀ s a, ok s a → ok' s a) :
    Emits step out ok' s bs s' := by
  induction run with
  | refl => exact .refl
  | tail _ allowed st ih => exact ih.tail (imp _ _ allowed) st

/-- The outputs of a run follow those of the run before it. -/
lemma Emits.trans (run : Emits step out ok s bs s') (run' : Emits step out ok s' bs' s'') :
    Emits step out ok s (bs ++ bs') s'' := by
  induction run' with
  | refl => rwa [List.append_nil]
  | tail _ allowed st ih =>
    rw [← List.append_assoc]
    exact ih.tail allowed st

/-- What a list of labels puts out. -/
def outputs (step : σ → α → Option σ) (out : σ → α → List β) : σ → List α → List β
  | _, [] => []
  | s, a :: as => out s a ++ ((step s a).map fun s' => outputs step out s' as).getD []

/-- The run of a list of labels whose steps pass a check, with its outputs. -/
lemma Emits.of_checked (out : σ → α → List β) (check : σ → α → Bool) {as : List α}
    (run : as.foldlM (fun s a => if check s a then step s a else none) s = some s') :
    Emits step out (fun s a => check s a = true) s (outputs step out s as) s' := by
  induction as generalizing s with
  | nil =>
    cases run
    exact .refl
  | cons a as ih =>
    rw [List.foldlM_cons, Option.bind_eq_bind, Option.bind_eq_some_iff] at run
    obtain ⟨s1, st, run⟩ := run
    split at st
    · rename_i allowed
      have first : Emits step out (fun s a => check s a = true) s (out s a) s1 :=
        Emits.tail .refl allowed st
      rw [outputs, st]
      exact first.trans (ih run)
    · cases st

/-- The run of a list of labels, with its outputs. -/
lemma Emits.of_foldlM (out : σ → α → List β) {as : List α} (run : as.foldlM step s = some s') :
    Emits step out (fun _ _ => True) s (outputs step out s as) s' := by
  have checked : Emits step out (fun _ _ => true = true) s (outputs step out s as) s' := by
    apply Emits.of_checked out fun _ _ => true
    simpa using run
  exact checked.imp fun _ _ _ => trivial

end

/-! ### Runs of a list of labels -/

/-- The run of a list of labels whose steps pass a check. -/
lemma Steps.of_checked {check : σ → α → Bool} {as : List α}
    (run : as.foldlM (fun s a => if check s a then step s a else none) s = some s') :
    Steps step (fun s a => check s a = true) s s' :=
  (Emits.of_checked (fun _ _ => ([] : List α)) check run).steps

/-- The run of a list of labels. -/
lemma Steps.of_foldlM {as : List α} (run : as.foldlM step s = some s') : Steps step (fun _ _ => True) s s' :=
  (Emits.of_foldlM (fun _ _ => ([] : List α)) run).steps

end TdsqlMerge.Lib
