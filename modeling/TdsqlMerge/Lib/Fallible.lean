import Mathlib.Tactic.Common
import Mathlib.Data.List.Basic
import Mathlib.Data.List.Forall2

/-!
# Fallible code

Code that may throw or run into undefined behaviour, and the rules to reason about it. `Fault σ`
separates a thrown exception, which carries the state `σ` it leaves behind, from undefined behaviour.
`Yields x P` is the total-correctness triple: `x` returns normally and its result satisfies `P`.
`bind_ok` and the `foldlM_ok` family invert and carry invariants through code that is known to have
returned; `Yields.bind` and `Yields.range_foldlM` show that it does return.
-/

namespace TdsqlMerge.Lib

/-- How a computation over a state `σ` ends abnormally. -/
inductive Fault (σ : Type) where
  | throw (what : String) (left : σ)
  | ub

/-- Reading through a pointer or an index; a missing target is undefined behaviour. -/
def deref {σ α : Type} : Option α → Except (Fault σ) α
  | some a => .ok a
  | none => .error .ub

/-- A pointer to a value is dereferenced. -/
@[simp] lemma deref_some {σ α : Type} (a : α) : (deref (some a) : Except (Fault σ) α) = .ok a := rfl

/-- Dereferencing returns where there is a value. -/
@[simp] lemma deref_eq_ok {σ α : Type} {x : Option α} {a : α} :
    (deref x : Except (Fault σ) α) = .ok a ↔ x = some a := by
  cases x <;> simp [deref]

/-- Inversion of a bind that returned. -/
lemma bind_ok {ε α β : Type} {x : Except ε α} {f : α → Except ε β} {b : β} :
    x >>= f = .ok b ↔ ∃ a, x = .ok a ∧ f a = .ok b := by
  cases x <;> simp [bind, Except.bind]

/-- A computation that returned goes on with its value. -/
@[simp] lemma ok_bind {ε α β : Type} (a : α) (f : α → Except ε β) :
    (Except.ok a : Except ε α) >>= f = f a := rfl

/-- Evaluation shows that a computation returns. -/
lemma ok_of_isOk {ε α : Type} {x : Except ε α} (h : x.isOk = true) : ∃ a, x = .ok a := by
  cases x with
  | ok a => exact ⟨a, rfl⟩
  | error e => cases h

/-- A computation with a value returned it. -/
lemma ok_of_toOption {ε α : Type} {x : Except ε α} {a : α} (h : x.toOption = some a) : x = .ok a := by
  cases x with
  | ok b => exact congrArg _ (Option.some.inj h)
  | error e => cases h

/-- A result that passes a check. -/
lemma ok_of_any {ε α : Type} {x : Except ε α} {p : α → Bool} (h : x.toOption.any p = true) :
    ∃ a, x = .ok a ∧ p a = true := by
  obtain ⟨a, run, passes⟩ := (Option.any_eq_true _ _).mp h
  exact ⟨a, ok_of_toOption run, passes⟩

/-- What the relation says about its right elements holds of all of them. -/
lemma forall₂_right {α β : Type} {R : α → β → Prop} {P : β → Prop} {l : List α} {m : List β}
    (h : List.Forall₂ R l m) (imp : ∀ a b, R a b → P b) : ∀ b ∈ m, P b := by
  induction h with
  | nil => simp
  | cons one _ ih =>
    intro b mem
    rcases List.mem_cons.mp mem with rfl | mem
    · exact imp _ _ one
    · exact ih b mem

/-- A functional relation determines its right list. -/
lemma forall₂_functional {α β : Type} {f : α → Option β} {l : List α} {m m' : List β}
    (h : List.Forall₂ (fun a b => f a = some b) l m)
    (h' : List.Forall₂ (fun a b => f a = some b) l m') : m = m' := by
  induction h generalizing m' with
  | nil =>
    cases h'
    rfl
  | cons one _ ih =>
    cases h' with
    | cons one' rest' =>
      rw [one] at one'
      cases one'
      rw [ih rest']

/-- What a `mapM` that returned computed. -/
lemma mapM_eq_ok {ε α β : Type} {f : α → Except ε β} {l : List α} {bs : List β} :
    l.mapM f = .ok bs ↔ List.Forall₂ (fun a b => f a = .ok b) l bs := by
  induction l generalizing bs with
  | nil => simp [pure, Except.pure, eq_comm]
  | cons a l ih =>
    simp only [List.mapM_cons, bind_ok, ih, List.forall₂_cons_left_iff]
    constructor
    · rintro ⟨b, hb, bs', run, e⟩
      cases e
      exact ⟨b, bs', hb, run, rfl⟩
    · rintro ⟨b, bs', hb, run, rfl⟩
      exact ⟨b, hb, bs', run, rfl⟩

/-- What a `mapM` into `Option` computed. -/
lemma mapM_eq_some {α β : Type} {f : α → Option β} {l : List α} {bs : List β} :
    l.mapM f = some bs ↔ List.Forall₂ (fun a b => f a = some b) l bs := by
  induction l generalizing bs with
  | nil => simp [eq_comm]
  | cons a l ih =>
    simp only [List.mapM_cons, Option.bind_eq_bind, Option.bind_eq_some_iff, ih,
      List.forall₂_cons_left_iff]
    constructor
    · rintro ⟨b, hb, bs', run, e⟩
      cases e
      exact ⟨b, bs', hb, run, rfl⟩
    · rintro ⟨b, bs', hb, run, rfl⟩
      exact ⟨b, hb, bs', run, rfl⟩

/-- A fold that returned preserves what each of its steps preserves. -/
lemma foldlM_ok {ε α σ : Type} {f : σ → α → Except ε σ} (I : σ → Prop) {l : List α} {s s' : σ}
    (step : ∀ a ∈ l, ∀ s s', I s → f s a = .ok s' → I s')
    (run : l.foldlM f s = .ok s') (init : I s) : I s' := by
  induction l generalizing s with
  | nil => cases run; exact init
  | cons a l ih =>
    rw [List.foldlM_cons, bind_ok] at run
    obtain ⟨s1, st, run⟩ := run
    apply ih (fun b mem => step b (List.mem_cons_of_mem a mem)) run
    exact step a List.mem_cons_self s s1 init st

/-- `x` returns normally, with a result satisfying `P`. -/
def Yields {ε α : Type} (x : Except ε α) (P : α → Prop) : Prop :=
  ∃ a, x = .ok a ∧ P a

/-- A value yields what holds of it. -/
lemma Yields.ok {ε α : Type} {P : α → Prop} {a : α} (h : P a) :
    Yields (.ok a : Except ε α) P :=
  ⟨a, rfl, h⟩

/-- What a computation yields is handed to the next. -/
lemma Yields.bind {ε α β : Type} {x : Except ε α} {f : α → Except ε β} {P : α → Prop}
    {Q : β → Prop} (hx : Yields x P) (hf : ∀ a, P a → Yields (f a) Q) : Yields (x >>= f) Q := by
  obtain ⟨a, rfl, pa⟩ := hx
  exact hf a pa

/-- A computation yields what follows from what it yields. -/
lemma Yields.imp {ε α : Type} {x : Except ε α} {P Q : α → Prop} (hx : Yields x P)
    (imp : ∀ a, P a → Q a) : Yields x Q := by
  obtain ⟨a, e, pa⟩ := hx
  exact ⟨a, e, imp a pa⟩

/-- What a run that returned yields. -/
lemma Yields.of_ok {ε α : Type} {x : Except ε α} {P : α → Prop} {a : α} (hx : Yields x P)
    (e : x = .ok a) : P a := by
  obtain ⟨b, e', pb⟩ := hx
  rw [e] at e'
  cases e'
  exact pb

/-- A counting loop all of whose steps return under an indexed invariant returns at its bound. -/
lemma Yields.range_foldlM {ε σ : Type} {f : σ → Nat → Except ε σ} (I : Nat → σ → Prop) {n : Nat}
    {s : σ} (step : ∀ i < n, ∀ s, I i s → Yields (f s i) (I (i + 1))) (init : I 0 s) :
    Yields ((List.range n).foldlM f s) (I n) := by
  induction n with
  | zero => exact .ok init
  | succ n ih =>
    rw [List.range_succ, List.foldlM_append]
    apply Yields.bind (ih fun i lt => step i (by omega))
    intro s1 inv
    rw [List.foldlM_cons]
    apply Yields.bind (step n (by omega) s1 inv)
    intro s2 inv2
    exact .ok inv2

end TdsqlMerge.Lib
