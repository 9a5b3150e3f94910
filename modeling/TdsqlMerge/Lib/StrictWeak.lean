import Mathlib.Order.Lattice
import Mathlib.Order.Lex
import TdsqlMerge.Lib.Fallible

/-!
# Sorting with a comparison that may fail

`StrictWeak` is what a sorting function asks of the comparison it is given: that it returns on any two of the
elements, and that what it says is a strict weak order. `StrictWeak.of_key` derives it from a key in a linear
order; `Sorts` is what the sorting function promises in return. `insertionSort` is one that keeps the promise.
-/

namespace TdsqlMerge.Lib

section
variable {ε α : Type}

/-- Neither of the two comes before the other. -/
def Ties (comp : α → α → Except ε Bool) (x y : α) : Prop := comp x y ≠ .ok true ∧ comp y x ≠ .ok true

/-- `comp` returns on every two elements of the list, and is a strict weak order on them. -/
structure StrictWeak (comp : α → α → Except ε Bool) (l : List α) : Prop where
  returns : l.Pairwise fun x y => (∃ b, comp x y = .ok b) ∧ ∃ b, comp y x = .ok b
  irrefl : ∀ x ∈ l, comp x x ≠ .ok true
  trans : ∀ x ∈ l, ∀ y ∈ l, ∀ z ∈ l, comp x y = .ok true → comp y z = .ok true → comp x z = .ok true
  ties : ∀ x ∈ l, ∀ y ∈ l, ∀ z ∈ l, Ties comp x y → Ties comp y z → Ties comp x z

/-- With a strict weak order, the function returns the elements in some order. -/
def Sorts (sort : (α → α → Except ε Bool) → List α → Except ε (List α)) : Prop :=
  ∀ comp l, StrictWeak comp l → ∃ l', sort comp l = .ok l' ∧ l'.Perm l

/-- An element comes in front of the first that it is less than. -/
def insertBy (comp : α → α → Except ε Bool) (x : α) : List α → Except ε (List α)
  | [] => .ok [x]
  | y :: ys => do
    let less ← comp x y
    if less then .ok (x :: y :: ys)
    else do
      let zs ← insertBy comp x ys
      .ok (y :: zs)

/-- Insertion sort. -/
def insertionSort (comp : α → α → Except ε Bool) : List α → Except ε (List α)
  | [] => .ok []
  | x :: xs => do
    let ys ← insertionSort comp xs
    insertBy comp x ys

variable {comp : α → α → Except ε Bool} {l l' : List α} {x : α}

/-- Elements compared by a key in a linear order. -/
lemma StrictWeak.of_key {κ : Type} [LinearOrder κ] (key : α → κ)
    (returns : l.Pairwise fun x y => (∃ b, comp x y = .ok b) ∧ ∃ b, comp y x = .ok b)
    (less : ∀ x ∈ l, ∀ y ∈ l, comp x y = .ok true ↔ key x < key y) : StrictWeak comp l where
  returns := returns
  irrefl := by
    intro x hx
    rw [ne_eq, less x hx x hx]
    exact lt_irrefl _
  trans := by
    intro x hx y hy z hz xy yz
    rw [less x hx y hy] at xy
    rw [less y hy z hz] at yz
    exact (less x hx z hz).mpr (xy.trans yz)
  ties := by
    intro x hx y hy z hz xy yz
    have same {x y : α} (hx : x ∈ l) (hy : y ∈ l) : Ties comp x y ↔ key x = key y := by
      rw [Ties, ne_eq, ne_eq, less x hx y hy, less y hy x hx, not_lt, not_lt, and_comm]
      exact le_antisymm_iff.symm
    rw [same hx hy] at xy
    rw [same hy hz] at yz
    exact (same hx hz).mpr (xy.trans yz)

/-- Inserting an element returns it among the others. -/
lemma insertBy_perm (returns : ∀ y ∈ l, ∃ b, comp x y = .ok b) :
    ∃ l', insertBy comp x l = .ok l' ∧ l'.Perm (x :: l) := by
  induction l with
  | nil => exact ⟨_, rfl, .refl _⟩
  | cons y ys ih =>
    obtain ⟨less, e⟩ := returns y List.mem_cons_self
    obtain ⟨zs, inserted, perm⟩ := ih fun z mem => returns z (List.mem_cons_of_mem y mem)
    rw [insertBy, e, ok_bind]
    cases less with
    | true => exact ⟨_, rfl, .refl _⟩
    | false =>
      rw [inserted]
      exact ⟨_, rfl, (perm.cons y).trans (.swap x y ys)⟩

/-- Insertion sort is a sort. -/
theorem insertionSort_sorts : Sorts (@insertionSort ε α) := by
  intro comp l sw
  have returns := sw.returns
  clear sw
  induction l with
  | nil => exact ⟨_, rfl, .refl _⟩
  | cons x xs ih =>
    obtain ⟨first, rest⟩ := List.pairwise_cons.mp returns
    obtain ⟨ys, sorted, perm⟩ := ih rest
    have returns : ∀ y ∈ ys, ∃ b, comp x y = .ok b := fun y mem => (first y (perm.mem_iff.mp mem)).1
    obtain ⟨zs, inserted, perm'⟩ := insertBy_perm returns
    rw [insertionSort, sorted, ok_bind]
    exact ⟨zs, inserted, perm'.trans (perm.cons x)⟩

end

end TdsqlMerge.Lib
