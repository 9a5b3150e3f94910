import Mathlib

/-!
# Separated intervals

Lists of intervals of integers in increasing order with a gap between each two (`Apart`). Such a list is
the only one that covers what it covers (`Apart.ext`), and an interval lies in what it covers only if it
lies in one of its intervals (`Apart.exists_of_Icc_subset`). The intervals are of any type, with their
bounds `lo` and `hi`.
-/

namespace TdsqlMerge.Lib

section
variable {I : Type} (lo hi : I → ℤ)

/-- The intervals are not empty, they increase, and between two of them a number is left out. -/
structure Apart (l : List I) : Prop where
  valid : ∀ i ∈ l, lo i ≤ hi i
  gaps : l.Pairwise fun i j => hi i + 1 < lo j

/-- The numbers in one of the intervals. -/
def covered (l : List I) : Set ℤ := {x | ∃ i ∈ l, x ∈ Set.Icc (lo i) (hi i)}

end

variable {I : Type} {lo hi : I → ℤ} {l l' : List I} {i : I} {x : ℤ}

/-- No interval covers nothing. -/
lemma covered_nil : covered lo hi [] = ∅ := by
  ext x
  exact ⟨fun ⟨i, mem, _⟩ => absurd mem List.not_mem_nil, fun mem => absurd mem (Set.notMem_empty x)⟩

/-- The first interval covers its numbers. -/
lemma covered_cons : covered lo hi (i :: l) = Set.Icc (lo i) (hi i) ∪ covered lo hi l := by
  ext x
  simp only [covered, Set.mem_ofPred_eq, List.mem_cons, exists_eq_or_imp, Set.mem_union]

/-- Two lists cover what each of them does. -/
lemma covered_append : covered lo hi (l ++ l') = covered lo hi l ∪ covered lo hi l' := by
  ext x
  simp only [covered, Set.mem_ofPred_eq, List.mem_append, or_and_right, exists_or, Set.mem_union]

namespace Apart

/-- No interval is apart. -/
lemma nil : Apart lo hi [] := ⟨fun _ mem => absurd mem List.not_mem_nil, .nil⟩

/-- The intervals behind the first are apart. -/
lemma tail (ap : Apart lo hi (i :: l)) : Apart lo hi l :=
  ⟨fun j mem => ap.valid j (List.mem_cons_of_mem i mem), ap.gaps.tail⟩

/-- The first intervals are apart. -/
lemma left (ap : Apart lo hi (l ++ l')) : Apart lo hi l :=
  ⟨fun j mem => ap.valid j (List.mem_append_left l' mem), (List.pairwise_append.mp ap.gaps).1⟩

/-- The last intervals are apart. -/
lemma right (ap : Apart lo hi (l ++ l')) : Apart lo hi l' :=
  ⟨fun j mem => ap.valid j (List.mem_append_right l mem), (List.pairwise_append.mp ap.gaps).2.1⟩

/-- An interval fits between two parts if it keeps its distance. -/
lemma between (left : Apart lo hi l) (right : Apart lo hi l') (valid : lo i ≤ hi i)
    (before : ∀ j ∈ l, hi j + 1 < lo i) (after : ∀ j ∈ l', hi i + 1 < lo j) : Apart lo hi (l ++ i :: l') := by
  constructor
  · intro j mem
    rcases List.mem_append.mp mem with mem | mem
    · exact left.valid j mem
    · rcases List.mem_cons.mp mem with rfl | mem
      · exact valid
      · exact right.valid j mem
  · rw [List.pairwise_append, List.pairwise_cons]
    refine ⟨left.gaps, ⟨after, right.gaps⟩, fun j mem_l k mem => ?_⟩
    rcases List.mem_cons.mp mem with rfl | mem
    · exact before j mem_l
    · have below := before j mem_l
      have above := after k mem
      omega

/-- What follows the first interval is above it. -/
lemma above (ap : Apart lo hi (i :: l)) (mem : x ∈ covered lo hi l) : hi i + 1 < x := by
  obtain ⟨j, mem, lower, _⟩ := mem
  have gap := (List.pairwise_cons.mp ap.gaps).1 j mem
  omega

/-- Numbers that follow each other lie in one interval. -/
lemma next_mem (ap : Apart lo hi l) {j k : I} (mem_j : j ∈ l) (mem_k : k ∈ l) (upper : lo j ≤ x ∧ x ≤ hi j)
    (next : lo k ≤ x + 1 ∧ x + 1 ≤ hi k) : x + 1 ≤ hi j := by
  induction l with
  | nil => cases mem_j
  | cons i l ih =>
    obtain ⟨gaps, _⟩ := List.pairwise_cons.mp ap.gaps
    rcases List.mem_cons.mp mem_j with rfl | at_j <;> rcases List.mem_cons.mp mem_k with rfl | at_k
    · exact next.2
    · have gap := gaps k at_k
      omega
    · have gap := gaps j at_j
      omega
    · exact ih ap.tail at_j at_k

/-- An interval that is covered lies in one of the intervals. -/
lemma exists_of_Icc_subset (ap : Apart lo hi l) {a b : ℤ} (le : a ≤ b)
    (sub : Set.Icc a b ⊆ covered lo hi l) : ∃ i ∈ l, lo i ≤ a ∧ b ≤ hi i := by
  obtain ⟨i, mem, lower, upper⟩ := sub ⟨le_refl a, le⟩
  refine ⟨i, mem, lower, ?_⟩
  -- the interval of `a` goes on from each number to the next one
  have reach : ∀ x, a ≤ x → x ≤ b → x ≤ hi i := by
    intro x from_a
    induction x, from_a using Int.leInduction with
    | base => exact fun _ => upper
    | succ x from_a ih =>
      intro to_b
      obtain ⟨k, mem_k, next⟩ := sub (show x + 1 ∈ Set.Icc a b from ⟨by omega, to_b⟩)
      exact ap.next_mem mem mem_k ⟨by omega, ih (by omega)⟩ next
  exact reach b le (le_refl b)

/-- What is covered lies in what is covered if and only if each interval lies in one of the intervals. -/
lemma covered_subset_iff (ap : Apart lo hi l) (valid : ∀ i ∈ l', lo i ≤ hi i) :
    covered lo hi l' ⊆ covered lo hi l ↔ ∀ i ∈ l', ∃ j ∈ l, lo j ≤ lo i ∧ hi i ≤ hi j := by
  constructor
  · intro sub i mem
    exact ap.exists_of_Icc_subset (valid i mem) fun x inside => sub ⟨i, mem, inside⟩
  · rintro each x ⟨i, mem, lower, upper⟩
    obtain ⟨j, mem_j, below, above⟩ := each i mem
    exact ⟨j, mem_j, by omega, by omega⟩

/-- The first interval starts no later than that of a list which covers more. -/
lemma head_le {j : I} (ap : Apart lo hi (j :: l')) (valid : lo i ≤ hi i)
    (sub : covered lo hi (i :: l) ⊆ covered lo hi (j :: l')) : lo j ≤ lo i := by
  obtain ⟨k, mem, lower, _⟩ := sub ⟨i, List.mem_cons_self, le_refl _, valid⟩
  rcases List.mem_cons.mp mem with rfl | mem
  · exact lower
  · have gap := (List.pairwise_cons.mp ap.gaps).1 k mem
    have valid := ap.valid j List.mem_cons_self
    omega

/-- A list of separated intervals is the only one that covers what it covers. -/
lemma ext (ap : Apart lo hi l) (ap' : Apart lo hi l') (same : covered lo hi l = covered lo hi l') :
    l.map (fun i => (lo i, hi i)) = l'.map fun i => (lo i, hi i) := by
  induction l generalizing l' with
  | nil =>
    cases l' with
    | nil => rfl
    | cons j l' =>
      have inside : lo j ∈ covered lo hi (j :: l') :=
        ⟨j, List.mem_cons_self, le_refl _, ap'.valid j List.mem_cons_self⟩
      rw [← same] at inside
      exact absurd inside (by rw [covered_nil]; exact Set.notMem_empty _)
  | cons i l ih =>
    cases l' with
    | nil =>
      have inside : lo i ∈ covered lo hi (i :: l) :=
        ⟨i, List.mem_cons_self, le_refl _, ap.valid i List.mem_cons_self⟩
      rw [same] at inside
      exact absurd inside (by rw [covered_nil]; exact Set.notMem_empty _)
    | cons j l' =>
      have valid := ap.valid i List.mem_cons_self
      have valid' := ap'.valid j List.mem_cons_self
      have lower : lo i = lo j :=
        le_antisymm (ap.head_le valid' same.superset) (ap'.head_le valid same.subset)
      have within : ∀ {m n : I} {k k' : List I}, Apart lo hi (m :: k) → Apart lo hi (n :: k') →
          covered lo hi (m :: k) ⊆ covered lo hi (n :: k') → lo m = lo n → hi m ≤ hi n := by
        intro m n k k' am an sub start
        obtain ⟨o, mem, below, above⟩ := (an.covered_subset_iff am.valid).mp sub m List.mem_cons_self
        rcases List.mem_cons.mp mem with rfl | mem
        · exact above
        · have gap := (List.pairwise_cons.mp an.gaps).1 o mem
          have valid := an.valid n List.mem_cons_self
          omega
      have upper : hi i = hi j :=
        le_antisymm (within ap ap' same.subset lower) (within ap' ap same.superset lower.symm)
      have rest : covered lo hi l = covered lo hi l' := by
        ext x
        have both := Set.ext_iff.mp same x
        rw [covered_cons, covered_cons, lower, upper] at both
        constructor
        · intro mem
          have above := ap.above mem
          exact (both.mp (.inr mem)).resolve_left fun inside => by have := inside.2; omega
        · intro mem
          have above := ap'.above mem
          exact (both.mpr (.inr mem)).resolve_left fun inside => by have := inside.2; omega
      rw [List.map_cons, List.map_cons, ih ap.tail ap'.tail rest, lower, upper]

end Apart

end TdsqlMerge.Lib
