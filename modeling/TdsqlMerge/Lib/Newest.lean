import Mathlib.Order.Defs.LinearOrder
import Mathlib.Data.Set.Insert
import Mathlib.Tactic.Common
import Mathlib.Data.List.Basic

/-!
# Keeping the greatest element of each key

A store with slots, some of them empty, in which every element has a key and a rank. `merge` lets a
new element meet the one with its key: the slot goes to the greater of the two, the resident one on a
tie. `put` inserts an element, into a new slot if its key is new. `rebuild` runs every slot of a
store through `merge` again, emptying the slots whose element met an earlier one.

`Represents S arr` says what such a store is for: its elements have distinct keys, each is greatest
among the elements of `S` with its key, and every key of `S` occurs. It determines the kept elements
up to ties from the set `S` alone, so it does not depend on the order of insertion
(`Represents.agree`). `Represents.put` and `represents_rebuild` are the two rules. `rebuild_inPlace`
adds where a rebuilt store keeps them: in the slot of the first element with the key.
-/

namespace TdsqlMerge.Lib

variable {ρ κ ω : Type}

/-- Distinct slots hold elements with distinct keys. -/
def Unique (key : ρ → κ) (arr : List (Option ρ)) : Prop :=
  ∀ (i j : Nat) (r s : ρ),
    arr[i]? = some (some r) → arr[j]? = some (some s) → key r = key s → i = j

section
variable {key : ρ → κ} {arr : List (Option ρ)} {r : ρ}

/-- An append of a new key keeps the keys distinct. -/
lemma Unique.append (uniq : Unique key arr) (new : ∀ s, some s ∈ arr → key s ≠ key r) :
    Unique key (arr ++ [some r]) := by
  intro i j a b at_i at_j e
  rw [List.getElem?_append] at at_i at_j
  split at at_i <;> split at at_j
  · exact uniq i j a b at_i at_j e
  · rw [List.getElem?_singleton] at at_j
    split at at_j
    · cases at_j
      exact absurd e (new a (List.mem_of_getElem? at_i))
    · cases at_j
  · rw [List.getElem?_singleton] at at_i
    split at at_i
    · cases at_i
      exact absurd e.symm (new b (List.mem_of_getElem? at_j))
    · cases at_i
  · rw [List.getElem?_singleton] at at_i at_j
    split at at_i <;> split at at_j
    · omega
    all_goals simp_all

/-- An empty slot leaves the keys different. -/
lemma Unique.append_none (uniq : Unique key arr) : Unique key (arr ++ [none]) := by
  intro i j a b at_i at_j e
  rw [List.getElem?_append] at at_i at_j
  split at at_i <;> split at at_j
  · exact uniq i j a b at_i at_j e
  all_goals simp_all [List.getElem?_singleton]

/-- After an exchange the slots hold the new element and those with other keys than the old one. -/
lemma Unique.mem_set {j : Nat} {o x : ρ} (uniq : Unique key arr) (at_j : arr[j]? = some (some o)) :
    some x ∈ arr.set j (some r) ↔ x = r ∨ some x ∈ arr ∧ key x ≠ key o := by
  constructor
  · intro mem
    obtain ⟨i, at_i⟩ := List.mem_iff_getElem?.mp mem
    by_cases here : j = i
    · subst here
      rw [List.getElem?_set_self (List.getElem?_eq_some_iff.mp at_j).1] at at_i
      cases at_i
      exact .inl rfl
    · rw [List.getElem?_set_ne here] at at_i
      exact .inr ⟨List.mem_of_getElem? at_i, fun e => here (uniq i j x o at_i at_j e).symm⟩
  · rintro (rfl | ⟨mem, ne⟩)
    · exact List.mem_set (List.getElem?_eq_some_iff.mp at_j).1 _
    · obtain ⟨i, at_i⟩ := List.mem_iff_getElem?.mp mem
      have other : j ≠ i := by
        rintro rfl
        rw [at_j] at at_i
        cases at_i
        exact ne rfl
      rw [← List.getElem?_set_ne other] at at_i
      exact List.mem_of_getElem? at_i

/-- Exchanging an element for one with its key keeps the keys distinct. -/
lemma Unique.set {j : Nat} {o : ρ} (uniq : Unique key arr) (at_j : arr[j]? = some (some o))
    (e : key r = key o) : Unique key (arr.set j (some r)) := by
  have read : ∀ (i : Nat) (a : ρ), (arr.set j (some r))[i]? = some (some a) →
      ∃ a', arr[i]? = some (some a') ∧ key a' = key a := by
    intro i a at_i
    rw [List.getElem?_set] at at_i
    split at at_i
    · split at at_i
      · cases at_i
        subst i
        exact ⟨o, at_j, e.symm⟩
      · cases at_i
    · exact ⟨a, at_i, rfl⟩
  intro i k a b at_i at_k eab
  obtain ⟨a', at_i', ea⟩ := read i a at_i
  obtain ⟨b', at_k', eb⟩ := read k b at_k
  exact uniq i k a' b' at_i' at_k' (by rw [ea, eb, eab])

end

section
variable [DecidableEq κ] [LinearOrder ω] (key : ρ → κ) (rank : ρ → ω)

/-- The slot holds an element with this key. -/
def holds (k : κ) (slot : Option ρ) : Bool := slot.any fun r => decide (key r = k)

/-- The slot `j` after `r` met the element in it. -/
def contest (arr : List (Option ρ)) (j : Nat) (r : ρ) : List (Option ρ) :=
  if (arr[j]?.join).any fun o => decide (rank o < rank r) then arr.set j (some r) else arr

/-- `r` meets the element with its key, if there is one. -/
def merge (arr : List (Option ρ)) (r : ρ) : Option (List (Option ρ)) :=
  (arr.findIdx? (holds key (key r))).map fun j => contest rank arr j r

/-- Insertion of one element. -/
def put (arr : List (Option ρ)) (r : ρ) : List (Option ρ) :=
  (merge key rank arr r).getD (arr ++ [some r])

/-- One slot of a store joins the part of it that was already rebuilt. -/
def rebuildStep (done : List (Option ρ)) : Option ρ → List (Option ρ)
  | none => done ++ [none]
  | some r =>
    match merge key rank done r with
    | none => done ++ [some r]
    | some done' => done' ++ [none]

/-- The first `n` slots of a store in turn. -/
def rebuildTo (arr : List (Option ρ)) (n : Nat) : List (Option ρ) :=
  (arr.take n).foldl (rebuildStep key rank) []

/-- All slots of a store in turn. -/
def rebuild (arr : List (Option ρ)) : List (Option ρ) :=
  arr.foldl (rebuildStep key rank) []

variable {key rank} {arr arr' : List (Option ρ)} {r : ρ}

/-- A slot holds the key of its element. -/
@[simp] lemma holds_some {k : κ} : holds key k (some r) = decide (key r = k) := rfl

/-- An empty slot holds no key. -/
@[simp] lemma holds_none {k : κ} : holds key k (none : Option ρ) = false := rfl

/-- A slot holds a key where its element has it. -/
lemma holds_eq_true {k : κ} {slot : Option ρ} :
    holds key k slot = true ↔ ∃ r, slot = some r ∧ key r = k := by
  cases slot <;> simp [holds]

/-- Nothing is met iff the key is new. -/
lemma merge_eq_none : merge key rank arr r = none ↔ ∀ s, some s ∈ arr → key s ≠ key r := by
  simp only [merge, Option.map_eq_none_iff, List.findIdx?_eq_none_iff]
  constructor
  · intro h s mem e
    have no := h (some s) mem
    simp [e] at no
  · intro h slot mem
    cases slot with
    | none => rfl
    | some s => simpa using h s mem

/-- The contested slot goes to the greater element. -/
lemma contest_eq {j : Nat} {o : ρ} (at_j : arr[j]? = some (some o)) :
    contest rank arr j r = arr.set j (some (if rank o < rank r then r else o)) := by
  simp only [contest, at_j, Option.join_some, Option.any_some, decide_eq_true_eq]
  split
  · rfl
  · obtain ⟨lt, e⟩ := List.getElem?_eq_some_iff.mp at_j
    rw [← e, List.set_getElem_self]

/-- The element met is the one with the key, and its slot goes to the greater of the two. -/
lemma merge_eq_some (h : merge key rank arr r = some arr') :
    ∃ j o, arr[j]? = some (some o) ∧ key o = key r ∧
      arr' = arr.set j (some (if rank o < rank r then r else o)) := by
  simp only [merge, Option.map_eq_some_iff] at h
  obtain ⟨j, find, e⟩ := h
  obtain ⟨lt, here, _⟩ := List.findIdx?_eq_some_iff_getElem.mp find
  obtain ⟨o, at_j, ko⟩ := holds_eq_true.mp here
  have at_j' : arr[j]? = some (some o) := by rw [List.getElem?_eq_getElem lt, at_j]
  exact ⟨j, o, at_j', ko, by rw [← e, contest_eq at_j']⟩

/-- With distinct keys, the slot found is the only one with the key. -/
lemma merge_of_getElem? {j : Nat} {o : ρ} (uniq : Unique key arr)
    (at_j : arr[j]? = some (some o)) (ko : key o = key r) :
    merge key rank arr r = some (contest rank arr j r) := by
  cases h : arr.findIdx? (holds key (key r)) with
  | none =>
    rw [List.findIdx?_eq_none_iff] at h
    have no := h (some o) (List.mem_of_getElem? at_j)
    simp [ko] at no
  | some i =>
    obtain ⟨lt, here, _⟩ := List.findIdx?_eq_some_iff_getElem.mp h
    obtain ⟨s, at_i, ks⟩ := holds_eq_true.mp here
    have e := uniq i j s o (by rw [List.getElem?_eq_getElem lt, at_i]) at_j (ks.trans ko.symm)
    subst e
    simp [merge, h]

/-- The slot with the key goes to the greater of the two elements. -/
lemma merge_of_mem {j : Nat} {o : ρ} (uniq : Unique key arr) (at_j : arr[j]? = some (some o))
    (ko : key o = key r) :
    merge key rank arr r = some (arr.set j (some (if rank o < rank r then r else o))) := by
  rw [merge_of_getElem? uniq at_j ko, contest_eq at_j]

/-- Merging keeps the number of slots. -/
lemma merge_length (h : merge key rank arr r = some arr') : arr'.length = arr.length := by
  obtain ⟨j, o, _, _, rfl⟩ := merge_eq_some h
  exact List.length_set

/-- An element that does not beat the one with its key is lost. -/
lemma put_of_le {o : ρ} (uniq : Unique key arr) (mem : some o ∈ arr) (ko : key o = key r)
    (le : rank r ≤ rank o) : put key rank arr r = arr := by
  obtain ⟨j, at_j⟩ := List.mem_iff_getElem?.mp mem
  obtain ⟨lt, e⟩ := List.getElem?_eq_some_iff.mp at_j
  rw [put, merge_of_mem uniq at_j ko, Option.getD_some, if_neg (not_lt.mpr le),
    ← e, List.set_getElem_self]

/-- An element that beats the one with its key is kept. -/
lemma mem_put (beats : ∀ s, some s ∈ arr → key s = key r → rank s < rank r) :
    some r ∈ put key rank arr r := by
  rw [put]
  cases met : merge key rank arr r with
  | none => simp
  | some arr' =>
    obtain ⟨j, o, at_j, ko, rfl⟩ := merge_eq_some met
    have lt := (List.getElem?_eq_some_iff.mp at_j).1
    rw [Option.getD_some, if_pos (beats o (List.mem_of_getElem? at_j) ko)]
    exact List.mem_set lt _

/-- An element or one that beats it is there after its insertion. -/
lemma exists_mem_put (uniq : Unique key arr) : ∃ s, some s ∈ put key rank arr r ∧ key s = key r := by
  by_cases old : ∃ s, some s ∈ arr ∧ key s = key r ∧ rank r ≤ rank s
  · obtain ⟨s, mem, same, le⟩ := old
    exact ⟨s, by rwa [put_of_le uniq mem same le], same⟩
  · refine ⟨r, mem_put fun s mem same => ?_, rfl⟩
    by_contra le
    exact old ⟨s, mem, same, not_lt.mp le⟩

/-- Insertion adds at most the element. -/
lemma mem_of_mem_put {s : ρ} (mem : some s ∈ put key rank arr r) : some s ∈ arr ∨ s = r := by
  rw [put] at mem
  cases met : merge key rank arr r with
  | none =>
    rw [met, Option.getD_none, List.mem_append, List.mem_singleton, Option.some.injEq] at mem
    exact mem
  | some arr' =>
    obtain ⟨j, o, at_j, ko, rfl⟩ := merge_eq_some met
    rw [met, Option.getD_some] at mem
    rcases List.mem_or_eq_of_mem_set mem with mem | e
    · exact .inl mem
    · rw [Option.some.injEq] at e
      split at e
      · exact .inr e
      · exact .inl (e ▸ List.mem_of_getElem? at_j)

/-- Insertion takes no new slot exactly for a known key. -/
lemma put_length : (put key rank arr r).length = arr.length ↔ ∃ s, some s ∈ arr ∧ key s = key r := by
  rw [put]
  cases met : merge key rank arr r with
  | none =>
    have new := merge_eq_none.mp met
    constructor
    · intro len
      simp at len
    · rintro ⟨s, mem, same⟩
      exact absurd same (new s mem)
  | some arr' =>
    obtain ⟨j, o, at_j, ko, _⟩ := merge_eq_some met
    exact iff_of_true (merge_length met) ⟨o, List.mem_of_getElem? at_j, ko⟩

/-- A step of the rebuild makes one more slot. -/
lemma rebuildStep_length {slot : Option ρ} :
    (rebuildStep key rank arr slot).length = arr.length + 1 := by
  unfold rebuildStep
  split
  · simp
  · split
    · simp
    · rename_i h
      simp [merge_length h]

/-- The rebuild goes on with the next slot. -/
lemma rebuildTo_succ {n : Nat} {slot : Option ρ} (at_n : arr[n]? = some slot) :
    rebuildTo key rank arr (n + 1) = rebuildStep key rank (rebuildTo key rank arr n) slot := by
  simp [rebuildTo, List.take_add_one, at_n]

/-- The rebuild has made as many slots as it has seen. -/
lemma rebuildTo_length {n : Nat} (le : n ≤ arr.length) :
    (rebuildTo key rank arr n).length = n := by
  induction n with
  | zero => rfl
  | succ n ih =>
    rw [rebuildTo_succ (List.getElem?_eq_getElem (by omega)), rebuildStep_length, ih (by omega)]

/-- The rebuild of all slots. -/
lemma rebuildTo_all : rebuildTo key rank arr arr.length = rebuild key rank arr := by
  rw [rebuildTo, List.take_length, rebuild]

/-- The rebuild keeps the number of slots. -/
@[simp] lemma rebuild_length : (rebuild key rank arr).length = arr.length := by
  rw [← rebuildTo_all, rebuildTo_length le_rfl]

end

section
variable {ρ' : Type} [DecidableEq κ] [LinearOrder ω] {key : ρ → κ} {rank : ρ → ω} {key' : ρ' → κ}
  {rank' : ρ' → ω} {f : ρ → ρ'}

omit [LinearOrder ω] [DecidableEq κ] in
/-- The elements of a mapped store. -/
lemma exists_of_mem_map {arr : List (Option ρ)} {y : ρ'} (mem : some y ∈ arr.map (Option.map f)) :
    ∃ x, some x ∈ arr ∧ f x = y := by
  obtain ⟨slot, old, e⟩ := List.mem_map.mp mem
  obtain ⟨x, rfl, same⟩ := Option.map_eq_some_iff.mp e
  exact ⟨x, old, same⟩

omit [LinearOrder ω] [DecidableEq κ] in
/-- A search only looks at the elements of the list. -/
lemma findIdx?_congr {p q : ρ → Bool} {l : List ρ} (same : ∀ x ∈ l, p x = q x) :
    l.findIdx? p = l.findIdx? q := by
  induction l with
  | nil => rfl
  | cons x l ih =>
    rw [List.findIdx?_cons, List.findIdx?_cons, same x List.mem_cons_self,
      ih fun y mem => same y (List.mem_cons_of_mem x mem)]

/-- Merging only looks at the keys and ranks of the elements in the slots. -/
lemma merge_map_on {arr : List (Option ρ)} {r : ρ}
    (keys : ∀ s, some s ∈ arr → (key' (f s) = key' (f r) ↔ key s = key r))
    (ranks : ∀ s, some s ∈ arr → (rank' (f s) < rank' (f r) ↔ rank s < rank r)) :
    merge key' rank' (arr.map (Option.map f)) (f r) =
      (merge key rank arr r).map (List.map (Option.map f)) := by
  have find : (arr.map (Option.map f)).findIdx? (holds key' (key' (f r))) =
      arr.findIdx? (holds key (key r)) := by
    rw [List.findIdx?_map]
    apply findIdx?_congr
    intro slot mem
    cases slot with
    | none => rfl
    | some s => simp [keys s mem]
  rw [merge, merge, find]
  cases h : arr.findIdx? (holds key (key r)) with
  | none => rfl
  | some j =>
    obtain ⟨lt, here, _⟩ := List.findIdx?_eq_some_iff_getElem.mp h
    obtain ⟨o, at_j, _⟩ := holds_eq_true.mp here
    have at_j' : arr[j]? = some (some o) := by rw [List.getElem?_eq_getElem lt, at_j]
    have at_f : (arr.map (Option.map f))[j]? = some (some (f o)) := by simp [at_j']
    simp only [Option.map_some]
    rw [contest_eq at_j', contest_eq at_f, List.map_set]
    simp only [ranks o (List.mem_of_getElem? at_j')]
    split <;> rfl

/-- Insertion only looks at the keys and ranks of the elements in the slots. -/
lemma put_map_on {arr : List (Option ρ)} {r : ρ}
    (keys : ∀ s, some s ∈ arr → (key' (f s) = key' (f r) ↔ key s = key r))
    (ranks : ∀ s, some s ∈ arr → (rank' (f s) < rank' (f r) ↔ rank s < rank r)) :
    put key' rank' (arr.map (Option.map f)) (f r) = (put key rank arr r).map (Option.map f) := by
  rw [put, put, merge_map_on keys ranks]
  cases merge key rank arr r with
  | none => simp
  | some arr' => rfl

/-- Insertion only looks at keys and ranks. -/
lemma put_map (keys : ∀ r, key' (f r) = key r) (ranks : ∀ r, rank' (f r) = rank r)
    {arr : List (Option ρ)} {r : ρ} :
    put key' rank' (arr.map (Option.map f)) (f r) = (put key rank arr r).map (Option.map f) := by
  apply put_map_on
  · intro s _
    rw [keys, keys]
  · intro s _
    rw [ranks, ranks]

/-- Insertion of a batch only looks at keys and ranks. -/
lemma foldl_put_map (keys : ∀ r, key' (f r) = key r) (ranks : ∀ r, rank' (f r) = rank r)
    {arr : List (Option ρ)} {rs : List ρ} :
    (rs.map f).foldl (put key' rank') (arr.map (Option.map f)) =
      (rs.foldl (put key rank) arr).map (Option.map f) := by
  induction rs generalizing arr with
  | nil => rfl
  | cons r rs ih => rw [List.map_cons, List.foldl_cons, List.foldl_cons, put_map keys ranks, ih]

end

section
variable [LinearOrder ω] (key : ρ → κ) (rank : ρ → ω)

/-- `x` is greatest among the elements of `S` with its key. -/
def IsNewest (S : Set ρ) (x : ρ) : Prop :=
  x ∈ S ∧ ∀ y ∈ S, key y = key x → rank y ≤ rank x

/-- The slots hold, for each key of `S`, exactly one element, greatest among those with the key. -/
structure Represents (S : Set ρ) (arr : List (Option ρ)) : Prop where
  unique : Unique key arr
  newest : ∀ x, some x ∈ arr → IsNewest key rank S x
  covers : ∀ y ∈ S, ∃ x, some x ∈ arr ∧ key x = key y

variable {key rank} {S : Set ρ} {arr : List (Option ρ)} {r : ρ}

/-- No slot represents the empty set. -/
lemma represents_nil : Represents key rank (∅ : Set ρ) [] where
  unique := by intro i j a b at_i; simp at at_i
  newest := by simp
  covers := by simp

/-- The kept element of a key is at least every element of the set with the key. -/
lemma Represents.le {x y : ρ} (rep : Represents key rank S arr) (mem : some x ∈ arr) (hy : y ∈ S)
    (e : key y = key x) : rank y ≤ rank x :=
  (rep.newest x mem).2 y hy e

/-- Exactly one slot holds a key of the set. -/
lemma Represents.existsUnique {y : ρ} (rep : Represents key rank S arr) (hy : y ∈ S) :
    ∃! i : Nat, ∃ x, arr[i]? = some (some x) ∧ key x = key y := by
  obtain ⟨x, mem, e⟩ := rep.covers y hy
  obtain ⟨i, at_i⟩ := List.mem_iff_getElem?.mp mem
  refine ⟨i, ⟨x, at_i, e⟩, ?_⟩
  rintro j ⟨z, at_j, ez⟩
  exact rep.unique j i z x at_j at_i (ez.trans e.symm)

/-- Elements of the set that are determined by key and rank are kept by every representation. -/
lemma Represents.mem_iff {x : ρ} (rep : Represents key rank S arr)
    (inj : ∀ x ∈ S, ∀ y ∈ S, key x = key y → rank x = rank y → x = y) :
    some x ∈ arr ↔ IsNewest key rank S x := by
  constructor
  · exact rep.newest x
  · rintro ⟨hx, top⟩
    obtain ⟨y, mem, e⟩ := rep.covers x hx
    have ey := inj y (rep.newest y mem).1 x hx e
      (le_antisymm (top y (rep.newest y mem).1 e) (rep.le mem hx e.symm))
    rwa [ey] at mem

/-- A key may be exchanged for a finer one that it separates on the set. -/
lemma Represents.separate {κ' : Type} {key' : ρ → κ'} (rep : Represents key rank S arr)
    (separates : ∀ x ∈ S, ∀ y ∈ S, key x = key y → key' x = key' y)
    (factors : ∀ x y, key' x = key' y → key x = key y) : Represents key' rank S arr where
  unique := fun i j x y at_i at_j e => rep.unique i j x y at_i at_j (factors x y e)
  newest := fun x mem => ⟨(rep.newest x mem).1, fun y hy e => rep.le mem hy (factors y x e)⟩
  covers := by
    intro y hy
    obtain ⟨x, mem, e⟩ := rep.covers y hy
    exact ⟨x, mem, separates x (rep.newest x mem).1 y hy e⟩

/-- A representation goes along with a map of the elements that keeps which keys are equal, and the ranks. -/
lemma Represents.map {ρ' κ' : Type} {key' : ρ' → κ'} {rank' : ρ' → ω} {f : ρ → ρ'} (rep : Represents key rank S arr)
    (keys : ∀ x ∈ S, ∀ y ∈ S, key' (f x) = key' (f y) ↔ key x = key y) (ranks : ∀ x ∈ S, rank' (f x) = rank x) :
    Represents key' rank' (f '' S) (arr.map (Option.map f)) where
  unique := by
    intro i j a b at_i at_j e
    rw [List.getElem?_map, Option.map_eq_some_iff] at at_i at_j
    obtain ⟨slot, at_i, ea⟩ := at_i
    obtain ⟨slot', at_j, eb⟩ := at_j
    obtain ⟨x, rfl, rfl⟩ := Option.map_eq_some_iff.mp ea
    obtain ⟨y, rfl, rfl⟩ := Option.map_eq_some_iff.mp eb
    have hx := (rep.newest x (List.mem_of_getElem? at_i)).1
    have hy := (rep.newest y (List.mem_of_getElem? at_j)).1
    exact rep.unique i j x y at_i at_j ((keys x hx y hy).mp e)
  newest := by
    intro a listed
    obtain ⟨x, mem, rfl⟩ := exists_of_mem_map listed
    obtain ⟨hx, top⟩ := rep.newest x mem
    refine ⟨⟨x, hx, rfl⟩, ?_⟩
    rintro b ⟨y, hy, rfl⟩ e
    rw [ranks x hx, ranks y hy]
    exact top y hy ((keys y hy x hx).mp e)
  covers := by
    rintro b ⟨y, hy, rfl⟩
    obtain ⟨x, mem, e⟩ := rep.covers y hy
    exact ⟨f x, List.mem_map.mpr ⟨some x, mem, rfl⟩, (keys x (rep.newest x mem).1 y hy).mpr e⟩

/-- The greatest elements under a coarser key are found among those under the finer one. -/
lemma Represents.coarsen {κ' : Type} {key' : ρ → κ'} {arr' : List (Option ρ)} (rep : Represents key rank S arr)
    (coarser : ∀ x ∈ S, ∀ y ∈ S, key x = key y → key' x = key' y)
    (rep' : Represents key' rank {x | some x ∈ arr} arr') : Represents key' rank S arr' where
  unique := rep'.unique
  newest := by
    intro x mem
    obtain ⟨kept, top⟩ := rep'.newest x mem
    refine ⟨(rep.newest x kept).1, fun y hy e => ?_⟩
    obtain ⟨z, mem_z, ez⟩ := rep.covers y hy
    have ez' := coarser z (rep.newest z mem_z).1 y hy ez
    exact (rep.le mem_z hy ez.symm).trans (top z mem_z (ez'.trans e))
  covers := by
    intro y hy
    obtain ⟨z, mem_z, ez⟩ := rep.covers y hy
    obtain ⟨w, mem, ew⟩ := rep'.covers z mem_z
    exact ⟨w, mem, ew.trans (coarser z (rep.newest z mem_z).1 y hy ez)⟩

/-- An empty slot represents nothing more. -/
lemma Represents.append_none (rep : Represents key rank S arr) :
    Represents key rank S (arr ++ [none]) where
  unique := rep.unique.append_none
  newest := by simpa using rep.newest
  covers := by simpa using rep.covers

/-- A new key gets a slot of its own. -/
lemma Represents.append (rep : Represents key rank S arr)
    (new : ∀ s, some s ∈ arr → key s ≠ key r) :
    Represents key rank (insert r S) (arr ++ [some r]) where
  unique := rep.unique.append new
  newest := by
    intro x mem
    rcases List.mem_append.mp mem with old | added
    · refine ⟨Or.inr (rep.newest x old).1, ?_⟩
      rintro y (rfl | hy) e
      · exact absurd e.symm (new x old)
      · exact rep.le old hy e
    · obtain rfl : x = r := by simpa using added
      refine ⟨Or.inl rfl, ?_⟩
      rintro y (rfl | hy) e
      · exact le_rfl
      · obtain ⟨z, memz, ez⟩ := rep.covers y hy
        exact absurd (ez.trans e) (new z memz)
  covers := by
    rintro y (rfl | hy)
    · exact ⟨y, by simp, rfl⟩
    · obtain ⟨x, mem, e⟩ := rep.covers y hy
      exact ⟨x, by simp [mem], e⟩

/-- A known key keeps its slot, which goes to the greater element. -/
lemma Represents.set {j : Nat} {o : ρ} (rep : Represents key rank S arr)
    (at_j : arr[j]? = some (some o)) (ko : key o = key r) :
    Represents key rank (insert r S) (arr.set j (some (if rank o < rank r then r else o))) := by
  have mem_o := List.mem_of_getElem? at_j
  have kw : key (if rank o < rank r then r else o) = key o := by split <;> simp [ko]
  refine ⟨rep.unique.set at_j kw, ?_, ?_⟩
  · intro x mem
    rcases (rep.unique.mem_set at_j).mp mem with rfl | ⟨mem, ne⟩
    · split
      · rename_i lt
        refine ⟨Or.inl rfl, ?_⟩
        rintro y (rfl | hy) e
        · exact le_rfl
        · exact (rep.le mem_o hy (e.trans ko.symm)).trans lt.le
      · rename_i nlt
        refine ⟨Or.inr (rep.newest o mem_o).1, ?_⟩
        rintro y (rfl | hy) e
        · exact not_lt.mp nlt
        · exact rep.le mem_o hy e
    · refine ⟨Or.inr (rep.newest x mem).1, ?_⟩
      rintro y (rfl | hy) e
      · exact absurd (e.symm.trans ko.symm) ne
      · exact rep.le mem hy e
  · have here := (rep.unique.mem_set at_j).mpr (.inl (rfl : (if rank o < rank r then r else o) = _))
    rintro y (rfl | hy)
    · exact ⟨_, here, kw.trans ko⟩
    · obtain ⟨x, mem, e⟩ := rep.covers y hy
      by_cases same : key x = key o
      · exact ⟨_, here, kw.trans (same.symm.trans e)⟩
      · exact ⟨x, (rep.unique.mem_set at_j).mpr (.inr ⟨mem, same⟩), e⟩

variable [DecidableEq κ]

/-- A store that meets `r` represents the set with `r`. -/
lemma Represents.merge {arr' : List (Option ρ)} (rep : Represents key rank S arr)
    (h : merge key rank arr r = some arr') : Represents key rank (insert r S) arr' := by
  obtain ⟨j, o, at_j, ko, rfl⟩ := merge_eq_some h
  exact rep.set at_j ko

/-- Insertion adds the element to the represented set. -/
theorem Represents.put (rep : Represents key rank S arr) :
    Represents key rank (insert r S) (put key rank arr r) := by
  cases h : Lib.merge key rank arr r with
  | none =>
    rw [Lib.put, h]
    exact rep.append (merge_eq_none.mp h)
  | some arr' =>
    rw [Lib.put, h]
    exact rep.merge h

/-- Insertion of a batch adds its elements to the represented set. -/
lemma Represents.foldl_put {rs : List ρ} (rep : Represents key rank S arr) :
    Represents key rank (S ∪ {r | r ∈ rs}) (rs.foldl (Lib.put key rank) arr) := by
  induction rs generalizing S arr with
  | nil => simpa using rep
  | cons r rs ih =>
    have h := ih (rep.put (r := r))
    have e : S ∪ {x | x ∈ r :: rs} = insert r S ∪ {x | x ∈ rs} := by
      ext x
      simp only [Set.mem_union, Set.mem_ofPred_eq, List.mem_cons, Set.mem_insert_iff]
      tauto
    rw [e]
    exact h

/-- The elements in the slots. -/
def contents (arr : List (Option ρ)) : Set ρ := {x | some x ∈ arr}

/-- A step of the rebuild represents one slot more. -/
lemma represents_rebuildStep {done : List (Option ρ)} {slot : Option ρ}
    (rep : Represents key rank S done) :
    Represents key rank (S ∪ contents [slot]) (rebuildStep key rank done slot) := by
  cases slot with
  | none =>
    have e : S ∪ contents [none] = S := by simp [contents]
    rw [e]
    exact rep.append_none
  | some r =>
    have e : S ∪ contents [some r] = insert r S := by
      ext x
      simp only [contents, List.mem_singleton, Option.some.injEq, Set.mem_union,
        Set.mem_ofPred_eq, Set.mem_insert_iff]
      tauto
    rw [e, rebuildStep]
    cases h : Lib.merge key rank done r with
    | none => exact rep.append (merge_eq_none.mp h)
    | some done' => exact (rep.merge h).append_none

/-- A rebuilt store represents the elements it held. -/
theorem represents_rebuild : Represents key rank (contents arr) (rebuild key rank arr) := by
  have run : ∀ (rest done : List (Option ρ)) (S : Set ρ), Represents key rank S done →
      Represents key rank (S ∪ contents rest) (rest.foldl (rebuildStep key rank) done) := by
    intro rest
    induction rest with
    | nil =>
      intro done S rep
      simpa [contents] using rep
    | cons slot rest ih =>
      intro done S rep
      have e : S ∪ contents (slot :: rest) = S ∪ contents [slot] ∪ contents rest := by
        ext x
        simp only [contents, List.mem_cons, Set.mem_union, Set.mem_ofPred_eq, List.not_mem_nil,
          or_false]
        tauto
      rw [e]
      exact ih _ _ (represents_rebuildStep rep)
  have h := run arr [] ∅ represents_nil
  rwa [Set.empty_union] at h

/-- Rebuilding a store with distinct keys leaves it as it is. -/
lemma rebuild_of_unique (uniq : Unique key arr) : rebuild key rank arr = arr := by
  have run : ∀ (rest done : List (Option ρ)), Unique key (done ++ rest) →
      rest.foldl (rebuildStep key rank) done = done ++ rest := by
    intro rest
    induction rest with
    | nil =>
      intro done _
      rw [List.append_nil]
      rfl
    | cons slot rest ih =>
      intro done uniq
      have step : rebuildStep key rank done slot = done ++ [slot] := by
        cases slot with
        | none => rfl
        | some r =>
          have new : Lib.merge key rank done r = none := by
            rw [merge_eq_none]
            intro s mem e
            obtain ⟨i, at_i⟩ := List.mem_iff_getElem?.mp mem
            have lt := (List.getElem?_eq_some_iff.mp at_i).1
            have at_i' : (done ++ some r :: rest)[i]? = some (some s) := by
              rw [List.getElem?_append_left lt, at_i]
            have same := uniq i done.length s r at_i' (by simp) e
            omega
          rw [rebuildStep, new]
      rw [List.foldl_cons, step, ih (done ++ [slot]) (by simpa using uniq)]
      simp
  exact run arr [] uniq

/-- `r` is in slot `i`, before all others with its key. -/
structure Leads (key : ρ → κ) (arr : List (Option ρ)) (i : Nat) (r : ρ) : Prop where
  here : arr[i]? = some (some r)
  first : ∀ j s, j < i → arr[j]? = some (some s) → key s ≠ key r

/-- Each key has a first element. -/
lemma exists_leads {s : ρ} (mem : some s ∈ arr) : ∃ i r, Leads key arr i r ∧ key r = key s := by
  cases find : arr.findIdx? (holds key (key s)) with
  | none =>
    rw [List.findIdx?_eq_none_iff] at find
    have no := find (some s) mem
    simp at no
  | some i =>
    obtain ⟨lt, here, before⟩ := List.findIdx?_eq_some_iff_getElem.mp find
    obtain ⟨r, at_i, e⟩ := holds_eq_true.mp here
    refine ⟨i, r, ⟨by rw [List.getElem?_eq_getElem lt, at_i], ?_⟩, e⟩
    intro j q ltj at_j same
    have no := before j ltj
    obtain ⟨_, at_j⟩ := List.getElem?_eq_some_iff.mp at_j
    rw [at_j] at no
    simp [same, e] at no

omit [DecidableEq κ] in
/-- The first elements after one more slot. -/
lemma leads_concat {slot : Option ρ} {i : Nat} :
    Leads key (arr ++ [slot]) i r ↔ Leads key arr i r ∨
      i = arr.length ∧ slot = some r ∧ ∀ s, some s ∈ arr → key s ≠ key r := by
  constructor
  · rintro ⟨here, first⟩
    rcases Nat.lt_trichotomy i arr.length with lt | rfl | gt
    · left
      rw [List.getElem?_append_left lt] at here
      refine ⟨here, fun j s ltj at_j => first j s ltj ?_⟩
      rw [List.getElem?_append_left (ltj.trans lt), at_j]
    · right
      rw [List.getElem?_concat_length] at here
      refine ⟨rfl, Option.some.inj here, fun s mem => ?_⟩
      obtain ⟨j, at_j⟩ := List.mem_iff_getElem?.mp mem
      have ltj := (List.getElem?_eq_some_iff.mp at_j).1
      exact first j s ltj (by rw [List.getElem?_append_left ltj, at_j])
    · rw [List.getElem?_eq_none (by rw [List.length_append, List.length_singleton]; omega)] at here
      cases here
  · rintro (⟨here, first⟩ | ⟨rfl, rfl, new⟩)
    · have lt := (List.getElem?_eq_some_iff.mp here).1
      refine ⟨by rw [List.getElem?_append_left lt, here], fun j s ltj at_j => first j s ltj ?_⟩
      rwa [List.getElem?_append_left (ltj.trans lt)] at at_j
    · refine ⟨List.getElem?_concat_length, fun j s ltj at_j => new s ?_⟩
      rw [List.getElem?_append_left ltj] at at_j
      exact List.mem_of_getElem? at_j

/-- The slots of `out` that hold something are those of the first elements of `src`, key by key. -/
structure InPlace (key : ρ → κ) (src out : List (Option ρ)) : Prop where
  length : out.length = src.length
  kept : ∀ i r, Leads key src i r → ∃ x, out[i]? = some (some x) ∧ key x = key r
  only : ∀ i x, out[i]? = some (some x) → ∃ r, Leads key src i r ∧ key r = key x

omit [DecidableEq κ] in
/-- A slot joins, with an element if it is the first with its key. -/
lemma InPlace.concat {src out : List (Option ρ)} {slot slot' : Option ρ} (ip : InPlace key src out)
    (kept : ∀ r, slot = some r → (∀ s, some s ∈ src → key s ≠ key r) → ∃ x, slot' = some x ∧ key x = key r)
    (only : ∀ x, slot' = some x →
      ∃ r, slot = some r ∧ (∀ s, some s ∈ src → key s ≠ key r) ∧ key r = key x) :
    InPlace key (src ++ [slot]) (out ++ [slot']) := by
  refine ⟨by simp [ip.length], ?_, ?_⟩
  · intro i r lead
    rcases leads_concat.mp lead with lead | ⟨rfl, e, new⟩
    · obtain ⟨x, at_i, e⟩ := ip.kept i r lead
      have lt := (List.getElem?_eq_some_iff.mp at_i).1
      exact ⟨x, by rw [List.getElem?_append_left lt, at_i], e⟩
    · obtain ⟨x, rfl, same⟩ := kept r e new
      exact ⟨x, by rw [← ip.length, List.getElem?_concat_length], same⟩
  · intro i x at_i
    rcases Nat.lt_trichotomy i out.length with lt | rfl | gt
    · rw [List.getElem?_append_left lt] at at_i
      obtain ⟨r, lead, e⟩ := ip.only i x at_i
      exact ⟨r, leads_concat.mpr (.inl lead), e⟩
    · rw [List.getElem?_concat_length] at at_i
      obtain ⟨r, e, new, same⟩ := only x (Option.some.inj at_i)
      exact ⟨r, leads_concat.mpr (.inr ⟨ip.length, e, new⟩), same⟩
    · rw [List.getElem?_eq_none (by rw [List.length_append, List.length_singleton]; omega)] at at_i
      cases at_i

omit [DecidableEq κ] in
/-- A slot without a first element joins as an empty one. -/
lemma InPlace.append_none {src out : List (Option ρ)} {slot : Option ρ} (ip : InPlace key src out)
    (old : ∀ r, slot = some r → ∃ s, some s ∈ src ∧ key s = key r) :
    InPlace key (src ++ [slot]) (out ++ [none]) := by
  apply ip.concat
  · intro r e new
    obtain ⟨s, mem, same⟩ := old r e
    exact absurd same (new s mem)
  · intro x e
    cases e

omit [DecidableEq κ] in
/-- An element with a new key is put into the next slot. -/
lemma InPlace.append {src out : List (Option ρ)} (ip : InPlace key src out)
    (new : ∀ s, some s ∈ src → key s ≠ key r) : InPlace key (src ++ [some r]) (out ++ [some r]) := by
  apply ip.concat
  · intro r' e _
    exact ⟨r', e, rfl⟩
  · intro x e
    cases e
    exact ⟨r, rfl, new, rfl⟩

omit [DecidableEq κ] in
/-- An exchange for an element with the same key leaves the keys in their slots. -/
lemma InPlace.set {src out : List (Option ρ)} {j : Nat} {o : ρ} (ip : InPlace key src out)
    (at_j : out[j]? = some (some o)) (same : key r = key o) : InPlace key src (out.set j (some r)) := by
  have lt := (List.getElem?_eq_some_iff.mp at_j).1
  refine ⟨by rw [List.length_set, ip.length], ?_, ?_⟩
  · intro i p lead
    obtain ⟨x, at_i, e⟩ := ip.kept i p lead
    by_cases here : i = j
    · rw [here] at at_i ⊢
      rw [at_j] at at_i
      cases at_i
      exact ⟨_, List.getElem?_set_self lt, same.trans e⟩
    · exact ⟨x, by rw [List.getElem?_set_ne (Ne.symm here), at_i], e⟩
  · intro i x at_i
    by_cases here : i = j
    · rw [here, List.getElem?_set_self lt] at at_i
      cases at_i
      obtain ⟨q, lead, e⟩ := ip.only j o at_j
      rw [here]
      exact ⟨q, lead, e.trans same.symm⟩
    · rw [List.getElem?_set_ne (Ne.symm here)] at at_i
      exact ip.only i x at_i

/-- A step of the rebuild leaves the other slots in place. -/
lemma InPlace.step {src out : List (Option ρ)} {slot : Option ρ} (ip : InPlace key src out) :
    InPlace key (src ++ [slot]) (rebuildStep key rank out slot) := by
  cases slot with
  | none => exact ip.append_none fun r e => by cases e
  | some r =>
    rw [rebuildStep]
    cases met : Lib.merge key rank out r with
    | none =>
      apply ip.append
      intro s mem same
      obtain ⟨i, q, lead, e⟩ : ∃ i q, Leads key src i q ∧ key q = key s := exists_leads mem
      obtain ⟨x, at_i, e'⟩ := ip.kept i q lead
      exact merge_eq_none.mp met x (List.mem_of_getElem? at_i) (e'.trans (e.trans same))
    | some out' =>
      obtain ⟨j, o, at_j, ko, rfl⟩ := merge_eq_some met
      obtain ⟨q, lead, e⟩ := ip.only j o at_j
      have winner : key (if rank o < rank r then r else o) = key o := by
        split
        · exact ko.symm
        · rfl
      refine (ip.set at_j winner).append_none ?_
      intro r' e'
      cases e'
      exact ⟨q, List.mem_of_getElem? lead.here, e.trans ko⟩

/-- In a rebuilt store, each key has the slot of its first element. -/
theorem rebuild_inPlace : InPlace key arr (rebuild key rank arr) := by
  have run : ∀ (rest done src : List (Option ρ)), InPlace key src done →
      InPlace key (src ++ rest) (rest.foldl (rebuildStep key rank) done) := by
    intro rest
    induction rest with
    | nil =>
      intro done src ip
      rwa [List.append_nil]
    | cons slot rest ih =>
      intro done src ip
      have step : InPlace key (src ++ [slot]) (rebuildStep key rank done slot) := ip.step
      have h := ih _ _ step
      rwa [List.append_assoc] at h
  refine run arr [] [] ⟨rfl, ?_, ?_⟩
  · intro i r lead
    have here := lead.here
    simp at here
  · intro i x at_i
    simp at at_i

end

end TdsqlMerge.Lib
