import Mathlib.Data.List.Nodup
import Mathlib.Data.List.Pairwise
import Mathlib.Data.List.ReduceOption
import TdsqlMerge.Lib.Newest

/-!
# Merging without slots

`keep` is what `put` does to the elements of a store, in their order (`reduceOption_put`). The elements of
different keys are merged apart from each other (`foldl_keep_filter`). `Exempts` says that some elements are
never merged, and the others are among themselves; `exempts_iff` says when merging all elements does so.
-/

namespace TdsqlMerge.Lib

variable {ρ κ ω : Type} [DecidableEq κ] [LinearOrder ω]

section
variable (key : ρ → κ) (rank : ρ → ω)

/-- `r` takes the place of a smaller element with its key, or comes last if its key is new. -/
def keep (l : List ρ) (r : ρ) : List ρ :=
  if ∃ o ∈ l, key o = key r then l.map fun o => if key o = key r ∧ rank o < rank r then r else o
  else l ++ [r]

/-- All elements in turn. -/
def keepAll (l : List ρ) : List ρ := l.foldl (keep key rank) []

/-- Of the elements `l`, those that are `free` are all kept, and the others are merged as if they were alone. -/
structure Exempts (free : ρ → Bool) (l kept : List ρ) : Prop where
  all : (kept.filter free).Perm (l.filter free)
  others : (kept.filter fun x => !free x).Perm (keepAll key rank (l.filter fun x => !free x))

end

variable {key : ρ → κ} {rank : ρ → ω} {l rs : List ρ} {r x : ρ} {arr : List (Option ρ)}

/-! ## One element -/

/-- The keys after one element. -/
lemma map_key_keep : (keep key rank l r).map key =
    if ∃ o ∈ l, key o = key r then l.map key else l.map key ++ [key r] := by
  rw [keep]
  split
  · rw [List.map_map]
    apply List.map_congr_left
    intro o _
    dsimp only [Function.comp_apply]
    split
    · rename_i beaten
      exact beaten.1.symm
    · rfl
  · rw [List.map_append, List.map_singleton]

/-- What is kept was there, or is the new element. -/
lemma mem_of_mem_keep (mem : x ∈ keep key rank l r) : x ∈ l ∨ x = r := by
  rw [keep] at mem
  split at mem
  · obtain ⟨o, old, e⟩ := List.mem_map.mp mem
    split at e
    · exact .inr e.symm
    · exact .inl (e ▸ old)
  · rcases List.mem_append.mp mem with old | new
    · exact .inl old
    · exact .inr (List.mem_singleton.mp new)

/-- Keeping an element leaves one for each key. -/
lemma keep_nodup (nodup : (l.map key).Nodup) : ((keep key rank l r).map key).Nodup := by
  rw [map_key_keep]
  split
  · exact nodup
  · rename_i new
    rw [List.nodup_append]
    refine ⟨nodup, List.nodup_singleton _, ?_⟩
    intro k mem k' mem' e
    obtain ⟨o, old, eo⟩ := List.mem_map.mp mem
    rw [List.mem_singleton.mp mem', ← eo] at e
    exact new ⟨o, old, e⟩

/-- An element only meets the elements with its key. -/
lemma keep_filter (K : κ → Bool) : (keep key rank l r).filter (fun x => K (key x)) =
    if K (key r) then keep key rank (l.filter fun x => K (key x)) r else l.filter fun x => K (key x) := by
  -- an element is only replaced by one with its key
  have same (o : ρ) : K (key (if key o = key r ∧ rank o < rank r then r else o)) = K (key o) := by
    split
    · rename_i beaten
      rw [beaten.1]
    · rfl
  have met : K (key r) → ((∃ o ∈ l.filter (fun x => K (key x)), key o = key r) ↔ ∃ o ∈ l, key o = key r) := by
    intro inside
    constructor
    · rintro ⟨o, mem, e⟩
      exact ⟨o, (List.mem_filter.mp mem).1, e⟩
    · rintro ⟨o, mem, e⟩
      exact ⟨o, List.mem_filter.mpr ⟨mem, by rw [e]; exact inside⟩, e⟩
  rw [keep]
  split
  · rename_i old
    rw [List.filter_map]
    have fit : ((fun x => K (key x)) ∘ fun o => if key o = key r ∧ rank o < rank r then r else o) =
        fun x => K (key x) := funext same
    rw [fit]
    split
    · rename_i inside
      rw [keep, if_pos ((met inside).mpr old)]
    · rename_i outside
      have still : ∀ o ∈ l.filter (fun x => K (key x)),
          (if key o = key r ∧ rank o < rank r then r else o) = o := by
        intro o mem
        apply if_neg
        rintro ⟨e, _⟩
        rw [← e] at outside
        exact outside (List.mem_filter.mp mem).2
      rw [List.map_congr_left still, List.map_id']
  · rename_i new
    rw [List.filter_append, List.filter_singleton]
    split
    · rename_i inside
      rw [keep, if_neg fun old => new ((met inside).mp old), inside]
      rfl
    · rename_i outside
      rw [Bool.not_eq_true] at outside
      rw [outside]
      exact List.append_nil _

/-! ## Many elements -/

/-- Keeping many elements leaves one for each key. -/
lemma foldl_keep_nodup (nodup : (l.map key).Nodup) : ((rs.foldl (keep key rank) l).map key).Nodup := by
  induction rs generalizing l with
  | nil => exact nodup
  | cons r rs ih => exact ih (keep_nodup nodup)

/-- What is kept of many was there, or is among the new elements. -/
lemma mem_of_mem_foldl_keep (mem : x ∈ rs.foldl (keep key rank) l) : x ∈ l ∨ x ∈ rs := by
  induction rs generalizing l with
  | nil => exact .inl mem
  | cons r rs ih =>
    rcases ih mem with old | new
    · rcases mem_of_mem_keep old with old | rfl
      · exact .inl old
      · exact .inr List.mem_cons_self
    · exact .inr (List.mem_cons_of_mem r new)

/-- Every key is kept. -/
lemma mem_keys_foldl_keep {k : κ} (mem : k ∈ l.map key ∨ k ∈ rs.map key) :
    k ∈ (rs.foldl (keep key rank) l).map key := by
  induction rs generalizing l with
  | nil => exact mem.resolve_right List.not_mem_nil
  | cons r rs ih =>
    have here : k ∈ l.map key ∨ k = key r → k ∈ (keep key rank l r).map key := by
      rw [map_key_keep]
      split
      · rename_i old
        obtain ⟨o, there, e⟩ := old
        rintro (inside | rfl)
        · exact inside
        · exact e ▸ List.mem_map_of_mem there
      · rintro (inside | rfl)
        · exact List.mem_append_left _ inside
        · exact List.mem_append_right _ (List.mem_singleton_self _)
    rw [List.foldl_cons]
    apply ih
    rcases mem with old | new
    · exact .inl (here (.inl old))
    · rw [List.map_cons] at new
      rcases List.mem_cons.mp new with e | new
      · exact .inl (here (.inr e))
      · exact .inr new

/-- Elements with distinct keys are all kept. -/
lemma foldl_keep_distinct (distinct : ((l ++ rs).map key).Nodup) : rs.foldl (keep key rank) l = l ++ rs := by
  induction rs generalizing l with
  | nil => exact (List.append_nil l).symm
  | cons r rs ih =>
    have new : ¬ ∃ o ∈ l, key o = key r := by
      rintro ⟨o, mem, e⟩
      rw [List.map_append, List.nodup_append] at distinct
      exact distinct.2.2 _ (List.mem_map_of_mem mem) _ (List.mem_map_of_mem List.mem_cons_self) e
    rw [List.foldl_cons, keep, if_neg new, ih, List.append_assoc, List.singleton_append]
    rwa [List.append_assoc, List.singleton_append]

/-- Elements whose keys are in a set are merged as if there were no others. -/
lemma foldl_keep_filter (K : κ → Bool) : (rs.foldl (keep key rank) l).filter (fun x => K (key x)) =
    (rs.filter fun x => K (key x)).foldl (keep key rank) (l.filter fun x => K (key x)) := by
  induction rs generalizing l with
  | nil => rfl
  | cons r rs ih =>
    rw [List.foldl_cons, ih, keep_filter, List.filter_cons]
    split
    · rw [List.foldl_cons]
    · rfl

/-! ## Free elements -/

/-- Is `k` the key of a free element? -/
def freeKey (key : ρ → κ) (free : ρ → Bool) (l : List ρ) (k : κ) : Bool :=
  l.any fun x => free x && decide (key x = k)

/-- If no other element has the key of a free one, the keys tell which elements are free. -/
lemma freeKey_eq {free : ρ → Bool} (alone : l.Pairwise fun x y => free x ∨ free y → key x ≠ key y)
    (mem : x ∈ l) : freeKey key free l (key x) = free x := by
  apply Bool.eq_iff_iff.mpr
  constructor
  · intro found
    obtain ⟨y, memy, both⟩ := List.any_eq_true.mp found
    obtain ⟨fy, e⟩ := Bool.and_eq_true_iff.mp both
    by_cases same : y = x
    · exact same ▸ fy
    · have sym : Std.Symm fun x y : ρ => free x ∨ free y → key x ≠ key y :=
        ⟨fun a b apart some => (apart some.symm).symm⟩
      exact absurd (of_decide_eq_true e) (alone.forall memy mem same (.inl fy))
  · intro fx
    exact List.any_eq_true.mpr ⟨x, mem, by rw [fx]; simp⟩

/-- No other element has the key of a free element that is exempt. -/
lemma Exempts.apart {free : ρ → Bool} (ex : Exempts key rank free l (keepAll key rank l)) :
    l.Pairwise fun x y => free x ∨ free y → key x ≠ key y := by
  have nodup : ((keepAll key rank l).map key).Nodup := foldl_keep_nodup List.nodup_nil
  have parts := (List.filter_append_perm free (keepAll key rank l)).symm.trans (ex.all.append ex.others)
  rw [(parts.map key).nodup_iff, List.map_append, List.nodup_append] at nodup
  obtain ⟨distinct, _, apart⟩ := nodup
  have other {a b : ρ} (ha : a ∈ l) (hb : b ∈ l) (fa : free a) (fb : free b = false) : key a ≠ key b := by
    apply apart
    · exact List.mem_map_of_mem (List.mem_filter.mpr ⟨ha, fa⟩)
    · apply mem_keys_foldl_keep
      exact .inr (List.mem_map_of_mem (List.mem_filter.mpr ⟨hb, by rw [fb]; rfl⟩))
  rw [List.pairwise_iff_forall_sublist]
  intro a b sub some
  have ha : a ∈ l := sub.subset List.mem_cons_self
  have hb : b ∈ l := sub.subset (List.mem_cons_of_mem a List.mem_cons_self)
  cases fa : free a with
  | false =>
    cases fb : free b with
    | false =>
      rw [fa, fb] at some
      simp at some
    | true => exact (other hb ha fb fa).symm
  | true =>
    cases fb : free b with
    | false => exact other ha hb fa fb
    | true =>
      have pair : ([a, b].map key).Sublist ((l.filter free).map key) := by
        have filtered := sub.filter free
        rw [List.filter_cons_of_pos fa, List.filter_cons_of_pos fb] at filtered
        exact filtered.map key
      have two := distinct.sublist pair
      simpa using two

/-- Free elements whose keys no other element has are exempt: they are the elements with certain keys. -/
lemma exempts_of_apart {free : ρ → Bool} (alone : l.Pairwise fun x y => free x ∨ free y → key x ≠ key y) :
    Exempts key rank free l (keepAll key rank l) := by
  have inside : ∀ x ∈ keepAll key rank l, freeKey key free l (key x) = free x := by
    intro x mem
    rcases mem_of_mem_foldl_keep mem with old | new
    · cases old
    · exact freeKey_eq alone new
  have all : (keepAll key rank l).filter free = l.filter free := by
    rw [← List.filter_congr inside, keepAll, foldl_keep_filter,
      List.filter_congr fun x => freeKey_eq alone]
    apply foldl_keep_distinct (l := [])
    rw [List.nil_append, List.Nodup, List.pairwise_map, List.pairwise_filter]
    apply alone.imp
    intro a b apart fa _
    exact apart (.inl fa)
  have others : (keepAll key rank l).filter (fun x => !free x) =
      keepAll key rank (l.filter fun x => !free x) := by
    have split : (keepAll key rank l).filter (fun x => !freeKey key free l (key x)) =
        keepAll key rank (l.filter fun x => !freeKey key free l (key x)) :=
      foldl_keep_filter fun k => !freeKey key free l k
    have live : (keepAll key rank l).filter (fun x => !freeKey key free l (key x)) =
        (keepAll key rank l).filter fun x => !free x :=
      List.filter_congr fun x mem => by rw [inside x mem]
    have before : l.filter (fun x => !freeKey key free l (key x)) = l.filter fun x => !free x :=
      List.filter_congr fun x mem => by rw [freeKey_eq alone mem]
    rw [← live, ← before]
    exact split
  exact ⟨.of_eq all, .of_eq others⟩

/-- Free elements are exempt from merging exactly if no other element has their key. -/
theorem exempts_iff {free : ρ → Bool} : Exempts key rank free l (keepAll key rank l) ↔
    l.Pairwise fun x y => free x ∨ free y → key x ≠ key y :=
  ⟨Exempts.apart, exempts_of_apart⟩

/-! ## Slots -/

/-- Putting an element leaves one for each key. -/
lemma Unique.put (uniq : Unique key arr) : Unique key (put key rank arr r) := by
  rw [Lib.put]
  cases met : merge key rank arr r with
  | none => exact uniq.append (merge_eq_none.mp met)
  | some arr' =>
    obtain ⟨j, o, at_j, ko, rfl⟩ := merge_eq_some met
    apply uniq.set at_j
    split
    · exact ko.symm
    · rfl

omit [DecidableEq κ] in
/-- The elements of a store have distinct keys. -/
lemma Unique.nodup (uniq : Unique key arr) : (arr.reduceOption.map key).Nodup := by
  induction arr with
  | nil => exact List.nodup_nil
  | cons slot arr ih =>
    have rest : Unique key arr := by
      intro i j a b at_i at_j e
      have same := uniq (i + 1) (j + 1) a b at_i at_j e
      omega
    cases slot with
    | none =>
      rw [List.reduceOption_cons_of_none]
      exact ih rest
    | some r =>
      rw [List.reduceOption_cons_of_some, List.map_cons, List.nodup_cons]
      refine ⟨?_, ih rest⟩
      intro mem
      obtain ⟨s, inside, e⟩ := List.mem_map.mp mem
      obtain ⟨i, at_i⟩ := List.mem_iff_getElem?.mp (List.reduceOption_mem_iff.mp inside)
      have same := uniq (i + 1) 0 s r at_i rfl e
      omega

/-- Insertion keeps the element. -/
lemma reduceOption_put (uniq : Unique key arr) :
    (put key rank arr r).reduceOption = keep key rank arr.reduceOption r := by
  rw [keep]
  cases met : merge key rank arr r with
  | none =>
    have new := merge_eq_none.mp met
    have none' : ¬ ∃ o ∈ arr.reduceOption, key o = key r := by
      rintro ⟨o, mem, e⟩
      exact new o (List.reduceOption_mem_iff.mp mem) e
    rw [put, met, if_neg none', Option.getD_none, List.reduceOption_append]
    rfl
  | some arr' =>
    obtain ⟨j, o, at_j, ko, rfl⟩ := merge_eq_some met
    have lt := (List.getElem?_eq_some_iff.mp at_j).1
    have some' : ∃ o ∈ arr.reduceOption, key o = key r :=
      ⟨o, List.reduceOption_mem_iff.mpr (List.mem_of_getElem? at_j), ko⟩
    rw [put, met, if_pos some', Option.getD_some, ← List.reduceOption_map]
    apply congrArg
    -- only the slot `j` has the key
    apply List.ext_getElem?
    intro i
    rw [List.getElem?_set, List.getElem?_map]
    split
    · rename_i e
      rw [← e, at_j]
      simp [ko]
    · rename_i ne
      cases at_i : arr[i]? with
      | none => rfl
      | some slot =>
        cases slot with
        | none => rfl
        | some s =>
          have other : key s ≠ key r := fun e => ne (uniq j i o s at_j at_i (ko.trans e.symm))
          simp [other]

/-- Putting elements into slots keeps the same as keeping them in a list. -/
lemma foldl_put_keep (uniq : Unique key arr) :
    (rs.foldl (put key rank) arr).reduceOption = rs.foldl (keep key rank) arr.reduceOption := by
  induction rs generalizing arr with
  | nil => rfl
  | cons r rs ih => rw [List.foldl_cons, List.foldl_cons, ih uniq.put, reduceOption_put uniq]

end TdsqlMerge.Lib
