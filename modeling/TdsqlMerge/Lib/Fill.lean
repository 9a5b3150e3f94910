import Mathlib.Data.List.AList
import Mathlib.Data.List.Induction

/-!
# Maps filled by insertion

`fill key value bs` is the map that a loop leaves which inserts the value of every item under its key. Of the items
with one key the last counts (`lookup_fill`); the map is as large as the list if the keys differ.
-/

namespace TdsqlMerge.Lib

section
variable {α β γ : Type} [DecidableEq α]

/-- The map that a loop over the list inserts into. -/
def fill (key : β → α) (value : β → γ) (bs : List β) : AList fun _ : α => γ :=
  bs.foldl (fun m b => m.insert (key b) (value b)) ∅

variable {key : β → α} {value : β → γ} {bs : List β} {b : β} {k : α} {v : γ}

/-- The last entry is inserted last. -/
lemma fill_concat : fill key value (bs ++ [b]) = (fill key value bs).insert (key b) (value b) :=
  List.foldl_concat ..

/-- The last item with a key counts. -/
theorem lookup_fill : (fill key value bs).lookup k = (bs.reverse.find? fun b => key b = k).map value := by
  induction bs using List.reverseRecOn with
  | nil => rfl
  | append_singleton bs b ih =>
    rw [fill_concat, List.reverse_append, List.reverse_singleton, List.singleton_append, List.find?_cons]
    by_cases here : key b = k
    · subst here
      rw [AList.lookup_insert]
      simp
    · rw [AList.lookup_insert_ne (Ne.symm here), ih]
      simp [here]

/-- A value of the map is that of an item with its key. -/
lemma of_lookup_fill (has : (fill key value bs).lookup k = some v) : ∃ b ∈ bs, key b = k ∧ value b = v := by
  rw [lookup_fill, Option.map_eq_some_iff] at has
  obtain ⟨b, found, rfl⟩ := has
  have same : key b = k := by simpa using List.find?_some found
  exact ⟨b, List.mem_reverse.mp (List.mem_of_find?_eq_some found), same, rfl⟩

/-- The key of every item is there. -/
lemma lookup_fill_of_mem (mem : b ∈ bs) : ∃ b' ∈ bs, key b' = key b ∧
    (fill key value bs).lookup (key b) = some (value b') := by
  cases has : (fill key value bs).lookup (key b) with
  | none =>
    rw [lookup_fill, Option.map_eq_none_iff, List.find?_eq_none] at has
    exact absurd (decide_eq_true rfl) (has b (List.mem_reverse.mpr mem))
  | some v =>
    obtain ⟨b', mem', same, rfl⟩ := of_lookup_fill has
    exact ⟨b', mem', same, rfl⟩

/-- No item is lost if the keys differ. -/
lemma length_fill (nodup : (bs.map key).Nodup) : (fill key value bs).entries.length = bs.length := by
  induction bs using List.reverseRecOn with
  | nil => rfl
  | append_singleton bs b ih =>
    rw [List.map_append, List.nodup_append] at nodup
    have fresh : key b ∉ fill key value bs := by
      intro mem
      obtain ⟨v, has⟩ := Option.isSome_iff_exists.mp (AList.lookup_isSome.mpr mem)
      obtain ⟨b', mem, same, -⟩ := of_lookup_fill has
      exact nodup.2.2 (key b') (List.mem_map_of_mem mem) (key b) (List.mem_singleton.mpr rfl) same
    rw [fill_concat, AList.entries_insert_of_notMem fresh, List.length_cons, ih nodup.1, List.length_append,
      List.length_singleton]

end

end TdsqlMerge.Lib
