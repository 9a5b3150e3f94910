import TdsqlMerge.Store.Lossless

/-!
# The rows after DROPCOL

`Table::dropColumn` takes the column out of the index and runs the rows through the smaller index before it
knows whether anything is left of it. `dropColumn_slots` says what it does to the rows. If the column was
the only one of the key, all rows met under the empty key and only one is left: `dropColumn_groups` says
that this, and nothing else, departs from the greatest rows of the groups under the index that is in force
afterwards, and `onlyKey_loses_row` is a table that loses a row.
-/

namespace TdsqlMerge.Store
open Lib

section
variable {hashCombine : UInt64 → Str → UInt64} {t t' : Table} {u c : ColPtr} {index : UniqueIndex}
  {name : Str}

/-- `deleteCol` runs the rows through the index without the column. -/
lemma deleteCol_slots (so : Sound hashCombine t u index) :
    Yields (index.deleteCol hashCombine t c) fun s => s.1.cols = index.cols.erase c ∧
      s.2 = { t with rows := s.2.rows, rowHeap := s.2.rowHeap } ∧
      Slotted t.colPhy s.2.rows s.2.rowHeap ∧
      slots s.2.rows s.2.rowHeap =
        rebuild (slotKey hashCombine (index.cols.erase c)) (Record.rank u) (slots t.rows t.rowHeap) := by
  rw [UniqueIndex.deleteCol]
  split
  · have lt : ∀ x ∈ index.cols.erase c, x < t.colPhy := fun x h =>
      so.well.cols_lt x (List.mem_of_mem_erase h)
    apply Yields.imp (@buildIndex_spec _ _ _ { index with cols := index.cols.erase c }
      so.layout so.upd so.well.slotted lt)
    rintro s ⟨ei, ef, _, wi, es⟩
    refine ⟨by rw [ei], ef, ?_, es⟩
    have sl := wi.slotted
    rw [ef] at sl
    exact sl
  · rename_i out
    have same : index.cols.erase c = index.cols := List.erase_of_not_mem out
    refine .ok ⟨same.symm, rfl, so.well.slotted, ?_⟩
    rw [same, rebuild_of_unique so.unique]

/-- DROPCOL runs the rows through the index without the column and, if that has no columns, through a
    temporary index. -/
lemma dropColumn_slots (so : Sound hashCombine t u index) (mem : u ∈ t.colDes) (ne : c ≠ u)
    (find : t.colDes.find? (t.hasName name) = some c) :
    Yields (t.dropColumn hashCombine name) fun t' => ∃ index', t'.indexs = [index'] ∧
      (index.cols.erase c ≠ [] → index'.cols = index.cols.erase c ∧
        slots t'.rows t'.rowHeap =
          rebuild (slotKey hashCombine (index.cols.erase c)) (Record.rank u) (slots t.rows t.rowHeap)) ∧
      (index.cols.erase c = [] → index'.cols = (t.colDes.erase c).erase u ∧ index'.isTemp = true ∧
        slots t'.rows t'.rowHeap = rebuild (slotKey hashCombine index'.cols) (Record.rank u)
          (rebuild (slotKey hashCombine []) (Record.rank u) (slots t.rows t.rowHeap))) := by
  obtain ⟨⟨ix, tb⟩, del, cols, ef, sl, es⟩ := @deleteCol_slots _ _ _ c _ so
  simp only at cols ef sl es
  have loop : Table.deleteColFrom hashCombine c [index] t =
      .ok (if ix.cols.isEmpty then [] else [ix], tb) := by
    simp only [Table.deleteColFrom, del, ok_bind]
  rw [Table.dropColumn, find, so.indexs]
  simp only [loop, ok_bind]
  by_cases none : index.cols.erase c = []
  -- the index is gone: a temporary index over the other columns takes its place
  · have empty : ix.cols.isEmpty = true := by rw [cols, none]; rfl
    simp only [empty, if_true, List.isEmpty_nil]
    have layout : Layout { tb with indexs := [], colDes := tb.colDes.erase c } := by
      rw [ef]
      exact ⟨so.layout.heap_length, so.layout.mapping,
        fun x h => so.layout.lt x (List.mem_of_mem_erase h), so.layout.nodup.erase c⟩
    have upd : UpdCol { tb with indexs := [], colDes := tb.colDes.erase c } u := by
      rw [ef]
      exact ⟨so.upd.col, so.upd.lt⟩
    have here : u ∈ tb.colDes.erase c := by
      rw [ef]
      exact (List.mem_erase_of_ne (Ne.symm ne)).mpr mem
    have sl' : Slotted tb.colPhy tb.rows tb.rowHeap := by
      rw [ef]
      exact sl
    obtain ⟨t', push, index', re, temp, _⟩ := @pushTemp_spec hashCombine _ _ layout upd sl' rfl here
    rw [push, ok_bind]
    refine .ok ⟨index', re.indexs, fun some => absurd none some, fun _ => ⟨?_, temp, ?_⟩⟩
    · rw [re.spans, ef]
    · rw [none] at es
      rw [re.slots, re.spans, es]
  · have some : ix.cols.isEmpty = false := by
      rw [cols, List.isEmpty_eq_false_iff]
      exact none
    simp only [some, Bool.false_eq_true, if_false, List.isEmpty_cons]
    exact .ok ⟨ix, rfl, fun _ => ⟨cols, es⟩, fun empty => absurd empty none⟩

/-- The rows kept under a hash that tells the keys apart. -/
lemma Represents.ofHash {K : List ColPtr} {S : Set Record} {arr : List (Option Record)}
    (rep : Represents (slotKey hashCombine K) (Record.rank u) S arr) (sep : Separates hashCombine K S) :
    Represents (fun x => keyCells K x.data) (Record.rank u) S arr := by
  apply rep.separate
  · exact sep
  · intro x y e
    rw [slotKey, slotKey, hashOf, hashOf, e]

/-- Under the empty key all rows are equal. -/
lemma slotKey_nil {x y : Record} : slotKey hashCombine [] x = slotKey hashCombine [] y := rfl

/-- Rows that are distinct under the empty key are distinct under each key. -/
lemma unique_of_nil {κ : Type} {key : Record → κ} {arr : List (Option Record)}
    (uniq : Unique (slotKey hashCombine []) arr) : Unique key arr :=
  fun i j x y at_i at_j _ => uniq i j x y at_i at_j slotKey_nil

/-- After DROPCOL the index is the old one without the column, or a temporary index if that has no columns.
    The live rows are the greatest rows of the groups under it, one for each group, if and only if the
    column was not the only one of the index or all rows are in one group. -/
theorem dropColumn_groups (co : Covered hashCombine t u index) (ne : c ≠ u)
    (find : t.colDes.find? (t.hasName name) = some c)
    (sep : Separates hashCombine (index.cols.erase c) t.records)
    (sepTemp : Separates hashCombine ((t.colDes.erase c).erase u) t.records) :
    ∃ t' index', t.dropColumn hashCombine name = .ok t' ∧ t'.indexs = [index'] ∧
      index'.cols =
        (if index.cols.erase c = [] then (t.colDes.erase c).erase u else index.cols.erase c) ∧
      (Represents (fun x => keyCells index'.cols x.data) (Record.rank u) t.records
          (slots t'.rows t'.rowHeap) ↔
        (index.cols = [c] → ∀ x ∈ t.records, ∀ y ∈ t.records,
          keyCells index'.cols x.data = keyCells index'.cols y.data)) := by
  obtain ⟨t', run, index', one, left, gone⟩ := dropColumn_slots co.sound co.upd_mem ne find
  have rep : Represents (slotKey hashCombine (index.cols.erase c)) (Record.rank u) t.records
      (rebuild (slotKey hashCombine (index.cols.erase c)) (Record.rank u) (slots t.rows t.rowHeap)) :=
    represents_rebuild
  by_cases none : index.cols.erase c = []
  · obtain ⟨cols, _, es⟩ := gone none
    refine ⟨t', index', run, one, by rw [if_pos none, cols], ?_⟩
    rw [none] at rep
    -- one row is left, so the temporary index finds nothing to merge
    rw [es, rebuild_of_unique (unique_of_nil rep.unique)]
    constructor
    · intro kept _ x hx y hy
      obtain ⟨x', mem, ex⟩ := kept.covers x hx
      obtain ⟨y', mem', ey⟩ := kept.covers y hy
      obtain ⟨i, at_i⟩ := List.mem_iff_getElem?.mp mem
      obtain ⟨j, at_j⟩ := List.mem_iff_getElem?.mp mem'
      have same := rep.unique i j x' y' at_i at_j slotKey_nil
      rw [same] at at_i
      rw [Option.some.inj (Option.some.inj (at_i.symm.trans at_j))] at ex
      exact ex.symm.trans ey
    · intro agree
      by_cases only : index.cols = [c]
      · exact rep.separate (fun x hx y hy _ => agree only x hx y hy) fun _ _ _ => slotKey_nil
      · -- the index had no columns before, so there was one row at most
        have nil : index.cols = [] := (List.erase_eq_nil_iff.mp none).resolve_right only
        have uniq := co.sound.unique
        rw [nil] at uniq
        have rep' : Represents (slotKey hashCombine index'.cols) (Record.rank u) t.records
            (slots t.rows t.rowHeap) := by
          have rb : Represents (slotKey hashCombine index'.cols) (Record.rank u) t.records
              (rebuild (slotKey hashCombine index'.cols) (Record.rank u) (slots t.rows t.rowHeap)) :=
            represents_rebuild
          rwa [rebuild_of_unique (unique_of_nil uniq)] at rb
        rw [rebuild_of_unique uniq]
        exact Represents.ofHash rep' (by rw [cols]; exact sepTemp)
  · obtain ⟨cols, es⟩ := left none
    refine ⟨t', index', run, one, by rw [if_neg none, cols], ?_⟩
    rw [es, cols]
    refine iff_of_true (Represents.ofHash rep sep) ?_
    intro only
    rw [only, List.erase_cons_head] at none
    exact absurd rfl none

end

/-! ### The only column of a key -/

/-- Rows that agree in the rest of the key merge when its first column is dropped. -/
theorem equalNotes_keep_group : ∃ t t' index', uniqueRun "a" "a" = .ok t ∧
    t.dropColumn Store.hashCombine "id".toList = .ok t' ∧ t'.indexs = [index'] ∧
    Represents (fun x => keyCells index'.cols x.data) (Record.rank 2) t.records
      (slots t'.rows t'.rowHeap) := by
  obtain ⟨t, index, run, co, cols, colDes, find, rows⟩ :=
    uniqueRun_covered (show uniqueSeen "a" "a" = true by decide +kernel)
  have sep : ∀ K : List ColPtr, K = [] ∨ K = [1] → ∀ x ∈ t.records, ∀ y ∈ t.records,
      keyCells K x.data = keyCells K y.data := by
    intro K hK x hx y hy
    rw [Table.records, rows] at hx hy
    rcases hK with rfl | rfl <;> rcases mem_uniqueRows hx with rfl | rfl <;>
      rcases mem_uniqueRows hy with rfl | rfl <;> rfl
  have temp : (t.colDes.erase 0).erase 2 = [1] := by rw [colDes]; rfl
  have empty : index.cols.erase 0 = [] := by rw [cols]; rfl
  obtain ⟨t', index', drop, one, spans, iff⟩ := dropColumn_groups co (by decide) find
    (by rw [empty]; exact fun x hx y hy _ => sep [] (.inl rfl) x hx y hy)
    (by rw [temp]; exact fun x hx y hy _ => sep [1] (.inr rfl) x hx y hy)
  rw [if_pos empty, temp] at spans
  refine ⟨t, t', index', run, drop, one, iff.mpr ?_⟩
  rw [spans]
  exact fun _ => sep [1] (.inr rfl)

/-- Dropping the only column of the key leaves rows apart that the next index takes for one. -/
theorem onlyKey_loses_row : ¬ ∀ (hashCombine : UInt64 → Str → UInt64) (t t' : Table) (u c : ColPtr)
    (index index' : UniqueIndex) (name : Str), Covered hashCombine t u index → c ≠ u →
    t.colDes.find? (t.hasName name) = some c →
    Separates hashCombine (index.cols.erase c) t.records →
    Separates hashCombine ((t.colDes.erase c).erase u) t.records →
    t.dropColumn hashCombine name = .ok t' → t'.indexs = [index'] →
    Represents (fun x => keyCells index'.cols x.data) (Record.rank u) t.records
      (slots t'.rows t'.rowHeap) := by
  intro claim
  obtain ⟨t, index, run, co, cols, colDes, find, rows⟩ :=
    uniqueRun_covered (show uniqueSeen "a" "b" = true by decide +kernel)
  have temp : (t.colDes.erase 0).erase 2 = [1] := by rw [colDes]; rfl
  have empty : index.cols.erase 0 = [] := by rw [cols]; rfl
  obtain ⟨t', drop, index', one, _, gone⟩ := dropColumn_slots co.sound co.upd_mem (by decide) find
  obtain ⟨spans, _, es⟩ := gone empty
  have kept := claim Store.hashCombine t t' 2 0 index index' "id".toList co (by decide) find
    (by rw [empty]; exact fun _ _ _ _ _ => rfl)
    (by
      rw [temp, Table.records, rows]
      intro x hx y hy
      rcases mem_uniqueRows hx with rfl | rfl <;> rcases mem_uniqueRows hy with rfl | rfl <;>
        decide +kernel) drop one
  -- the note of the first row would have to be there
  rw [spans, temp, es, spans, temp, rows] at kept
  obtain ⟨x, mem, e⟩ := kept.covers
    { data := ["1".toList, "a".toList, "5".toList], source := 0, stamp := 0 }
    (by rw [Table.records, rows]; exact List.mem_cons_self)
  have left : rebuild (slotKey Store.hashCombine [1]) (Record.rank 2)
      (rebuild (slotKey Store.hashCombine []) (Record.rank 2) (uniqueRows "a" "b")) =
      [some { data := ["2".toList, "b".toList, "5".toList], source := 0, stamp := 1 }, none] := by
    decide +kernel
  rw [left] at mem
  simp only [List.mem_cons, Option.some.injEq, reduceCtorEq, List.not_mem_nil, or_false] at mem
  rw [mem] at e
  revert e
  decide +kernel

end TdsqlMerge.Store
