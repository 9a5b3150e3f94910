import TdsqlMerge.Store.Operations

/-!
# Parsed batches

`parseData` turns the lines of a `.dat` file into fresh rows, which `insertRows` merges into the table.
`FieldText` and `LineText` say what a line means; `parseData_spec` says which rows the lines of a file
become, and `insertRows_sound` what merging fresh rows does to a table that satisfies the invariant.
-/

namespace TdsqlMerge.Store
open Lib

/-! ### Fresh rows -/

/-- The table after `new Row(..)` for each of `rs`. -/
def Table.alloc (t : Table) (rs : List Row) : Table :=
  { t with rowHeap := t.rowHeap ++ rs.map some }

/-- The pointers `alloc` returns. -/
def Table.fresh (t : Table) (rs : List Row) : List RowPtr := List.range' t.rowHeap.length rs.length

section
variable {hashCombine : UInt64 → Str → UInt64} {t t' : Table} {u : ColPtr} {index : UniqueIndex}
  {rs : List Row}

/-- Allocating rows leaves the rows that are there. -/
lemma rowAt_alloc_old {p : RowPtr} {r : Row} (h : rowAt t.rowHeap p = some r) :
    rowAt (t.alloc rs).rowHeap p = some r := by
  rw [Table.alloc, rowAt, List.getElem?_append_left (rowAt_lt h)]
  exact h

/-- The rows allocated stand behind the others. -/
lemma rowAt_alloc_new {i : Nat} {r : Row} (at_i : rs[i]? = some r) :
    rowAt (t.alloc rs).rowHeap (t.rowHeap.length + i) = some r := by
  rw [Table.alloc, rowAt, List.getElem?_append_right (Nat.le_add_right _ _), Nat.add_sub_cancel_left,
    List.getElem?_map, at_i]
  rfl

/-- The fresh pointers point to the rows. -/
lemma fresh_rows {P : Row → Prop} (all : ∀ r ∈ rs, P r) :
    List.Forall₂ (fun p r => rowAt (t.alloc rs).rowHeap p = some r ∧ P r) (t.fresh rs) rs := by
  rw [List.forall₂_iff_get]
  refine ⟨by simp [Table.fresh], ?_⟩
  intro i _ lt
  have e : (t.fresh rs).get ⟨i, by simpa [Table.fresh] using lt⟩ = t.rowHeap.length + i := by
    simp [Table.fresh]
  rw [e]
  exact ⟨rowAt_alloc_new (List.getElem?_eq_getElem lt), all _ (List.get_mem rs _)⟩

/-- The rows in the slots of a sound table are there, and wide. -/
lemma Sound.rows_lt {p : RowPtr} (so : Sound hashCombine t u index) (mem : some p ∈ t.rows) :
    ∃ r, rowAt t.rowHeap p = some r ∧ r.data.length = t.colPhy := by
  obtain ⟨i, at_i⟩ := List.mem_iff_getElem?.mp mem
  obtain ⟨r, hr, _, wd⟩ := so.well.slotted i p at_i
  exact ⟨r, hr, wd⟩

/-- Allocation keeps the invariant. -/
lemma Sound.alloc (so : Sound hashCombine t u index) : Sound hashCombine (t.alloc rs) u index where
  layout := ⟨so.layout.heap_length, so.layout.mapping, so.layout.lt, so.layout.nodup⟩
  upd := ⟨so.upd.col, so.upd.lt⟩
  indexs := so.indexs
  well := by
    have old : ∀ (i : Nat) (p : RowPtr) (r : Row), t.rows[i]? = some (some p) →
        rowAt (t.alloc rs).rowHeap p = some r → rowAt t.rowHeap p = some r := by
      intro i p r at_i hr
      obtain ⟨r', hr', _⟩ := so.rows_lt (List.mem_of_getElem? at_i)
      rw [rowAt_alloc_old hr'] at hr
      rw [hr', hr]
    refine ⟨so.well.cols_lt, so.well.phy, ?_, ?_, ?_⟩
    · intro i p at_i
      obtain ⟨r, hr, rest⟩ := so.well.slotted i p at_i
      exact ⟨r, rowAt_alloc_old hr, rest⟩
    · intro h p hit
      obtain ⟨i, r, lt, at_i, hr, e⟩ := so.well.filed.sound h p hit
      exact ⟨i, r, lt, at_i, rowAt_alloc_old hr, e⟩
    · intro i p r lt at_i hr
      exact so.well.filed.complete i p r lt at_i (old i p r at_i hr)

/-- Allocating rows leaves the slots alone. -/
lemma Sound.slots_alloc (so : Sound hashCombine t u index) :
    slots (t.alloc rs).rows (t.alloc rs).rowHeap = slots t.rows t.rowHeap := by
  apply List.map_congr_left
  intro slot mem
  cases slot with
  | none => rfl
  | some p =>
    obtain ⟨r, hr, _⟩ := so.rows_lt mem
    simp only [slotVal, Option.bind_some, hr, rowAt_alloc_old hr]

/-- Merging fresh rows of full width puts them into the slots, in order. -/
theorem insertRows_sound (so : Sound hashCombine t u index)
    (wide : ∀ r ∈ rs, r.data.length = t.colPhy) :
    Yields ((t.alloc rs).insertRows hashCombine (t.fresh rs)) fun t' => ∃ index',
      index' = { index with hash := index'.hash } ∧ SameCols t t' ∧ Sound hashCombine t' u index' ∧
      Merged (t.fresh rs) (t.alloc rs) t' ∧
      slots t'.rows t'.rowHeap = (rs.map Row.record).foldl
        (put (slotKey hashCombine index.cols) (Record.rank u)) (slots t.rows t.rowHeap) := by
  have so' : Sound hashCombine (t.alloc rs) u index := so.alloc
  have rows : List.Forall₂ (fun p r =>
      rowAt (t.alloc rs).rowHeap p = some r ∧ r.data.length = (t.alloc rs).colPhy) (t.fresh rs) rs :=
    fresh_rows wide
  have fresh : ∀ p ∈ t.fresh rs, some p ∉ (t.alloc rs).rows := by
    intro p mem mem'
    obtain ⟨r, hr, _⟩ := so.rows_lt mem'
    have lt := rowAt_lt hr
    rw [Table.fresh, List.mem_range'_1] at mem
    exact absurd lt (not_lt.mpr mem.1)
  apply Yields.imp (insertRows_spec so'.indexs so'.well.filing (so'.upd.updAt so'.layout) rows fresh
    List.nodup_range')
  rintro t' ⟨index', ei, sc, mg, one, fi, es⟩
  have phy : index'.hashPhy = index'.cols := by rw [ei]; exact so.well.phy
  have alloc : SameCols t (t.alloc rs) := rfl
  refine ⟨index', ei, alloc.trans sc, ⟨so'.layout.sameCols sc, so'.upd.sameCols sc, one,
    fi.wellIndexed phy⟩, mg, ?_⟩
  rw [es, so.slots_alloc, so.well.phy]

end

end TdsqlMerge.Store
