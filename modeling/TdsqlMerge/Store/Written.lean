import TdsqlMerge.Lib.Lines
import TdsqlMerge.Store.Dump
import TdsqlMerge.Store.Invariant

/-!
# The lines of `result.csv`

`dumpToFile_eq` is the closed form of `Table::dumpToFile`: one line for each row in a slot, with the written
cells of the columns in logical order. It needs the columns laid out and the rows allocated in full width
(`Writable`), and not the order of the rows.
-/

namespace TdsqlMerge.Store
open Lib

/-- What `dumpToFile` writes for a cell of column `c`. -/
def Table.written (t : Table) (c : ColPtr) (cell : Str) : Str :=
  if (t.colHeap[c]?).bind ColumnDescriptor.defStr = some cell then "DEFAULT".toList
  else quotedToStream cell

/-- The line of a row. -/
def Table.line (t : Table) (data : List Str) : Str :=
  List.intercalate [','] (t.colDes.map fun c => t.written c (data.getD c []))

/-- What `dumpToFile` relies on. -/
structure Writable (t : Table) : Prop where
  layout : Layout t
  wide : ∀ p, some p ∈ t.rows → ∃ r, rowAt t.rowHeap p = some r ∧ r.data.length = t.colPhy

section
variable {hashCombine : UInt64 → Str → UInt64} {t : Table} {u : ColPtr} {index : UniqueIndex} {r : Row}

/-- A table whose rows are in their slots can be written. -/
lemma Writable.of_slotted (la : Layout t) (sl : Slotted t.colPhy t.rows t.rowHeap) : Writable t := by
  refine ⟨la, fun p mem => ?_⟩
  obtain ⟨i, at_i⟩ := List.mem_iff_getElem?.mp mem
  obtain ⟨r, hr, _, wd⟩ := sl i p at_i
  exact ⟨r, hr, wd⟩

/-- A sound table can be written. -/
lemma Sound.writable (so : Sound hashCombine t u index) : Writable t :=
  .of_slotted so.layout so.well.slotted

/-- The rows may be sorted before they are written. -/
lemma Writable.perm {rows : List (Option RowPtr)} (wr : Writable t) (perm : rows.Perm t.rows) :
    Writable { t with rows } := by
  obtain ⟨la, wide⟩ := wr
  exact ⟨⟨la.heap_length, la.mapping, la.lt, la.nodup⟩, fun p mem => wide p (perm.mem_iff.mp mem)⟩

/-- One value of a row. -/
lemma dumpCell_eq {i : Nat} {c : ColPtr} (la : Layout t) (at_i : t.colDes[i]? = some c)
    (wide : r.data.length = t.colPhy) :
    t.dumpCell t.colDes r i = .ok (t.written c (r.data.getD c [])) := by
  have lt := la.lt c (List.mem_of_getElem? at_i)
  obtain ⟨d, hd, _⟩ := la.col lt
  have ltc : c < r.data.length := by rw [wide]; exact lt
  have at_c : r.data[c]? = some (r.data.getD c []) := by
    rw [List.getD_eq_getElem?_getD, List.getElem?_eq_getElem ltc, Option.getD_some]
  rw [Table.dumpCell, at_i, deref_some, ok_bind, Table.col, hd, deref_some, ok_bind, ok_bind, at_c,
    deref_some, ok_bind, Table.written, hd]
  rfl

/-- One row. -/
lemma dumpSlot_eq {p : RowPtr} (la : Layout t) (hr : rowAt t.rowHeap p = some r)
    (wide : r.data.length = t.colPhy) :
    t.dumpSlot t.colDes (some p) = .ok (t.line r.data ++ ['\n']) := by
  have cells : (List.range t.colDes.length).mapM (t.dumpCell t.colDes r) =
      .ok (t.colDes.map fun c => t.written c (r.data.getD c [])) := by
    rw [mapM_eq_ok, List.forall₂_iff_get]
    refine ⟨by simp, ?_⟩
    intro i lt lt'
    rw [List.length_range] at lt
    simp only [List.get_eq_getElem, List.getElem_range, List.getElem_map]
    exact dumpCell_eq la (List.getElem?_eq_getElem lt) wide
  rw [Table.dumpSlot, Table.row, Table.row?_eq, hr, deref_some, ok_bind, cells, ok_bind, Table.line]

/-- `dumpToFile` writes one line for each row in a slot. -/
theorem dumpToFile_eq (wr : Writable t) :
    t.dumpToFile = .ok (unlines ((slots t.rows t.rowHeap).filterMap
      (Option.map fun x => t.line x.data))) := by
  have insPos : t.getPhyPosArray = .ok t.colDes := wr.layout.mapM_mapping wr.layout.lt
  have lines : t.rows.mapM (t.dumpSlot t.colDes) = .ok ((slots t.rows t.rowHeap).map fun slot =>
      slot.elim [] fun x => t.line x.data ++ ['\n']) := by
    rw [mapM_eq_ok, slots, List.map_map, List.forall₂_map_right_iff, List.forall₂_same]
    intro slot mem
    cases slot with
    | none => rfl
    | some p =>
      obtain ⟨r, hr, wide⟩ := wr.wide p mem
      rw [dumpSlot_eq wr.layout hr wide, Function.comp_apply, slotVal_some hr]
      rfl
  have join : ∀ l : List (Option Record),
      (l.map fun slot => slot.elim [] fun x => t.line x.data ++ ['\n']).flatten =
        unlines (l.filterMap (Option.map fun x => t.line x.data)) := by
    intro l
    induction l with
    | nil => rfl
    | cons slot l ih =>
      rw [List.map_cons, List.flatten_cons, ih]
      cases slot with
      | none => rfl
      | some x =>
        rw [List.filterMap_cons, Option.map_some, unlines_cons, Option.elim_some, List.append_assoc]
        rfl
  rw [Table.dumpToFile, insPos, ok_bind, lines, ok_bind, join]

end

end TdsqlMerge.Store
