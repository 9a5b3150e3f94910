import TdsqlMerge.Store.DatParser
import TdsqlMerge.Store.Statement

/-!
# What the operations do to the columns

Merging rows and building indexes never touch the columns of a table (`SameCols`); of the statements,
ADDCOL allocates and places one column (`ColumnAdded`), DROPCOL takes one out of the logical order
(`ColumnDropped`) and CHANGECOL rewrites one descriptor (`ColumnChanged`). These lemmas hold for every
run that returned, whatever the table looks like, and are the only place where the operations are
unfolded for their columns.
-/

namespace TdsqlMerge.Store
open Lib

/-- Only the row storage and the indexes changed. -/
def SameCols (t t' : Table) : Prop :=
  t' = { t with rows := t'.rows, rowHeap := t'.rowHeap, indexs := t'.indexs }

/-- A table has its own columns. -/
lemma SameCols.refl {t : Table} : SameCols t t := rfl

/-- Two steps that keep the columns keep them together. -/
lemma SameCols.trans {t t' t'' : Table} (sc : SameCols t t') (sc' : SameCols t' t'') :
    SameCols t t'' := by
  unfold SameCols at *
  rw [sc', sc]

section
variable {hashCombine : UInt64 → Str → UInt64} {t t' : Table} {index : UniqueIndex}

/-- `doRowReplace` keeps the columns. -/
lemma doRowReplace_cols {o n : RowPtr} (h : t.doRowReplace o n = .ok t') : SameCols t t' := by
  simp only [Table.doRowReplace, bind_ok] at h
  obtain ⟨_, _, _, _, h⟩ := h
  split at h
  · cases h
    rfl
  · cases h

/-- Filing a row in an index keeps the columns. -/
lemma replace_cols {h : UInt64} {o n : RowPtr} {s : Int × UniqueIndex × Table}
    (run : index.replace t h o n = .ok s) : SameCols t s.2.2 := by
  rw [UniqueIndex.replace, bind_ok] at run
  obtain ⟨t1, run, e⟩ := run
  cases e
  exact doRowReplace_cols run

/-- `checkRow` keeps the columns. -/
lemma checkRow_cols {p : RowPtr} {s : Int × UniqueIndex × Table}
    (run : index.checkRow hashCombine t p = .ok s) : SameCols t s.2.2 := by
  simp only [UniqueIndex.checkRow, bind_ok] at run
  obtain ⟨r, _, h, _, run⟩ := run
  split at run
  · cases run
    rfl
  · simp only [bind_ok] at run
    obtain ⟨o, _, u, _, upd, _, oldUpd, _, rowUpd, _, run⟩ := run
    -- each branch keeps the table or replaces the resident row
    split at run
    · split at run
      · exact replace_cols run
      · split at run
        · cases run
          rfl
        · split at run
          · exact replace_cols run
          · cases run
            rfl
    · split at run
      · exact replace_cols run
      · cases run
        rfl

/-- `reCompute` keeps the columns. -/
lemma reCompute_cols {s : UniqueIndex × Table} (run : index.reCompute hashCombine t = .ok s) :
    SameCols t s.2 := by
  apply foldlM_ok (fun s => SameCols t s.2) _ run .refl
  rintro i _ ⟨ix, tb⟩ s' sc step
  rw [UniqueIndex.reComputeAt, bind_ok] at step
  obtain ⟨slot, _, step⟩ := step
  cases slot with
  | none =>
    cases step
    exact sc
  | some p =>
    simp only [bind_ok] at step
    obtain ⟨⟨k, ix', tb'⟩, check, step⟩ := step
    have sc' := sc.trans (checkRow_cols check)
    simp only at step
    split at step
    · rw [bind_ok] at step
      obtain ⟨_, _, e⟩ := step
      cases e
      exact sc'
    · cases step
      exact sc'.trans rfl

/-- The constructor of an index keeps the columns. -/
lemma named_cols {name : Str} {colStrs : List Str} {isPrimary : Bool} {s : UniqueIndex × Table}
    (run : UniqueIndex.named hashCombine t name colStrs isPrimary = .ok s) : SameCols t s.2 := by
  simp only [UniqueIndex.named, bind_ok] at run
  obtain ⟨_, _, _, _, run⟩ := run
  exact reCompute_cols run

/-- Building the temporary index keeps the columns. -/
lemma pushTemp_cols (run : t.pushTemp hashCombine = .ok t') : SameCols t t' := by
  rw [Table.pushTemp, bind_ok] at run
  obtain ⟨⟨ix, tb⟩, run, e⟩ := run
  cases e
  rw [UniqueIndex.temp, bind_ok] at run
  obtain ⟨u, _, run⟩ := run
  split at run
  · rw [bind_ok] at run
    obtain ⟨_, _, run⟩ := run
    exact (reCompute_cols run).trans rfl
  · cases run

/-- `dropUniqueIndex` keeps the columns. -/
lemma dropUniqueIndex_cols {isPrimary isTemp : Bool} {name : Str}
    (run : t.dropUniqueIndex hashCombine isPrimary isTemp name = .ok t') : SameCols t t' := by
  rw [Table.dropUniqueIndex] at run
  split at run
  · cases run
    rfl
  · dsimp only at run
    split at run
    · exact @SameCols.trans t { t with indexs := t.indexs.eraseIdx _ } t' rfl (pushTemp_cols run)
    · cases run
      rfl

/-- `addUniqueIndex` keeps the columns. -/
lemma addUniqueIndex_cols {name : Str} {colNames : List Str} {isPrimary : Bool}
    (run : t.addUniqueIndex hashCombine name colNames isPrimary = .ok t') : SameCols t t' := by
  rw [Table.addUniqueIndex] at run
  split at run
  · split at run
    · rw [bind_ok] at run
      obtain ⟨s, run, e⟩ := run
      cases e
      have sc : SameCols t s.2 :=
        @SameCols.trans t { t with indexs := [] } s.2 rfl (named_cols run)
      exact sc.trans rfl
    · cases run
  · cases run

/-- Pushing the index of a CREATE TABLE keeps the columns. -/
lemma pushIndex_cols {stat : IndexStatement} (run : t.pushIndex hashCombine stat = .ok t') :
    SameCols t t' := by
  rw [Table.pushIndex, bind_ok] at run
  obtain ⟨s, run, e⟩ := run
  cases e
  exact (named_cols run).trans rfl

/-- Appending a cell to the rows keeps the columns. -/
lemma pushCells_cols {cell : Str} {rows : List (Option RowPtr)}
    (run : rows.foldlM (Table.pushCell cell) t = .ok t') : SameCols t t' := by
  apply foldlM_ok (SameCols t) _ run .refl
  rintro slot _ s s' sc step
  cases slot with
  | none =>
    cases step
    exact sc
  | some p =>
    rw [Table.pushCell, bind_ok] at step
    obtain ⟨r, _, e⟩ := step
    cases e
    exact sc.trans rfl

/-- `insertRows` keeps the columns. -/
lemma insertRows_cols {ps : List RowPtr} (run : t.insertRows hashCombine ps = .ok t') :
    SameCols t t' := by
  rw [Table.insertRows] at run
  split at run
  · rw [bind_ok] at run
    obtain ⟨s, run, e⟩ := run
    cases e
    suffices sc : SameCols t s.2 from sc.trans rfl
    apply foldlM_ok (fun s => SameCols t s.2) _ run .refl
    rintro p _ ⟨ix, tb⟩ s' sc step
    simp only [Table.insertRow, bind_ok] at step
    obtain ⟨⟨k, ix', tb'⟩, check, step⟩ := step
    have sc' := sc.trans (checkRow_cols check)
    simp only at step
    split at step
    · simp only [bind_ok] at step
      obtain ⟨_, _, _, _, e⟩ := step
      cases e
      exact sc'.trans rfl
    · cases step
      exact sc'
  · cases run

/-- `parseData` keeps the columns. -/
lemma parseData_cols {dat : Str} {source startStamp : Nat} {s : List RowPtr × Nat × Table}
    (run : t.parseData dat source startStamp = .ok s) : SameCols t s.2.2 := by
  rw [Table.parseData, bind_ok] at run
  obtain ⟨insPos, _, run⟩ := run
  apply foldlM_ok (fun s => SameCols t s.2.2) _ run .refl
  rintro line _ ⟨ret, stamp, tb⟩ s' sc step
  simp only [parseLine, bind_ok] at step
  obtain ⟨_, _, e⟩ := step
  cases e
  exact sc.trans rfl

/-- `cols'` is `cols` with `c` placed at the end, or after the first column with the name `after`. -/
def Placed (hasName : Str → ColPtr → Bool) (cols : List ColPtr) (c : ColPtr) (after : Option Str)
    (cols' : List ColPtr) : Prop :=
  match after with
  | none => cols' = cols ++ [c]
  | some name => ∃ i, cols.findIdx? (hasName name) = some i ∧ cols' = cols.insertIdx (i + 1) c

/-- A placed column is the only new one. -/
lemma Placed.perm {hasName : Str → ColPtr → Bool} {cols cols' : List ColPtr} {c : ColPtr}
    {after : Option Str} (pl : Placed hasName cols c after cols') : cols'.Perm (c :: cols) := by
  cases after with
  | none =>
    rw [show cols' = cols ++ [c] from pl]
    exact List.perm_append_singleton c cols
  | some name =>
    obtain ⟨i, find, rfl⟩ := pl
    have lt := (List.findIdx?_eq_some_iff_getElem.mp find).1
    exact List.perm_insertIdx c cols (by omega)

/-- The descriptor of an added column. -/
def ColumnStatement.descriptor (col : ColumnStatement) (mapping : Nat) : ColumnDescriptor :=
  { name := col.name, type := col.type, mapping, defStr := col.defaultStr }

/-- The columns after ADDCOL: one descriptor was allocated, mapped to the next physical column, and
    placed. -/
structure ColumnAdded (col : ColumnStatement) (after : Option Str) (t t' : Table) : Prop where
  colDes : Placed (t.newCol (.new col.name col.type col.defaultStr)).hasName t.colDes
    t.colHeap.length after t'.colDes
  colHeap : t'.colHeap = t.colHeap ++ [col.descriptor t.colPhy]
  colPhy : t'.colPhy = t.colPhy + 1
  updCol : t'.updCol = if col.name = updatedAt then some t.colHeap.length else t.updCol

/-- The columns after DROPCOL: the first column with the name left the logical order. -/
structure ColumnDropped (name : Str) (t t' : Table) : Prop where
  colDes : ∃ c, t.colDes.find? (t.hasName name) = some c ∧ t'.colDes = t.colDes.erase c
  colHeap : t'.colHeap = t.colHeap
  colPhy : t'.colPhy = t.colPhy
  updCol : t'.updCol = t.updCol

/-- The column dropped is the one that the name finds. -/
lemma ColumnDropped.erased {name : Str} {c : ColPtr} {t t' : Table} (cd : ColumnDropped name t t')
    (find : t.colDes.find? (t.hasName name) = some c) : t'.colDes = t.colDes.erase c := by
  obtain ⟨c', find', e⟩ := cd.colDes
  rw [e, Option.some.inj (find'.symm.trans find)]

/-- The columns after CHANGECOL: the first column with the name has a new name and default. -/
structure ColumnChanged (col : ColumnStatement) (prevName : Str) (t t' : Table) : Prop where
  colDes : t'.colDes = t.colDes
  colHeap : ∃ c d, t.colDes.find? (t.hasName prevName) = some c ∧ t.colHeap[c]? = some d ∧
    t'.colHeap = t.colHeap.set c { d with name := col.name, defStr := col.defaultStr }
  colPhy : t'.colPhy = t.colPhy
  updCol : t'.updCol = t.updCol

/-- The table between the allocation of a column and the update of the rows. -/
lemma registered {col : ColumnStatement} {after : Option Str} {t1 t2 : Table}
    (place : (t.newCol (.new col.name col.type col.defaultStr)).placeColumn t.colHeap.length after =
      .ok t1)
    (register : t1.registerColumn t.colHeap.length = .ok t2) :
    ColumnAdded col after t t2 ∧ t2.rows = t.rows ∧ t2.rowHeap = t.rowHeap ∧
      t2.indexs = t.indexs ∧
      t2.col t.colHeap.length = .ok (col.descriptor t.colPhy) := by
  have placed : Placed (t.newCol (.new col.name col.type col.defaultStr)).hasName t.colDes
      t.colHeap.length after t1.colDes ∧
      t1 = { t with
        colDes := t1.colDes
        colHeap := t.colHeap ++ [.new col.name col.type col.defaultStr] } := by
    cases after with
    | none =>
      cases place
      exact ⟨rfl, rfl⟩
    | some name =>
      rw [Table.placeColumn] at place
      split at place
      · cases place
      · rename_i i find
        cases place
        exact ⟨⟨i, find, rfl⟩, rfl⟩
  obtain ⟨pl, e⟩ := placed
  have heap : t1.colHeap = t.colHeap ++ [.new col.name col.type col.defaultStr] := by
    rw [e]
  have phy : t1.colPhy = t.colPhy := by
    rw [e]
  have upd : t1.updCol = t.updCol := by
    rw [e]
  simp only [Table.registerColumn, Table.col, heap, List.getElem?_concat_length, deref_some,
    ok_bind, phy, upd] at register
  cases register
  refine ⟨⟨pl, ?_, rfl, rfl⟩, ?_, ?_, ?_, ?_⟩
  · simp [ColumnDescriptor.new, ColumnStatement.descriptor]
  · rw [e]
  · rw [e]
  · rw [e]
  · simp [Table.col, ColumnDescriptor.new, ColumnStatement.descriptor]

/-- A step that keeps the columns may follow the new column. -/
lemma ColumnAdded.sameCols {col : ColumnStatement} {after : Option Str} {t'' : Table}
    (ca : ColumnAdded col after t t') (sc : SameCols t' t'') : ColumnAdded col after t t'' := by
  rw [sc]
  exact ⟨ca.colDes, ca.colHeap, ca.colPhy, ca.updCol⟩

/-- ADDCOL in two steps: the rows get their cell, then a temporary index is rebuilt. -/
lemma addColumnOf_ok {col : ColumnStatement} {after : Option Str}
    (run : t.addColumnOf hashCombine col after = .ok t') :
    ∃ t2 t3, ColumnAdded col after t t2 ∧ t2.rows = t.rows ∧ t2.rowHeap = t.rowHeap ∧
      t2.indexs = t.indexs ∧
      t.rows.foldlM (Table.pushCell (col.defaultStr.getD [])) t2 = .ok t3 ∧
      match t3.indexs with
      | [] => t' = t3
      | index :: _ =>
        if index.isTemp then t3.dropUniqueIndex hashCombine false true [] = .ok t' else t' = t3 := by
  simp only [Table.addColumnOf, Table.addColumn, bind_ok] at run
  obtain ⟨t1, place, t2, register, d, hd, t3, push, run⟩ := run
  obtain ⟨ca, rows, heap, indexs, hd'⟩ := registered place register
  rw [hd] at hd'
  cases hd'
  rw [rows] at push
  refine ⟨t2, t3, ca, rows, heap, indexs, push, ?_⟩
  cases h : t3.indexs with
  | nil =>
    rw [h] at run
    cases run
    rfl
  | cons index rest =>
    rw [h] at run
    simp only at run ⊢
    split at run
    · rename_i temp
      rw [if_pos temp]
      exact run
    · rename_i perm
      rw [if_neg perm]
      cases run
      rfl

/-- What `addColumn` does to the columns. -/
lemma addColumnOf_cols {col : ColumnStatement} {after : Option Str}
    (run : t.addColumnOf hashCombine col after = .ok t') : ColumnAdded col after t t' := by
  obtain ⟨t2, t3, ca, _, _, _, push, run⟩ := addColumnOf_ok run
  have ca := ca.sameCols (pushCells_cols push)
  split at run
  · rw [run]
    exact ca
  · split at run
    · exact ca.sameCols (dropUniqueIndex_cols run)
    · rw [run]
      exact ca

/-- Taking a column out of the indexes keeps the columns of the table. -/
lemma deleteColFrom_cols {c : ColPtr} {indexs : List UniqueIndex} {s : List UniqueIndex × Table}
    (run : Table.deleteColFrom hashCombine c indexs t = .ok s) : SameCols t s.2 := by
  induction indexs generalizing t s with
  | nil =>
    cases run
    rfl
  | cons index rest ih =>
    simp only [Table.deleteColFrom, bind_ok] at run
    obtain ⟨s1, del, s2, more, e⟩ := run
    cases e
    suffices sc : SameCols t s1.2 from sc.trans (ih (s := s2) more)
    rw [UniqueIndex.deleteCol] at del
    split at del
    · rw [bind_ok] at del
      obtain ⟨_, _, run⟩ := del
      exact reCompute_cols run
    · cases del
      rfl

/-- DROPCOL in three steps: the indexes give up the column, the table does, and a temporary index takes
    the place of the last index if that has no column left. -/
lemma dropColumn_ok {name : Str} (run : t.dropColumn hashCombine name = .ok t') :
    ∃ c s t3, t.colDes.find? (t.hasName name) = some c ∧
      Table.deleteColFrom hashCombine c t.indexs t = .ok s ∧
      (if s.1.isEmpty then
        { s.2 with indexs := s.1, colDes := s.2.colDes.erase c }.pushTemp hashCombine = .ok t3
      else t3 = { s.2 with indexs := s.1, colDes := s.2.colDes.erase c }) ∧
      t' = { t3 with nameToColDes := Function.update t3.nameToColDes name none } := by
  rw [Table.dropColumn] at run
  split at run
  · cases run
  · rename_i c find
    rw [bind_ok] at run
    obtain ⟨s, del, run⟩ := run
    dsimp only at run
    split at run
    · rename_i empty
      rw [bind_ok] at run
      obtain ⟨t3, temp, e⟩ := run
      cases e
      exact ⟨c, s, t3, find, del, by rw [if_pos empty]; exact temp, rfl⟩
    · rename_i some
      cases run
      exact ⟨c, s, _, find, del, by rw [if_neg some], rfl⟩

/-- What `dropColumn` does to the columns. -/
lemma dropColumn_cols {name : Str} (run : t.dropColumn hashCombine name = .ok t') :
    ColumnDropped name t t' := by
  obtain ⟨c, s, t3, find, del, temp, rfl⟩ := dropColumn_ok run
  have sc := deleteColFrom_cols del
  have sc3 : SameCols { s.2 with indexs := s.1, colDes := s.2.colDes.erase c } t3 := by
    split at temp
    · exact pushTemp_cols temp
    · rw [temp]
      rfl
  rw [sc3, sc]
  exact ⟨⟨c, find, rfl⟩, rfl, rfl, rfl⟩

/-- What `changeCol` does to the columns. -/
lemma changeCol_cols {col : ColumnStatement} {prevName : Str}
    (run : t.changeCol col prevName = .ok t') : ColumnChanged col prevName t t' := by
  rw [Table.changeCol] at run
  split at run
  · cases run
  · rename_i c find
    rw [bind_ok] at run
    obtain ⟨d, hd, e⟩ := run
    cases e
    exact ⟨rfl, ⟨c, d, find, deref_eq_ok.mp hd, rfl⟩, rfl, rfl⟩

end

end TdsqlMerge.Store
