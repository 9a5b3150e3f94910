import TdsqlMerge.Store.Integrity
import TdsqlMerge.Store.Rebuild
import TdsqlMerge.Store.Returns

/-!
# Operations that lose no row

ADDCOL and DROPINDEX may replace the index by a temporary one and run every row through the merge test
again. The new key has all columns of the old one, so the keys of the rows stay distinct
(`unique_of_finer`) and the test never fires: the rows stay where they are (`statement_lossless`).
-/

namespace TdsqlMerge.Store
open Lib

section
variable (hashCombine : UInt64 → Str → UInt64)

/-- The invariant of a table that has `updated_at`, which is column `u` and not in the key. -/
structure Covered (t : Table) (u : ColPtr) (index : UniqueIndex) : Prop where
  sound : Sound hashCombine t u index
  upd_mem : u ∈ t.colDes
  cols_mem : ∀ c ∈ index.cols, c ∈ t.colDes
  not_upd : u ∉ index.cols

variable {hashCombine} {t t' w : Table} {u : ColPtr} {index : UniqueIndex}

/-! ### Finer keys -/

/-- A key with more columns keeps rows apart if its hash does. -/
lemma unique_of_finer {K K' : List ColPtr} {arr : List (Option Record)}
    (uniq : Unique (slotKey hashCombine K) arr) (sub : ∀ c ∈ K, c ∈ K')
    (sep : Separates hashCombine K' (contents arr)) : Unique (slotKey hashCombine K') arr := by
  intro i j x y at_i at_j e
  apply uniq i j x y at_i at_j
  have cells := sep x (List.mem_of_getElem? at_i) y (List.mem_of_getElem? at_j) e
  have coarse : keyCells K x.data = keyCells K y.data := by
    apply List.map_congr_left
    intro c mem
    exact List.map_inj_left.mp cells c (sub c mem)
  rw [slotKey, slotKey, hashOf, hashOf, coarse]

/-! ### Temporary indexes -/

/-- Building a temporary index over distinct keys leaves the rows alone. -/
lemma pushTemp_unique (la : Layout t) (uc : UpdCol t u) (sl : Slotted t.colPhy t.rows t.rowHeap)
    (mem : u ∈ t.colDes) (uniq : Unique (slotKey hashCombine (t.colDes.erase u)) (slots t.rows t.rowHeap)) :
    Yields (t.pushTemp hashCombine) fun t' => ∃ index', t' = { t with indexs := t.indexs ++ [index'] } ∧
      index'.cols = t.colDes.erase u := by
  have upd : (deref t.updCol : Res ColPtr) = .ok u := by rw [uc.col, deref_some]
  rw [Table.pushTemp, UniqueIndex.temp, upd, ok_bind, if_pos mem]
  dsimp only
  have lt : ∀ c ∈ t.colDes.erase u, c < t.colPhy := fun c h => la.lt c (List.mem_of_mem_erase h)
  rw [UniqueIndex.setHashPhy]
  dsimp only
  rw [la.mapM_mapping lt]
  simp only [ok_bind]
  apply Yields.bind (reCompute_unique ⟨rfl, lt⟩ (uc.updAt la) sl uniq)
  rintro ⟨ix, tb⟩ ⟨same, ei, _⟩
  simp only at same ei
  subst same
  refine .ok ⟨ix, rfl, ?_⟩
  rw [ei]

/-- Dropping an index leaves the rows alone. -/
lemma dropUniqueIndex_unique {isPrimary isTemp : Bool} {indexName : Str}
    (so : Sound hashCombine t u index) (mem : u ∈ t.colDes)
    (uniq : Unique (slotKey hashCombine (t.colDes.erase u)) (slots t.rows t.rowHeap)) :
    Yields (t.dropUniqueIndex hashCombine isPrimary isTemp indexName) fun t' =>
      t'.rows = t.rows ∧ t'.rowHeap = t.rowHeap := by
  rw [Table.dropUniqueIndex, so.indexs]
  dsimp only
  split
  · exact .ok ⟨rfl, rfl⟩
  · rename_i i find
    have zero : i = 0 := by
      have lt := (List.findIdx?_eq_some_iff_getElem.mp find).1
      rw [List.length_singleton] at lt
      omega
    subst zero
    have la : Layout { t with indexs := [] } :=
      ⟨so.layout.heap_length, so.layout.mapping, so.layout.lt, so.layout.nodup⟩
    have uc : UpdCol { t with indexs := [] } u := ⟨so.upd.col, so.upd.lt⟩
    apply Yields.imp (@pushTemp_unique hashCombine _ _ la uc so.well.slotted mem uniq)
    rintro t' ⟨index', rfl, _⟩
    exact ⟨rfl, rfl⟩

/-! ### ADDCOL -/

/-- ADDCOL on a table satisfying the invariant: the rows get their cell, then a temporary index is
    rebuilt. -/
lemma addColumnOf_widens {col : ColumnStatement} {after : Option Str} (so : Sound hashCombine t u index)
    (find : ∀ name ∈ after, ∃ c, t.colDes.find? (t.hasName name) = some c) :
    ∃ w, ColumnAdded col after t w ∧ Widened (col.defaultStr.getD []) t w ∧
      Sound hashCombine w (updAfter t u col) index ∧
      t.addColumnOf hashCombine col after =
        if index.isTemp then w.dropUniqueIndex hashCombine false true [] else .ok w := by
  obtain ⟨t1, t2, place, register⟩ := @column_registers _ col _ so.layout find
  obtain ⟨ca, rows, heap, indexs, hd⟩ := registered place register
  obtain ⟨w, push, e, len, row⟩ := @pushCells_spec t2 (col.defaultStr.getD []) _ so.well.slotted.apart
    (by rw [heap]; exact so.alloc_rows)
  have wi : Widened (col.defaultStr.getD []) t w := by
    refine ⟨by rw [e, rows], by rw [len, heap], ?_⟩
    intro p
    rw [row p, heap]
  have ca' := ca.sameCols (pushCells_cols push)
  have indexs' : w.indexs = t.indexs := by rw [e, indexs]
  refine ⟨w, ca', wi, so.widened ca' wi indexs', ?_⟩
  simp only [Table.addColumnOf, Table.addColumn, place, register, hd, ok_bind, rows,
    ColumnStatement.descriptor, push]
  rw [indexs', so.indexs]

/-- The rows of a table that got a cell. -/
lemma Widened.records {cell : Str} (wi : Widened cell t w) :
    w.records = {x | ∃ y ∈ t.records, x = y.grow cell} := by
  ext x
  simp only [Table.records, contents, wi.slots, List.mem_map, Set.mem_ofPred_eq, Option.map_eq_some_iff]
  constructor
  · rintro ⟨slot, mem, y, rfl, rfl⟩
    exact ⟨y, mem, rfl⟩
  · rintro ⟨y, mem, rfl⟩
    exact ⟨some y, mem, y, rfl, rfl⟩

/-- `updated_at` and the columns of the index are columns after ADDCOL. -/
lemma Covered.addColumn_mem {col : ColumnStatement} {after : Option Str} (co : Covered hashCombine t u index)
    (ca : ColumnAdded col after t w) :
    updAfter t u col ∈ w.colDes ∧ ∀ c ∈ index.cols, c ∈ w.colDes.erase (updAfter t u col) := by
  have mem_iff : ∀ c, c ∈ w.colDes ↔ c = t.colHeap.length ∨ c ∈ t.colDes := fun c => by
    rw [ca.colDes.perm.mem_iff, List.mem_cons]
  rw [updAfter]
  constructor
  · rw [mem_iff]
    split
    · exact .inl co.sound.layout.heap_length.symm
    · exact .inr co.upd_mem
  · intro c mem
    have ne : c ≠ if col.name = updatedAt then t.colPhy else u := by
      split
      · exact (co.sound.well.cols_lt c mem).ne
      · rintro rfl
        exact co.not_upd mem
    rw [List.mem_erase_of_ne ne, mem_iff]
    exact .inr (co.cols_mem c mem)

/-! ### Statements -/

variable (hashCombine) in
/-- ADDCOL with a new name, at the end or after a column that exists, CHANGECOL of a column that exists, or
    any DROPINDEX. The hash tells the keys apart over which a temporary index may be built. -/
def Statement.Admitted (t : Table) (u : ColPtr) : Statement → Prop
  | .addCol col after =>
    (∀ c ∈ t.colDes, t.hasName col.name c = false) ∧
    (∀ name ∈ after, ∃ c, t.colDes.find? (t.hasName name) = some c) ∧
    ∀ w, ColumnAdded col after t w →
      Separates hashCombine (w.colDes.erase (updAfter t u col))
        {x | ∃ y ∈ t.records, x = y.grow (col.defaultStr.getD [])}
  | .changeCol _ prevName => ∃ c, t.colDes.find? (t.hasName prevName) = some c
  | .dropIndex _ _ => Separates hashCombine (t.colDes.erase u) t.records
  | _ => False

/-- The rows of `t` are still in their slots in `t'`, with all their cells. -/
structure KeepsRows (t t' : Table) : Prop where
  rows : t'.rows = t.rows
  live : ∀ i p r, t.Live i p r → ∃ r', t'.Live i p r' ∧ r.data <+: r'.data ∧ r'.source = r.source ∧
    r'.stamp = r.stamp

/-- A table that shares its rows keeps them. -/
lemma KeepsRows.same (rows : t'.rows = t.rows) (heap : t'.rowHeap = t.rowHeap) : KeepsRows t t' := by
  refine ⟨rows, ?_⟩
  rintro i p r ⟨at_i, hp⟩
  refine ⟨r, ⟨by rw [rows, at_i], ?_⟩, List.prefix_rfl, rfl, rfl⟩
  rw [Table.row?_eq, heap]
  exact hp

/-- Widening the rows keeps them. -/
lemma KeepsRows.widened {cell : Str} (wi : Widened cell t w) : KeepsRows t w := by
  refine ⟨wi.rows, ?_⟩
  rintro i p r ⟨at_i, hp⟩
  refine ⟨r.grow cell, ⟨by rw [wi.rows, at_i], ?_⟩, List.prefix_append _ _, rfl, rfl⟩
  rw [Table.row?_eq] at hp ⊢
  rw [wi.slot at_i, hp]
  rfl

/-- A step that shares the rows may follow. -/
lemma KeepsRows.trans (kr : KeepsRows t w) (rows : t'.rows = w.rows) (heap : t'.rowHeap = w.rowHeap) :
    KeepsRows t t' := by
  refine ⟨rows.trans kr.rows, ?_⟩
  intro i p r live
  obtain ⟨r', ⟨at_i, hp⟩, rest⟩ := kr.live i p r live
  refine ⟨r', ⟨by rw [rows, at_i], ?_⟩, rest⟩
  rw [Table.row?_eq, heap]
  exact hp

/-- Adding a column, changing a column and dropping an index lose no row: each stays in its slot, with its
    old cells, its source and its stamp. -/
theorem statement_lossless {statement : Statement} (co : Covered hashCombine t u index)
    (admitted : statement.Admitted hashCombine t u) :
    ∃ t', statement.fillToTable hashCombine t = .ok t' ∧ KeepsRows t t' := by
  have so := co.sound
  cases statement with
  | addCol col after =>
    obtain ⟨_, find, sep⟩ := admitted
    obtain ⟨w, ca, wi, sw, run⟩ := addColumnOf_widens so find
    rw [Statement.fillToTable, run]
    split
    · obtain ⟨mem, sub⟩ := co.addColumn_mem ca
      have grown : contents (slots w.rows w.rowHeap) =
          {x | ∃ y ∈ t.records, x = y.grow (col.defaultStr.getD [])} := wi.records
      have uniq : Unique (slotKey hashCombine (w.colDes.erase (updAfter t u col)))
          (slots w.rows w.rowHeap) := unique_of_finer sw.unique sub (by rw [grown]; exact sep w ca)
      obtain ⟨t', drop, rows, heap⟩ := @dropUniqueIndex_unique hashCombine _ _ _ false true [] sw mem uniq
      exact ⟨t', drop, (KeepsRows.widened wi).trans rows heap⟩
    · exact ⟨w, rfl, .widened wi⟩
  | changeCol col prevName =>
    obtain ⟨c, find⟩ := admitted
    obtain ⟨t', run⟩ := @changeCol_returns _ col _ _ so.layout find
    obtain ⟨_, rows, heap⟩ := changeCol_sound so run
    exact ⟨t', run, .same rows heap⟩
  | dropIndex isPrimary indexName =>
    have sub : ∀ c ∈ index.cols, c ∈ t.colDes.erase u := by
      intro c mem
      have ne : c ≠ u := by
        rintro rfl
        exact co.not_upd mem
      exact (List.mem_erase_of_ne ne).mpr (co.cols_mem c mem)
    have uniq := unique_of_finer so.unique sub admitted
    obtain ⟨t', run, rows, heap⟩ :=
      @dropUniqueIndex_unique hashCombine _ _ _ isPrimary false indexName so co.upd_mem uniq
    exact ⟨t', run, .same rows heap⟩
  | create name cols indexs => cases admitted
  | nothing => cases admitted
  | dropCol colName => cases admitted
  | addIndex isPrimary indexName cols => cases admitted

end

/-! ### Two rows under a unique key -/

/-- A table `(id, note, updated_at)` with unique key `k` on `id` and two rows with these notes. -/
def uniqueRun (note note' : String) : Res Table := do
  let t ← Table.new.fillCreate Store.hashCombine
    [{ name := "id".toList, type := "int".toList, isNotNull := false, defaultStr := none },
      { name := "note".toList, type := "text".toList, isNotNull := false, defaultStr := none },
      { name := updatedAt, type := "datetime".toList, isNotNull := true, defaultStr := none }]
    [{ name := "k".toList, isPrimaryKey := false, keys := ["id".toList] }]
  let rs : List Row := [.new ["1".toList, note.toList, "5".toList] 0 0,
    .new ["2".toList, note'.toList, "5".toList] 0 1]
  (t.alloc rs).insertRows Store.hashCombine (t.fresh rs)

/-- The rows of `uniqueRun`. -/
def uniqueRows (note note' : String) : List (Option Record) :=
  [some { data := ["1".toList, note.toList, "5".toList], source := 0, stamp := 0 },
    some { data := ["2".toList, note'.toList, "5".toList], source := 0, stamp := 1 }]

/-- `uniqueRun` returns a table with these columns and rows. -/
def uniqueSeen (note note' : String) : Bool :=
  (uniqueRun note note').toOption.any fun t =>
    decide (t.updCol = some 2) && decide (t.colDes = [0, 1, 2]) &&
      decide (t.indexs.map UniqueIndex.cols = [[0]]) &&
      decide (t.colDes.find? (t.hasName "id".toList) = some 0) &&
      decide (slots t.rows t.rowHeap = uniqueRows note note')

/-- The table of two notes under the unique key `id`. -/
lemma uniqueRun_covered {note note' : String} (seen : uniqueSeen note note' = true) :
    ∃ t index, uniqueRun note note' = .ok t ∧ Covered Store.hashCombine t 2 index ∧ index.cols = [0] ∧
      t.colDes = [0, 1, 2] ∧ t.colDes.find? (t.hasName "id".toList) = some 0 ∧
      slots t.rows t.rowHeap = uniqueRows note note' := by
  obtain ⟨t, run, seen⟩ := ok_of_any seen
  simp only [Bool.and_eq_true, decide_eq_true_eq] at seen
  obtain ⟨⟨⟨⟨upd, colDes⟩, cols⟩, find⟩, rows⟩ := seen
  have steps := run
  simp only [uniqueRun, bind_ok] at steps
  obtain ⟨t1, create, insert⟩ := steps
  obtain ⟨u, index, so⟩ := fillCreate_sound create (by decide) ⟨_, .tail _ (.tail _ (.head _)), rfl⟩
  have wide : t1.colPhy = 3 := (fillCreate_rowless create).2.1.colPhy
  have full : ∀ r ∈ [Row.new ["1".toList, note.toList, "5".toList] 0 0,
      Row.new ["2".toList, note'.toList, "5".toList] 0 1], r.data.length = t1.colPhy := by
    intro r mem
    rw [wide]
    rcases List.mem_cons.mp mem with rfl | mem
    · rfl
    · rw [List.mem_singleton.mp mem]
      rfl
  obtain ⟨index', _, _, so', _⟩ := (insertRows_sound so full).of_ok insert
  have eu : u = 2 := Option.some.inj (so'.upd.col.symm.trans upd)
  have ec : index'.cols = [0] := by
    rw [so'.indexs] at cols
    exact (List.cons.inj cols).1
  subst eu
  refine ⟨t, index', run, ⟨so', ?_, ?_, ?_⟩, ec, colDes, find, rows⟩
  · rw [colDes]
    decide
  · rw [ec, colDes]
    decide
  · rw [ec]
    decide

/-- The rows of `uniqueRun`, one by one. -/
lemma mem_uniqueRows {note note' : String} {x : Record} (mem : x ∈ contents (uniqueRows note note')) :
    x = { data := ["1".toList, note.toList, "5".toList], source := 0, stamp := 0 } ∨
      x = { data := ["2".toList, note'.toList, "5".toList], source := 0, stamp := 1 } := by
  simpa only [contents, uniqueRows, Set.mem_ofPred_eq, List.mem_cons, Option.some.injEq,
    List.not_mem_nil, or_false] using mem

/-- Dropping the unique key keeps the rows of two equal notes. -/
theorem uniqueRun_dropped : ∃ t t', uniqueRun "a" "a" = .ok t ∧
    Statement.fillToTable Store.hashCombine t (.dropIndex false "k".toList) = .ok t' ∧ KeepsRows t t' := by
  obtain ⟨t, index, run, co, _, colDes, _, rows⟩ :=
    uniqueRun_covered (show uniqueSeen "a" "a" = true by decide +kernel)
  obtain ⟨t', drop, keeps⟩ := @statement_lossless _ _ _ _ (.dropIndex false "k".toList) co (by
    rw [Statement.Admitted, colDes, Table.records, rows]
    intro x hx y hy
    rcases mem_uniqueRows hx with rfl | rfl <;> rcases mem_uniqueRows hy with rfl | rfl <;>
      decide +kernel)
  exact ⟨t, t', run, drop, keeps⟩

end TdsqlMerge.Store
