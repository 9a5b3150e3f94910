import TdsqlMerge.Store.Invariant

/-!
# The operations keep the invariant

One lemma for each operation of a table with one index: if the operation returned, the table is `Sound`
again, and its rows are those of before, perhaps merged (`Merged`) or widened (`Widened`). Together
with the lemmas of `Store/Columns.lean` on the columns this is all that later modules know about the
operations. The second half is about tables without rows, where building an index is trivial
(`Rowless`): this is what a table is during its CREATE.
-/

namespace TdsqlMerge.Store
open Lib

/-! ### Columns -/

section
variable {t t' : Table} {col : ColumnStatement}

/-- Adding a column keeps the layout. -/
lemma Layout.columnAdded {after : Option Str} (la : Layout t) (ca : ColumnAdded col after t t') :
    Layout t' where
  heap_length := by
    rw [ca.colHeap, ca.colPhy, List.length_append, la.heap_length]
    rfl
  mapping := by
    intro c d h
    rw [ca.colHeap, List.getElem?_append] at h
    split at h
    · exact la.mapping c d h
    · rw [List.getElem?_singleton] at h
      split at h
      · cases h
        rw [ColumnStatement.descriptor, ← la.heap_length]
        show t.colHeap.length = c
        omega
      · cases h
  lt := by
    intro c mem
    rw [ca.colPhy]
    rcases List.mem_cons.mp (ca.colDes.perm.mem_iff.mp mem) with rfl | mem
    · rw [la.heap_length]
      exact Nat.lt_succ_self _
    · exact Nat.lt_succ_of_lt (la.lt c mem)
  nodup := by
    rw [ca.colDes.perm.nodup_iff, List.nodup_cons]
    refine ⟨?_, la.nodup⟩
    intro mem
    rw [la.heap_length] at mem
    exact lt_irrefl _ (la.lt _ mem)

/-- Dropping a column keeps the layout. -/
lemma Layout.columnDropped {name : Str} (la : Layout t) (cd : ColumnDropped name t t') :
    Layout t' := by
  obtain ⟨c, _, colDes⟩ := cd.colDes
  refine ⟨by rw [cd.colHeap, cd.colPhy, la.heap_length], ?_, ?_, ?_⟩
  · rw [cd.colHeap]
    exact la.mapping
  · rw [colDes, cd.colPhy]
    intro x mem
    exact la.lt x (List.mem_of_mem_erase mem)
  · rw [colDes]
    exact la.nodup.erase c

/-- Changing a column keeps the layout. -/
lemma Layout.columnChanged {prevName : Str} (la : Layout t) (cc : ColumnChanged col prevName t t') :
    Layout t' := by
  obtain ⟨c, d, _, hd, heap⟩ := cc.colHeap
  refine ⟨by rw [heap, List.length_set, cc.colPhy, la.heap_length], ?_, ?_, ?_⟩
  · intro x e h
    rw [heap, List.getElem?_set] at h
    split at h
    · rename_i cx
      subst cx
      split at h
      · cases h
        exact la.mapping c d hd
      · cases h
    · exact la.mapping x e h
  · rw [cc.colDes, cc.colPhy]
    exact la.lt
  · rw [cc.colDes]
    exact la.nodup

/-- The columns found by their names. -/
lemma Layout.found_lt {names : List Str} {cols : List ColPtr} (la : Layout t)
    (find : List.Forall₂
      (fun name c => (deref (t.colDes.find? (t.hasName name)) : Res ColPtr) = .ok c) names cols) :
    ∀ c ∈ cols, c < t.colPhy := by
  induction find with
  | nil => simp
  | cons found _ ih =>
    intro c mem
    rcases List.mem_cons.mp mem with rfl | mem
    · exact la.lt c (List.mem_of_find?_eq_some (deref_eq_ok.mp found))
    · exact ih c mem

end

/-! ### Tables with one index -/

section
variable {hashCombine : UInt64 → Str → UInt64} {t t' : Table} {u : ColPtr} {index : UniqueIndex}

/-- A well-indexed table keeps its index when only columns change. -/
lemma WellIndexed.congr {index' : UniqueIndex} (wi : WellIndexed hashCombine index t)
    (rows : t'.rows = t.rows) (heap : t'.rowHeap = t.rowHeap) (phy : t'.colPhy = t.colPhy)
    (ei : index' = index) : WellIndexed hashCombine index' t' := by
  subst ei
  exact ⟨by rw [phy]; exact wi.cols_lt, wi.phy, by rw [phy, rows, heap]; exact wi.slotted,
    by rw [rows, heap]; exact wi.filed⟩

/-- Dropping an index, temporary or not. -/
lemma dropUniqueIndex_sound {isPrimary isTemp : Bool} {indexName : Str}
    (so : Sound hashCombine t u index)
    (run : t.dropUniqueIndex hashCombine isPrimary isTemp indexName = .ok t') :
    ∃ index', Sound hashCombine t' u index' ∧ Merged [] t t' ∧
      (index.isMeant isPrimary isTemp indexName = false → t' = t ∧ index' = index) := by
  rcases dropUniqueIndex_ok so run with ⟨_, rfl⟩ | ⟨meant, _, index', re, _⟩
  · exact ⟨index, so, .refl, fun _ => ⟨rfl, rfl⟩⟩
  · refine ⟨index', re.sound so.layout so.upd, re.merged, ?_⟩
    rw [meant]
    intro h
    cases h

/-- The column `updated_at` after ADDCOL. -/
def updAfter (t : Table) (u : ColPtr) (col : ColumnStatement) : ColPtr :=
  if col.name = updatedAt then t.colPhy else u

/-- A table stays sound when it gets a column and its rows a cell. -/
lemma Sound.widened {col : ColumnStatement} {after : Option Str} {cell : Str} {w : Table}
    (so : Sound hashCombine t u index) (ca : ColumnAdded col after t w) (wi : Widened cell t w)
    (indexs : w.indexs = t.indexs) : Sound hashCombine w (updAfter t u col) index := by
  refine ⟨so.layout.columnAdded ca, ⟨?_, ?_⟩, by rw [indexs, so.indexs], ⟨?_, so.well.phy, ?_, ?_⟩⟩
  · rw [ca.updCol, updAfter, so.layout.heap_length, so.upd.col]
    split <;> rfl
  · rw [ca.colPhy, updAfter]
    split
    · exact Nat.lt_succ_self _
    · exact Nat.lt_succ_of_lt so.upd.lt
  · intro c mem
    rw [ca.colPhy]
    exact Nat.lt_succ_of_lt (so.well.cols_lt c mem)
  · rw [ca.colPhy]
    exact wi.slotted so.well.slotted
  · rw [wi.rows]
    have fl := wi.filed so.well.slotted (by rw [so.well.phy]; exact so.well.cols_lt) so.well.filed
    rwa [wi.rows] at fl

/-- The rows in slots are allocated. -/
lemma Sound.alloc_rows (so : Sound hashCombine t u index) :
    ∀ p, some p ∈ t.rows → ∃ r, rowAt t.rowHeap p = some r := by
  intro p mem
  obtain ⟨i, at_i⟩ := List.mem_iff_getElem?.mp mem
  obtain ⟨r, hr, _⟩ := so.well.slotted i p at_i
  exact ⟨r, hr⟩

/-- ADDCOL widens the rows; after that a temporary index is rebuilt. -/
lemma addColumnOf_sound {col : ColumnStatement} {after : Option Str}
    (so : Sound hashCombine t u index) (run : t.addColumnOf hashCombine col after = .ok t') :
    ∃ w index', ColumnAdded col after t w ∧ Widened (col.defaultStr.getD []) t w ∧
      Sound hashCombine w (updAfter t u col) index ∧
      Sound hashCombine t' (updAfter t u col) index' ∧ SameCols w t' ∧ Merged [] w t' ∧
      (index.isTemp = false → t' = w ∧ index' = index) := by
  obtain ⟨t2, w, ca, rows, heap, indexs, push, temp⟩ := addColumnOf_ok run
  have widen : Widened (col.defaultStr.getD []) t w ∧ SameCols t2 w ∧ w.indexs = t.indexs := by
    have spec := @pushCells_spec t2 (col.defaultStr.getD []) _ so.well.slotted.apart
      (by rw [heap]; exact so.alloc_rows)
    obtain ⟨e, len, row⟩ := spec.of_ok push
    refine ⟨⟨by rw [e, rows], by rw [len, heap], ?_⟩, pushCells_cols push, by rw [e, indexs]⟩
    intro p
    rw [row p, heap]
  obtain ⟨wi, sc, indexs'⟩ := widen
  have ca' := ca.sameCols sc
  have sw := so.widened ca' wi indexs'
  rw [indexs', so.indexs] at temp
  simp only at temp
  split at temp
  · obtain ⟨index', so', mg, _⟩ := dropUniqueIndex_sound sw temp
    refine ⟨w, index', ca', wi, sw, so', dropUniqueIndex_cols temp, mg, ?_⟩
    intro perm
    simp_all
  · subst temp
    exact ⟨t', index, ca', wi, sw, sw, rfl, .refl, fun _ => ⟨rfl, rfl⟩⟩

/-- ADDINDEX replaces the temporary index. -/
lemma addUniqueIndex_sound {name : Str} {colNames : List Str} {isPrimary : Bool}
    (so : Sound hashCombine t u index)
    (run : t.addUniqueIndex hashCombine name colNames isPrimary = .ok t') :
    ∃ index', Sound hashCombine t' u index' ∧ Merged [] t t' := by
  have la : Layout { t with indexs := [] } :=
    ⟨so.layout.heap_length, so.layout.mapping, so.layout.lt, so.layout.nodup⟩
  have uc : UpdCol { t with indexs := [] } u := ⟨so.upd.col, so.upd.lt⟩
  have sc := addUniqueIndex_cols run
  rw [Table.addUniqueIndex, so.indexs] at run
  simp only at run
  split at run
  · simp only [bind_ok, UniqueIndex.named] at run
    obtain ⟨⟨ix, tb⟩, ⟨cols, find, build⟩, e⟩ := run
    cases e
    have lt : ∀ c ∈ cols, c < t.colPhy := by
      exact so.layout.found_lt (mapM_eq_ok.mp find)
    obtain ⟨ei, ef, mg, wi, _⟩ := (buildIndex_spec la uc so.well.slotted lt).of_ok (bind_ok.mpr build)
    simp only at ei ef mg wi
    have none : tb.indexs = [] := by rw [ef]
    refine ⟨ix, ⟨so.layout.sameCols sc, so.upd.sameCols sc, by rw [none]; rfl, wi.congr rfl rfl rfl rfl⟩,
      ⟨mg.heap_length, mg.mem, mg.value, mg.other⟩⟩
  · cases run

/-- DROPCOL takes the column out of the index as well; an index without columns gives way to a temporary
    one. -/
lemma dropColumn_sound {name : Str} (so : Sound hashCombine t u index)
    (run : t.dropColumn hashCombine name = .ok t') :
    ∃ c index', t.colDes.find? (t.hasName name) = some c ∧ Sound hashCombine t' u index' ∧
      Merged [] t t' ∧
      (c ∉ index.cols → index.cols ≠ [] →
        index' = index ∧ t'.rows = t.rows ∧ t'.rowHeap = t.rowHeap) := by
  have la' := so.layout.columnDropped (dropColumn_cols run)
  have cd := dropColumn_cols run
  obtain ⟨c, s, t3, find, del, temp, rfl⟩ := dropColumn_ok run
  have uc' : UpdCol t3 u := ⟨cd.updCol.trans so.upd.col, lt_of_lt_of_eq so.upd.lt cd.colPhy.symm⟩
  simp only [so.indexs, Table.deleteColFrom, bind_ok] at del
  obtain ⟨⟨ix, tb⟩, del, s2, e2, e⟩ := del
  cases e2
  cases e
  simp only at temp
  -- the index after its own deletion of the column
  have one : WellIndexed hashCombine ix tb ∧ Merged [] t tb ∧ SameCols t tb ∧
      (c ∉ index.cols → ix = index ∧ tb = t) := by
    rw [UniqueIndex.deleteCol] at del
    split at del
    · rename_i mem
      have lt : ∀ x ∈ index.cols.erase c, x < t.colPhy := fun x h =>
        so.well.cols_lt x (List.mem_of_mem_erase h)
      obtain ⟨ei, ef, mg, wi, _⟩ := (@buildIndex_spec _ _ _ { index with cols := index.cols.erase c }
        so.layout so.upd so.well.slotted lt).of_ok del
      simp only at ef
      refine ⟨wi, mg, ?_, fun out => absurd mem out⟩
      unfold SameCols
      rw [ef]
    · cases del
      exact ⟨so.well, .refl, rfl, fun _ => ⟨rfl, rfl⟩⟩
  obtain ⟨wi, mg, sc, kept⟩ := one
  cases empty : ix.cols.isEmpty with
  | true =>
    -- the deleted column was the last one of the index
    have none : ix.cols = [] := List.isEmpty_iff.mp empty
    have la : Layout { tb with indexs := [], colDes := tb.colDes.erase c } := by
      have := so.layout.sameCols sc
      exact ⟨this.heap_length, this.mapping, fun x h => this.lt x (List.mem_of_mem_erase h),
        this.nodup.erase c⟩
    have uc : UpdCol { tb with indexs := [], colDes := tb.colDes.erase c } u := by
      have := so.upd.sameCols sc
      exact ⟨this.col, this.lt⟩
    simp only [empty, if_true, List.isEmpty_nil] at temp
    obtain ⟨_, index', re, _⟩ := pushTemp_ok la uc wi.slotted rfl temp
    have mg' := re.merged
    refine ⟨c, index', find, ⟨la', ⟨uc'.col, uc'.lt⟩, re.indexs, re.well.congr rfl rfl rfl rfl⟩,
      mg.trans ⟨mg'.heap_length, mg'.mem, mg'.value, mg'.other⟩, ?_⟩
    intro out ne
    rw [(kept out).1] at none
    exact absurd none ne
  | false =>
    simp only [empty, Bool.false_eq_true, if_false, List.isEmpty_cons] at temp
    subst temp
    refine ⟨c, ix, find, ⟨la', ⟨uc'.col, uc'.lt⟩, rfl, wi.congr rfl rfl rfl rfl⟩,
      ⟨mg.heap_length, mg.mem, mg.value, mg.other⟩, ?_⟩
    intro out _
    obtain ⟨e, e'⟩ := kept out
    exact ⟨e, by rw [e'], by rw [e']⟩

/-- CHANGECOL leaves rows and index alone. -/
lemma changeCol_sound {col : ColumnStatement} {prevName : Str} (so : Sound hashCombine t u index)
    (run : t.changeCol col prevName = .ok t') :
    Sound hashCombine t' u index ∧ t'.rows = t.rows ∧ t'.rowHeap = t.rowHeap := by
  have cc := changeCol_cols run
  have la := so.layout.columnChanged cc
  rw [Table.changeCol] at run
  split at run
  · cases run
  · rw [bind_ok] at run
    obtain ⟨d, _, e⟩ := run
    cases e
    exact ⟨⟨la, ⟨so.upd.col, so.upd.lt⟩, so.indexs, so.well.congr rfl rfl rfl rfl⟩, rfl, rfl⟩

end

/-! ### Tables without rows -/

/-- A table without rows: its indexes, any number of them, are empty. -/
structure Rowless (t : Table) : Prop where
  layout : Layout t
  upd_lt : ∀ u, t.updCol = some u → u < t.colPhy
  rows : t.rows = []
  cols_lt : ∀ index ∈ t.indexs, ∀ c ∈ index.cols, c < t.colPhy
  phy : ∀ index ∈ t.indexs, index.hashPhy = index.cols
  hash : ∀ index ∈ t.indexs, index.hash = fun _ => none

/-- A new table has no rows. -/
lemma Rowless.new : Rowless Table.new where
  layout := .new
  upd_lt := by intro u h; cases h
  rows := rfl
  cols_lt := by intro index mem; cases mem
  phy := by intro index mem; cases mem
  hash := by intro index mem; cases mem

section
variable {hashCombine : UInt64 → Str → UInt64} {t t' : Table} {u : ColPtr} {index : UniqueIndex}

/-- With one index and `updated_at`, a table without rows satisfies the invariant. -/
lemma Rowless.sound (rl : Rowless t) (one : t.indexs = [index]) (upd : t.updCol = some u) :
    Sound hashCombine t u index := by
  have mem : index ∈ t.indexs := by rw [one]; exact List.mem_singleton.mpr rfl
  refine ⟨rl.layout, ⟨upd, rl.upd_lt u upd⟩, one, ⟨rl.cols_lt index mem, rl.phy index mem, ?_, ?_, ?_⟩⟩
  · intro i p at_i
    rw [rl.rows] at at_i
    cases at_i
  · intro h p hit
    rw [rl.hash index mem] at hit
    cases hit
  · intro i p r lt
    rw [rl.rows] at lt
    cases lt

/-- Building an index over no rows. -/
lemma buildIndex_rowless (la : Layout t) (rows : t.rows = []) (lt : ∀ c ∈ index.cols, c < t.colPhy) :
    (do
      let index ← index.setHashPhy t
      index.reCompute hashCombine t) =
    .ok ({ index with hashPhy := index.cols, hash := fun _ => none }, t) := by
  have phy : index.setHashPhy t = .ok { index with hashPhy := index.cols } := by
    rw [UniqueIndex.setHashPhy, la.mapM_mapping lt]
    rfl
  rw [phy, ok_bind, UniqueIndex.reCompute, rows]
  rfl

/-- The indexes of a table without rows may be exchanged for other empty ones. -/
lemma Rowless.withIndexs {indexs : List UniqueIndex} (rl : Rowless t)
    (empty : ∀ index ∈ indexs,
      (∀ c ∈ index.cols, c < t.colPhy) ∧ index.hashPhy = index.cols ∧ index.hash = fun _ => none) :
    Rowless { t with indexs } where
  layout := ⟨rl.layout.heap_length, rl.layout.mapping, rl.layout.lt, rl.layout.nodup⟩
  upd_lt := rl.upd_lt
  rows := rl.rows
  cols_lt := fun index mem => (empty index mem).1
  phy := fun index mem => (empty index mem).2.1
  hash := fun index mem => (empty index mem).2.2

/-- The indexes of a table without rows are over its columns, and file nothing. -/
lemma Rowless.empty (rl : Rowless t) :
    ∀ index ∈ t.indexs,
      (∀ c ∈ index.cols, c < t.colPhy) ∧ index.hashPhy = index.cols ∧ index.hash = fun _ => none :=
  fun index mem => ⟨rl.cols_lt index mem, rl.phy index mem, rl.hash index mem⟩

/-- One more index without rows. -/
lemma Rowless.pushed {index : UniqueIndex} (rl : Rowless t) (lt : ∀ c ∈ index.cols, c < t.colPhy)
    (phy : index.hashPhy = index.cols) (hash : index.hash = fun _ => none) :
    Rowless { t with indexs := t.indexs ++ [index] } := by
  apply rl.withIndexs
  intro index' mem
  rcases List.mem_append.mp mem with old | new
  · exact rl.empty index' old
  · rw [List.mem_singleton.mp new]
    exact ⟨lt, phy, hash⟩

/-- The temporary index of a table without rows. -/
lemma pushTemp_rowless (rl : Rowless t) (upd : t.updCol = some u) (mem : u ∈ t.colDes) :
    Yields (t.pushTemp hashCombine) fun t' => Rowless t' ∧ SameCols t t' ∧
      ∃ index, t'.indexs = t.indexs ++ [index] ∧ index.cols = t.colDes.erase u ∧
        index.isTemp = true ∧ index.isPrimary = false ∧ index.name = "___TEMP_PRIMARY".toList := by
  rw [Table.pushTemp, UniqueIndex.temp, upd, deref_some, ok_bind, if_pos mem]
  have lt : ∀ c ∈ t.colDes.erase u, c < t.colPhy := fun c h =>
    rl.layout.lt c (List.mem_of_mem_erase h)
  dsimp only
  rw [buildIndex_rowless rl.layout rl.rows lt, ok_bind]
  exact .ok ⟨rl.pushed lt rfl rfl, rfl, _, rfl, rfl, rfl, rfl, rfl⟩

/-- The temporary index is built on tables with `updated_at`. -/
lemma pushTemp_upd (run : t.pushTemp hashCombine = .ok t') : ∃ u, t.updCol = some u ∧ u ∈ t.colDes := by
  rw [Table.pushTemp, bind_ok] at run
  obtain ⟨s, run, _⟩ := run
  rw [UniqueIndex.temp, bind_ok] at run
  obtain ⟨u, upd, run⟩ := run
  split at run
  · exact ⟨u, deref_eq_ok.mp upd, ‹_›⟩
  · cases run

/-- A named index of a table without rows. -/
lemma named_rowless {name : Str} {colStrs : List Str} {isPrimary : Bool} {cols : List ColPtr}
    (la : Layout t) (rows : t.rows = [])
    (find : List.Forall₂ (fun s c => t.colDes.find? (t.hasName s) = some c) colStrs cols) :
    UniqueIndex.named hashCombine t name colStrs isPrimary =
      .ok ({ name, cols, hash := fun _ => none, hashPhy := cols, isPrimary, isTemp := false }, t) ∧
    ∀ c ∈ cols, c < t.colPhy := by
  have find' := find.imp fun s c h => (deref_eq_ok (σ := Table)).mpr h
  have lt := la.found_lt find'
  refine ⟨?_, lt⟩
  rw [UniqueIndex.named, mapM_eq_ok.mpr find', ok_bind]
  dsimp only
  rw [buildIndex_rowless la rows lt]

/-- The columns of an index are those that its names find. -/
lemma named_found {name : Str} {colStrs : List Str} {isPrimary : Bool} {s : UniqueIndex × Table}
    (run : UniqueIndex.named hashCombine t name colStrs isPrimary = .ok s) :
    ∃ cols, List.Forall₂ (fun s c => t.colDes.find? (t.hasName s) = some c) colStrs cols := by
  rw [UniqueIndex.named, bind_ok] at run
  obtain ⟨cols, find, _⟩ := run
  exact ⟨cols, (mapM_eq_ok.mp find).imp fun s c h => deref_eq_ok.mp h⟩

/-- The temporary index of a table without rows is empty. -/
lemma pushTemp_rowless_ok (rl : Rowless t) (run : t.pushTemp hashCombine = .ok t') : Rowless t' := by
  obtain ⟨u, upd, mem⟩ := pushTemp_upd run
  exact ((pushTemp_rowless rl upd mem).of_ok run).1

/-- Dropping an index brings in no rows. -/
lemma dropUniqueIndex_rowless {isPrimary isTemp : Bool} {indexName : Str} (rl : Rowless t)
    (run : t.dropUniqueIndex hashCombine isPrimary isTemp indexName = .ok t') : Rowless t' := by
  rw [Table.dropUniqueIndex] at run
  split at run
  · cases run
    exact rl
  · rename_i i _
    have rl' : Rowless { t with indexs := t.indexs.eraseIdx i } :=
      rl.withIndexs fun index mem => rl.empty index (List.mem_of_mem_eraseIdx mem)
    dsimp only at run
    split at run
    · exact pushTemp_rowless_ok rl' run
    · cases run
      exact rl'

/-- Pushing an index to a table without rows: it is the last, and over the columns it names. -/
lemma pushIndex_rowless {stat : IndexStatement} (rl : Rowless t)
    (run : t.pushIndex hashCombine stat = .ok t') :
    Rowless t' ∧ ∃ index, t'.indexs = t.indexs ++ [index] ∧ index.isTemp = false ∧
      List.Forall₂ (fun s c => t.colDes.find? (t.hasName s) = some c) stat.keys index.cols := by
  rw [Table.pushIndex, bind_ok] at run
  obtain ⟨s, run, e⟩ := run
  cases e
  obtain ⟨cols, find⟩ := named_found run
  obtain ⟨named, lt⟩ := @named_rowless hashCombine _ stat.name _ stat.isPrimaryKey _
    rl.layout rl.rows find
  rw [named] at run
  cases run
  exact ⟨rl.pushed lt rfl rfl, _, rfl, rfl, find⟩

/-- Adding an index to a table without rows leaves it the only one. -/
lemma addUniqueIndex_rowless {name : Str} {colNames : List Str} {isPrimary : Bool} (rl : Rowless t)
    (run : t.addUniqueIndex hashCombine name colNames isPrimary = .ok t') :
    Rowless t' ∧ ∃ index, t'.indexs = [index] := by
  rw [Table.addUniqueIndex] at run
  split at run
  · split at run
    · rw [bind_ok] at run
      obtain ⟨s, run, e⟩ := run
      cases e
      have none : Rowless { t with indexs := [] } := rl.withIndexs (by intro index mem; cases mem)
      have push : Table.pushIndex hashCombine { t with indexs := [] }
          { name, isPrimaryKey := isPrimary, keys := colNames } =
          .ok { s.2 with indexs := s.2.indexs ++ [s.1] } := by
        rw [Table.pushIndex, run]
        rfl
      obtain ⟨rl', index, indexs, _⟩ := pushIndex_rowless none push
      exact ⟨rl', index, indexs⟩
    · cases run
  · cases run

/-- Taking a column out of empty indexes leaves the table alone. -/
lemma deleteColFrom_rowless {c : ColPtr} {indexs : List UniqueIndex} {s : List UniqueIndex × Table}
    (la : Layout t) (rows : t.rows = [])
    (empty : ∀ index ∈ indexs,
      (∀ c ∈ index.cols, c < t.colPhy) ∧ index.hashPhy = index.cols ∧ index.hash = fun _ => none)
    (run : Table.deleteColFrom hashCombine c indexs t = .ok s) :
    s.2 = t ∧ ∀ index ∈ s.1,
      (∀ c ∈ index.cols, c < t.colPhy) ∧ index.hashPhy = index.cols ∧ index.hash = fun _ => none := by
  induction indexs generalizing s with
  | nil =>
    cases run
    exact ⟨rfl, empty⟩
  | cons index rest ih =>
    simp only [Table.deleteColFrom, bind_ok] at run
    obtain ⟨⟨ix, tb⟩, del, s2, more, e⟩ := run
    cases e
    have one : tb = t ∧ (∀ c ∈ ix.cols, c < t.colPhy) ∧ ix.hashPhy = ix.cols ∧
        ix.hash = fun _ => none := by
      have old := empty index List.mem_cons_self
      rw [UniqueIndex.deleteCol] at del
      split at del
      · have lt : ∀ x ∈ index.cols.erase c, x < t.colPhy := fun x h =>
          old.1 x (List.mem_of_mem_erase h)
        rw [buildIndex_rowless la rows lt] at del
        cases del
        exact ⟨rfl, lt, rfl, rfl⟩
      · cases del
        exact ⟨rfl, old⟩
    obtain ⟨rfl, here⟩ := one
    obtain ⟨e, others⟩ := ih (fun i mem => empty i (List.mem_cons_of_mem _ mem)) more
    refine ⟨e, ?_⟩
    split
    · exact others
    · intro i mem
      rcases List.mem_cons.mp mem with rfl | mem
      · exact here
      · exact others i mem

/-- A table without rows stays so when a column is taken out of its indexes and of `colDes`. -/
lemma Rowless.colErased {c : ColPtr} {s : List UniqueIndex × Table} (rl : Rowless t)
    (run : Table.deleteColFrom hashCombine c t.indexs t = .ok s) :
    s.2 = t ∧ Rowless { t with indexs := s.1, colDes := t.colDes.erase c } := by
  obtain ⟨same, empty⟩ := deleteColFrom_rowless rl.layout rl.rows rl.empty run
  exact ⟨same,
    { layout := ⟨rl.layout.heap_length, rl.layout.mapping,
        fun x h => rl.layout.lt x (List.mem_of_mem_erase h), rl.layout.nodup.erase c⟩
      upd_lt := rl.upd_lt
      rows := rl.rows
      cols_lt := fun index mem => (empty index mem).1
      phy := fun index mem => (empty index mem).2.1
      hash := fun index mem => (empty index mem).2.2 }⟩

/-- Dropping a column brings in no rows. -/
lemma dropColumn_rowless {name : Str} (rl : Rowless t)
    (run : t.dropColumn hashCombine name = .ok t') : Rowless t' := by
  have la' := rl.layout.columnDropped (dropColumn_cols run)
  obtain ⟨c, s, t3, find, del, temp, rfl⟩ := dropColumn_ok run
  obtain ⟨e, rl1⟩ := rl.colErased del
  rw [e] at temp
  have rl3 : Rowless t3 := by
    split at temp
    · exact pushTemp_rowless_ok rl1 temp
    · rw [temp]
      exact rl1
  exact ⟨la', rl3.upd_lt, rl3.rows, rl3.cols_lt, rl3.phy, rl3.hash⟩

/-- Changing a column brings in no rows. -/
lemma changeCol_rowless {col : ColumnStatement} {prevName : Str} (rl : Rowless t)
    (run : t.changeCol col prevName = .ok t') : Rowless t' := by
  have la := rl.layout.columnChanged (changeCol_cols run)
  rw [Table.changeCol] at run
  split at run
  · cases run
  · rw [bind_ok] at run
    obtain ⟨d, _, e⟩ := run
    cases e
    exact ⟨la, rl.upd_lt, rl.rows, rl.cols_lt, rl.phy, rl.hash⟩

/-- The table in the middle of ADDCOL. -/
lemma Rowless.columnAdded {col : ColumnStatement} {after : Option Str} (rl : Rowless t)
    (ca : ColumnAdded col after t t') (rows : t'.rows = t.rows) (indexs : t'.indexs = t.indexs) :
    Rowless t' where
  layout := rl.layout.columnAdded ca
  upd_lt := by
    intro u upd
    rw [ca.updCol] at upd
    rw [ca.colPhy]
    split at upd
    · cases upd
      rw [rl.layout.heap_length]
      exact Nat.lt_succ_self _
    · exact Nat.lt_succ_of_lt (rl.upd_lt u upd)
  rows := rows.trans rl.rows
  cols_lt := by
    rw [indexs, ca.colPhy]
    exact fun index mem c h => Nat.lt_succ_of_lt (rl.cols_lt index mem c h)
  phy := by
    rw [indexs]
    exact rl.phy
  hash := by
    rw [indexs]
    exact rl.hash

/-- Adding a column brings in no rows. -/
lemma addColumnOf_rowless {col : ColumnStatement} {after : Option Str} (rl : Rowless t)
    (run : t.addColumnOf hashCombine col after = .ok t') : Rowless t' := by
  obtain ⟨t2, t3, ca, rows, _, indexs, push, temp⟩ := addColumnOf_ok run
  rw [rl.rows] at push
  cases push
  have rl2 := rl.columnAdded ca rows indexs
  split at temp
  · rwa [temp]
  · split at temp
    · exact dropUniqueIndex_rowless rl2 temp
    · rwa [temp]

/-- During CREATE, a column is added at the end. -/
lemma addColumnOf_bare {col : ColumnStatement} (rl : Rowless t) (bare : t.indexs = []) :
    Yields (t.addColumnOf hashCombine col none) fun t' =>
      Rowless t' ∧ t'.indexs = [] ∧ ColumnAdded col none t t' := by
  have run : ∃ t', t.addColumnOf hashCombine col none = .ok t' ∧ t'.indexs = [] := by
    simp [Table.addColumnOf, Table.addColumn, Table.placeColumn, Table.registerColumn, Table.newCol,
      Table.col, rl.rows, bare, pure, Except.pure]
  obtain ⟨t', run, bare'⟩ := run
  exact ⟨t', run, addColumnOf_rowless rl run, bare', addColumnOf_cols run⟩

/-- `t'` is `t` with the columns `cols` at the end. -/
structure ColumnsAdded (cols : List ColumnStatement) (t t' : Table) : Prop where
  colDes : t'.colDes = t.colDes ++ List.range' t.colPhy cols.length
  colHeap : t'.colHeap = t.colHeap ++ cols.mapIdx fun i col => col.descriptor (t.colPhy + i)
  colPhy : t'.colPhy = t.colPhy + cols.length
  upd : (∃ col ∈ cols, col.name = updatedAt) →
    ∃ i col, cols[i]? = some col ∧ col.name = updatedAt ∧ t'.updCol = some (t.colPhy + i) ∧
      ∀ (j : Nat) (col' : ColumnStatement), cols[j]? = some col' → col'.name = updatedAt → j ≤ i
  noUpd : (∀ col ∈ cols, col.name ≠ updatedAt) → t'.updCol = t.updCol

/-- A step that keeps the columns may follow the new ones. -/
lemma ColumnsAdded.sameCols {cols : List ColumnStatement} {t'' : Table} (ca : ColumnsAdded cols t t')
    (sc : SameCols t' t'') : ColumnsAdded cols t t'' := by
  rw [sc]
  exact ⟨ca.colDes, ca.colHeap, ca.colPhy, ca.upd, ca.noUpd⟩

/-- The column loop of CREATE. -/
lemma addColumns_bare {cols : List ColumnStatement} (rl : Rowless t) (bare : t.indexs = []) :
    Yields (cols.foldlM (fun t col => t.addColumnOf hashCombine col none) t) fun t' =>
      Rowless t' ∧ t'.indexs = [] ∧ ColumnsAdded cols t t' := by
  induction cols generalizing t with
  | nil => exact .ok ⟨rl, bare, by simp, by simp, by simp, by simp, fun _ => rfl⟩
  | cons col cols ih =>
    rw [List.foldlM_cons]
    apply Yields.bind (addColumnOf_bare rl bare)
    rintro t1 ⟨rl1, bare1, ca⟩
    apply Yields.imp (ih rl1 bare1)
    rintro t' ⟨rl', bare', ca'⟩
    refine ⟨rl', bare', ?_, ?_, ?_, ?_, ?_⟩
    · have last : t1.colDes = t.colDes ++ [t.colHeap.length] := ca.colDes
      rw [ca'.colDes, last, ca.colPhy, rl.layout.heap_length, List.length_cons, List.range'_succ]
      simp
    · rw [ca'.colHeap, ca.colHeap, ca.colPhy, List.mapIdx_cons]
      simp [Nat.add_assoc, Nat.add_comm 1]
    · rw [ca'.colPhy, ca.colPhy, List.length_cons]
      omega
    · intro has
      -- `updCol` is the last of the columns with that name
      by_cases later : ∃ c ∈ cols, c.name = updatedAt
      · obtain ⟨i, c, at_i, name, upd, last⟩ := ca'.upd later
        refine ⟨i + 1, c, by simpa using at_i, name, ?_, ?_⟩
        · rw [upd, ca.colPhy]
          congr 1
          omega
        · intro j c' at_j name'
          cases j with
          | zero => exact Nat.zero_le _
          | succ j => exact Nat.succ_le_succ (last j c' (by simpa using at_j) name')
      · have here : col.name = updatedAt := by
          obtain ⟨c, mem, name⟩ := has
          rcases List.mem_cons.mp mem with rfl | mem
          · exact name
          · exact absurd ⟨c, mem, name⟩ later
        refine ⟨0, col, rfl, here, ?_, ?_⟩
        · rw [ca'.noUpd fun c mem name => later ⟨c, mem, name⟩, ca.updCol, if_pos here,
            rl.layout.heap_length]
          rfl
        · intro j c' at_j name'
          cases j with
          | zero => exact le_rfl
          | succ j => exact absurd ⟨c', List.mem_of_getElem? (by simpa using at_j), name'⟩ later
    · intro no
      rw [ca'.noUpd fun c mem => no c (List.mem_cons_of_mem _ mem), ca.updCol,
        if_neg (no col List.mem_cons_self)]

/-- The index loop of CREATE. -/
lemma pushIndexs_rowless {indexs : List IndexStatement} (rl : Rowless t)
    (run : indexs.foldlM (Table.pushIndex hashCombine) t = .ok t') :
    Rowless t' ∧ SameCols t t' ∧ t'.indexs.length = t.indexs.length + indexs.length := by
  induction indexs generalizing t with
  | nil =>
    cases run
    exact ⟨rl, rfl, rfl⟩
  | cons stat indexs ih =>
    rw [List.foldlM_cons, bind_ok] at run
    obtain ⟨t1, push, run⟩ := run
    obtain ⟨rl1, index, e, _⟩ := pushIndex_rowless rl push
    obtain ⟨rl', sc, len⟩ := ih rl1 run
    refine ⟨rl', (pushIndex_cols push).trans sc, ?_⟩
    simp only [len, e, List.length_append, List.length_cons, List.length_nil]
    omega

/-- CREATE makes a table without rows, with one index for each key, or a temporary one. -/
lemma fillCreate_rowless {cols : List ColumnStatement} {indexs : List IndexStatement}
    (run : Table.new.fillCreate hashCombine cols indexs = .ok t) :
    Rowless t ∧ ColumnsAdded cols Table.new t ∧ t.indexs.length = max 1 indexs.length := by
  rw [Table.fillCreate, bind_ok] at run
  obtain ⟨t1, fold, run⟩ := run
  obtain ⟨rl1, bare, ca⟩ := (addColumns_bare Rowless.new rfl).of_ok fold
  rw [bind_ok] at run
  obtain ⟨t2, push, run⟩ := run
  obtain ⟨rl2, sc, len⟩ := pushIndexs_rowless rl1 push
  rw [bare] at len
  cases indexs with
  | nil =>
    cases push
    simp only [List.isEmpty_nil, if_true] at run
    obtain ⟨u, upd, mem⟩ := pushTemp_upd run
    obtain ⟨rl, sc', index, e, _⟩ := (pushTemp_rowless rl1 upd mem).of_ok run
    refine ⟨rl, ca.sameCols sc', ?_⟩
    rw [e, bare]
    rfl
  | cons stat indexs =>
    simp only [List.isEmpty_cons, Bool.false_eq_true, if_false] at run
    cases run
    refine ⟨rl2, ca.sameCols sc, ?_⟩
    rw [len]
    simp

/-- With one key, the index is over the columns the key names. -/
lemma fillCreate_keyed {cols : List ColumnStatement} {key : IndexStatement}
    (run : Table.new.fillCreate hashCombine cols [key] = .ok t) :
    ∃ index, t.indexs = [index] ∧ index.isTemp = false ∧
      List.Forall₂ (fun s c => t.colDes.find? (t.hasName s) = some c) key.keys index.cols := by
  rw [Table.fillCreate, bind_ok] at run
  obtain ⟨t1, fold, run⟩ := run
  obtain ⟨rl1, bare, _⟩ := (addColumns_bare Rowless.new rfl).of_ok fold
  rw [bind_ok] at run
  obtain ⟨t2, push, run⟩ := run
  rw [List.foldlM_cons, bind_ok] at push
  obtain ⟨t3, push, e⟩ := push
  cases e
  cases run
  obtain ⟨_, index, e, perm, find⟩ := pushIndex_rowless rl1 push
  have same : ∀ s, t.colDes.find? (t.hasName s) = t1.colDes.find? (t1.hasName s) := by
    intro s
    rw [pushIndex_cols push]
    rfl
  refine ⟨index, by rw [e, bare]; rfl, perm, ?_⟩
  simp only [same]
  exact find

end

/-! ### Statements -/

section
variable {hashCombine : UInt64 → Str → UInt64}

/-- ALTER statements keep the invariant. -/
lemma fillToTable_sound {t t' : Table} {u : ColPtr} {index : UniqueIndex} {statement : Statement}
    (so : Sound hashCombine t u index) (alter : statement.isAlter = true)
    (run : statement.fillToTable hashCombine t = .ok t') :
    ∃ u' index', Sound hashCombine t' u' index' := by
  cases statement with
  | create name cols indexs => cases alter
  | addCol colStat insAfter =>
    obtain ⟨w, index', _, _, _, so', _⟩ := addColumnOf_sound so run
    exact ⟨_, index', so'⟩
  | nothing =>
    cases run
    exact ⟨u, index, so⟩
  | dropCol colName =>
    obtain ⟨c, index', _, so', _⟩ := dropColumn_sound so run
    exact ⟨u, index', so'⟩
  | dropIndex isPrimary indexName =>
    obtain ⟨index', so', _⟩ := dropUniqueIndex_sound so run
    exact ⟨u, index', so'⟩
  | addIndex isPrimary indexName cols =>
    obtain ⟨index', so', _⟩ := addUniqueIndex_sound so run
    exact ⟨u, index', so'⟩
  | changeCol colStat prevName => exact ⟨u, index, (changeCol_sound so run).1⟩

/-- ALTER statements keep a table without rows one. -/
lemma fillToTable_rowless {t t' : Table} {statement : Statement} (rl : Rowless t)
    (alter : statement.isAlter = true) (run : statement.fillToTable hashCombine t = .ok t') :
    Rowless t' := by
  cases statement with
  | create name cols indexs => cases alter
  | addCol colStat insAfter => exact addColumnOf_rowless rl run
  | nothing =>
    cases run
    exact rl
  | dropCol colName => exact dropColumn_rowless rl run
  | dropIndex isPrimary indexName => exact dropUniqueIndex_rowless rl run
  | addIndex isPrimary indexName cols => exact (addUniqueIndex_rowless rl run).1
  | changeCol colStat prevName => exact changeCol_rowless rl run

/-- ALTER statements never forget `updated_at`. -/
lemma fillToTable_upd {t t' : Table} {u : ColPtr} {statement : Statement}
    (upd : t.updCol = some u) (alter : statement.isAlter = true)
    (run : statement.fillToTable hashCombine t = .ok t') : ∃ u', t'.updCol = some u' := by
  cases statement with
  | create name cols indexs => cases alter
  | addCol colStat insAfter =>
    have ca := addColumnOf_cols run
    rw [ca.updCol]
    split
    · exact ⟨_, rfl⟩
    · exact ⟨u, upd⟩
  | nothing =>
    cases run
    exact ⟨u, upd⟩
  | dropCol colName => exact ⟨u, (dropColumn_cols run).updCol.trans upd⟩
  | dropIndex isPrimary indexName =>
    rw [dropUniqueIndex_cols run]
    exact ⟨u, upd⟩
  | addIndex isPrimary indexName cols =>
    rw [addUniqueIndex_cols run]
    exact ⟨u, upd⟩
  | changeCol colStat prevName => exact ⟨u, (changeCol_cols run).updCol.trans upd⟩

/-- Physical columns are never given up. -/
lemma fillToTable_colPhy {t t' : Table} {statement : Statement} (alter : statement.isAlter = true)
    (run : statement.fillToTable hashCombine t = .ok t') : t.colPhy ≤ t'.colPhy := by
  cases statement with
  | create name cols indexs => cases alter
  | addCol colStat insAfter =>
    rw [(addColumnOf_cols run).colPhy]
    exact Nat.le_succ _
  | nothing =>
    cases run
    exact le_rfl
  | dropCol colName => exact (dropColumn_cols run).colPhy.ge
  | dropIndex isPrimary indexName =>
    rw [dropUniqueIndex_cols run]
  | addIndex isPrimary indexName cols =>
    rw [addUniqueIndex_cols run]
  | changeCol colStat prevName => exact (changeCol_cols run).colPhy.ge

end

end TdsqlMerge.Store
