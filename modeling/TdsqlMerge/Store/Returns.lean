import TdsqlMerge.Store.Headers
import TdsqlMerge.Store.Operations

/-!
# Operations on a table without rows return

On a table without rows an operation fails only if a name is not found, if the indexes do not fit it, or
if it has to build a temporary index while `updated_at` is not among the columns (`HasUpd`).
-/

namespace TdsqlMerge.Store
open Lib

/-- `updated_at` is among these columns of a table. -/
def HasUpd (updCol : Option ColPtr) (colDes : List ColPtr) : Prop := ∃ u, updCol = some u ∧ u ∈ colDes

section
variable {hashCombine : UInt64 → Str → UInt64} {t : Table}

/-- On a table without rows the temporary index is built where `updated_at` is known. -/
lemma pushTemp_returns (rl : Rowless t) (upd : HasUpd t.updCol t.colDes) :
    ∃ t', t.pushTemp hashCombine = .ok t' := by
  obtain ⟨u, upd, mem⟩ := upd
  obtain ⟨t', run, _⟩ := @pushTemp_rowless hashCombine _ _ rl upd mem
  exact ⟨t', run⟩

/-- DROPINDEX may have to build a temporary index. -/
lemma dropUniqueIndex_returns {isPrimary isTemp : Bool} {indexName : Str} (rl : Rowless t)
    (upd : ∀ i, t.headers.findIdx? (Header.isMeant isPrimary isTemp indexName) = some i →
      t.headers.eraseIdx i = [] → HasUpd t.updCol t.colDes) :
    ∃ t', t.dropUniqueIndex hashCombine isPrimary isTemp indexName = .ok t' := by
  rw [Table.dropUniqueIndex]
  split
  · exact ⟨t, rfl⟩
  · rename_i i find
    dsimp only
    split
    · rename_i empty
      apply pushTemp_returns
      · exact rl.withIndexs fun index mem => rl.empty index (List.mem_of_mem_eraseIdx mem)
      · apply upd i
        · rw [Table.headers, List.findIdx?_map]
          exact find
        · rw [Table.headers, List.eraseIdx_map, List.isEmpty_iff.mp empty]
          rfl
    · exact ⟨_, rfl⟩

/-- Names that are found make an index. -/
lemma named_returns {name : Str} {colStrs : List Str} {isPrimary : Bool} (rl : Rowless t)
    (find : ∀ colStr ∈ colStrs, ∃ c, t.colDes.find? (t.hasName colStr) = some c) :
    ∃ index, UniqueIndex.named hashCombine t name colStrs isPrimary = .ok (index, t) := by
  have found : ∃ cols,
      List.Forall₂ (fun s c => t.colDes.find? (t.hasName s) = some c) colStrs cols := by
    clear * - find
    induction colStrs with
    | nil => exact ⟨[], .nil⟩
    | cons s colStrs ih =>
      obtain ⟨c, one⟩ := find s List.mem_cons_self
      obtain ⟨cols, rest⟩ := ih fun s mem => find s (List.mem_cons_of_mem _ mem)
      exact ⟨c :: cols, .cons one rest⟩
  obtain ⟨cols, found⟩ := found
  exact ⟨_, (named_rowless rl.layout rl.rows found).1⟩

/-- ADDINDEX needs a temporary index. -/
lemma addUniqueIndex_returns {name : Str} {colNames : List Str} {isPrimary : Bool} {h : Header}
    (rl : Rowless t) (one : t.headers = [h]) (temp : h.isTemp = true)
    (find : ∀ colStr ∈ colNames, ∃ c, t.colDes.find? (t.hasName colStr) = some c) :
    ∃ t', t.addUniqueIndex hashCombine name colNames isPrimary = .ok t' := by
  have indexs : ∃ index, t.indexs = [index] ∧ index.header = h := by
    rw [Table.headers, List.map_eq_singleton_iff] at one
    exact one
  obtain ⟨index, single, rfl⟩ := indexs
  have rl' : Rowless { t with indexs := [] } := rl.withIndexs (by intro index mem; cases mem)
  obtain ⟨index', run⟩ := @named_returns hashCombine _ name _ isPrimary rl' find
  rw [Table.addUniqueIndex, single]
  simp only
  rw [if_pos (show index.isTemp = true from temp), run]
  exact ⟨_, rfl⟩

/-- A new descriptor does not change the names of the columns. -/
lemma hasName_newCol {d : ColumnDescriptor} {name : Str} {c : ColPtr} (lt : c < t.colHeap.length) :
    (t.newCol d).hasName name c = t.hasName name c := by
  simp only [Table.hasName, Table.newCol, List.getElem?_append_left lt]

/-- A column is placed and registered if the column to insert after is found. -/
lemma column_registers {col : ColumnStatement} {after : Option Str} (la : Layout t)
    (find : ∀ name ∈ after, ∃ c, t.colDes.find? (t.hasName name) = some c) :
    ∃ t1 t2, (t.newCol (.new col.name col.type col.defaultStr)).placeColumn t.colHeap.length after =
      .ok t1 ∧ t1.registerColumn t.colHeap.length = .ok t2 := by
  have place : ∃ t1, (t.newCol (.new col.name col.type col.defaultStr)).placeColumn t.colHeap.length
      after = .ok t1 := by
    cases after with
    | none => exact ⟨_, rfl⟩
    | some name =>
      obtain ⟨c, find⟩ := find name rfl
      -- the new column is on the heap but not in `colDes`, so it is not found
      have some : (t.colDes.findIdx?
          ((t.newCol (.new col.name col.type col.defaultStr)).hasName name)).isSome = true := by
        rw [List.findIdx?_isSome, List.any_eq_true]
        have mem := List.mem_of_find?_eq_some find
        refine ⟨c, mem, ?_⟩
        rw [hasName_newCol (lt_of_lt_of_eq (la.lt c mem) la.heap_length.symm)]
        exact List.find?_some find
      obtain ⟨i, at_i⟩ := Option.isSome_iff_exists.mp some
      rw [Table.placeColumn]
      simp only [Table.newCol] at at_i ⊢
      rw [at_i]
      exact ⟨_, rfl⟩
  obtain ⟨t1, place⟩ := place
  have heap : t1.colHeap = t.colHeap ++ [.new col.name col.type col.defaultStr] := by
    cases after with
    | none =>
      cases place
      rfl
    | some name =>
      rw [Table.placeColumn] at place
      split at place
      · cases place
      · cases place
        rfl
  have register : ∃ t2, t1.registerColumn t.colHeap.length = .ok t2 := by
    rw [Table.registerColumn, Table.col, heap, List.getElem?_concat_length]
    exact ⟨_, rfl⟩
  obtain ⟨t2, register⟩ := register
  exact ⟨t1, t2, place, register⟩

/-- ADDCOL needs the column to insert after, and `updated_at` if it rebuilds a temporary index. -/
lemma addColumnOf_returns {col : ColumnStatement} {after : Option Str} (rl : Rowless t)
    (find : ∀ name ∈ after, ∃ c, t.colDes.find? (t.hasName name) = some c)
    (upd : ∀ t', ColumnAdded col after t t' → (∃ h, t.headers = [h] ∧ h.isTemp = true) →
      HasUpd t'.updCol t'.colDes) (few : t.headers.length ≤ 1) :
    ∃ t', t.addColumnOf hashCombine col after = .ok t' := by
  obtain ⟨t1, t2, place, register⟩ := @column_registers _ col _ rl.layout find
  obtain ⟨ca, rows, _, indexs, hd⟩ := registered place register
  have rl2 := rl.columnAdded ca rows indexs
  have headers : t2.headers = t.headers := by
    rw [Table.headers, indexs]
    rfl
  simp only [Table.addColumnOf, Table.addColumn, place, register, hd, rl2.rows, ok_bind,
    List.foldlM_nil, pure_bind]
  cases e : t2.indexs with
  | nil => exact ⟨_, rfl⟩
  | cons index rest =>
    dsimp only
    split
    · rename_i temp
      apply dropUniqueIndex_returns rl2
      intro i _ _
      have cons : t2.headers = index.header :: rest.map UniqueIndex.header := by
        rw [Table.headers, e]
        rfl
      apply upd t2 ca
      refine ⟨index.header, ?_, temp⟩
      rw [headers] at cons
      rw [cons] at few ⊢
      rw [List.length_cons] at few
      rw [List.length_eq_zero_iff.mp (by omega : (rest.map UniqueIndex.header).length = 0)]
    · exact ⟨_, rfl⟩

/-- On a table without rows a column is taken out of an index. -/
lemma deleteCol_returns {index : UniqueIndex} {c : ColPtr} (la : Layout t) (rows : t.rows = [])
    (lt : ∀ c ∈ index.cols, c < t.colPhy) :
    ∃ index', index.deleteCol hashCombine t c = .ok (index', t) := by
  rw [UniqueIndex.deleteCol]
  split
  · have lt' : ∀ x ∈ index.cols.erase c, x < t.colPhy := fun x h => lt x (List.mem_of_mem_erase h)
    exact ⟨_, @buildIndex_rowless _ _ { index with cols := index.cols.erase c } la rows lt'⟩
  · exact ⟨index, rfl⟩

/-- On a table without rows a column is taken out of all indexes. -/
lemma deleteColFrom_returns {c : ColPtr} {indexs : List UniqueIndex} (la : Layout t)
    (rows : t.rows = []) (lt : ∀ index ∈ indexs, ∀ c ∈ index.cols, c < t.colPhy) :
    ∃ s, Table.deleteColFrom hashCombine c indexs t = .ok s := by
  induction indexs with
  | nil => exact ⟨_, rfl⟩
  | cons index rest ih =>
    obtain ⟨index', del⟩ := @deleteCol_returns hashCombine _ _ c la rows
      (lt index List.mem_cons_self)
    obtain ⟨s, more⟩ := ih fun index mem => lt index (List.mem_cons_of_mem _ mem)
    rw [Table.deleteColFrom, del, ok_bind]
    simp only [more]
    exact ⟨_, rfl⟩

/-- DROPCOL needs the column, and `updated_at` if no index is left. -/
lemma dropColumn_returns {name : Str} {c : ColPtr} (rl : Rowless t)
    (find : t.colDes.find? (t.hasName name) = some c)
    (upd : t.headersWithout c = [] → HasUpd t.updCol (t.colDes.erase c)) :
    ∃ t', t.dropColumn hashCombine name = .ok t' := by
  obtain ⟨s, del⟩ := @deleteColFrom_returns hashCombine _ c _ rl.layout rl.rows rl.cols_lt
  obtain ⟨same, rl1⟩ := rl.colErased del
  have hd := deleteColFrom_headers del
  rw [Table.dropColumn, find]
  simp only [del, ok_bind, same]
  split
  · rename_i none
    have last : t.headersWithout c = [] := by
      rw [Table.headersWithout, Table.headers, ← hd, List.isEmpty_iff.mp none]
      rfl
    obtain ⟨t3, run⟩ := @pushTemp_returns hashCombine _ rl1 (upd last)
    rw [run]
    exact ⟨_, rfl⟩
  · exact ⟨_, rfl⟩

/-- `changeCol` returns on a column that is there. -/
lemma changeCol_returns {col : ColumnStatement} {prevName : Str} {c : ColPtr} (la : Layout t)
    (find : t.colDes.find? (t.hasName prevName) = some c) :
    ∃ t', t.changeCol col prevName = .ok t' := by
  obtain ⟨d, hd, _⟩ := la.col (la.lt c (List.mem_of_find?_eq_some find))
  rw [Table.changeCol, find]
  simp only [Table.col, hd, deref_some, ok_bind]
  exact ⟨_, rfl⟩

/-- The index loop of CREATE. -/
lemma pushIndexs_returns {indexs : List IndexStatement} (rl : Rowless t)
    (find : ∀ stat ∈ indexs, ∀ colStr ∈ stat.keys, ∃ c, t.colDes.find? (t.hasName colStr) = some c) :
    ∃ t', indexs.foldlM (Table.pushIndex hashCombine) t = .ok t' := by
  induction indexs generalizing t with
  | nil => exact ⟨_, rfl⟩
  | cons stat indexs ih =>
    obtain ⟨index, run⟩ := @named_returns hashCombine _ stat.name _ stat.isPrimaryKey rl
      (find stat List.mem_cons_self)
    have push : t.pushIndex hashCombine stat = .ok { t with indexs := t.indexs ++ [index] } := by
      rw [Table.pushIndex, run]
      rfl
    have rl' := (pushIndex_rowless rl push).1
    rw [List.foldlM_cons, push, ok_bind]
    exact ih rl' fun stat mem => find stat (List.mem_cons_of_mem _ mem)

/-- CREATE needs the columns of its keys, and `updated_at` if it has no key. -/
lemma fillCreate_returns {cols : List ColumnStatement} {indexs : List IndexStatement} {t1 : Table}
    (add : cols.foldlM (fun t col => t.addColumnOf hashCombine col none) Table.new = .ok t1)
    (find : ∀ stat ∈ indexs, ∀ colStr ∈ stat.keys, ∃ c, t1.colDes.find? (t1.hasName colStr) = some c)
    (upd : indexs = [] → HasUpd t1.updCol t1.colDes) :
    ∃ t', Table.new.fillCreate hashCombine cols indexs = .ok t' := by
  obtain ⟨rl1, _, _⟩ := (addColumns_bare Rowless.new rfl).of_ok add
  obtain ⟨t2, push⟩ := @pushIndexs_returns hashCombine _ _ rl1 find
  rw [Table.fillCreate, add, ok_bind, push, ok_bind]
  split
  · rename_i none
    have none := List.isEmpty_iff.mp none
    rw [none] at push
    cases push
    exact pushTemp_returns rl1 (upd none)
  · exact ⟨_, rfl⟩

/-- An empty batch is merged if the table has one index. -/
lemma insertRows_nil {h : Header} (one : t.headers = [h]) : t.insertRows hashCombine [] = .ok t := by
  have indexs : ∃ index, t.indexs = [index] ∧ index.header = h := by
    rw [Table.headers, List.map_eq_singleton_iff] at one
    exact one
  obtain ⟨index, single, _⟩ := indexs
  rw [Table.insertRows, single]
  show Except.ok { t with indexs := [index] } = .ok t
  rw [← single]

end

end TdsqlMerge.Store
