import TdsqlMerge.Store.ParserSafety

/-!
# Statements that cannot be applied

`Statement.Inapplicable` lists why an ALTER cannot be applied to a table. `refused_iff` says when such a
statement is refused without a trace: ADDCOL, DROPCOL and CHANGECOL look their column up before they touch the
table, and ADDINDEX looks at the indexes first, but then deletes the temporary one and dereferences the
result of `std::find_if` for each of its columns without looking at it.
-/

namespace TdsqlMerge.Store
open Lib

/-- No column of the table has the name. -/
def Table.Lacks (t : Table) (name : Str) : Prop := ∀ c ∈ t.colDes, t.hasName name c = false

/-- The table has exactly one index, and it is temporary. -/
def Table.OneTemp (t : Table) : Prop := ∃ index, t.indexs = [index] ∧ index.isTemp = true

/-- The statement names a column that the table lacks, or adds an index to a table without exactly one
    temporary index. -/
def Statement.Inapplicable (t : Table) : Statement → Prop
  | .addCol _ insAfter => ∃ after, insAfter = some after ∧ t.Lacks after
  | .dropCol colName => t.Lacks colName
  | .changeCol _ prevName => t.Lacks prevName
  | .addIndex _ _ cols => (∃ name ∈ cols, t.Lacks name) ∨ ¬ t.OneTemp
  | .create .. | .nothing | .dropIndex .. => False

/-- The columns over which a statement adds an index. -/
def Statement.indexedCols : Statement → Option (List Str)
  | .addIndex _ _ cols => some cols
  | _ => none

/-- `t'` is `t`, with memory allocated that nothing in it points to. -/
structure Untouched (t t' : Table) : Prop where
  colPhy : t'.colPhy = t.colPhy
  colDes : t'.colDes = t.colDes
  updCol : t'.updCol = t.updCol
  nameToColDes : t'.nameToColDes = t.nameToColDes
  rows : t'.rows = t.rows
  indexs : t'.indexs = t.indexs
  rowHeap : t'.rowHeap = t.rowHeap
  descriptors : ∀ c < t.colHeap.length, t'.colHeap[c]? = t.colHeap[c]?

/-- A table is untouched by nothing. -/
lemma Untouched.refl {t : Table} : Untouched t t := by
  refine ⟨rfl, rfl, rfl, rfl, rfl, rfl, rfl, ?_⟩
  intro c _
  rfl

/-- The descriptor of the column to add is allocated before anything is looked up. -/
lemma Untouched.newCol {t : Table} {d : ColumnDescriptor} : Untouched t (t.newCol d) := by
  refine ⟨rfl, rfl, rfl, rfl, rfl, rfl, rfl, ?_⟩
  intro c lt
  exact List.getElem?_append_left lt

/-- Does `fillToTable` throw, and leave the table as it was? -/
def Statement.Refused (hashCombine : UInt64 → Str → UInt64) (t : Table) (statement : Statement) : Prop :=
  ∃ what left, statement.fillToTable hashCombine t = .error (.throw what left) ∧ Untouched t left

section
variable {hashCombine : UInt64 → Str → UInt64} {t : Table} {name : Str}

/-- A name that the table lacks finds no column. -/
lemma Table.Lacks.find (lacks : t.Lacks name) : t.colDes.find? (t.hasName name) = none := by
  rw [List.find?_eq_none]
  intro c mem
  rw [lacks c mem]
  exact Bool.false_ne_true

/-- A descriptor that no column points to has no say in the lookup. -/
lemma Table.Lacks.findIdx_newCol {d : ColumnDescriptor} (la : Layout t) (lacks : t.Lacks name) :
    (t.newCol d).colDes.findIdx? ((t.newCol d).hasName name) = none := by
  rw [List.findIdx?_eq_none_iff]
  intro c mem
  have lt : c < t.colHeap.length := by
    rw [la.heap_length]
    exact la.lt c mem
  rw [Table.hasName, Table.newCol, List.getElem?_append_left lt]
  exact lacks c mem

/-- The columns of a named index are dereferenced without a check. -/
lemma named_lacking {colStrs : List Str} {indexName : Str} {isPrimary : Bool}
    (missing : ∃ name ∈ colStrs, t.Lacks name) :
    UniqueIndex.named hashCombine t indexName colStrs isPrimary = .error .ub := by
  have ends : (colStrs.mapM fun colStr => deref (t.colDes.find? (t.hasName colStr))) =
      (.error .ub : Res (List ColPtr)) := by
    induction colStrs with
    | nil =>
      obtain ⟨name, mem, _⟩ := missing
      cases mem
    | cons colStr rest ih =>
      rw [List.mapM_cons]
      cases find : t.colDes.find? (t.hasName colStr) with
      | none => rfl
      | some c =>
        rw [deref_some, ok_bind, ih]
        · rfl
        · obtain ⟨name, mem, lacks⟩ := missing
          rcases List.mem_cons.mp mem with rfl | mem
          · rw [lacks.find] at find
            cases find
          · exact ⟨name, mem, lacks⟩
  rw [UniqueIndex.named, ends]
  rfl

/-- Without exactly one temporary index, ADDINDEX throws at once. -/
lemma addUniqueIndex_throws {colNames : List Str} {isPrimary : Bool} (not : ¬ t.OneTemp) :
    ∃ what, t.addUniqueIndex hashCombine name colNames isPrimary = .error (.throw what t) := by
  rw [Table.addUniqueIndex]
  split
  · rename_i index one
    split
    · rename_i temp
      exact absurd ⟨index, one, temp⟩ not
    · exact ⟨_, rfl⟩
  · exact ⟨_, rfl⟩

/-- With one, it has deleted the index before it reads the column it lacks. -/
lemma addUniqueIndex_lacking {colNames : List Str} {isPrimary : Bool} (temp : t.OneTemp)
    (missing : ∃ name ∈ colNames, t.Lacks name) :
    t.addUniqueIndex hashCombine name colNames isPrimary = .error .ub := by
  obtain ⟨index, one, temp⟩ := temp
  have lost : UniqueIndex.named hashCombine { t with indexs := [] } name colNames isPrimary = .error .ub :=
    named_lacking missing
  rw [Table.addUniqueIndex, one]
  dsimp only
  rw [if_pos temp, lost]
  rfl

/-- What throws over a table that is left as it was is refused. -/
lemma refused_of_throws {statement : Statement} {left : Table}
    (throws : ∃ what, statement.fillToTable hashCombine t = .error (.throw what left)) (same : Untouched t left)
    (plain : statement.indexedCols = none) :
    statement.Refused hashCombine t ↔ ¬ ((∃ cols, statement.indexedCols = some cols) ∧ t.OneTemp) := by
  obtain ⟨what, throws⟩ := throws
  refine iff_of_true ⟨what, left, throws, same⟩ ?_
  rintro ⟨⟨cols, e⟩, _⟩
  rw [plain] at e
  cases e

/-- A statement that cannot be applied is refused without a trace, unless it is an ADDINDEX on a table with
    exactly one temporary index. -/
theorem refused_iff {statement : Statement} (re : Built hashCombine t) (bad : statement.Inapplicable t) :
    statement.Refused hashCombine t ↔
      ¬ ((∃ cols, statement.indexedCols = some cols) ∧ t.OneTemp) := by
  cases statement with
  | create name cols indexs => exact bad.elim
  | nothing => exact bad.elim
  | dropIndex isPrimary indexName => exact bad.elim
  | addCol col insAfter =>
    obtain ⟨after, rfl, lacks⟩ := bad
    have throws : ∃ what, Statement.fillToTable hashCombine t (.addCol col (some after)) =
        .error (.throw what (t.newCol (.new col.name col.type col.defaultStr))) := by
      rw [Statement.fillToTable, Table.addColumnOf, Table.addColumn, Table.placeColumn,
        lacks.findIdx_newCol re.layout]
      exact ⟨_, rfl⟩
    exact refused_of_throws throws .newCol rfl
  | dropCol colName =>
    have throws : ∃ what, Statement.fillToTable hashCombine t (.dropCol colName) = .error (.throw what t) := by
      rw [Statement.fillToTable, Table.dropColumn, Table.Lacks.find bad]
      exact ⟨_, rfl⟩
    exact refused_of_throws throws .refl rfl
  | changeCol col prevName =>
    have throws : ∃ what,
        Statement.fillToTable hashCombine t (.changeCol col prevName) = .error (.throw what t) := by
      rw [Statement.fillToTable, Table.changeCol, Table.Lacks.find bad]
      exact ⟨_, rfl⟩
    exact refused_of_throws throws .refl rfl
  | addIndex isPrimary indexName cols =>
    rw [Statement.Refused, Statement.fillToTable]
    by_cases temp : t.OneTemp
    · have missing := bad.resolve_right (not_not_intro temp)
      rw [addUniqueIndex_lacking temp missing]
      refine iff_of_false ?_ fun not => not ⟨⟨_, rfl⟩, temp⟩
      rintro ⟨what, left, ends, _⟩
      cases ends
    · obtain ⟨what, throws⟩ := addUniqueIndex_throws temp
      exact iff_of_true ⟨what, t, throws, .refl⟩ fun h => temp h.2

end

/-- The column to drop is not there. -/
theorem missing_column_refused : ∃ t, keyedTable ["id", "a", "updated_at"] = .ok t ∧
    (Statement.dropCol "b".toList).Refused Store.hashCombine t := by
  have run : ((keyedTable ["id", "a", "updated_at"]).toOption.any fun t =>
      ∀ c ∈ t.colDes, t.hasName "b".toList c = false) = true := by
    decide +kernel
  obtain ⟨t, run, lacks⟩ := ok_of_any run
  have lacks : ∀ c ∈ t.colDes, t.hasName "b".toList c = false := of_decide_eq_true lacks
  refine ⟨t, run, (@refused_iff _ t (.dropCol "b".toList) (.statement .new run) lacks).mpr ?_⟩
  rintro ⟨⟨_, e⟩, _⟩
  cases e

/-- A table `(id, updated_at)` without keys. -/
def bareTable : Res Table :=
  Statement.fillToTable Store.hashCombine .new (.create "t".toList
    [{ name := "id".toList, type := "int".toList, isNotNull := true, defaultStr := none },
      { name := updatedAt, type := "datetime".toList, isNotNull := true, defaultStr := none }] [])

/-- A key over a column that does not exist meets its temporary index. -/
theorem addIndex_not_refused : ¬ ∀ (hashCombine : UInt64 → Str → UInt64) (t : Table) (ddl : Str)
    (statement : Statement), Built hashCombine t → Statement.getStatement ddl = .ok statement →
    statement.isAlter = true → statement.Inapplicable t → statement.Refused hashCombine t := by
  intro claim
  have run : (bareTable.toOption.any fun t => (∀ c ∈ t.colDes, t.hasName "b".toList c = false) ∧
      t.indexs.map UniqueIndex.isTemp = [true]) = true := by
    decide +kernel
  obtain ⟨t, run, h⟩ := ok_of_any run
  obtain ⟨lacks, temp⟩ := of_decide_eq_true h
  have built : Built Store.hashCombine t := .statement .new run
  have read : ((Statement.getStatement "ALTER\nADDINDEX\n1\n1\nb\n".toList).toOption.any fun statement =>
      statement.indexedCols = some ["b".toList]) = true := by
    decide +kernel
  obtain ⟨statement, read, adds⟩ := (Option.any_eq_true _ _).mp read
  have missing : ∃ name ∈ ["b".toList], t.Lacks name := ⟨_, List.mem_singleton.mpr rfl, lacks⟩
  obtain ⟨index, one, temp⟩ := List.map_eq_singleton_iff.mp temp
  cases statement with
  | addIndex isPrimary indexName cols =>
    obtain rfl : cols = ["b".toList] := Option.some.inj (of_decide_eq_true adds)
    obtain ⟨what, left, throws, _⟩ := claim _ t _ _ built (ok_of_toOption read) rfl (Or.inl missing)
    rw [Statement.fillToTable, addUniqueIndex_lacking ⟨index, one, temp⟩ missing] at throws
    cases throws
  | _ => cases of_decide_eq_true adds

end TdsqlMerge.Store
