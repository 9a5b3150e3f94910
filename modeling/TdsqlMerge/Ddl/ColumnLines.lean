import TdsqlMerge.Ddl.Files

/-!
# The lines of a column

`DDLCompatWriter` has three copies of the code that writes a column: in CREATE TABLE, in ADD COLUMN and in
CHANGE COLUMN. Each writes the name, the type, whether the column is NOT NULL, and the default. CREATE TABLE
strips the backquotes of the name, the others do not; ADD COLUMN looks at the first constraint only, the
others look through all of them. `writers_agree_iff` says for which definitions the copies agree, and
`read_written` what the loader reads in each place.
-/

namespace TdsqlMerge.Ddl
open Lib Splitter Store

/-- The number of lines of a column. -/
def lineCount (d : SQLColumnDefinition) : Nat := if d.defaultExpr.isSome then 5 else 4

/-- A place of a column definition in a statement. Of an ALTER TABLE the first item is written, and of an
    ADD COLUMN the first column. -/
inductive Occurrence where
  | create (tableName : SQLName) (before after : List SQLColumnDefinition) (mysqlKeys : List MySqlKey)
  | addColumn (tableName : SQLName) (columns : List SQLColumnDefinition) (placement : Placement)
      (items : List SQLAlterTableItem)
  | changeColumn (tableName columnName : SQLName) (placement : Placement) (items : List SQLAlterTableItem)

namespace Occurrence

/-- The statement with the definition in this place. -/
def statement (d : SQLColumnDefinition) : Occurrence → SQLStatement
  | create tableName before after mysqlKeys => .createTable tableName (before ++ d :: after) mysqlKeys
  | addColumn tableName columns placement items =>
    .alterTable tableName (.addColumn (d :: columns) placement :: items)
  | changeColumn tableName columnName placement items =>
    .alterTable tableName (.changeColumn columnName d placement :: items)

/-- The number of lines in front of the column: the kind of the statement, the name of the table, the number
    of columns and the columns before; or the kinds of the statement and of its item. -/
def linesBefore : Occurrence → Nat
  | create _ before _ _ => 3 + (before.map lineCount).sum
  | _ => 2

/-- The lines that are written for the column. -/
def lines (o : Occurrence) (d : SQLColumnDefinition) : Option (List Str) :=
  (writeDDLCompat (o.statement d)).map fun ls => (ls.drop o.linesBefore).take (lineCount d)

/-- The column of the statement that is read from the file. -/
def column : Occurrence → Statement → Option ColumnStatement
  | create _ before _ _, .create _ columns _ => columns[before.length]?
  | addColumn .., .addCol colStat _ => some colStat
  | changeColumn .., .changeCol colStat _ => some colStat
  | _, _ => none

end Occurrence

/-- Every copy writes the same lines for the column, and its not-null line is 1 exactly if it has a NOT NULL
    constraint. -/
def WritersAgree (d : SQLColumnDefinition) : Prop :=
  ∃ lines, (∀ o : Occurrence, o.lines d = some lines) ∧
    (lines[2]? = some ['1'] ↔ .notNull ∈ d.constraints)

/-! ### What each copy writes -/

/-- The lines of a column with this name and flag. -/
def columnLines (d : SQLColumnDefinition) (name : Str) (isNotNull : Bool) : List Str :=
  [name, d.dataType, flagLine isNotNull] ++ optionLines (d.defaultExpr.map (replace '\''))

namespace Occurrence

/-- The name as it is written in this place. -/
def nameLine (d : SQLColumnDefinition) : Occurrence → Str
  | create .. => replace '`' d.columnName.getSimpleName
  | _ => d.columnName.getSimpleName

/-- Whether the column is found to be NOT NULL in this place. -/
def isNotNull (d : SQLColumnDefinition) : Occurrence → Bool
  | addColumn .. => d.constraints[0]? = some .notNull
  | _ => checkIfNotNull d.constraints

end Occurrence

section
variable {d : SQLColumnDefinition} {name name' : Str} {b b' : Bool} {o : Occurrence}

/-- A column takes as many lines as are counted for it. -/
@[simp] lemma columnLines_length : (columnLines d name b).length = lineCount d := by
  rw [columnLines, lineCount]
  cases d.defaultExpr <;> rfl

/-- The lines of a column tell its name and its flag. -/
lemma columnLines_inj : columnLines d name b = columnLines d name' b' ↔ name = name' ∧ b = b' := by
  cases b <;> cases b' <;> simp [columnLines, flagLine]

/-- The third line of a column is its flag. -/
lemma columnLines_flag : (columnLines d name b)[2]? = some ['1'] ↔ b = true := by
  cases b <;> simp [columnLines, flagLine]

/-- A column of a CREATE TABLE takes as many lines as are counted for it. -/
lemma createColumn_length : (createColumn d).length = lineCount d := columnLines_length

/-- The lines of a column in the middle of a file. -/
lemma lines_between {front rest : List Str} {n : Nat} (len : front.length = n) :
    ((front ++ (columnLines d name b ++ rest)).drop n).take (lineCount d) = columnLines d name b := by
  rw [List.drop_left' len, List.take_left' columnLines_length]

/-- Each copy writes the type and the default as they are; they differ in the name and the flag. -/
lemma Occurrence.lines_eq : o.lines d = some (columnLines d (o.nameLine d) (o.isNotNull d)) := by
  cases o with
  | create tableName before after mysqlKeys =>
    let realKeys := mysqlKeys.filter fun key => key.type.isSome
    let front := ["CREATE".toList, replace '`' tableName.getSimpleName,
      intToString (before ++ d :: after).length] ++ before.flatMap createColumn
    let rest := after.flatMap createColumn ++ ([intToString realKeys.length] ++ realKeys.flatMap createKey)
    have written : writeDDLCompat ((create tableName before after mysqlKeys).statement d) =
        some (front ++ (createColumn d ++ rest)) := by
      simp [front, rest, realKeys, statement, writeDDLCompat, dealCreateTable]
    have len : front.length = 3 + (before.map lineCount).sum := by
      simp only [front, List.length_append, List.length_flatMap, createColumn_length]
      rfl
    rw [lines, written]
    exact congrArg some (lines_between len)
  | addColumn tableName columns placement items =>
    have written : ∃ rest, writeDDLCompat ((addColumn tableName columns placement items).statement d) =
        some (["ALTER".toList, "ADDCOL".toList] ++ (columnLines d d.columnName.getSimpleName
          (d.constraints[0]? = some .notNull) ++ rest)) := by
      cases placement with
      | after afterColumn =>
        refine ⟨[['1'], replace '`' afterColumn.getSimpleName, []], ?_⟩
        simp [statement, writeDDLCompat, dealAlterTable, dealAddColumn, columnLines]
      | _ =>
        refine ⟨[['0']], ?_⟩
        simp [statement, writeDDLCompat, dealAlterTable, dealAddColumn, columnLines]
    obtain ⟨rest, written⟩ := written
    rw [lines, written]
    exact congrArg some (lines_between rfl)
  | changeColumn tableName columnName placement items =>
    have written : writeDDLCompat ((changeColumn tableName columnName placement items).statement d) =
        some (["ALTER".toList, "CHANGECOL".toList] ++ (columnLines d d.columnName.getSimpleName
          (checkIfNotNull d.constraints) ++ [columnName.getSimpleName])) := by
      simp [statement, writeDDLCompat, dealAlterTable, dealChangeColumn, columnLines, checkIfNotNull]
    rw [lines, written]
    exact congrArg some (lines_between rfl)

/-- `checkIfNotNull` looks for the constraint. -/
lemma checkIfNotNull_iff {constraints : List SQLColumnConstraint} :
    checkIfNotNull constraints = true ↔ .notNull ∈ constraints := by
  simp [checkIfNotNull]

/-- The copies agree on a column exactly if its name has no backquotes and NOT NULL, if it is there, is its
    first constraint. -/
theorem writers_agree_iff (d : SQLColumnDefinition) :
    WritersAgree d ↔ '`' ∉ d.columnName.getSimpleName ∧
      (.notNull ∈ d.constraints → d.constraints.head? = some .notNull) := by
  rw [List.head?_eq_getElem?]
  constructor
  · rintro ⟨ls, agree, flag⟩
    have create := agree (.create ⟨[], false⟩ [] [] [])
    have addColumn := agree (.addColumn ⟨[], false⟩ [] .none [])
    rw [Occurrence.lines_eq, Option.some_inj] at create addColumn
    subst create
    obtain ⟨name, isNotNull⟩ := columnLines_inj.mp addColumn
    have isNotNull : decide (d.constraints[0]? = some .notNull) = checkIfNotNull d.constraints := isNotNull
    refine ⟨replace_eq_self.mp name.symm, fun mem => ?_⟩
    rw [checkIfNotNull_iff.mpr mem] at isNotNull
    exact of_decide_eq_true isNotNull
  · rintro ⟨bare, first⟩
    refine ⟨columnLines d d.columnName.getSimpleName (checkIfNotNull d.constraints), fun o => ?_,
      columnLines_flag.trans checkIfNotNull_iff⟩
    have name : o.nameLine d = d.columnName.getSimpleName := by
      cases o with
      | create => exact replace_eq_self.mpr bare
      | _ => rfl
    have isNotNull : o.isNotNull d = checkIfNotNull d.constraints := by
      cases o with
      | addColumn =>
        rw [Occurrence.isNotNull, Bool.eq_iff_iff, decide_eq_true_iff, checkIfNotNull_iff]
        exact ⟨List.mem_of_getElem?, first⟩
      | _ => rfl
    rw [Occurrence.lines_eq, name, isNotNull]

/-- `c int UNIQUE NOT NULL` is written as NULL in ADD COLUMN. -/
theorem not_writers_agree : ¬ WritersAgree
    { columnName := ⟨"c".toList, false⟩, dataType := "int".toList, constraints := [.unique, .notNull],
      defaultExpr := none } := by
  rintro ⟨ls, agree, _⟩
  have create := agree (.create ⟨"t".toList, false⟩ [] [] [])
  have addColumn := agree (.addColumn ⟨"t".toList, false⟩ [] .none [])
  rw [← create] at addColumn
  exact absurd addColumn (by decide)

/-! ### What the loader reads -/

/-- The loader reads the lines of each place as a column with the name and the flag that were written there. -/
theorem Occurrence.read_written (plain : Plain (texts (o.statement d)))
    (few : ∀ n ∈ counts (o.statement d), n < 2 ^ 31) :
    ∃ stmt, Statement.getStatement (ddlText (o.statement d)) = .ok stmt ∧
      o.column stmt = some { loadColumn d (o.isNotNull d) with name := o.nameLine d } := by
  have loaded : ∃ stmt, load (o.statement d) = some stmt ∧
      o.column stmt = some { loadColumn d (o.isNotNull d) with name := o.nameLine d } := by
    cases o with
    | create tableName before after mysqlKeys =>
      refine ⟨_, rfl, ?_⟩
      rw [column, List.map_append, List.map_cons, List.getElem?_append_right (by simp)]
      simp [loadCreated, loadColumn, nameLine, isNotNull]
    | addColumn tableName columns placement items => exact ⟨_, rfl, rfl⟩
    | changeColumn tableName columnName placement items => exact ⟨_, rfl, rfl⟩
  obtain ⟨stmt, ld, col⟩ := loaded
  exact ⟨stmt, getStatement_written ld few plain, col⟩

end

end TdsqlMerge.Ddl
