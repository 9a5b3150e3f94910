import TdsqlMerge.Splitter.DDLCompatWriter
import TdsqlMerge.Store.Statement

/-!
# From the writer to the loader

`DDLCompatWriter` writes a statement line by line and `Statement::getStatement` reads it back.
`getStatement_written` says what the loader makes of a written statement (`load`): a table is read in
full, of an ALTER TABLE only the first item and its first column, and no placement but AFTER of a new
column. It needs every text of the statement to stay within its line.
-/

namespace TdsqlMerge.Ddl
open Lib Splitter Store

/-! ### The texts and counts of a statement -/

/-- The name, type and default of a column. -/
def columnTexts (d : SQLColumnDefinition) : List Str :=
  [d.columnName.getSimpleName, d.dataType] ++ d.defaultExpr.toList

/-- The names in a key. -/
def partTexts (parts : List SQLSelectOrderByItem) : List Str :=
  parts.map fun item => item.expr.getSimpleName

/-- The name of a key and the names in it. -/
def keyTexts (key : MySqlKey) : List Str :=
  (key.name.map SQLName.getSimpleName).toList ++ partTexts key.columns

/-- The name that a column is placed after. -/
def placementTexts : Placement → List Str
  | .after n => [n.getSimpleName]
  | _ => []

/-- The names, types and defaults of an item. -/
def itemTexts : SQLAlterTableItem → List Str
  | .addColumn columns placement => columns.flatMap columnTexts ++ placementTexts placement
  | .dropColumn columns => columns.map SQLName.getSimpleName
  | .dropIndex n => [n.getSimpleName]
  | .addConstraint (.primaryKey parts) => partTexts parts
  | .addConstraint (.unique name parts) => (name.map SQLName.getSimpleName).toList ++ partTexts parts
  | .changeColumn n d placement => n.getSimpleName :: columnTexts d ++ placementTexts placement
  | _ => []

/-- The names, types and defaults of a statement. -/
def texts : SQLStatement → List Str
  | .createTable tableName columnDefinitions mysqlKeys =>
    tableName.getSimpleName :: columnDefinitions.flatMap columnTexts ++ mysqlKeys.flatMap keyTexts
  | .alterTable _ items => items.flatMap itemTexts
  | _ => []

/-- The lengths of the lists of an item. -/
def itemCounts : SQLAlterTableItem → List Nat
  | .addConstraint (.primaryKey parts) => [parts.length]
  | .addConstraint (.unique _ parts) => [parts.length]
  | _ => []

/-- The lengths of the lists of a statement. -/
def counts : SQLStatement → List Nat
  | .createTable _ columnDefinitions mysqlKeys =>
    [columnDefinitions.length, mysqlKeys.length] ++ mysqlKeys.map fun key => key.columns.length
  | .alterTable _ items => items.flatMap itemCounts
  | _ => []

/-! ### What the loader makes of a statement -/

/-- A column of a CREATE TABLE. -/
def loadCreated (d : SQLColumnDefinition) : ColumnStatement where
  name := replace '`' d.columnName.getSimpleName
  type := d.dataType
  isNotNull := checkIfNotNull d.constraints
  defaultStr := d.defaultExpr.map (replace '\'')

/-- A key of a CREATE TABLE. -/
def loadKey (key : MySqlKey) : IndexStatement where
  name := (key.name.map SQLName.getSimpleName).getD []
  isPrimaryKey := key.isPrimary
  keys := key.columns.map fun item => replace '`' item.toString

/-- A column of an ALTER TABLE. -/
def loadColumn (d : SQLColumnDefinition) (isNotNull : Bool) : ColumnStatement where
  name := d.columnName.getSimpleName
  type := d.dataType
  isNotNull
  defaultStr := d.defaultExpr.map (replace '\'')

/-- The column to insert after. -/
def loadPlacement : Placement → Option Str
  | .after n => some (replace '`' n.getSimpleName)
  | _ => none

/-- What the loader makes of the first item. -/
def loadItem : SQLAlterTableItem → Option Statement
  | .addColumn columns placement => do
    let d ← columns[0]?
    some (.addCol (loadColumn d (d.constraints[0]? = some .notNull)) (loadPlacement placement))
  | .dropColumn columns => do
    let n ← columns[0]?
    some (.dropCol n.getSimpleName)
  | .addIndex => some .nothing
  | .dropIndex n => some (.dropIndex false n.getSimpleName)
  | .dropPrimaryKey => some (.dropIndex true [])
  | .addConstraint (.primaryKey parts) =>
    some (.addIndex true [] (parts.map SQLSelectOrderByItem.toString))
  | .addConstraint (.unique (some n) parts) =>
    some (.addIndex false n.getSimpleName (parts.map SQLSelectOrderByItem.toString))
  | .changeColumn n d _ =>
    some (.changeCol (loadColumn d (checkIfNotNull d.constraints)) n.getSimpleName)
  | _ => none

/-- The statement the loader reads from the file of a statement. -/
def load : SQLStatement → Option Statement
  | .createTable tableName columnDefinitions mysqlKeys =>
    some (.create (replace '`' tableName.getSimpleName) (columnDefinitions.map loadCreated)
      ((mysqlKeys.filter fun key => key.type.isSome).map loadKey))
  | .alterTable _ items => do
    let item ← items[0]?
    loadItem item
  | _ => none

/-- The items that are loaded, with what they are loaded as. -/
inductive LoadedItem : SQLAlterTableItem → Statement → Prop where
  | addColumn {d : SQLColumnDefinition} {columns : List SQLColumnDefinition} {placement : Placement} :
    LoadedItem (.addColumn (d :: columns) placement)
      (.addCol (loadColumn d (d.constraints[0]? = some .notNull)) (loadPlacement placement))
  | dropColumn {n : SQLName} {columns : List SQLName} :
    LoadedItem (.dropColumn (n :: columns)) (.dropCol n.getSimpleName)
  | addIndex : LoadedItem .addIndex .nothing
  | dropIndex {n : SQLName} : LoadedItem (.dropIndex n) (.dropIndex false n.getSimpleName)
  | dropPrimaryKey : LoadedItem .dropPrimaryKey (.dropIndex true [])
  | primaryKey {parts : List SQLSelectOrderByItem} :
    LoadedItem (.addConstraint (.primaryKey parts))
      (.addIndex true [] (parts.map SQLSelectOrderByItem.toString))
  | unique {n : SQLName} {parts : List SQLSelectOrderByItem} :
    LoadedItem (.addConstraint (.unique (some n) parts))
      (.addIndex false n.getSimpleName (parts.map SQLSelectOrderByItem.toString))
  | changeColumn {n : SQLName} {d : SQLColumnDefinition} {placement : Placement} :
    LoadedItem (.changeColumn n d placement)
      (.changeCol (loadColumn d (checkIfNotNull d.constraints)) n.getSimpleName)

/-- The items that are loaded. -/
lemma loadItem_inv {item : SQLAlterTableItem} {stmt : Statement} (ld : loadItem item = some stmt) :
    LoadedItem item stmt := by
  cases item with
  | addColumn columns placement =>
    cases columns with
    | nil => cases ld
    | cons d columns =>
      cases ld
      exact .addColumn
  | dropColumn columns =>
    cases columns with
    | nil => cases ld
    | cons n columns =>
      cases ld
      exact .dropColumn
  | addIndex =>
    cases ld
    exact .addIndex
  | dropIndex n =>
    cases ld
    exact .dropIndex
  | dropPrimaryKey =>
    cases ld
    exact .dropPrimaryKey
  | addConstraint constraint =>
    cases constraint with
    | primaryKey parts =>
      cases ld
      exact .primaryKey
    | unique name parts =>
      cases name with
      | none => cases ld
      | some n =>
        cases ld
        exact .unique
    | other => cases ld
  | changeColumn n d placement =>
    cases ld
    exact .changeColumn
  | other => cases ld

/-- The items of an ALTER TABLE that are loaded are altering statements. -/
lemma loadItem_isAlter {item : SQLAlterTableItem} {stmt : Statement} (ld : loadItem item = some stmt) :
    stmt.isAlter = true := by
  cases loadItem_inv ld with
  | _ => rfl

/-- The `.ddl` file of a statement. An exception leaves the buffer of the writer unwritten. -/
def ddlText (st : SQLStatement) : Str := unlines ((writeDDLCompat st).getD [])

/-! ### Reading lines back -/

section
variable {ls : List Str} {s : Str}

/-- `replace` brings in no line break. -/
lemma not_mem_replace {c : Char} (nb : '\n' ∉ s) : '\n' ∉ replace c s :=
  fun mem => nb (List.mem_of_mem_filter mem)

/-- `replace` leaves a text without the character alone. -/
lemma replace_eq_self {c : Char} : replace c s = s ↔ c ∉ s := by
  rw [replace, List.filter_eq_self]
  constructor
  · intro all mem
    exact absurd (all c mem) (by simp)
  · intro out d mem
    simp only [decide_eq_true_eq]
    rintro rfl
    exact out mem

/-- `getLineInt` reads a line that casts to a number. -/
lemma getLineInt_line {n : Int} (cast : lexicalCastInt s = some n) :
    getLineInt (s :: ls) = .ok (n, ls) := by
  rw [getLineInt, Reader.bind_of_ok Reader.getLine_cons]
  simp only [cast]
  rfl

/-- A count is read back if it fits into an `int`. -/
lemma lexicalCastInt_intToString {n : Nat} (lt : n < 2 ^ 31) : lexicalCastInt (intToString n) = some n := by
  have digits : ∀ c ∈ intToString n, c.isDigit = true := fun c mem =>
    Nat.isDigit_of_mem_toDigits (by decide) (by decide) mem
  have value : Nat.ofDigitChars 10 (intToString n) 0 = n := Nat.ofDigitChars_ten_toDigits
  have some : intToString n ≠ [] := Nat.toDigits_ne_nil
  unfold lexicalCastInt
  split
  · rename_i ds e
    have sign := digits '-' (by rw [e]; exact List.mem_cons_self)
    exact absurd sign (by decide)
  · rename_i ds e
    have sign := digits '+' (by rw [e]; exact List.mem_cons_self)
    exact absurd sign (by decide)
  · rw [value, if_pos ⟨some, List.all_eq_true.mpr digits, lt⟩]
    rfl

/-- `getLineInt` reads a count back. -/
lemma getLineInt_count {n : Nat} (lt : n < 2 ^ 31) :
    getLineInt (intToString n :: ls) = .ok ((n : Int), ls) :=
  getLineInt_line (lexicalCastInt_intToString lt)

/-- `getLineInt` reads a flag line back. -/
lemma getLineInt_flag {b : Bool} : getLineInt (flagLine b :: ls) = .ok (if b then 1 else 0, ls) := by
  cases b with
  | true => exact getLineInt_line (by decide)
  | false => exact getLineInt_line (by decide)

/-- A number is written without a line break. -/
lemma not_mem_intToString {n : Nat} : '\n' ∉ intToString n := by
  intro mem
  have digit := Nat.isDigit_of_mem_toDigits (by decide) (by decide) mem
  exact absurd digit (by decide)

/-- A key part is written without a line break. -/
lemma not_mem_toString {item : SQLSelectOrderByItem} (nb : '\n' ∉ item.expr.getSimpleName) :
    '\n' ∉ item.toString := by
  rw [SQLSelectOrderByItem.toString, List.mem_append, List.mem_append, not_or, not_or]
  refine ⟨⟨nb, ?_⟩, ?_⟩
  · cases item.length with
    | none => exact List.not_mem_nil
    | some n =>
      simp only [List.cons_append, List.mem_cons, List.mem_append, List.not_mem_nil, or_false, not_or]
      exact ⟨by decide, not_mem_intToString, by decide⟩
  · cases item.type with
    | none => exact List.not_mem_nil
    | some type =>
      cases type with
      | asc => decide
      | desc => decide

/-- The lines of a column are read as the column. -/
lemma readColumn {name type : Str} {isNotNull : Bool} {default : Option Str} :
    ColumnStatement.read ([name, type, flagLine isNotNull] ++ optionLines default ++ ls) =
      .ok ({ name, type, isNotNull, defaultStr := default }, ls) := by
  have flag : (decide ((if isNotNull then 1 else 0 : Int) ≠ 0)) = isNotNull := by
    cases isNotNull <;> rfl
  simp only [ColumnStatement.read, List.cons_append, List.nil_append]
  rw [Reader.bind_of_ok Reader.getLine_cons, Reader.bind_of_ok Reader.getLine_cons,
    Reader.bind_of_ok getLineInt_flag]
  cases default with
  | none =>
    show (getLineInt >>= _) (flagLine false :: ls) = _
    rw [Reader.bind_of_ok getLineInt_flag]
    show Except.ok _ = _
    rw [flag]
  | some text =>
    show (getLineInt >>= _) (flagLine true :: text :: ls) = _
    rw [Reader.bind_of_ok getLineInt_flag]
    show (Reader.getLine >>= _) (text :: ls) = _
    rw [Reader.bind_of_ok Reader.getLine_cons]
    show Except.ok _ = _
    rw [flag]

/-- The lines of a list of texts are read as the list. -/
lemma readTexts {α : Type} {f : α → Str} {xs : List α} :
    Reader.times Reader.getLine xs.length (xs.map f ++ ls) = .ok (xs.map f, ls) := by
  rw [List.map_eq_flatMap]
  have read := @Reader.times_ok _ _ Reader.getLine (fun x => [f x]) f xs ls
    fun x _ ls => Reader.getLine_cons
  rw [read, List.map_eq_flatMap]

/-- The reader reads a column of a CREATE TABLE back. -/
lemma readCreated {d : SQLColumnDefinition} :
    ColumnStatement.read (createColumn d ++ ls) = .ok (loadCreated d, ls) :=
  readColumn

/-- The lines of a key are read as the key. -/
lemma readKey {key : MySqlKey} (lt : key.columns.length < 2 ^ 31) :
    IndexStatement.read (createKey key ++ ls) = .ok (loadKey key, ls) := by
  have flag : (decide ((if key.isPrimary then 1 else 0 : Int) ≠ 0)) = key.isPrimary := by
    cases key.isPrimary <;> rfl
  have rest : ∀ name : Str, (do
      let isPrimary ← getLineInt
      let keyCount ← getLineInt
      let keys ← Reader.times Reader.getLine keyCount.toNat
      pure ({ name, isPrimaryKey := isPrimary ≠ 0, keys } : IndexStatement) : Reader IndexStatement)
      ([flagLine key.isPrimary, intToString key.columns.length] ++
        (key.columns.map fun item => replace '`' item.toString) ++ ls) =
      .ok ({ name, isPrimaryKey := key.isPrimary,
             keys := key.columns.map fun item => replace '`' item.toString }, ls) := by
    intro name
    simp only [List.cons_append, List.nil_append]
    rw [Reader.bind_of_ok getLineInt_flag, Reader.bind_of_ok (getLineInt_count lt), Int.toNat_natCast,
      Reader.bind_of_ok readTexts]
    show Except.ok _ = _
    rw [flag]
  rw [createKey, IndexStatement.read, loadKey]
  cases key.name with
  | none =>
    show (getLineInt >>= _) (flagLine false :: _) = _
    rw [Reader.bind_of_ok getLineInt_flag]
    exact rest []
  | some n =>
    show (getLineInt >>= _) (flagLine true :: n.getSimpleName :: _) = _
    rw [Reader.bind_of_ok getLineInt_flag]
    show (Reader.getLine >>= _) (n.getSimpleName :: _) = _
    rw [Reader.bind_of_ok Reader.getLine_cons]
    exact rest n.getSimpleName

/-- The file of a CREATE TABLE. -/
lemma readCreate {tableName : SQLName} {columnDefinitions : List SQLColumnDefinition}
    {mysqlKeys : List MySqlKey}
    (few : ∀ n ∈ counts (.createTable tableName columnDefinitions mysqlKeys), n < 2 ^ 31) :
    Statement.read (dealCreateTable tableName columnDefinitions mysqlKeys) =
      .ok (.create (replace '`' tableName.getSimpleName) (columnDefinitions.map loadCreated)
        ((mysqlKeys.filter fun key => key.type.isSome).map loadKey), []) := by
  have few_cols : columnDefinitions.length < 2 ^ 31 := few _ (by simp [counts])
  have few_keys : (mysqlKeys.filter fun key => key.type.isSome).length < 2 ^ 31 :=
    lt_of_le_of_lt (List.length_filter_le _ _) (few mysqlKeys.length (by simp [counts]))
  have few_parts : ∀ key ∈ mysqlKeys.filter fun key => key.type.isSome, key.columns.length < 2 ^ 31 := by
    intro key mem
    apply few
    rw [counts]
    exact List.mem_append_right _ (List.mem_map_of_mem (List.mem_of_mem_filter mem))
  rw [dealCreateTable, Statement.read]
  simp only [List.cons_append, List.nil_append, List.append_assoc]
  rw [Reader.bind_of_ok Reader.getLine_cons, if_pos rfl, Statement.readCreate,
    Reader.bind_of_ok Reader.getLine_cons, Reader.bind_of_ok (getLineInt_count few_cols),
    Int.toNat_natCast,
    Reader.bind_of_ok (@Reader.times_ok _ _ _ _ loadCreated _ _ fun d _ ls => readCreated),
    Reader.bind_of_ok (getLineInt_count few_keys), Int.toNat_natCast]
  have read := @Reader.times_ok _ _ IndexStatement.read createKey loadKey _ []
    fun key mem ls => readKey (few_parts key mem)
  rw [List.append_nil] at read
  rw [Reader.bind_of_ok read]
  rfl

/-- ADDCOL; after a column to insert after a line is left over. -/
lemma readAddCol {d : SQLColumnDefinition} {isNotNull : Bool} {placement : Placement} :
    ∃ rest, Statement.readAlter (["ADDCOL".toList, d.columnName.getSimpleName, d.dataType,
        flagLine isNotNull] ++ optionLines (d.defaultExpr.map (replace '\'')) ++
        match placement with
        | .after afterColumn => [['1'], replace '`' afterColumn.getSimpleName, []]
        | _ => [['0']]) =
      .ok (.addCol (loadColumn d isNotNull) (loadPlacement placement), rest) := by
  rw [List.append_assoc, List.cons_append, Statement.readAlter, Reader.bind_of_ok Reader.getLine_cons,
    if_pos rfl, Statement.readAddCol, ← List.append_assoc, Reader.bind_of_ok readColumn]
  cases placement with
  | none =>
    refine ⟨[], ?_⟩
    show (getLineInt >>= _) (flagLine false :: []) = _
    rw [Reader.bind_of_ok getLineInt_flag]
    rfl
  | first =>
    refine ⟨[], ?_⟩
    show (getLineInt >>= _) (flagLine false :: []) = _
    rw [Reader.bind_of_ok getLineInt_flag]
    rfl
  | after n =>
    refine ⟨[[]], ?_⟩
    show (getLineInt >>= _) (flagLine true :: replace '`' n.getSimpleName :: [[]]) = _
    rw [Reader.bind_of_ok getLineInt_flag]
    show (Reader.getLine >>= _) (replace '`' n.getSimpleName :: [[]]) = _
    rw [Reader.bind_of_ok Reader.getLine_cons]
    rfl

/-- The reader reads a DROPCOL back. -/
lemma readDropCol : Statement.readAlter ["DROPCOL".toList, s] = .ok (.dropCol s, []) := by
  rw [Statement.readAlter, Reader.bind_of_ok Reader.getLine_cons, if_neg (by decide),
    if_neg (by decide), if_pos rfl]
  rfl

/-- The reader reads a NOTHING back. -/
lemma readNothing : Statement.readAlter ["NOTHING".toList] = .ok (.nothing, []) := by
  rw [Statement.readAlter, Reader.bind_of_ok Reader.getLine_cons, if_neg (by decide), if_pos rfl]
  rfl

/-- The reader reads a DROPINDEX of a named index back. -/
lemma readDropIndex : Statement.readAlter ["DROPINDEX".toList, ['0'], s] = .ok (.dropIndex false s, []) := by
  rw [Statement.readAlter, Reader.bind_of_ok Reader.getLine_cons, if_neg (by decide),
    if_neg (by decide), if_neg (by decide), if_pos rfl]
  show (getLineInt >>= _) (flagLine false :: s :: []) = _
  rw [Reader.bind_of_ok getLineInt_flag]
  rfl

/-- The reader reads a DROPINDEX of the primary key back. -/
lemma readDropPrimary :
    Statement.readAlter ["DROPINDEX".toList, ['1']] = .ok (.dropIndex true [], []) := by
  rw [Statement.readAlter, Reader.bind_of_ok Reader.getLine_cons, if_neg (by decide),
    if_neg (by decide), if_neg (by decide), if_pos rfl]
  show (getLineInt >>= _) (flagLine true :: []) = _
  rw [Reader.bind_of_ok getLineInt_flag]
  rfl

/-- The parts of a key in ADDINDEX. -/
lemma readParts {parts : List SQLSelectOrderByItem} {isPrimary : Bool} {name : Str}
    (lt : parts.length < 2 ^ 31) :
    (do
      let colCount ← getLineInt
      let cols ← Reader.times Reader.getLine colCount.toNat
      pure (.addIndex isPrimary name cols) : Reader Statement)
      (intToString parts.length :: parts.map SQLSelectOrderByItem.toString) =
    .ok (.addIndex isPrimary name (parts.map SQLSelectOrderByItem.toString), []) := by
  have read := @readTexts [] _ SQLSelectOrderByItem.toString parts
  rw [List.append_nil] at read
  rw [Reader.bind_of_ok (getLineInt_count lt), Int.toNat_natCast, Reader.bind_of_ok read]
  rfl

/-- The reader reads an ADDINDEX back, once its head is read. -/
lemma readAddIndex {parts : List SQLSelectOrderByItem} {isPrimary : Bool} {name : Str}
    (lt : parts.length < 2 ^ 31)
    (read : Statement.readAddIndex ls = (do
      let colCount ← getLineInt
      let cols ← Reader.times Reader.getLine colCount.toNat
      pure (.addIndex isPrimary name cols) : Reader Statement)
      (intToString parts.length :: parts.map SQLSelectOrderByItem.toString)) :
    Statement.readAlter ("ADDINDEX".toList :: ls) =
      .ok (.addIndex isPrimary name (parts.map SQLSelectOrderByItem.toString), []) := by
  rw [Statement.readAlter, Reader.bind_of_ok Reader.getLine_cons, if_neg (by decide),
    if_neg (by decide), if_neg (by decide), if_neg (by decide), if_pos rfl, read]
  exact readParts lt

/-- The reader reads an ADDINDEX of a primary key back. -/
lemma readAddPrimary {parts : List SQLSelectOrderByItem} (lt : parts.length < 2 ^ 31) :
    Statement.readAlter (["ADDINDEX".toList, ['1'], intToString parts.length] ++
        parts.map SQLSelectOrderByItem.toString) =
      .ok (.addIndex true [] (parts.map SQLSelectOrderByItem.toString), []) := by
  apply readAddIndex lt
  rw [Statement.readAddIndex]
  show (getLineInt >>= _) (flagLine true :: _) = _
  rw [Reader.bind_of_ok getLineInt_flag]
  rfl

/-- The reader reads an ADDINDEX of a unique key back. -/
lemma readAddUnique {parts : List SQLSelectOrderByItem} {name : Str} (lt : parts.length < 2 ^ 31) :
    Statement.readAlter (["ADDINDEX".toList, ['0'], name, intToString parts.length] ++
        parts.map SQLSelectOrderByItem.toString) =
      .ok (.addIndex false name (parts.map SQLSelectOrderByItem.toString), []) := by
  apply readAddIndex lt
  rw [Statement.readAddIndex]
  show (getLineInt >>= _) (flagLine false :: name :: _) = _
  rw [Reader.bind_of_ok getLineInt_flag]
  rfl

/-- The reader reads a CHANGECOL back. -/
lemma readChangeCol {d : SQLColumnDefinition} {n : SQLName} :
    Statement.readAlter (dealChangeColumn n d) =
      .ok (.changeCol (loadColumn d (checkIfNotNull d.constraints)) n.getSimpleName, []) := by
  rw [dealChangeColumn, List.cons_append, List.cons_append, Statement.readAlter,
    Reader.bind_of_ok Reader.getLine_cons, if_neg (by decide), if_neg (by decide), if_neg (by decide),
    if_neg (by decide), if_neg (by decide), if_pos rfl, Statement.readChangeCol]
  rw [Reader.bind_of_ok readColumn, Reader.bind_of_ok Reader.getLine_cons]
  rfl

/-- Reading an ALTER TABLE. -/
lemma readAlter {stmt : Statement} {rest : List Str} (read : Statement.readAlter ls = .ok (stmt, rest)) :
    Statement.read ("ALTER".toList :: ls) = .ok (stmt, rest) := by
  rw [Statement.read, Reader.bind_of_ok Reader.getLine_cons, if_neg (by decide), if_pos rfl]
  exact read

/-- The file of an ALTER TABLE is that of its first item. -/
lemma readItem {item : SQLAlterTableItem} {items : List SQLAlterTableItem} {stmt : Statement}
    (first : items[0]? = some item) (ld : loadItem item = some stmt)
    (few : ∀ n ∈ itemCounts item, n < 2 ^ 31) :
    ∃ lines rest, dealAlterTable items = some ("ALTER".toList :: lines) ∧
      Statement.readAlter lines = .ok (stmt, rest) := by
  rw [dealAlterTable, first]
  cases loadItem_inv ld with
  | @addColumn d columns placement =>
    obtain ⟨rest, read⟩ := @readAddCol d (decide (d.constraints[0]? = some .notNull)) placement
    exact ⟨_, rest, rfl, read⟩
  | dropColumn => exact ⟨_, [], rfl, readDropCol⟩
  | addIndex => exact ⟨_, [], rfl, readNothing⟩
  | dropIndex => exact ⟨_, [], rfl, readDropIndex⟩
  | dropPrimaryKey => exact ⟨_, [], rfl, readDropPrimary⟩
  | primaryKey => exact ⟨_, [], rfl, readAddPrimary (few _ (List.mem_singleton.mpr rfl))⟩
  | unique => exact ⟨_, [], rfl, readAddUnique (few _ (List.mem_singleton.mpr rfl))⟩
  | changeColumn => exact ⟨_, [], rfl, readChangeCol⟩

end

/-! ### Texts without line breaks stay within their lines -/

/-- No line contains a line break. -/
def Plain (ls : List Str) : Prop := ∀ l ∈ ls, '\n' ∉ l

section
variable {ls ls' : List Str}

/-- A line without line breaks may stand before such lines. -/
lemma Plain.cons {l : Str} (one : '\n' ∉ l) (rest : Plain ls) : Plain (l :: ls) := by
  intro l' mem
  rcases List.mem_cons.mp mem with rfl | mem
  · exact one
  · exact rest l' mem

/-- No line at all has no line break. -/
lemma Plain.nil : Plain [] := by
  intro l mem
  cases mem

/-- Lines without line breaks may follow such lines. -/
lemma Plain.append (p : Plain ls) (p' : Plain ls') : Plain (ls ++ ls') := by
  intro l mem
  rcases List.mem_append.mp mem with mem | mem
  · exact p l mem
  · exact p' l mem

/-- The first lines have no line breaks. -/
lemma Plain.left (p : Plain (ls ++ ls')) : Plain ls := fun l mem => p l (List.mem_append_left _ mem)

/-- The last lines have no line breaks. -/
lemma Plain.right (p : Plain (ls ++ ls')) : Plain ls' := fun l mem => p l (List.mem_append_right _ mem)

/-- Plain texts make plain lines, item by item. -/
lemma Plain.flatMap {α : Type} {f g : α → List Str} {xs : List α} (p : Plain (xs.flatMap f))
    (one : ∀ x ∈ xs, Plain (f x) → Plain (g x)) : Plain (xs.flatMap g) := by
  intro l mem
  obtain ⟨x, mem_x, mem⟩ := List.mem_flatMap.mp mem
  exact one x mem_x (fun l' mem' => p l' (List.mem_flatMap.mpr ⟨x, mem_x, mem'⟩)) l mem

/-- A flag line has no line break. -/
lemma plain_flag {b : Bool} : '\n' ∉ flagLine b := by
  cases b <;> decide

/-- An optional line has no line break. -/
lemma plain_option {s : Option Str} (p : Plain s.toList) : Plain (optionLines s) := by
  cases s with
  | none => exact .cons (by decide) .nil
  | some s => exact .cons (by decide) (.cons (p s List.mem_cons_self) .nil)

/-- The lines of a column, with any spelling of its name. -/
lemma plain_column {d : SQLColumnDefinition} {name : Str} {isNotNull : Bool} (p : Plain (columnTexts d))
    (nb : '\n' ∉ name) :
    Plain ([name, d.dataType, flagLine isNotNull] ++ optionLines (d.defaultExpr.map (replace '\''))) := by
  refine .append (.cons nb (.cons (p.left _ (.tail _ (.head _))) (.cons plain_flag .nil)))
    (plain_option ?_)
  intro l mem
  cases e : d.defaultExpr with
  | none =>
    rw [e] at mem
    cases mem
  | some text =>
    rw [e] at mem
    rw [List.mem_singleton.mp mem]
    apply not_mem_replace
    apply p.right text
    rw [e]
    exact List.mem_singleton.mpr rfl

/-- The name of a column has no line break when its texts have none. -/
lemma plain_name {d : SQLColumnDefinition} (p : Plain (columnTexts d)) :
    '\n' ∉ d.columnName.getSimpleName :=
  p.left _ (.head _)

/-- Key parts keep to their lines under a function that does. -/
lemma plain_parts {f : SQLSelectOrderByItem → Str} {parts : List SQLSelectOrderByItem}
    (p : Plain (partTexts parts)) (keep : ∀ item, '\n' ∉ item.toString → '\n' ∉ f item) :
    Plain (parts.map f) := by
  intro l mem
  obtain ⟨item, mem', rfl⟩ := List.mem_map.mp mem
  exact keep item (not_mem_toString (p _ (List.mem_map_of_mem mem')))

/-- A key of a CREATE TABLE keeps to its lines. -/
lemma plain_key {key : MySqlKey} (p : Plain (keyTexts key)) : Plain (createKey key) := by
  rw [createKey, List.append_assoc]
  exact .append (plain_option p.left) (.cons plain_flag (.cons not_mem_intToString
    (plain_parts p.right fun item nb => not_mem_replace nb)))

/-- A CREATE TABLE keeps to its lines. -/
lemma plain_create {tableName : SQLName} {columnDefinitions : List SQLColumnDefinition}
    {mysqlKeys : List MySqlKey} (p : Plain (texts (.createTable tableName columnDefinitions mysqlKeys))) :
    Plain (dealCreateTable tableName columnDefinitions mysqlKeys) := by
  rw [texts, List.cons_append] at p
  have cols : Plain (columnDefinitions.flatMap columnTexts) := fun l mem =>
    p l (.tail _ (List.mem_append_left _ mem))
  have keys : Plain (mysqlKeys.flatMap keyTexts) := fun l mem =>
    p l (.tail _ (List.mem_append_right _ mem))
  have real : Plain ((mysqlKeys.filter fun key => key.type.isSome).flatMap keyTexts) := by
    intro l mem
    obtain ⟨key, mem_key, mem⟩ := List.mem_flatMap.mp mem
    exact keys l (List.mem_flatMap.mpr ⟨key, List.mem_of_mem_filter mem_key, mem⟩)
  refine .append (.append (.append (.cons (by decide) (.cons ?_ (.cons not_mem_intToString .nil)))
    (cols.flatMap ?_)) (.cons not_mem_intToString .nil)) (real.flatMap ?_)
  · exact not_mem_replace (p _ (.head _))
  · intro d _ p
    exact plain_column p (not_mem_replace (plain_name p))
  · intro key _ p
    exact plain_key p

/-- The lines of an item that is loaded. -/
lemma plain_item {item : SQLAlterTableItem} {items : List SQLAlterTableItem} {stmt : Statement}
    {lines : List Str} (first : items[0]? = some item) (ld : loadItem item = some stmt)
    (p : Plain (itemTexts item)) (written : dealAlterTable items = some lines) : Plain lines := by
  rw [dealAlterTable, first] at written
  cases loadItem_inv ld with
  | @addColumn d columns placement =>
    cases written
    have pd : Plain (columnTexts d) := p.left.left
    refine .cons (by decide) (.append (.cons (by decide) (plain_column pd (plain_name pd))) ?_)
    have pp := p.right
    cases placement with
    | none => exact .cons (by decide) .nil
    | first => exact .cons (by decide) .nil
    | after n =>
      exact .cons (by decide) (.cons (not_mem_replace (pp _ (.head _))) (.cons List.not_mem_nil .nil))
  | dropColumn =>
    cases written
    exact .cons (by decide) (.cons (by decide) (.cons (p _ (.head _)) .nil))
  | addIndex =>
    cases written
    exact .cons (by decide) (.cons (by decide) .nil)
  | dropIndex =>
    cases written
    exact .cons (by decide) (.cons (by decide) (.cons (by decide) (.cons (p _ (.head _)) .nil)))
  | dropPrimaryKey =>
    cases written
    exact .cons (by decide) (.cons (by decide) (.cons (by decide) .nil))
  | primaryKey =>
    cases written
    exact .cons (by decide) (.append (.cons (by decide) (.cons (by decide)
      (.cons not_mem_intToString .nil))) (plain_parts p fun item nb => nb))
  | unique =>
    cases written
    exact .cons (by decide) (.append (.cons (by decide) (.cons (by decide)
      (.cons (p _ (.head _)) (.cons not_mem_intToString .nil))))
      (plain_parts p.right fun item nb => nb))
  | @changeColumn n d placement =>
    cases written
    have pd : Plain (columnTexts d) := by
      intro l mem
      exact p l (List.mem_append_left _ (.tail _ mem))
    exact .cons (by decide) (.cons (by decide) (.append (plain_column pd (plain_name pd))
      (.cons (p _ (.head _)) .nil)))

end

/-- The loader reads a written statement as `load` says. -/
theorem getStatement_written {st : SQLStatement} {stmt : Statement} (ld : load st = some stmt)
    (few : ∀ n ∈ counts st, n < 2 ^ 31) (plain : Plain (texts st)) :
    Statement.getStatement (ddlText st) = .ok stmt := by
  suffices ∃ lines rest, writeDDLCompat st = some lines ∧ Plain lines ∧
      Statement.read lines = .ok (stmt, rest) by
    obtain ⟨lines, rest, written, plain, read⟩ := this
    rw [Statement.getStatement, ddlText, written, Option.getD_some, getlines_unlines plain, read]
    rfl
  cases st with
  | createTable tableName columnDefinitions mysqlKeys =>
    cases ld
    exact ⟨_, _, rfl, plain_create plain, readCreate few⟩
  | alterTable tableName items =>
    rw [load, Option.bind_eq_bind, Option.bind_eq_some_iff] at ld
    obtain ⟨item, first, ld⟩ := ld
    have mem := List.mem_of_getElem? first
    obtain ⟨lines, rest, written, read⟩ := readItem first ld fun n mem' =>
      few n (List.mem_flatMap.mpr ⟨item, mem, mem'⟩)
    refine ⟨_, rest, written, plain_item first ld (fun l mem' => ?_) written, readAlter read⟩
    exact plain l (List.mem_flatMap.mpr ⟨item, mem, mem'⟩)
  | dropDatabase => cases ld
  | other => cases ld

/-! ### The handled statements -/

/-- The items that `dealAlterTable` has a branch for: columns that are added or dropped, a plain index, indexes
    that are dropped, primary keys and named unique keys, and a changed column. -/
def HandledItem : SQLAlterTableItem → Prop
  | .addColumn columns _ => columns ≠ []
  | .dropColumn columns => columns ≠ []
  | .addConstraint (.primaryKey _) => True
  | .addConstraint (.unique name _) => name ≠ none
  | .addConstraint .other => False
  | .other => False
  | _ => True

/-- A CREATE TABLE, or an ALTER TABLE with a first item of a handled kind. -/
def Handled : SQLStatement → Prop
  | .createTable .. => True
  | .alterTable _ items => ∃ item, items[0]? = some item ∧ HandledItem item
  | _ => False

/-- Every handled item is loaded. -/
lemma loadItem_of_handled {item : SQLAlterTableItem} (handled : HandledItem item) :
    ∃ stmt, loadItem item = some stmt := by
  cases item with
  | addColumn columns placement =>
    cases columns with
    | nil => exact absurd rfl handled
    | cons d columns => exact ⟨_, rfl⟩
  | dropColumn columns =>
    cases columns with
    | nil => exact absurd rfl handled
    | cons n columns => exact ⟨_, rfl⟩
  | addConstraint constraint =>
    match constraint, handled with
    | .primaryKey parts, _ => exact ⟨_, rfl⟩
    | .unique none parts, handled => exact absurd rfl handled
    | .unique (some n) parts, _ => exact ⟨_, rfl⟩
  | other => exact handled.elim
  | _ => exact ⟨_, rfl⟩

/-- Every handled statement whose texts stay within their lines is written, and read back with the fields that
    were written. -/
theorem handled_roundtrip {st : SQLStatement} (handled : Handled st) (few : ∀ n ∈ counts st, n < 2 ^ 31)
    (plain : Plain (texts st)) : ∃ lines stmt, writeDDLCompat st = some lines ∧ load st = some stmt ∧
      Statement.getStatement (unlines lines) = .ok stmt := by
  have loaded : ∃ stmt, load st = some stmt := by
    cases st with
    | createTable tableName columnDefinitions mysqlKeys => exact ⟨_, rfl⟩
    | alterTable tableName items =>
      obtain ⟨item, first, handled⟩ := handled
      obtain ⟨stmt, ld⟩ := loadItem_of_handled handled
      refine ⟨stmt, ?_⟩
      rw [load, first]
      exact ld
    | dropDatabase => exact handled.elim
    | other => exact handled.elim
  obtain ⟨stmt, ld⟩ := loaded
  have read := getStatement_written ld few plain
  cases written : writeDDLCompat st with
  | none =>
    -- the writer would have left the file empty
    rw [ddlText, written] at read
    cases read
  | some lines =>
    rw [ddlText, written] at read
    exact ⟨lines, stmt, rfl, ld, read⟩

/-- `CREATE TABLE t (id int NOT NULL, note text DEFAULT 'a', PRIMARY KEY (id DESC), UNIQUE KEY k (id, note(3)),
    KEY (note))`. -/
def keyedTable : SQLStatement :=
  .createTable ⟨"t".toList, true⟩
    [{ columnName := ⟨"id".toList, true⟩, dataType := "int".toList, constraints := [.notNull],
        defaultExpr := none },
      { columnName := ⟨"note".toList, false⟩, dataType := "text".toList, constraints := [],
        defaultExpr := some "'a'".toList }]
    [{ name := none, type := some "PRIMARY".toList, isPrimary := true,
        columns := [⟨⟨"id".toList, true⟩, none, some .desc⟩] },
      { name := some ⟨"k".toList, false⟩, type := some "UNIQUE".toList, isPrimary := false,
        columns := [⟨⟨"id".toList, false⟩, none, none⟩, ⟨⟨"note".toList, false⟩, some 3, none⟩] },
      { name := none, type := none, isPrimary := false, columns := [⟨⟨"note".toList, false⟩, none, none⟩] }]

/-- A table with a primary key is read back as it was written. -/
theorem keyedTable_roundtrip : ∃ lines stmt, writeDDLCompat keyedTable = some lines ∧
    load keyedTable = some stmt ∧ Statement.getStatement (unlines lines) = .ok stmt :=
  handled_roundtrip trivial (by decide) (show ∀ l ∈ texts keyedTable, '\n' ∉ l by decide)

end TdsqlMerge.Ddl
