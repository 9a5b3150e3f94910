import TdsqlMerge.Lib.Lines
import TdsqlMerge.Store.Table

/-!
# Statements of the `.ddl` files

Embedding of `src/utils/iohelper.cpp` and `src/structure/statement.cpp`: the statements that are
read line by line from the `.ddl` files, and their effect on a table. The `print` members and the
`.ddlsql` text that `getStatement` only logs are left out.
-/

namespace TdsqlMerge.Store
open Lib

/-- `boost::lexical_cast<int>`: an optional sign and at least one digit, in the range of `int`. -/
def lexicalCastInt : Str → Option Int
  | '-' :: ds =>
    if ds ≠ [] ∧ ds.all Char.isDigit ∧ Nat.ofDigitChars 10 ds 0 ≤ 2 ^ 31 then
      some (-(Nat.ofDigitChars 10 ds 0 : Int))
    else none
  | '+' :: ds =>
    if ds ≠ [] ∧ ds.all Char.isDigit ∧ Nat.ofDigitChars 10 ds 0 < 2 ^ 31 then
      some (Nat.ofDigitChars 10 ds 0)
    else none
  | ds =>
    if ds ≠ [] ∧ ds.all Char.isDigit ∧ Nat.ofDigitChars 10 ds 0 < 2 ^ 31 then
      some (Nat.ofDigitChars 10 ds 0)
    else none

/-- `IOHelper::getLineInt`; a failed read leaves the empty text, which does not convert. -/
def getLineInt : Reader Int := do
  let tmp ← Reader.getLine
  match lexicalCastInt tmp with
  | some n => pure n
  | none => throw "bad lexical cast"

/-- The lines of a column. -/
structure ColumnStatement where
  name : Str
  type : Str
  isNotNull : Bool
  defaultStr : Option Str

/-- The lines of an index in a `CREATE TABLE`. -/
structure IndexStatement where
  name : Str
  isPrimaryKey : Bool
  keys : List Str

/-- `CreateTableStatement` and the subclasses of `AlterStatement`. -/
inductive Statement where
  | create (name : Str) (cols : List ColumnStatement) (indexs : List IndexStatement)
  | addCol (colStat : ColumnStatement) (insAfter : Option Str)
  | nothing
  | dropCol (colName : Str)
  | dropIndex (isPrimary : Bool) (indexName : Str)
  | addIndex (isPrimary : Bool) (indexName : Str) (cols : List Str)
  | changeCol (colStat : ColumnStatement) (prevName : Str)

/-- Is the statement an `AlterStatement`? -/
def Statement.isAlter : Statement → Bool
  | .create .. => false
  | _ => true

/-- `ColumnStatement::ColumnStatement(IOHelper &)`. -/
def ColumnStatement.read : Reader ColumnStatement := do
  let name ← Reader.getLine
  let type ← Reader.getLine
  let isNotNull ← getLineInt
  let hasDefault ← getLineInt
  if hasDefault = 1 then do
    let defaultStr ← Reader.getLine
    pure { name, type, isNotNull := isNotNull ≠ 0, defaultStr := some defaultStr }
  else pure { name, type, isNotNull := isNotNull ≠ 0, defaultStr := none }

/-- One iteration of the index loop of `CreateTableStatement::CreateTableStatement`. -/
def IndexStatement.read : Reader IndexStatement := do
  let hasName ← getLineInt
  let name ← if hasName ≠ 0 then Reader.getLine else pure []
  let isPrimary ← getLineInt
  let keyCount ← getLineInt
  let keys ← Reader.times Reader.getLine keyCount.toNat
  pure { name, isPrimaryKey := isPrimary ≠ 0, keys }

/-- `CreateTableStatement::CreateTableStatement(IOHelper &)`. -/
def Statement.readCreate : Reader Statement := do
  let tableName ← Reader.getLine
  let colCount ← getLineInt
  let cols ← Reader.times ColumnStatement.read colCount.toNat
  let idxCount ← getLineInt
  let indexs ← Reader.times IndexStatement.read idxCount.toNat
  pure (.create tableName cols indexs)

/-- `AlterAddColStatement::AlterAddColStatement(IOHelper &)`. -/
def Statement.readAddCol : Reader Statement := do
  let colStat ← ColumnStatement.read
  let isAfterCol ← getLineInt
  if isAfterCol ≠ 0 then do
    let insAfter ← Reader.getLine
    pure (.addCol colStat (some insAfter))
  else pure (.addCol colStat none)

/-- `AlterDropIndexStatement::AlterDropIndexStatement(IOHelper &)`. -/
def Statement.readDropIndex : Reader Statement := do
  let isPrimary ← getLineInt
  let indexName ← if isPrimary = 0 then Reader.getLine else pure []
  pure (.dropIndex (isPrimary ≠ 0) indexName)

/-- `AlterAddIndexStatement::AlterAddIndexStatement(IOHelper &)`. -/
def Statement.readAddIndex : Reader Statement := do
  let isPrimary ← getLineInt
  let indexName ← if isPrimary = 0 then Reader.getLine else pure []
  let colCount ← getLineInt
  let cols ← Reader.times Reader.getLine colCount.toNat
  pure (.addIndex (isPrimary ≠ 0) indexName cols)

/-- `AlterChangeColStatement::AlterChangeColStatement(IOHelper &)`. -/
def Statement.readChangeCol : Reader Statement := do
  let colStat ← ColumnStatement.read
  let prevName ← Reader.getLine
  pure (.changeCol colStat prevName)

/-- `AlterStatement::getAlterStatement`. -/
def Statement.readAlter : Reader Statement := do
  let typeStr ← Reader.getLine
  if typeStr = "ADDCOL".toList then Statement.readAddCol
  else if typeStr = "NOTHING".toList then pure .nothing
  else if typeStr = "DROPCOL".toList then do
    let colName ← Reader.getLine
    pure (.dropCol colName)
  else if typeStr = "DROPINDEX".toList then Statement.readDropIndex
  else if typeStr = "ADDINDEX".toList then Statement.readAddIndex
  else if typeStr = "CHANGECOL".toList then Statement.readChangeCol
  else throw "Alter type no implemented!"

/-- The reader behind `Statement::getStatement`. -/
def Statement.read : Reader Statement := do
  let type ← Reader.getLine
  if type = "CREATE".toList then Statement.readCreate
  else if type = "ALTER".toList then Statement.readAlter
  else throw "Unknown type of statement! "

/-- `Statement::getStatement` on the text of a `.ddl` file. -/
def Statement.getStatement (ddl : Str) : Except String Statement := do
  let (statement, _) ← Statement.read (getlines ddl)
  .ok statement

section
variable (hashCombine : UInt64 → Str → UInt64)

/-- One iteration of the column loop of `CreateTableStatement::fillToTable`. -/
def Table.addColumnOf (t : Table) (col : ColumnStatement) (after : Option Str) : Res Table :=
  let t' := t.newCol (.new col.name col.type col.defaultStr)
  t'.addColumn hashCombine t.colHeap.length after

/-- One iteration of the index loop of `CreateTableStatement::fillToTable`. -/
def Table.pushIndex (t : Table) (index : IndexStatement) : Res Table := do
  let (index, t) ← UniqueIndex.named hashCombine t index.name index.keys index.isPrimaryKey
  .ok { t with indexs := t.indexs ++ [index] }

/-- `CreateTableStatement::fillToTable`. -/
def Table.fillCreate (t : Table) (cols : List ColumnStatement) (indexs : List IndexStatement) :
    Res Table := do
  let t ← cols.foldlM (fun t col => t.addColumnOf hashCombine col none) t
  let t ← indexs.foldlM (Table.pushIndex hashCombine) t
  if indexs.isEmpty then t.pushTemp hashCombine else .ok t

/-- `AlterChangeColStatement::fillToTable`. -/
def Table.changeCol (t : Table) (colStat : ColumnStatement) (prevName : Str) : Res Table :=
  match t.colDes.find? (t.hasName prevName) with
  | none => .error (.throw "Can not find column to change!" t)
  | some prevCol => do
    let d ← t.col prevCol
    .ok { t with
      colHeap := t.colHeap.set prevCol { d with name := colStat.name, defStr := colStat.defaultStr } }

/-- `fillToTable`. -/
def Statement.fillToTable (t : Table) : Statement → Res Table
  | .create _ cols indexs => t.fillCreate hashCombine cols indexs
  | .addCol colStat insAfter => t.addColumnOf hashCombine colStat insAfter
  | .nothing => .ok t
  | .dropCol colName => t.dropColumn hashCombine colName
  | .dropIndex isPrimary indexName => t.dropUniqueIndex hashCombine isPrimary false indexName
  | .addIndex isPrimary indexName cols =>
    t.addUniqueIndex hashCombine (if isPrimary then [] else indexName) cols isPrimary
  | .changeCol colStat prevName => t.changeCol colStat prevName

end

end TdsqlMerge.Store
