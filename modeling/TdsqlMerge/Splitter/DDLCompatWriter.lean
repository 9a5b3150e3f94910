import TdsqlMerge.Basic
import TdsqlMerge.Lib.Lines

/-!
# Writing a statement to its `.ddl` file

Embedding of `extfetcher/src/DDLCompatWriter.java`. The syntax trees are those of the druid parser, cut
down to what the writer and the schema repository read: a name is kept as it was written, with or
without backquotes, and an expression or a type as the text `toString` gives for it. `none` is an
exception: an empty list of items or columns, or a missing name or constraint. A file is the list of the
strings the writer ends with `newLine`. The copy of the statement in the `.ddlsql` file, which the loader
only logs, is left out.
-/

namespace TdsqlMerge.Splitter
open Lib

/-- A name as it was written; a backquote within backquotes is doubled. -/
structure SQLName where
  name : Str
  quoted : Bool
  deriving DecidableEq

/-- `getSimpleName`, `getColumnName` and `getTableName`: the name as it was written. -/
def SQLName.getSimpleName (n : SQLName) : Str :=
  if n.quoted then '`' :: (n.name.flatMap fun c => if c = '`' then ['`', '`'] else [c]) ++ ['`']
  else n.name

/-- `s.replace("c", "")`. -/
def replace (c : Char) (s : Str) : Str := s.filter fun d => d ≠ c

/-- `Integer.toString` of a count. -/
def intToString (n : Nat) : Str := Nat.toDigits 10 n

/-- `SQLNotNullConstraint`, which is all the writer looks for, the two that define a key, and the rest. -/
inductive SQLColumnConstraint where
  | notNull
  | primaryKey
  | unique
  | other
  deriving DecidableEq

/-- The parts of a column definition that are read. -/
structure SQLColumnDefinition where
  columnName : SQLName
  dataType : Str
  constraints : List SQLColumnConstraint
  defaultExpr : Option Str

/-- `SQLOrderingSpecification`. -/
inductive SQLOrderingSpecification where
  | asc
  | desc
  deriving DecidableEq

/-- A part of a key: a column, with the length of its prefix or an order. -/
structure SQLSelectOrderByItem where
  expr : SQLName
  length : Option Nat
  type : Option SQLOrderingSpecification

/-- `SQLSelectOrderByItem.toString`. -/
def SQLSelectOrderByItem.toString (item : SQLSelectOrderByItem) : Str :=
  item.expr.getSimpleName ++
    (match item.length with
      | some n => '(' :: intToString n ++ [')']
      | none => []) ++
    (match item.type with
      | some .asc => " ASC".toList
      | some .desc => " DESC".toList
      | none => [])

/-- A key of a CREATE TABLE statement: `type` is that of its index definition, `isPrimary` tells whether
    it is a `MySqlPrimaryKey`. -/
structure MySqlKey where
  name : Option SQLName
  type : Option Str
  isPrimary : Bool
  columns : List SQLSelectOrderByItem

/-- Where an ALTER TABLE puts a column. -/
inductive Placement where
  | none
  | first
  | after (column : SQLName)

/-- The constraint of a `SQLAlterTableAddConstraint`. -/
inductive SQLConstraint where
  | primaryKey (columns : List SQLSelectOrderByItem)
  | unique (name : Option SQLName) (columns : List SQLSelectOrderByItem)
  | other

/-- The subclasses of `SQLAlterTableItem`. -/
inductive SQLAlterTableItem where
  | addColumn (columns : List SQLColumnDefinition) (placement : Placement)
  | dropColumn (columns : List SQLName)
  | addIndex
  | dropIndex (indexName : SQLName)
  | dropPrimaryKey
  | addConstraint (constraint : SQLConstraint)
  | changeColumn (columnName : SQLName) (newColumnDefinition : SQLColumnDefinition)
      (placement : Placement)
  | other

/-- The subclasses of `SQLStatement` that `EventDealer` tells apart. -/
inductive SQLStatement where
  | createTable (tableName : SQLName) (columnDefinitions : List SQLColumnDefinition)
      (mysqlKeys : List MySqlKey)
  | alterTable (tableName : SQLName) (items : List SQLAlterTableItem)
  | dropDatabase
  | other

/-- The flag of an optional part, and the part in a line of its own. -/
def optionLines : Option Str → List Str
  | some s => [['1'], s]
  | none => [['0']]

/-- `writer.write("1")` or `writer.write("0")`. -/
def flagLine (b : Bool) : Str := if b then ['1'] else ['0']

/-- `DDLCompatWriter.checkIfNotNull`. -/
def checkIfNotNull (constraints : List SQLColumnConstraint) : Bool :=
  constraints.any fun cons => cons = .notNull

/-- The lines of a column in `dealCreateTable`. -/
def createColumn (colDef : SQLColumnDefinition) : List Str :=
  [replace '`' colDef.columnName.getSimpleName, colDef.dataType,
    flagLine (checkIfNotNull colDef.constraints)] ++
    optionLines (colDef.defaultExpr.map (replace '\''))

/-- The lines of a key in `dealCreateTable`. -/
def createKey (key : MySqlKey) : List Str :=
  optionLines (key.name.map SQLName.getSimpleName) ++
    [flagLine key.isPrimary, intToString key.columns.length] ++
    key.columns.map fun item => replace '`' item.toString

/-- `DDLCompatWriter.dealCreateTable`. -/
def dealCreateTable (tableName : SQLName) (columnDefinitions : List SQLColumnDefinition)
    (mysqlKeys : List MySqlKey) : List Str :=
  -- a plain index has no type
  let realKeys := mysqlKeys.filter fun key => key.type.isSome
  ["CREATE".toList, replace '`' tableName.getSimpleName, intToString columnDefinitions.length] ++
    columnDefinitions.flatMap createColumn ++
    [intToString realKeys.length] ++
    realKeys.flatMap createKey

/-- The branch of `SQLAlterTableAddColumn` in `dealAlterTable`: its first column only, which is NOT NULL
    if its first constraint is. After a column to insert after, the branch writes an empty line more. -/
def dealAddColumn (columns : List SQLColumnDefinition) (placement : Placement) : Option (List Str) := do
  let column ← columns[0]?
  some (["ADDCOL".toList, column.columnName.getSimpleName, column.dataType,
      flagLine (column.constraints[0]? = some .notNull)] ++
    optionLines (column.defaultExpr.map (replace '\'')) ++
    match placement with
    | .after afterColumn => [['1'], replace '`' afterColumn.getSimpleName, []]
    | _ => [['0']])

/-- The branch of `SQLAlterTableAddConstraint` in `dealAlterTable`. -/
def dealAddConstraint : SQLConstraint → Option (List Str)
  | .primaryKey columns =>
    some (["ADDINDEX".toList, ['1'], intToString columns.length] ++
      columns.map SQLSelectOrderByItem.toString)
  | .unique name columns => do
    let name ← name
    some (["ADDINDEX".toList, ['0'], name.getSimpleName, intToString columns.length] ++
      columns.map SQLSelectOrderByItem.toString)
  | .other => none

/-- The branch of `MySqlAlterTableChangeColumn` in `dealAlterTable`. -/
def dealChangeColumn (columnName : SQLName) (newColumnDefinition : SQLColumnDefinition) : List Str :=
  ["CHANGECOL".toList, newColumnDefinition.columnName.getSimpleName, newColumnDefinition.dataType,
      flagLine (newColumnDefinition.constraints.any fun cons => cons = .notNull)] ++
    optionLines (newColumnDefinition.defaultExpr.map (replace '\'')) ++
    [columnName.getSimpleName]

/-- `DDLCompatWriter.dealAlterTable`: only the first item is written. -/
def dealAlterTable (items : List SQLAlterTableItem) : Option (List Str) := do
  let item ← items[0]?
  let lines ← match item with
    | .addColumn columns placement => dealAddColumn columns placement
    | .dropColumn columns => do
      let column ← columns[0]?
      some ["DROPCOL".toList, column.getSimpleName]
    | .addIndex => some ["NOTHING".toList]
    | .dropIndex indexName => some ["DROPINDEX".toList, ['0'], indexName.getSimpleName]
    | .dropPrimaryKey => some ["DROPINDEX".toList, ['1']]
    | .addConstraint constraint => dealAddConstraint constraint
    | .changeColumn columnName newColumnDefinition _ =>
      some (dealChangeColumn columnName newColumnDefinition)
    | .other => some []
  some ("ALTER".toList :: lines)

/-- `DDLCompatWriter.writeDDLCompat`; statements that are neither CREATE TABLE nor ALTER TABLE leave the
    file empty. -/
def writeDDLCompat : SQLStatement → Option (List Str)
  | .createTable tableName columnDefinitions mysqlKeys =>
    some (dealCreateTable tableName columnDefinitions mysqlKeys)
  | .alterTable _ items => dealAlterTable items
  | _ => some []

end TdsqlMerge.Splitter
