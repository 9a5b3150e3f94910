import TdsqlMerge.Ddl.Files
import TdsqlMerge.Lib.Machine

/-!
# The table as MySQL keeps it

What CREATE TABLE and ALTER TABLE mean to MySQL and to the schema repository of druid: the columns of a
table in their order and its keys, with names that are compared regardless of quotes and case. `Server`
leaves open what the rules below do not depend on. A `TableLife` is a table with the statements that were
executed on it; each of them has its `.ddl` file. What `step` rejects MySQL rejects; it accepts more, as
it checks no types and no names of keys. The items of an ALTER TABLE are executed in order.
-/

namespace TdsqlMerge.Ddl
open Lib Splitter Store

/-- A column: `id` counts the columns the table ever had, `name` is that of its latest definition, and
    `created` says whether that stands in the CREATE TABLE. -/
structure Column where
  id : Nat
  name : SQLName
  created : Bool

/-- A key with the name it was given and the one MySQL knows it by. -/
structure Key where
  name : Option SQLName
  knownAs : Str
  isPrimary : Bool
  columns : List Nat

/-- `keys` are the keys with a definition of their own, `inline` those in the definition of a column,
    `lastUpdatedAt` is the column last added as `updated_at`. -/
structure Schema where
  columns : List Column
  keys : List Key
  inline : List Key
  next : Nat
  lastUpdatedAt : Option Nat

/-- A table without columns. -/
def Schema.empty : Schema :=
  { columns := [], keys := [], inline := [], next := 0, lastUpdatedAt := none }

/-- What the rules leave to the server: names are equal if `fold` maps them to the same text; `autoName`
    names an unnamed key; `other` is the effect of the items without a constructor. -/
structure Server where
  fold : Str → Str
  autoName : Schema → List Nat → Str
  other : Schema → Option Schema

/-- A bound on the columns of a table, its keys and the parts of a key. -/
def maxCount : Nat := 4096

/-- The name of a column in the `.ddl` file of its latest definition. -/
def Column.spelling (c : Column) : Str :=
  if c.created then replace '`' c.name.getSimpleName else c.name.getSimpleName

/-- The name of a key in its `.ddl` file. -/
def Key.spelling (k : Key) : Str := (k.name.map SQLName.getSimpleName).getD []

/-- A key without a column. -/
def Key.erase (id : Nat) (k : Key) : Key := { k with columns := k.columns.erase id }

/-- A column leaves every key, and a key without columns goes. -/
def keysWithout (id : Nat) (keys : List Key) : List Key :=
  (keys.map (Key.erase id)).filter fun k => k.columns ≠ []

section
variable (sv : Server)

/-- Do two names mean the same column? -/
def Server.same (m n : SQLName) : Bool := sv.fold m.name = sv.fold n.name

/-- Does a name mean this key? -/
def Key.isNamed (n : SQLName) (k : Key) : Bool := sv.fold k.knownAs = sv.fold n.name

/-- The column a name means. -/
def Schema.column? (s : Schema) (n : SQLName) : Option Column :=
  s.columns.find? fun c => sv.same c.name n

/-- The columns of a key with these parts. -/
def Schema.keyColumns (s : Schema) (parts : List SQLSelectOrderByItem) : Option (List Nat) := do
  let cols ← parts.mapM fun item => s.column? sv item.expr
  let ids := cols.map Column.id
  if ids ≠ [] ∧ ids.Nodup then some ids else none

/-- A key behind the others, if its columns are there. -/
def Schema.addKey (s : Schema) (name : Option SQLName) (isPrimary : Bool)
    (parts : List SQLSelectOrderByItem) : Option Schema := do
  let columns ← s.keyColumns sv parts
  let knownAs := if isPrimary then "PRIMARY".toList
    else match name with
      | some n => n.name
      | none => sv.autoName s columns
  some { s with keys := s.keys ++ [{ name, knownAs, isPrimary, columns }] }

/-- The keys in the definition of a column. -/
def Schema.inlineKeys (s : Schema) (d : SQLColumnDefinition) (id : Nat) : List Key :=
  d.constraints.filterMap fun
    | .primaryKey => some { name := none, knownAs := "PRIMARY".toList, isPrimary := true, columns := [id] }
    | .unique => some { name := none, knownAs := sv.autoName s [id], isPrimary := false, columns := [id] }
    | _ => none

/-- Put a column among others. -/
def place (cols : List Column) (col : Column) : Placement → Option (List Column)
  | .none => some (cols ++ [col])
  | .first => some (col :: cols)
  | .after n => do
    let i ← cols.findIdx? fun c => sv.same c.name n
    some (cols.insertIdx (i + 1) col)

/-- A column in its place, with the keys of its definition. -/
def Schema.addColumn (created : Bool) (placement : Placement) (s : Schema) (d : SQLColumnDefinition) :
    Option Schema := do
  if (s.column? sv d.columnName).isSome then none
  else do
    let col : Column := { id := s.next, name := d.columnName, created }
    let columns ← place sv s.columns col placement
    some { s with
      columns
      inline := s.inline ++ s.inlineKeys sv d s.next
      next := s.next + 1
      lastUpdatedAt := if col.spelling = updatedAt then some s.next else s.lastUpdatedAt }

/-- A column that is dropped leaves its keys as well. -/
def Schema.dropColumn (s : Schema) (n : SQLName) : Option Schema := do
  let c ← s.column? sv n
  some { s with
    columns := s.columns.filter fun e => e.id ≠ c.id
    keys := keysWithout c.id s.keys
    inline := keysWithout c.id s.inline }

/-- Put a changed column: in its own place, or in one among the others. -/
def replaceColumn (cols : List Column) (col : Column) : Placement → Option (List Column)
  | .none => some (cols.map fun e => if e.id = col.id then col else e)
  | placement => place sv (cols.filter fun e => e.id ≠ col.id) col placement

/-- A column under its new definition, in its new place. -/
def Schema.changeColumn (s : Schema) (n : SQLName) (d : SQLColumnDefinition) (placement : Placement) :
    Option Schema := do
  let c ← s.column? sv n
  -- the new name may be the old one, but not that of another column
  if (s.columns.filter fun e => e.id ≠ c.id).any fun e => sv.same e.name d.columnName then none
  else do
    let columns ← replaceColumn sv s.columns { id := c.id, name := d.columnName, created := false } placement
    some { s with columns, inline := s.inline ++ s.inlineKeys sv d c.id }

/-- The first key with the property goes. -/
def Schema.dropKey (p : Key → Bool) (s : Schema) : Schema :=
  match s.keys.findIdx? p with
  | some i => { s with keys := s.keys.eraseIdx i }
  | none => { s with inline := s.inline.eraseP p }

/-- One item of an ALTER TABLE. -/
def Schema.item (s : Schema) : SQLAlterTableItem → Option Schema
  | .addColumn columns placement => columns.foldlM (Schema.addColumn sv false placement) s
  | .dropColumn columns => columns.foldlM (Schema.dropColumn sv) s
  | .addIndex => some s
  | .dropIndex n => some (s.dropKey (Key.isNamed sv n))
  | .dropPrimaryKey => some (s.dropKey Key.isPrimary)
  | .addConstraint (.primaryKey parts) => s.addKey sv none true parts
  | .addConstraint (.unique name parts) => s.addKey sv name false parts
  | .addConstraint .other => some s
  | .changeColumn n d placement => s.changeColumn sv n d placement
  | .other => sv.other s

/-- The columns of a CREATE TABLE. -/
def Schema.createColumns (columnDefinitions : List SQLColumnDefinition) : Option Schema :=
  columnDefinitions.foldlM (Schema.addColumn sv true .none) .empty

/-- The keys of a CREATE TABLE that are more than an index. -/
def Schema.createKeys (s : Schema) (mysqlKeys : List MySqlKey) : Option Schema :=
  (mysqlKeys.filter fun key => key.type.isSome).foldlM
    (fun s key => s.addKey sv key.name key.isPrimary key.columns) s

/-- A statement on a table, or on none. A CREATE TABLE of a table that exists says IF NOT EXISTS. -/
def Schema.effect : Option Schema → SQLStatement → Option Schema
  | none, .createTable _ columnDefinitions mysqlKeys => do
    let s ← Schema.createColumns sv columnDefinitions
    if s.columns = [] then none else s.createKeys sv mysqlKeys
  | some s, .createTable _ _ _ => some s
  | some s, .alterTable _ items => do
    let s ← items.foldlM (Schema.item sv) s
    if s.columns = [] then none else some s
  | _, _ => none

/-- A statement that keeps to the bounds of the server. -/
def Schema.execute (table : Option Schema) (st : SQLStatement) : Option Schema :=
  if (counts st).any fun n => maxCount < n then none else Schema.effect sv table st

/-- A table and the statements that were executed on it. -/
structure TableLife where
  written : List SQLStatement
  table : Option Schema

/-- Before its `CREATE TABLE`. -/
def TableLife.new : TableLife := { written := [], table := none }

/-- MySQL accepts a statement. -/
def TableLife.step (l : TableLife) (st : SQLStatement) : Option TableLife := do
  let s ← Schema.execute sv l.table st
  some { written := l.written ++ [st], table := some s }

end

/-- The lines of `finalTableCols.txt`: `getColumnName` of every column. -/
def Schema.finalTableCols (s : Schema) : List Str := s.columns.map fun c => c.name.getSimpleName

end TdsqlMerge.Ddl
