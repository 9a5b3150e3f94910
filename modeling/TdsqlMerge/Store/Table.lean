import Mathlib.Logic.Function.Basic
import Mathlib.Order.Lex
import Mathlib.Data.List.Lex
import TdsqlMerge.Basic
import TdsqlMerge.Lib.Fallible

/-!
# The in-memory table

Embedding of `include/structure/table.h`, `descriptor.h` and `src/structure/table.cpp`: the rows of
one table, its columns and its unique index, and the operations that the replayed statements and the
parsed batches perform on them.

`Row *` and `ColumnDescriptor *` are positions in the two heaps that the table carries, `rowHeap` and
`colHeap`; `new` appends to a heap, so a pointer is never reused, and `delete` leaves `none` behind.
Column descriptors are never deleted. A null `Row *` in `rows` is `none`. Reading through a deleted
or null pointer, an access outside a vector, dereferencing or erasing `end()` are undefined behaviour
and yield `Fault.ub`; a C++ exception carries the table it leaves behind.

`hashCombine` stands for `boost::hash_combine` on strings. The fields that only the log output reads
(`workDes`) are left out. The `mapping` of a descriptor is `-1` in the source until `addColumn` sets
it; nothing reads it before, and the model starts it at `0`. `int` counters are natural numbers.
-/

namespace TdsqlMerge.Store
open Lib

/-- `Row *`, as a place in `rowHeap`. -/
abbrev RowPtr := Nat

/-- `ColumnDescriptor *`, as a place in `colHeap`. -/
abbrev ColPtr := Nat

/-- `ColumnDescriptor`; a missing `defStr` is none. -/
structure ColumnDescriptor where
  name : Str
  type : Str
  mapping : Nat
  defStr : Option Str

/-- `ColumnDescriptor::ColumnDescriptor`. -/
def ColumnDescriptor.new (name type : Str) (defStr : Option Str) : ColumnDescriptor :=
  { name, type, mapping := 0, defStr }

/-- A row with what the loader knows of it. -/
structure Row where
  data : List Str
  source : Nat
  stamp : Nat
  idxInsideTable : Nat

/-- `Row::Row`; `idxInsideTable` starts as `(size_t) -1`. -/
def Row.new (data : List Str) (source stamp : Nat) : Row :=
  { data, source, stamp, idxInsideTable := 2 ^ 64 - 1 }

/-- `UniqueIndex`; the hash map may have no entry for a hash. -/
structure UniqueIndex where
  name : Str
  cols : List ColPtr
  hash : UInt64 → Option RowPtr
  hashPhy : List Nat
  isPrimary : Bool
  isTemp : Bool

structure Table where
  colPhy : Nat
  colDes : List ColPtr
  updCol : Option ColPtr
  nameToColDes : Str → Option ColPtr
  rows : List (Option RowPtr)
  indexs : List UniqueIndex
  colHeap : List ColumnDescriptor
  rowHeap : List (Option Row)

/-- `Table::Table`. -/
def Table.new : Table :=
  { colPhy := 0, colDes := [], updCol := none, nameToColDes := fun _ => none, rows := [],
    indexs := [], colHeap := [], rowHeap := [] }

/-- The operations fail with the table they leave behind. -/
abbrev Res := Except (Fault Table)

/-- The row behind a pointer, if it is allocated. -/
def Table.row? (t : Table) (p : RowPtr) : Option Row := (t.rowHeap[p]?).join

/-- Dereference of a `Row *`. -/
def Table.row (t : Table) (p : RowPtr) : Res Row := deref (t.row? p)

/-- Dereference of a `ColumnDescriptor *`. -/
def Table.col (t : Table) (c : ColPtr) : Res ColumnDescriptor := deref t.colHeap[c]?

/-- `x->name == name` for a column pointer. -/
def Table.hasName (t : Table) (name : Str) (c : ColPtr) : Bool :=
  (t.colHeap[c]?).any fun d => decide (d.name = name)

/-- `new ColumnDescriptor(..)`: the new pointer is the old length of the heap. -/
def Table.newCol (t : Table) (d : ColumnDescriptor) : Table :=
  { t with colHeap := t.colHeap ++ [d] }

/-- `new Row(..)`. -/
def Table.newRow (t : Table) (r : Row) : Table :=
  { t with rowHeap := t.rowHeap ++ [some r] }

/-- `Table::doRowReplace`. -/
def Table.doRowReplace (t : Table) (oldRow newRow : RowPtr) : Res Table := do
  let o ← t.row oldRow
  let n ← t.row newRow
  if o.idxInsideTable < t.rows.length then
    .ok { t with
      rows := t.rows.set o.idxInsideTable (some newRow)
      rowHeap :=
        (t.rowHeap.set newRow (some { n with idxInsideTable := o.idxInsideTable })).set oldRow none }
  else .error .ub

/-- `UniqueIndex::setHashPhy`. -/
def UniqueIndex.setHashPhy (index : UniqueIndex) (t : Table) : Res UniqueIndex := do
  let hashPhy ← index.cols.mapM fun c => do
    let d ← t.col c
    .ok d.mapping
  .ok { index with hashPhy }

section
variable (hashCombine : UInt64 → Str → UInt64)

/-- `UniqueIndex::getHashOfRow`. -/
def UniqueIndex.getHashOfRow (index : UniqueIndex) (r : Row) : Res UInt64 :=
  (List.range index.cols.length).foldlM (fun hashValue i => do
    let phy ← deref index.hashPhy[i]?
    let cell ← deref r.data[phy]?
    .ok (hashCombine hashValue cell)) 2022

/-- `it->second = row; table->doRowReplace(oldRow, row); return 1;`, three times in `checkRow`. -/
def UniqueIndex.replace (index : UniqueIndex) (t : Table) (h : UInt64) (oldRow row : RowPtr) :
    Res (Int × UniqueIndex × Table) := do
  let t ← t.doRowReplace oldRow row
  .ok (1, { index with hash := Function.update index.hash h (some row) }, t)

/-- `UniqueIndex::checkRow`: `0` if the key is new, `1` if `row` replaced the row that had the key,
    `-1` if that row stays. -/
def UniqueIndex.checkRow (index : UniqueIndex) (t : Table) (row : RowPtr) :
    Res (Int × UniqueIndex × Table) := do
  let r ← t.row row
  let h ← index.getHashOfRow hashCombine r
  match index.hash h with
  | none => .ok (0, index, t)
  | some oldRow => do
    let o ← t.row oldRow
    let u ← deref t.updCol
    let upd ← t.col u
    let oldUpd ← deref o.data[upd.mapping]?
    let rowUpd ← deref r.data[upd.mapping]?
    if oldUpd = rowUpd then
      -- a tie goes to the lower source, and within a source to the later line
      if r.source < o.source then index.replace t h oldRow row
      else if r.source > o.source then .ok (-1, index, t)
      else if r.stamp > o.stamp then index.replace t h oldRow row
      else .ok (-1, index, t)
    else if oldUpd < rowUpd then index.replace t h oldRow row
    else .ok (-1, index, t)

/-- `UniqueIndex::updateRow`. -/
def UniqueIndex.updateRow (index : UniqueIndex) (t : Table) (row : RowPtr) : Res UniqueIndex := do
  let r ← t.row row
  let h ← index.getHashOfRow hashCombine r
  .ok { index with hash := Function.update index.hash h (some row) }

/-- One iteration of the loop of `UniqueIndex::reCompute`. -/
def UniqueIndex.reComputeAt (s : UniqueIndex × Table) (i : Nat) : Res (UniqueIndex × Table) := do
  match ← deref s.2.rows[i]? with
  | none => .ok s
  | some row => do
    let (checkRes, index, t) ← s.1.checkRow hashCombine s.2 row
    if checkRes = 0 then do
      let index ← index.updateRow hashCombine t row
      .ok (index, t)
    -- `row` lost, or moved into the slot of the row it replaced
    else .ok (index, { t with rows := t.rows.set i none })

/-- `UniqueIndex::reCompute`. -/
def UniqueIndex.reCompute (index : UniqueIndex) (t : Table) : Res (UniqueIndex × Table) :=
  (List.range t.rows.length).foldlM (UniqueIndex.reComputeAt hashCombine)
    ({ index with hash := fun _ => none }, t)

/-- `UniqueIndex::UniqueIndex(Table *, std::string, const std::vector<std::string> &, bool)`. -/
def UniqueIndex.named (t : Table) (name : Str) (colStrs : List Str) (isPrimary : Bool) :
    Res (UniqueIndex × Table) := do
  -- what `find_if` returns is not compared with the end
  let cols ← colStrs.mapM fun colStr => deref (t.colDes.find? (t.hasName colStr))
  let index : UniqueIndex :=
    { name, cols, hash := fun _ => none, hashPhy := [], isPrimary, isTemp := false }
  let index ← index.setHashPhy t
  index.reCompute hashCombine t

/-- `UniqueIndex::UniqueIndex(Table *)`: the temporary index over all columns but `updated_at`. -/
def UniqueIndex.temp (t : Table) : Res (UniqueIndex × Table) := do
  -- `erase` of the end if `updated_at` is no column of the table
  let u ← deref t.updCol
  if u ∈ t.colDes then
    let index : UniqueIndex :=
      { name := "___TEMP_PRIMARY".toList, cols := t.colDes.erase u, hash := fun _ => none,
        hashPhy := [], isPrimary := false, isTemp := true }
    let index ← index.setHashPhy t
    index.reCompute hashCombine t
  else .error .ub

/-- `UniqueIndex::deleteCol`. -/
def UniqueIndex.deleteCol (index : UniqueIndex) (t : Table) (delCol : ColPtr) :
    Res (UniqueIndex × Table) := do
  if delCol ∈ index.cols then
    let index ← { index with cols := index.cols.erase delCol }.setHashPhy t
    index.reCompute hashCombine t
  else .ok (index, t)

/-- `indexs.push_back(new UniqueIndex(this))`. -/
def Table.pushTemp (t : Table) : Res Table := do
  let (index, t) ← UniqueIndex.temp hashCombine t
  .ok { t with indexs := t.indexs ++ [index] }

/-- `Table::dropUniqueIndex`. -/
def Table.dropUniqueIndex (t : Table) (isPrimary isTemp : Bool) (indexName : Str) : Res Table := do
  let toDrop := t.indexs.findIdx? fun index =>
    if isPrimary then index.isPrimary
    else if isTemp then index.isTemp
    else decide (index.name = indexName)
  match toDrop with
  -- an index that is not there is only reported
  | none => .ok t
  | some i =>
    let t := { t with indexs := t.indexs.eraseIdx i }
    if t.indexs.isEmpty then t.pushTemp hashCombine else .ok t

/-- The placement of a new column in `colDes` at the start of `Table::addColumn`. -/
def Table.placeColumn (t : Table) (newCol : ColPtr) : Option Str → Res Table
  | some after =>
    match t.colDes.findIdx? (t.hasName after) with
    | none => .error (.throw "Can not find col to insert!" t)
    | some i => .ok { t with colDes := t.colDes.insertIdx (i + 1) newCol }
  | none => .ok { t with colDes := t.colDes ++ [newCol] }

/-- `nameToColDes[newCol->name] = newCol; newCol->mapping = colPhy++;` and the update of `updCol` in
    `Table::addColumn`. -/
def Table.registerColumn (t : Table) (newCol : ColPtr) : Res Table := do
  let d ← t.col newCol
  .ok { t with
    nameToColDes := Function.update t.nameToColDes d.name (some newCol)
    colHeap := t.colHeap.set newCol { d with mapping := t.colPhy }
    colPhy := t.colPhy + 1
    updCol := if d.name = updatedAt then some newCol else t.updCol }

/-- `row->data.push_back(cell)` for one slot of `rows`. -/
def Table.pushCell (cell : Str) (t : Table) : Option RowPtr → Res Table
  | none => .ok t
  | some p => do
    let r ← t.row p
    .ok { t with rowHeap := t.rowHeap.set p (some { r with data := r.data ++ [cell] }) }

/-- `Table::addColumn`. -/
def Table.addColumn (t : Table) (newCol : ColPtr) (after : Option Str) : Res Table := do
  let t ← t.placeColumn newCol after
  let t ← t.registerColumn newCol
  let d ← t.col newCol
  let t ← t.rows.foldlM (Table.pushCell (d.defStr.getD [])) t
  match t.indexs with
  | [] => .ok t
  -- if it is the only one, a new temporary index takes its place
  | index :: _ => if index.isTemp then t.dropUniqueIndex hashCombine false true [] else .ok t

/-- `Table::insertRow`; the index is `*indexs.begin()`. -/
def Table.insertRow (s : UniqueIndex × Table) (newRow : RowPtr) : Res (UniqueIndex × Table) := do
  let (checkRes, index, t) ← s.1.checkRow hashCombine s.2 newRow
  if checkRes = 0 then do
    let index ← index.updateRow hashCombine t newRow
    let r ← t.row newRow
    .ok (index, { t with
      rowHeap := t.rowHeap.set newRow (some { r with idxInsideTable := t.rows.length })
      rows := t.rows ++ [some newRow] })
  else .ok (index, t)

/-- `Table::insertRows`. -/
def Table.insertRows (t : Table) (newRows : List RowPtr) : Res Table :=
  match t.indexs with
  | [index] => do
    let (index, t) ← newRows.foldlM (Table.insertRow hashCombine) (index, t)
    .ok { t with indexs := [index] }
  | _ => .error (.throw "Index size should be 1!" t)

/-- `Table::addUniqueIndex`. -/
def Table.addUniqueIndex (t : Table) (name : Str) (colNames : List Str) (isPrimary : Bool) :
    Res Table :=
  match t.indexs with
  | [index] =>
    if index.isTemp then do
      let (index, t) ←
        UniqueIndex.named hashCombine { t with indexs := [] } name colNames isPrimary
      .ok { t with indexs := t.indexs ++ [index] }
    else .error (.throw "Trying to insert a second non-temporary index!" t)
  | _ => .error (.throw "Size of indexs not equal to 1 when doing addUniqueIndex!" t)

/-- The loop of `Table::dropColumn` over the indexes: a column is taken out of each, and an index
    without columns is erased. -/
def Table.deleteColFrom (delCol : ColPtr) :
    List UniqueIndex → Table → Res (List UniqueIndex × Table)
  | [], t => .ok ([], t)
  | index :: rest, t => do
    let (index, t) ← index.deleteCol hashCombine t delCol
    let (rest, t) ← Table.deleteColFrom delCol rest t
    .ok (if index.cols.isEmpty then rest else index :: rest, t)

/-- `Table::dropColumn`. -/
def Table.dropColumn (t : Table) (colName : Str) : Res Table :=
  match t.colDes.find? (t.hasName colName) with
  | none => .error (.throw "Can not find column to drop!" t)
  | some col => do
    let (indexs, t) ← Table.deleteColFrom hashCombine col t.indexs t
    let t := { t with indexs, colDes := t.colDes.erase col }
    let t ← if t.indexs.isEmpty then t.pushTemp hashCombine else .ok t
    .ok { t with nameToColDes := Function.update t.nameToColDes colName none }

end

/-- `Table::getPhyPosArray`. -/
def Table.getPhyPosArray (t : Table) : Res (List Nat) :=
  t.colDes.mapM fun c => do
    let d ← t.col c
    .ok d.mapping

end TdsqlMerge.Store
