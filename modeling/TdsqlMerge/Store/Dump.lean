import TdsqlMerge.Store.Table

/-!
# Writing the result

Embedding of `Table::dumpToFile` (`src/structure/table.cpp`) and of `EscapedResolver::quotedToStream`
(`src/utils/escapedstr.cpp`): the text of `result.csv`.
-/

namespace TdsqlMerge.Store
open Lib

/-- `EscapedResolver::quotedToStream`. -/
def quotedToStream (str : Str) : Str :=
  '\'' :: (str.flatMap fun c => if c = '\'' then ['\\', '\''] else [c]) ++ ['\'']

/-- One value of a row in `dumpToFile`. -/
def Table.dumpCell (t : Table) (phyPos : List Nat) (r : Row) (i : Nat) : Res Str := do
  let c ← deref t.colDes[i]?
  let d ← t.col c
  let phy ← deref phyPos[i]?
  let cell ← deref r.data[phy]?
  .ok (if d.defStr = some cell then "DEFAULT".toList else quotedToStream cell)

/-- One slot of the row loop of `dumpToFile`. -/
def Table.dumpSlot (t : Table) (phyPos : List Nat) : Option RowPtr → Res Str
  | none => .ok []
  | some p => do
    let r ← t.row p
    let cells ← (List.range phyPos.length).mapM (t.dumpCell phyPos r)
    .ok (List.intercalate [','] cells ++ ['\n'])

/-- `Table::dumpToFile`. -/
def Table.dumpToFile (t : Table) : Res Str := do
  let phyPos ← t.getPhyPosArray
  let lines ← t.rows.mapM (t.dumpSlot phyPos)
  .ok lines.flatten

end TdsqlMerge.Store
