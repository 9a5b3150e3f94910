import TdsqlMerge.Lib.Lines
import TdsqlMerge.Store.Table

/-!
# Reading a `.dat` file

Embedding of `src/utils/escapedstr.cpp` (`EscapedResolver::parseEscaped`) and
`src/utils/datparser.cpp` (`DATParser::parseData`).
-/

namespace TdsqlMerge.Store
open Lib

/-- `vec[insPos[curPos]] += c`. -/
def appendCell (vec : List Str) (insPos : List Nat) (curPos : Nat) (c : Char) : Res (List Str) := do
  let pos ← deref insPos[curPos]?
  let cell ← deref vec[pos]?
  .ok (vec.set pos (cell ++ [c]))

/-- The loop of `EscapedResolver::parseEscaped` on the bytes from index `i` on. A backslash at the very
    end of the line reads the terminating `'\0'`; a quote skips itself and two more bytes, whatever they
    are. -/
def parseLoop (insPos : List Nat) (vecSize : Nat) : Str → Nat → List Str → Res (List Str)
  | [], _, vec => .ok vec
  | '\\' :: [], curPos, vec => appendCell vec insPos curPos (Char.ofNat 0)
  | '\\' :: c :: rest, curPos, vec => do
    let vec ← appendCell vec insPos curPos c
    parseLoop insPos vecSize rest curPos vec
  | '"' :: rest, curPos, vec => do
    -- `vec[insPos[curPos]].reserve(strInitSize)` changes no cell but has to be in range
    if curPos + 1 < vecSize then
      let pos ← deref insPos[curPos + 1]?
      let _ ← deref vec[pos]?
    match rest with
    | _ :: _ :: rest => parseLoop insPos vecSize rest (curPos + 1) vec
    | _ => .ok vec
  | c :: rest, curPos, vec => do
    let vec ← appendCell vec insPos curPos c
    parseLoop insPos vecSize rest curPos vec

/-- `EscapedResolver::parseEscaped`. The initial estimate divides by `vecSize - 1`. -/
def parseEscaped (vec : List Str) (rawStr : Str) (vecSize : Nat) (insPos : List Nat) :
    Res (List Str) :=
  if vecSize = 1 then .error .ub
  else parseLoop insPos vecSize (rawStr.drop 1) 0 vec

/-- One iteration of the loop of `DATParser::parseData`, which counts `stamp` up. -/
def parseLine (source : Nat) (insPos : List Nat) (s : List RowPtr × Nat × Table) (line : Str) :
    Res (List RowPtr × Nat × Table) := do
  let (ret, stamp, t) := s
  let lineRes ← parseEscaped (List.replicate t.colPhy []) line insPos.length insPos
  .ok (ret ++ [t.rowHeap.length], stamp + 1, t.newRow (.new lineRes source stamp))

/-- `DATParser::parseData` on the text of a `.dat` file: the rows it made, the next stamp and the
    table with the rows on its heap. -/
def Table.parseData (t : Table) (dat : Str) (source startStamp : Nat) :
    Res (List RowPtr × Nat × Table) := do
  let insPos ← t.getPhyPosArray
  (getlines dat).foldlM (parseLine source insPos) ([], startStamp, t)

end TdsqlMerge.Store
