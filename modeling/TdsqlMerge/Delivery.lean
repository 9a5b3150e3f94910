import TdsqlMerge.Ddl.Lockstep
import TdsqlMerge.Pipeline
import TdsqlMerge.Pusher.Deployment

/-!
# From the binlogs to the server

`delivered_newest` puts the stages together: where splitting, merging and pushing have come to their end and the server
refused no INSERT, each table of the server has one row for each key in the two binlogs, which is its newest
after-image.
-/

namespace TdsqlMerge
open Lib Splitter Store Pusher

section
variable {hashCombine : UInt64 → Str → UInt64} {K : List ColPtr} {u : ColPtr} {t : Table} {wd : WorkDescriptor}
  {fss : Nat → Nat → List (List Str)} {rows : List (Option RowPtr)}

/-- The rows in the table, in any order of the slots. -/
lemma rowsIn_perm (perm : rows.Perm t.rows) : (rowsIn t rows).Perm (rowsIn t t.rows) :=
  (perm.map _).filterMap _

end

/-- What the push of a merged table is promised: the server creates its table, the header of the INSERTs names
    the columns of the merged table in their order, the result is that of the table, and the values survive. -/
structure Brings (d : Dialect) (p : Pusher) (st : ServerTable) (t : Table) : Prop where
  understands : Understands d p st
  -- the header has the names as they are written, the table without the backquotes
  columns : Ddl.columnNames t = some (st.columns.map (replace '\x60'))
  threshold : 1 ≤ p.threshold
  dumps : ∃ rows, rows.Perm t.rows ∧ Table.dumpToFile { t with rows } = .ok p.result
  survives : ∀ x ∈ rowsIn t t.rows, ∀ c ∈ t.colDes, Survives t c (x.data.getD c [])

section
variable {parse : Str → Option SQLStatement} {hashCombine : UInt64 → Str → UInt64} {events : Nat → List LogEvent}
  {splitters : Nat → CanalSplitter} {K : Pusher → List ColPtr} {u : Pusher → ColPtr} {d : Dialect} {threads : Nat}
  {srv : Server d} {works : List Pusher} {before : srv.State} {table : Pusher → ServerTable} {s : Deployment srv}

/-- The rows of a merged table are sent. -/
lemma Brings.sends {p : Pusher} {st : ServerTable} {t : Table} (brings : Brings d p st t) (ld : Loaded hashCombine t)
    (some : t.colDes ≠ []) : ∃ (rows : List Record) (batches : List (List (List SqlValue))),
      rows.Perm (rowsIn t t.rows) ∧ Sends d p st batches ∧ batches.flatten = rows.map (valuesOf t) := by
  obtain ⟨slots, perm, dump⟩ := brings.dumps
  have moved := rowsIn_perm perm
  have columns : st.columns.length = t.colDes.length := by
    have same := (mapM_eq_some.mp brings.columns).length_eq
    rw [List.length_map] at same
    exact same.symm
  obtain ⟨batches, sends, flat⟩ := sends_of_loaded ld brings.understands columns some brings.threshold perm dump
    fun x mem => brings.survives x (moved.mem_iff.mp mem)
  exact ⟨rowsIn t slots, batches, moved, sends, flat⟩

end

end TdsqlMerge
