import TdsqlMerge.Store.DatParser
import TdsqlMerge.Store.Statement

/-!
# Replaying one table

Embedding of the state loop of `SubWorker::work` and of `SubWorker::Trace`
(`src/worker_impl/subworker.cpp`), up to the call of `optimizeTableForDump`.
-/

namespace TdsqlMerge.Store
open Lib

/-- A `WorkDescriptor` with the files below its `binlogPath`: `ddl k` is the text of `0/k.ddl` and
    `dat i k` that of `i/k.dat`; a missing file reads as the empty text. -/
structure WorkDescriptor where
  stateCount : Nat
  ddl : Nat → Str
  dat : Nat → Nat → Str

/-- `workDes->table` and the local `stamp` of `SubWorker::work`. -/
structure WorkState where
  table : Option Table
  stamp : Nat → Nat

section
variable (hashCombine : UInt64 → Str → UInt64)

/-- `SubWorker::Trace`. -/
def Trace (table : Option Table) (state : Nat) (statement : Statement) : Res Table :=
  match statement with
  | .create _ _ _ =>
    -- CREATE TABLE IF NOT EXISTS of a table that exists
    if state ≠ 0 then deref table
    else statement.fillToTable hashCombine Table.new
  | _ => do
    let t ← deref table
    statement.fillToTable hashCombine t

/-- The statement of a state and its effect on the table. -/
def WorkDescriptor.traceAt (wd : WorkDescriptor) (s : WorkState) (state : Nat) : Res Table :=
  match Statement.getStatement (wd.ddl state) with
  | .error what => .error (.throw what (s.table.getD Table.new))
  | .ok statement => Trace hashCombine s.table state statement

/-- The inner loop body of `SubWorker::work`: one source of one state. -/
def WorkDescriptor.mergeSource (wd : WorkDescriptor) (state : Nat) (s : Table × (Nat → Nat))
    (source : Nat) : Res (Table × (Nat → Nat)) := do
  let (t, stamp) := s
  let (newRows, nextStamp, t) ← t.parseData (wd.dat source state) source (stamp source)
  let t ← t.insertRows hashCombine newRows
  .ok (t, Function.update stamp source nextStamp)

/-- The outer loop body of `SubWorker::work`. -/
def WorkDescriptor.enterState (wd : WorkDescriptor) (s : WorkState) (state : Nat) :
    Res WorkState := do
  let t ← wd.traceAt hashCombine s state
  let (t, stamp) ← (List.range 2).foldlM (wd.mergeSource hashCombine state) (t, s.stamp)
  .ok { table := some t, stamp }

/-- The state loop of `SubWorker::work` run up to state `n`. -/
def WorkDescriptor.statesTo (wd : WorkDescriptor) (n : Nat) : Res WorkState :=
  (List.range n).foldlM (wd.enterState hashCombine) { table := none, stamp := fun _ => 0 }

/-- `SubWorker::work` up to `optimizeTableForDump`, which dereferences the table. -/
def WorkDescriptor.work (wd : WorkDescriptor) : Res Table := do
  let s ← wd.statesTo hashCombine wd.stateCount
  deref s.table

end

section
variable {hashCombine : UInt64 → Str → UInt64} {wd : WorkDescriptor}

/-- The state loop enters one state after the other. -/
lemma WorkDescriptor.statesTo_succ {n : Nat} :
    wd.statesTo hashCombine (n + 1) =
      wd.statesTo hashCombine n >>= fun s => wd.enterState hashCombine s n := by
  rw [WorkDescriptor.statesTo, List.range_succ, List.foldlM_append]
  apply bind_congr
  intro s
  rw [List.foldlM_cons]
  exact bind_pure _

/-- One state is the statement and the files of the two sources. -/
lemma enterState_ok {n : Nat} {s s' : WorkState} (run : wd.enterState hashCombine s n = .ok s') :
    ∃ t t1 t2 stamp1 stamp2, wd.traceAt hashCombine s n = .ok t ∧
      wd.mergeSource hashCombine n (t, s.stamp) 0 = .ok (t1, stamp1) ∧
      wd.mergeSource hashCombine n (t1, stamp1) 1 = .ok (t2, stamp2) ∧
      s' = { table := some t2, stamp := stamp2 } := by
  rw [WorkDescriptor.enterState, bind_ok] at run
  obtain ⟨t, trace, run⟩ := run
  rw [bind_ok] at run
  obtain ⟨⟨t2, stamp2⟩, fold, e⟩ := run
  cases e
  have two : List.range 2 = [0, 1] := rfl
  simp only [two, List.foldlM_cons, List.foldlM_nil, bind_ok] at fold
  obtain ⟨⟨t1, stamp1⟩, first, ⟨t2', stamp2'⟩, second, e⟩ := fold
  cases e
  exact ⟨t, t1, t2, stamp1, stamp2, trace, first, second, rfl⟩

end

end TdsqlMerge.Store
