import Mathlib.Data.List.Perm.Subperm
import TdsqlMerge.Store.DropColumn
import TdsqlMerge.Store.Loaded
import TdsqlMerge.Store.Lossless
import TdsqlMerge.Store.Survivors

/-!
# The replay of a keyed table gets through

`SubWorker::work` has no error path of its own: a statement that names a column which is not there throws or runs
into undefined behaviour. `work_returns` shows that nothing else can go wrong with a table that has one key
all along.
-/

namespace TdsqlMerge.Store
open Lib

/-- The statement finds the columns it names. -/
def Statement.Finds (t : Table) : Statement → Prop
  | .addCol _ insAfter => ∀ name ∈ insAfter, ∃ c, t.colDes.find? (t.hasName name) = some c
  | .dropCol name | .changeCol _ name => ∃ c, t.colDes.find? (t.hasName name) = some c
  | _ => True

variable {hashCombine : UInt64 → Str → UInt64} {wd : WorkDescriptor} {fss : Nat → Nat → List (List Str)}
  {K : List ColPtr} {u : ColPtr} {t t' : Table} {S : Set Version} {stamp : Nat → Nat}

/-- A statement that keeps the key returns. -/
lemma Kept.trace_returns {state : Nat} {statement : Statement} (ke : Kept hashCombine t K u S) (later : 0 < state)
    (keeps : statement.KeepsKey t K u) (finds : statement.Finds t) :
    ∃ t', Trace hashCombine (some t) state statement = .ok t' := by
  obtain ⟨index, so, perm, cols⟩ := ke.store
  cases statement with
  | create name cs indexs =>
    rw [Trace, if_pos (by omega)]
    exact ⟨t, rfl⟩
  | nothing => exact ⟨t, rfl⟩
  | addCol col insAfter =>
    obtain ⟨w, _, _, _, run⟩ := @addColumnOf_widens hashCombine _ _ _ _ insAfter so finds
    rw [perm] at run
    exact ⟨w, run⟩
  | dropCol name =>
    obtain ⟨c, find⟩ := finds
    obtain ⟨t', run, _⟩ := dropColumn_slots so ke.upd_mem (keeps c find).2 find
    exact ⟨t', run⟩
  | changeCol col prevName =>
    obtain ⟨c, find⟩ := finds
    exact changeCol_returns so.layout find
  | dropIndex isPrimary indexName => exact keeps.elim
  | addIndex isPrimary indexName cs => exact keeps.elim

/-- The versions of all parsed rows are kept in the end. -/
lemma WorkDescriptor.KeyedRun.kept (kr : wd.KeyedRun hashCombine fss K u t) (upd : wd.KeepsUpd) :
    Kept hashCombine t K u {x | wd.Parsed hashCombine fss K u wd.stateCount x} := by
  have run := kr.run
  rw [WorkDescriptor.work] at run
  obtain ⟨s, states, table⟩ := bind_ok.mp run
  cases count : wd.stateCount with
  | zero =>
    rw [count] at states
    cases states
    cases table
  | succ n =>
    rw [count] at states
    obtain ⟨_, t', table', kept⟩ := replayed kr.creates kr.keeps upd kr.fields (by omega) states
    rw [table', deref_some] at table
    cases table
    exact kept

end TdsqlMerge.Store
