import Mathlib.Data.List.Induction
import Mathlib.Data.List.TakeWhile
import TdsqlMerge.Pusher.PushFromFile

/-!
# The batches of a push

`pushed_once`: the INSERT statements of `Pusher::pushFromFile` hold one tuple for each row in a slot, in the
order of the slots, between one and `push_split_threshold` of them in a statement. What the server refuses has
no influence on the statements.
-/

namespace TdsqlMerge.Pusher
open Lib Store

/-- The tuples of a statement, from its lines. -/
def tuples (batch : List Str) : Str := List.intercalate [','] (batch.map fun line => '(' :: line ++ [')'])

/-- The last part stands behind a separator. -/
lemma intercalate_concat {α : Type} {sep : α} {q : List α} {ps : List (List α)} (ne : ps ≠ []) :
    List.intercalate [sep] (ps ++ [q]) = List.intercalate [sep] ps ++ sep :: q := by
  induction ps with
  | nil => exact absurd rfl ne
  | cons p ps ih =>
    cases ps with
    | nil => simp
    | cons p' ps =>
      rw [List.cons_append, List.cons_append, intercalate_cons_cons, ← List.cons_append,
        ih (List.cons_ne_nil p' ps), intercalate_cons_cons]
      simp

/-- A further tuple. -/
lemma tuples_concat {batch : List Str} {line : Str} :
    tuples (batch ++ [line]) =
      tuples batch ++ (if batch.length ≠ 0 then [','] else []) ++ '(' :: line ++ [')'] := by
  by_cases e : batch = []
  · subst e
    simp [tuples]
  · have pos : batch.length ≠ 0 := by simpa using e
    rw [if_pos pos, tuples, List.map_append, List.map_singleton, intercalate_concat (by simpa using e), tuples]
    simp

/-- The lines pushed so far: the flushed ones in their batches, and those of the next statement. -/
structure Pushed (threshold : Int) (lines : List Str) (batches : List (List Str)) (batch : List Str) : Prop where
  all : batches.flatten ++ batch = lines.map nullSubst
  size : ∀ b ∈ batches, 1 ≤ b.length ∧ (b.length : Int) ≤ threshold
  open_lt : (batch.length : Int) < threshold

/-- The locals of `pushFromFile` after these batches. -/
structure PushState.At (s : PushState) (executed : List Str) (header : Str) (batches : List (List Str))
    (batch : List Str) : Prop where
  executed : s.sqlInstance.executed = executed ++ batches.map fun b => header ++ tuples b
  content : s.pushSQLContent = tuples batch
  count : s.contentCount = batch.length

section
variable {threshold : Int} {lines batch executed : List Str} {batches : List (List Str)} {line header : Str}
  {s : PushState} {refuses : List Str → Str → Bool}

/-- An iteration adds the line to the open statement, or flushes the statement with it. -/
lemma pushLine_at (at_ : s.At executed header batches batch) :
    if ((batch.length + 1 : Nat) : Int) ≥ threshold then
      (pushLine refuses header threshold s line).At executed header (batches ++ [batch ++ [nullSubst line]]) []
    else (pushLine refuses header threshold s line).At executed header batches (batch ++ [nullSubst line]) := by
  have content : s.pushSQLContent ++ (if s.contentCount ≠ 0 then [','] else []) ++ '(' :: nullSubst line ++ [')'] =
      tuples (batch ++ [nullSubst line]) := by
    rw [tuples_concat, at_.content, at_.count]
  rw [pushLine, at_.count]
  rw [at_.count] at content
  rw [content]
  split
  · refine ⟨?_, rfl, rfl⟩
    rw [flushSQL, at_.executed]
    simp
  · exact ⟨at_.executed, rfl, by simp⟩

/-- The loop makes the same batches whatever the server refuses. -/
lemma foldl_pushLine (pos : 1 ≤ threshold) : ∃ batches batch, Pushed threshold lines batches batch ∧
    ∀ refuses header sqlInstance,
      (lines.foldl (pushLine refuses header threshold) { sqlInstance, pushSQLContent := [], contentCount := 0 }).At
        sqlInstance.executed header batches batch := by
  induction lines using List.reverseRecOn with
  | nil =>
    refine ⟨[], [], ⟨rfl, by simp, by rw [List.length_nil]; omega⟩, ?_⟩
    intro refuses header sqlInstance
    exact ⟨by simp, rfl, rfl⟩
  | append_singleton lines line ih =>
    obtain ⟨batches, batch, pushed, at_⟩ := ih
    by_cases full : ((batch.length + 1 : Nat) : Int) ≥ threshold
    · refine ⟨batches ++ [batch ++ [nullSubst line]], [], ⟨?_, ?_, by rw [List.length_nil]; omega⟩, ?_⟩
      · rw [List.map_append, ← pushed.all]
        simp
      · intro b mem
        rcases List.mem_append.mp mem with old | new
        · exact pushed.size b old
        · have lt := pushed.open_lt
          rw [List.mem_singleton.mp new, List.length_append, List.length_singleton]
          omega
      · intro refuses header sqlInstance
        have step := @pushLine_at threshold _ _ _ line _ _ refuses (at_ refuses header sqlInstance)
        rw [if_pos full] at step
        rwa [List.foldl_append]
    · refine ⟨batches, batch ++ [nullSubst line], ⟨?_, pushed.size, ?_⟩, ?_⟩
      · rw [List.map_append, ← pushed.all]
        simp
      · rw [List.length_append, List.length_singleton]
        omega
      · intro refuses header sqlInstance
        have step := @pushLine_at threshold _ _ _ line _ _ refuses (at_ refuses header sqlInstance)
        rw [if_neg full] at step
        rwa [List.foldl_append]

/-- The statements of a push, from the lines it sees. -/
lemma pushFromFile_batches {result : Str} (pos : 1 ≤ threshold) : ∃ batches : List (List Str),
    batches.flatten = (pushedLines result).map nullSubst ∧
      (∀ b ∈ batches, 1 ≤ b.length ∧ (b.length : Int) ≤ threshold) ∧
      ∀ refuses tableName finalTableCols sqlInstance,
        (pushFromFile refuses tableName finalTableCols result threshold sqlInstance).executed =
          sqlInstance.executed ++ batches.map fun b => pushSQLHeader tableName finalTableCols ++ tuples b := by
  obtain ⟨batches, batch, pushed, at_⟩ := @foldl_pushLine threshold (pushedLines result) pos
  by_cases e : batch = []
  · subst e
    refine ⟨batches, ?_, pushed.size, ?_⟩
    · rw [← pushed.all, List.append_nil]
    · intro refuses tableName finalTableCols sqlInstance
      have at_ := at_ refuses (pushSQLHeader tableName finalTableCols) sqlInstance
      have none : ¬ (0 ≠ 0) := by simp
      rw [pushFromFile, at_.count, List.length_nil, if_neg none, at_.executed]
  · have some : batch.length ≠ 0 := by simpa using e
    refine ⟨batches ++ [batch], ?_, ?_, ?_⟩
    · rw [← pushed.all]
      simp
    · intro b mem
      rcases List.mem_append.mp mem with old | new
      · exact pushed.size b old
      · have lt := pushed.open_lt
        rw [List.mem_singleton.mp new]
        omega
    · intro refuses tableName finalTableCols sqlInstance
      have at_ := at_ refuses (pushSQLHeader tableName finalTableCols) sqlInstance
      rw [pushFromFile, at_.count, if_pos some, flushSQL, at_.executed, at_.content]
      simp

end

section
variable {hashCombine : UInt64 → Str → UInt64} {t : Table} {rows : List (Option RowPtr)} {threshold : Int}

/-- A cell is written as some text. -/
lemma written_ne_nil {c : ColPtr} {cell : Str} : t.written c cell ≠ [] := by
  rw [Table.written]
  split
  · decide
  · rw [quotedToStream_eq]
    simp

/-- With a column, no line is empty. -/
lemma line_ne_nil {data : List Str} (cols : t.colDes ≠ []) : t.line data ≠ [] := by
  have full : ∀ p ∈ t.colDes.map (fun c => t.written c (data.getD c [])), p ≠ [] := by
    intro p mem
    obtain ⟨c, _, rfl⟩ := List.mem_map.mp mem
    exact written_ne_nil
  have le := @length_le_intercalate _ ',' _ full
  rw [List.length_map] at le
  intro none
  rw [← Table.line, none] at le
  have pos := List.length_pos_iff.mpr cols
  rw [List.length_nil] at le
  omega

/-- The rows in the slots, in their order. -/
lemma slots_rows (wide : ∀ p, some p ∈ rows → ∃ r, rowAt t.rowHeap p = some r) :
    List.Forall₂ (fun p x => ∃ r, t.row? p = some r ∧ r.record = x) (rows.filterMap id)
      ((slots rows t.rowHeap).filterMap id) := by
  induction rows with
  | nil => exact .nil
  | cons slot rows ih =>
    have rest := ih fun p mem => wide p (List.mem_cons_of_mem _ mem)
    cases slot with
    | none => exact rest
    | some p =>
      obtain ⟨r, hr⟩ := wide p List.mem_cons_self
      have here : slotVal t.rowHeap (some p) = some r.record := by
        show (rowAt t.rowHeap p).map Row.record = _
        rw [hr]
        rfl
      rw [slots, List.map_cons, here]
      exact .cons ⟨r, hr, rfl⟩ rest

/-- The statements of a push of a table whose CREATE has `updated_at` hold one tuple for each row in a slot, in the
    order of the slots, whatever the server refuses. -/
theorem pushed_once (ld : Loaded hashCombine t) (perm : rows.Perm t.rows) (cols : t.colDes ≠ [])
    (pos : 1 ≤ threshold) : ∃ csv, Table.dumpToFile { t with rows } = .ok csv ∧
      ∃ batches : List (List Str),
        List.Forall₂ (fun p tuple => ∃ r, t.row? p = some r ∧ tuple = nullSubst (t.line r.data))
          (rows.filterMap id) batches.flatten ∧
        (∀ b ∈ batches, 1 ≤ b.length ∧ (b.length : Int) ≤ threshold) ∧
        ∀ refuses tableName finalTableCols sqlInstance,
          (pushFromFile refuses tableName finalTableCols csv threshold sqlInstance).executed =
            sqlInstance.executed ++ batches.map fun b => pushSQLHeader tableName finalTableCols ++ tuples b := by
  obtain ⟨csv, dump, lines⟩ := ld.dumped perm
  obtain ⟨batches, all, size, executed⟩ := @pushFromFile_batches threshold csv pos
  refine ⟨csv, dump, batches, ?_, size, executed⟩
  have seen : pushedLines csv = getlines csv := by
    rw [pushedLines, lines]
    apply List.takeWhile_eq_self_iff.mpr
    intro line mem
    obtain ⟨x, _, rfl⟩ := List.mem_map.mp mem
    exact decide_eq_true (line_ne_nil cols)
  rw [all, seen, lines, List.map_map, List.forall₂_map_right_iff]
  have wide := (ld.writable.perm perm).wide
  refine (slots_rows fun p mem => ?_).imp ?_
  · obtain ⟨r, hr, _⟩ := wide p mem
    exact ⟨r, hr⟩
  · rintro p x ⟨r, hr, rfl⟩
    exact ⟨r, hr, rfl⟩

end

/-- With threshold 1 two rows of notes are pushed in batches of one. -/
theorem notes_pushed : ∃ t csv, filesRun (notesDdl "0\n") "\"a\",\"5\"\n\"b\",\"5\"\n".toList = .ok t ∧
    t.dumpToFile = .ok csv ∧ ∃ batches : List (List Str), batches.flatten.length = 2 ∧
      (∀ b ∈ batches, 1 ≤ b.length ∧ (b.length : Int) ≤ 1) ∧
      ∀ refuses tableName finalTableCols sqlInstance,
        (pushFromFile refuses tableName finalTableCols csv 1 sqlInstance).executed =
          sqlInstance.executed ++ batches.map fun b => pushSQLHeader tableName finalTableCols ++ tuples b := by
  have run : (filesRun (notesDdl "0\n") "\"a\",\"5\"\n\"b\",\"5\"\n".toList).toOption.any (fun t =>
      t.colDes = [0, 1] ∧ (t.rows.filterMap id).length = 2) = true := by decide +kernel
  obtain ⟨t, run, h⟩ := ok_of_any run
  obtain ⟨cols, two⟩ := of_decide_eq_true h
  have ld := filesRun_loaded run (by decide +kernel)
  obtain ⟨csv, dump, batches, tuples, size, executed⟩ := pushed_once ld (.refl t.rows) (by simp [cols]) le_rfl
  exact ⟨t, csv, run, dump, batches, by rw [← tuples.length_eq, two], size, executed⟩

end TdsqlMerge.Pusher
