import TdsqlMerge.Lib.Along
import TdsqlMerge.Pusher.Server

/-!
# Where a push leads

The calls of `Pusher::push`, whatever the server answers to them (`Sends.along`): until the first INSERT is answered the
table is the one that was there before, or absent, or empty; then it holds the rows of the INSERTs so far that the
server took, and in the end those of all that it took. An INSERT that it refuses adds nothing, and the push goes on
(`ServerTable.lands`).
-/

namespace TdsqlMerge.Pusher
open Lib Store

/-- The rows of the INSERTs that the server took, by its answers. -/
def taken (batches : List (List (List SqlValue))) (answers : List Bool) : List (List SqlValue) :=
  (batches.zip answers).flatMap fun b => if b.2 then b.1 else []

/-- What the INSERTs of a push make of a table, by the answers of the server. -/
def ServerTable.lands (t : ServerTable) (batches : List (List (List SqlValue))) (answers : List Bool) : ServerTable :=
  t.append (taken batches answers)

/-- The text is an INSERT of a push, and these are its rows. -/
def SentAs (name finalTableCols : Str) (n : Nat) (sql : Str) (rows : List (List SqlValue)) : Prop :=
  ∃ batch, batch ≠ [] ∧ sql = pushSQLHeader name finalTableCols ++ tuples batch ∧ List.Forall₂ (ReadsAs n) batch rows

/-- The server creates the table of the push, with the columns of `finalTableCols.txt`. -/
structure Understands (d : Dialect) (p : Pusher) (t : ServerTable) : Prop where
  bare : d.bare p.dbName = true
  quoted : '\x60' ∉ p.tableName
  ddl : readInto p.finalTable = none ∧ p.finalTable ≠ "SET unique_checks=0;".toList
  creates : d.creates p.finalTable = some (p.tableName, t)
  empty : t.rows = []
  columns : getlines p.finalTableCols = t.columns

/-- A push to a table that the server creates, with the rows of its statements. -/
structure Sends (d : Dialect) (p : Pusher) (t : ServerTable) (batches : List (List (List SqlValue))) : Prop
    extends Understands d p t where
  inserts : List.Forall₂ (SentAs p.tableName p.finalTableCols t.columns.length) p.inserts batches

/-- What a table can be while it is pushed, by the answers so far: before the first one it can be the old one or absent;
    else it is the new one with the rows of the INSERTs that were taken, but for an answer whose COMMIT is to come. -/
def Partly (before : Option ServerTable) (t : ServerTable) (batches : List (List (List SqlValue))) (answers : List Bool)
    (o : Option ServerTable) : Prop :=
  answers = [] ∧ (o = before ∨ o = none) ∨
    ∃ k ≤ answers.length, answers.length ≤ k + 1 ∧ o = some (t.lands (batches.take k) answers)

section
variable {d : Dialect} {p : Pusher} {t t' : ServerTable} {batches done : List (List (List SqlValue))}
  {rows : List (List SqlValue)} {sql : Str} {sqls : List Str} {g : Stage} {safe goal : Stage → Prop} {n : Nat}
  {before : Option ServerTable} {db schema autoCommit : Bool} {table : Option ServerTable} {answers : List Bool}

/-! ### Tables -/

/-- No statement lands nothing. -/
@[simp] lemma lands_nil : t.lands [] answers = t := ServerTable.append_nil

/-- An answer to a later statement changes nothing. -/
lemma taken_later {later : List Bool} (len : answers.length = done.length) :
    taken done (answers ++ later) = taken done answers := by
  induction done generalizing answers with
  | nil => rfl
  | cons rows done ih =>
    cases answers with
    | nil => cases len
    | cons a answers =>
      rw [taken, List.cons_append, List.zip_cons_cons, List.flatMap_cons, ← taken, ih (Nat.succ.inj len)]
      rfl

/-- The next statement and its answer. -/
lemma lands_concat {a : Bool} (len : answers.length = done.length) :
    t.lands (done ++ [rows]) (answers ++ [a]) = (t.lands done answers).append (if a then rows else []) := by
  rw [ServerTable.lands, taken, List.zip_append len.symm, List.flatMap_append, ← taken, ServerTable.lands,
    ServerTable.append, ServerTable.append, ServerTable.append, List.append_assoc, List.zip_cons_cons,
    List.zip_nil_left, List.flatMap_singleton]

namespace Stage

/-- The stages of a push that has nothing pending. -/
def idle (db schema autoCommit : Bool) (table : Option ServerTable) (answers : List Bool) : Stage :=
  { db, schema, autoCommit, table, pending := [], answers }

/-- A COMMIT without pending rows. -/
lemma commit_of_nil (none : g.pending = []) : g.commit = g := by
  rw [commit, none]
  cases g with
  | mk db schema autoCommit table pending =>
    cases none
    cases table with
    | none => rfl
    | some t => rw [Option.map_some, ServerTable.append_nil]

/-- Between two calls there is nothing to commit. -/
@[simp] lemma commit_idle :
    (idle db schema autoCommit table answers).commit = idle db schema autoCommit table answers :=
  commit_of_nil rfl

/-- `getSQLInstance` hands out a connection in autocommit, with no schema. -/
lemma step_getSQLInstance :
    (idle db schema autoCommit table answers).step d p .getSQLInstance = [idle db false true table answers] := rfl

/-- `deleteInstance` leaves the server alone. -/
lemma step_deleteInstance : (idle db schema autoCommit table answers).step d p .deleteInstance =
    [idle db schema autoCommit table answers] := rfl

/-- `createDB` makes sure of the database. -/
lemma step_createDB (bare : d.bare p.dbName = true) :
    (idle db schema autoCommit table answers).step d p (.sql (.createDB p.dbName)) =
      [idle true schema autoCommit table answers] := by
  rw [step, sql, if_pos ⟨rfl, bare⟩, commit_idle]
  rfl

/-- `setSchema` enters the database. -/
lemma step_setSchema :
    (idle true schema autoCommit table answers).step d p (.sql (.setSchema p.dbName)) =
      [idle true true autoCommit table answers] := by
  rw [step, sql, if_pos ⟨rfl, rfl⟩]
  rfl

/-- `dropTable` drops the table. -/
lemma step_dropTable :
    (idle db true autoCommit table answers).step d p (.sql (.dropTable p.tableName)) =
      [idle db true autoCommit none answers] := by
  rw [step, sql, if_pos ⟨rfl, rfl⟩, commit_idle]
  rfl

/-- `setAutoCommit` ends the autocommit. -/
lemma step_setAutoCommit : (idle db schema autoCommit table answers).step d p (.sql (.setAutoCommit false)) =
    [idle db schema false table answers] := rfl

/-- Switching the unique checks off changes no table. -/
lemma step_uniqueChecks :
    (idle db schema autoCommit table answers).step d p (.sql (.executeRaw "SET unique_checks=0;".toList)) =
      [idle db schema autoCommit table answers] := by
  rw [step, sql, if_pos rfl]
  rfl

/-- `commit` commits. -/
lemma step_commit : g.step d p (.sql .commit) = [g.commit] := rfl

/-- The CREATE TABLE of a push. -/
lemma step_create (und : Understands d p t) :
    (idle db true autoCommit none answers).step d p (.trySql (.executeRaw p.finalTable)) =
      [idle db true autoCommit (some t) answers] := by
  have schema : (idle db true autoCommit none answers).schema = true := rfl
  have other : (idle db true autoCommit none answers).inserting p (.executeRaw p.finalTable) = none := by
    rw [inserting, if_pos schema, und.ddl.1]
    rfl
  have ddl : (idle db true autoCommit none answers).sql d p (.executeRaw p.finalTable) =
      some (idle db true autoCommit (some t) answers) := by
    rw [sql, if_neg und.ddl.2, if_pos ⟨schema, und.ddl.1, rfl⟩, und.creates]
    show (if p.tableName = p.tableName then _ else none) = _
    rw [if_pos rfl, commit_idle]
    rfl
  rw [step, other, ddl]
  rfl

/-- An INSERT of a push is taken or refused. -/
lemma step_insert (quoted : '\x60' ∉ p.tableName) (columns : getlines p.finalTableCols = t.columns)
    (sent : SentAs p.tableName p.finalTableCols t.columns.length sql rows) :
    (idle db true autoCommit (some t) answers).step d p (.trySql (.executeRaw sql)) =
      [(idle db true autoCommit (some t) answers).insert rows,
        (idle db true autoCommit (some t) answers).refuse] := by
  obtain ⟨batch, ne, rfl, reads⟩ := sent
  obtain ⟨rest, into, read⟩ := readInsert_tuples quoted ne (columns ▸ reads)
  have rows : (idle db true autoCommit (some t) answers).inserting p
      (.executeRaw (pushSQLHeader p.tableName p.finalTableCols ++ tuples batch)) = some rows := by
    have schema : (idle db true autoCommit (some t) answers).schema = true := rfl
    rw [inserting, if_pos schema, into]
    show (if p.tableName = p.tableName then readRows t.columns rest else none) = _
    rw [if_pos rfl, ← columns, read]
  rw [step, rows]

/-- An INSERT that was taken, after its COMMIT. -/
lemma commit_insert : ((idle db schema false (some t) answers).insert rows).commit =
    idle db schema false (some (t.append rows)) (answers ++ [true]) := rfl

/-- The COMMIT behind a refused INSERT has nothing to commit. -/
lemma commit_refuse : (idle db schema autoCommit table answers).refuse.commit =
    idle db schema autoCommit table (answers ++ [false]) := commit_of_nil rfl

end Stage

/-- The INSERTs that are left and their commits: at every stage the table has the rows of those before that were
    taken. -/
lemma along_inserts (quoted : '\x60' ∉ p.tableName) (columns : getlines p.finalTableCols = t.columns)
    (sent : List.Forall₂ (SentAs p.tableName p.finalTableCols t.columns.length) sqls batches)
    (len : answers.length = done.length)
    (safe_of : ∀ k g, k ≤ g.answers.length → g.answers.length ≤ k + 1 →
      g.table = some (t.lands ((done ++ batches).take k) g.answers) → safe g)
    (goal_of : ∀ answers, answers.length = (done ++ batches).length →
      goal (.idle db true false (some (t.lands (done ++ batches) answers)) answers)) :
    Along (Stage.step d p) safe goal (sqls.flatMap flushSQLCalls)
      (.idle db true false (some (t.lands done answers)) answers) := by
  induction sent generalizing done answers with
  | nil =>
    rw [List.append_nil] at safe_of goal_of
    exact ⟨safe_of done.length _ (Nat.le_of_eq len.symm) (Nat.le_succ_of_le (Nat.le_of_eq len))
      (by rw [List.take_length]; rfl), goal_of answers len⟩
  | @cons sql rows sqls batches one sent ih =>
    -- the stages before, and between the INSERT and its COMMIT
    have now : ∀ g : Stage, (∃ later, g.answers = answers ++ later ∧ later.length ≤ 1) →
        g.table = some (t.lands done answers) → safe g := by
      rintro g ⟨later, noted, le⟩ table
      have length : g.answers.length = done.length + later.length := by rw [noted, List.length_append, len]
      apply safe_of done.length g (by omega) (by omega)
      rw [table, List.take_left, noted, ServerTable.lands, ServerTable.lands, taken_later len]
    have next : ∀ a, Along (Stage.step d p) safe goal (sqls.flatMap flushSQLCalls)
        (.idle db true false (some (t.lands (done ++ [rows]) (answers ++ [a]))) (answers ++ [a])) := by
      intro a
      apply ih
      · rw [List.length_append, List.length_append, len]
        rfl
      · rwa [List.append_assoc]
      · rwa [List.append_assoc]
    let stage := Stage.idle db true false (some (t.lands done answers)) answers
    have step : stage.step d p (.trySql (.executeRaw sql)) = [stage.insert rows, stage.refuse] :=
      Stage.step_insert quoted columns one
    refine ⟨now _ ⟨[], (List.append_nil _).symm, Nat.zero_le _⟩ rfl, step ▸ List.cons_ne_nil _ _, ?_⟩
    rw [step]
    intro g mem
    simp only [List.mem_cons, List.not_mem_nil, or_false] at mem
    rcases mem with rfl | rfl
    · refine .cons (now _ ⟨[true], rfl, le_rfl⟩ rfl) Stage.step_commit ?_
      have all := next true
      rw [lands_concat len] at all
      rwa [Stage.commit_insert]
    · refine .cons (now _ ⟨[false], rfl, le_rfl⟩ rfl) Stage.step_commit ?_
      have all := next false
      rw [lands_concat len] at all
      rwa [Stage.commit_refuse, ← ServerTable.append_nil (t := t.lands done answers)]

/-- The calls of a push. -/
theorem Sends.along (sends : Sends d p t batches) (safe_of : ∀ g, Partly before t batches g.answers g.table → safe g)
    (goal_of : ∀ answers, answers.length = batches.length →
      goal (.idle true true false (some (t.lands batches answers)) answers)) :
    Along (Stage.step d p) safe goal p.push (.idle false false true before []) := by
  have old : ∀ db schema autoCommit, safe (.idle db schema autoCommit before []) :=
    fun _ _ _ => safe_of _ (.inl ⟨rfl, .inl rfl⟩)
  have absent : ∀ db schema autoCommit, safe (.idle db schema autoCommit none []) :=
    fun _ _ _ => safe_of _ (.inl ⟨rfl, .inr rfl⟩)
  have part : ∀ k g, k ≤ g.answers.length → g.answers.length ≤ k + 1 →
      g.table = some (t.lands (batches.take k) g.answers) → safe g :=
    fun k g le ge table => safe_of g (.inr ⟨k, le, ge, table⟩)
  have empty : ∀ db schema autoCommit, safe (.idle db schema autoCommit (some t) []) :=
    fun _ _ _ => part 0 _ le_rfl (Nat.zero_le _) (by rw [List.take_zero, lands_nil]; rfl)
  rw [push, createFinalTable, pushFromFileCalls, List.append_assoc, List.append_assoc]
  -- the database, the table, and the settings of the session
  refine .cons (old ..) Stage.step_getSQLInstance (.cons (old ..) (Stage.step_createDB sends.bare)
    (.cons (old ..) Stage.step_setSchema (.cons (old ..) Stage.step_deleteInstance ?_)))
  refine .cons (old ..) Stage.step_getSQLInstance (.cons (old ..) (Stage.step_createDB sends.bare)
    (.cons (old ..) Stage.step_setSchema (.cons (old ..) Stage.step_dropTable
      (.cons (absent ..) (Stage.step_create sends.toUnderstands) (.cons (empty ..) Stage.step_deleteInstance ?_)))))
  refine .cons (empty ..) Stage.step_getSQLInstance (.cons (empty ..) Stage.step_setSchema
    (.cons (empty ..) Stage.step_setAutoCommit (.cons (empty ..) Stage.step_uniqueChecks ?_)))
  have inserts : Along (Stage.step d p) safe
      (fun g => ∃ answers, answers.length = batches.length ∧
        g = .idle true true false (some (t.lands batches answers)) answers)
      (p.inserts.flatMap flushSQLCalls) (.idle true true false (some (t.lands [] [])) []) :=
    along_inserts sends.quoted sends.columns sends.inserts rfl part fun answers len => ⟨answers, len, rfl⟩
  rw [lands_nil] at inserts
  refine inserts.append ?_
  rintro g ⟨answers, len, rfl⟩
  have last : safe (.idle true true false (some (t.lands batches answers)) answers) := by
    apply part batches.length _ (Nat.le_of_eq len.symm) (Nat.le_succ_of_le (Nat.le_of_eq len))
    rw [List.take_length]
    rfl
  refine .cons last Stage.step_commit ⟨?_, ?_⟩
  · rwa [Stage.commit_idle]
  · rw [Stage.commit_idle]
    exact goal_of answers len

/-! ### The rows of a merged table -/

/-- The rows in the slots of a table, in their order. -/
def rowsIn (t : Table) (rows : List (Option RowPtr)) : List Record := (slots rows t.rowHeap).filterMap id

/-- What a server should make of a row. -/
def valuesOf (t : Table) (x : Record) : List SqlValue := t.colDes.map fun c => meant t c (x.data.getD c [])

/-- Lists that are related as a whole are related part by part. -/
lemma forall₂_flatten {α β : Type} {R : α → β → Prop} {ls : List (List α)} {l : List β}
    (all : List.Forall₂ R ls.flatten l) : ∃ ls', ls'.flatten = l ∧ List.Forall₂ (List.Forall₂ R) ls ls' := by
  induction ls generalizing l with
  | nil =>
    cases all
    exact ⟨[], rfl, .nil⟩
  | cons as ls ih =>
    rw [List.flatten_cons] at all
    have first := List.forall₂_take_append l as ls.flatten all.flip
    have rest := List.forall₂_drop_append l as ls.flatten all.flip
    obtain ⟨ls', flat, parts⟩ := ih rest.flip
    exact ⟨_, by rw [List.flatten_cons, flat, List.take_append_drop], .cons first.flip parts⟩

end

section
variable {hashCombine : UInt64 → Str → UInt64} {d : Dialect} {p : Pusher} {t : Table} {st : ServerTable}
  {rows : List (Option RowPtr)}

/-- The push of a merged table sends its rows, if they survive. -/
theorem sends_of_loaded (ld : Loaded hashCombine t) (und : Understands d p st)
    (columns : st.columns.length = t.colDes.length) (some : t.colDes ≠ []) (pos : 1 ≤ p.threshold)
    (perm : rows.Perm t.rows) (dump : Table.dumpToFile { t with rows } = .ok p.result)
    (survives : ∀ x ∈ rowsIn t rows, ∀ c ∈ t.colDes, Survives t c (x.data.getD c [])) :
    ∃ batches, Sends d p st batches ∧ batches.flatten = (rowsIn t rows).map (valuesOf t) := by
  obtain ⟨csv, dump', lines⟩ := ld.dumped perm
  cases dump'.symm.trans dump
  obtain ⟨texts, all, size, executed⟩ := @pushFromFile_batches p.threshold p.result pos
  have sent : p.inserts = texts.map fun b => pushSQLHeader p.tableName p.finalTableCols ++ tuples b :=
    executed _ _ _ _
  have seen : pushedLines p.result = getlines p.result := by
    rw [pushedLines, lines]
    apply List.takeWhile_eq_self_iff.mpr
    intro line mem
    obtain ⟨x, _, rfl⟩ := List.mem_map.mp mem
    exact decide_eq_true (line_ne_nil some)
  have reads : List.Forall₂ (ReadsAs st.columns.length) texts.flatten ((rowsIn t rows).map (valuesOf t)) := by
    rw [all, seen, lines, List.map_map, List.forall₂_map_left_iff, List.forall₂_map_right_iff, columns]
    exact List.forall₂_same.mpr fun x mem => line_readsAs some (survives x mem)
  obtain ⟨batches, flat, parts⟩ := forall₂_flatten reads
  refine ⟨batches, ⟨und, ?_⟩, flat⟩
  rw [sent, List.forall₂_map_left_iff]
  refine ((List.forall₂_and_left _ _).mpr ⟨size, parts⟩).imp ?_
  rintro batch rows ⟨⟨one, _⟩, reads⟩
  exact ⟨batch, List.length_pos_iff.mp one, rfl, reads⟩

end

end TdsqlMerge.Pusher
