import Mathlib.Data.List.Find
import TdsqlMerge.Ddl.Replay
import TdsqlMerge.Store.Hash

/-!
# The names in the replayed statements

A replayed statement finds its columns and its index by comparing texts. `lookedUp` are the names it looks
up among the columns and `meantColumns` the columns these names mean to MySQL. `names_resolve` says that
all of them are found if every statement resolves: each reference is spelled in its file as its target is
in the file that defined it. `quoted_column_lost` is a table for which this fails.
-/

namespace TdsqlMerge.Ddl
open Lib Splitter Store

/-! ### The lookups of a statement -/

/-- The names of columns that the statement of a state looks up. -/
def lookedUp (state : Nat) : Statement → List Str
  | .create _ _ indexs => if state ≠ 0 then [] else indexs.flatMap IndexStatement.keys
  | .addCol _ insAfter => insAfter.toList
  | .dropCol colName => [colName]
  | .addIndex _ _ cols => cols
  | .changeCol _ prevName => [prevName]
  | _ => []

/-- The table in which it looks them up: that of the state before, or the new one with its columns. -/
def lookupTable (hashCombine : UInt64 → Str → UInt64) (table : Option Table) (state : Nat) :
    Statement → Option Table
  | .create _ cols _ =>
    if state ≠ 0 then table
    else (cols.foldlM (fun (t : Table) col => t.addColumnOf hashCombine col none) Table.new).toOption
  | _ => table

section
variable (sv : Server)

/-- The columns that an item refers to by names that are written to its file. -/
def Schema.itemColumns (s : Schema) : SQLAlterTableItem → List (Option Column)
  | .addColumn _ (.after n) => [s.column? sv n]
  | .dropColumn columns => columns.map (s.column? sv)
  | .addConstraint (.primaryKey parts) => parts.map fun item => s.column? sv item.expr
  | .addConstraint (.unique _ parts) => parts.map fun item => s.column? sv item.expr
  | .changeColumn n _ _ => [s.column? sv n]
  | _ => []

/-- The columns that a statement refers to; a CREATE TABLE refers to its own. -/
def meantColumns : Option Schema → SQLStatement → List (Option Column)
  | none, .createTable _ columnDefinitions mysqlKeys =>
    match Schema.createColumns sv columnDefinitions with
    | some s => (mysqlKeys.filter fun key => key.type.isSome).flatMap fun key =>
      key.columns.map fun item => s.column? sv item.expr
    | none => []
  | some s, .alterTable _ items => items.flatMap (s.itemColumns sv)
  | _, _ => []

/-- The unique key that a name means. -/
def Schema.uniqueKey? (s : Schema) (n : SQLName) : Option Key :=
  (s.keys ++ s.inline).find? (Key.isNamed sv n)

/-- The name is found, and it is that of the column that is meant. -/
def Found (t : Table) (name : Str) (col : Option Column) : Prop :=
  ∃ c, col = some c ∧ t.colDes.find? (t.hasName name) = some c.id

/-- The lookups of the statement of a state find what its SQL means. -/
structure Resolved (hashCombine : UInt64 → Str → UInt64) (l : TableLife) (st : SQLStatement)
    (w : WorkState) (stmt : Statement) : Prop where
  columns : ∃ t, lookupTable hashCombine w.table l.written.length stmt = some t ∧
    List.Forall₂ (Found t) (lookedUp l.written.length stmt) (meantColumns sv l.table st)
  index : ∀ s tableName n k, l.table = some s → st = .alterTable tableName [.dropIndex n] →
    s.uniqueKey? sv n = some k → ∃ t name, w.table = some t ∧ stmt = .dropIndex false name ∧
      t.headers.find? (Header.isMeant false false name) = some k.header

end

/-! ### Statements that resolve -/

section
variable {sv : Server} {s s' : Schema} {t : Table} {hashCombine : UInt64 → Str → UInt64}
  {wd : WorkDescriptor} {l l' : TableLife} {st : SQLStatement} {w : WorkState}

/-- The parts of a key mean columns. -/
lemma keyColumns_some {parts : List SQLSelectOrderByItem} {ids : List Nat}
    (key : s.keyColumns sv parts = some ids) : ∀ item ∈ parts, ∃ c, s.column? sv item.expr = some c := by
  refine forall₂_right (P := fun item => ∃ c, s.column? sv item.expr = some c)
    (keyColumns_meant key).flip ?_
  intro id item me
  obtain ⟨c, me, _⟩ := Option.map_eq_some_iff.mp me
  exact ⟨c, me⟩

/-- The parts of a key are found. -/
lemma MirrorColumns.foundParts {f : SQLSelectOrderByItem → Str} {parts : List SQLSelectOrderByItem}
    (mc : MirrorColumns s t) (meant : ∀ item ∈ parts, ∃ c, s.column? sv item.expr = some c)
    (sp : parts.all (fun item => s.spells sv item.expr (f item)) = true) :
    List.Forall₂ (Found t) (parts.map f) (parts.map fun item => s.column? sv item.expr) := by
  rw [List.all_eq_true] at sp
  rw [List.forall₂_map_left_iff, List.forall₂_map_right_iff, List.forall₂_same]
  intro item mem
  obtain ⟨c, me⟩ := meant item mem
  exact ⟨c, me, mc.find (sp item mem) me⟩

/-- The keys of a CREATE TABLE leave its columns alone. -/
lemma createKeys_meant {keys : List MySqlKey}
    (ap : keys.foldlM (fun s key => s.addKey sv key.name key.isPrimary key.columns) s = some s') :
    ∀ key ∈ keys, ∀ item ∈ key.columns, ∃ c, s.column? sv item.expr = some c := by
  induction keys generalizing s with
  | nil =>
    intro key mem
    cases mem
  | cons key keys ih =>
    rw [List.foldlM_cons, Option.bind_eq_bind, Option.bind_eq_some_iff] at ap
    obtain ⟨s1, ap, aps⟩ := ap
    obtain ⟨k, cols, _, _, rfl⟩ := addKey_ok ap
    intro key' mem
    rcases List.mem_cons.mp mem with rfl | mem
    · exact keyColumns_some cols
    · exact ih (s := { s with keys := s.keys ++ [k] }) aps key' mem

/-- The key parts of a CREATE TABLE are found among its columns. -/
lemma found_create {columnDefinitions : List SQLColumnDefinition} {mysqlKeys : List MySqlKey}
    (ok : resolvesCreate sv columnDefinitions mysqlKeys = true)
    (cols : Schema.createColumns sv columnDefinitions = some s)
    (keys : s.createKeys sv mysqlKeys = some s') :
    ∃ t, (columnDefinitions.map loadCreated).foldlM
        (fun t col => t.addColumnOf hashCombine col none) Table.new = .ok t ∧
      List.Forall₂ (Found t)
        (((mysqlKeys.filter fun key => key.type.isSome).map loadKey).flatMap IndexStatement.keys)
        ((mysqlKeys.filter fun key => key.type.isSome).flatMap fun key =>
          key.columns.map fun item => s.column? sv item.expr) := by
  rw [resolvesCreate, cols, Option.any_some, List.all_eq_true] at ok
  obtain ⟨t, add, _⟩ := @addColumns_bare hashCombine _
    (columnDefinitions.map loadCreated) Rowless.new rfl
  have empty : MirrorColumns Schema.empty Table.new :=
    ⟨rfl, .refl _, List.nodup_nil, fun c mem => by cases mem⟩
  have mc := (empty.created rfl cols add).1
  refine ⟨t, add, ?_⟩
  have meant := createKeys_meant keys
  generalize mysqlKeys.filter (fun key => key.type.isSome) = keys at ok meant
  induction keys with
  | nil => exact .nil
  | cons key keys ih =>
    rw [List.map_cons, List.flatMap_cons, List.flatMap_cons]
    apply List.rel_append
    · exact mc.foundParts (meant key List.mem_cons_self) (ok key List.mem_cons_self)
    · exact ih (fun key mem => ok key (List.mem_cons_of_mem _ mem))
        (fun key mem => meant key (List.mem_cons_of_mem _ mem))

/-- The references of an item are found. -/
lemma found_item {item : SQLAlterTableItem} {stmt : Statement} {n : Nat} (mc : MirrorColumns s t)
    (ap : s.item sv item = some s') (ok : s.resolves sv item = true) (ld : loadItem item = some stmt) :
    List.Forall₂ (Found t) (lookedUp n stmt) (s.itemColumns sv item) := by
  cases resolves_inv ok with
  | @addColumn d placement after =>
    cases ld
    rw [item_addColumn] at ap
    obtain ⟨columns, put, _⟩ := addColumn_ok ap
    cases placement with
    | none => exact .nil
    | first => exact .nil
    | after n =>
      obtain ⟨c, me⟩ := place_after put
      exact .cons ⟨c, me, mc.find (after n rfl) me⟩ .nil
  | dropColumn spelt =>
    cases ld
    rw [item_dropColumn] at ap
    obtain ⟨c, me, _⟩ := dropColumn_ok ap
    exact .cons ⟨c, me, mc.find spelt me⟩ .nil
  | primaryKey spelt =>
    cases ld
    obtain ⟨k, cols, _⟩ := addKey_ok ap
    exact mc.foundParts (keyColumns_some cols) spelt
  | unique spelt =>
    cases ld
    obtain ⟨k, cols, _⟩ := addKey_ok ap
    exact mc.foundParts (keyColumns_some cols) spelt
  | changeColumn spelt =>
    cases ld
    obtain ⟨c, _, me, _⟩ := changeColumn_ok ap
    exact .cons ⟨c, me, mc.find spelt me⟩ .nil
  | _ =>
    cases ld
    exact .nil

/-- The index that a DROP INDEX means is found. -/
lemma found_index {n : SQLName} {k : Key} (mk : MirrorKeys s t)
    (ok : s.resolves sv (.dropIndex n) = true) (me : s.uniqueKey? sv n = some k) :
    t.headers.find? (Header.isMeant false false n.getSimpleName) = some k.header := by
  rw [Schema.resolves, Bool.and_eq_true, List.all_eq_true, List.all_eq_true] at ok
  obtain ⟨shown, inline⟩ := ok
  have none : s.inline.find? (Key.isNamed sv n) = none := by
    rw [List.find?_eq_none]
    intro k mem named
    have not := inline k mem
    rw [named] at not
    cases not
  rw [Schema.uniqueKey?, List.find?_append, none, Option.or_none] at me
  have keyed : s.keys ≠ [] := List.ne_nil_of_mem (List.mem_of_find?_eq_some me)
  rw [mk.keyed keyed, List.find?_map]
  have same : s.keys.find? (Header.isMeant false false n.getSimpleName ∘ Key.header) =
      s.keys.find? (Key.isNamed sv n) :=
    List.find?_congr fun k mem => beq_iff_eq.mp (shown k mem)
  rw [same, me]
  rfl

/-- If every statement resolves, a replayed statement finds all columns and indexes it refers to. -/
theorem names_resolve
    (run : Steps (TableLife.step sv) (fun l st => resolvable sv l st = true) .new l)
    (ok : resolvable sv l st = true) (step : l.step sv st = some l') (re : Replays wd l')
    (reached : wd.statesTo hashCombine l.written.length = .ok w) :
    ∃ stmt, Statement.getStatement (wd.ddl l.written.length) = .ok stmt ∧
      Resolved sv hashCombine l st w stmt := by
  obtain ⟨s', ex, rfl⟩ := step_ok step
  obtain ⟨re, file⟩ := re.prior
  have mi := run_mirror run re reached
  have first := run_table run
  obtain ⟨stmt, ld, read⟩ := getStatement_of_resolvable ok ex
  refine ⟨stmt, by rw [file, read], ?_⟩
  rw [resolvable, Bool.and_eq_true] at ok
  have ok := ok.2
  have ef := (execute_ok ex).2
  cases table : l.table with
  | none =>
    rw [table] at mi ok ef first
    -- the first statement creates the table, there is nothing to look up in an older one
    have zero := first.mp rfl
    cases resolvesIn_inv ok with
    | create spelt =>
      cases ld
      obtain ⟨s, cols, _, keys⟩ := effect_create ef
      obtain ⟨t, add, found⟩ := @found_create _ _ _ hashCombine _ _ spelt cols keys
      refine ⟨⟨t, ?_, ?_⟩, ?_⟩
      · rw [lookupTable, if_neg (not_not_intro zero), add]
        rfl
      · rw [lookedUp, if_neg (not_not_intro zero), table, meantColumns, cols]
        exact found
      · intro s tableName n k some
        rw [table] at some
        cases some
  | some s =>
    rw [table] at mi ok ef first
    -- a later one reads the table that the statements before it have built
    obtain ⟨t, replayed, mi⟩ := mi
    cases resolvesIn_inv ok with
    | again =>
      cases ld
      have later : l.written.length ≠ 0 := fun zero => Option.some_ne_none s (first.mpr zero)
      refine ⟨⟨t, ?_, ?_⟩, ?_⟩
      · rw [lookupTable, if_pos later, replayed]
      · rw [lookedUp, if_pos later, table]
        exact .nil
      · intro s tableName n k _ e
        cases e
    | @alter _ _ item items spelt only =>
      have ap := (effect_alter only ef).1
      refine ⟨⟨t, ?_, ?_⟩, ?_⟩
      · rw [← replayed]
        have alter := loadItem_isAlter ld
        cases stmt with
        | create name cols indexs => cases alter
        | _ => rfl
      · have none : items.flatMap (s.itemColumns sv) = [] := by
          rw [List.flatMap_eq_nil_iff]
          intro item mem
          have adds := List.all_eq_true.mp only item mem
          cases item with
          | addIndex => rfl
          | _ => cases adds
        rw [table, meantColumns, List.flatMap_cons, none, List.append_nil]
        exact found_item mi.columns ap spelt ld
      · intro s1 tableName n k some e me
        rw [table] at some
        cases some
        cases e
        cases ld
        exact ⟨t, _, replayed, rfl, found_index mi.keys spelt me⟩

end

/-! ### A table with a quoted column -/

/-- The statements that the writer writes in full and the loader reads. -/
def handled : SQLStatement → Bool
  | .createTable _ _ _ => true
  | .alterTable _ [item] => (loadItem item).isSome
  | _ => false

/-- A server that compares names in lower case. -/
def lowerCase : Server where
  fold := List.map Char.toLower
  autoName := fun _ _ => []
  other := fun _ => none

/-- The files written for a list of statements, without rows. -/
def workOf (stmts : List SQLStatement) : WorkDescriptor where
  stateCount := stmts.length
  ddl := fun k => ((stmts[k]?).map ddlText).getD []
  dat := fun _ _ => []

/-- The work of the written statements replays them. -/
lemma workOf_replays {l : TableLife} : Replays (workOf l.written) l := by
  intro k st at_k
  show ((l.written[k]?).map ddlText).getD [] = ddlText st
  rw [at_k]
  rfl

/-- A run writes its statements. -/
lemma written_of_checked {check : TableLife → SQLStatement → Bool} {sv : Server} {l l' : TableLife}
    {stmts : List SQLStatement}
    (run : stmts.foldlM (fun l st => if check l st then l.step sv st else none) l = some l') :
    l'.written = l.written ++ stmts := by
  induction stmts generalizing l with
  | nil =>
    cases run
    rw [List.append_nil]
  | cons st stmts ih =>
    rw [List.foldlM_cons, Option.bind_eq_bind, Option.bind_eq_some_iff] at run
    obtain ⟨l1, step, run⟩ := run
    split at step
    · obtain ⟨s', _, rfl⟩ := step_ok step
      rw [ih run, List.append_assoc]
      rfl
    · cases step

/-- A name without backquotes. -/
def bare (name : Str) : SQLName := { name, quoted := false }

/-- A name in backquotes. -/
def quoted (name : Str) : SQLName := { name, quoted := true }

/-- A column of integers. -/
def intColumn (columnName : SQLName) : SQLColumnDefinition :=
  { columnName, dataType := "int".toList, constraints := [], defaultExpr := none }

/-- ``CREATE TABLE t (`id` int, updated_at int, PRIMARY KEY (id))``. -/
def createT : SQLStatement :=
  .createTable (bare "t".toList) [intColumn (quoted "id".toList), intColumn (bare updatedAt)]
    [{ name := none, type := some "PRIMARY".toList, isPrimary := true,
       columns := [{ expr := bare "id".toList, length := none, type := none }] }]

/-- `ALTER TABLE t` with one item. -/
def alterT (item : SQLAlterTableItem) : SQLStatement := .alterTable (bare "t".toList) [item]

/-- ``ADD COLUMN a int AFTER `id` ``. -/
def addBare : SQLStatement :=
  alterT (.addColumn [intColumn (bare "a".toList)] (.after (quoted "id".toList)))

/-- ``ADD COLUMN `a` int``. -/
def addQuoted : SQLStatement := alterT (.addColumn [intColumn (quoted "a".toList)] .none)

/-- `DROP COLUMN a`. -/
def dropBare : SQLStatement := alterT (.dropColumn [bare "a".toList])

/-- A column that is dropped under the name it was added with is found. -/
theorem bare_column_found : ∃ (l l' : TableLife) (w : WorkState) (stmt : Statement),
    l.written = [createT, addBare] ∧ l.step lowerCase dropBare = some l' ∧
      (workOf l'.written).statesTo Store.hashCombine l.written.length = .ok w ∧
      Resolved lowerCase Store.hashCombine l dropBare w stmt := by
  have run : ([createT, addBare].foldlM (fun l st => if resolvable lowerCase l st then
      TableLife.step lowerCase l st else none) .new).any (fun l =>
        resolvable lowerCase l dropBare && (l.step lowerCase dropBare).isSome) = true := by
    decide +kernel
  obtain ⟨l, run, h⟩ := (Option.any_eq_true _ _).mp run
  obtain ⟨ok, accepted⟩ := Bool.and_eq_true_iff.mp h
  obtain ⟨l', step⟩ := Option.isSome_iff_exists.mp accepted
  obtain ⟨s', _, e⟩ := step_ok step
  have written : l.written = [createT, addBare] := written_of_checked run
  have written' : l'.written = [createT, addBare, dropBare] := by
    rw [e, written]
    rfl
  have replay : ((workOf [createT, addBare, dropBare]).statesTo Store.hashCombine 2).isOk = true := by
    decide +kernel
  obtain ⟨w, reached⟩ := ok_of_isOk replay
  have reached : (workOf l'.written).statesTo Store.hashCombine l.written.length = .ok w := by
    rw [written', written]
    exact reached
  obtain ⟨stmt, _, resolved⟩ :=
    names_resolve (Steps.of_checked run) ok step workOf_replays reached
  exact ⟨l, l', w, stmt, written, step, reached, resolved⟩

/-- A column that is dropped under a quoted name is not found. -/
theorem quoted_column_lost : ¬ ∀ (sv : Server) (hashCombine : UInt64 → Str → UInt64)
    (wd : WorkDescriptor) (l l' : TableLife) (st : SQLStatement) (w : WorkState),
    Steps (TableLife.step sv) (fun _ st => handled st = true) .new l → handled st = true →
      l.step sv st = some l' → Replays wd l' → wd.statesTo hashCombine l.written.length = .ok w →
      ∃ stmt, Statement.getStatement (wd.ddl l.written.length) = .ok stmt ∧
        Resolved sv hashCombine l st w stmt := by
  intro claim
  have run : ([createT, addQuoted].foldlM (fun l st => if handled st then
      TableLife.step lowerCase l st else none) .new).any (fun l =>
        (l.step lowerCase dropBare).isSome) = true := by
    decide +kernel
  obtain ⟨l, run, accepted⟩ := (Option.any_eq_true _ _).mp run
  obtain ⟨l', step⟩ := Option.isSome_iff_exists.mp accepted
  obtain ⟨s', _, e⟩ := step_ok step
  have written : l.written = [createT, addQuoted] :=
    @written_of_checked (fun _ st => handled st) _ _ _ _ run
  have written' : l'.written = [createT, addQuoted, dropBare] := by
    rw [e, written]
    rfl
  have replay : ((workOf [createT, addQuoted, dropBare]).statesTo Store.hashCombine 2).toOption.any
      (fun w => w.table.any fun t => (t.colDes.find? (t.hasName "a".toList)).isNone) = true := by
    decide +kernel
  obtain ⟨w, reached, lost⟩ := ok_of_any replay
  obtain ⟨t, table, lost⟩ := (Option.any_eq_true _ _).mp lost
  obtain ⟨stmt, read, resolved⟩ := claim lowerCase Store.hashCombine (workOf l'.written) l l' dropBare w
    (@Steps.of_checked _ _ _ _ _ (fun _ st => handled st) _ run) rfl step workOf_replays
    (by rw [written', written]; exact reached)
  have load : Statement.getStatement (ddlText dropBare) = .ok (.dropCol "a".toList) :=
    getStatement_written rfl (by decide +kernel) (by unfold Plain; decide +kernel)
  have file : (workOf l'.written).ddl l.written.length = ddlText dropBare := by
    rw [written', written]
    rfl
  rw [file, load] at read
  cases read
  -- the one name of the statement is looked up in the table that has no such column
  obtain ⟨t', at_t, found⟩ := resolved.columns
  cases at_t.symm.trans table
  obtain ⟨_, _, ⟨c, _, find⟩, _, _⟩ := List.forall₂_cons_left_iff.mp found
  rw [find] at lost
  cases lost

end TdsqlMerge.Ddl
