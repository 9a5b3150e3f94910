import TdsqlMerge.Ddl.Defaults
import TdsqlMerge.Store.Loaded

/-!
# DEFAULT in the result

`dumpToFile` writes `DEFAULT` for a cell that equals the default of its column. Both are compared as texts: a
NULL cell is the NULL marker, and a default is its SQL text from which all single quotes were deleted.
`Tracked` collects the tables made from the files of source statements, together with the latest
definition of every column (`Tracked.stored`); `default_written_iff` says for which defaults and cells
the comparison is wrong (`Misread`). What a literal is in a column is up to the source database
(`ColumnValues`).
-/

namespace TdsqlMerge.Ddl
open Lib Splitter Store

/-- The definitions of the columns of a CREATE TABLE. -/
def created (columns : List SQLColumnDefinition) (c : ColPtr) : Option SQLColumnDefinition := columns[c]?

/-- The latest definitions of the columns, after an ALTER TABLE with this item. -/
def redefined (t : Table) (D : ColPtr → Option SQLColumnDefinition) :
    SQLAlterTableItem → ColPtr → Option SQLColumnDefinition
  | .addColumn (d :: _) _ => Function.update D t.colHeap.length (some d)
  | .changeColumn n d _ =>
    match t.colDes.find? (t.hasName n.getSimpleName) with
    | some c => Function.update D c (some d)
    | none => D
  | _ => D

section
variable (hashCombine : UInt64 → Str → UInt64)

/-- The tables that a CREATE TABLE with `updated_at`, ALTER TABLE statements with one item each and `.dat` files
    lead to, and the latest definitions of their columns. The texts of the statements have no line breaks. -/
inductive Tracked : Table → (ColPtr → Option SQLColumnDefinition) → Prop where
  | create {tableName columns keys statement t} :
    Plain (texts (.createTable tableName columns keys)) →
    (∀ n ∈ counts (.createTable tableName columns keys), n < 2 ^ 31) →
    (∃ d ∈ columns, replace '`' d.columnName.getSimpleName = updatedAt) →
    Statement.getStatement (ddlText (.createTable tableName columns keys)) = .ok statement →
    statement.fillToTable hashCombine Table.new = .ok t →
    Tracked t (created columns)
  | alter {t t' D tableName item statement} :
    Tracked t D →
    Plain (texts (.alterTable tableName [item])) →
    (∀ n ∈ counts (.alterTable tableName [item]), n < 2 ^ 31) →
    Statement.getStatement (ddlText (.alterTable tableName [item])) = .ok statement →
    statement.fillToTable hashCombine t = .ok t' →
    Tracked t' (redefined t D item)
  | batch {t t1 t' D dat source startStamp ps stamp} :
    Tracked t D →
    t.parseData dat source startStamp = .ok (ps, stamp, t1) →
    t1.insertRows hashCombine ps = .ok t' →
    Tracked t' D

variable {hashCombine} {t t' : Table} {D : ColPtr → Option SQLColumnDefinition}

/-! ### What is read -/

/-- A file that is read as an ALTER is read as its first item. -/
lemma loadItem_of_read {tableName : SQLName} {item : SQLAlterTableItem} {statement : Statement}
    (plain : Plain (texts (.alterTable tableName [item])))
    (few : ∀ n ∈ counts (.alterTable tableName [item]), n < 2 ^ 31)
    (read : Statement.getStatement (ddlText (.alterTable tableName [item])) = .ok statement) :
    loadItem item = some statement := by
  cases ld : loadItem item with
  | some statement' =>
    have written : Statement.getStatement (ddlText (.alterTable tableName [item])) = .ok statement' :=
      getStatement_written ld few plain
    rw [written] at read
    cases read
    rfl
  | none =>
    -- the writer threw, and the file is empty, or wrote no line after `ALTER`
    have bad : ddlText (.alterTable tableName [item]) = [] ∨
        ddlText (.alterTable tableName [item]) = "ALTER\n".toList := by
      cases item with
      | addColumn columns placement =>
        cases columns with
        | nil => exact .inl rfl
        | cons d columns => cases ld
      | dropColumn columns =>
        cases columns with
        | nil => exact .inl rfl
        | cons n columns => cases ld
      | addConstraint constraint =>
        match constraint, ld with
        | .unique none parts, _ => exact .inl rfl
        | .other, _ => exact .inl rfl
      | other => exact .inr rfl
      | _ => cases ld
    have fails : (Statement.getStatement []).isOk = false ∧
        (Statement.getStatement "ALTER\n".toList).isOk = false := by decide
    rcases bad with bad | bad
    · rw [bad] at read
      rw [read] at fails
      cases fails.1
    · rw [bad] at read
      rw [read] at fails
      cases fails.2

/-- A CREATE is read as it was written. -/
lemma create_of_read {tableName : SQLName} {columns : List SQLColumnDefinition} {keys : List MySqlKey}
    {statement : Statement} (plain : Plain (texts (.createTable tableName columns keys)))
    (few : ∀ n ∈ counts (.createTable tableName columns keys), n < 2 ^ 31)
    (read : Statement.getStatement (ddlText (.createTable tableName columns keys)) = .ok statement) :
    ∃ name indexs, statement = .create name (columns.map loadCreated) indexs := by
  have written : ∃ name indexs, Statement.getStatement (ddlText (.createTable tableName columns keys)) =
      .ok (.create name (columns.map loadCreated) indexs) := ⟨_, _, getStatement_written rfl few plain⟩
  obtain ⟨name, indexs, written⟩ := written
  rw [written] at read
  cases read
  exact ⟨name, indexs, rfl⟩

/-! ### The defaults on the heap -/

/-- The descriptors hold the texts of the latest defaults, without quotes. -/
def Stores (t : Table) (D : ColPtr → Option SQLColumnDefinition) : Prop :=
  ∀ (c : ColPtr) (d : ColumnDescriptor), t.colHeap[c]? = some d →
    ∃ sql, D c = some sql ∧ d.defStr = sql.defaultExpr.map (replace '\'')

/-- What does not touch the columns leaves their defaults alone. -/
lemma Stores.sameCols (st : Stores t D) (sc : SameCols t t') : Stores t' D := by
  have heap : t'.colHeap = t.colHeap := by rw [sc]
  rw [Stores, heap]
  exact st

/-- A new column has the default of its definition. -/
lemma Stores.added {col : ColumnStatement} {after : Option Str} {sql : SQLColumnDefinition} (st : Stores t D)
    (ca : ColumnAdded col after t t') (same : col.defaultStr = sql.defaultExpr.map (replace '\'')) :
    Stores t' (Function.update D t.colHeap.length (some sql)) := by
  intro c d at_c
  rw [ca.colHeap] at at_c
  by_cases new : c = t.colHeap.length
  · subst new
    rw [List.getElem?_concat_length] at at_c
    cases at_c
    exact ⟨sql, Function.update_self .., same⟩
  · have lt : c < t.colHeap.length := by
      have le := (List.getElem?_eq_some_iff.mp at_c).1
      rw [List.length_append, List.length_singleton] at le
      exact lt_of_le_of_ne (Nat.lt_succ_iff.mp le) new
    rw [List.getElem?_append_left lt] at at_c
    rw [Function.update_of_ne new]
    exact st c d at_c

/-- A changed column has the default of its new definition. -/
lemma Stores.changed {col : ColumnStatement} {prevName : Str} (sql : SQLColumnDefinition) (st : Stores t D)
    (cc : ColumnChanged col prevName t t') (same : col.defaultStr = sql.defaultExpr.map (replace '\'')) :
    ∃ c, t.colDes.find? (t.hasName prevName) = some c ∧ Stores t' (Function.update D c (some sql)) := by
  obtain ⟨c, d0, find, at_c, heap⟩ := cc.colHeap
  refine ⟨c, find, ?_⟩
  intro x d at_x
  rw [heap] at at_x
  by_cases e : x = c
  · subst e
    rw [List.getElem?_set_self (List.getElem?_eq_some_iff.mp at_c).1] at at_x
    cases at_x
    exact ⟨sql, Function.update_self .., same⟩
  · rw [List.getElem?_set_ne (Ne.symm e)] at at_x
    rw [Function.update_of_ne e]
    exact st x d at_x

/-- One item of an ALTER TABLE. -/
lemma Stores.alter {item : SQLAlterTableItem} {statement : Statement} (st : Stores t D)
    (ld : loadItem item = some statement) (run : statement.fillToTable hashCombine t = .ok t') :
    Stores t' (redefined t D item) := by
  cases loadItem_inv ld with
  | addColumn => exact st.added (addColumnOf_cols run) rfl
  | dropColumn =>
    have heap := (dropColumn_cols run).colHeap
    intro c d at_c
    rw [heap] at at_c
    exact st c d at_c
  | addIndex =>
    cases run
    exact st
  | dropIndex => exact st.sameCols (dropUniqueIndex_cols run)
  | dropPrimaryKey => exact st.sameCols (dropUniqueIndex_cols run)
  | primaryKey => exact st.sameCols (addUniqueIndex_cols run)
  | unique => exact st.sameCols (addUniqueIndex_cols run)
  | @changeColumn n d placement =>
    obtain ⟨c, find, st'⟩ := st.changed d (changeCol_cols run) rfl
    rw [redefined, find]
    exact st'

/-- The descriptors of a tracked table hold the latest defaults, and it was made from files. -/
lemma Tracked.stored (tr : Tracked hashCombine t D) : Stores t D ∧ Loaded hashCombine t := by
  induction tr with
  | @create tableName columns keys statement t plain few has read run =>
    obtain ⟨name, indexs, rfl⟩ := create_of_read plain few read
    have ca := (fillCreate_rowless run).2.1
    constructor
    · intro c d at_c
      rw [ca.colHeap, Table.new, List.nil_append, List.getElem?_mapIdx, List.getElem?_map,
        Option.map_map, Option.map_eq_some_iff] at at_c
      obtain ⟨sql, at_c, rfl⟩ := at_c
      exact ⟨sql, at_c, rfl⟩
    · refine .create read ?_ run
      obtain ⟨d, mem, upd⟩ := has
      exact ⟨loadCreated d, List.mem_map_of_mem mem, upd⟩
  | alter _ plain few read run ih =>
    have ld := loadItem_of_read plain few read
    exact ⟨ih.1.alter ld run, ih.2.alter read (loadItem_isAlter ld) run⟩
  | batch _ parse insert ih =>
    exact ⟨(ih.1.sameCols (parseData_cols parse)).sameCols (insertRows_cols insert), ih.2.batch parse insert⟩

/-! ### DEFAULT or a literal -/

/-- A default of a column and a cell that are written as the same text though they are different values: a NULL
    default and the string `NULL`, a number or a string whose value in the column is not its text without quotes
    and the string that is this text, and a string that without its quotes is the NULL marker and a NULL cell. -/
def Misread (values : ColumnValues) (type : Str) : DefaultExpr → Option Str → Prop
  | .null, v => v = some "NULL".toList
  | .number n, v => v = some n.val ∧ values.value type (.number n) ≠ v
  | .string s, some x => x = replace '\'' s ∧ values.value type (.string s) ≠ some x
  | .string s, none => replace '\'' s = nullMarker

variable {values : ColumnValues} {type : Str}

/-- In a text column, a string is misread if it has quotes that the cell has not. -/
lemma misread_text {s x : Str} (text : values.texts type) :
    Misread values type (.string s) (some x) ↔ x = replace '\'' s ∧ '\'' ∈ s := by
  rw [Misread, values.text type s text, ne_eq, Option.some.injEq]
  refine and_congr_right fun same => ?_
  rw [same, eq_comm, replace_eq_self, not_not]

/-- A text without quotes that is equal to the cell stands for the cell, unless it is misread. -/
lemma value_of_text {e : DefaultExpr} {v : Option Str} :
    (replace '\'' e.toString = cellOf v → values.value type e = v) ↔ ¬ Misread values type e v := by
  cases e with
  | null =>
    rw [values.null]
    cases v with
    | none => exact iff_of_true (fun _ => rfl) (by simp [Misread])
    | some x =>
      have text : replace '\'' DefaultExpr.null.toString = "NULL".toList := by decide
      rw [text]
      simp [cellOf, Misread, eq_comm]
  | number n =>
    rw [DefaultExpr.toString, replace_eq_self.mpr n.unquoted, eq_cellOf fun _ => n.ne_marker]
    simp only [Misread, not_and, not_not]
  | string s =>
    rw [DefaultExpr.toString, replace_sqlString]
    cases v with
    | none =>
      have given := values.string type s
      simp [cellOf, Misread, given]
    | some x => simp only [cellOf, Misread, not_and, not_not, eq_comm]

/-- `DEFAULT` is written if the text of the default is the cell. -/
lemma written_default_iff {c : ColPtr} {cell : Str} {d : ColumnDescriptor} (hd : t.colHeap[c]? = some d) :
    t.written c cell = "DEFAULT".toList ↔ d.defStr = some cell := by
  rw [Table.written, hd, Option.bind_some]
  split
  · simp_all
  · rename_i other
    simp only [other, iff_false]
    intro e
    cases e

/-- For every row of a table made from source statements, in whatever order the rows are written, and every
    column with a NULL, a number or a string as default: that `DEFAULT` stands for the cell wherever it is
    written means that default and cell are not misread. -/
theorem default_written_iff {rows : List (Option RowPtr)} (values : ColumnValues) (tr : Tracked hashCombine t D)
    (perm : rows.Perm t.rows) : ∃ csv, Table.dumpToFile { t with rows } = .ok csv ∧
    List.Forall₂ (fun line (x : Record) => line = t.line x.data ∧
      ∀ c ∈ t.colDes, ∃ d, D c = some d ∧ ∀ (e : DefaultExpr) (v : Option Str),
        d.defaultExpr = some e.toString → x.data.getD c [] = cellOf v →
        ((t.written c (x.data.getD c []) = "DEFAULT".toList → values.value d.dataType e = v) ↔
          ¬ Misread values d.dataType e v))
      (getlines csv) ((slots rows t.rowHeap).filterMap id) := by
  obtain ⟨st, ld⟩ := tr.stored
  rw [ld.forall_lines perm]
  intro x _
  refine ⟨rfl, ?_⟩
  intro c mem
  obtain ⟨d, hd, _⟩ := ld.writable.layout.col (ld.writable.layout.lt c mem)
  obtain ⟨sql, latest, stored⟩ := st c d hd
  refine ⟨sql, latest, fun e v source cell => ?_⟩
  rw [source, Option.map_some] at stored
  rw [written_default_iff hd, stored, cell, Option.some.injEq]
  exact value_of_text

end

/-! ### A table of notes with a default -/

/-- `note text DEFAULT e, updated_at datetime NOT NULL`. -/
def notesColumns (e : DefaultExpr) : List SQLColumnDefinition :=
  [{ columnName := ⟨"note".toList, false⟩, dataType := "text".toList, constraints := [],
      defaultExpr := some e.toString },
    { columnName := ⟨updatedAt, false⟩, dataType := "datetime".toList, constraints := [.notNull],
      defaultExpr := none }]

/-- The `CREATE TABLE` with these columns. -/
def notesTable (e : DefaultExpr) : SQLStatement := .createTable ⟨"t".toList, false⟩ (notesColumns e) []

/-- The table of notes that its file and a batch lead to. -/
lemma notes_tracked {e : DefaultExpr} {dat : Str} {t : Table} (plain : Plain (texts (notesTable e)))
    (run : filesRun (ddlText (notesTable e)) dat = .ok t) :
    Tracked Store.hashCombine t (created (notesColumns e)) := by
  have few : ∀ n ∈ counts (notesTable e), n < 2 ^ 31 := by
    intro n mem
    rcases List.mem_cons.mp mem with rfl | mem
    · show 2 < _
      decide
    · rw [List.mem_singleton.mp mem]
      decide
  obtain ⟨name, cols, indexs, t1, ps, stamp, t2, read, create, parse, insert⟩ := filesRun_inv run
  exact .batch (.create plain few ⟨_, .tail _ (.head _), rfl⟩ read create) parse insert

/-- The line of a `.dat` file with a note. -/
def noteLine (note : String) : Str := '"' :: note.toList ++ "\",\"5\"\n".toList

/-- The file of the default and one line lead to a table with this row. -/
def defaultSeen (e : DefaultExpr) (note : String) : Bool :=
  (filesRun (ddlText (notesTable e)) (noteLine note)).toOption.any fun t =>
    decide (t.colDes = [0, 1]) && decide (t.colHeap.map ColumnDescriptor.defStr =
      [some (replace '\'' e.toString), none]) &&
      decide (slots t.rows t.rowHeap =
        [some { data := [note.toList, "5".toList], source := 0, stamp := 0 }])

/-- The table of the default that was seen. -/
lemma defaultSeen_ok {e : DefaultExpr} {note : String} (seen : defaultSeen e note = true) :
    ∃ t, filesRun (ddlText (notesTable e)) (noteLine note) = .ok t ∧ t.colDes = [0, 1] ∧
      t.colHeap.map ColumnDescriptor.defStr = [some (replace '\'' e.toString), none] ∧
      slots t.rows t.rowHeap = [some { data := [note.toList, "5".toList], source := 0, stamp := 0 }] := by
  obtain ⟨t, run, seen⟩ := ok_of_any seen
  simp only [Bool.and_eq_true, decide_eq_true_eq] at seen
  exact ⟨t, run, seen.1.1, seen.1.2, seen.2⟩

/-- A table whose column has a string default, with a row of this default, is written. -/
theorem quotedDefault_written : ∃ t csv,
    filesRun (ddlText (notesTable (.string "n/a".toList))) (noteLine "n/a") = .ok t ∧
    t.dumpToFile = .ok csv ∧
    List.Forall₂ (fun line (x : Record) => line = t.line x.data ∧
      ∀ c ∈ t.colDes, ∃ d, created (notesColumns (.string "n/a".toList)) c = some d ∧
        ∀ (e : DefaultExpr) (v : Option Str), d.defaultExpr = some e.toString → x.data.getD c [] = cellOf v →
        ((t.written c (x.data.getD c []) = "DEFAULT".toList → sampleValues.value d.dataType e = v) ↔
          ¬ Misread sampleValues d.dataType e v))
      (getlines csv) ((slots t.rows t.rowHeap).filterMap id) := by
  obtain ⟨t, run, _⟩ := defaultSeen_ok (show defaultSeen (.string "n/a".toList) "n/a" = true by decide +kernel)
  have tr := notes_tracked (show ∀ l ∈ texts _, '\n' ∉ l by decide) run
  obtain ⟨csv, dump, lines⟩ := default_written_iff sampleValues tr (.refl t.rows)
  exact ⟨t, csv, run, dump, lines⟩

/-- The string `NULL` becomes a NULL default. -/
theorem nullText_misread :
    ¬ ∀ (hashCombine : UInt64 → Str → UInt64) (values : ColumnValues) (t : Table)
      (D : ColPtr → Option SQLColumnDefinition) (rows : List (Option RowPtr)),
    Tracked hashCombine t D → rows.Perm t.rows → ∃ csv, Table.dumpToFile { t with rows } = .ok csv ∧
    List.Forall₂ (fun line (x : Record) => line = t.line x.data ∧
      ∀ c ∈ t.colDes, ∃ d, D c = some d ∧ ∀ (e : DefaultExpr) (v : Option Str),
        d.defaultExpr = some e.toString → x.data.getD c [] = cellOf v →
        t.written c (x.data.getD c []) = "DEFAULT".toList → values.value d.dataType e = v)
      (getlines csv) ((slots rows t.rowHeap).filterMap id) := by
  intro holds
  obtain ⟨t, run, cols, defs, rows⟩ := defaultSeen_ok (show defaultSeen .null "NULL" = true by decide +kernel)
  have tr := notes_tracked (show ∀ l ∈ texts _, '\n' ∉ l by decide) run
  obtain ⟨_, cells⟩ := (tr.stored.2.forall_lines (.refl _)).mp (holds _ sampleValues t _ t.rows tr (.refl _))
    { data := ["NULL".toList, "5".toList], source := 0, stamp := 0 } (by
      rw [rows]
      exact List.mem_cons_self)
  have column : 0 ∈ t.colDes := by
    rw [cols]
    decide
  obtain ⟨d, at_0, default⟩ : ∃ d, t.colHeap[0]? = some d ∧ d.defStr = some "NULL".toList := by
    have first := congrArg (fun l => l[0]?) defs
    simp only [List.getElem?_map, List.getElem?_cons_zero, Option.map_eq_some_iff] at first
    obtain ⟨d, at_0, e⟩ := first
    exact ⟨d, at_0, e.trans (by decide)⟩
  obtain ⟨d', latest, value⟩ := cells 0 column
  cases latest
  cases value .null (some "NULL".toList) rfl rfl ((written_default_iff at_0).mpr default)

end TdsqlMerge.Ddl
