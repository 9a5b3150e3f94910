import TdsqlMerge.Codec
import TdsqlMerge.Ddl.Files
import TdsqlMerge.Store.Backfill
import TdsqlMerge.Store.Loaded

/-!
# Defaults

A DEFAULT is written to the `.ddl` file as SQL text from which all single quotes were deleted, and the
loader takes that text for the value: `loadedDefault` is what `addColumn` gives to existing rows,
`sourceCell` the cell the source database gives them, which depends on the type of the column
(`ColumnValues`). `stored_eq_source` says when they are the same, and `addColumn_commutes` what follows for
a row of which one copy was read before the ALTER TABLE and one after it.
-/

namespace TdsqlMerge.Ddl
open Lib Splitter Store

/-- The text of a number. -/
def Numeral : Type := { text : Str // text ≠ [] ∧ ∀ c ∈ text, c.isDigit = true ∨ c ∈ ['+', '-', '.', 'e', 'E'] }

/-- The expressions after DEFAULT. -/
inductive DefaultExpr where
  | null
  | number (n : Numeral)
  | string (v : Str)

/-- The text of a string literal, its quotes doubled. -/
def sqlString (v : Str) : Str :=
  '\'' :: (v.flatMap fun c => if c = '\'' then ['\'', '\''] else [c]) ++ ['\'']

/-- `toString` of the expression. -/
def DefaultExpr.toString : DefaultExpr → Str
  | .null => "NULL".toList
  | .number n => n.val
  | .string v => sqlString v

/-- What the literals are in the columns of the source database, as its row events tell it: `value type e` is
    the text of the value that `e` has in a column of this type, where NULL is `none`. This is up to the server
    and the library that reads the binlog: 7 is `7` in an INT column and `7.0` in a DOUBLE column, and 1e3 is
    `1000` in a VARCHAR column. Columns of a type in `texts` keep strings as they are. -/
structure ColumnValues where
  value : Str → DefaultExpr → Option Str
  texts : Str → Prop
  null : ∀ type, value type .null = none
  string : ∀ type v, value type (.string v) ≠ none
  text : ∀ type v, texts type → value type (.string v) = some v

/-- The cell that existing rows of the source database have in a new column, as a row event tells it. -/
def sourceCell (values : ColumnValues) (type : Str) (default : Option DefaultExpr) : Str :=
  cellOf (default.bind (values.value type))

/-- The default the loader reads. -/
def loadedDefault (default : Option DefaultExpr) : Option Str :=
  (default.map DefaultExpr.toString).map (replace '\'')

/-- Literals whose value in the column is what the `.ddl` file gives back: the text without its quotes. -/
def DefaultExpr.Verbatim (values : ColumnValues) (type : Str) : DefaultExpr → Prop
  | .null => False
  | .number n => values.value type (.number n) = some n.val
  | .string v => values.value type (.string v) = some (replace '\'' v) ∧ '\n' ∉ v

/-! ### Texts without their quotes -/

/-- `replace` works on each part of a text. -/
lemma replace_append {c : Char} {s s' : Str} : replace c (s ++ s') = replace c s ++ replace c s' :=
  List.filter_append ..

/-- The quotes of a literal go, and with them those of its value. -/
lemma replace_sqlString {v : Str} : replace '\'' (sqlString v) = replace '\'' v := by
  have body : replace '\'' (v.flatMap fun c => if c = '\'' then ['\'', '\''] else [c]) = replace '\'' v := by
    induction v with
    | nil => rfl
    | cons c v ih =>
      rw [List.flatMap_cons, replace_append, ih]
      by_cases quote : c = '\''
      · rw [if_pos quote, quote]
        rfl
      · rw [if_neg quote, ← replace_append]
        rfl
  rw [sqlString, List.cons_append, replace, List.filter_cons_of_neg (by decide), ← replace, replace_append,
    body]
  exact List.append_nil _

/-- A numeral has no quote. -/
lemma Numeral.unquoted {n : Numeral} : '\'' ∉ n.val := by
  intro mem
  have char := n.property.2 _ mem
  exact absurd char (by decide)

/-- A text column gives a string back if it has no quotes and no line breaks. -/
lemma verbatim_text {values : ColumnValues} {type v : Str} (text : values.texts type) :
    (DefaultExpr.string v).Verbatim values type ↔ '\'' ∉ v ∧ '\n' ∉ v := by
  rw [DefaultExpr.Verbatim, values.text type v text, Option.some.injEq, eq_comm, replace_eq_self]

/-- The NULL marker is not the text of a number. -/
lemma Numeral.ne_marker {n : Numeral} : n.val ≠ nullMarker := by
  intro e
  have marker : '_' ∈ n.val := by
    rw [e]
    decide
  exact absurd (n.property.2 _ marker) (by decide)

/-- A cell is a text other than the NULL marker iff its value is that text. -/
lemma eq_cellOf {o : Option Str} {s : Str} (some : o = none → s ≠ nullMarker) : s = cellOf o ↔ o = .some s := by
  cases o with
  | none => exact iff_of_false (some rfl) (by simp)
  | some x => exact ⟨fun e => congrArg _ e.symm, fun e => (Option.some.inj e).symm⟩

/-- The default is read back as its value iff it is a literal that the file gives back. -/
lemma stored_eq_source {values : ColumnValues} {type : Str} {default : Option DefaultExpr}
    (nb : ∀ v, default = some (.string v) → '\n' ∉ v) :
    (loadedDefault default).getD [] = sourceCell values type default ↔
      ∃ e, default = some e ∧ e.Verbatim values type := by
  rw [loadedDefault, sourceCell]
  cases default with
  | none =>
    have blank : [] ≠ nullMarker := by decide
    refine iff_of_false blank ?_
    rintro ⟨e, h, _⟩
    cases h
  | some e =>
    have only : (∃ e', some e = some e' ∧ e'.Verbatim values type) ↔ e.Verbatim values type := by
      constructor
      · rintro ⟨e', h, verbatim⟩
        cases h
        exact verbatim
      · intro verbatim
        exact ⟨e, rfl, verbatim⟩
    rw [only]
    show replace '\'' e.toString = cellOf (values.value type e) ↔ _
    cases e with
    | null =>
      rw [values.null]
      exact iff_of_false (by decide) id
    | number n =>
      rw [DefaultExpr.toString, replace_eq_self.mpr n.unquoted]
      exact eq_cellOf fun _ => n.ne_marker
    | string v =>
      rw [DefaultExpr.toString, replace_sqlString, DefaultExpr.Verbatim, and_iff_left (nb v rfl)]
      exact eq_cellOf fun null => absurd null (values.string type v)

/-! ### ADDCOL with any default -/

section
variable {ls ls' : List Str} {statement : Statement}

/-- A column that is read has the name on its first line. -/
lemma readColumn_name {name : Str} {col : ColumnStatement}
    (run : ColumnStatement.read (name :: ls) = .ok (col, ls')) : col.name = name := by
  rw [ColumnStatement.read, Reader.bind_of_ok Reader.getLine_cons] at run
  simp only [Reader.bind_eq_ok] at run
  obtain ⟨type, ls1, _, notNull, ls2, _, hasDefault, ls3, _, run⟩ := run
  split at run
  · rw [Reader.bind_eq_ok] at run
    obtain ⟨text, ls4, _, e⟩ := run
    cases e
    rfl
  · cases run
    rfl

variable {tableName : SQLName} {d : SQLColumnDefinition} {placement : Placement}

/-- Whatever its default is, an ADDCOL is read as an ADDCOL of the column, if at all. -/
lemma readAddColumn (name : '\n' ∉ d.columnName.getSimpleName)
    (run : Statement.getStatement (ddlText (.alterTable tableName [.addColumn [d] placement])) =
      .ok statement) :
    ∃ col after, statement = .addCol col after ∧ col.name = d.columnName.getSimpleName := by
  have written : ∃ tail, ddlText (.alterTable tableName [.addColumn [d] placement]) =
      unlines (["ALTER".toList, "ADDCOL".toList, d.columnName.getSimpleName] ++ tail) := ⟨_, rfl⟩
  obtain ⟨tail, written⟩ := written
  have head : Plain ["ALTER".toList, "ADDCOL".toList, d.columnName.getSimpleName] :=
    .cons (by decide) (.cons (by decide) (.cons name .nil))
  rw [Statement.getStatement, written, getlines_unlines_append head, bind_ok] at run
  obtain ⟨⟨st, ls⟩, read, e⟩ := run
  cases e
  simp only [List.cons_append, List.nil_append] at read
  rw [Statement.read, Reader.bind_of_ok Reader.getLine_cons, if_neg (by decide), if_pos rfl,
    Statement.readAlter, Reader.bind_of_ok Reader.getLine_cons, if_pos rfl, Statement.readAddCol,
    Reader.bind_eq_ok] at read
  obtain ⟨col, ls1, column, read⟩ := read
  rw [Reader.bind_eq_ok] at read
  obtain ⟨isAfterCol, ls2, _, read⟩ := read
  split at read
  · rw [Reader.bind_eq_ok] at read
    obtain ⟨insAfter, ls3, _, e⟩ := read
    cases e
    exact ⟨col, some insAfter, rfl, readColumn_name column⟩
  · cases read
    exact ⟨col, none, rfl, readColumn_name column⟩

end

/-! ### A row before and after ADDCOL -/

section
variable (hashCombine : UInt64 → Str → UInt64)

/-- Inserting `r` and replaying the file, in either order, shows the same rows if `r` gets the cell `v`
    when it comes second. -/
def Commutes (t : Table) (ddl : Str) (r : Row) (v : Str) : Prop :=
  ∃ statement t1 t2, Statement.getStatement ddl = .ok statement ∧
    (do
      let t ← t.insert hashCombine r
      statement.fillToTable hashCombine t) = .ok t1 ∧
    (do
      let t ← statement.fillToTable hashCombine t
      t.insert hashCombine (r.grow v)) = .ok t2 ∧
    t1.shown = t2.shown

/-- After `r` and the file, the copy `r'` with the cell `v` takes no slot of its own. -/
def Merges (t : Table) (ddl : Str) (r r' : Row) (v : Str) : Prop :=
  ∃ statement t1 t3, Statement.getStatement ddl = .ok statement ∧
    (do
      let t ← t.insert hashCombine r
      statement.fillToTable hashCombine t) = .ok t1 ∧
    t1.insert hashCombine (r'.grow v) = .ok t3 ∧ t3.rows.length = t1.rows.length

/-- The file is read as an ADDCOL after a column that exists. -/
def Loads (t : Table) (ddl : Str) : Prop :=
  ∃ col after, Statement.getStatement ddl = .ok (.addCol col after) ∧
    ∀ n ∈ after, ∃ c, t.colDes.find? (t.hasName n) = some c

/-- The hash tells the rows apart under the temporary index after the file, among them `r'` with the cell
    `v`. -/
def TempSeparates (t : Table) (u : ColPtr) (ddl : Str) (r r' : Row) (v : Str) : Prop :=
  ∀ col after w, Statement.getStatement ddl = .ok (.addCol col after) → ColumnAdded col after t w →
    Separates hashCombine (w.colDes.erase u) (insert (r'.record.grow v)
      (Record.grow (col.defaultStr.getD []) '' insert r.record t.records))

variable {hashCombine} {t : Table} {u : ColPtr} {index : UniqueIndex} {r r' : Row} {v ddl : Str}
  {col : ColumnStatement} {after : Option Str}

/-- The two orders for the statement that is read. -/
lemma commutes_loaded (od : Ordered hashCombine t u index col after r v)
    (read : Statement.getStatement ddl = .ok (.addCol col after)) :
    Commutes hashCombine t ddl r v ↔
      col.defaultStr.getD [] = v ∨ index.isTemp = false ∧ t.Rejects u index.cols r := by
  obtain ⟨t1, t2, run1, run2, agree, _⟩ := orders_agree od
  rw [← agree]
  constructor
  · rintro ⟨statement, t1', t2', read', run1', run2', same⟩
    rw [read] at read'
    cases read'
    rw [Statement.fillToTable] at run2'
    simp only [Statement.fillToTable] at run1'
    rw [run1] at run1'
    rw [run2] at run2'
    cases run1'
    cases run2'
    exact same
  · intro same
    exact ⟨_, t1, t2, read, run1, run2, same⟩

/-- A copy with the cell `v` merges under the temporary index where `v` is the default that was read. -/
lemma merges_loaded (od : Ordered hashCombine t u index col after r v)
    (read : Statement.getStatement ddl = .ok (.addCol col after)) (isTemp : index.isTemp = true)
    (wide : r'.data.length = t.colPhy) (copy : keyCells index.cols r'.data = keyCells index.cols r.data)
    (sep : TempSeparates hashCombine t u ddl r r' v) :
    Merges hashCombine t ddl r r' v ↔ col.defaultStr.getD [] = v := by
  obtain ⟨t1, t3, run1, ins, len⟩ := copy_merges od isTemp wide copy fun w => sep col after w read
  rw [← len]
  constructor
  · rintro ⟨statement, t1', t3', read', run1', ins', same⟩
    rw [read] at read'
    cases read'
    simp only [Statement.fillToTable] at run1'
    rw [run1] at run1'
    cases run1'
    rw [ins] at ins'
    cases ins'
    exact same
  · intro same
    exact ⟨_, t1, t3, read, run1, ins, same⟩

variable {tableName : SQLName} {d : SQLColumnDefinition} {placement : Placement}
  {default : Option DefaultExpr} {values : ColumnValues}

/-- A default without line breaks is read as `loadColumn` says. -/
lemma readAddColumn_written (written : d.defaultExpr = default.map DefaultExpr.toString)
    (named : Plain ([d.columnName.getSimpleName, d.dataType] ++ placementTexts placement))
    (nb : ∀ v, default = some (.string v) → '\n' ∉ v) :
    Statement.getStatement (ddlText (.alterTable tableName [.addColumn [d] placement])) =
      .ok (.addCol (loadColumn d (d.constraints[0]? = some .notNull)) (loadPlacement placement)) := by
  refine getStatement_written rfl (fun n mem => by cases mem) ?_
  have text : Plain d.defaultExpr.toList := by
    rw [written]
    intro l mem
    cases default with
    | none => cases mem
    | some e =>
      rw [List.mem_singleton.mp mem]
      cases e with
      | null => decide
      | number n =>
        intro nl
        exact absurd (n.property.2 _ nl) (by decide)
      | string v =>
        intro nl
        rw [DefaultExpr.toString, sqlString, List.cons_append, List.mem_cons, List.mem_append,
          List.mem_flatMap, List.mem_singleton] at nl
        rcases nl with nl | ⟨c, mem, nl⟩ | nl
        · exact absurd nl (by decide)
        · split at nl
          · exact absurd nl (by decide)
          · rw [List.mem_singleton] at nl
            subst nl
            exact nb v rfl mem
        · exact absurd nl (by decide)
  have all : texts (.alterTable tableName [.addColumn [d] placement]) =
      [d.columnName.getSimpleName, d.dataType] ++ d.defaultExpr.toList ++ placementTexts placement := by
    simp [texts, itemTexts, columnTexts]
  rw [all]
  exact (named.left.append text).append named.right

variable (hashCombine) in
/-- A table satisfying the invariant, a row of its width, and an ALTER TABLE that adds a column with this
    default at the end or after a column of the table. The names and the type have no line breaks, only a text
    column has a default with one, the column is not `updated_at`, and the hash tells all keys apart. -/
structure Adds (values : ColumnValues) (t : Table) (u : ColPtr) (index : UniqueIndex) (tableName : SQLName)
    (d : SQLColumnDefinition) (placement : Placement) (default : Option DefaultExpr) (r : Row) : Prop where
  written : d.defaultExpr = default.map DefaultExpr.toString
  named : Plain ([d.columnName.getSimpleName, d.dataType] ++ placementTexts placement)
  broken : ∀ v, default = some (.string v) → '\n' ∈ v → values.texts d.dataType
  sound : Sound hashCombine t u index
  spans : TempOver t u index
  wide : r.data.length = t.colPhy
  name : d.columnName.getSimpleName ≠ updatedAt
  find : ∀ n ∈ loadPlacement placement, ∃ c, t.colDes.find? (t.hasName n) = some c
  sep : Separates hashCombine index.cols (insert r.record t.records)
  sepTemp : index.isTemp = true → TempSeparates hashCombine t u
    (ddlText (.alterTable tableName [.addColumn [d] placement])) r r (sourceCell values d.dataType default)

/-- The statement that is read, if one is, is an ADDCOL to which `commutes_loaded` applies. -/
lemma Adds.ordered (ad : Adds hashCombine values t u index tableName d placement default r)
    (read : Statement.getStatement (ddlText (.alterTable tableName [.addColumn [d] placement])) =
      .ok (.addCol col after))
    (find : ∀ n ∈ after, ∃ c, t.colDes.find? (t.hasName n) = some c) :
    Ordered hashCombine t u index col after r (sourceCell values d.dataType default) := by
  obtain ⟨_, _, e, same⟩ := readAddColumn (ad.named _ List.mem_cons_self) read
  cases e
  exact ⟨ad.sound, ad.spans, ad.wide, by rw [same]; exact ad.name, find, ad.sep,
    fun isTemp w => ad.sepTemp isTemp col after w read⟩

/-- Replaying the file returns only if an ADDCOL was read whose column to insert after exists. -/
lemma Adds.loads {statement : Statement} {t1 : Table}
    (ad : Adds hashCombine values t u index tableName d placement default r)
    (read : Statement.getStatement (ddlText (.alterTable tableName [.addColumn [d] placement])) =
      .ok statement)
    (run : (do
      let t ← t.insert hashCombine r
      statement.fillToTable hashCombine t) = .ok t1) :
    ∃ col after, statement = .addCol col after ∧ ∀ n ∈ after, ∃ c, t.colDes.find? (t.hasName n) = some c := by
  obtain ⟨col, after, rfl, _⟩ := readAddColumn (ad.named _ List.mem_cons_self) read
  obtain ⟨t0, index0, ins, sc, so0, _⟩ := insert_sound ad.sound ad.wide
  rw [ins, ok_bind] at run
  have find := addColumnOf_find so0 run
  rw [sc] at find
  exact ⟨col, after, rfl, find⟩

/-- The cell that existing rows get is the one of the source database iff the default is a literal that the file
    gives back. -/
lemma cell_iff (written : d.defaultExpr = default.map DefaultExpr.toString)
    (broken : ∀ v, default = some (.string v) → '\n' ∈ v → values.texts d.dataType)
    (read : Statement.getStatement ddl = .ok (.addCol col after))
    (plain : (∀ v, default = some (.string v) → '\n' ∉ v) →
      Statement.getStatement ddl = .ok (.addCol (loadColumn d isNotNull) (loadPlacement placement))) :
    col.defaultStr.getD [] = sourceCell values d.dataType default ↔
      ∃ e, default = some e ∧ e.Verbatim values d.dataType := by
  by_cases nl : ∀ v, default = some (.string v) → '\n' ∉ v
  · have read' := plain nl
    rw [read] at read'
    cases read'
    rw [loadColumn, written]
    exact stored_eq_source nl
  · simp only [not_forall, not_not] at nl
    obtain ⟨v, rfl, mem⟩ := nl
    -- the loader reads one line, the value has more
    refine iff_of_false ?_ ?_
    · intro e
      have cell : sourceCell values d.dataType (some (.string v)) = v :=
        congrArg cellOf (values.text d.dataType v (broken v rfl mem))
      rw [cell] at e
      rw [← e] at mem
      exact getStatement_unbroken read mem
    · rintro ⟨e, h, verbatim⟩
      cases h
      exact verbatim.2 mem

/-- A row inserted before an ADDCOL ends up as if it had been inserted after it, with the cell the source
    database gives it, iff the default is a literal whose value in the column is its text without quotes, or the
    row is lost in both orders, which needs an index that is not temporary. Under a temporary index a later copy
    of the row is merged with it iff the default is such a literal. -/
theorem addColumn_commutes (ad : Adds hashCombine values t u index tableName d placement default r) :
    (Commutes hashCombine t (ddlText (.alterTable tableName [.addColumn [d] placement])) r
        (sourceCell values d.dataType default) ↔
      (∃ e, default = some e ∧ e.Verbatim values d.dataType) ∨ index.isTemp = false ∧ t.Rejects u index.cols r ∧
        Loads t (ddlText (.alterTable tableName [.addColumn [d] placement]))) ∧
    (index.isTemp = true → ∀ r' : Row, r'.data.length = t.colPhy →
      keyCells index.cols r'.data = keyCells index.cols r.data →
      TempSeparates hashCombine t u (ddlText (.alterTable tableName [.addColumn [d] placement])) r r'
        (sourceCell values d.dataType default) →
      (Merges hashCombine t (ddlText (.alterTable tableName [.addColumn [d] placement])) r r'
          (sourceCell values d.dataType default) ↔ ∃ e, default = some e ∧ e.Verbatim values d.dataType)) := by
  have cell : ∀ {col after}, Statement.getStatement
      (ddlText (.alterTable tableName [.addColumn [d] placement])) = .ok (.addCol col after) →
      (col.defaultStr.getD [] = sourceCell values d.dataType default ↔
        ∃ e, default = some e ∧ e.Verbatim values d.dataType) := by
    intro col after read
    exact cell_iff ad.written ad.broken read (readAddColumn_written ad.written ad.named)
  have verbatim : (∃ e, default = some e ∧ e.Verbatim values d.dataType) →
      ∀ v, default = some (.string v) → '\n' ∉ v := by
    rintro ⟨e, rfl, verbatim⟩ v same
    cases same
    exact verbatim.2
  constructor
  · constructor
    · intro commutes
      have parts := commutes
      obtain ⟨statement, _, _, read, run, _⟩ := parts
      obtain ⟨col, after, rfl, find⟩ := ad.loads read run
      rcases (commutes_loaded (ad.ordered read find) read).mp commutes with same | ⟨perm, rejects⟩
      · exact .inl ((cell read).mp same)
      · exact .inr ⟨perm, rejects, col, after, read, find⟩
    · rintro (literal | ⟨perm, rejects, col, after, read, find⟩)
      · have read := @readAddColumn_written tableName _ _ _ ad.written ad.named (verbatim literal)
        exact (commutes_loaded (ad.ordered read ad.find) read).mpr (.inl ((cell read).mpr literal))
      · exact (commutes_loaded (ad.ordered read find) read).mpr (.inr ⟨perm, rejects⟩)
  · intro isTemp r' wide copy sep
    constructor
    · intro merges
      have parts := merges
      obtain ⟨statement, _, _, read, run, _⟩ := parts
      obtain ⟨col, after, rfl, find⟩ := ad.loads read run
      exact (cell read).mp ((merges_loaded (ad.ordered read find) read isTemp wide copy sep).mp merges)
    · intro literal
      have read := @readAddColumn_written tableName _ _ _ ad.written ad.named (verbatim literal)
      exact (merges_loaded (ad.ordered read ad.find) read isTemp wide copy sep).mpr ((cell read).mpr literal)

end

/-! ### A column without a default -/

/-- A table `(id, updated_at)` without a key. -/
def bareRun : Res Table :=
  Table.new.fillCreate Store.hashCombine
    [{ name := "id".toList, type := "int".toList, isNotNull := false, defaultStr := none },
      { name := updatedAt, type := "datetime".toList, isNotNull := true, defaultStr := none }] []

/-- Its row. -/
def bareRow : Row := .new ["1".toList, "5".toList] 0 0

/-- A new column `note`. -/
def noteColumn (default : Option DefaultExpr) : SQLColumnDefinition where
  columnName := { name := "note".toList, quoted := false }
  dataType := "text".toList
  constraints := []
  defaultExpr := default.map DefaultExpr.toString

/-- The name of the table. -/
def bareName : SQLName := { name := "t".toList, quoted := false }

/-- Columns as the row events of a MySQL server tell them: a number in a DOUBLE column has a decimal point. -/
def sampleValues : ColumnValues where
  value
    | _, .null => none
    | type, .number n => some (if type = "double".toList ∧ '.' ∉ n.val then n.val ++ ".0".toList else n.val)
    | _, .string v => some v
  texts type := type = "text".toList
  null _ := rfl
  string _ _ := Option.some_ne_none _
  text _ _ _ := rfl

/-- A table without a key and a row, to which the statement adds a note. -/
lemma bareRun_adds {default : Option DefaultExpr} (nb : ∀ v, default = some (.string v) → '\n' ∉ v)
    (apart : slotKey Store.hashCombine [0, 2] (bareRow.record.grow ((loadedDefault default).getD [])) =
        slotKey Store.hashCombine [0, 2] (bareRow.record.grow (sourceCell sampleValues "text".toList default)) →
      (loadedDefault default).getD [] = sourceCell sampleValues "text".toList default) :
    ∃ t index, bareRun = .ok t ∧ index.isTemp = true ∧
      Adds Store.hashCombine sampleValues t 1 index bareName (noteColumn default) .none default bareRow := by
  have seen : (bareRun.toOption.any fun t => decide (t.updCol = some 1) && decide (t.colDes = [0, 1]) &&
      decide (t.rows = []) && decide (t.indexs.map UniqueIndex.isTemp = [true])) = true := by decide +kernel
  obtain ⟨t, run, seen⟩ := ok_of_any seen
  simp only [Bool.and_eq_true, decide_eq_true_eq] at seen
  obtain ⟨⟨⟨upd, colDes⟩, rows⟩, temp⟩ := seen
  obtain ⟨u, index, so⟩ := fillCreate_sound run (by decide) ⟨_, .tail _ (.head _), rfl⟩
  have eu : u = 1 := Option.some.inj (so.upd.col.symm.trans upd)
  subst eu
  rw [so.indexs, List.map_singleton, List.cons.injEq] at temp
  obtain ⟨isTemp, _⟩ := temp
  have none : t.records = ∅ := by
    rw [Table.records, rows]
    exact Set.eq_empty_of_forall_notMem fun x mem => by cases mem
  have named : Plain ([(noteColumn default).columnName.getSimpleName, (noteColumn default).dataType] ++
      placementTexts .none) := .cons (show '\n' ∉ "note".toList by decide)
    (.cons (show '\n' ∉ "text".toList by decide) .nil)
  have name : (noteColumn default).columnName.getSimpleName ≠ updatedAt :=
    show "note".toList ≠ updatedAt by decide
  have phy : t.colPhy = 2 := (fillCreate_rowless run).2.1.colPhy
  refine ⟨t, index, run, isTemp, ⟨rfl, named, fun _ _ _ => rfl, so, fillCreate_tempOver so (by decide) run,
    by rw [phy]; rfl, name, fun n mem => (by cases mem), ?_, fun _ col after w read ca => ?_⟩⟩
  · rw [none]
    rintro x (rfl | no) y (rfl | no) _
    · rfl
    all_goals cases no
  · rw [readAddColumn_written rfl named nb] at read
    cases read
    have des : w.colDes.erase 1 = [0, 2] := by
      have last : w.colDes = t.colDes ++ [t.colHeap.length] := ca.colDes
      rw [last, colDes, so.layout.heap_length, phy]
      decide
    rw [des, none]
    -- the only row, copied before and after the statement, is all there is to collide
    have two : ∀ x ∈ insert (bareRow.record.grow (sourceCell sampleValues "text".toList default))
        (Record.grow ((loadedDefault default).getD []) '' insert bareRow.record ∅),
        x = bareRow.record.grow (sourceCell sampleValues "text".toList default) ∨
          x = bareRow.record.grow ((loadedDefault default).getD []) := by
      rintro x (rfl | ⟨y, rfl | no, rfl⟩)
      · exact .inl rfl
      · exact .inr rfl
      · cases no
    intro x hx y hy hash
    rcases two x hx with rfl | rfl <;> rcases two y hy with rfl | rfl
    · rfl
    · rw [apart hash.symm]
    · rw [apart hash]
    · rfl

/-- The file of the new column. -/
def noteFile (default : Option DefaultExpr) : Str :=
  ddlText (.alterTable bareName [.addColumn [noteColumn default] .none])

/-- A number default commutes with a row of a table without keys. -/
theorem numberDefault_commutes : ∃ t, bareRun = .ok t ∧
    Commutes Store.hashCombine t (noteFile (some (.number ⟨"7".toList, by decide⟩))) bareRow "7".toList := by
  obtain ⟨t, index, run, isTemp, ad⟩ := @bareRun_adds (some (.number ⟨"7".toList, by decide⟩))
    (fun v e => by cases e) fun _ => rfl
  exact ⟨t, run, (addColumn_commutes ad).1.mpr (.inl ⟨_, rfl, rfl⟩)⟩

-- 7 in a DOUBLE column is told as `7.0`
example : ¬ (DefaultExpr.number ⟨"7".toList, by decide⟩).Verbatim sampleValues "double".toList :=
  show sampleValues.value "double".toList (.number ⟨"7".toList, _⟩) ≠ some "7".toList by decide

/-- Without a default the two orders may show different rows. -/
theorem noDefault_splits : ¬ ∀ (hashCombine : UInt64 → Str → UInt64) (values : ColumnValues) (t : Table) (u : ColPtr)
    (index : UniqueIndex) (tableName : SQLName) (d : SQLColumnDefinition) (placement : Placement)
    (default : Option DefaultExpr) (r : Row),
    Adds hashCombine values t u index tableName d placement default r →
    Commutes hashCombine t (ddlText (.alterTable tableName [.addColumn [d] placement])) r
      (sourceCell values d.dataType default) := by
  intro claim
  obtain ⟨t, index, run, isTemp, ad⟩ := @bareRun_adds none (fun v e => by cases e) (by decide +kernel)
  have read := @readAddColumn_written bareName _ _ _ ad.written ad.named fun v e => by cases e
  have commutes := claim _ _ _ _ _ _ _ _ _ _ ad
  rcases (commutes_loaded (ad.ordered read ad.find) read).mp commutes with same | ⟨perm, _⟩
  · exact absurd same (by decide)
  · rw [isTemp] at perm
    cases perm

end TdsqlMerge.Ddl
