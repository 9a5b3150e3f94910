import TdsqlMerge.Store.Fields
import TdsqlMerge.Store.Rebuild
import TdsqlMerge.Store.Written

/-!
# Tables made from files

`Loaded` collects the tables that the loader makes from `.ddl` and `.dat` files, whatever these contain, as
long as it reads them without an exception. Such a table can be written (`Loaded.writable`), and since
everything was read line by line no cell of it contains a line break (`Loaded.unbroken`).
-/

namespace TdsqlMerge.Store
open Lib

/-- Some text contains a line break. -/
def Broken (texts : List Str) : Prop := ∃ s ∈ texts, '\n' ∈ s

/-! ### Parsed cells -/

section
variable {insPos : List Nat} {n k : Nat} {vec vec' : List Str} {text : Str}

/-- Appending a character that is no line break breaks no cell. -/
lemma appendCell_unbroken {c : Char} (run : appendCell vec insPos k c = .ok vec') (ne : c ≠ '\n')
    (one : ¬ Broken vec) : vec'.length = vec.length ∧ ¬ Broken vec' := by
  obtain ⟨p, cell, _, at_p, rfl⟩ := appendCell_inv run
  refine ⟨List.length_set, ?_⟩
  rintro ⟨s, mem, broken⟩
  rcases List.mem_or_eq_of_mem_set mem with mem | rfl
  · exact one ⟨s, mem, broken⟩
  · rcases List.mem_append.mp broken with broken | broken
    · exact one ⟨cell, List.mem_of_getElem? at_p, broken⟩
    · exact ne (List.mem_singleton.mp broken).symm

/-- A byte read is one of the line, or its terminator. -/
lemma readField_mem {c : Char} (mem : c ∈ readField text) : c ∈ text ∨ c = Char.ofNat 0 := by
  induction text using readField.induct with
  | case1 => cases mem
  | case2 => exact .inr (List.mem_singleton.mp mem)
  | case3 d rest ih =>
    rw [readField, List.mem_cons] at mem
    rcases mem with rfl | mem
    · exact .inl (List.mem_cons_of_mem _ List.mem_cons_self)
    · exact (ih mem).imp (fun old => List.mem_cons_of_mem _ (List.mem_cons_of_mem _ old)) id
  | case4 => cases mem
  | case5 d rest no_end bs quote ih =>
    rw [readField, List.mem_cons] at mem
    · rcases mem with rfl | mem
      · exact .inl List.mem_cons_self
      · exact (ih mem).imp (fun old => List.mem_cons_of_mem _ old) id
    all_goals assumption

/-- A parse puts no line break into the cells of a line. -/
lemma parseLoop_unbroken (run : parseLoop insPos n text k vec = .ok vec') (line : '\n' ∉ text)
    (one : ¬ Broken vec) : vec'.length = vec.length ∧ ¬ Broken vec' := by
  induction size : text.length using Nat.strong_induction_on generalizing text k vec with
  | _ _ ih =>
    rcases parseLoop_inv run with ⟨_, rfl⟩ | ⟨c, rest, vec1, read, suffix, lt, step, run⟩ |
      ⟨rest, _, suffix, lt, run⟩
    · exact ⟨rfl, one⟩
    · have ne : c ≠ '\n' := by
        rintro rfl
        rcases readField_mem (by rw [read]; exact List.mem_cons_self) with mem | nul
        · exact line mem
        · exact absurd nul (by decide)
      obtain ⟨len, one⟩ := appendCell_unbroken step ne one
      obtain ⟨len', one⟩ := ih rest.length (by omega) run (fun mem => line (suffix.mem mem)) one rfl
      exact ⟨len'.trans len, one⟩
    · exact ih rest.length (by omega) run (fun mem => line (suffix.mem mem)) one rfl

/-- `parseEscaped` on a line without a break. -/
lemma parseEscaped_unbroken {line : Str} {width : Nat}
    (run : parseEscaped (List.replicate width []) line n insPos = .ok vec) (nb : '\n' ∉ line) :
    vec.length = width ∧ ¬ Broken vec := by
  rw [parseEscaped] at run
  split at run
  · cases run
  · have empty : ¬ Broken (List.replicate width []) := by
      rintro ⟨s, mem, broken⟩
      rw [(List.mem_replicate.mp mem).2] at broken
      cases broken
    obtain ⟨len, one⟩ := parseLoop_unbroken run (fun mem => nb (List.mem_of_mem_drop mem)) empty
    exact ⟨by rw [len, List.length_replicate], one⟩

end

/-! ### Statements -/

section
variable {ls ls' : List Str}

/-- A line of an unbroken text is unbroken, and so is the rest. -/
lemma getLine_unbroken {l : Str} (run : Reader.getLine ls = .ok (l, ls')) (nb : ¬ Broken ls) :
    '\n' ∉ l ∧ ¬ Broken ls' := by
  cases ls with
  | nil =>
    cases run
    exact ⟨List.not_mem_nil, nb⟩
  | cons head ls =>
    cases run
    refine ⟨fun mem => nb ⟨l, List.mem_cons_self, mem⟩, ?_⟩
    rintro ⟨s, mem, broken⟩
    exact nb ⟨s, List.mem_cons_of_mem l mem, broken⟩

/-- Reading a number leaves an unbroken rest. -/
lemma getLineInt_unbroken {i : Int} (run : getLineInt ls = .ok (i, ls')) (nb : ¬ Broken ls) :
    ¬ Broken ls' := by
  rw [getLineInt, Reader.bind_eq_ok] at run
  obtain ⟨l, ls1, line, run⟩ := run
  cases cast : lexicalCastInt l with
  | none =>
    rw [cast] at run
    cases run
  | some i =>
    rw [cast] at run
    cases run
    exact (getLine_unbroken line nb).2

/-- The default of a column was one line. -/
lemma readColumn_unbroken {col : ColumnStatement} (run : ColumnStatement.read ls = .ok (col, ls'))
    (nb : ¬ Broken ls) : '\n' ∉ col.defaultStr.getD [] := by
  simp only [ColumnStatement.read, Reader.bind_eq_ok] at run
  obtain ⟨name, ls1, line1, type, ls2, line2, notNull, ls3, line3, hasDefault, ls4, line4, run⟩ := run
  have nb := getLineInt_unbroken line4 (getLineInt_unbroken line3
    (getLine_unbroken line2 (getLine_unbroken line1 nb).2).2)
  split at run
  · rw [Reader.bind_eq_ok] at run
    obtain ⟨text, ls5, line5, run⟩ := run
    cases run
    exact (getLine_unbroken line5 nb).1
  · cases run
    exact List.not_mem_nil

/-- Only `readAddCol` yields an ADDCOL. -/
lemma readAlter_addCol {col : ColumnStatement} {after : Option Str}
    (run : Statement.readAlter ls = .ok (.addCol col after, ls')) :
    ∃ l ls1, Reader.getLine ls = .ok (l, ls1) ∧ Statement.readAddCol ls1 = .ok (.addCol col after, ls') := by
  rw [Statement.readAlter, Reader.bind_eq_ok] at run
  obtain ⟨type, ls1, line, run⟩ := run
  split at run
  · exact ⟨type, ls1, line, run⟩
  split at run
  · cases run
  split at run
  · rw [Reader.bind_eq_ok] at run
    obtain ⟨_, _, _, e⟩ := run
    cases e
  split at run
  · rw [Statement.readDropIndex, Reader.bind_eq_ok] at run
    obtain ⟨isPrimary, _, _, run⟩ := run
    split at run <;> (obtain ⟨_, _, _, e⟩ := Reader.bind_eq_ok.mp run; cases e)
  split at run
  · rw [Statement.readAddIndex, Reader.bind_eq_ok] at run
    obtain ⟨isPrimary, _, _, run⟩ := run
    split at run <;>
      (simp only [Reader.bind_eq_ok] at run; obtain ⟨_, _, _, _, _, _, _, _, _, e⟩ := run; cases e)
  split at run
  · simp only [Statement.readChangeCol, Reader.bind_eq_ok] at run
    obtain ⟨_, _, _, _, _, _, e⟩ := run
    cases e
  · cases run

/-- The default of an added column was one line. -/
lemma getStatement_unbroken {ddl : Str} {col : ColumnStatement} {after : Option Str}
    (run : Statement.getStatement ddl = .ok (.addCol col after)) : '\n' ∉ col.defaultStr.getD [] := by
  have nb : ¬ Broken (getlines ddl) := by
    rintro ⟨s, mem, broken⟩
    exact not_mem_of_mem_getlines mem broken
  rw [Statement.getStatement, bind_ok] at run
  obtain ⟨⟨statement, rest⟩, read, e⟩ := run
  cases e
  rw [Statement.read, Reader.bind_eq_ok] at read
  obtain ⟨type, ls1, line, read⟩ := read
  have nb1 := (getLine_unbroken line nb).2
  split at read
  · simp only [Statement.readCreate, Reader.bind_eq_ok] at read
    obtain ⟨_, _, _, _, _, _, _, _, _, _, _, _, _, _, _, e⟩ := read
    cases e
  · split at read
    · obtain ⟨_, ls2, line, read⟩ := readAlter_addCol read
      have nb2 := (getLine_unbroken line nb1).2
      simp only [Statement.readAddCol, Reader.bind_eq_ok] at read
      obtain ⟨col', ls3, column, flag, ls4, line, read⟩ := read
      have same : col' = col := by
        split at read
        · rw [Reader.bind_eq_ok] at read
          obtain ⟨_, _, _, e⟩ := read
          cases e
          rfl
        · cases read
          rfl
      rw [← same]
      exact readColumn_unbroken column nb2
    · cases read

end

/-! ### Tables -/

section
variable (hashCombine : UInt64 → Str → UInt64)

/-- The tables that a CREATE, further `.ddl` files and `.dat` files lead to. The CREATE has `updated_at`: without
    it `updCol` is not set, and `checkRow` reads `updCol` at the first two rows with the same key. -/
inductive Loaded : Table → Prop where
  | create {ddl name cols indexs t} :
    Statement.getStatement ddl = .ok (.create name cols indexs) →
    (∃ col ∈ cols, col.name = updatedAt) →
    Table.new.fillCreate hashCombine cols indexs = .ok t →
    Loaded t
  | alter {t t' ddl statement} :
    Loaded t →
    Statement.getStatement ddl = .ok statement →
    statement.isAlter = true →
    statement.fillToTable hashCombine t = .ok t' →
    Loaded t'
  | batch {t t1 t' dat source startStamp ps stamp} :
    Loaded t →
    t.parseData dat source startStamp = .ok (ps, stamp, t1) →
    t1.insertRows hashCombine ps = .ok t' →
    Loaded t'

/-- The invariant of the store, for a table with any number of keys as long as it has no rows. -/
def Stored (t : Table) : Prop :=
  (∃ u index, Sound hashCombine t u index) ∨ Rowless t ∧ ∃ u, t.updCol = some u

/-- The live rows have no line break in a cell. -/
def Table.Unbroken (t : Table) : Prop := ∀ i p r, t.Live i p r → ¬ Broken r.data

variable {hashCombine} {t t' w : Table} {u : ColPtr} {index : UniqueIndex}

/-- A stored table has a layout. -/
lemma Stored.layout (st : Stored hashCombine t) : Layout t := by
  rcases st with ⟨u, index, so⟩ | ⟨rl, _⟩
  · exact so.layout
  · exact rl.layout

/-- A stored table can be written. -/
lemma Stored.writable (st : Stored hashCombine t) : Writable t := by
  rcases st with ⟨u, index, so⟩ | ⟨rl, _⟩
  · exact so.writable
  · refine ⟨rl.layout, fun p mem => ?_⟩
    rw [rl.rows] at mem
    cases mem

/-- An ALTER TABLE statement that succeeds keeps the table stored. -/
lemma Stored.alter {statement : Statement} (st : Stored hashCombine t) (alter : statement.isAlter = true)
    (run : statement.fillToTable hashCombine t = .ok t') : Stored hashCombine t' := by
  rcases st with ⟨u, index, so⟩ | ⟨rl, u, upd⟩
  · exact .inl (fillToTable_sound so alter run)
  · exact .inr ⟨fillToTable_rowless rl alter run, fillToTable_upd upd alter run⟩

/-- Rows that only moved have no line break. -/
lemma Table.Unbroken.merged (ub : t.Unbroken) (mg : Merged [] t t') : t'.Unbroken := by
  rintro i p r' ⟨at_i, hr'⟩
  obtain ⟨r, hr, e⟩ := mg.value p r' hr'
  rcases mg.mem p (List.mem_of_getElem? at_i) with old | new
  · obtain ⟨j, at_j⟩ := List.mem_iff_getElem?.mp old
    have data : r'.data = r.data := congrArg Record.data e
    rw [data]
    exact ub j p r ⟨at_j, hr⟩
  · cases new

/-- Rows with a further cell without line break have none. -/
lemma Table.Unbroken.widened {cell : Str} (ub : t.Unbroken) (wi : Widened cell t w) (nb : '\n' ∉ cell) :
    w.Unbroken := by
  rintro i p r' ⟨at_i, hr'⟩
  rw [wi.rows] at at_i
  rw [Table.row?_eq, wi.slot at_i, Option.map_eq_some_iff] at hr'
  obtain ⟨r, hr, rfl⟩ := hr'
  rintro ⟨s, mem, broken⟩
  rcases List.mem_append.mp mem with mem | mem
  · exact ub i p r ⟨at_i, hr⟩ ⟨s, mem, broken⟩
  · rw [List.mem_singleton.mp mem] at broken
    exact nb broken

/-- A table without rows has no broken cell. -/
lemma Rowless.unbroken (rl : Rowless t) : t.Unbroken := by
  rintro i p r ⟨at_i, _⟩
  rw [rl.rows] at at_i
  cases at_i

/-- A statement that was read from a file puts no line break into a row. -/
lemma Stored.alter_unbroken {ddl : Str} {statement : Statement} (st : Stored hashCombine t) (ub : t.Unbroken)
    (read : Statement.getStatement ddl = .ok statement) (alter : statement.isAlter = true)
    (run : statement.fillToTable hashCombine t = .ok t') : t'.Unbroken := by
  rcases st with ⟨u, index, so⟩ | ⟨rl, _⟩
  · cases statement with
    | create name cols indexs => cases alter
    | addCol col after =>
      obtain ⟨w, _, _, wi, _, _, _, mg, _⟩ := addColumnOf_sound so run
      exact (ub.widened wi (getStatement_unbroken read)).merged mg
    | nothing =>
      cases run
      exact ub
    | dropCol name =>
      obtain ⟨_, _, _, _, mg, _⟩ := dropColumn_sound so run
      exact ub.merged mg
    | dropIndex isPrimary name =>
      obtain ⟨_, _, mg, _⟩ := dropUniqueIndex_sound so run
      exact ub.merged mg
    | addIndex isPrimary name cols =>
      obtain ⟨_, _, mg⟩ := addUniqueIndex_sound so run
      exact ub.merged mg
    | changeCol col prevName =>
      obtain ⟨_, rows, heap⟩ := changeCol_sound so run
      rintro i p r ⟨at_i, hr⟩
      rw [rows] at at_i
      rw [Table.row?_eq, heap] at hr
      exact ub i p r ⟨at_i, hr⟩
  · exact (fillToTable_rowless rl alter run).unbroken

/-- A parsed batch puts no line break into a row. -/
lemma Stored.batch {dat : Str} {source startStamp stamp : Nat} {ps : List RowPtr} {t1 : Table}
    (st : Stored hashCombine t) (ub : t.Unbroken) (parse : t.parseData dat source startStamp = .ok (ps, stamp, t1))
    (insert : t1.insertRows hashCombine ps = .ok t') : Stored hashCombine t' ∧ t'.Unbroken := by
  have pos : t.getPhyPosArray = .ok t.colDes := st.layout.mapM_mapping st.layout.lt
  rw [parseData_eq pos, bind_ok] at parse
  obtain ⟨datas, cells, e⟩ := parse
  cases e
  -- every line of the file became one fresh row
  have made : ∀ data ∈ datas, data.length = t.colPhy ∧ ¬ Broken data := by
    have lines := (List.forall₂_and_left _ _).mpr ⟨fun line mem => mem, mapM_eq_ok.mp cells⟩
    refine forall₂_right (P := fun data => data.length = t.colPhy ∧ ¬ Broken data) lines ?_
    rintro line data ⟨mem, run⟩
    exact parseEscaped_unbroken run (not_mem_of_mem_getlines mem)
  have rows : ∀ r ∈ rowsFrom source startStamp datas, r.data.length = t.colPhy ∧ ¬ Broken r.data := by
    intro r mem
    obtain ⟨j, lt, rfl⟩ := List.mem_mapIdx.mp mem
    exact made _ (List.getElem_mem lt)
  -- `insertRows` only returns on a table with one index
  have sound : ∃ u index, Sound hashCombine t u index := by
    rcases st with sound | ⟨rl, u, upd⟩
    · exact sound
    · rw [Table.insertRows] at insert
      split at insert
      · rename_i index one
        exact ⟨u, index, rl.sound one upd⟩
      · cases insert
  obtain ⟨u, index, so⟩ := sound
  obtain ⟨index', _, _, so', mg, _⟩ := (insertRows_sound so fun r mem => (rows r mem).1).of_ok insert
  refine ⟨.inl ⟨u, index', so'⟩, ?_⟩
  rintro i p r' ⟨at_i, hr'⟩
  obtain ⟨r, hr, e⟩ := mg.value p r' hr'
  have data : r'.data = r.data := congrArg Record.data e
  rw [data]
  rcases mg.mem p (List.mem_of_getElem? at_i) with old | new
  · obtain ⟨j, at_j⟩ := List.mem_iff_getElem?.mp old
    obtain ⟨r0, hr0, _⟩ := so.rows_lt old
    rw [rowAt_alloc_old hr0] at hr
    cases hr
    exact ub j p r ⟨at_j, hr0⟩
  · have fresh := (fresh_rows (t := t) fun r mem => (rows r mem).2).flip
    refine forall₂_right (P := fun p => ∀ r, rowAt _ p = some r → ¬ Broken r.data) fresh ?_ p new r hr
    rintro r0 p ⟨hr0, nb⟩ r hr
    rw [hr] at hr0
    cases hr0
    exact nb

/-- A table made from files can be written, and no live row has a line break. -/
lemma Loaded.stored (ld : Loaded hashCombine t) : Stored hashCombine t ∧ t.Unbroken := by
  induction ld with
  | create _ has run =>
    obtain ⟨rl, ca, _⟩ := fillCreate_rowless run
    obtain ⟨i, col, _, _, upd, _⟩ := ca.upd has
    exact ⟨.inr ⟨rl, _, upd⟩, rl.unbroken⟩
  | alter _ read alter run ih => exact ⟨ih.1.alter alter run, ih.1.alter_unbroken ih.2 read alter run⟩
  | batch _ parse insert ih => exact ih.1.batch ih.2 parse insert

/-- A loaded table can be written. -/
lemma Loaded.writable (ld : Loaded hashCombine t) : Writable t := ld.stored.1.writable

/-- A loaded table has no broken cell. -/
lemma Loaded.unbroken (ld : Loaded hashCombine t) : t.Unbroken := ld.stored.2

/-! ### The lines of the result -/

/-- A cell without line breaks is written without one. -/
lemma written_unbroken {c : ColPtr} {cell : Str} (nb : '\n' ∉ cell) : '\n' ∉ t.written c cell := by
  rw [Table.written]
  split
  · decide
  · rw [quotedToStream]
    intro mem
    rcases List.mem_append.mp mem with mem | mem
    · rcases List.mem_cons.mp mem with e | mem
      · exact absurd e (by decide)
      · obtain ⟨c, mem', out⟩ := List.mem_flatMap.mp mem
        split at out
        · exact absurd out (by decide)
        · rw [List.mem_singleton] at out
          rw [out] at nb
          exact nb mem'
    · exact absurd mem (by decide)

/-- A row without line breaks is written as one line. -/
lemma line_unbroken {data : List Str} (nb : ¬ Broken data) : '\n' ∉ t.line data := by
  have cell : ∀ c, '\n' ∉ data.getD c [] := by
    intro c mem
    rw [List.getD_eq_getElem?_getD] at mem
    cases at_c : data[c]? with
    | none =>
      rw [at_c] at mem
      cases mem
    | some s =>
      rw [at_c] at mem
      exact nb ⟨s, List.mem_of_getElem? at_c, mem⟩
  apply not_mem_intercalate (by decide)
  intro part mem
  obtain ⟨c, _, rfl⟩ := List.mem_map.mp mem
  exact written_unbroken (cell c)

/-- `result.csv` has one line for each row, in the order in which the rows were brought before. -/
theorem Loaded.dumped {rows : List (Option RowPtr)} (ld : Loaded hashCombine t) (perm : rows.Perm t.rows) :
    ∃ csv, Table.dumpToFile { t with rows } = .ok csv ∧
      getlines csv = ((slots rows t.rowHeap).filterMap id).map fun x => t.line x.data := by
  refine ⟨_, dumpToFile_eq (ld.writable.perm perm), ?_⟩
  have form : ((slots rows t.rowHeap).filterMap id).map (fun x => t.line x.data) =
      (slots rows t.rowHeap).filterMap (Option.map fun x => t.line x.data) := by
    rw [List.map_filterMap]
    rfl
  rw [form]
  apply getlines_unlines
  intro l mem
  obtain ⟨slot, old, e⟩ := List.mem_filterMap.mp mem
  obtain ⟨x, rfl, rfl⟩ := Option.map_eq_some_iff.mp e
  have mem' : x ∈ t.records := (perm.map (slotVal t.rowHeap)).mem_iff.mp old
  obtain ⟨i, p, r, live, rfl⟩ := mem_records mem'
  exact line_unbroken (ld.unbroken i p r live)

/-- Something holds of every line and its row if it holds of every row and the line made from it. -/
lemma Loaded.forall_lines {rows : List (Option RowPtr)} {P : Str → Record → Prop} (ld : Loaded hashCombine t)
    (perm : rows.Perm t.rows) : (∃ csv, Table.dumpToFile { t with rows } = .ok csv ∧
      List.Forall₂ P (getlines csv) ((slots rows t.rowHeap).filterMap id)) ↔
    ∀ x ∈ (slots rows t.rowHeap).filterMap id, P (t.line x.data) x := by
  obtain ⟨csv, dump, lines⟩ := ld.dumped perm
  constructor
  · rintro ⟨csv', dump', all⟩
    rw [dump] at dump'
    cases dump'
    rw [lines, List.forall₂_map_left_iff, List.forall₂_same] at all
    exact all
  · intro each
    refine ⟨csv, dump, ?_⟩
    rw [lines, List.forall₂_map_left_iff, List.forall₂_same]
    exact each

end

/-! ### A table of notes -/

/-- The files `0/0.ddl` and `0/0.dat`, read into a table. -/
def filesRun (ddl dat : Str) : Res Table :=
  match Statement.getStatement ddl with
  | .ok (.create _ cols indexs) => do
    let t ← Table.new.fillCreate Store.hashCombine cols indexs
    let (newRows, _, t) ← t.parseData dat 0 0
    t.insertRows Store.hashCombine newRows
  | _ => .error .ub

/-- A table `(note, updated_at)`, whose column `note` may have a default. -/
def notesDdl (defaultLines : String) : Str :=
  "CREATE\nt\n2\nnote\ntext\n0\n".toList ++ defaultLines.toList ++ "updated_at\ndatetime\n1\n0\n0\n".toList

/-- Is the statement a CREATE with `updated_at`? -/
def Statement.hasUpdatedAt : Statement → Bool
  | .create _ cols _ => cols.any fun col => decide (col.name = updatedAt)
  | _ => false

/-- The statement was a CREATE, and the rows of the other file were inserted. -/
lemma filesRun_inv {ddl dat : Str} {t : Table} (run : filesRun ddl dat = .ok t) :
    ∃ name cols indexs t1 ps stamp t2, Statement.getStatement ddl = .ok (.create name cols indexs) ∧
      Table.new.fillCreate Store.hashCombine cols indexs = .ok t1 ∧
      t1.parseData dat 0 0 = .ok (ps, stamp, t2) ∧ t2.insertRows Store.hashCombine ps = .ok t := by
  rw [filesRun] at run
  split at run
  · rename_i name cols indexs read
    simp only [bind_ok] at run
    obtain ⟨t1, create, ⟨ps, stamp, t2⟩, parse, insert⟩ := run
    exact ⟨name, cols, indexs, t1, ps, stamp, t2, read, create, parse, insert⟩
  · cases run

/-- What the run over a file pair returns is loaded, where the CREATE has `updated_at`. -/
lemma filesRun_loaded {ddl dat : Str} {t : Table} (run : filesRun ddl dat = .ok t)
    (has : (Statement.getStatement ddl).toOption.any Statement.hasUpdatedAt) : Loaded Store.hashCombine t := by
  obtain ⟨name, cols, indexs, t1, ps, stamp, t2, read, create, parse, insert⟩ := filesRun_inv run
  rw [read] at has
  obtain ⟨col, mem, upd⟩ := List.any_eq_true.mp has
  exact .batch (.create read ⟨col, mem, of_decide_eq_true upd⟩ create) parse insert

/-- The files of a table of notes, whose column `note` has this default, lead to a table with these rows. -/
def notesSeen (defaultLines : String) (default : Option Str) (dat : Str) (rows : List (Option Record)) : Bool :=
  (Statement.getStatement (notesDdl defaultLines)).toOption.any Statement.hasUpdatedAt &&
    (filesRun (notesDdl defaultLines) dat).toOption.any fun t =>
      decide (t.colDes = [0, 1]) && decide (t.colHeap.map ColumnDescriptor.defStr = [default, none]) &&
        decide (slots t.rows t.rowHeap = rows)

/-- The table of notes that was seen is loaded, with the rows seen. -/
lemma notesSeen_loaded {defaultLines : String} {default : Option Str} {dat : Str} {rows : List (Option Record)}
    (seen : notesSeen defaultLines default dat rows = true) :
    ∃ t, filesRun (notesDdl defaultLines) dat = .ok t ∧ Loaded Store.hashCombine t ∧ t.colDes = [0, 1] ∧
      t.colHeap.map ColumnDescriptor.defStr = [default, none] ∧ slots t.rows t.rowHeap = rows := by
  rw [notesSeen, Bool.and_eq_true] at seen
  obtain ⟨has, seen⟩ := seen
  obtain ⟨t, run, seen⟩ := ok_of_any seen
  simp only [Bool.and_eq_true, decide_eq_true_eq] at seen
  obtain ⟨⟨cols, defs⟩, rows⟩ := seen
  exact ⟨t, run, filesRun_loaded run has, cols, defs, rows⟩

end TdsqlMerge.Store
