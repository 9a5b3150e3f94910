import TdsqlMerge.Store.Fields
import TdsqlMerge.Store.Integrity
import TdsqlMerge.Store.Written

/-!
# Rows and columns over a history

The logical order of the columns and their physical slots drift apart while a table evolves. A `History`
runs a table through its statements and parsed batches and remembers, beside the table, what each row said
when it was parsed (`Origin`) and which default each column was added with. `Evolved` is the invariant:
every row in a slot still shows, in each column the table has now, the field it had there or, if the
column is younger than the row, its default. `history_evolved` carries it over a history, and
`history_layout` is the layout theorem in terms of `table.cpp`.
-/

namespace TdsqlMerge.Store
open Lib

/-- What a row said when it was parsed: the columns of the table, in logical order, and its fields. -/
structure Origin where
  cols : List ColPtr
  fields : List Str

/-- The default cell of the column a statement adds to `t`. -/
def Statement.defaults (defs : ColPtr → Str) (t : Table) : Statement → ColPtr → Str
  | .addCol col _ => Function.update defs t.colHeap.length (col.defaultStr.getD [])
  | _ => defs

/-- The origins after a batch with the fields `fss` was parsed on `t`. -/
def parsedOn (t : Table) (fss : List (List Str)) (origins : RowPtr → Origin) (p : RowPtr) : Origin :=
  if p < t.rowHeap.length then origins p
  else { cols := t.colDes, fields := fss.getD (p - t.rowHeap.length) [] }

section
variable (hashCombine : UInt64 → Str → UInt64)

/-- A table made by a CREATE, further statements and parsed batches, with the origins of its rows and the
    defaults of its columns. -/
inductive History : Table → (RowPtr → Origin) → (ColPtr → Str) → Prop where
  | create {cols indexs t} :
    Table.new.fillCreate hashCombine cols indexs = .ok t →
    (∃ col ∈ cols, col.name = updatedAt) →
    History t (fun _ => { cols := [], fields := [] }) fun c => ((cols[c]?).bind ColumnStatement.defaultStr).getD []
  | alter {t t' origins defs} {statement : Statement} :
    History t origins defs →
    statement.isAlter = true →
    statement.fillToTable hashCombine t = .ok t' →
    History t' origins (statement.defaults defs t)
  | batch {t t1 t' origins defs dat source startStamp fss ps stamp} :
    History t origins defs →
    List.Forall₂ (fun line fields => LineText line fields ∧ fields.length = t.colDes.length)
      (getlines dat) fss →
    (getlines dat ≠ [] → 2 ≤ t.colDes.length) →
    t.parseData dat source startStamp = .ok (ps, stamp, t1) →
    t1.insertRows hashCombine ps = .ok t' →
    History t' (parsedOn t fss origins) defs

variable {hashCombine} {t t' : Table} {origins : RowPtr → Origin} {defs : ColPtr → Str}

/-- The row data shows the origin in the columns `cols`, and defaults in those that the origin lacks. -/
structure Shows (o : Origin) (defs : ColPtr → Str) (cols : List ColPtr) (data : List Str) : Prop where
  field : ∀ c ∈ cols, ∀ k : Nat, o.cols[k]? = some c → ∃ f, o.fields[k]? = some f ∧ data[c]? = some f
  default : ∀ c ∈ cols, c ∉ o.cols → data[c]? = some (defs c)

/-- The invariant of a history. -/
structure Evolved (hashCombine : UInt64 → Str → UInt64) (t : Table) (origins : RowPtr → Origin)
    (defs : ColPtr → Str) : Prop where
  store : (∃ u index, Sound hashCombine t u index) ∨ (Rowless t ∧ ∃ u, t.updCol = some u)
  cols_lt : ∀ p, ∀ c ∈ (origins p).cols, c < t.colPhy
  shows : ∀ p r, some p ∈ t.rows → rowAt t.rowHeap p = some r →
    Shows (origins p) defs t.colDes r.data

/-- The table of a history has a layout. -/
lemma Evolved.layout (ev : Evolved hashCombine t origins defs) : Layout t := by
  rcases ev.store with ⟨u, index, so⟩ | ⟨rl, _⟩
  · exact so.layout
  · exact rl.layout

/-- Fewer columns show as well. -/
lemma Shows.mono {o : Origin} {cols cols' : List ColPtr} {data : List Str} (sh : Shows o defs cols data)
    (sub : ∀ c ∈ cols', c ∈ cols) : Shows o defs cols' data where
  field := fun c mem => sh.field c (sub c mem)
  default := fun c mem => sh.default c (sub c mem)

/-- Merging rows keeps what they show. -/
lemma Evolved.merged {u : ColPtr} {index : UniqueIndex} (ev : Evolved hashCombine t origins defs)
    (mg : Merged [] t t') (so : Sound hashCombine t' u index) (sub : ∀ c ∈ t'.colDes, c ∈ t.colDes)
    (phy : t'.colPhy = t.colPhy) : Evolved hashCombine t' origins defs where
  store := Or.inl ⟨u, index, so⟩
  cols_lt := by
    rw [phy]
    exact ev.cols_lt
  shows := by
    intro p r' mem hr'
    obtain ⟨r, hr, e⟩ := mg.value p r' hr'
    have data : r'.data = r.data := congrArg Record.data e
    rw [data]
    rcases mg.mem p mem with old | new
    · exact (ev.shows p r old hr).mono sub
    · cases new

/-- A new column shows its default in every row. -/
lemma Evolved.widened {w : Table} {u : ColPtr} {index : UniqueIndex} {col : ColumnStatement}
    {after : Option Str} (ev : Evolved hashCombine t origins defs) (ca : ColumnAdded col after t w)
    (wi : Widened (col.defaultStr.getD []) t w) (so : Sound hashCombine w u index)
    (slotted : Slotted t.colPhy t.rows t.rowHeap) :
    Evolved hashCombine w origins
      (Function.update defs t.colHeap.length (col.defaultStr.getD [])) where
  store := Or.inl ⟨u, index, so⟩
  cols_lt := by
    intro p c h
    rw [ca.colPhy]
    exact Nat.lt_succ_of_lt (ev.cols_lt p c h)
  shows := by
    intro p r' mem hr'
    rw [wi.rows] at mem
    rw [wi.row p, if_pos mem] at hr'
    obtain ⟨r, hr, rfl⟩ := Option.map_eq_some_iff.mp hr'
    obtain ⟨i, at_i⟩ := List.mem_iff_getElem?.mp mem
    obtain ⟨r1, hr1, _, wd⟩ := slotted i p at_i
    rw [hr] at hr1
    cases hr1
    have sh := ev.shows p r mem hr
    have heap := ev.layout.heap_length
    -- an old column keeps its cell, the new one is the last
    have old : ∀ c ∈ t.colDes, (r.data ++ [col.defaultStr.getD []])[c]? = r.data[c]? := by
      intro c h
      rw [List.getElem?_append_left]
      rw [wd]
      exact ev.layout.lt c h
    have new : (r.data ++ [col.defaultStr.getD []])[t.colHeap.length]? =
        some (col.defaultStr.getD []) := by
      rw [heap, ← wd, List.getElem?_concat_length]
    have split : ∀ c ∈ w.colDes, c = t.colHeap.length ∨ c ∈ t.colDes ∧ c ≠ t.colHeap.length := by
      intro c h
      rcases List.mem_cons.mp (ca.colDes.perm.mem_iff.mp h) with e | h
      · exact Or.inl e
      · refine Or.inr ⟨h, ?_⟩
        rintro rfl
        have := ev.layout.lt _ h
        rw [heap] at this
        exact lt_irrefl _ this
    constructor
    · intro c h k at_k
      rcases split c h with rfl | ⟨h, _⟩
      · have := ev.cols_lt p _ (List.mem_of_getElem? at_k)
        rw [heap] at this
        exact absurd this (lt_irrefl _)
      · rw [Row.grow, old c h]
        exact sh.field c h k at_k
    · intro c h out
      rcases split c h with rfl | ⟨h, ne⟩
      · rw [Function.update_self]
        exact new
      · rw [Function.update_of_ne ne, Row.grow, old c h]
        exact sh.default c h out

/-- An ALTER statement keeps the invariant of a history. -/
lemma Evolved.alter {statement : Statement} (ev : Evolved hashCombine t origins defs)
    (alter : statement.isAlter = true) (run : statement.fillToTable hashCombine t = .ok t') :
    Evolved hashCombine t' origins (statement.defaults defs t) := by
  rcases ev.store with ⟨u, index, so⟩ | ⟨rl, u, upd⟩
  · cases statement with
    | create name cols indexs => cases alter
    | addCol colStat insAfter =>
      obtain ⟨w, index', ca, wi, sw, so', sc, mg, _⟩ := addColumnOf_sound so run
      apply (ev.widened ca wi sw so.well.slotted).merged mg so' <;> rw [sc]
      exact fun _ h => h
    | nothing =>
      cases run
      exact ev
    | dropCol colName =>
      obtain ⟨c, index', find, so', mg, _⟩ := dropColumn_sound so run
      obtain ⟨c', _, e⟩ := (dropColumn_cols run).colDes
      apply ev.merged mg so' _ (dropColumn_cols run).colPhy
      intro x mem
      rw [e] at mem
      exact List.mem_of_mem_erase mem
    | dropIndex isPrimary indexName =>
      obtain ⟨index', so', mg, _⟩ := dropUniqueIndex_sound so run
      have sc := dropUniqueIndex_cols run
      apply ev.merged mg so' <;> rw [sc]
      exact fun _ h => h
    | addIndex isPrimary indexName cols =>
      obtain ⟨index', so', mg⟩ := addUniqueIndex_sound so run
      have sc := addUniqueIndex_cols run
      apply ev.merged mg so' <;> rw [sc]
      exact fun _ h => h
    | changeCol colStat prevName =>
      obtain ⟨so', rows, heap⟩ := changeCol_sound so run
      have cc := changeCol_cols run
      refine ⟨Or.inl ⟨u, index, so'⟩, ?_, ?_⟩
      · rw [cc.colPhy]
        exact ev.cols_lt
      · rw [rows, heap, cc.colDes]
        exact ev.shows
  -- without rows there is nothing to show
  · have rl' := fillToTable_rowless rl alter run
    refine ⟨Or.inr ⟨rl', fillToTable_upd upd alter run⟩, ?_, ?_⟩
    · intro p c mem
      exact (ev.cols_lt p c mem).trans_le (fillToTable_colPhy alter run)
    · intro p r mem
      rw [rl'.rows] at mem
      cases mem

/-- A freshly parsed row shows its fields. -/
lemma rowOf_shows {source stamp : Nat} {fields : List Str} (la : Layout t)
    (len : fields.length = t.colDes.length) :
    Shows { cols := t.colDes, fields } defs t.colDes
      (rowOf t.colDes t.colPhy source stamp fields).data where
  field := by
    intro c mem k at_k
    have lt : k < fields.length := by
      rw [len]
      exact (List.getElem?_eq_some_iff.mp at_k).1
    refine ⟨fields[k], List.getElem?_eq_getElem lt, ?_⟩
    exact fillCells_at la.nodup (by simpa using la.lt) at_k (List.getElem?_eq_getElem lt)
  default := fun c mem out => absurd mem out

/-- A parsed batch keeps the invariant of a history. -/
lemma Evolved.batch {dat : Str} {source startStamp stamp : Nat} {fss : List (List Str)}
    {ps : List RowPtr} {t1 : Table} (ev : Evolved hashCombine t origins defs)
    (lines : List.Forall₂ (fun line fields => LineText line fields ∧ fields.length = t.colDes.length)
      (getlines dat) fss)
    (two : getlines dat ≠ [] → 2 ≤ t.colDes.length)
    (parse : t.parseData dat source startStamp = .ok (ps, stamp, t1))
    (insert : t1.insertRows hashCombine ps = .ok t') :
    Evolved hashCombine t' (parsedOn t fss origins) defs := by
  have la := ev.layout
  rw [parseData_spec la two lines] at parse
  cases parse
  have len : ∀ fields ∈ fss, fields.length = t.colDes.length :=
    forall₂_right lines fun _ _ h => h.2
  -- a batch is only accepted by a table with one index
  have one : ∃ u index, Sound hashCombine t u index := by
    rcases ev.store with h | ⟨rl, u, upd⟩
    · exact h
    · rw [Table.insertRows] at insert
      split at insert
      · rename_i index e
        exact ⟨u, index, rl.sound e upd⟩
      · cases insert
  obtain ⟨u, index, so⟩ := one
  obtain ⟨index', _, sc, so', mg, _⟩ := (insertRows_sound so rowsOf_wide).of_ok insert
  -- the old rows keep their origin, a new one has the line it was parsed from
  have origin_old : ∀ p, some p ∈ t.rows → parsedOn t fss origins p = origins p := by
    intro p mem
    obtain ⟨r, hr, _⟩ := so.rows_lt mem
    rw [parsedOn, if_pos (rowAt_lt hr)]
  have parsed : ∀ p, some p ∈ t'.rows → some p ∈ t.rows ∨
      ∃ j fields, fss[j]? = some fields ∧ p = t.rowHeap.length + j ∧
        parsedOn t fss origins p = { cols := t.colDes, fields } := by
    intro p mem
    rcases mg.mem p mem with old | new
    · exact Or.inl old
    · rw [Table.fresh, List.mem_range'_1, rowsOf, List.length_mapIdx] at new
      obtain ⟨j, rfl⟩ := Nat.exists_eq_add_of_le new.1
      have lt : j < fss.length := Nat.lt_of_add_lt_add_left new.2
      refine Or.inr ⟨j, fss[j], List.getElem?_eq_getElem lt, rfl, ?_⟩
      rw [parsedOn, if_neg (not_lt.mpr new.1), Nat.add_sub_cancel_left, List.getD_eq_getElem _ _ lt]
  have cols : t'.colDes = t.colDes := by rw [sc]
  refine ⟨Or.inl ⟨u, index', so'⟩, ?_, ?_⟩
  · intro p c mem
    have phy : t'.colPhy = t.colPhy := by rw [sc]
    rw [phy]
    rw [parsedOn] at mem
    split at mem
    · exact ev.cols_lt p c mem
    · exact la.lt c mem
  · intro p r' mem hr'
    obtain ⟨r, hr, same⟩ := mg.value p r' hr'
    have data : r'.data = r.data := congrArg Record.data same
    rw [data, cols]
    rcases parsed p mem with old | ⟨j, fields, at_j, rfl, e⟩
    · obtain ⟨r0, hr0, _⟩ := so.rows_lt old
      rw [rowAt_alloc_old hr0] at hr
      cases hr
      rw [origin_old p old]
      exact ev.shows p r old hr0
    · rw [rowAt_alloc_new (r := rowOf t.colDes t.colPhy source (startStamp + j) fields)
        (by simp [rowsOf, at_j])] at hr
      cases hr
      rw [e]
      exact rowOf_shows la (len fields (List.mem_of_getElem? at_j))

/-- The invariant holds over every history. -/
lemma history_evolved (hi : History hashCombine t origins defs) :
    Evolved hashCombine t origins defs := by
  induction hi with
  | create run has =>
    obtain ⟨rl, ca, _⟩ := fillCreate_rowless run
    obtain ⟨i, col, _, _, upd, _⟩ := ca.upd has
    refine ⟨Or.inr ⟨rl, _, upd⟩, ?_, ?_⟩
    · intro p c mem
      cases mem
    · intro p r mem
      rw [rl.rows] at mem
      cases mem
  | alter _ alter run ih => exact ih.alter alter run
  | batch _ lines two parse insert ih => exact ih.batch lines two parse insert

/-- Every index of an evolved table reads rows of full width within their range. -/
lemma Evolved.ranged {index : UniqueIndex} (ev : Evolved hashCombine t origins defs)
    (mem : index ∈ t.indexs) : Ranged index t.colPhy := by
  rcases ev.store with ⟨u, ix, so⟩ | ⟨rl, _⟩
  · rw [so.indexs, List.mem_singleton] at mem
    rw [mem]
    exact so.well.filing.ranged
  · refine ⟨by rw [rl.phy index mem], ?_⟩
    rw [rl.phy index mem]
    exact rl.cols_lt index mem

/-- The rows of a history are in their slots. -/
lemma Evolved.slotted (ev : Evolved hashCombine t origins defs) :
    Slotted t.colPhy t.rows t.rowHeap := by
  rcases ev.store with ⟨u, ix, so⟩ | ⟨rl, _⟩
  · exact so.well.slotted
  · intro i p at_i
    rw [rl.rows] at at_i
    cases at_i

/-- `checkRow` on an evolved table returns for every allocated row of full width. -/
lemma Evolved.checkRow {index : UniqueIndex} {p : RowPtr} {r : Row}
    (ev : Evolved hashCombine t origins defs) (mem : index ∈ t.indexs) (hp : t.row? p = some r)
    (wd : r.data.length = t.colPhy) : ∃ res, index.checkRow hashCombine t p = .ok res := by
  rcases ev.store with ⟨u, ix, so⟩ | ⟨rl, _⟩
  · rw [so.indexs, List.mem_singleton] at mem
    subst mem
    rcases checkRow_spec so.well.filing.ranged (so.upd.updAt so.layout) so.well.slotted so.well.filed
      hp wd with ⟨_, run⟩ | ⟨j, q, o, _, _, _, _, run⟩
    · exact ⟨_, run⟩
    · rw [run]
      split
      · exact ⟨_, rfl⟩
      · exact ⟨_, rfl⟩
  · have run : index.checkRow hashCombine t p = .ok (0, index, t) := by
      simp only [UniqueIndex.checkRow, Table.row, hp, deref_some, ok_bind,
        getHashOfRow_eq (ev.ranged mem) wd, rl.hash index mem]
    exact ⟨_, run⟩

/-- `reCompute` on an evolved table returns for every index over allocated columns. -/
lemma Evolved.reCompute {index : UniqueIndex} (ev : Evolved hashCombine t origins defs)
    (rg : Ranged index t.colPhy) : ∃ s, index.reCompute hashCombine t = .ok s := by
  rcases ev.store with ⟨u, ix, so⟩ | ⟨rl, _⟩
  · obtain ⟨s, run, _⟩ := reCompute_spec rg (so.upd.updAt so.layout) so.well.slotted
    exact ⟨s, run⟩
  · rw [UniqueIndex.reCompute, rl.rows]
    exact ⟨_, rfl⟩

variable (hashCombine) in
/-- The physical layout of a table with a history, in terms of `table.cpp`. -/
structure Laid (t : Table) (origins : RowPtr → Origin) (defs : ColPtr → Str) : Prop where
  width : ∀ i p r, t.Live i p r → r.data.length = t.colPhy
  mappings : ∃ phyPos, t.getPhyPosArray = .ok phyPos ∧ phyPos.Nodup ∧ ∀ phy ∈ phyPos, phy < t.colPhy
  getHashOfRow : ∀ index ∈ t.indexs, ∀ r : Row, r.data.length = t.colPhy →
    ∃ h, index.getHashOfRow hashCombine r = .ok h
  checkRow : ∀ index ∈ t.indexs, ∀ p r, t.row? p = some r → r.data.length = t.colPhy →
    ∃ res, index.checkRow hashCombine t p = .ok res
  reCompute : ∀ index : UniqueIndex, index.hashPhy.length = index.cols.length →
    (∀ phy ∈ index.hashPhy, phy < t.colPhy) → ∃ s, index.reCompute hashCombine t = .ok s
  dumpToFile : ∃ text, t.dumpToFile = .ok text
  field : ∀ (i : Nat) (p : RowPtr) (r : Row) (c : ColPtr) (d : ColumnDescriptor) (k : Nat),
    t.Live i p r → c ∈ t.colDes → t.colHeap[c]? = some d → (origins p).cols[k]? = some c →
    ∃ f, (origins p).fields[k]? = some f ∧ r.data[d.mapping]? = some f
  default : ∀ (i : Nat) (p : RowPtr) (r : Row) (c : ColPtr) (d : ColumnDescriptor),
    t.Live i p r → c ∈ t.colDes → t.colHeap[c]? = some d → c ∉ (origins p).cols →
    r.data[d.mapping]? = some (defs c)
  added : ∀ col after t', t.addColumnOf hashCombine col after = .ok t' →
    ∃ c d, c ∈ t'.colDes ∧ c ∉ t.colDes ∧ t'.colHeap[c]? = some d ∧ d.name = col.name ∧
      ∀ i p r, t'.Live i p r → r.data[d.mapping]? = some (col.defaultStr.getD [])

/-- In an evolved table every live row shows its origin and the defaults, at the mappings. -/
lemma Evolved.cell {i : Nat} {p : RowPtr} {r : Row} {c : ColPtr} {d : ColumnDescriptor}
    (ev : Evolved hashCombine t origins defs) (live : t.Live i p r) (hd : t.colHeap[c]? = some d) :
    Shows (origins p) defs t.colDes r.data ∧ d.mapping = c :=
  ⟨ev.shows p r (List.mem_of_getElem? live.1) live.2, ev.layout.mapping c d hd⟩

/-- Over every history rows have the full width, the mappings are distinct and in range, and every live row
    shows in every column the field its line had there, or the default of a column that was added
    later. -/
theorem history_layout (hi : History hashCombine t origins defs) :
    Laid hashCombine t origins defs := by
  have ev := history_evolved hi
  have la := ev.layout
  have dump := dumpToFile_eq (.of_slotted la ev.slotted)
  refine ⟨?_, ⟨t.colDes, la.mapM_mapping la.lt, la.nodup, la.lt⟩, ?_, ?_, ?_, ⟨_, dump⟩, ?_, ?_, ?_⟩
  · intro i p r live
    obtain ⟨r', hr', _, wd⟩ := ev.slotted i p live.1
    have same : r' = r := Option.some.inj (hr'.symm.trans live.2)
    rw [← same, wd]
  · intro index mem r wd
    exact ⟨_, getHashOfRow_eq (ev.ranged mem) wd⟩
  · intro index mem p r hp wd
    exact ev.checkRow mem hp wd
  · intro index len lt
    exact ev.reCompute ⟨len, lt⟩
  · intro i p r c d k live mem hd at_k
    obtain ⟨sh, e⟩ := ev.cell live hd
    rw [e]
    exact sh.field c mem k at_k
  · intro i p r c d live mem hd out
    obtain ⟨sh, e⟩ := ev.cell live hd
    rw [e]
    exact sh.default c mem out
  · intro col after t' run
    have ca := addColumnOf_cols run
    have ev' := @Evolved.alter _ _ _ _ _ (.addCol col after) ev rfl run
    -- the new column is none of the old ones, so no line had a field for it
    have fresh : t.colHeap.length ∉ t.colDes := by
      intro mem
      have lt := la.lt _ mem
      rw [la.heap_length] at lt
      exact lt_irrefl _ lt
    have here : t.colHeap.length ∈ t'.colDes := ca.colDes.perm.mem_iff.mpr List.mem_cons_self
    have hd : t'.colHeap[t.colHeap.length]? = some (col.descriptor t.colPhy) := by
      rw [ca.colHeap, List.getElem?_concat_length]
    refine ⟨t.colHeap.length, _, here, fresh, hd, rfl, ?_⟩
    intro i p r live
    obtain ⟨sh, e⟩ := ev'.cell live hd
    have out : t.colHeap.length ∉ (origins p).cols := by
      intro mem
      have lt := ev.cols_lt p _ mem
      rw [la.heap_length] at lt
      exact lt_irrefl _ lt
    rw [e, sh.default _ here out]
    simp [Statement.defaults]

/-- A table `(id, updated_at)` with a parsed row, to which a column is added in the middle. -/
def layoutRun : Res Table := do
  let t ← Table.new.fillCreate Store.hashCombine
    [{ name := "id".toList, type := "int".toList, isNotNull := true, defaultStr := none },
      { name := updatedAt, type := "datetime".toList, isNotNull := true, defaultStr := none }]
    [{ name := [], isPrimaryKey := true, keys := ["id".toList] }]
  let (rows, _, t) ← t.parseData "\"1\",\"5\"".toList 0 0
  let t ← t.insertRows Store.hashCombine rows
  Statement.fillToTable Store.hashCombine t (.addCol
    { name := "x".toList, type := "int".toList, isNotNull := true, defaultStr := some "0".toList }
    (some "id".toList))

/-- The history of the layout run is laid out. -/
theorem layoutRun_laid :
    ∃ t origins defs, layoutRun = .ok t ∧ Laid Store.hashCombine t origins defs := by
  obtain ⟨t, run⟩ := ok_of_isOk (show layoutRun.isOk = true by decide +kernel)
  have steps := run
  simp only [layoutRun, bind_ok] at steps
  obtain ⟨t1, create, ⟨rows, stamp, t2⟩, parse, t3, insert, add⟩ := steps
  have cols : t1.colDes = [0, 1] := (fillCreate_rowless create).2.1.colDes
  have line : LineText "\"1\",\"5\"".toList ["1".toList, "5".toList] :=
    ⟨_, rfl, .cons (@FieldText.self "1".toList (by decide))
      (.last (@FieldText.self "5".toList (by decide)))⟩
  have lines : List.Forall₂ (fun line fields => LineText line fields ∧ fields.length = t1.colDes.length)
      (getlines "\"1\",\"5\"".toList) [["1".toList, "5".toList]] := by
    rw [cols]
    exact .cons ⟨line, rfl⟩ .nil
  have created := History.create create ⟨_, .tail _ (.head _), rfl⟩
  have batch := created.batch lines (by rw [cols]; decide) parse insert
  exact ⟨t, _, _, run, history_layout (.alter batch rfl add)⟩

end

end TdsqlMerge.Store
