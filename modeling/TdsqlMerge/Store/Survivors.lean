import TdsqlMerge.Store.Fields
import TdsqlMerge.Store.Hash
import TdsqlMerge.Store.SubWorker

/-!
# Which rows survive a replay

A row matters to the merge only through its `Version`: the cells of the key columns, the `updated_at`
cell, its source and its stamp. Over a run of `SubWorker::work` on a table with one key, the versions of
the live rows represent the versions of all parsed rows (`Kept`): `trace_kept` shows that the admissible
statements change no version, `mergeSource_kept` that a parsed file adds its versions. The main theorem
is `work_newest`.
-/

namespace TdsqlMerge.Store
open Lib

/-! ### Versions -/

/-- A row as the merge sees it. -/
structure Version where
  key : List Str
  upd : Str
  source : Nat
  stamp : Nat
deriving DecidableEq

/-- Larger `updated_at`, then the lower source, then the larger stamp. -/
def Version.rank (x : Version) : Str ×ₗ ℕᵒᵈ ×ₗ ℕ :=
  toLex (x.upd, toLex (OrderDual.toDual x.source, x.stamp))

/-- Versions are determined by key and rank. -/
lemma Version.ext_rank {x y : Version} (key : x.key = y.key) (rank : x.rank = y.rank) : x = y := by
  have lex := toLex_inj.mp rank
  rw [Prod.mk.injEq, toLex_inj, Prod.mk.injEq] at lex
  obtain ⟨upd, source, stamp⟩ := lex
  cases x
  cases y
  simp_all

/-- The hash under which a version is filed. -/
def Version.hash (hashCombine : UInt64 → Str → UInt64) (x : Version) : UInt64 :=
  x.key.foldl hashCombine 2022

/-- The version of a record whose key is the physical columns `K`, with `updated_at` in column `u`. -/
def Record.version (K : List ColPtr) (u : ColPtr) (x : Record) : Version :=
  { key := keyCells K x.data, upd := x.data.getD u [], source := x.source, stamp := x.stamp }

/-- The versions in the slots of a table. -/
def versions (K : List ColPtr) (u : ColPtr) (t : Table) : List (Option Version) :=
  (slots t.rows t.rowHeap).map (Option.map (Record.version K u))

/-- The cell of a row in a column. -/
def Table.cell (t : Table) (r : Row) (c : ColPtr) : Str :=
  ((t.colHeap[c]?).bind fun d => r.data[d.mapping]?).getD []

/-- The version of a row of a table. -/
def Table.version (t : Table) (K : List ColPtr) (u : ColPtr) (r : Row) : Version :=
  { key := K.map (t.cell r), upd := t.cell r u, source := r.source, stamp := r.stamp }

section
variable {t : Table} {K : List ColPtr} {u : ColPtr}

/-- A column of the layout reads its own cell. -/
lemma Layout.cell_eq {r : Row} {c : ColPtr} (la : Layout t) (lt : c < t.colPhy) :
    t.cell r c = r.data.getD c [] := by
  obtain ⟨d, hd, hm⟩ := la.col lt
  rw [Table.cell, hd, Option.bind_some, hm, List.getD_eq_getElem?_getD]

/-- The version of a row is that of its record. -/
lemma Layout.version_eq {r : Row} (la : Layout t) (K_lt : ∀ c ∈ K, c < t.colPhy)
    (u_lt : u < t.colPhy) : t.version K u r = r.record.version K u := by
  rw [Table.version, Record.version, la.cell_eq u_lt, keyCells]
  congr 1
  apply List.map_congr_left
  intro c mem
  exact la.cell_eq (K_lt c mem)

/-- A cell appended at the end changes no version. -/
lemma version_grow {x : Record} {cell : Str} (K_lt : ∀ c ∈ K, c < x.data.length)
    (u_lt : u < x.data.length) : (x.grow cell).version K u = x.version K u := by
  rw [Record.version, Record.grow, Record.version, keyCells_append K_lt,
    List.getD_append _ _ _ _ u_lt]

/-- The rows in the slots are the live rows. -/
lemma mem_versions {x : Version} (la : Layout t) (K_lt : ∀ c ∈ K, c < t.colPhy)
    (u_lt : u < t.colPhy) {i : Nat} :
    (versions K u t)[i]? = some (some x) ↔
      ∃ p r, t.Live i p r ∧ t.version K u r = x := by
  rw [versions, List.getElem?_map, Option.map_eq_some_iff]
  constructor
  · rintro ⟨slot, at_i, e⟩
    obtain ⟨y, rfl, e⟩ := Option.map_eq_some_iff.mp e
    obtain ⟨p, r, row_i, hr, rfl⟩ := slots_eq_some at_i
    exact ⟨p, r, ⟨row_i, hr⟩, (la.version_eq K_lt u_lt).trans (Option.some.inj e)⟩
  · rintro ⟨p, r, live, e⟩
    refine ⟨some r.record, ?_, ?_⟩
    · rw [slots_getElem?, live.1, Option.map_some, slotVal_some live.2]
    · rw [← e, la.version_eq K_lt u_lt]
      rfl

end

/-! ### What a run parses -/

/-- The version of a line with these fields, in a table with the columns `cols`. -/
def versionOf (cols K : List ColPtr) (u : ColPtr) (source stamp : Nat) (fields : List Str) : Version :=
  { key := K.map fun c => fields.getD (cols.idxOf c) []
    upd := fields.getD (cols.idxOf u) []
    source, stamp }

/-- The stamp of the first line of a state: the lines of the source in the states before. -/
def stampBefore (fss : Nat → Nat → List (List Str)) (source state : Nat) : Nat :=
  ((List.range state).map fun k => (fss source k).length).sum

/-- The stamps given before the next state. -/
lemma stampBefore_succ {fss : Nat → Nat → List (List Str)} {source state : Nat} :
    stampBefore fss source (state + 1) = stampBefore fss source state + (fss source state).length := by
  simp [stampBefore, List.range_succ]

section
variable (hashCombine : UInt64 → Str → UInt64)

/-- The table in a state of the replay, after the statement of the state. -/
def WorkDescriptor.tableAt (wd : WorkDescriptor) (state : Nat) : Res Table := do
  let s ← wd.statesTo hashCombine state
  wd.traceAt hashCombine s state

/-- The lines of every file, read in the state of the file, have the fields `fss`, one for each column. -/
def WorkDescriptor.HasFields (wd : WorkDescriptor) (fss : Nat → Nat → List (List Str)) : Prop :=
  ∀ state < wd.stateCount, ∀ t, wd.tableAt hashCombine state = .ok t → ∀ source < 2,
    List.Forall₂ (fun line fields => LineText line fields ∧ fields.length = t.colDes.length)
      (getlines (wd.dat source state)) (fss source state)

/-- `x` is the version of a row parsed in one of the first `n` states. -/
def WorkDescriptor.Parsed (wd : WorkDescriptor) (fss : Nat → Nat → List (List Str)) (K : List ColPtr)
    (u : ColPtr) (n : Nat) (x : Version) : Prop :=
  ∃ state < n, ∃ t, wd.tableAt hashCombine state = .ok t ∧ ∃ source < 2, ∃ (j : Nat) (fields : List Str),
    (fss source state)[j]? = some fields ∧
    x = versionOf t.colDes K u source (stampBefore fss source state + j) fields

/-- The statement of state `0` is a CREATE whose only key is the columns `K`, not empty and without
    `updated_at`, which is column `u`. -/
def WorkDescriptor.CreatesKeyed (wd : WorkDescriptor) (K : List ColPtr) (u : ColPtr) : Prop :=
  ∃ name cols key, Statement.getStatement (wd.ddl 0) = .ok (.create name cols [key]) ∧
    List.Forall₂ (fun (s : Str) (c : ColPtr) =>
      cols.findIdx? (fun col => decide (col.name = s)) = some c) key.keys K ∧
    K ≠ [] ∧ u ∉ K ∧
    (∃ col, cols[u]? = some col ∧ col.name = updatedAt) ∧
    ∀ (j : Nat) (col : ColumnStatement), cols[j]? = some col → col.name = updatedAt → j ≤ u

/-- The statements that may follow: NOTHING, a repeated CREATE, ADDCOL with a name no column has,
    CHANGECOL, and DROPCOL of a column that is neither in the key nor `updated_at`. -/
def Statement.KeepsKey (t : Table) (K : List ColPtr) (u : ColPtr) : Statement → Prop
  | .create .. | .nothing | .changeCol .. => True
  | .addCol col _ => ∀ c ∈ t.colDes, t.hasName col.name c = false
  | .dropCol name => ∀ c, t.colDes.find? (t.hasName name) = some c → c ∉ K ∧ c ≠ u
  | .dropIndex .. | .addIndex .. => False

/-- The statement adds no column named `updated_at`. -/
def Statement.KeepsUpd : Statement → Prop
  | .addCol col _ => col.name ≠ updatedAt
  | _ => True

/-- Every later statement is one of these. -/
def WorkDescriptor.Keeps (wd : WorkDescriptor) (K : List ColPtr) (u : ColPtr) : Prop :=
  ∀ state, 0 < state → state < wd.stateCount → ∀ s t statement,
    wd.statesTo hashCombine state = .ok s → s.table = some t →
    Statement.getStatement (wd.ddl state) = .ok statement → statement.KeepsKey t K u

/-- The statements add no column named `updated_at`. -/
def WorkDescriptor.KeepsUpd (wd : WorkDescriptor) : Prop :=
  ∀ state < wd.stateCount, ∀ statement,
    Statement.getStatement (wd.ddl state) = .ok statement → statement.KeepsUpd

/-- The replay of a table with the single key `K` gets through all its states and ends with the table `t`.
    The key hash separates the key tuples that occur. -/
structure WorkDescriptor.KeyedRun (wd : WorkDescriptor) (fss : Nat → Nat → List (List Str))
    (K : List ColPtr) (u : ColPtr) (t : Table) : Prop where
  creates : wd.CreatesKeyed K u
  keeps : wd.Keeps hashCombine K u
  fields : wd.HasFields hashCombine fss
  separates : ∀ x y, wd.Parsed hashCombine fss K u wd.stateCount x →
    wd.Parsed hashCombine fss K u wd.stateCount y → x.hash hashCombine = y.hash hashCombine →
    x.key = y.key
  run : wd.work hashCombine = .ok t

/-- The versions of the live rows. -/
def Table.Survivor (t : Table) (K : List ColPtr) (u : ColPtr) (x : Version) : Prop :=
  ∃ i p r, t.Live i p r ∧ t.version K u r = x

/-- The live rows of `t` are the newest of the parsed rows, one for each key tuple. -/
structure WorkDescriptor.KeepsNewest (wd : WorkDescriptor) (fss : Nat → Nat → List (List Str))
    (K : List ColPtr) (u : ColPtr) (t : Table) : Prop where
  one : ∀ x, wd.Parsed hashCombine fss K u wd.stateCount x →
    ∃! i : Nat, ∃ p r, t.Live i p r ∧ (t.version K u r).key = x.key
  newest : ∀ x, t.Survivor K u x ↔
    IsNewest Version.key Version.rank {y | wd.Parsed hashCombine fss K u wd.stateCount y} x

/-! ### One step of the replay -/

/-- The versions of the live rows represent the set `S`, under an index over `K`. -/
structure Kept (t : Table) (K : List ColPtr) (u : ColPtr) (S : Set Version) : Prop where
  store : ∃ index, Sound hashCombine t u index ∧ index.isTemp = false ∧ index.cols = K
  key_mem : ∀ c ∈ K, c ∈ t.colDes
  upd_mem : u ∈ t.colDes
  rep : Represents (Version.hash hashCombine) Version.rank S (versions K u t)

variable {hashCombine} {wd : WorkDescriptor} {fss : Nat → Nat → List (List Str)} {K : List ColPtr}
  {u : ColPtr} {t t' : Table} {S : Set Version}

/-- A table that keeps versions has a layout. -/
lemma Kept.layout (ke : Kept hashCombine t K u S) : Layout t := by
  obtain ⟨index, so, _⟩ := ke.store
  exact so.layout

/-- The key columns are physical columns. -/
lemma Kept.key_lt (ke : Kept hashCombine t K u S) : ∀ c ∈ K, c < t.colPhy :=
  fun c mem => ke.layout.lt c (ke.key_mem c mem)

/-- `updated_at` is a physical column. -/
lemma Kept.upd_lt (ke : Kept hashCombine t K u S) : u < t.colPhy :=
  ke.layout.lt u ke.upd_mem

/-- ADDCOL changes no version. -/
lemma Widened.versions {cell : Str} {w : Table} (wi : Widened cell t w)
    (sl : Slotted t.colPhy t.rows t.rowHeap) (K_lt : ∀ c ∈ K, c < t.colPhy) (u_lt : u < t.colPhy) :
    versions K u w = versions K u t := by
  rw [Store.versions, Store.versions, wi.slots, List.map_map]
  apply List.map_congr_left
  intro slot mem
  cases slot with
  | none => rfl
  | some x =>
    obtain ⟨i, at_i⟩ := List.mem_iff_getElem?.mp mem
    obtain ⟨p, r, row_i, hr, rfl⟩ := slots_eq_some at_i
    obtain ⟨r', hr', _, wd⟩ := sl i p row_i
    rw [hr] at hr'
    cases hr'
    have grow := @version_grow K u r.record cell
      (by rw [Row.record_data, wd]; exact K_lt) (by rw [Row.record_data, wd]; exact u_lt)
    simp only [Function.comp_apply, Option.map_some, grow]

/-- The admissible statements keep every version. -/
lemma trace_kept {state : Nat} {statement : Statement} (ke : Kept hashCombine t K u S) (ne : K ≠ [])
    (later : 0 < state) (keeps : statement.KeepsKey t K u) (upd : statement.KeepsUpd)
    (run : Trace hashCombine (some t) state statement = .ok t') : Kept hashCombine t' K u S := by
  obtain ⟨index, so, perm, cols⟩ := ke.store
  cases statement with
  | create name cs indexs =>
    rw [Trace, if_pos (by omega)] at run
    cases run
    exact ke
  | nothing =>
    cases run
    exact ke
  | addCol col after =>
    have add : t.addColumnOf hashCombine col after = .ok t' := run
    obtain ⟨w, index', ca, wi, _, so', _, _, kept⟩ := addColumnOf_sound so add
    obtain ⟨rfl, rfl⟩ := kept perm
    have same : updAfter t u col = u := if_neg upd
    rw [same] at so'
    refine ⟨⟨index', so', perm, cols⟩, ?_, ?_, ?_⟩
    · intro c mem
      exact ca.colDes.perm.mem_iff.mpr (List.mem_cons_of_mem _ (ke.key_mem c mem))
    · exact ca.colDes.perm.mem_iff.mpr (List.mem_cons_of_mem _ ke.upd_mem)
    · rw [wi.versions so.well.slotted ke.key_lt ke.upd_lt]
      exact ke.rep
  | dropCol name =>
    have drop : t.dropColumn hashCombine name = .ok t' := run
    obtain ⟨c, index', find, so', _, kept⟩ := dropColumn_sound so drop
    obtain ⟨c', find', colDes⟩ := (dropColumn_cols drop).colDes
    rw [find] at find'
    cases find'
    obtain ⟨notin, ne_u⟩ := keeps c find
    obtain ⟨rfl, rows, heap⟩ := kept (by rwa [cols]) (by rwa [cols])
    refine ⟨⟨index', so', perm, cols⟩, ?_, ?_, ?_⟩
    · intro x mem
      rw [colDes]
      refine (List.mem_erase_of_ne ?_).mpr (ke.key_mem x mem)
      rintro rfl
      exact notin mem
    · rw [colDes]
      exact (List.mem_erase_of_ne (Ne.symm ne_u)).mpr ke.upd_mem
    · rw [versions, rows, heap]
      exact ke.rep
  | changeCol col prevName =>
    have change : t.changeCol col prevName = .ok t' := run
    obtain ⟨so', rows, heap⟩ := changeCol_sound so change
    have colDes := (changeCol_cols change).colDes
    refine ⟨⟨index, so', perm, cols⟩, by rw [colDes]; exact ke.key_mem,
      by rw [colDes]; exact ke.upd_mem, ?_⟩
    rw [versions, rows, heap]
    exact ke.rep
  | dropIndex isPrimary indexName => exact keeps.elim
  | addIndex isPrimary indexName cs => exact keeps.elim

/-- The versions of the rows of a file. -/
lemma rowsOf_versions {source startStamp : Nat} {fs : List (List Str)} (la : Layout t)
    (K_mem : ∀ c ∈ K, c ∈ t.colDes) (u_mem : u ∈ t.colDes)
    (len : ∀ fields ∈ fs, fields.length = t.colDes.length) :
    ((rowsOf t.colDes t.colPhy source startStamp fs).map Row.record).map (Record.version K u) =
      fs.mapIdx fun j fields => versionOf t.colDes K u source (startStamp + j) fields := by
  apply List.ext_getElem?
  intro j
  simp only [rowsOf, List.map_map, List.getElem?_map, List.getElem?_mapIdx]
  cases at_j : fs[j]? with
  | none => rfl
  | some fields =>
    have wide := len fields (List.mem_of_getElem? at_j)
    have cell : ∀ c ∈ t.colDes,
        (fillCells t.colDes fields (List.replicate t.colPhy [])).getD c [] =
          fields.getD (t.colDes.idxOf c) [] := by
      intro c mem
      have lt := List.idxOf_lt_length_of_mem mem
      have at_c := List.getElem?_idxOf mem
      have field := List.getElem?_eq_getElem (by omega : t.colDes.idxOf c < fields.length)
      rw [List.getD_eq_getElem?_getD, List.getD_eq_getElem?_getD,
        fillCells_at la.nodup (by simpa using la.lt) at_c field, field]
    simp only [Option.map_some, Function.comp_apply, Record.version, Row.record, rowOf, Row.new,
      versionOf, keyCells, cell u u_mem]
    congr 2
    apply List.map_congr_left
    intro c mem
    exact cell c (K_mem c mem)

/-- A parsed and merged file adds the versions of its lines. -/
lemma mergeSource_kept {state source : Nat} {stamp stamp' : Nat → Nat} {fs : List (List Str)}
    (ke : Kept hashCombine t K u S) (ne : K ≠ []) (notin : u ∉ K)
    (lines : List.Forall₂ (fun line fields => LineText line fields ∧ fields.length = t.colDes.length)
      (getlines (wd.dat source state)) fs)
    (run : wd.mergeSource hashCombine state (t, stamp) source = .ok (t', stamp')) :
    t'.colDes = t.colDes ∧ stamp' = Function.update stamp source (stamp source + fs.length) ∧
      Kept hashCombine t' K u (S ∪ {x | ∃ (j : Nat) (fields : List Str), fs[j]? = some fields ∧
        x = versionOf t.colDes K u source (stamp source + j) fields}) := by
  obtain ⟨index, so, perm, cols⟩ := ke.store
  have la := so.layout
  -- a key column and `updated_at` are two columns, which the parser needs
  have two : 2 ≤ t.colDes.length := by
    obtain ⟨c, mem⟩ := List.exists_mem_of_ne_nil K ne
    obtain ⟨i, lt_i, at_i⟩ := List.mem_iff_getElem.mp (ke.key_mem c mem)
    obtain ⟨j, lt_j, at_j⟩ := List.mem_iff_getElem.mp ke.upd_mem
    have ij : i ≠ j := by
      rintro rfl
      rw [at_i] at at_j
      exact notin (at_j ▸ mem)
    omega
  rw [WorkDescriptor.mergeSource, parseData_spec la (fun _ => two) lines, ok_bind] at run
  dsimp only at run
  rw [bind_ok] at run
  obtain ⟨t1, insert, e⟩ := run
  cases e
  obtain ⟨index', ei, sc, so', _, es⟩ := (insertRows_sound so rowsOf_wide).of_ok insert
  have colDes : t'.colDes = t.colDes := by rw [sc]
  refine ⟨colDes, rfl, ⟨⟨index', so', ?_, ?_⟩, ?_, ?_, ?_⟩⟩
  · rw [ei]
    exact perm
  · rw [ei]
    exact cols
  · rw [colDes]
    exact ke.key_mem
  · rw [colDes]
    exact ke.upd_mem
  · have len : ∀ fields ∈ fs, fields.length = t.colDes.length := forall₂_right lines fun _ _ h => h.2
    have fold := @foldl_put_map _ _ _ _ _ _ (slotKey hashCombine K) (Record.rank u)
      (Version.hash hashCombine) Version.rank (Record.version K u)
      (fun _ => rfl) (fun _ => rfl) (slots t.rows t.rowHeap)
      ((rowsOf t.colDes t.colPhy source (stamp source) fs).map Row.record)
    rw [cols] at es
    rw [versions, es, ← fold, rowsOf_versions la ke.key_mem ke.upd_mem len]
    have set : {x | ∃ (j : Nat) (fields : List Str), fs[j]? = some fields ∧
        x = versionOf t.colDes K u source (stamp source + j) fields} =
        {x | x ∈ fs.mapIdx fun j fields => versionOf t.colDes K u source (stamp source + j) fields} := by
      ext x
      simp only [Set.mem_ofPred_eq, List.mem_iff_getElem?, List.getElem?_mapIdx,
        Option.map_eq_some_iff]
      constructor
      · rintro ⟨j, fields, at_j, rfl⟩
        exact ⟨j, fields, at_j, rfl⟩
      · rintro ⟨j, fields, at_j, rfl⟩
        exact ⟨j, fields, at_j, rfl⟩
    rw [set]
    exact ke.rep.foldl_put

/-! ### The replay -/

/-- The column the CREATE declared under a name. -/
lemma ColumnsAdded.find_eq {cols : List ColumnStatement} {name : Str}
    (ca : ColumnsAdded cols Table.new t) :
    t.colDes.find? (t.hasName name) = cols.findIdx? fun col => decide (col.name = name) := by
  have colDes : t.colDes = List.range cols.length := by
    rw [ca.colDes, List.range_eq_range']
    rfl
  have hasName : ∀ c (lt : c < cols.length), t.hasName name c = decide (cols[c].name = name) := by
    intro c lt
    have heap : t.colHeap[c]? = some (cols[c].descriptor (0 + c)) := by
      rw [ca.colHeap]
      simp [Table.new, lt]
    rw [Table.hasName, heap]
    rfl
  rw [colDes]
  cases h : cols.findIdx? fun col => decide (col.name = name) with
  | none =>
    rw [List.find?_eq_none]
    intro c mem
    rw [hasName c (List.mem_range.mp mem)]
    exact (List.findIdx?_eq_none_iff.mp h _ (List.getElem_mem _)) ▸ Bool.false_ne_true
  | some c =>
    obtain ⟨lt, here, before⟩ := List.findIdx?_eq_some_iff_getElem.mp h
    rw [List.find?_range_eq_some]
    refine ⟨by rw [hasName c lt]; exact here, List.mem_range.mpr lt, ?_⟩
    intro j lt_j
    rw [hasName j (by omega)]
    simpa using before j lt_j

/-- The CREATE starts with no version. -/
lemma create_kept (cr : wd.CreatesKeyed K u) {stamp : Nat → Nat}
    (run : wd.traceAt hashCombine { table := none, stamp } 0 = .ok t) : Kept hashCombine t K u ∅ := by
  obtain ⟨name, cols, key, ddl, keys, ne, notin, ⟨col, at_u, upd⟩, last⟩ := cr
  rw [WorkDescriptor.traceAt, ddl] at run
  have fill : Table.new.fillCreate hashCombine cols [key] = .ok t := run
  obtain ⟨rl, ca, _⟩ := fillCreate_rowless fill
  obtain ⟨index, one, perm, find⟩ := fillCreate_keyed fill
  simp only [ca.find_eq] at find
  have spans : index.cols = K := forall₂_functional find keys
  obtain ⟨i, col', at_i, upd', updCol, last'⟩ := ca.upd ⟨col, List.mem_of_getElem? at_u, upd⟩
  have e : i = u := le_antisymm (last i col' at_i upd') (last' u col at_u upd)
  have updCol' : t.updCol = some u := by
    rw [updCol, e]
    exact congrArg some (Nat.zero_add u)
  have colDes : t.colDes = List.range cols.length := by
    rw [ca.colDes, List.range_eq_range']
    rfl
  refine ⟨⟨index, rl.sound one updCol', perm, spans⟩, ?_, ?_, ?_⟩
  · rw [colDes]
    refine forall₂_right (P := fun c => c ∈ List.range cols.length) keys ?_
    intro s c found
    exact List.mem_range.mpr (List.findIdx?_eq_some_iff_getElem.mp found).1
  · rw [colDes]
    exact List.mem_range.mpr (List.getElem?_eq_some_iff.mp at_u).1
  · rw [versions, rl.rows]
    exact represents_nil

/-- What holds of the loop state before state `n`, which is not the first. -/
structure Replayed (hashCombine : UInt64 → Str → UInt64) (wd : WorkDescriptor)
    (fss : Nat → Nat → List (List Str)) (K : List ColPtr) (u : ColPtr) (n : Nat) (s : WorkState) :
    Prop where
  stamp : ∀ source < 2, s.stamp source = stampBefore fss source n
  kept : ∃ t, s.table = some t ∧
    Kept hashCombine t K u {x | wd.Parsed hashCombine fss K u n x}

/-- The versions parsed up to a state. -/
lemma parsed_succ {n : Nat} (at_n : wd.tableAt hashCombine n = .ok t) :
    {x | wd.Parsed hashCombine fss K u (n + 1) x} =
      {x | wd.Parsed hashCombine fss K u n x} ∪
      {x | ∃ (j : Nat) (fields : List Str), (fss 0 n)[j]? = some fields ∧
        x = versionOf t.colDes K u 0 (stampBefore fss 0 n + j) fields} ∪
      {x | ∃ (j : Nat) (fields : List Str), (fss 1 n)[j]? = some fields ∧
        x = versionOf t.colDes K u 1 (stampBefore fss 1 n + j) fields} := by
  ext x
  simp only [Set.mem_union, Set.mem_ofPred_eq]
  constructor
  · rintro ⟨state, lt, t', at_state, source, two, rest⟩
    rcases Nat.lt_succ_iff_lt_or_eq.mp lt with lt | rfl
    · exact Or.inl (Or.inl ⟨state, lt, t', at_state, source, two, rest⟩)
    · rw [at_n] at at_state
      cases at_state
      match source, two with
      | 0, _ => exact Or.inl (Or.inr rest)
      | 1, _ => exact Or.inr rest
  · rintro ((⟨state, lt, rest⟩ | rest) | rest)
    · exact ⟨state, Nat.lt_succ_of_lt lt, rest⟩
    · exact ⟨n, Nat.lt_succ_self n, t, at_n, 0, by omega, rest⟩
    · exact ⟨n, Nat.lt_succ_self n, t, at_n, 1, by omega, rest⟩

/-- A state of the replay adds the versions it parses. -/
lemma enterState_replayed {n : Nat} {s s' : WorkState} {S : Set Version} (ne : K ≠ []) (notin : u ∉ K)
    (fields : wd.HasFields hashCombine fss) (lt : n < wd.stateCount)
    (prior : wd.statesTo hashCombine n = .ok s) (run : wd.enterState hashCombine s n = .ok s')
    (stamp : ∀ source < 2, s.stamp source = stampBefore fss source n)
    (parsed : S = {x | wd.Parsed hashCombine fss K u n x})
    (trace : ∀ t, wd.traceAt hashCombine s n = .ok t → Kept hashCombine t K u S) :
    Replayed hashCombine wd fss K u (n + 1) s' := by
  obtain ⟨t, t1, t2, stamp1, stamp2, at_n, first, second, rfl⟩ := enterState_ok run
  have table : wd.tableAt hashCombine n = .ok t := by
    rw [WorkDescriptor.tableAt, prior, ok_bind, at_n]
  have lines := fields n lt t table
  obtain ⟨cols1, rfl, kept1⟩ := mergeSource_kept (trace t at_n) ne notin (lines 0 (by omega)) first
  have lines1 := lines 1 (by omega)
  rw [← cols1] at lines1
  obtain ⟨cols2, rfl, kept2⟩ := mergeSource_kept kept1 ne notin lines1 second
  have stamp0 := stamp 0 (by omega)
  have stamp1 := stamp 1 (by omega)
  constructor
  · intro source two
    rw [stampBefore_succ]
    match source, two with
    | 0, _ => simp [stamp0]
    | 1, _ => simp [stamp1]
  · refine ⟨t2, rfl, ?_⟩
    rw [parsed_succ table, ← parsed, ← stamp0, ← stamp1]
    rw [cols1] at kept2
    simpa using kept2

/-- The invariant holds in every state after the first. -/
lemma replayed {n : Nat} {s : WorkState} (cr : wd.CreatesKeyed K u)
    (keeps : wd.Keeps hashCombine K u)
    (upd : wd.KeepsUpd) (fields : wd.HasFields hashCombine fss) (le : n < wd.stateCount)
    (run : wd.statesTo hashCombine (n + 1) = .ok s) : Replayed hashCombine wd fss K u (n + 1) s := by
  have created := cr
  obtain ⟨_, _, _, _, _, ne, notin, _⟩ := created
  induction n generalizing s with
  | zero =>
    rw [WorkDescriptor.statesTo_succ, bind_ok] at run
    obtain ⟨s0, prior, step⟩ := run
    cases prior
    apply enterState_replayed ne notin fields le rfl step (S := ∅)
    · intro source two
      rfl
    · ext x
      simp [WorkDescriptor.Parsed]
    · intro t trace
      exact create_kept cr trace
  | succ n ih =>
    rw [WorkDescriptor.statesTo_succ, bind_ok] at run
    obtain ⟨s0, prior, step⟩ := run
    obtain ⟨stamp, t0, table, kept⟩ := ih (by omega) prior
    apply enterState_replayed ne notin fields le prior step stamp rfl
    intro t trace
    rw [WorkDescriptor.traceAt] at trace
    split at trace
    · cases trace
    · rename_i statement ddl
      rw [table] at trace
      exact trace_kept kept ne (Nat.succ_pos n)
        (keeps _ (Nat.succ_pos n) le s0 t0 statement prior table ddl) (upd _ le statement ddl) trace

/-- The survivors of a replay are the newest versions. -/
lemma WorkDescriptor.KeyedRun.keepsNewest (kr : wd.KeyedRun hashCombine fss K u t) (upd : wd.KeepsUpd) :
    wd.KeepsNewest hashCombine fss K u t := by
  have run := kr.run
  rw [WorkDescriptor.work, bind_ok] at run
  obtain ⟨s, states, table⟩ := run
  cases count : wd.stateCount with
  | zero =>
    rw [count] at states
    cases states
    cases table
  | succ n =>
    rw [count] at states
    obtain ⟨_, t', table', kept⟩ := replayed kr.creates kr.keeps upd kr.fields (by omega) states
    rw [table', deref_some] at table
    cases table
    rw [← count] at kept
    have rep : Represents Version.key Version.rank _ (versions K u t) :=
      kept.rep.separate (fun x hx y hy e => kr.separates x y hx hy e) (fun x y e => by
        rw [Version.hash, e, Version.hash])
    constructor
    · intro x hx
      refine (existsUnique_congr fun i => ?_).mp (rep.existsUnique hx)
      simp only [mem_versions kept.layout kept.key_lt kept.upd_lt]
      constructor
      · rintro ⟨_, ⟨p, r, live, rfl⟩, e⟩
        exact ⟨p, r, live, e⟩
      · rintro ⟨p, r, live, e⟩
        exact ⟨_, ⟨p, r, live, rfl⟩, e⟩
    · intro x
      rw [← rep.mem_iff fun x _ y _ => Version.ext_rank, List.mem_iff_getElem?]
      simp only [mem_versions kept.layout kept.key_lt kept.upd_lt]
      rfl

/-- Newest row wins: if later statements add no column named `updated_at`, the rows that survive the
    replay are, for each key tuple, the greatest of all rows that were parsed; so replays that parse the
    same labelled rows, in whatever order, have the same survivors. -/
theorem work_newest (kr : wd.KeyedRun hashCombine fss K u t) (upd : wd.KeepsUpd) :
    wd.KeepsNewest hashCombine fss K u t ∧
    ∀ (wd' : WorkDescriptor) (fss' : Nat → Nat → List (List Str)) (t' : Table),
      wd'.KeyedRun hashCombine fss' K u t' → wd'.KeepsUpd →
      (∀ x, wd'.Parsed hashCombine fss' K u wd'.stateCount x ↔
        wd.Parsed hashCombine fss K u wd.stateCount x) →
      ∀ x, t'.Survivor K u x ↔ t.Survivor K u x := by
  have kept := kr.keepsNewest upd
  refine ⟨kept, ?_⟩
  intro wd' fss' t' kr' upd' same x
  have sets : {y | wd'.Parsed hashCombine fss' K u wd'.stateCount y} =
      {y | wd.Parsed hashCombine fss K u wd.stateCount y} := Set.ext same
  rw [kept.newest, (kr'.keepsNewest upd').newest, sets]

end

/-! ### A replay in which `updated_at` is renamed -/

/-- Table `(id, updated_at)` with key `id`; then `updated_at` is renamed and a column `added` comes in. -/
def renamedWork (added : String) : WorkDescriptor where
  stateCount := 3
  ddl
    | 0 => unlines (["CREATE", "t", "2", "id", "int", "1", "0", "updated_at", "datetime", "0", "0",
        "1", "0", "1", "1", "id"].map String.toList)
    | 1 => unlines (["ALTER", "CHANGECOL", "old", "datetime", "0", "0", "updated_at"].map
        String.toList)
    | _ => unlines (["ALTER", "ADDCOL", added, "datetime", "0", "1", "0", "0"].map String.toList)
  dat
    | 0, 0 => unlines (["\"1\",\"5\"", "\"2\",\"5\"", "\"2\",\"3\""].map String.toList)
    | 0, 2 => unlines ["\"1\",\"1\",\"1\"".toList]
    | _, _ => []

/-- The fields of its files. -/
def renamedFields : Nat → Nat → List (List Str)
  | 0, 0 => [["1".toList, "5".toList], ["2".toList, "5".toList], ["2".toList, "3".toList]]
  | 0, 2 => [["1".toList, "1".toList, "1".toList]]
  | _, _ => []

/-- The versions of its lines, with key `id` and the first `updated_at`. -/
def renamedVersions : List Version :=
  [{ key := ["1".toList], upd := "5".toList, source := 0, stamp := 0 },
    { key := ["2".toList], upd := "5".toList, source := 0, stamp := 1 },
    { key := ["2".toList], upd := "3".toList, source := 0, stamp := 2 },
    { key := ["1".toList], upd := "1".toList, source := 0, stamp := 3 }]

/-- What evaluation shows of the run: the columns of the states, the statements, and that no column has
    the name `added` before the last. -/
structure RenamedRuns (added : String) : Prop where
  columns : ∀ state < 3, ((renamedWork added).tableAt hashCombine state).toOption.map Table.colDes =
    some (if state = 2 then [0, 1, 2] else [0, 1])
  new : ((renamedWork added).statesTo hashCombine 2).toOption.map (fun s =>
    s.table.map fun t => t.colDes.all fun c => !t.hasName added.toList c) = some (some true)
  rename : ∃ col name, Statement.getStatement ((renamedWork added).ddl 1) = .ok (.changeCol col name)
  add : ∃ col, Statement.getStatement ((renamedWork added).ddl 2) = .ok (.addCol col none) ∧
    col.name = added.toList
  survivors : ((renamedWork added).work hashCombine).isOk = true

section
variable {added : String}

/-- The columns of the states of the renamed run. -/
lemma RenamedRuns.colDes (rr : RenamedRuns added) {state : Nat} {t : Table} (lt : state < 3)
    (at_state : (renamedWork added).tableAt hashCombine state = .ok t) :
    t.colDes = if state = 2 then [0, 1, 2] else [0, 1] := by
  have columns := rr.columns state lt
  rw [at_state] at columns
  exact Option.some.inj columns

/-- The renamed run reaches its three states. -/
lemma RenamedRuns.tableAt (rr : RenamedRuns added) {state : Nat} (lt : state < 3) :
    ∃ t, (renamedWork added).tableAt hashCombine state = .ok t := by
  have columns := rr.columns state lt
  cases e : (renamedWork added).tableAt hashCombine state with
  | ok t => exact ⟨t, rfl⟩
  | error f =>
    rw [e] at columns
    cases columns

/-- The parsed versions are the four of `renamedVersions`. -/
lemma RenamedRuns.parsed (rr : RenamedRuns added) {x : Version}
    (h : (renamedWork added).Parsed hashCombine renamedFields [0] 1 3 x) : x ∈ renamedVersions := by
  obtain ⟨state, lt, t, at_state, source, two, j, fields, at_j, rfl⟩ := h
  rw [rr.colDes lt at_state]
  clear at_state
  match state, source, two with
  | 0, 0, _ =>
    match j with
    | 0 => cases at_j; decide +kernel
    | 1 => cases at_j; decide +kernel
    | 2 => cases at_j; decide +kernel
    | j + 3 => cases at_j
  | 2, 0, _ =>
    match j with
    | 0 => cases at_j; decide +kernel
    | j + 1 => cases at_j
  | 1, 0, _ => cases at_j
  | n + 3, _, _ => omega
  | n, 1, _ =>
    have none : renamedFields 1 n = [] := by cases n <;> rfl
    rw [none] at at_j
    cases at_j

/-- The renamed run keeps its key and `updated_at`. -/
lemma RenamedRuns.keeps (rr : RenamedRuns added) : (renamedWork added).Keeps hashCombine [0] 1 := by
  intro state pos lt s t statement prior table ddl
  have later : state = 1 ∨ state = 2 := by
    have : state < 3 := lt
    omega
  rcases later with rfl | rfl
  · obtain ⟨col, name, change⟩ := rr.rename
    rw [change] at ddl
    cases ddl
    trivial
  · obtain ⟨col, add, name⟩ := rr.add
    rw [add] at ddl
    cases ddl
    have new := rr.new
    rw [prior] at new
    have all : (t.colDes.all fun c => !t.hasName added.toList c) = true := by
      have h : s.table.map (fun t => t.colDes.all fun c => !t.hasName added.toList c) = some true :=
        Option.some.inj new
      rw [table] at h
      exact Option.some.inj h
    intro c mem
    rw [name]
    simpa using List.all_eq_true.mp all c mem

/-- The files of the renamed run have the fields of their states. -/
lemma RenamedRuns.hasFields (rr : RenamedRuns added) :
    (renamedWork added).HasFields hashCombine renamedFields := by
  intro state lt t at_state source two
  rw [rr.colDes lt at_state]
  clear at_state
  have cell : ∀ c : Char, c ∈ "1235".toList → FieldText [c] [c] := by
    intro c mem
    have plain : ∀ c ∈ "1235".toList, c ≠ '\\' ∧ c ≠ '"' := by decide
    exact .plain (plain c mem).1 (plain c mem).2 .nil
  have line : ∀ c d : Char, c ∈ "1235".toList → d ∈ "1235".toList →
      LineText ['"', c, '"', ',', '"', d, '"'] [[c], [d]] :=
    fun c d hc hd => ⟨_, rfl, .cons (cell c hc) (.last (cell d hd))⟩
  match state, source, two with
  | 0, 0, _ =>
    exact .cons ⟨line '1' '5' (by decide) (by decide), rfl⟩
      (.cons ⟨line '2' '5' (by decide) (by decide), rfl⟩
        (.cons ⟨line '2' '3' (by decide) (by decide), rfl⟩ .nil))
  | 2, 0, _ =>
    exact .cons ⟨⟨_, rfl, .cons (cell '1' (by decide)) (.cons (cell '1' (by decide))
      (.last (cell '1' (by decide))))⟩, rfl⟩ .nil
  | 1, 0, _ => exact .nil
  | n + 3, _, _ =>
    have : n + 3 < 3 := lt
    omega
  | 0, 1, _ => exact .nil
  | 1, 1, _ => exact .nil
  | 2, 1, _ => exact .nil

/-- The renamed run creates its table under a key. -/
lemma renamed_creates : (renamedWork added).CreatesKeyed [0] 1 := by
  refine ⟨"t".toList, [{ name := "id".toList, type := "int".toList, isNotNull := true, defaultStr := none },
    { name := updatedAt, type := "datetime".toList, isNotNull := false, defaultStr := none }],
    { name := [], isPrimaryKey := true, keys := ["id".toList] }, rfl, .cons rfl .nil, by decide, by decide,
    ⟨_, rfl, rfl⟩, ?_⟩
  intro j col at_j name
  match j with
  | 0 => exact Nat.zero_le _
  | 1 => exact le_rfl
  | j + 2 => cases at_j

/-- The run meets every condition of `work_newest` except that `added` may be `updated_at`. -/
lemma RenamedRuns.keyedRun (rr : RenamedRuns added) :
    ∃ t, (renamedWork added).KeyedRun hashCombine renamedFields [0] 1 t := by
  obtain ⟨t, run⟩ := ok_of_isOk rr.survivors
  refine ⟨t, renamed_creates, rr.keeps, rr.hasFields, ?_, run⟩
  have separate : ∀ x ∈ renamedVersions, ∀ y ∈ renamedVersions,
      x.hash hashCombine = y.hash hashCombine → x.key = y.key := by decide +kernel
  intro x y hx hy
  exact separate x (rr.parsed hx) y (rr.parsed hy)

/-- The first row of the renamed run is parsed. -/
lemma RenamedRuns.first (rr : RenamedRuns added) :
    (renamedWork added).Parsed hashCombine renamedFields [0] 1 3
      { key := ["1".toList], upd := "5".toList, source := 0, stamp := 0 } := by
  obtain ⟨t, at_0⟩ := rr.tableAt (show 0 < 3 by decide)
  refine ⟨0, by decide, t, at_0, 0, by decide, 0, _, rfl, ?_⟩
  rw [rr.colDes (by decide) at_0]
  clear at_0
  decide +kernel

end

/-- If `updated_at` is renamed and a new column takes its name, the newest row does not survive: the new
    column decides, and the rows parsed before have its default there. -/
theorem renamed_loses_newest :
    ∃ t, (renamedWork "updated_at").KeyedRun hashCombine renamedFields [0] 1 t ∧
      ¬ (renamedWork "updated_at").KeepsNewest hashCombine renamedFields [0] 1 t := by
  have rr : RenamedRuns "updated_at" :=
    ⟨by decide +kernel, by decide +kernel, ⟨_, _, rfl⟩, ⟨_, rfl, rfl⟩, by decide +kernel⟩
  obtain ⟨t, kr⟩ := rr.keyedRun
  refine ⟨t, kr, ?_⟩
  intro kn
  have survivors : ((renamedWork "updated_at").work hashCombine).toOption.map (fun t =>
      t.rows.map fun slot => (slot.bind t.row?).map (t.version [0] 1)) =
      some [some { key := ["1".toList], upd := "1".toList, source := 0, stamp := 3 },
        some { key := ["2".toList], upd := "5".toList, source := 0, stamp := 1 }] := by decide +kernel
  rw [kr.run] at survivors
  have slots := Option.some.inj survivors
  dsimp only at slots
  have greatest : ∀ y ∈ renamedVersions, y.key = ["1".toList] →
      y.rank ≤ Version.rank { key := ["1".toList], upd := "5".toList, source := 0, stamp := 0 } := by
    decide +kernel
  obtain ⟨i, p, r, live, e⟩ := (kn.newest _).mpr ⟨rr.first, fun y hy => greatest y (rr.parsed hy)⟩
  have mem : some (t.version [0] 1 r) ∈
      t.rows.map fun slot => (slot.bind t.row?).map (t.version [0] 1) := by
    rw [List.mem_map]
    exact ⟨some p, List.mem_of_getElem? live.1, by rw [Option.bind_some, live.2]; rfl⟩
  rw [slots, e] at mem
  revert mem
  decide +kernel

/-- Where the new column is not named `updated_at`, the renamed run keeps the newest rows. -/
theorem renamed_keeps_newest :
    ∃ t, (renamedWork "note").KeyedRun hashCombine renamedFields [0] 1 t ∧
      (renamedWork "note").KeepsNewest hashCombine renamedFields [0] 1 t := by
  have rr : RenamedRuns "note" :=
    ⟨by decide +kernel, by decide +kernel, ⟨_, _, rfl⟩, ⟨_, rfl, rfl⟩, by decide +kernel⟩
  obtain ⟨t, kr⟩ := rr.keyedRun
  have upd : (renamedWork "note").KeepsUpd := by
    intro state lt statement ddl
    have states : state = 0 ∨ state = 1 ∨ state = 2 := by
      have : state < 3 := lt
      omega
    rcases states with rfl | rfl | rfl
    · cases ddl
      trivial
    · cases ddl
      trivial
    · cases ddl
      show "note".toList ≠ updatedAt
      decide
  exact ⟨t, kr, (work_newest kr upd).1⟩

end TdsqlMerge.Store
