import TdsqlMerge.Lib.Keep
import TdsqlMerge.Store.Integrity

/-!
# NULL in a key column

The store hashes the cells of the key columns, and a NULL cell is the text `nullMarker` like any other.
`insertBatches_live` says what batches leave; `null_keys` derives that rows with different key hashes do not
meet, and says when rows with NULL in the key are exempt from merging, as SQL's unique indexes have it.
-/

namespace TdsqlMerge.Store
open Lib

/-- The live rows in the order of their slots. -/
def Table.live (t : Table) : List Record := (slots t.rows t.rowHeap).reduceOption

/-- The row is NULL in a key column of the index. -/
def UniqueIndex.hasNull (index : UniqueIndex) (x : Record) : Bool :=
  (keyCells index.hashPhy x.data).any fun cell => cell = nullMarker

section
variable (hashCombine : UInt64 → Str → UInt64)

/-- `insertRows` for one batch of new rows after the other. -/
def Table.insertBatches (t : Table) (batches : List (List Row)) : Res Table :=
  batches.foldlM (fun t rs => (t.alloc rs).insertRows hashCombine (t.fresh rs)) t

/-- The rows that are live and those that come. -/
def Table.rowsWith (t : Table) (batches : List (List Row)) : List Record :=
  t.live ++ batches.flatten.map Row.record

variable {hashCombine} {t : Table} {u : ColPtr} {index : UniqueIndex} {batches : List (List Row)}

/-- The live rows of a sound table have different hashes. -/
lemma Sound.live_distinct (so : Sound hashCombine t u index) :
    (t.live.map (slotKey hashCombine index.cols)).Nodup :=
  Unique.nodup so.unique

/-- Batches of full-width rows are merged into the live rows one by one. -/
lemma insertBatches_live (so : Sound hashCombine t u index)
    (wide : ∀ rs ∈ batches, ∀ r ∈ rs, r.data.length = t.colPhy) :
    ∃ t', t.insertBatches hashCombine batches = .ok t' ∧
      t'.live = keepAll (slotKey hashCombine index.cols) (Record.rank u) (t.rowsWith batches) := by
  have run : ∃ t', t.insertBatches hashCombine batches = .ok t' ∧ t'.live =
      (batches.flatten.map Row.record).foldl (keep (slotKey hashCombine index.cols) (Record.rank u)) t.live := by
    induction batches generalizing t index with
    | nil => exact ⟨t, rfl, rfl⟩
    | cons rs batches ih =>
      obtain ⟨t1, insert, index1, same, sc, so1, _, es⟩ := insertRows_sound so (wide rs List.mem_cons_self)
      have cols : index1.cols = index.cols := by rw [same]
      have live1 : t1.live = (rs.map Row.record).foldl
          (keep (slotKey hashCombine index.cols) (Record.rank u)) t.live := by
        rw [Table.live, es, foldl_put_keep so.unique, Table.live]
      have wide1 : ∀ rs ∈ batches, ∀ r ∈ rs, r.data.length = t1.colPhy := by
        intro rs' mem r inside
        rw [sc]
        exact wide rs' (List.mem_cons_of_mem rs mem) r inside
      obtain ⟨t', rest, live⟩ := ih so1 wide1
      refine ⟨t', ?_, ?_⟩
      · rw [Table.insertBatches, List.foldlM_cons, insert]
        exact rest
      · rw [live, live1, cols, List.flatten_cons, List.map_append, List.foldl_append]
  obtain ⟨t', insert, live⟩ := run
  refine ⟨t', insert, ?_⟩
  rw [live, keepAll, Table.rowsWith, List.foldl_append, foldl_keep_distinct (l := [])]
  · rfl
  · exact so.live_distinct

/-- Rows with different key hashes do not meet: those with hashes in a set are merged as if there were no
others. Rows with NULL in the key are exempt from merging exactly if no other row has their key hash. -/
theorem null_keys (re : Reachable hashCombine t) (indexs : t.indexs = [index]) (upd : t.updCol = some u)
    (wide : ∀ rs ∈ batches, ∀ r ∈ rs, r.data.length = t.colPhy) :
    ∃ t', t.insertBatches hashCombine batches = .ok t' ∧
      (∀ K : UInt64 → Bool, (t'.live.filter fun x => K (slotKey hashCombine index.hashPhy x)) =
        keepAll (slotKey hashCombine index.hashPhy) (Record.rank u)
          ((t.rowsWith batches).filter fun x => K (slotKey hashCombine index.hashPhy x))) ∧
      (Exempts (slotKey hashCombine index.hashPhy) (Record.rank u) index.hasNull (t.rowsWith batches) t'.live ↔
        (t.rowsWith batches).Pairwise fun x y => index.hasNull x ∨ index.hasNull y →
          slotKey hashCombine index.hashPhy x ≠ slotKey hashCombine index.hashPhy y) := by
  obtain ⟨u', index', so⟩ := reachable_sound re
  have one := so.indexs
  rw [indexs] at one
  cases one
  have same := so.upd.col
  rw [upd] at same
  cases same
  obtain ⟨t', run, live⟩ := insertBatches_live so wide
  rw [← so.well.phy] at live
  refine ⟨t', run, ?_, ?_⟩
  · intro K
    rw [live, keepAll, foldl_keep_filter]
    rfl
  · rw [live]
    exact exempts_iff

end

/-! ### A unique index on a column that may be NULL -/

/-- Table `(id, note, updated_at)` with the unique index `k` on `note`. -/
def noteTable : Res Table :=
  Table.new.fillCreate Store.hashCombine
    [{ name := "id".toList, type := "int".toList, isNotNull := true, defaultStr := none },
      { name := "note".toList, type := "varchar".toList, isNotNull := false, defaultStr := none },
      { name := updatedAt, type := "datetime".toList, isNotNull := true, defaultStr := none }]
    [{ name := "k".toList, isPrimaryKey := false, keys := ["note".toList] }]

/-- What the table is after the CREATE. -/
structure IsNoteTable (t : Table) (index : UniqueIndex) : Prop where
  create : noteTable = .ok t
  reachable : Reachable Store.hashCombine t
  indexs : t.indexs = [index]
  name : index.name = "k".toList
  notPrimary : index.isPrimary = false
  notTemp : index.isTemp = false
  hashPhy : index.hashPhy = [1]
  updCol : t.updCol = some 2
  colPhy : t.colPhy = 3
  live : t.live = []

/-- The table of notes is there. -/
lemma exists_noteTable : ∃ t index, IsNoteTable t index := by
  obtain ⟨t, run⟩ := ok_of_isOk (show noteTable.isOk = true by decide +kernel)
  have re : Reachable Store.hashCombine t :=
    .create run (by decide) ⟨_, .tail _ (.tail _ (.head _)), rfl⟩
  obtain ⟨u, index, so⟩ := reachable_sound re
  have table : noteTable.toOption.map (fun t => (t.live, t.updCol, t.colPhy)) = some ([], some 2, 3) := by
    decide +kernel
  have key : noteTable.toOption.map (fun t => t.indexs.map fun index =>
      (index.name, index.isPrimary, index.isTemp, index.hashPhy)) = some [("k".toList, false, false, [1])] := by
    decide +kernel
  rw [run] at table key
  have parts := Option.some.inj table
  have keys := Option.some.inj key
  dsimp only at keys
  rw [so.indexs] at keys
  simp only [List.map_cons, List.map_nil, Prod.mk.injEq, List.cons.injEq, and_true] at parts keys
  obtain ⟨live, updCol, colPhy⟩ := parts
  obtain ⟨name, notPrimary, notTemp, hashPhy⟩ := keys
  exact ⟨t, index, run, re, so.indexs, name, notPrimary, notTemp, hashPhy, updCol, colPhy, live⟩

/-- In the table of notes a row has a NULL key where its note is NULL. -/
lemma IsNoteTable.hasNull {t : Table} {index : UniqueIndex} (note : IsNoteTable t index) :
    index.hasNull = fun x => (keyCells [1] x.data).any fun cell => cell = nullMarker := by
  funext x
  rw [UniqueIndex.hasNull, note.hashPhy]

/-- Into the empty table come only the rows of the batches. -/
lemma IsNoteTable.rowsWith {t : Table} {index : UniqueIndex} (note : IsNoteTable t index)
    {batches : List (List Row)} : t.rowsWith batches = batches.flatten.map Row.record := by
  rw [Table.rowsWith, note.live]
  rfl

/-- Two rows of different stamps whose `note` is NULL. -/
def twoNulls : List (List Row) :=
  [[.new ["1".toList, nullMarker, "5".toList] 0 0, .new ["2".toList, nullMarker, "6".toList] 0 1]]

/-- One row whose `note` is NULL, and two rows with the same `note`. -/
def oneNull : List (List Row) :=
  [[.new ["1".toList, nullMarker, "5".toList] 0 0, .new ["2".toList, "a".toList, "5".toList] 0 1],
    [.new ["3".toList, "a".toList, "7".toList] 1 0]]

/-- One row with a NULL key keeps its slot, as it would exempted. -/
theorem oneNull_exempt : ∃ t index t', IsNoteTable t index ∧ t.insertBatches Store.hashCombine oneNull = .ok t' ∧
    (∀ K : UInt64 → Bool, (t'.live.filter fun x => K (slotKey Store.hashCombine index.hashPhy x)) =
      keepAll (slotKey Store.hashCombine index.hashPhy) (Record.rank 2)
        ((t.rowsWith oneNull).filter fun x => K (slotKey Store.hashCombine index.hashPhy x))) ∧
    Exempts (slotKey Store.hashCombine index.hashPhy) (Record.rank 2) index.hasNull (t.rowsWith oneNull) t'.live := by
  obtain ⟨t, index, note⟩ := exists_noteTable
  have wide : ∀ rs ∈ oneNull, ∀ r ∈ rs, r.data.length = t.colPhy := by
    rw [note.colPhy]
    decide
  obtain ⟨t', run, apart, exempt⟩ := null_keys note.reachable note.indexs note.updCol wide
  refine ⟨t, index, t', note, run, apart, exempt.mpr ?_⟩
  rw [note.rowsWith, note.hasNull, note.hashPhy]
  decide +kernel

/-- A row with NULL in the key is replaced by another one. -/
theorem null_replaced : ∃ t index t', IsNoteTable t index ∧ (∀ rs ∈ twoNulls, ∀ r ∈ rs, r.data.length = t.colPhy) ∧
    ((t.rowsWith twoNulls).map fun x => (x.source, x.stamp)).Nodup ∧
    t.insertBatches Store.hashCombine twoNulls = .ok t' ∧
    t'.live = [{ data := ["2".toList, nullMarker, "6".toList], source := 0, stamp := 1 }] ∧
    ¬ Exempts (slotKey Store.hashCombine index.hashPhy) (Record.rank 2) index.hasNull (t.rowsWith twoNulls)
      t'.live := by
  obtain ⟨t, index, note⟩ := exists_noteTable
  have wide : ∀ rs ∈ twoNulls, ∀ r ∈ rs, r.data.length = t.colPhy := by
    rw [note.colPhy]
    decide
  have result : (noteTable >>= fun t => t.insertBatches Store.hashCombine twoNulls).toOption.map Table.live =
      some [{ data := ["2".toList, nullMarker, "6".toList], source := 0, stamp := 1 }] := by
    decide +kernel
  rw [note.create, ok_bind] at result
  cases run : t.insertBatches Store.hashCombine twoNulls with
  | error f =>
    rw [run] at result
    cases result
  | ok t' =>
    rw [run] at result
    have live : t'.live = [{ data := ["2".toList, nullMarker, "6".toList], source := 0, stamp := 1 }] :=
      Option.some.inj result
    refine ⟨t, index, t', note, wide, ?_, run, live, ?_⟩
    · rw [note.rowsWith]
      decide +kernel
    · intro exempt
      have count := exempt.all.length_eq
      rw [note.rowsWith, note.hasNull, live] at count
      revert count
      decide +kernel

end TdsqlMerge.Store
