import TdsqlMerge.Store.Integrity
import TdsqlMerge.Store.Rebuild

/-!
# Rows that displace each other

An index finds the row that a new one may displace by the 64-bit hash of the key cells alone. `Merging`
collects the tables that batches and rebuilds of the index lead to, with the rows the index has seen.
`displaced_by_hash` says that rows only displace rows with their key hash, so that every key hash that was
seen is still represented, and every key if the hash tells the keys apart; `keys_displaced` has two keys that
it does not tell apart.
-/

namespace TdsqlMerge.Store
open Lib

section
variable (hashCombine : UInt64 → Str → UInt64)

/-- `setHashPhy(); reCompute();` for an index over `cols`, as in the constructors of `UniqueIndex` and in
    `deleteCol`. -/
def Table.rebuild (t : Table) (index : UniqueIndex) (cols : List ColPtr) : Res Table := do
  let index ← { index with cols }.setHashPhy t
  let (index, t) ← index.reCompute hashCombine t
  .ok { t with indexs := [index] }

/-- The tables with one index that batches of new rows and rebuilds of the index lead to, with the rows that
    the index has seen since it has its columns. -/
inductive Merging : Table → UniqueIndex → Set Record → Prop where
  | start {t index} : Reachable hashCombine t → t.indexs = [index] → Merging t index t.records
  | batch {t t' index index' seen} {rs : List Row} :
    Merging t index seen →
    (∀ r ∈ rs, r.data.length = t.colPhy) →
    (t.alloc rs).insertRows hashCombine (t.fresh rs) = .ok t' →
    t'.indexs = [index'] →
    Merging t' index' (seen ∪ {x | x ∈ rs.map Row.record})
  | rebuild {t t' index index' seen cols} :
    Merging t index seen →
    (∀ c ∈ cols, c < t.colPhy) →
    t.rebuild hashCombine index cols = .ok t' →
    t'.indexs = [index'] →
    Merging t' index' (if cols = index.cols then seen else t.records)

end

/-- Rows of the table conflict with new ones only if they are the `same`; a row that was seen and is not in the
    table was displaced by another that is the `same`, and all are represented. -/
structure Displaces (hashCombine : UInt64 → Str → UInt64) (same : Record → Record → Prop) (t : Table)
    (index : UniqueIndex) (seen : Set Record) : Prop where
  conflict : ∀ p r, t.row? p = some r → r.data.length = t.colPhy →
    ∃ k index' t', index.checkRow hashCombine t p = .ok (k, index', t') ∧
      (k ≠ 0 → ∃ x ∈ t.records, same x r.record)
  displaced : ∀ x ∈ seen, x ∉ t.records → ∃ y ∈ t.records, y ≠ x ∧ same y x
  represented : ∀ x ∈ seen, ∃ y ∈ t.records, same y x

/-- The cells in the key columns are equal. -/
def UniqueIndex.SameKey (index : UniqueIndex) (x y : Record) : Prop :=
  keyCells index.hashPhy x.data = keyCells index.hashPhy y.data

/-- The hashes of the cells in the key columns are equal. -/
def UniqueIndex.SameHash (hashCombine : UInt64 → Str → UInt64) (index : UniqueIndex) (x y : Record) : Prop :=
  hashOf hashCombine index.hashPhy x.data = hashOf hashCombine index.hashPhy y.data

section
variable {hashCombine : UInt64 → Str → UInt64} {t t' : Table} {u : ColPtr} {index : UniqueIndex}
  {seen : Set Record} {cols : List ColPtr}

/-- A rebuild keeps the invariant, and represents the rows there were. -/
lemma rebuild_sound (so : Sound hashCombine t u index) (lt : ∀ c ∈ cols, c < t.colPhy) :
    Yields (t.rebuild hashCombine index cols) fun t' => ∃ index', Sound hashCombine t' u index' ∧
      index'.cols = cols ∧ slots t'.rows t'.rowHeap =
        Lib.rebuild (slotKey hashCombine cols) (Record.rank u) (slots t.rows t.rowHeap) := by
  obtain ⟨⟨ix, tb⟩, run, ei, ef, _, wi, es⟩ :=
    @buildIndex_spec hashCombine _ _ { index with cols } so.layout so.upd so.well.slotted lt
  simp only at ei ef wi es
  obtain ⟨ix0, phy, compute⟩ := bind_ok.mp run
  have run : t.rebuild hashCombine index cols = .ok { tb with indexs := [ix] } := by
    rw [Table.rebuild, phy, ok_bind, compute]
    rfl
  refine ⟨_, run, ix, ⟨?_, ?_, rfl, ⟨wi.cols_lt, wi.phy, wi.slotted, wi.filed⟩⟩, ?_, es⟩
  · rw [ef]
    exact ⟨so.layout.heap_length, so.layout.mapping, so.layout.lt, so.layout.nodup⟩
  · rw [ef]
    exact ⟨so.upd.col, so.upd.lt⟩
  · rw [ei]

/-- The rows in the table represent all rows the index has seen. -/
lemma Merging.represents (run : Merging hashCombine t index seen) :
    ∃ u, Sound hashCombine t u index ∧
      Represents (slotKey hashCombine index.cols) (Record.rank u) seen (slots t.rows t.rowHeap) := by
  have alone {t : Table} {u : ColPtr} {index : UniqueIndex} (so : Sound hashCombine t u index) :
      Represents (slotKey hashCombine index.cols) (Record.rank u) t.records (slots t.rows t.rowHeap) := by
    have rep : Represents (slotKey hashCombine index.cols) (Record.rank u) t.records
        (Lib.rebuild (slotKey hashCombine index.cols) (Record.rank u) (slots t.rows t.rowHeap)) :=
      represents_rebuild
    rwa [rebuild_of_unique so.unique] at rep
  induction run with
  | start re indexs =>
    obtain ⟨u, index', so⟩ := reachable_sound re
    have one := so.indexs
    rw [indexs] at one
    cases one
    exact ⟨u, so, alone so⟩
  | batch _ wide insert indexs ih =>
    obtain ⟨u, so, rep⟩ := ih
    obtain ⟨index1, same, _, so1, _, es⟩ := (insertRows_sound so wide).of_ok insert
    have one := so1.indexs
    rw [indexs] at one
    cases one
    refine ⟨u, so1, ?_⟩
    rw [es, same]
    exact rep.foldl_put
  | @rebuild t t' index index' seen cols _ lt run indexs ih =>
    obtain ⟨u, so, rep⟩ := ih
    obtain ⟨index1, so1, span, es⟩ := (rebuild_sound so lt).of_ok run
    have one := so1.indexs
    rw [indexs] at one
    cases one
    refine ⟨u, so1, ?_⟩
    rw [es, span]
    split
    · rename_i kept
      rw [kept, rebuild_of_unique so.unique]
      exact rep
    · exact represents_rebuild

/-- A row conflicts with the row that has its key hash. -/
lemma Sound.conflict {p : RowPtr} {r : Row} (so : Sound hashCombine t u index) (hp : t.row? p = some r)
    (wide : r.data.length = t.colPhy) :
    ∃ k index' t', index.checkRow hashCombine t p = .ok (k, index', t') ∧
      (k ≠ 0 → ∃ x ∈ t.records, index.SameHash hashCombine x r.record) := by
  have fi := so.well.filing
  rcases checkRow_spec fi.ranged (so.upd.updAt so.layout) fi.slotted fi.filed hp wide with
    ⟨_, run⟩ | ⟨j, q, o, _, at_j, ho, same, run⟩
  · exact ⟨0, index, t, run, fun ne => absurd rfl ne⟩
  · have live : t.Live j q o := ⟨at_j, ho⟩
    have met : ∃ x ∈ t.records, index.SameHash hashCombine x r.record := ⟨_, live.record_mem, same⟩
    split at run
    · exact ⟨_, _, _, run, fun _ => met⟩
    · exact ⟨_, _, _, run, fun _ => met⟩

/-- Rows displace rows with the same key hash; if the hash tells the keys of the rows apart, those with the
    same key. -/
theorem displaced_by_hash (run : Merging hashCombine t index seen) :
    Displaces hashCombine (index.SameHash hashCombine) t index seen ∧
      (Separates hashCombine index.hashPhy seen →
        (∀ x ∈ seen, x ∉ t.records → ∃ y ∈ t.records, y ≠ x ∧ index.SameKey y x) ∧
        ∀ x ∈ seen, ∃ y ∈ t.records, index.SameKey y x) := by
  obtain ⟨u, so, rep⟩ := run.represents
  rw [← so.well.phy] at rep
  have represented : ∀ x ∈ seen, ∃ y ∈ t.records, index.SameHash hashCombine y x := rep.covers
  have old : ∀ y ∈ t.records, y ∈ seen := fun y mem => (rep.newest y mem).1
  refine ⟨⟨?_, ?_, represented⟩, ?_⟩
  · intro p r hp wide
    exact so.conflict hp wide
  · intro x hx out
    obtain ⟨y, mem, same⟩ := represented x hx
    exact ⟨y, mem, fun e => out (e ▸ mem), same⟩
  · intro sep
    have keys : ∀ x ∈ seen, ∃ y ∈ t.records, index.SameKey y x := by
      intro x hx
      obtain ⟨y, mem, same⟩ := represented x hx
      exact ⟨y, mem, sep y (old y mem) x hx same⟩
    refine ⟨?_, keys⟩
    intro x hx out
    obtain ⟨y, mem, same⟩ := keys x hx
    exact ⟨y, mem, fun e => out (e ▸ mem), same⟩

end

/-! ### Two keys with one hash -/

/-- A table `(id, updated_at)` with key `id`. -/
def codeTable : Res Table :=
  Table.new.fillCreate Store.hashCombine
    [{ name := "id".toList, type := "varchar".toList, isNotNull := true, defaultStr := none },
      { name := updatedAt, type := "datetime".toList, isNotNull := true, defaultStr := none }]
    [{ name := [], isPrimaryKey := true, keys := ["id".toList] }]

/-- Two rows with different keys. -/
def twoCodes (id id' : String) : List Row :=
  [.new [id.toList, "5".toList] 0 0, .new [id'.toList, "6".toList] 0 1]

/-- The table after the two rows, with the rows its index has seen. -/
lemma twoCodes_merging (id id' : String) : ∃ t index seen, Merging Store.hashCombine t index seen ∧
    index.hashPhy = [0] ∧ ∀ x, x ∈ seen ↔ x ∈ (twoCodes id id').map Row.record := by
  have made : (codeTable.toOption.any fun t => t.indexs.map UniqueIndex.hashPhy = [[0]] ∧ t.colPhy = 2) = true := by
    decide +kernel
  obtain ⟨t, made, h⟩ := ok_of_any made
  obtain ⟨phys, width⟩ := of_decide_eq_true h
  have re : Reachable Store.hashCombine t := .create made (by decide) ⟨_, .tail _ (.head _), rfl⟩
  obtain ⟨u, index, so⟩ := reachable_sound re
  rw [so.indexs] at phys
  have phy : index.hashPhy = [0] := List.singleton_inj.mp phys
  have wide : ∀ r ∈ twoCodes id id', r.data.length = t.colPhy := by
    intro r mem
    rw [width]
    rcases List.mem_cons.mp mem with rfl | mem
    · rfl
    · rw [List.mem_singleton.mp mem]
      rfl
  obtain ⟨t', insert, index', same, _, so', _⟩ := insertRows_sound so wide
  refine ⟨t', index', _, .batch (.start re so.indexs) wide insert so'.indexs, ?_, ?_⟩
  · rw [same]
    exact phy
  · intro x
    have empty : t.records = ∅ := by
      rw [Table.records, (fillCreate_rowless made).1.rows]
      exact Set.eq_empty_of_forall_notMem fun x mem => List.not_mem_nil mem
    rw [empty, Set.empty_union]
    rfl

/-- Of two codes whose hashes differ every key stays. -/
theorem twoCodes_represented : ∃ t index seen, Merging Store.hashCombine t index seen ∧
    Displaces Store.hashCombine (index.SameHash Store.hashCombine) t index seen ∧
    ∀ x ∈ (twoCodes "ofn78taUee5" "ZxvFF6lHHn1").map Row.record, ∃ y ∈ t.records, index.SameKey y x := by
  obtain ⟨t, index, seen, run, phy, rows⟩ := twoCodes_merging "ofn78taUee5" "ZxvFF6lHHn1"
  obtain ⟨hashes, keys⟩ := displaced_by_hash run
  refine ⟨t, index, seen, run, hashes, ?_⟩
  have sep : Separates Store.hashCombine index.hashPhy seen := by
    rw [phy]
    intro x hx y hy
    have apart : ∀ x ∈ (twoCodes "ofn78taUee5" "ZxvFF6lHHn1").map Row.record,
        ∀ y ∈ (twoCodes "ofn78taUee5" "ZxvFF6lHHn1").map Row.record,
        hashOf Store.hashCombine [0] x.data = hashOf Store.hashCombine [0] y.data →
          keyCells [0] x.data = keyCells [0] y.data := by
      decide +kernel
    exact apart x ((rows x).mp hx) y ((rows y).mp hy)
  intro x hx
  exact (keys sep).2 x ((rows x).mpr hx)

/-- The hash of the program does not tell these two keys apart: one of the rows is deleted. -/
theorem keys_displaced : ¬ ∀ (hashCombine : UInt64 → Str → UInt64) (t : Table) (index : UniqueIndex)
    (seen : Set Record), Merging hashCombine t index seen → Displaces hashCombine index.SameKey t index seen := by
  intro claim
  obtain ⟨t, index, seen, run, phy, rows⟩ := twoCodes_merging "ofn78taUee5" "ZxvFF6lHHn0"
  have represented := (claim _ t index seen run).represented
  obtain ⟨u, so, rep⟩ := run.represents
  have one : Row.record (.new ["ofn78taUee5".toList, "5".toList] 0 0) ∈ seen := (rows _).mpr List.mem_cons_self
  have two : Row.record (.new ["ZxvFF6lHHn0".toList, "6".toList] 0 1) ∈ seen :=
    (rows _).mpr (List.mem_cons_of_mem _ List.mem_cons_self)
  obtain ⟨x, hx, same⟩ := represented _ one
  obtain ⟨y, hy, same'⟩ := represented _ two
  rw [UniqueIndex.SameKey, phy] at same same'
  -- their keys have one hash, so they are in one slot
  have meet : slotKey Store.hashCombine index.cols x = slotKey Store.hashCombine index.cols y := by
    rw [← so.well.phy, phy, slotKey, slotKey, hashOf, hashOf, same, same']
    decide +kernel
  obtain ⟨i, at_i⟩ := List.mem_iff_getElem?.mp (show some x ∈ slots t.rows t.rowHeap from hx)
  obtain ⟨j, at_j⟩ := List.mem_iff_getElem?.mp (show some y ∈ slots t.rows t.rowHeap from hy)
  obtain rfl := rep.unique i j x y at_i at_j meet
  rw [at_i] at at_j
  cases at_j
  rw [same] at same'
  exact absurd same' (by decide)

end TdsqlMerge.Store
