import TdsqlMerge.Store.Batch
import TdsqlMerge.Store.Hash

/-!
# Integrity of the merge store

`Reachable` collects the tables that a CREATE with at most one key, ALTER statements that return
normally and batches of fresh rows can produce. Every such table has exactly one index, and its rows,
back-pointers and hash agree (`reachable_sound`); `reachable_integrity` spells this out in terms of
`table.cpp`.
-/

namespace TdsqlMerge.Store
open Lib

section
variable (hashCombine : UInt64 → Str → UInt64)

/-- The tables a CREATE with `updated_at` and at most one key, ALTER statements and batches of fresh rows
    lead to. -/
inductive Reachable : Table → Prop where
  | create {cols indexs t} :
    Table.new.fillCreate hashCombine cols indexs = .ok t →
    indexs.length ≤ 1 →
    (∃ col ∈ cols, col.name = updatedAt) →
    Reachable t
  | alter {t t'} {statement : Statement} :
    Reachable t →
    statement.isAlter = true →
    statement.fillToTable hashCombine t = .ok t' →
    Reachable t'
  | insert {t t'} {rs : List Row} :
    Reachable t →
    (∀ r ∈ rs, r.data.length = t.colPhy) →
    (t.alloc rs).insertRows hashCombine (t.fresh rs) = .ok t' →
    Reachable t'

variable {hashCombine}

/-- CREATE with `updated_at` and at most one key establishes the invariant. -/
lemma fillCreate_sound {t : Table} {cols : List ColumnStatement} {indexs : List IndexStatement}
    (run : Table.new.fillCreate hashCombine cols indexs = .ok t) (le : indexs.length ≤ 1)
    (has : ∃ col ∈ cols, col.name = updatedAt) :
    ∃ u index, Sound hashCombine t u index := by
  obtain ⟨rl, ca, len⟩ := fillCreate_rowless run
  obtain ⟨i, col, _, _, upd, _⟩ := ca.upd has
  have one : t.indexs.length = 1 := by omega
  obtain ⟨index, e⟩ := List.length_eq_one_iff.mp one
  exact ⟨_, index, rl.sound e upd⟩

/-- Every reachable table satisfies the invariant. -/
lemma reachable_sound {t : Table} (re : Reachable hashCombine t) :
    ∃ u index, Sound hashCombine t u index := by
  induction re with
  | create run le has => exact fillCreate_sound run le has
  | alter _ alter run ih =>
    obtain ⟨u, index, so⟩ := ih
    exact fillToTable_sound so alter run
  | insert _ wide run ih =>
    obtain ⟨u, index, so⟩ := ih
    obtain ⟨index', _, _, so', _⟩ := (insertRows_sound so wide).of_ok run
    exact ⟨u, index', so'⟩

variable {t : Table} {u : ColPtr} {index : UniqueIndex}

/-- The hash of a live row is computed. -/
lemma Sound.getHashOfRow {i : Nat} {p : RowPtr} {r : Row} (so : Sound hashCombine t u index)
    (live : t.Live i p r) :
    index.getHashOfRow hashCombine r = .ok (hashOf hashCombine index.hashPhy r.data) := by
  obtain ⟨r', hr', _, wd⟩ := so.well.slotted i p live.1
  have e : r' = r := by
    have := live.2
    rw [Table.row?_eq, hr'] at this
    exact Option.some.inj this
  subst e
  exact getHashOfRow_eq so.well.filing.ranged wd

/-- The hash files exactly the live rows, each under its own key hash. -/
lemma Sound.hash_iff {h : UInt64} {p : RowPtr} (so : Sound hashCombine t u index) :
    index.hash h = some p ↔
      ∃ i r, t.Live i p r ∧ index.getHashOfRow hashCombine r = .ok h := by
  constructor
  · intro hit
    obtain ⟨i, r, _, at_i, hr, e⟩ := so.well.filed.sound h p hit
    refine ⟨i, r, ⟨at_i, hr⟩, ?_⟩
    rw [so.getHashOfRow ⟨at_i, hr⟩, e]
  · rintro ⟨i, r, live, e⟩
    rw [so.getHashOfRow live] at e
    cases e
    exact so.well.filed.complete i p r (List.getElem?_eq_some_iff.mp live.1).1 live.1 live.2

/-- The rows of a table satisfying the invariant have distinct keys. -/
lemma Sound.unique (so : Sound hashCombine t u index) :
    Unique (slotKey hashCombine index.cols) (slots t.rows t.rowHeap) := by
  have uniq := so.well.filed.unique so.well.slotted
  rwa [List.take_of_length_le (by rw [slots_length]), so.well.phy] at uniq

/-- Live rows that agree on the key columns are the same row. -/
lemma Sound.key_unique {i j : Nat} {p q : RowPtr} {r s : Row} (so : Sound hashCombine t u index)
    (live : t.Live i p r) (live' : t.Live j q s)
    (agree : ∀ phy ∈ index.hashPhy, r.data[phy]? = s.data[phy]?) : i = j := by
  have cells : keyCells index.hashPhy r.data = keyCells index.hashPhy s.data := by
    apply List.map_congr_left
    intro phy mem
    rw [List.getD_eq_getElem?_getD, List.getD_eq_getElem?_getD, agree phy mem]
  have filed : index.hash (hashOf hashCombine index.hashPhy r.data) = some p :=
    so.hash_iff.mpr ⟨i, r, live, so.getHashOfRow live⟩
  have filed' : index.hash (hashOf hashCombine index.hashPhy s.data) = some q :=
    so.hash_iff.mpr ⟨j, s, live', so.getHashOfRow live'⟩
  rw [hashOf, cells, ← hashOf, filed'] at filed
  cases filed
  exact so.well.slotted.inj live.1 live'.1

/-- `hashPhy` lists the mappings of the index's columns. -/
lemma Sound.hashPhy_mappings (so : Sound hashCombine t u index) :
    List.Forall₂ (fun c phy => ∃ d, t.colHeap[c]? = some d ∧ d.mapping = phy) index.cols
      index.hashPhy := by
  rw [so.well.phy, List.forall₂_same]
  intro c mem
  exact so.layout.col (so.well.cols_lt c mem)

variable (hashCombine) in
/-- The representation invariant of a table and its index, in terms of `table.cpp`. -/
structure Integrity (t : Table) (index : UniqueIndex) : Prop where
  indexs : t.indexs = [index]
  insertRows : ∀ rs : List Row, (∀ r ∈ rs, r.data.length = t.colPhy) →
    ∃ t', (t.alloc rs).insertRows hashCombine (t.fresh rs) = .ok t'
  backPointer : ∀ (i : Nat) (p : RowPtr), t.rows[i]? = some (some p) →
    ∃ r, t.Live i p r ∧ r.idxInsideTable = i
  oneSlot : ∀ (i j : Nat) (p : RowPtr),
    t.rows[i]? = some (some p) → t.rows[j]? = some (some p) → i = j
  filed : ∀ h p, index.hash h = some p ↔
    ∃ i r, t.Live i p r ∧ index.getHashOfRow hashCombine r = .ok h
  oneEntry : ∀ i p r, t.Live i p r → ∃! h, index.hash h = some p
  hashPhy : List.Forall₂ (fun c phy => ∃ d, t.colHeap[c]? = some d ∧ d.mapping = phy) index.cols
    index.hashPhy
  oneKey : ∀ i j p q r s, t.Live i p r → t.Live j q s →
    (∀ phy ∈ index.hashPhy, r.data[phy]? = s.data[phy]?) → i = j

/-- A reachable table has exactly one index, merging further rows does not fail, back-pointers are right,
    and the hash of the index files each live row once, under its key hash, and nothing else; so no two
    live rows agree on the key columns. -/
theorem reachable_integrity (re : Reachable hashCombine t) :
    ∃ index, Integrity hashCombine t index := by
  obtain ⟨u, index, so⟩ := reachable_sound re
  refine ⟨index, so.indexs, ?_, ?_, ?_, ?_, ?_, so.hashPhy_mappings, ?_⟩
  · intro rs wide
    obtain ⟨t', run, _⟩ := insertRows_sound so wide
    exact ⟨t', run⟩
  · intro i p at_i
    obtain ⟨r, hr, ei, _⟩ := so.well.slotted i p at_i
    exact ⟨r, ⟨at_i, hr⟩, ei⟩
  · intro i j p at_i at_j
    exact so.well.slotted.inj at_i at_j
  · intro h p
    exact so.hash_iff
  · intro i p r live
    refine ⟨_, so.hash_iff.mpr ⟨i, r, live, so.getHashOfRow live⟩, ?_⟩
    intro h hit
    obtain ⟨j, s, live', e⟩ := so.hash_iff.mp hit
    -- the pointer occupies one slot, so it is the same row
    have same : s = r := Option.some.inj (live'.2.symm.trans live.2)
    rw [same, so.getHashOfRow live] at e
    cases e
    rfl
  · intro i j p q r s live live' agree
    exact so.key_unique live live' agree

/-- A table `(id, updated_at)` with key `id`, three rows of which two have the same key, and the loss of the
    key column. -/
def integrityRun : Res Table := do
  let t ← Table.new.fillCreate Store.hashCombine
    [{ name := "id".toList, type := "int".toList, isNotNull := true, defaultStr := none },
      { name := updatedAt, type := "datetime".toList, isNotNull := true, defaultStr := none }]
    [{ name := [], isPrimaryKey := true, keys := ["id".toList] }]
  let rs : List Row := [.new ["1".toList, "5".toList] 0 0, .new ["2".toList, "5".toList] 0 1,
    .new ["1".toList, "7".toList] 1 0]
  let t ← (t.alloc rs).insertRows Store.hashCombine (t.fresh rs)
  Statement.fillToTable Store.hashCombine t (.dropCol "id".toList)

/-- The table of the integrity run has integrity. -/
theorem integrityRun_integrity :
    ∃ t index, integrityRun = .ok t ∧ Integrity Store.hashCombine t index := by
  obtain ⟨t, run⟩ := ok_of_isOk (show integrityRun.isOk = true by decide +kernel)
  have re : Reachable Store.hashCombine t := by
    have steps := run
    simp only [integrityRun, bind_ok] at steps
    obtain ⟨t1, create, t2, insert, drop⟩ := steps
    have wide : t1.colPhy = 2 := (fillCreate_rowless create).2.1.colPhy
    refine .alter (.insert (.create create (by decide) ⟨_, .tail _ (.head _), rfl⟩) ?_ insert) rfl drop
    rw [wide]
    decide
  obtain ⟨index, integrity⟩ := reachable_integrity re
  exact ⟨t, index, run, integrity⟩

end

end TdsqlMerge.Store
