import TdsqlMerge.Store.Hash
import TdsqlMerge.Store.Invariant

/-!
# Rebuilding an index

`UniqueIndex::reCompute` walks over the rows while it moves and removes them. `reCompute_regroups` says
what is left: each group of rows with equal keys is its greatest row, in the slot of the first one.
`reCompute_unique` is the case of keys that are distinct already, in which no row moves: this is why the
operations that rebuild an index over more columns lose nothing.
-/

namespace TdsqlMerge.Store
open Lib

/-- The hash tells the keys of these rows apart. -/
def Separates (hashCombine : UInt64 → Str → UInt64) (phy : List Nat) (S : Set Record) : Prop :=
  ∀ x ∈ S, ∀ y ∈ S, hashOf hashCombine phy x.data = hashOf hashCombine phy y.data →
    keyCells phy x.data = keyCells phy y.data

/-- The rows of a table. -/
def Table.records (t : Table) : Set Record := contents (slots t.rows t.rowHeap)

section
variable {hashCombine : UInt64 → Str → UInt64} {t t' : Table} {u : Nat} {index : UniqueIndex}
  {i : Nat} {p : RowPtr} {r : Row}

/-! ### Live rows and slots -/

/-- A live row is in its slot. -/
lemma Table.Live.slot (live : t.Live i p r) : (slots t.rows t.rowHeap)[i]? = some (some r.record) := by
  rw [slots_getElem?, live.1, Option.map_some, slotVal_some live.2]

/-- Behind a slot with a record is a live row. -/
lemma exists_live {x : Record} (at_i : (slots t.rows t.rowHeap)[i]? = some (some x)) :
    ∃ p r, t.Live i p r ∧ r.record = x := by
  obtain ⟨p, r, row_i, hr, e⟩ := slots_eq_some at_i
  exact ⟨p, r, ⟨row_i, hr⟩, e⟩

/-- The record of a live row is one of the table. -/
lemma Table.Live.record_mem (live : t.Live i p r) : r.record ∈ t.records :=
  List.mem_of_getElem? live.slot

/-- Every record of the table is that of a live row. -/
lemma mem_records {x : Record} (mem : x ∈ t.records) : ∃ i p r, t.Live i p r ∧ r.record = x := by
  obtain ⟨i, at_i⟩ := List.mem_iff_getElem?.mp (show some x ∈ slots t.rows t.rowHeap from mem)
  obtain ⟨p, r, live, e⟩ := exists_live at_i
  exact ⟨i, p, r, live, e⟩

/-- A pointer in a slot points to a live row. -/
lemma Slotted.live (sl : Slotted t.colPhy t.rows t.rowHeap) (at_i : t.rows[i]? = some (some p)) :
    ∃ r, t.Live i p r ∧ r.idxInsideTable = i := by
  obtain ⟨r, hr, ei, _⟩ := sl i p at_i
  exact ⟨r, ⟨at_i, hr⟩, ei⟩

/-- Keys that are told apart are hashes that are told apart. -/
lemma Separates.key_iff {phy : List Nat} {S : Set Record} {x y : Record} (sep : Separates hashCombine phy S)
    (hx : x ∈ S) (hy : y ∈ S) :
    slotKey hashCombine phy x = slotKey hashCombine phy y ↔ keyCells phy x.data = keyCells phy y.data := by
  constructor
  · exact sep x hx y hy
  · intro e
    rw [slotKey, slotKey, hashOf, hashOf, e]

/-! ### Distinct keys -/

/-- The hash of an index is determined by the rows it files. -/
lemma Filed.hash_eq {index' : UniqueIndex} {n : Nat} {rows : List (Option RowPtr)}
    {heap : List (Option Row)} (fl : Filed hashCombine index n rows heap)
    (fl' : Filed hashCombine index' n rows heap) (phy : index'.hashPhy = index.hashPhy) :
    index'.hash = index.hash := by
  funext h
  cases hit : index.hash h with
  | some p =>
    obtain ⟨i, r, lt, at_i, hr, e⟩ := fl.sound h p hit
    rw [← e, ← phy]
    exact fl'.complete i p r lt at_i hr
  | none =>
    cases hit' : index'.hash h with
    | none => rfl
    | some p =>
      obtain ⟨i, r, lt, at_i, hr, e⟩ := fl'.sound h p hit'
      have filed := fl.complete i p r lt at_i hr
      rw [← phy, e, hit] at filed
      cases filed

/-- One iteration of `reCompute` over rows with distinct keys. -/
lemma reComputeAt_unique {s : UniqueIndex × Table} (rg : Ranged index t.colPhy) (up : UpdAt t u)
    (sl : Slotted t.colPhy t.rows t.rowHeap)
    (uniq : Unique (slotKey hashCombine index.hashPhy) (slots t.rows t.rowHeap)) (lt : i < t.rows.length)
    (inv : s.2 = t ∧ s.1 = { index with hash := s.1.hash } ∧ Filed hashCombine s.1 i t.rows t.rowHeap) :
    Yields (UniqueIndex.reComputeAt hashCombine s i) fun s => s.2 = t ∧
      s.1 = { index with hash := s.1.hash } ∧ Filed hashCombine s.1 (i + 1) t.rows t.rowHeap := by
  obtain ⟨ix, tb⟩ := s
  obtain ⟨same, ei, fl⟩ := inv
  simp only at same ei fl
  subst same
  have phy : ix.hashPhy = index.hashPhy := by rw [ei]
  have rg' : Ranged ix tb.colPhy := by
    rw [ei]
    exact ⟨rg.len, rg.lt⟩
  cases at_i : tb.rows[i]? with
  | none =>
    rw [List.getElem?_eq_none_iff] at at_i
    omega
  | some slot =>
    cases slot with
    | none =>
      refine ⟨(ix, tb), ?_, rfl, ei, fl.succ (by simp [at_i])⟩
      simp [UniqueIndex.reComputeAt, at_i]
    | some p =>
      obtain ⟨r, hp, _, wd⟩ := sl i p at_i
      rcases checkRow_spec rg' up sl fl hp wd with ⟨new, run⟩ | ⟨j, q, o, ltj, at_j, ho, eh, _⟩
      · refine ⟨(fileUnder ix (hashOf hashCombine ix.hashPhy r.data) p, tb), ?_, rfl, ?_,
          fl.file at_i hp new⟩
        · simp [UniqueIndex.reComputeAt, at_i, run, UniqueIndex.updateRow, Table.row, hp,
            getHashOfRow_eq rg' wd, fileUnder]
        · rw [fileUnder, ei]
      · -- two slots would have the same key
        have live : tb.Live i p r := ⟨at_i, hp⟩
        have live' : tb.Live j q o := ⟨at_j, ho⟩
        rw [phy] at eh
        have same := uniq j i o.record r.record live'.slot live.slot eh
        omega

/-- `reCompute` leaves rows with distinct keys alone and files them. -/
lemma reCompute_unique (rg : Ranged index t.colPhy) (up : UpdAt t u)
    (sl : Slotted t.colPhy t.rows t.rowHeap)
    (uniq : Unique (slotKey hashCombine index.hashPhy) (slots t.rows t.rowHeap)) :
    Yields (index.reCompute hashCombine t) fun s => s.2 = t ∧ s.1 = { index with hash := s.1.hash } ∧
      Filed hashCombine s.1 t.rows.length t.rows t.rowHeap := by
  refine Yields.range_foldlM (fun i (s : UniqueIndex × Table) => s.2 = t ∧
    s.1 = { index with hash := s.1.hash } ∧ Filed hashCombine s.1 i t.rows t.rowHeap)
    (fun i lt s inv => reComputeAt_unique rg up sl uniq lt inv) ?_
  refine ⟨rfl, rfl, ?_, ?_⟩
  · intro h p hit
    cases hit
  · intro i p r lt
    omega

/-- `reCompute` changes nothing if the index files the rows already. -/
lemma reCompute_filed (fi : Filing hashCombine index t) (up : UpdAt t u) :
    index.reCompute hashCombine t = .ok (index, t) := by
  have uniq := fi.filed.unique fi.slotted
  rw [List.take_of_length_le (by rw [slots_length])] at uniq
  obtain ⟨⟨ix, tb⟩, run, same, ei, fl⟩ := reCompute_unique fi.ranged up fi.slotted uniq
  simp only at same ei fl
  have phy : ix.hashPhy = index.hashPhy := by rw [ei]
  rw [run, same, ei, fi.filed.hash_eq fl phy]

/-! ### Groups of rows -/

/-- No other row of the same key is in an earlier slot. -/
def Table.First (t : Table) (phy : List Nat) (i : Nat) (r : Row) : Prop :=
  ∀ j q s, j < i → t.Live j q s → keyCells phy s.data ≠ keyCells phy r.data

/-- The rows of `t'` are the greatest rows of the groups of `t`, each in the slot of the first row of its
    group. -/
structure Regrouped (phy : List Nat) (u : Nat) (t t' : Table) : Prop where
  length : t'.rows.length = t.rows.length
  backPointer : ∀ i p, t'.rows[i]? = some (some p) → ∃ w, t'.Live i p w ∧ w.idxInsideTable = i
  greatest : ∀ i p r, t.Live i p r → t.First phy i r → ∃ q w, t'.Live i q w ∧
    (∃ k w₀, t.Live k q w₀ ∧ w₀.record = w.record ∧ keyCells phy w₀.data = keyCells phy r.data) ∧
    ∀ j x s, t.Live j x s → keyCells phy s.data = keyCells phy r.data → x ≠ q →
      s.record.rank u < w.record.rank u
  others : ∀ i < t.rows.length, (∀ p r, t.Live i p r → ¬ t.First phy i r) → t'.rows[i]? = some none

/-- The first row of a group, by its key and by the hash of its key. -/
lemma first_iff_leads (sep : Separates hashCombine index.hashPhy t.records) (live : t.Live i p r) :
    t.First index.hashPhy i r ↔
      Leads (slotKey hashCombine index.hashPhy) (slots t.rows t.rowHeap) i r.record := by
  constructor
  · intro first
    refine ⟨live.slot, ?_⟩
    intro j x lt at_j same
    obtain ⟨q, s, live', rfl⟩ := exists_live at_j
    exact first j q s lt live' ((sep.key_iff live'.record_mem live.record_mem).mp same)
  · intro lead j q s lt live' same
    exact lead.first j s.record lt live'.slot ((sep.key_iff live'.record_mem live.record_mem).mpr same)

/-- What the slots of a rebuilt table are. -/
lemma regrouped_of_rebuild (sep : Separates hashCombine index.hashPhy t.records)
    (apart : ∀ i j p q r s, t.Live i p r → t.Live j q s → r.source = s.source → r.stamp = s.stamp → i = j)
    (mg : Merged [] t t') (sl : Slotted t'.colPhy t'.rows t'.rowHeap)
    (es : slots t'.rows t'.rowHeap =
      rebuild (slotKey hashCombine index.hashPhy) (Record.rank u) (slots t.rows t.rowHeap)) :
    Regrouped index.hashPhy u t t' := by
  have place : InPlace (slotKey hashCombine index.hashPhy) (slots t.rows t.rowHeap)
      (slots t'.rows t'.rowHeap) := es ▸ rebuild_inPlace
  have rep : Represents (slotKey hashCombine index.hashPhy) (Record.rank u) t.records
      (slots t'.rows t'.rowHeap) := es ▸ represents_rebuild
  have length : t'.rows.length = t.rows.length := by
    have := place.length
    rwa [slots_length, slots_length] at this
  refine ⟨length, fun i p at_i => sl.live at_i, ?_, ?_⟩
  · intro i p r live first
    obtain ⟨x, at_i, ex⟩ := place.kept i _ ((first_iff_leads sep live).mp first)
    obtain ⟨q, w, live', rfl⟩ := exists_live at_i
    -- the row in the slot is a row of the old table
    obtain ⟨w₀, hw₀, e⟩ := mg.value q w live'.2
    have old : some q ∈ t.rows := (mg.mem q (List.mem_of_getElem? live'.1)).resolve_right List.not_mem_nil
    obtain ⟨k, at_k⟩ := List.mem_iff_getElem?.mp old
    have live₀ : t.Live k q w₀ := ⟨at_k, hw₀⟩
    have key : slotKey hashCombine index.hashPhy w₀.record = slotKey hashCombine index.hashPhy r.record := by
      rw [← e, ex]
    refine ⟨q, w, live', ⟨k, w₀, live₀, e.symm, (sep.key_iff live₀.record_mem live.record_mem).mp key⟩, ?_⟩
    intro j y s liveS same ne
    have kept := rep.newest w.record (List.mem_of_getElem? live'.slot)
    have hash : slotKey hashCombine index.hashPhy s.record = slotKey hashCombine index.hashPhy w.record :=
      ((sep.key_iff liveS.record_mem live.record_mem).mpr same).trans ex.symm
    apply lt_of_le_of_ne (kept.2 s.record liveS.record_mem hash)
    intro rank
    have lex := toLex_inj.mp rank
    rw [Prod.mk.injEq, toLex_inj, Prod.mk.injEq] at lex
    obtain ⟨_, source, stamp⟩ := lex
    rw [e] at source stamp
    have slot := apart j k y q s w₀ liveS live₀ source stamp
    rw [slot] at liveS
    exact ne (Option.some.inj (Option.some.inj (liveS.1.symm.trans live₀.1)))
  · intro i lt no
    have lt' : i < t'.rows.length := by rw [length]; exact lt
    cases at_i : t'.rows[i]? with
    | none =>
      rw [List.getElem?_eq_none_iff] at at_i
      omega
    | some slot =>
      cases slot with
      | none => rfl
      | some q =>
        obtain ⟨w, live', _⟩ := sl.live at_i
        obtain ⟨x, lead, _⟩ := place.only i _ live'.slot
        obtain ⟨p, r, live, rfl⟩ := exists_live lead.here
        exact absurd ((first_iff_leads sep live).mpr lead) (no p r live)

/-- `reCompute` keeps the greatest row of each group of rows with equal keys, in the slot of the first row
    of the group, and empties the other slots; a second `reCompute` changes nothing. -/
theorem reCompute_regroups (rg : Ranged index t.colPhy) (up : UpdAt t u)
    (sl : Slotted t.colPhy t.rows t.rowHeap)
    (apart : ∀ i j p q r s, t.Live i p r → t.Live j q s → r.source = s.source → r.stamp = s.stamp → i = j)
    (sep : Separates hashCombine index.hashPhy t.records) :
    ∃ index' t', index.reCompute hashCombine t = .ok (index', t') ∧ Regrouped index.hashPhy u t t' ∧
      index'.reCompute hashCombine t' = .ok (index', t') := by
  obtain ⟨⟨index', t'⟩, run, ei, ef, mg, fi, es⟩ := @reCompute_spec hashCombine _ _ _ rg up sl
  simp only at ei ef mg fi es
  refine ⟨index', t', run, regrouped_of_rebuild sep apart mg fi.slotted es, ?_⟩
  apply reCompute_filed fi (u := u)
  rw [ef]
  exact up

end

/-! ### Three rows, two of them with the same key -/

/-- A row `(id, updated_at)`. -/
def keyedRow (id upd : String) (source stamp i : Nat) : Row :=
  { data := [id.toList, upd.toList], source, stamp, idxInsideTable := i }

/-- A table `(id, updated_at)` whose first and last row have the same `id`. -/
def threeRows : Table where
  colPhy := 2
  colDes := [0, 1]
  updCol := some 1
  nameToColDes := fun _ => none
  rows := [some 0, some 1, some 2]
  indexs := []
  colHeap := [{ name := "id".toList, type := "int".toList, mapping := 0, defStr := none },
    { name := updatedAt, type := "int".toList, mapping := 1, defStr := none }]
  rowHeap := [some (keyedRow "1" "5" 0 0 0), some (keyedRow "2" "5" 0 1 1), some (keyedRow "1" "7" 1 0 2)]

/-- An index over `id` before its `reCompute`. -/
def idIndex : UniqueIndex where
  name := []
  cols := [0]
  hash := fun _ => none
  hashPhy := [0]
  isPrimary := true
  isTemp := false

/-- The live rows of `threeRows`. -/
lemma threeRows_live {i : Nat} {p : RowPtr} {r : Row} (live : threeRows.Live i p r) :
    i = 0 ∧ r = keyedRow "1" "5" 0 0 0 ∨ i = 1 ∧ r = keyedRow "2" "5" 0 1 1 ∨
      i = 2 ∧ r = keyedRow "1" "7" 1 0 2 := by
  obtain ⟨at_i, hp⟩ := live
  match i with
  | 0 =>
    cases at_i
    cases hp
    exact .inl ⟨rfl, rfl⟩
  | 1 =>
    cases at_i
    cases hp
    exact .inr (.inl ⟨rfl, rfl⟩)
  | 2 =>
    cases at_i
    cases hp
    exact .inr (.inr ⟨rfl, rfl⟩)
  | i + 3 => cases at_i

/-- `reCompute` regroups three rows under `id`, once and for all. -/
theorem threeRows_regroups :
    ∃ index' t', idIndex.reCompute hashCombine threeRows = .ok (index', t') ∧
      Regrouped [0] 1 threeRows t' ∧ index'.reCompute hashCombine t' = .ok (index', t') := by
  have up : UpdAt threeRows 1 := ⟨1, _, rfl, rfl, rfl, by decide⟩
  have rg : Ranged idIndex threeRows.colPhy := ⟨rfl, by decide⟩
  have sl : Slotted threeRows.colPhy threeRows.rows threeRows.rowHeap := by
    intro i p at_i
    match i with
    | 0 | 1 | 2 =>
      cases at_i
      exact ⟨_, rfl, rfl, rfl⟩
    | i + 3 => cases at_i
  refine reCompute_regroups rg up sl ?_ ?_
  · intro i j p q r s live live' source stamp
    rcases threeRows_live live with ⟨rfl, rfl⟩ | ⟨rfl, rfl⟩ | ⟨rfl, rfl⟩ <;>
      rcases threeRows_live live' with ⟨rfl, rfl⟩ | ⟨rfl, rfl⟩ | ⟨rfl, rfl⟩ <;>
      first | rfl | exact absurd source (by decide) | exact absurd stamp (by decide)
  · intro x hx y hy
    obtain ⟨i, p, r, live, rfl⟩ := mem_records hx
    obtain ⟨j, q, s, live', rfl⟩ := mem_records hy
    rcases threeRows_live live with ⟨rfl, rfl⟩ | ⟨rfl, rfl⟩ | ⟨rfl, rfl⟩ <;>
      rcases threeRows_live live' with ⟨rfl, rfl⟩ | ⟨rfl, rfl⟩ | ⟨rfl, rfl⟩ <;>
      decide +kernel

end TdsqlMerge.Store
