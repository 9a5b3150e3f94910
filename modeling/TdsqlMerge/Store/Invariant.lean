import TdsqlMerge.Store.Slots
import TdsqlMerge.Store.Statement

/-!
# The invariant of the merge store

`Layout` is the part of the invariant about columns: every descriptor is mapped to the physical column
that its position on the heap names, so distinct columns have distinct slots in a row. `WellIndexed`
ties an index to the rows. `Sound` is the invariant between the operations of a table with one index.

Every operation of `Store/Table.lean` and `Store/Statement.lean` has one lemma here that says, for a
table satisfying the invariant, what the operation did if it returned; the lemmas about index
construction also say that it returns. The theorems of the other `Store` modules use these lemmas and
never unfold an operation.
-/

namespace TdsqlMerge.Store
open Lib

/-- The columns of a table: descriptor `c` is mapped to physical column `c`. -/
structure Layout (t : Table) : Prop where
  heap_length : t.colHeap.length = t.colPhy
  mapping : ∀ (c : ColPtr) (d : ColumnDescriptor), t.colHeap[c]? = some d → d.mapping = c
  lt : ∀ c ∈ t.colDes, c < t.colPhy
  nodup : t.colDes.Nodup

/-- A new table has no columns. -/
lemma Layout.new : Layout Table.new where
  heap_length := rfl
  mapping := by intro c d h; simp [Table.new] at h
  lt := by intro c h; cases h
  nodup := .nil

/-- The layout only depends on the columns. -/
lemma Layout.sameCols {t t' : Table} (la : Layout t) (sc : SameCols t t') : Layout t' := by
  rw [sc]
  exact ⟨la.heap_length, la.mapping, la.lt, la.nodup⟩

/-- Every allocated column has a descriptor. -/
lemma Layout.col {t : Table} {c : ColPtr} (la : Layout t) (lt : c < t.colPhy) :
    ∃ d, t.colHeap[c]? = some d ∧ d.mapping = c := by
  have lt' : c < t.colHeap.length := lt_of_lt_of_eq lt la.heap_length.symm
  exact ⟨_, List.getElem?_eq_getElem lt', la.mapping c _ (List.getElem?_eq_getElem lt')⟩

/-- Reading the mappings of allocated columns. -/
lemma Layout.mapM_mapping {t : Table} {cs : List ColPtr} (la : Layout t)
    (lt : ∀ c ∈ cs, c < t.colPhy) :
    (cs.mapM fun c => do
      let d ← t.col c
      .ok d.mapping) = (.ok cs : Res (List Nat)) := by
  induction cs with
  | nil => rfl
  | cons c cs ih =>
    obtain ⟨d, hd, hm⟩ := la.col (lt c List.mem_cons_self)
    rw [List.mapM_cons, ih fun x mem => lt x (List.mem_cons_of_mem c mem)]
    simp [Table.col, hd, hm, pure, Except.pure]

/-- `updated_at` is column `u`. -/
structure UpdCol (t : Table) (u : ColPtr) : Prop where
  col : t.updCol = some u
  lt : u < t.colPhy

/-- Where `updated_at` is a column of the layout, its physical column is known. -/
lemma UpdCol.updAt {t : Table} {u : ColPtr} (uc : UpdCol t u) (la : Layout t) : UpdAt t u := by
  obtain ⟨d, hd, hm⟩ := la.col uc.lt
  exact ⟨u, d, uc.col, hd, hm, uc.lt⟩

/-- Steps that keep the columns keep `updated_at`. -/
lemma UpdCol.sameCols {t t' : Table} {u : ColPtr} (uc : UpdCol t u) (sc : SameCols t t') :
    UpdCol t' u := by
  rw [sc]
  exact ⟨uc.col, uc.lt⟩

section
variable (hashCombine : UInt64 → Str → UInt64)

/-- The index has allocated columns, knows their physical positions and files exactly the rows in the
    slots. -/
structure WellIndexed (index : UniqueIndex) (t : Table) : Prop where
  cols_lt : ∀ c ∈ index.cols, c < t.colPhy
  phy : index.hashPhy = index.cols
  slotted : Slotted t.colPhy t.rows t.rowHeap
  filed : Filed hashCombine index t.rows.length t.rows t.rowHeap

/-- The invariant of a table between operations. -/
structure Sound (t : Table) (u : ColPtr) (index : UniqueIndex) : Prop where
  layout : Layout t
  upd : UpdCol t u
  indexs : t.indexs = [index]
  well : WellIndexed hashCombine index t

/-- `t'` is `t` with its rows merged under an index over `cols`, its only one. -/
structure Reindexed (u : ColPtr) (cols : List ColPtr) (t t' : Table) (index : UniqueIndex) :
    Prop where
  same : SameCols t t'
  merged : Merged [] t t'
  indexs : t'.indexs = [index]
  spans : index.cols = cols
  well : WellIndexed hashCombine index t'
  slots : slots t'.rows t'.rowHeap =
    rebuild (slotKey hashCombine cols) (Record.rank u) (slots t.rows t.rowHeap)

variable {hashCombine} {t t' : Table} {u : ColPtr} {index : UniqueIndex}

/-- The slots of a well-indexed table agree with its index. -/
lemma WellIndexed.filing (wi : WellIndexed hashCombine index t) : Filing hashCombine index t where
  ranged := by
    refine ⟨by rw [wi.phy], ?_⟩
    rw [wi.phy]
    exact wi.cols_lt
  slotted := wi.slotted
  filed := wi.filed

/-- An index that knows its physical columns and agrees with the slots is well. -/
lemma Filing.wellIndexed (fi : Filing hashCombine index t) (phy : index.hashPhy = index.cols) :
    WellIndexed hashCombine index t where
  cols_lt := by
    rw [← phy]
    exact fi.ranged.lt
  phy := phy
  slotted := fi.slotted
  filed := fi.filed

/-- A reindexed table satisfies the invariant. -/
lemma Reindexed.sound {cols : List ColPtr} (re : Reindexed hashCombine u cols t t' index)
    (la : Layout t) (uc : UpdCol t u) : Sound hashCombine t' u index where
  layout := la.sameCols re.same
  upd := uc.sameCols re.same
  indexs := re.indexs
  well := re.well

/-- `setHashPhy` and `reCompute` at the end of the index constructors and of `deleteCol`. -/
lemma buildIndex_spec (la : Layout t) (uc : UpdCol t u) (sl : Slotted t.colPhy t.rows t.rowHeap)
    (lt : ∀ c ∈ index.cols, c < t.colPhy) :
    Yields (do
      let index ← index.setHashPhy t
      index.reCompute hashCombine t) fun s =>
        s.1 = { index with hashPhy := index.cols, hash := s.1.hash } ∧
        s.2 = { t with rows := s.2.rows, rowHeap := s.2.rowHeap } ∧ Merged [] t s.2 ∧
        WellIndexed hashCombine s.1 s.2 ∧
        slots s.2.rows s.2.rowHeap =
          rebuild (slotKey hashCombine index.cols) (Record.rank u) (slots t.rows t.rowHeap) := by
  have phy : index.setHashPhy t = .ok { index with hashPhy := index.cols } := by
    rw [UniqueIndex.setHashPhy, la.mapM_mapping lt]
    rfl
  rw [phy, ok_bind]
  have ranged : Ranged { index with hashPhy := index.cols } t.colPhy := ⟨rfl, lt⟩
  apply Yields.imp (reCompute_spec ranged (uc.updAt la) sl)
  rintro s ⟨ei, ef, mg, fi, es⟩
  refine ⟨ei, ef, mg, fi.wellIndexed ?_, es⟩
  rw [ei]

/-- A temporary index is built iff `updated_at` is a column of the table. -/
lemma temp_mem {s : UniqueIndex × Table} (h : UniqueIndex.temp hashCombine t = .ok s)
    (uc : UpdCol t u) : u ∈ t.colDes := by
  by_contra out
  rw [UniqueIndex.temp, uc.col, deref_some, ok_bind, if_neg out] at h
  cases h

/-- `pushTemp` on a table without index. -/
lemma pushTemp_spec (la : Layout t) (uc : UpdCol t u) (sl : Slotted t.colPhy t.rows t.rowHeap)
    (none : t.indexs = []) (mem : u ∈ t.colDes) :
    Yields (t.pushTemp hashCombine) fun t' => ∃ index,
      Reindexed hashCombine u (t.colDes.erase u) t t' index ∧ index.isTemp = true ∧
      index.isPrimary = false ∧ index.name = "___TEMP_PRIMARY".toList := by
  rw [Table.pushTemp, UniqueIndex.temp, uc.col, deref_some, ok_bind, if_pos mem]
  apply Yields.bind (buildIndex_spec la uc sl fun c h => la.lt c (List.mem_of_mem_erase h))
  rintro ⟨ix, tb⟩ ⟨ei, ef, mg, wi, es⟩
  simp only at ei ef mg wi es
  have no : tb.indexs = [] := by rw [ef, none]
  refine .ok ⟨ix, ⟨?_, ⟨mg.heap_length, mg.mem, mg.value, mg.other⟩, by simp [no], by rw [ei],
    ⟨wi.cols_lt, wi.phy, wi.slotted, wi.filed⟩, es⟩, ?_⟩
  · unfold SameCols
    rw [ef]
  · rw [ei]
    exact ⟨rfl, rfl, rfl⟩

/-- The temporary index is built on a table that still has `updated_at`. -/
lemma pushTemp_mem (h : t.pushTemp hashCombine = .ok t') (uc : UpdCol t u) : u ∈ t.colDes := by
  rw [Table.pushTemp, bind_ok] at h
  obtain ⟨s, run, _⟩ := h
  exact temp_mem run uc

/-- What `pushTemp` did if it returned. -/
lemma pushTemp_ok (la : Layout t) (uc : UpdCol t u) (sl : Slotted t.colPhy t.rows t.rowHeap)
    (none : t.indexs = []) (h : t.pushTemp hashCombine = .ok t') :
    u ∈ t.colDes ∧ ∃ index,
      Reindexed hashCombine u (t.colDes.erase u) t t' index ∧ index.isTemp = true ∧
      index.isPrimary = false ∧ index.name = "___TEMP_PRIMARY".toList := by
  have mem := pushTemp_mem h uc
  exact ⟨mem, (pushTemp_spec la uc sl none mem).of_ok h⟩

/-- Does `dropUniqueIndex` mean this index? -/
def UniqueIndex.isMeant (index : UniqueIndex) (isPrimary isTemp : Bool) (indexName : Str) : Bool :=
  if isPrimary then index.isPrimary
  else if isTemp then index.isTemp
  else decide (index.name = indexName)

/-- What `dropUniqueIndex` did on a table with one index. -/
lemma dropUniqueIndex_ok {isPrimary isTemp : Bool} {indexName : Str}
    (so : Sound hashCombine t u index)
    (h : t.dropUniqueIndex hashCombine isPrimary isTemp indexName = .ok t') :
    index.isMeant isPrimary isTemp indexName = false ∧ t' = t ∨
    index.isMeant isPrimary isTemp indexName = true ∧ u ∈ t.colDes ∧ ∃ index',
      Reindexed hashCombine u (t.colDes.erase u) t t' index' ∧ index'.isTemp = true := by
  rw [Table.dropUniqueIndex, so.indexs] at h
  cases meant : index.isMeant isPrimary isTemp indexName with
  | false =>
    left
    unfold UniqueIndex.isMeant at meant
    rw [List.findIdx?_singleton, meant] at h
    cases h
    exact ⟨rfl, rfl⟩
  | true =>
    right
    unfold UniqueIndex.isMeant at meant
    rw [List.findIdx?_singleton, meant] at h
    obtain ⟨mem, ix, re, temp, _⟩ := pushTemp_ok (t := { t with indexs := [] })
      ⟨so.layout.heap_length, so.layout.mapping, so.layout.lt, so.layout.nodup⟩
      ⟨so.upd.col, so.upd.lt⟩ so.well.slotted rfl h
    refine ⟨rfl, mem, ix, ⟨?_, ⟨re.merged.heap_length, re.merged.mem, re.merged.value,
      re.merged.other⟩, re.indexs, re.spans, re.well, re.slots⟩, temp⟩
    have same := re.same
    unfold SameCols at same ⊢
    rw [same]

/-- A row with one more cell. -/
def Row.grow (cell : Str) (r : Row) : Row := { r with data := r.data ++ [cell] }

/-- A record with one more cell. -/
def Record.grow (cell : Str) (x : Record) : Record := { x with data := x.data ++ [cell] }

/-- `w` is `t` with a cell appended to every row in a slot. -/
structure Widened (cell : Str) (t w : Table) : Prop where
  rows : w.rows = t.rows
  heap_length : w.rowHeap.length = t.rowHeap.length
  row : ∀ p, rowAt w.rowHeap p =
    if some p ∈ t.rows then (rowAt t.rowHeap p).map (Row.grow cell) else rowAt t.rowHeap p

/-- The loop over the rows in `addColumn`. -/
lemma pushCells_spec {cell : Str} {l : List (Option RowPtr)}
    (apart : l.Pairwise fun a b => a = b → a = none)
    (alloc : ∀ p, some p ∈ l → ∃ r, rowAt t.rowHeap p = some r) :
    Yields (l.foldlM (Table.pushCell cell) t) fun t' =>
      t' = { t with rowHeap := t'.rowHeap } ∧ t'.rowHeap.length = t.rowHeap.length ∧
      ∀ p, rowAt t'.rowHeap p =
        if some p ∈ l then (rowAt t.rowHeap p).map (Row.grow cell) else rowAt t.rowHeap p := by
  induction l generalizing t with
  | nil => exact .ok ⟨rfl, rfl, by simp⟩
  | cons slot l ih =>
    obtain ⟨new, rest⟩ := List.pairwise_cons.mp apart
    rw [List.foldlM_cons]
    cases slot with
    | none =>
      rw [Table.pushCell, ok_bind]
      apply Yields.imp (ih rest fun p mem => alloc p (List.mem_cons_of_mem _ mem))
      rintro t' ⟨e, len, row⟩
      refine ⟨e, len, ?_⟩
      intro p
      simp [row p]
    | some q =>
      obtain ⟨r, hr⟩ := alloc q List.mem_cons_self
      -- no row has a second slot, so each gets its cell once
      have notin : some q ∉ l := by
        intro mem
        cases new (some q) mem rfl
      have step : Table.pushCell cell t (some q) =
          .ok { t with rowHeap := t.rowHeap.set q (some (r.grow cell)) } := by
        simp [Table.pushCell, Table.row, hr, Row.grow]
      have ne : ∀ p, some p ∈ l → p ≠ q := by
        rintro p mem rfl
        exact notin mem
      rw [step, ok_bind]
      have alloc' : ∀ p, some p ∈ l →
          ∃ r', rowAt (t.rowHeap.set q (some (r.grow cell))) p = some r' := by
        intro p mem
        rw [rowAt_set hr, if_neg (ne p mem)]
        exact alloc p (List.mem_cons_of_mem _ mem)
      apply Yields.imp (ih (t := { t with rowHeap := t.rowHeap.set q (some (r.grow cell)) }) rest
        alloc')
      rintro t' ⟨e, len, row⟩
      refine ⟨e, by simpa using len, ?_⟩
      intro p
      rw [row p, rowAt_set hr]
      by_cases epq : p = q
      · subst epq
        simp [notin, hr]
      · simp [epq]

/-- No row has two slots. -/
lemma Slotted.apart {width : Nat} {rows : List (Option RowPtr)} {heap : List (Option Row)}
    (sl : Slotted width rows heap) : rows.Pairwise fun a b => a = b → a = none := by
  rw [List.pairwise_iff_getElem]
  intro i j hi hj lt e
  cases at_i : rows[i] with
  | none => rfl
  | some p =>
    have row_i : rows[i]? = some (some p) := by rw [List.getElem?_eq_getElem hi, at_i]
    have row_j : rows[j]? = some (some p) := by rw [List.getElem?_eq_getElem hj, ← e, at_i]
    have := sl.inj row_i row_j
    omega

section
variable {cell : Str} {w : Table} {width : Nat}

/-- The row of a slot gets the cell. -/
lemma Widened.slot {i : Nat} {p : RowPtr} (wi : Widened cell t w) (at_i : t.rows[i]? = some (some p)) :
    rowAt w.rowHeap p = (rowAt t.rowHeap p).map (Row.grow cell) := by
  rw [wi.row p, if_pos (List.mem_of_getElem? at_i)]

/-- Widening the rows keeps every row in its slot. -/
lemma Widened.slotted (wi : Widened cell t w) (sl : Slotted width t.rows t.rowHeap) :
    Slotted (width + 1) w.rows w.rowHeap := by
  intro i p at_i
  rw [wi.rows] at at_i
  obtain ⟨r, hr, ei, wd⟩ := sl i p at_i
  refine ⟨r.grow cell, ?_, ei, ?_⟩
  · rw [wi.slot at_i, hr]
    rfl
  · simp [Row.grow, wd]

/-- The slots once the rows are widened. -/
lemma Widened.slots (wi : Widened cell t w) :
    slots w.rows w.rowHeap = (slots t.rows t.rowHeap).map (Option.map (Record.grow cell)) := by
  rw [Store.slots, Store.slots, wi.rows, List.map_map]
  apply List.map_congr_left
  intro slot mem
  cases slot with
  | none => rfl
  | some p =>
    simp only [slotVal, Option.bind_some, Function.comp_apply]
    rw [wi.row p, if_pos mem]
    cases rowAt t.rowHeap p <;> rfl

/-- An appended cell is no key cell. -/
lemma keyCells_append {phy : List Nat} {data : List Str} (lt : ∀ p ∈ phy, p < data.length) :
    keyCells phy (data ++ [cell]) = keyCells phy data := by
  apply List.map_congr_left
  intro p mem
  exact List.getD_append _ _ _ _ (lt p mem)

/-- A cell at the end does not change the hash of the columns before it. -/
lemma hashOf_append {phy : List Nat} {data : List Str} (lt : ∀ p ∈ phy, p < data.length) :
    hashOf hashCombine phy (data ++ [cell]) = hashOf hashCombine phy data := by
  rw [hashOf, keyCells_append lt, hashOf]

/-- Widening the rows keeps them filed. -/
lemma Widened.filed {n : Nat} (wi : Widened cell t w) (sl : Slotted width t.rows t.rowHeap)
    (lt : ∀ p ∈ index.hashPhy, p < width) (fl : Filed hashCombine index n t.rows t.rowHeap) :
    Filed hashCombine index n w.rows w.rowHeap where
  sound := by
    intro h p hit
    obtain ⟨i, r, lti, at_i, hr, e⟩ := fl.sound h p hit
    obtain ⟨r', hr', _, wd⟩ := sl i p at_i
    rw [hr] at hr'
    cases hr'
    refine ⟨i, r.grow cell, lti, by rw [wi.rows, at_i], by rw [wi.slot at_i, hr]; rfl, ?_⟩
    rw [← e, Row.grow, hashOf_append (by rwa [wd])]
  complete := by
    intro i p r' lti at_i hr'
    rw [wi.rows] at at_i
    rw [wi.slot at_i] at hr'
    obtain ⟨r, hr, _, wd⟩ := sl i p at_i
    rw [hr] at hr'
    cases hr'
    rw [Row.grow, hashOf_append (by rwa [wd])]
    exact fl.complete i p r lti at_i hr

end

end

end TdsqlMerge.Store
