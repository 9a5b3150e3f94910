import Mathlib.Data.Set.Image
import TdsqlMerge.Store.Lossless
import TdsqlMerge.Store.TempIndex

/-!
# ADDCOL between two copies of a row

A row may be inserted before an ADDCOL, which appends a cell to it, or after it, with a cell of its own.
`insert_addColumn` says when the two orders leave the same rows: the cells are the same, or the row is lost
in both orders, which a temporary index never allows. `copy_merges` is about both copies of the row: the
second is merged with the first if and only if the cells are the same.
-/

namespace TdsqlMerge.Store
open Lib

section
variable (hashCombine : UInt64 → Str → UInt64)

/-- `new Row(..)` and `insertRows` for one row. -/
def Table.insert (t : Table) (r : Row) : Res Table :=
  (t.alloc [r]).insertRows hashCombine (t.fresh [r])

/-- The cells of the live rows in the columns of the table, slot by slot. -/
def Table.shown (t : Table) : List (Option (List Str)) :=
  (slots t.rows t.rowHeap).map (Option.map fun x => keyCells t.colDes x.data)

/-- There is a row with the key of `r` that `r` does not beat. -/
def Table.Rejects (t : Table) (u : ColPtr) (K : List ColPtr) (r : Row) : Prop :=
  ∃ x ∈ t.records, keyCells K x.data = keyCells K r.data ∧ r.record.rank u ≤ x.rank u

variable {hashCombine} {t t' w : Table} {u : ColPtr} {index : UniqueIndex} {col : ColumnStatement}
  {after : Option Str} {r : Row} {cell v : Str}

/-! ### The two steps -/

/-- Inserting a row of full width. -/
lemma insert_sound (so : Sound hashCombine t u index) (wide : r.data.length = t.colPhy) :
    ∃ t' index', t.insert hashCombine r = .ok t' ∧ SameCols t t' ∧ Sound hashCombine t' u index' ∧
      index'.header = index.header ∧
      slots t'.rows t'.rowHeap =
        put (slotKey hashCombine index.cols) (Record.rank u) (slots t.rows t.rowHeap) r.record := by
  have full : ∀ r' ∈ [r], r'.data.length = t.colPhy := by
    intro r' mem
    rw [List.mem_singleton.mp mem]
    exact wide
  obtain ⟨t', run, index', ei, sc, so', _, es⟩ := insertRows_sound so full
  refine ⟨t', index', run, sc, so', by rw [ei]; rfl, ?_⟩
  rw [es]
  rfl

/-- A hash that tells keys apart tells fewer apart. -/
lemma Separates.mono {K : List ColPtr} {S S' : Set Record} (sep : Separates hashCombine K S')
    (sub : S ⊆ S') : Separates hashCombine K S :=
  fun x hx y hy => sep x (sub hx) y (sub hy)

/-- The columns after ADDCOL are determined. -/
lemma ColumnAdded.colDes_eq (ca : ColumnAdded col after t t') (ca' : ColumnAdded col after t w) :
    t'.colDes = w.colDes := by
  have pl := ca.colDes
  have pl' := ca'.colDes
  cases after with
  | none =>
    rw [Placed] at pl pl'
    rw [pl, pl']
  | some name =>
    obtain ⟨i, find, e⟩ := pl
    obtain ⟨j, find', e'⟩ := pl'
    rw [find] at find'
    cases find'
    rw [e, e']

/-- A step that keeps the columns may come before the new column. -/
lemma ColumnAdded.of_sameCols (sc : SameCols t w) (ca : ColumnAdded col after w t') :
    ColumnAdded col after t t' := by
  rw [sc] at ca
  exact ⟨ca.colDes, ca.colHeap, ca.colPhy, ca.updCol⟩

/-- The columns once one is added to a sound table. -/
lemma ColumnAdded.mem_iff (so : Sound hashCombine t u index) (ca : ColumnAdded col after t t') {c : ColPtr} :
    c ∈ t'.colDes ↔ c = t.colPhy ∨ c ∈ t.colDes := by
  rw [ca.colDes.perm.mem_iff, List.mem_cons, so.layout.heap_length]

/-- ADDCOL of another column than `updated_at` appends a cell to every row. -/
lemma addColumnOf_grows (so : Sound hashCombine t u index) (spans : TempOver t u index)
    (name : col.name ≠ updatedAt)
    (find : ∀ n ∈ after, ∃ c, t.colDes.find? (t.hasName n) = some c)
    (sep : index.isTemp = true → ∀ w, ColumnAdded col after t w →
      Separates hashCombine (w.colDes.erase u) (Record.grow (col.defaultStr.getD []) '' t.records)) :
    ∃ t' index', t.addColumnOf hashCombine col after = .ok t' ∧ ColumnAdded col after t t' ∧
      Sound hashCombine t' u index' ∧ index'.isTemp = index.isTemp ∧
      (index.isTemp = true → index'.cols = t'.colDes.erase u) ∧
      (index.isTemp = false → index'.cols = index.cols) ∧
      slots t'.rows t'.rowHeap =
        (slots t.rows t.rowHeap).map (Option.map (Record.grow (col.defaultStr.getD []))) := by
  obtain ⟨w, ca, wi, sw, run⟩ := @addColumnOf_widens hashCombine _ _ _ _ after so find
  rw [updAfter, if_neg name] at sw
  cases temp : index.isTemp with
  | false =>
    rw [temp] at run
    exact ⟨w, index, run, ca, sw, temp, fun e => absurd e (by decide), fun _ => rfl, wi.slots⟩
  | true =>
    rw [temp, if_pos rfl] at run
    have mem : u ∈ w.colDes := (ca.mem_iff so).mpr (.inr (spans.upd_mem temp))
    have sub : ∀ c ∈ index.cols, c ∈ w.colDes.erase u := by
      intro c mem
      obtain ⟨old, ne⟩ := (spans.mem_iff so.layout temp).mp mem
      exact (List.mem_erase_of_ne ne).mpr ((ca.mem_iff so).mpr (.inr old))
    have grown : contents (slots w.rows w.rowHeap) ⊆ Record.grow (col.defaultStr.getD []) '' t.records := by
      intro x mem
      obtain ⟨y, mem, e⟩ := wi.records.subset mem
      exact ⟨y, mem, e.symm⟩
    have uniq : Unique (slotKey hashCombine (w.colDes.erase u)) (slots w.rows w.rowHeap) :=
      unique_of_finer sw.unique sub ((sep temp w ca).mono grown)
    obtain ⟨t', drop, rows, heap⟩ := @dropUniqueIndex_unique hashCombine _ _ _ false true [] sw mem uniq
    rcases dropUniqueIndex_ok sw drop with ⟨no, _⟩ | ⟨_, _, index', re, temp'⟩
    · rw [UniqueIndex.isMeant, if_neg Bool.false_ne_true, if_pos rfl, temp] at no
      cases no
    · refine ⟨t', index', run.trans drop, ca.sameCols re.same, re.sound sw.layout sw.upd, temp', ?_,
        fun e => absurd e (by decide), ?_⟩
      · intro _
        rw [re.spans, re.same]
      · rw [rows, heap, wi.slots]

/-! ### Keys and ranks of widened rows -/

/-- A row of full width has the rank it had before. -/
lemma Record.rank_grow {x : Record} (lt : u < x.data.length) : (x.grow cell).rank u = x.rank u := by
  rw [Record.rank, Record.rank, Record.grow, List.getD_append _ _ _ _ lt]

/-- The rows of a table satisfying the invariant have full width. -/
lemma Sound.width {x : Record} (so : Sound hashCombine t u index) (mem : x ∈ t.records) :
    x.data.length = t.colPhy := by
  obtain ⟨i, p, r, live, rfl⟩ := mem_records mem
  obtain ⟨r', hr, _, wd⟩ := so.well.slotted i p live.1
  have same : rowAt t.rowHeap p = some r := live.2
  rw [hr] at same
  cases same
  exact wd

/-- The cells of widened rows agree on columns with the new one iff the rows agree on the others and the new
    cells are the same. -/
lemma keyCells_grow_iff {K K' : List ColPtr} {n : Nat} {x y : Record} {cell' : Str}
    (hx : x.data.length = n) (hy : y.data.length = n) (lt : ∀ c ∈ K, c < n)
    (cols : ∀ c, c ∈ K' ↔ c = n ∨ c ∈ K) :
    keyCells K' (x.grow cell).data = keyCells K' (y.grow cell').data ↔
      keyCells K x.data = keyCells K y.data ∧ cell = cell' := by
  have new : ∀ {z : Record} {s : Str}, z.data.length = n → (z.grow s).data.getD n [] = s := by
    intro z s len
    rw [Record.grow, ← len, List.getD_append_right _ _ _ _ le_rfl, Nat.sub_self]
    rfl
  have old : ∀ {z : Record} {s : Str} {c : ColPtr}, z.data.length = n → c ∈ K →
      (z.grow s).data.getD c [] = z.data.getD c [] := by
    intro z s c len mem
    rw [Record.grow, List.getD_append _ _ _ _ (by rw [len]; exact lt c mem)]
  rw [keyCells, keyCells, keyCells, keyCells, List.map_inj_left, List.map_inj_left]
  constructor
  · intro same
    constructor
    · intro c mem
      have at_c := same c ((cols c).mpr (.inr mem))
      rwa [old hx mem, old hy mem] at at_c
    · have at_n := same n ((cols n).mpr (.inl rfl))
      rwa [new hx, new hy] at at_n
  · rintro ⟨same, rfl⟩ c mem
    rcases (cols c).mp mem with rfl | mem
    · rw [new hx, new hy]
    · rw [old hx mem, old hy mem]
      exact same c mem

/-- A temporary index over the table with the new column has this column besides its old ones. -/
lemma TempOver.mem_grown {c : ColPtr} (spans : TempOver t u index) (so : Sound hashCombine t u index)
    (ca : ColumnAdded col after t w) (isTemp : index.isTemp = true) :
    c ∈ w.colDes.erase u ↔ c = t.colPhy ∨ c ∈ index.cols := by
  rw [(so.layout.columnAdded ca).nodup.mem_erase_iff, ca.mem_iff so, spans.mem_iff so.layout isTemp]
  constructor
  · rintro ⟨ne, rfl | old⟩
    · exact .inl rfl
    · exact .inr ⟨old, ne⟩
  · rintro (rfl | ⟨old, ne⟩)
    · exact ⟨so.upd.lt.ne', .inl rfl⟩
    · exact ⟨ne, .inr old⟩

/-- A row that got the cell and `r` with the cell `v` have the same key iff they had one before and, under a
    temporary index, the cells are the same. -/
lemma grown_key {S : Set Record} {K' : List ColPtr} {x : Record} (so : Sound hashCombine t u index)
    (spans : TempOver t u index) (ca : ColumnAdded col after t w)
    (sep : Separates hashCombine index.cols S) (wide : ∀ y ∈ S, y.data.length = t.colPhy)
    (temp : index.isTemp = true → K' = w.colDes.erase u ∧
      Separates hashCombine K' (insert (r.record.grow v) (Record.grow cell '' S)))
    (perm : index.isTemp = false → K' = index.cols) (mem : x ∈ S) (hr : r.record ∈ S) :
    slotKey hashCombine K' (x.grow cell) = slotKey hashCombine K' (r.record.grow v) ↔
      slotKey hashCombine index.cols x = slotKey hashCombine index.cols r.record ∧
        (index.isTemp = true → cell = v) := by
  have lt := so.well.cols_lt
  cases isTemp : index.isTemp with
  | false =>
    rw [perm isTemp, slotKey, slotKey, Record.grow, Record.grow,
      hashOf_append (by rw [wide x mem]; exact lt), hashOf_append (by rw [wide _ hr]; exact lt)]
    exact (and_iff_left fun e => absurd e (by decide)).symm
  | true =>
    obtain ⟨e, sep'⟩ := temp isTemp
    rw [sep'.key_iff (.inr ⟨x, mem, rfl⟩) (.inl rfl), sep.key_iff mem hr,
      keyCells_grow_iff (wide x mem) (wide _ hr) lt, forall_prop_of_true rfl]
    intro c
    rw [e]
    exact spans.mem_grown so ca isTemp

/-- A row of the table and the new row have the same key iff their key cells agree. -/
lemma rejects_iff (sep : Separates hashCombine index.cols (insert r.record t.records)) :
    t.Rejects u index.cols r ↔ ∃ x, some x ∈ slots t.rows t.rowHeap ∧
      slotKey hashCombine index.cols x = slotKey hashCombine index.cols r.record ∧
      r.record.rank u ≤ x.rank u := by
  constructor
  · rintro ⟨x, mem, same, le⟩
    exact ⟨x, mem, (sep.key_iff (.inr mem) (.inl rfl)).mpr same, le⟩
  · rintro ⟨x, mem, same, le⟩
    exact ⟨x, mem, (sep.key_iff (.inr mem) (.inl rfl)).mp same, le⟩

/-! ### The two orders -/

variable (hashCombine) in
/-- The two orders, and what they need: `r` is as wide as the table, the new column is not `updated_at`,
    the column to insert after exists, and no two keys that occur have the same hash. -/
structure Ordered (t : Table) (u : ColPtr) (index : UniqueIndex) (col : ColumnStatement)
    (after : Option Str) (r : Row) (v : Str) : Prop where
  sound : Sound hashCombine t u index
  spans : TempOver t u index
  wide : r.data.length = t.colPhy
  name : col.name ≠ updatedAt
  find : ∀ n ∈ after, ∃ c, t.colDes.find? (t.hasName n) = some c
  sep : Separates hashCombine index.cols (insert r.record t.records)
  sepTemp : index.isTemp = true → ∀ w, ColumnAdded col after t w →
    Separates hashCombine (w.colDes.erase u) (insert (r.record.grow v)
      (Record.grow (col.defaultStr.getD []) '' insert r.record t.records))

/-- The rows of both orders are as wide as the table. -/
lemma Ordered.width {x : Record} (od : Ordered hashCombine t u index col after r v)
    (mem : x ∈ insert r.record t.records) : x.data.length = t.colPhy := by
  rcases mem with rfl | mem
  · exact od.wide
  · exact od.sound.width mem

/-- The new cell does not change the rank of a row. -/
lemma Ordered.rank_grow {x : Record} {cell : Str} (od : Ordered hashCombine t u index col after r v)
    (mem : x ∈ insert r.record t.records) : (x.grow cell).rank u = x.rank u := by
  apply Record.rank_grow
  rw [od.width mem]
  exact od.sound.upd.lt

/-- The row, then the column. -/
lemma Ordered.insert_addColumn (od : Ordered hashCombine t u index col after r v) :
    ∃ t1 index1, (do
        let t ← t.insert hashCombine r
        t.addColumnOf hashCombine col after) = .ok t1 ∧
      ColumnAdded col after t t1 ∧ Sound hashCombine t1 u index1 ∧
      (index.isTemp = true → index1.cols = t1.colDes.erase u) ∧
      slots t1.rows t1.rowHeap = (put (slotKey hashCombine index.cols) (Record.rank u)
        (slots t.rows t.rowHeap) r.record).map (Option.map (Record.grow (col.defaultStr.getD []))) := by
  obtain ⟨t0, index0, ins, sc, so0, hd, es0⟩ := insert_sound od.sound od.wide
  have temp0 : index0.isTemp = index.isTemp := congrArg Header.isTemp hd
  have colDes : t0.colDes = t.colDes := by rw [sc]
  have old : t0.records ⊆ insert r.record t.records := by
    intro x mem
    rw [Table.records, contents, Set.mem_ofPred_eq, es0] at mem
    exact (mem_of_mem_put mem).symm
  have find : ∀ n ∈ after, ∃ c, t0.colDes.find? (t0.hasName n) = some c := by
    rw [sc]
    exact od.find
  obtain ⟨t1, index1, add, ca, so1, _, cols1, _, es1⟩ :=
    addColumnOf_grows so0 (od.spans.of_header colDes hd) od.name find fun isTemp w ca =>
      (od.sepTemp (temp0 ▸ isTemp) w (ca.of_sameCols sc)).mono
        ((Set.image_mono old).trans (Set.subset_insert _ _))
  refine ⟨t1, index1, by rw [ins, ok_bind, add], ca.of_sameCols sc, so1, ?_, by rw [es1, es0]⟩
  rw [← temp0]
  exact cols1

/-- The column, then the row with its own cell. -/
lemma Ordered.addColumn_insert (od : Ordered hashCombine t u index col after r v) :
    ∃ w index2 t2, (do
        let t ← t.addColumnOf hashCombine col after
        t.insert hashCombine (r.grow v)) = .ok t2 ∧
      ColumnAdded col after t w ∧ SameCols w t2 ∧ Sound hashCombine w u index2 ∧
      (index.isTemp = true → index2.cols = w.colDes.erase u) ∧
      (index.isTemp = false → index2.cols = index.cols) ∧
      slots w.rows w.rowHeap =
        (slots t.rows t.rowHeap).map (Option.map (Record.grow (col.defaultStr.getD []))) ∧
      slots t2.rows t2.rowHeap = put (slotKey hashCombine index2.cols) (Record.rank u)
        (slots w.rows w.rowHeap) (r.record.grow v) := by
  obtain ⟨w, index2, add, ca, so2, _, cols, cols', es⟩ :=
    addColumnOf_grows od.sound od.spans od.name od.find fun isTemp w ca =>
      (od.sepTemp isTemp w ca).mono
        ((Set.image_mono (Set.subset_insert _ _)).trans (Set.subset_insert _ _))
  have wide : (r.grow v).data.length = w.colPhy := by
    rw [ca.colPhy, Row.grow, List.length_append, od.wide]
    rfl
  obtain ⟨t2, _, ins, sc, _, _, es2⟩ := insert_sound so2 wide
  exact ⟨w, index2, t2, by rw [add, ok_bind, ins], ca, sc, so2, cols, cols', es, es2⟩

variable (hashCombine) in
/-- The tables of the two orders: `t1` with the row first, and `t2` with the column first, which makes `w` of
    the table. -/
structure BothOrders (t : Table) (u : ColPtr) (index : UniqueIndex) (col : ColumnStatement)
    (after : Option Str) (r : Row) (v : Str) (t1 w : Table) (index2 : UniqueIndex) (t2 : Table) : Prop where
  added1 : ColumnAdded col after t t1
  added : ColumnAdded col after t w
  cols : SameCols w t2
  sound : Sound hashCombine w u index2
  temp : index.isTemp = true → index2.cols = w.colDes.erase u
  perm : index.isTemp = false → index2.cols = index.cols
  slots1 : slots t1.rows t1.rowHeap = (put (slotKey hashCombine index.cols) (Record.rank u)
    (slots t.rows t.rowHeap) r.record).map (Option.map (Record.grow (col.defaultStr.getD [])))
  slotsAdded : slots w.rows w.rowHeap =
    (slots t.rows t.rowHeap).map (Option.map (Record.grow (col.defaultStr.getD [])))
  slots2 : slots t2.rows t2.rowHeap = put (slotKey hashCombine index2.cols) (Record.rank u)
    (slots w.rows w.rowHeap) (r.record.grow v)

/-- Both orders succeed. -/
lemma Ordered.both (od : Ordered hashCombine t u index col after r v) :
    ∃ t1 w index2 t2, (do
        let t ← t.insert hashCombine r
        t.addColumnOf hashCombine col after) = .ok t1 ∧
      (do
        let t ← t.addColumnOf hashCombine col after
        t.insert hashCombine (r.grow v)) = .ok t2 ∧
      BothOrders hashCombine t u index col after r v t1 w index2 t2 := by
  obtain ⟨t1, _, run1, ca1, _, _, es1⟩ := od.insert_addColumn
  obtain ⟨w, index2, t2, run2, ca, sc, so2, temp, perm, es, es2⟩ := od.addColumn_insert
  exact ⟨t1, w, index2, t2, run1, run2, ca1, ca, sc, so2, temp, perm, es1, es, es2⟩

section
variable {t1 w t2 : Table} {index2 : UniqueIndex} (od : Ordered hashCombine t u index col after r v)
  (bo : BothOrders hashCombine t u index col after r v t1 w index2 t2)
include od bo

/-- With the column, the row meets the rows it meets without it, under a temporary index only with its cell. -/
lemma BothOrders.key {x : Record} (mem : x ∈ insert r.record t.records) :
    slotKey hashCombine index2.cols (x.grow (col.defaultStr.getD [])) =
        slotKey hashCombine index2.cols (r.record.grow v) ↔
      slotKey hashCombine index.cols x = slotKey hashCombine index.cols r.record ∧
        (index.isTemp = true → col.defaultStr.getD [] = v) := by
  refine grown_key od.sound od.spans bo.added od.sep (fun y => od.width) ?_ bo.perm mem (.inl rfl)
  intro isTemp
  rw [bo.temp isTemp]
  exact ⟨rfl, od.sepTemp isTemp w bo.added⟩

/-- The rows are the same if the cells are. -/
lemma BothOrders.same_cell (e : col.defaultStr.getD [] = v) :
    slots t1.rows t1.rowHeap = slots t2.rows t2.rowHeap := by
  rw [bo.slots1, bo.slots2, bo.slotsAdded, ← e]
  refine (put_map_on ?_ ?_).symm
  · intro s mem
    have iff := bo.key od (.inr mem)
    rw [← e] at iff
    exact iff.trans (and_iff_left fun _ => rfl)
  · intro s mem
    rw [od.rank_grow (.inr mem), od.rank_grow (.inl rfl)]

/-- The rows are the same if the row is lost in both orders. -/
lemma BothOrders.same_lost (isPerm : index.isTemp = false) (rejects : t.Rejects u index.cols r) :
    slots t1.rows t1.rowHeap = slots t2.rows t2.rowHeap := by
  obtain ⟨x, mem, hash, le⟩ := (rejects_iff od.sep).mp rejects
  have there : some (x.grow (col.defaultStr.getD [])) ∈ slots w.rows w.rowHeap := by
    rw [bo.slotsAdded]
    exact List.mem_map_of_mem mem
  have hash' := (bo.key od (.inr mem)).mpr
    ⟨hash, fun isTemp => absurd (isPerm.symm.trans isTemp) Bool.false_ne_true⟩
  have le' : (r.record.grow v).rank u ≤ (x.grow (col.defaultStr.getD [])).rank u := by
    rw [od.rank_grow (.inr mem), od.rank_grow (.inl rfl)]
    exact le
  rw [bo.slots1, put_of_le od.sound.unique mem hash le, bo.slots2, put_of_le bo.sound.unique there hash' le',
    bo.slotsAdded]

/-- Otherwise the row is kept with its own cell. -/
lemma BothOrders.kept (ne : ¬ col.defaultStr.getD [] = v)
    (kept : ¬ (index.isTemp = false ∧ t.Rejects u index.cols r)) :
    some (r.record.grow v) ∈ slots t2.rows t2.rowHeap := by
  rw [bo.slots2]
  apply mem_put
  intro s mem hash
  rw [bo.slotsAdded] at mem
  obtain ⟨x, old, rfl⟩ := exists_of_mem_map mem
  obtain ⟨hash, temp⟩ := (bo.key od (.inr old)).mp hash
  rw [od.rank_grow (.inr old), od.rank_grow (.inl rfl)]
  by_contra le
  refine kept ⟨?_, (rejects_iff od.sep).mpr ⟨x, old, hash, not_lt.mp le⟩⟩
  cases isTemp : index.isTemp with
  | false => rfl
  | true => exact absurd (temp isTemp) ne

omit od in
/-- Both orders lead to the same columns. -/
lemma BothOrders.colDes_eq : t1.colDes = t2.colDes := by
  rw [bo.added1.colDes_eq bo.added, bo.cols]

/-- The other order never shows a cell that is not the default. -/
lemma BothOrders.not_shown (ne : ¬ col.defaultStr.getD [] = v) :
    some (keyCells t2.colDes (r.record.grow v).data) ∉ t1.shown := by
  intro mem'
  obtain ⟨y, mem', e⟩ := exists_of_mem_map mem'
  rw [bo.slots1] at mem'
  obtain ⟨x, old, rfl⟩ := exists_of_mem_map mem'
  have hx : x ∈ insert r.record t.records := (mem_of_mem_put old).symm
  rw [← bo.colDes_eq] at e
  exact ne ((keyCells_grow_iff (od.width hx) (od.width (.inl rfl)) od.sound.layout.lt
    fun c => bo.added1.mem_iff od.sound).mp e).2

end

/-- The two orders leave the same rows iff the cells are the same or the row is lost in both. If they do
    not, a row of the second order is none of the first. -/
lemma orders_agree (od : Ordered hashCombine t u index col after r v) :
    ∃ t1 t2, (do
        let t ← t.insert hashCombine r
        t.addColumnOf hashCombine col after) = .ok t1 ∧
      (do
        let t ← t.addColumnOf hashCombine col after
        t.insert hashCombine (r.grow v)) = .ok t2 ∧
      (t1.shown = t2.shown ↔
        col.defaultStr.getD [] = v ∨ index.isTemp = false ∧ t.Rejects u index.cols r) ∧
      (t1.shown ≠ t2.shown → ∃ cells, some cells ∈ t2.shown ∧ some cells ∉ t1.shown) := by
  obtain ⟨t1, w, index2, t2, run1, run2, bo⟩ := od.both
  have other : ¬ (col.defaultStr.getD [] = v ∨ index.isTemp = false ∧ t.Rejects u index.cols r) →
      ∃ cells, some cells ∈ t2.shown ∧ some cells ∉ t1.shown := by
    intro neither
    obtain ⟨ne, kept⟩ := not_or.mp neither
    exact ⟨_, List.mem_map_of_mem (bo.kept od ne kept), bo.not_shown od ne⟩
  have agree : t1.shown = t2.shown ↔
      col.defaultStr.getD [] = v ∨ index.isTemp = false ∧ t.Rejects u index.cols r := by
    constructor
    · intro e
      by_contra neither
      obtain ⟨cells, mem, out⟩ := other neither
      rw [e] at out
      exact out mem
    · rintro (e | ⟨isPerm, rejects⟩)
      · rw [Table.shown, Table.shown, bo.same_cell od e, bo.colDes_eq]
      · rw [Table.shown, Table.shown, bo.same_lost od isPerm rejects, bo.colDes_eq]
  refine ⟨t1, t2, run1, run2, agree, fun ne => other fun cond => ne (agree.mpr cond)⟩

/-- Under a temporary index, a second copy of the row that has its own cell is merged with the first iff the
    cells are the same. -/
lemma copy_merges {r' : Row} (od : Ordered hashCombine t u index col after r v)
    (isTemp : index.isTemp = true) (wide : r'.data.length = t.colPhy)
    (copy : keyCells index.cols r'.data = keyCells index.cols r.data)
    (sep : ∀ w, ColumnAdded col after t w → Separates hashCombine (w.colDes.erase u)
      (insert (r'.record.grow v) (Record.grow (col.defaultStr.getD []) '' insert r.record t.records))) :
    ∃ t1 t3, (do
        let t ← t.insert hashCombine r
        t.addColumnOf hashCombine col after) = .ok t1 ∧
      t1.insert hashCombine (r'.grow v) = .ok t3 ∧
      (t3.rows.length = t1.rows.length ↔ col.defaultStr.getD [] = v) := by
  have so := od.sound
  obtain ⟨t1, index1, run1, ca, so1, temp, es⟩ := od.insert_addColumn
  have wide' : (r'.grow v).data.length = t1.colPhy := by
    rw [ca.colPhy, Row.grow, List.length_append, wide]
    rfl
  obtain ⟨t3, _, ins, _, _, _, es3⟩ := insert_sound so1 wide'
  refine ⟨t1, t3, run1, ins, ?_⟩
  have len : ∀ w : Table, w.rows.length = (slots w.rows w.rowHeap).length := fun w => slots_length.symm
  rw [len t3, len t1, es3, put_length]
  have spans : ∀ c, c ∈ index1.cols ↔ c = t.colPhy ∨ c ∈ index.cols := by
    intro c
    rw [temp isTemp]
    exact od.spans.mem_grown so ca isTemp
  have key : ∀ x ∈ insert r.record t.records,
      (slotKey hashCombine index1.cols (x.grow (col.defaultStr.getD [])) =
          slotKey hashCombine index1.cols (r'.record.grow v) ↔
        keyCells index.cols x.data = keyCells index.cols r'.data ∧ col.defaultStr.getD [] = v) := by
    intro x mem
    have sep' := sep t1 ca
    rw [← temp isTemp] at sep'
    rw [sep'.key_iff (.inr ⟨x, mem, rfl⟩) (.inl rfl)]
    exact keyCells_grow_iff (od.width mem) wide so.well.cols_lt spans
  constructor
  · rintro ⟨s, mem, same⟩
    rw [es] at mem
    obtain ⟨x, old, rfl⟩ := exists_of_mem_map mem
    exact ((key x (mem_of_mem_put old).symm).mp same).2
  · intro e
    -- the first copy or the row that beat it
    obtain ⟨x, mem, same⟩ : ∃ x, some x ∈ put (slotKey hashCombine index.cols) (Record.rank u)
        (slots t.rows t.rowHeap) r.record ∧
        slotKey hashCombine index.cols x = slotKey hashCombine index.cols r.record :=
      exists_mem_put so.unique
    have hx : x ∈ insert r.record t.records := (mem_of_mem_put mem).symm
    refine ⟨_, by rw [es]; exact List.mem_map_of_mem mem, (key x hx).mpr ⟨?_, e⟩⟩
    rw [copy]
    exact (od.sep.key_iff hx (.inl rfl)).mp same

/-- ADDCOL returns only if the column to insert after exists. -/
lemma addColumnOf_find (so : Sound hashCombine t u index)
    (run : t.addColumnOf hashCombine col after = .ok t') :
    ∀ n ∈ after, ∃ c, t.colDes.find? (t.hasName n) = some c := by
  intro n mem
  cases mem
  obtain ⟨i, find, _⟩ := (addColumnOf_cols run).colDes
  obtain ⟨lt, here, _⟩ := List.findIdx?_eq_some_iff_getElem.mp find
  have old : t.colDes[i] < t.colHeap.length := by
    rw [so.layout.heap_length]
    exact so.layout.lt _ (List.getElem_mem lt)
  rw [Table.hasName, Table.newCol, List.getElem?_append_left old] at here
  exact Option.isSome_iff_exists.mp (List.find?_isSome.mpr ⟨_, List.getElem_mem lt, here⟩)

end

end TdsqlMerge.Store
