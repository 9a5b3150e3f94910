import TdsqlMerge.Store.Headers
import TdsqlMerge.Store.Loaded
import TdsqlMerge.Store.ParserSafety

/-!
# Rows in their slots

The invariant of every table that is built, with any number of keys and with or without `updated_at`: the rows
in the slots have full width and point back to their slots, and the indexes are over columns of the table
(`built_seated`). In contrast to `Sound` it does not look at the hashes, and holds wherever an operation
returned.
-/

namespace TdsqlMerge.Store
open Lib

/-- Every row sits in its slot, and the indexes are over columns. -/
structure Seated (t : Table) : Prop where
  slotted : Slotted t.colPhy t.rows t.rowHeap
  range : ∀ h ∈ t.headers, ∀ c ∈ h.cols, c < t.colPhy

section
variable {hashCombine : UInt64 → Str → UInt64} {t t' : Table} {index : UniqueIndex} {p : RowPtr} {r : Row}

/-! ### One row -/

/-- Row `p` takes the slot that another row points to, which is deleted. -/
def Takes (t : Table) (p : RowPtr) (t' : Table) : Prop :=
  ∃ old o r, old ≠ p ∧ rowAt t.rowHeap old = some o ∧ rowAt t.rowHeap p = some r ∧
    t' = { t with
      rows := t.rows.set o.idxInsideTable (some p)
      rowHeap := replaceHeap t.rowHeap old p r o.idxInsideTable }

/-- A replacement between two rows: the new one takes the slot of the old. -/
lemma replace_takes {h : UInt64} {old : RowPtr} {o : Row} {s : Int × UniqueIndex × Table} (ne : old ≠ p)
    (ho : t.row old = .ok o) (hp : t.row p = .ok r) (run : index.replace t h old p = .ok s) :
    s.1 = 1 ∧ Takes t p s.2.2 := by
  rw [UniqueIndex.replace, bind_ok] at run
  obtain ⟨t1, run, e⟩ := run
  cases e
  rw [Table.doRowReplace, ho, ok_bind, hp, ok_bind] at run
  split at run
  · cases run
    exact ⟨rfl, old, o, r, ne, deref_eq_ok.mp ho, deref_eq_ok.mp hp, rfl⟩
  · cases run

/-- `checkRow` keeps the table or lets the row take the slot of another. -/
lemma checkRow_takes {s : Int × UniqueIndex × Table} (run : index.checkRow hashCombine t p = .ok s) :
    s.2.2 = t ∨ s.1 = 1 ∧ Takes t p s.2.2 := by
  simp only [UniqueIndex.checkRow, bind_ok] at run
  obtain ⟨r, hp, h, _, run⟩ := run
  split at run
  · cases run
    exact .inl rfl
  · rename_i old _
    simp only [bind_ok] at run
    obtain ⟨o, ho, u, _, upd, _, oldUpd, read, rowUpd, read', run⟩ := run
    -- a row does not beat itself
    have self : old = p → o = r ∧ oldUpd = rowUpd := by
      rintro rfl
      obtain rfl : o = r := Except.ok.inj (ho.symm.trans hp)
      exact ⟨rfl, Except.ok.inj (read.symm.trans read')⟩
    split at run
    · split at run
      · rename_i _ less
        refine .inr (replace_takes ?_ ho hp run)
        intro e
        rw [(self e).1] at less
        exact lt_irrefl _ less
      · split at run
        · cases run
          exact .inl rfl
        · split at run
          · rename_i _ _ _ later
            refine .inr (replace_takes ?_ ho hp run)
            intro e
            rw [(self e).1] at later
            exact lt_irrefl _ later
          · cases run
            exact .inl rfl
    · split at run
      · rename_i differ _
        exact .inr (replace_takes (fun e => differ (self e).2) ho hp run)
      · cases run
        exact .inl rfl

/-- What `Takes` does to the other slots. -/
lemma Takes.slot {j : Nat} {q : RowPtr} (takes : Takes t p t') (sl : Slotted t.colPhy t.rows t.rowHeap)
    (wide : ∀ r, rowAt t.rowHeap p = some r → r.data.length = t.colPhy)
    (at_j : t'.rows[j]? = some (some q)) (only : t.rows[j]? = some (some q) → q ≠ p) :
    ∃ r, rowAt t'.rowHeap q = some r ∧ r.idxInsideTable = j ∧ r.data.length = t.colPhy := by
  obtain ⟨old, o, r, ne, ho, hp, rfl⟩ := takes
  rw [List.getElem?_set] at at_j
  rw [rowAt_replaceHeap ne ho hp]
  split at at_j
  · rename_i same
    split at at_j
    · cases at_j
      rw [if_neg ne.symm, if_pos rfl]
      exact ⟨_, rfl, same, wide r hp⟩
    · cases at_j
  · rename_i other
    obtain ⟨r', hr', back, wide'⟩ := sl j q at_j
    have q_old : q ≠ old := by
      rintro rfl
      rw [ho] at hr'
      cases hr'
      exact other back
    rw [if_neg q_old, if_neg (only at_j)]
    exact ⟨r', hr', back, wide'⟩

/-- A new row takes a slot. -/
lemma Takes.slotted (takes : Takes t p t') (sl : Slotted t.colPhy t.rows t.rowHeap)
    (wide : ∀ r, rowAt t.rowHeap p = some r → r.data.length = t.colPhy) (new : some p ∉ t.rows) :
    Slotted t.colPhy t'.rows t'.rowHeap := by
  intro j q at_j
  apply takes.slot sl wide at_j
  rintro before rfl
  exact new (List.mem_of_getElem? before)

/-- A row takes the slot of another, and its own is emptied. -/
lemma Takes.slotted_clear {i : Nat} (takes : Takes t p t') (sl : Slotted t.colPhy t.rows t.rowHeap)
    (at_i : t.rows[i]? = some (some p)) : Slotted t.colPhy (t'.rows.set i none) t'.rowHeap := by
  have wide : ∀ r, rowAt t.rowHeap p = some r → r.data.length = t.colPhy := by
    intro r hr
    obtain ⟨r', hr', _, wide⟩ := sl i p at_i
    rw [hr] at hr'
    cases hr'
    exact wide
  intro j q at_j
  rw [List.getElem?_set] at at_j
  split at at_j
  · split at at_j <;> cases at_j
  · rename_i other
    apply takes.slot sl wide at_j
    rintro before rfl
    exact other (sl.inj at_i before)

/-! ### Indexes and batches -/

/-- `reCompute` keeps every row in its slot. -/
lemma reCompute_slotted {s : UniqueIndex × Table} (sl : Slotted t.colPhy t.rows t.rowHeap)
    (run : index.reCompute hashCombine t = .ok s) : Slotted s.2.colPhy s.2.rows s.2.rowHeap := by
  apply foldlM_ok (fun s => Slotted s.2.colPhy s.2.rows s.2.rowHeap) _ run sl
  rintro i _ ⟨ix, tb⟩ s' sl step
  rw [UniqueIndex.reComputeAt, bind_ok] at step
  obtain ⟨slot, at_i, step⟩ := step
  have at_i := deref_eq_ok.mp at_i
  cases slot with
  | none =>
    cases step
    exact sl
  | some p =>
    simp only [bind_ok] at step
    obtain ⟨⟨k, ix', tb'⟩, check, step⟩ := step
    simp only at step
    have same : SameCols tb tb' := checkRow_cols check
    have phy : tb'.colPhy = tb.colPhy := by rw [same]
    split at step
    · rename_i new
      rw [bind_ok] at step
      obtain ⟨ix'', _, e⟩ := step
      cases e
      rcases checkRow_takes check with same | ⟨one, _⟩
      · simp only at same
        rw [same]
        exact sl
      · rw [show k = 0 from new] at one
        cases one
    · cases step
      show Slotted tb'.colPhy _ _
      rw [phy]
      rcases checkRow_takes check with same | ⟨_, takes⟩
      · simp only at same
        rw [same]
        exact sl.clear
      · exact takes.slotted_clear sl at_i

/-- The rows to insert that are left have full width if they are still there, and no slot. -/
structure Waiting (t : Table) (ps : List RowPtr) : Prop where
  slotted : Slotted t.colPhy t.rows t.rowHeap
  wide : ∀ p ∈ ps, ∀ r, rowAt t.rowHeap p = some r → r.data.length = t.colPhy
  new : ∀ p ∈ ps, some p ∉ t.rows

/-- The first of the rows gets a slot of its own. -/
lemma Waiting.append {ps : List RowPtr} (wa : Waiting t (p :: ps)) (out : ∀ q ∈ ps, q ≠ p)
    (hp : rowAt t.rowHeap p = some r) :
    Waiting { t with
      rows := t.rows ++ [some p], rowHeap := appendHeap t.rowHeap p r t.rows.length } ps := by
  have fresh := wa.new p List.mem_cons_self
  refine ⟨append_slotted hp fresh wa.slotted (wa.wide p List.mem_cons_self r hp), ?_, ?_⟩
  · intro q mem r' hr'
    have same : rowAt (appendHeap t.rowHeap p r t.rows.length) q = rowAt t.rowHeap q :=
      append_away hp (out q mem)
    exact wa.wide q (List.mem_cons_of_mem p mem) r' (same.symm.trans hr')
  · intro q mem inside
    rcases List.mem_append.mp inside with old | last
    · exact wa.new q (List.mem_cons_of_mem p mem) old
    · exact out q mem (Option.some.inj (List.mem_singleton.mp last))

/-- The first of the rows takes the slot of another. -/
lemma Waiting.takes {ps : List RowPtr} (wa : Waiting t (p :: ps)) (out : ∀ q ∈ ps, q ≠ p)
    (takes : Takes t p t') (phy : t'.colPhy = t.colPhy) : Waiting t' ps := by
  have sl := takes.slotted wa.slotted (wa.wide p List.mem_cons_self) (wa.new p List.mem_cons_self)
  obtain ⟨old, o, r, ne_old, ho, hp, e⟩ := takes
  refine ⟨by rw [phy]; exact sl, ?_, ?_⟩
  · intro q mem r' hr'
    rw [phy]
    rw [e, rowAt_replaceHeap ne_old ho hp] at hr'
    split at hr'
    · cases hr'
    · rw [if_neg (out q mem)] at hr'
      exact wa.wide q (List.mem_cons_of_mem p mem) r' hr'
  · intro q mem inside
    rw [e] at inside
    rcases List.mem_or_eq_of_mem_set inside with old | same
    · exact wa.new q (List.mem_cons_of_mem p mem) old
    · exact out q mem (Option.some.inj same)

/-- Inserting the first row leaves the others waiting. -/
lemma Waiting.insertRow {ps : List RowPtr} {s : UniqueIndex × Table} (wa : Waiting t (p :: ps)) (out : p ∉ ps)
    (run : Table.insertRow hashCombine (index, t) p = .ok s) : Waiting s.2 ps := by
  have out : ∀ q ∈ ps, q ≠ p := by
    rintro q mem rfl
    exact out mem
  rw [Table.insertRow, bind_ok] at run
  obtain ⟨⟨k, ix', tb'⟩, check, run⟩ := run
  have same : SameCols t tb' := checkRow_cols check
  have phy : tb'.colPhy = t.colPhy := by rw [same]
  simp only at run
  split at run
  · rename_i zero
    rcases checkRow_takes check with same | ⟨one, _⟩
    · simp only [bind_ok] at run
      obtain ⟨ix'', _, r, hp, e⟩ := run
      cases e
      simp only at same
      subst same
      exact wa.append out (deref_eq_ok.mp hp)
    · rw [show k = 0 from zero] at one
      cases one
  · cases run
    rcases checkRow_takes check with same | ⟨_, takes⟩
    · simp only at same
      rw [same]
      exact ⟨wa.slotted, fun q mem => wa.wide q (List.mem_cons_of_mem p mem),
        fun q mem => wa.new q (List.mem_cons_of_mem p mem)⟩
    · exact wa.takes out takes phy

/-- Inserting the rows that wait seats them all. -/
lemma Waiting.insertRows {ps : List RowPtr} (wa : Waiting t ps) (nodup : ps.Nodup)
    (run : t.insertRows hashCombine ps = .ok t') : Slotted t'.colPhy t'.rows t'.rowHeap := by
  rw [Table.insertRows] at run
  split at run
  · rename_i index _
    rw [bind_ok] at run
    obtain ⟨s, run, e⟩ := run
    cases e
    clear * - wa nodup run
    induction ps generalizing t index with
    | nil =>
      cases run
      exact wa.slotted
    | cons p ps ih =>
      rw [List.foldlM_cons, bind_ok] at run
      obtain ⟨⟨ix1, t1⟩, one, run⟩ := run
      obtain ⟨out, nodup⟩ := List.nodup_cons.mp nodup
      exact ih (wa.insertRow out one) nodup _ run
  · cases run

/-! ### Statements -/

/-- Building an index keeps every row in its slot. -/
lemma build_slotted {s : UniqueIndex × Table} (sl : Slotted t.colPhy t.rows t.rowHeap)
    (run : (do
      let index ← index.setHashPhy t
      index.reCompute hashCombine t) = .ok s) : Slotted s.2.colPhy s.2.rows s.2.rowHeap := by
  rw [bind_ok] at run
  obtain ⟨_, _, run⟩ := run
  exact reCompute_slotted sl run

/-- The constructor of an index keeps every row in its slot. -/
lemma named_slotted {name : Str} {colStrs : List Str} {isPrimary : Bool} {s : UniqueIndex × Table}
    (sl : Slotted t.colPhy t.rows t.rowHeap)
    (run : UniqueIndex.named hashCombine t name colStrs isPrimary = .ok s) :
    Slotted s.2.colPhy s.2.rows s.2.rowHeap := by
  rw [UniqueIndex.named, bind_ok] at run
  obtain ⟨_, _, run⟩ := run
  exact build_slotted sl run

/-- The columns a named index finds are columns. -/
lemma found_range {names : List Str} {cols : List ColPtr} (la : Layout t)
    (find : List.Forall₂ (fun name c => t.colDes.find? (t.hasName name) = some c) names cols) :
    ∀ c ∈ cols, c < t.colPhy :=
  forall₂_right find fun _ c found => la.lt c (List.mem_of_find?_eq_some found)

/-- Building the temporary index keeps every row in its slot. -/
lemma pushTemp_slotted (sl : Slotted t.colPhy t.rows t.rowHeap) (run : t.pushTemp hashCombine = .ok t') :
    Slotted t'.colPhy t'.rows t'.rowHeap := by
  rw [Table.pushTemp, bind_ok] at run
  obtain ⟨s, run, e⟩ := run
  cases e
  rw [UniqueIndex.temp, bind_ok] at run
  obtain ⟨u, _, run⟩ := run
  split at run
  · exact build_slotted sl run
  · cases run

/-- `dropUniqueIndex` keeps the rows seated. -/
lemma dropUniqueIndex_seated {isPrimary isTemp : Bool} {name : Str} (la : Layout t) (se : Seated t)
    (run : t.dropUniqueIndex hashCombine isPrimary isTemp name = .ok t') : Seated t' := by
  have same := dropUniqueIndex_cols run
  have phy : t'.colPhy = t.colPhy := by rw [same]
  obtain ⟨kept, dropped⟩ := dropUniqueIndex_headers run
  refine ⟨?_, ?_⟩
  · rw [Table.dropUniqueIndex] at run
    split at run
    · cases run
      exact se.slotted
    · rename_i i _
      dsimp only at run
      split at run
      · exact pushTemp_slotted (t := { t with indexs := t.indexs.eraseIdx i }) se.slotted run
      · cases run
        exact se.slotted
  · rw [phy]
    cases find : t.headers.findIdx? (Header.isMeant isPrimary isTemp name) with
    | none =>
      rw [kept find]
      exact se.range
    | some i =>
      obtain ⟨last, others⟩ := dropped i find
      by_cases empty : t.headers.eraseIdx i = []
      · obtain ⟨u, _, _, one⟩ := last empty
        rw [one]
        intro h mem c inside
        rw [List.mem_singleton.mp mem] at inside
        exact la.lt c (List.mem_of_mem_erase inside)
      · rw [others empty]
        intro h mem
        exact se.range h (List.mem_of_mem_eraseIdx mem)

/-- `addUniqueIndex` keeps the rows seated. -/
lemma addUniqueIndex_seated {name : Str} {colNames : List Str} {isPrimary : Bool} (la : Layout t) (se : Seated t)
    (run : t.addUniqueIndex hashCombine name colNames isPrimary = .ok t') : Seated t' := by
  have same := addUniqueIndex_cols run
  have phy : t'.colPhy = t.colPhy := by rw [same]
  obtain ⟨_, cols, find, one⟩ := addUniqueIndex_headers run
  refine ⟨?_, ?_⟩
  · rw [Table.addUniqueIndex] at run
    split at run
    · split at run
      · rw [bind_ok] at run
        obtain ⟨s, run, e⟩ := run
        cases e
        exact @named_slotted _ { t with indexs := [] } _ _ _ _ se.slotted run
      · cases run
    · cases run
  · rw [phy, one]
    intro h mem c inside
    rw [List.mem_singleton.mp mem] at inside
    exact found_range la find c inside

/-- Pushing the index of a CREATE TABLE keeps the rows seated. -/
lemma pushIndex_seated {stat : IndexStatement} (la : Layout t) (se : Seated t)
    (run : t.pushIndex hashCombine stat = .ok t') : Seated t' := by
  have same := pushIndex_cols run
  have phy : t'.colPhy = t.colPhy := by rw [same]
  obtain ⟨cols, find, headers⟩ := pushIndex_headers run
  refine ⟨?_, ?_⟩
  · rw [Table.pushIndex, bind_ok] at run
    obtain ⟨s, run, e⟩ := run
    cases e
    exact named_slotted se.slotted run
  · rw [phy, headers]
    intro h mem c inside
    rcases List.mem_append.mp mem with old | last
    · exact se.range h old c inside
    · rw [List.mem_singleton.mp last] at inside
      exact found_range la find c inside

/-- Taking a column out of the indexes keeps every row in its slot. -/
lemma deleteColFrom_slotted {c : ColPtr} {indexs : List UniqueIndex} {s : List UniqueIndex × Table}
    (sl : Slotted t.colPhy t.rows t.rowHeap) (run : Table.deleteColFrom hashCombine c indexs t = .ok s) :
    Slotted s.2.colPhy s.2.rows s.2.rowHeap := by
  induction indexs generalizing t s with
  | nil =>
    cases run
    exact sl
  | cons index rest ih =>
    simp only [Table.deleteColFrom, bind_ok] at run
    obtain ⟨s1, del, s2, more, e⟩ := run
    cases e
    rw [UniqueIndex.deleteCol] at del
    split at del
    · exact ih (s := s2) (build_slotted sl del) more
    · cases del
      exact ih (s := s2) sl more

/-- `dropColumn` keeps the rows seated. -/
lemma dropColumn_seated {name : Str} (la : Layout t) (se : Seated t)
    (run : t.dropColumn hashCombine name = .ok t') : Seated t' := by
  obtain ⟨c, find, _⟩ := (dropColumn_cols run).colDes
  have phy := (dropColumn_cols run).colPhy
  obtain ⟨last, others⟩ := dropColumn_headers run find
  refine ⟨?_, ?_⟩
  · obtain ⟨c', s, t3, _, del, temp, rfl⟩ := dropColumn_ok run
    have sl := deleteColFrom_slotted se.slotted del
    split at temp
    · have sl3 := pushTemp_slotted (t := { s.2 with indexs := s.1, colDes := s.2.colDes.erase c' }) sl temp
      exact sl3
    · subst temp
      exact sl
  · rw [phy]
    by_cases empty : t.headersWithout c = []
    · obtain ⟨u, _, _, one⟩ := last empty
      rw [one]
      intro h mem x inside
      rw [List.mem_singleton.mp mem] at inside
      exact la.lt x (List.mem_of_mem_erase (List.mem_of_mem_erase inside))
    · rw [others empty]
      intro h mem x inside
      obtain ⟨h', mem', rfl⟩ := List.mem_map.mp (List.mem_filter.mp mem).1
      exact se.range h' mem' x (List.mem_of_mem_erase inside)

/-- `changeCol` keeps the rows seated. -/
lemma changeCol_seated {col : ColumnStatement} {prevName : Str} (se : Seated t)
    (run : t.changeCol col prevName = .ok t') : Seated t' := by
  rw [Table.changeCol] at run
  split at run
  · cases run
  · rw [bind_ok] at run
    obtain ⟨d, _, e⟩ := run
    cases e
    exact ⟨se.slotted, se.range⟩

/-- `addColumn` keeps the rows seated. -/
lemma addColumnOf_seated {col : ColumnStatement} {after : Option Str} (la : Layout t) (se : Seated t)
    (run : t.addColumnOf hashCombine col after = .ok t') : Seated t' := by
  obtain ⟨t2, t3, ca, rows, heap, indexs, push, run⟩ := addColumnOf_ok run
  have same := pushCells_cols push
  have phy : t3.colPhy = t.colPhy + 1 := by
    rw [same]
    exact ca.colPhy
  have la3 : Layout t3 := (la.columnAdded ca).sameCols same
  have sl2 : Slotted t.colPhy t2.rows t2.rowHeap := by
    rw [rows, heap]
    exact se.slotted
  have se3 : Seated t3 := by
    refine ⟨?_, ?_⟩
    · rw [← rows] at push
      have alloc : ∀ p, some p ∈ t2.rows → ∃ r, rowAt t2.rowHeap p = some r := by
        intro p mem
        obtain ⟨i, at_i⟩ := List.mem_iff_getElem?.mp mem
        obtain ⟨r, hr, _⟩ := sl2 i p at_i
        exact ⟨r, hr⟩
      obtain ⟨e, len, row⟩ := (pushCells_spec sl2.apart alloc).of_ok push
      rw [phy]
      exact Widened.slotted ⟨by rw [e], len, row⟩ sl2
    · rw [phy, Table.headers, pushCells_indexs push, indexs]
      intro h mem c inside
      exact Nat.lt_succ_of_lt (se.range h mem c inside)
  split at run
  · rw [run]
    exact se3
  · split at run
    · exact dropUniqueIndex_seated la3 se3 run
    · rw [run]
      exact se3

/-- A CREATE TABLE keeps the rows seated. -/
lemma fillCreate_seated {cols : List ColumnStatement} {indexs : List IndexStatement} (la : Layout t)
    (se : Seated t) (run : t.fillCreate hashCombine cols indexs = .ok t') : Seated t' := by
  rw [Table.fillCreate, bind_ok] at run
  obtain ⟨t1, columns, run⟩ := run
  rw [bind_ok] at run
  obtain ⟨t2, keys, run⟩ := run
  have both1 : Layout t1 ∧ Seated t1 :=
    foldlM_ok (fun s => Layout s ∧ Seated s) (fun col _ s s' both run =>
      ⟨both.1.columnAdded (addColumnOf_cols run), addColumnOf_seated both.1 both.2 run⟩) columns ⟨la, se⟩
  have both2 : Layout t2 ∧ Seated t2 :=
    foldlM_ok (fun s => Layout s ∧ Seated s) (fun index _ s s' both run =>
      ⟨both.1.sameCols (pushIndex_cols run), pushIndex_seated both.1 both.2 run⟩) keys both1
  split at run
  · obtain ⟨u, _, _, headers⟩ := pushTemp_headers run
    refine ⟨pushTemp_slotted both2.2.slotted run, ?_⟩
    have same := pushTemp_cols run
    have phy : t'.colPhy = t2.colPhy := by rw [same]
    rw [phy, headers]
    intro h mem c inside
    rcases List.mem_append.mp mem with old | last
    · exact both2.2.range h old c inside
    · rw [List.mem_singleton.mp last] at inside
      exact both2.1.lt c (List.mem_of_mem_erase inside)
  · cases run
    exact both2.2

/-- Parsed rows are new and have full width. -/
lemma batch_seated {dat : Str} {source startStamp stamp : Nat} {ps : List RowPtr} {t1 : Table} (la : Layout t)
    (se : Seated t) (parse : t.parseData dat source startStamp = .ok (ps, stamp, t1))
    (insert : t1.insertRows hashCombine ps = .ok t') : Seated t' := by
  have same := (parseData_cols parse).trans (insertRows_cols insert)
  have headers : t'.headers = t.headers := by
    rw [insertRows_headers insert, Table.headers, parseData_indexs parse, Table.headers]
  refine ⟨?_, ?_⟩
  · rw [parseData_eq (la.mapM_mapping la.lt), bind_ok] at parse
    obtain ⟨datas, cells, e⟩ := parse
    cases e
    have made : ∀ data ∈ datas, data.length = t.colPhy := by
      have lines := (List.forall₂_and_left _ _).mpr ⟨fun line mem => mem, mapM_eq_ok.mp cells⟩
      refine forall₂_right (P := fun data => data.length = t.colPhy) lines ?_
      rintro line data ⟨mem, run⟩
      exact (parseEscaped_unbroken run (not_mem_of_mem_getlines mem)).1
    generalize rows_def : rowsFrom source startStamp datas = rs at insert
    have wide : ∀ r ∈ rs, r.data.length = t.colPhy := by
      intro r mem
      rw [← rows_def] at mem
      obtain ⟨j, lt, rfl⟩ := List.mem_mapIdx.mp mem
      exact made _ (List.getElem_mem lt)
    have waiting : Waiting (t.alloc rs) (t.fresh rs) := by
      refine ⟨?_, ?_, ?_⟩
      · intro j p at_j
        obtain ⟨r, hr, rest⟩ := se.slotted j p at_j
        exact ⟨r, rowAt_alloc_old hr, rest⟩
      · have fresh := (fresh_rows (t := t) wide).flip
        refine forall₂_right (P := fun p => ∀ r, rowAt (t.alloc rs).rowHeap p = some r → r.data.length = t.colPhy)
          fresh ?_
        rintro r0 p ⟨hr0, wide0⟩ r hr
        rw [hr] at hr0
        cases hr0
        exact wide0
      · intro p mem inside
        obtain ⟨j, at_j⟩ := List.mem_iff_getElem?.mp inside
        obtain ⟨r, hr, _⟩ := se.slotted j p at_j
        have lt := rowAt_lt hr
        rw [Table.fresh, List.mem_range'_1] at mem
        exact absurd lt (not_lt.mpr mem.1)
    exact waiting.insertRows List.nodup_range' insert
  · rw [headers, same]
    exact se.range

/-- Every table that is built. -/
theorem built_seated (bu : Built hashCombine t) : Seated t := by
  induction bu with
  | new =>
    refine ⟨?_, ?_⟩
    · intro j p at_j
      cases at_j
    · intro h mem
      cases mem
  | @statement t t' statement bu run se =>
    have la := bu.layout
    cases statement with
    | create name cols indexs => exact fillCreate_seated la se run
    | addCol col after => exact addColumnOf_seated la se run
    | nothing =>
      cases run
      exact se
    | dropCol name => exact dropColumn_seated la se run
    | dropIndex isPrimary name => exact dropUniqueIndex_seated la se run
    | addIndex isPrimary name cols => exact addUniqueIndex_seated la se run
    | changeCol col prevName => exact changeCol_seated se run
  | batch bu parse insert se => exact batch_seated bu.layout se parse insert

end

end TdsqlMerge.Store
