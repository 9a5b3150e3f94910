import Mathlib.Data.List.InsertIdx
import TdsqlMerge.Store.Invariant

/-!
# What the operations do to the index headers

The `Header` of an index is what identifies it: its name, its columns and its flags. Merging rows and
rebuilding hashes keep the headers of a table; the other lemmas say which headers each
operation leaves behind. As in `Columns`, they hold for every run that returned, whatever the table looks
like.
-/

namespace TdsqlMerge.Store
open Lib

/-- An index without its hash. -/
structure Header where
  name : Str
  cols : List ColPtr
  isPrimary : Bool
  isTemp : Bool

/-- The header of an index. -/
def UniqueIndex.header (index : UniqueIndex) : Header :=
  { name := index.name, cols := index.cols, isPrimary := index.isPrimary, isTemp := index.isTemp }

/-- The header of a temporary index over `cols`. -/
def Header.temp (cols : List ColPtr) : Header :=
  { name := "___TEMP_PRIMARY".toList, cols, isPrimary := false, isTemp := true }

/-- A header without the column `c`. -/
def Header.erase (c : ColPtr) (h : Header) : Header := { h with cols := h.cols.erase c }

/-- The headers of the indexes of a table. -/
def Table.headers (t : Table) : List Header := t.indexs.map UniqueIndex.header

section
variable {hashCombine : UInt64 → Str → UInt64} {t t' : Table} {index : UniqueIndex}

/-- `checkRow` keeps the header of the index and the indexes of the table. -/
lemma checkRow_header {p : RowPtr} {s : Int × UniqueIndex × Table}
    (run : index.checkRow hashCombine t p = .ok s) :
    s.2.1.header = index.header ∧ s.2.2.indexs = t.indexs := by
  have replaced : ∀ {h : UInt64} {o : RowPtr} {s : Int × UniqueIndex × Table},
      index.replace t h o p = .ok s → s.2.1.header = index.header ∧ s.2.2.indexs = t.indexs := by
    intro h o s run
    rw [UniqueIndex.replace, bind_ok] at run
    obtain ⟨t1, run, e⟩ := run
    cases e
    refine ⟨rfl, ?_⟩
    simp only [Table.doRowReplace, bind_ok] at run
    obtain ⟨_, _, _, _, run⟩ := run
    split at run
    · cases run
      rfl
    · cases run
  have kept : ∀ {k : Int} {s : Int × UniqueIndex × Table}, Except.ok (k, index, t) = (.ok s : Res _) →
      s.2.1.header = index.header ∧ s.2.2.indexs = t.indexs := by
    intro k s e
    cases e
    exact ⟨rfl, rfl⟩
  simp only [UniqueIndex.checkRow, bind_ok] at run
  obtain ⟨r, _, h, _, run⟩ := run
  split at run
  · exact kept run
  · simp only [bind_ok] at run
    obtain ⟨o, _, u, _, upd, _, oldUpd, _, rowUpd, _, run⟩ := run
    split at run
    · split at run
      · exact replaced run
      · split at run
        · exact kept run
        · split at run
          · exact replaced run
          · exact kept run
    · split at run
      · exact replaced run
      · exact kept run

/-- Filing a row keeps the header of the index. -/
lemma updateRow_header {p : RowPtr} {index' : UniqueIndex}
    (run : index.updateRow hashCombine t p = .ok index') : index'.header = index.header := by
  simp only [UniqueIndex.updateRow, bind_ok] at run
  obtain ⟨_, _, _, _, e⟩ := run
  cases e
  rfl

/-- `reCompute` keeps the header of the index and the indexes of the table. -/
lemma reCompute_header {s : UniqueIndex × Table} (run : index.reCompute hashCombine t = .ok s) :
    s.1.header = index.header ∧ s.2.indexs = t.indexs := by
  apply foldlM_ok (fun s => s.1.header = index.header ∧ s.2.indexs = t.indexs) _ run ⟨rfl, rfl⟩
  rintro i _ ⟨ix, tb⟩ s' ⟨hd, same⟩ step
  rw [UniqueIndex.reComputeAt, bind_ok] at step
  obtain ⟨slot, _, step⟩ := step
  cases slot with
  | none =>
    cases step
    exact ⟨hd, same⟩
  | some p =>
    simp only [bind_ok] at step
    obtain ⟨⟨k, ix', tb'⟩, check, step⟩ := step
    obtain ⟨hd', same'⟩ := checkRow_header check
    simp only at step
    split at step
    · rw [bind_ok] at step
      obtain ⟨ix'', update, e⟩ := step
      cases e
      exact ⟨(updateRow_header update).trans (hd'.trans hd), same'.trans same⟩
    · cases step
      exact ⟨hd'.trans hd, same'.trans same⟩

/-- Building an index keeps its header. -/
lemma build_header {s : UniqueIndex × Table}
    (run : (do
      let index ← index.setHashPhy t
      index.reCompute hashCombine t) = .ok s) :
    s.1.header = index.header ∧ s.2.indexs = t.indexs := by
  rw [bind_ok] at run
  obtain ⟨index', phy, run⟩ := run
  obtain ⟨hd, same⟩ := reCompute_header run
  rw [UniqueIndex.setHashPhy, bind_ok] at phy
  obtain ⟨_, _, e⟩ := phy
  cases e
  exact ⟨hd, same⟩

/-- A named index is over the first columns with its names. -/
lemma named_header {name : Str} {colStrs : List Str} {isPrimary : Bool} {s : UniqueIndex × Table}
    (run : UniqueIndex.named hashCombine t name colStrs isPrimary = .ok s) :
    s.2.indexs = t.indexs ∧ ∃ cols,
      List.Forall₂ (fun colStr c => t.colDes.find? (t.hasName colStr) = some c) colStrs cols ∧
      s.1.header = { name, cols, isPrimary, isTemp := false } := by
  rw [UniqueIndex.named, bind_ok] at run
  obtain ⟨cols, find, run⟩ := run
  obtain ⟨hd, same⟩ := build_header run
  exact ⟨same, cols, (mapM_eq_ok.mp find).imp fun _ _ h => deref_eq_ok.mp h, hd⟩

/-- Building the temporary index puts its header behind the others. -/
lemma pushTemp_headers (run : t.pushTemp hashCombine = .ok t') :
    ∃ u, t.updCol = some u ∧ u ∈ t.colDes ∧
      t'.headers = t.headers ++ [Header.temp (t.colDes.erase u)] := by
  rw [Table.pushTemp, bind_ok] at run
  obtain ⟨⟨ix, tb⟩, run, e⟩ := run
  cases e
  rw [UniqueIndex.temp, bind_ok] at run
  obtain ⟨u, upd, run⟩ := run
  split at run
  · rename_i mem
    obtain ⟨hd, same⟩ := build_header run
    refine ⟨u, deref_eq_ok.mp upd, mem, ?_⟩
    simp only at hd same
    simp only [Table.headers, same, List.map_append, List.map_cons, List.map_nil, hd]
    rfl
  · cases run

/-- Does `dropUniqueIndex` mean an index with this header? -/
def Header.isMeant (isPrimary isTemp : Bool) (indexName : Str) (h : Header) : Bool :=
  if isPrimary then h.isPrimary
  else if isTemp then h.isTemp
  else decide (h.name = indexName)

/-- The first index that is meant is dropped; a last one gives way to a temporary index. -/
lemma dropUniqueIndex_headers {isPrimary isTemp : Bool} {indexName : Str}
    (run : t.dropUniqueIndex hashCombine isPrimary isTemp indexName = .ok t') :
    (t.headers.findIdx? (Header.isMeant isPrimary isTemp indexName) = none → t' = t) ∧
    ∀ i, t.headers.findIdx? (Header.isMeant isPrimary isTemp indexName) = some i →
      (t.headers.eraseIdx i = [] →
        ∃ u, t.updCol = some u ∧ u ∈ t.colDes ∧ t'.headers = [Header.temp (t.colDes.erase u)]) ∧
      (t.headers.eraseIdx i ≠ [] → t'.headers = t.headers.eraseIdx i) := by
  have find : t.headers.findIdx? (Header.isMeant isPrimary isTemp indexName) =
      t.indexs.findIdx? fun index =>
        if isPrimary then index.isPrimary
        else if isTemp then index.isTemp
        else decide (index.name = indexName) := by
    rw [Table.headers, List.findIdx?_map]
    rfl
  rw [Table.dropUniqueIndex] at run
  rw [find]
  split at run
  · rename_i e
    cases run
    refine ⟨fun _ => rfl, ?_⟩
    intro i at_i
    exact absurd (e.symm.trans at_i).symm (Option.some_ne_none i)
  · rename_i j e
    refine ⟨fun none => absurd (e.symm.trans none) (Option.some_ne_none j), ?_⟩
    intro i at_i
    cases Option.some.inj (e.symm.trans at_i)
    have rest : t.headers.eraseIdx j = (t.indexs.eraseIdx j).map UniqueIndex.header :=
      List.eraseIdx_map _ _ _
    -- if the dropped index was the only one, a temporary one takes its place
    rw [rest]
    dsimp only at run
    split at run
    · rename_i empty
      have none := List.isEmpty_iff.mp empty
      rw [none]
      refine ⟨fun _ => ?_, fun some => absurd rfl some⟩
      obtain ⟨u, upd, mem, hd⟩ := pushTemp_headers run
      refine ⟨u, upd, mem, ?_⟩
      rw [hd, Table.headers, none]
      rfl
    · rename_i some
      cases run
      refine ⟨fun none => ?_, fun _ => rfl⟩
      rw [List.map_eq_nil_iff] at none
      exact absurd (List.isEmpty_iff.mpr none) some

/-- Pushing an index puts its header behind the others. -/
lemma pushIndex_headers {stat : IndexStatement} (run : t.pushIndex hashCombine stat = .ok t') :
    ∃ cols, List.Forall₂ (fun colStr c => t.colDes.find? (t.hasName colStr) = some c) stat.keys cols ∧
      t'.headers =
        t.headers ++ [{ name := stat.name, cols, isPrimary := stat.isPrimaryKey, isTemp := false }] := by
  rw [Table.pushIndex, bind_ok] at run
  obtain ⟨s, run, e⟩ := run
  cases e
  obtain ⟨same, cols, find, hd⟩ := named_header run
  refine ⟨cols, find, ?_⟩
  simp only [Table.headers, same, List.map_append, List.map_cons, List.map_nil, hd]

/-- ADDINDEX replaces a temporary index. -/
lemma addUniqueIndex_headers {name : Str} {colNames : List Str} {isPrimary : Bool}
    (run : t.addUniqueIndex hashCombine name colNames isPrimary = .ok t') :
    (∃ h, t.headers = [h] ∧ h.isTemp = true) ∧ ∃ cols,
      List.Forall₂ (fun colStr c => t.colDes.find? (t.hasName colStr) = some c) colNames cols ∧
      t'.headers = [{ name, cols, isPrimary, isTemp := false }] := by
  rw [Table.addUniqueIndex] at run
  split at run
  · rename_i ix one
    split at run
    · rename_i temp
      rw [bind_ok] at run
      obtain ⟨s, run, e⟩ := run
      cases e
      obtain ⟨same, cols, find, hd⟩ := named_header run
      refine ⟨⟨ix.header, ?_, temp⟩, cols, find, ?_⟩
      · rw [Table.headers, one]
        rfl
      · simp only [Table.headers, same, List.map_cons, List.map_nil, hd, List.nil_append]
    · cases run
  · cases run

/-- Appending a cell to the rows keeps the indexes. -/
lemma pushCells_indexs {cell : Str} {rows : List (Option RowPtr)}
    (run : rows.foldlM (Table.pushCell cell) t = .ok t') : t'.indexs = t.indexs := by
  apply foldlM_ok (fun s => s.indexs = t.indexs) _ run rfl
  rintro slot _ s s' same step
  cases slot with
  | none =>
    cases step
    exact same
  | some p =>
    rw [Table.pushCell, bind_ok] at step
    obtain ⟨r, _, e⟩ := step
    cases e
    exact same

/-- ADDCOL rebuilds a temporary index and keeps every other. -/
lemma addColumnOf_headers {col : ColumnStatement} {after : Option Str}
    (run : t.addColumnOf hashCombine col after = .ok t') :
    ((∀ h, t.headers.head? = some h → h.isTemp = false) → t'.headers = t.headers) ∧
    ∀ h, t.headers = [h] → h.isTemp = true →
      ∃ u, t'.updCol = some u ∧ u ∈ t'.colDes ∧ t'.headers = [Header.temp (t'.colDes.erase u)] := by
  obtain ⟨t2, t3, _, _, _, same, push, run⟩ := addColumnOf_ok run
  have same := (pushCells_indexs push).trans same
  have hd : t3.headers = t.headers := by
    rw [Table.headers, same]
    rfl
  cases e : t3.indexs with
  | nil =>
    rw [e] at run
    have none : t.headers = [] := by
      rw [← hd, Table.headers, e]
      rfl
    refine ⟨fun _ => run ▸ hd, ?_⟩
    intro h one
    rw [none] at one
    cases one
  | cons ix rest =>
    rw [e] at run
    simp only at run
    have hd' : t.headers = ix.header :: rest.map UniqueIndex.header := by
      rw [← hd, Table.headers, e]
      rfl
    split at run
    -- a temporary index is dropped and built anew over the columns there are now
    · rename_i temp
      have meant : Header.isMeant false true [] ix.header = true := temp
      constructor
      · intro perm
        have := perm ix.header (by rw [hd', List.head?_cons])
        exact absurd (show ix.header.isTemp = true from temp) (by rw [this]; exact Bool.false_ne_true)
      · intro h one _
        rw [hd'] at one
        have nil : rest.map UniqueIndex.header = [] := (List.cons.inj one).2
        have first : t3.headers.findIdx? (Header.isMeant false true []) = some 0 := by
          rw [hd, hd', List.findIdx?_cons, meant]
          rfl
        rw [dropUniqueIndex_cols run]
        apply ((dropUniqueIndex_headers run).2 0 first).1
        rw [hd, hd', nil]
        rfl
    · rename_i perm
      refine ⟨fun _ => run ▸ hd, ?_⟩
      intro h one temp
      rw [hd'] at one
      rw [← (List.cons.inj one).1] at temp
      exact absurd temp perm

/-- Taking a column out of an index takes it out of its header. -/
lemma deleteCol_header {c : ColPtr} {s : UniqueIndex × Table}
    (run : index.deleteCol hashCombine t c = .ok s) : s.1.header = index.header.erase c := by
  rw [UniqueIndex.deleteCol] at run
  split at run
  · exact (build_header run).1
  · rename_i out
    cases run
    simp only [UniqueIndex.header, Header.erase, List.erase_of_not_mem out]

/-- Taking a column out of the indexes leaves the headers that still have columns. -/
lemma deleteColFrom_headers {c : ColPtr} {indexs : List UniqueIndex} {s : List UniqueIndex × Table}
    (run : Table.deleteColFrom hashCombine c indexs t = .ok s) :
    s.1.map UniqueIndex.header =
      ((indexs.map UniqueIndex.header).map (Header.erase c)).filter fun h => h.cols ≠ [] := by
  induction indexs generalizing t s with
  | nil =>
    cases run
    rfl
  | cons index rest ih =>
    simp only [Table.deleteColFrom, bind_ok] at run
    obtain ⟨⟨ix, tb⟩, del, s2, more, e⟩ := run
    cases e
    have hd := deleteCol_header del
    have rest := ih more
    simp only at hd
    rw [List.map_cons, List.map_cons, ← hd]
    cases empty : ix.cols.isEmpty with
    | true =>
      have none : ¬ ix.header.cols ≠ [] := by simpa [UniqueIndex.header] using empty
      rw [List.filter_cons_of_neg (by simpa using none), if_pos rfl, rest]
    | false =>
      have some : ix.header.cols ≠ [] := by simpa [UniqueIndex.header] using empty
      rw [List.filter_cons_of_pos (by simpa using some), if_neg Bool.false_ne_true, List.map_cons,
        rest]

/-- The headers of a table that lost the column `c`, before a temporary index is built. -/
def Table.headersWithout (t : Table) (c : ColPtr) : List Header :=
  (t.headers.map (Header.erase c)).filter fun h => h.cols ≠ []

/-- DROPCOL takes the column out of every index; a temporary one takes the place of the last. -/
lemma dropColumn_headers {name : Str} {c : ColPtr} (run : t.dropColumn hashCombine name = .ok t')
    (find : t.colDes.find? (t.hasName name) = some c) :
    (t.headersWithout c = [] → ∃ u, t.updCol = some u ∧ u ∈ t.colDes.erase c ∧
      t'.headers = [Header.temp ((t.colDes.erase c).erase u)]) ∧
    (t.headersWithout c ≠ [] → t'.headers = t.headersWithout c) := by
  obtain ⟨c', s, t3, find', del, temp, rfl⟩ := dropColumn_ok run
  have same : c' = c := Option.some.inj (find'.symm.trans find)
  subst same
  have sc := deleteColFrom_cols del
  have rest : s.1.map UniqueIndex.header = t.headersWithout c' := deleteColFrom_headers del
  rw [← rest]
  split at temp
  · rename_i empty
    have none := List.isEmpty_iff.mp empty
    rw [none]
    refine ⟨fun _ => ?_, fun some => absurd rfl some⟩
    obtain ⟨u, upd, mem, hd⟩ := pushTemp_headers temp
    rw [sc] at upd mem hd
    refine ⟨u, upd, mem, ?_⟩
    show t3.headers = _
    rw [hd, Table.headers, none]
    rfl
  · rename_i some
    refine ⟨fun none => ?_, fun _ => by rw [temp]; rfl⟩
    rw [List.map_eq_nil_iff] at none
    exact absurd (List.isEmpty_iff.mpr none) some

/-- `changeCol` keeps the indexes. -/
lemma changeCol_indexs {col : ColumnStatement} {prevName : Str}
    (run : t.changeCol col prevName = .ok t') : t'.indexs = t.indexs := by
  rw [Table.changeCol] at run
  split at run
  · cases run
  · rw [bind_ok] at run
    obtain ⟨d, _, e⟩ := run
    cases e
    rfl

/-- Merging rows keeps the header of the one index. -/
lemma insertRows_headers {ps : List RowPtr} (run : t.insertRows hashCombine ps = .ok t') :
    t'.headers = t.headers := by
  rw [Table.insertRows] at run
  split at run
  · rename_i ix one
    rw [bind_ok] at run
    obtain ⟨s, run, e⟩ := run
    cases e
    suffices hd : s.1.header = ix.header by
      rw [Table.headers, Table.headers, one, List.map_singleton, List.map_singleton, hd]
    apply foldlM_ok (fun s => s.1.header = ix.header) _ run rfl
    rintro p _ ⟨ix1, tb1⟩ s' hd step
    simp only [Table.insertRow, bind_ok] at step
    obtain ⟨⟨k, ix2, tb2⟩, check, step⟩ := step
    have hd' := (checkRow_header check).1
    simp only at step hd' hd
    split at step
    · simp only [bind_ok] at step
      obtain ⟨ix3, update, _, _, e⟩ := step
      cases e
      exact (updateRow_header update).trans (hd'.trans hd)
    · cases step
      exact hd'.trans hd
  · cases run

/-- `parseData` keeps the indexes. -/
lemma parseData_indexs {dat : Str} {source startStamp : Nat} {s : List RowPtr × Nat × Table}
    (run : t.parseData dat source startStamp = .ok s) : s.2.2.indexs = t.indexs := by
  rw [Table.parseData, bind_ok] at run
  obtain ⟨insPos, _, run⟩ := run
  apply foldlM_ok (fun s => s.2.2.indexs = t.indexs) _ run rfl
  rintro line _ ⟨ret, stamp, tb⟩ s' same step
  simp only [parseLine, bind_ok] at step
  obtain ⟨_, _, e⟩ := step
  cases e
  exact same

end

end TdsqlMerge.Store
