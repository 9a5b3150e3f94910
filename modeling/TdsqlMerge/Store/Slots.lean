import Mathlib.Data.Char
import Mathlib.Data.List.Forall2
import Mathlib.Data.List.GetD
import Mathlib.Data.Prod.Lex
import Mathlib.Order.OrderDual
import TdsqlMerge.Lib.Newest
import TdsqlMerge.Store.Columns

/-!
# Slots

The merge functions of `table.cpp` work on pointers: a row sits in a slot of `rows`, points back to it
through `idxInsideTable`, and is filed in the `hash` of the index. This module forgets the pointers.
The `slots` of a table are the values of its rows, slot by slot; `Slotted` and `Filed` say that
back-pointers and hash agree with the slots, the latter for the first `n` of them, as `reCompute` needs
it half way. Under them `checkRow` is `Lib.merge`, `insertRow` is `Lib.put` and `reCompute` is
`Lib.rebuild`, with the key hash as key and `Record.rank` as order (`checkRow_spec`,
`insertRow_spec`, `reCompute_spec`).
-/

namespace TdsqlMerge.Store
open Lib

/-- What a row is, apart from its place in the table. -/
structure Record where
  data : List Str
  source : Nat
  stamp : Nat
  deriving DecidableEq

/-- The record of a row. -/
def Row.record (r : Row) : Record := { data := r.data, source := r.source, stamp := r.stamp }

/-- The record of a row has its cells. -/
@[simp] lemma Row.record_data {r : Row} : r.record.data = r.data := rfl

/-- The order in which `checkRow` prefers rows: larger `updated_at`, which is physical column `u`, then
    the lower source, then the larger stamp. -/
def Record.rank (u : Nat) (x : Record) : Str ×ₗ ℕᵒᵈ ×ₗ ℕ :=
  toLex (x.data.getD u [], toLex (OrderDual.toDual x.source, x.stamp))

/-- The order of the ranks, written out. -/
lemma Record.rank_lt {u : Nat} {x y : Record} :
    x.rank u < y.rank u ↔ x.data.getD u [] < y.data.getD u [] ∨
      x.data.getD u [] = y.data.getD u [] ∧
        (y.source < x.source ∨ x.source = y.source ∧ x.stamp < y.stamp) := by
  simp [Record.rank, Prod.Lex.toLex_lt_toLex]

/-- The cells of the physical columns `phy`. -/
def keyCells (phy : List Nat) (data : List Str) : List Str := phy.map fun p => data.getD p []

/-- The value `getHashOfRow` computes. -/
def hashOf (hashCombine : UInt64 → Str → UInt64) (phy : List Nat) (data : List Str) : UInt64 :=
  (keyCells phy data).foldl hashCombine 2022

/-- The row behind a pointer into a heap. -/
def rowAt (heap : List (Option Row)) (p : RowPtr) : Option Row := (heap[p]?).join

/-- A table looks its rows up in its heap. -/
@[simp] lemma Table.row?_eq {t : Table} {p : RowPtr} : t.row? p = rowAt t.rowHeap p := rfl

/-- A row that is there has a place in the heap. -/
lemma rowAt_lt {heap : List (Option Row)} {p : RowPtr} {r : Row} (h : rowAt heap p = some r) :
    p < heap.length := by
  by_contra ge
  rw [rowAt, List.getElem?_eq_none (not_lt.mp ge)] at h
  cases h

/-- Storing at the place of a row changes this row only. -/
lemma rowAt_set {heap : List (Option Row)} {p x : RowPtr} {r : Row} {v : Option Row}
    (h : rowAt heap p = some r) :
    rowAt (heap.set p v) x = if x = p then v else rowAt heap x := by
  have lt := rowAt_lt h
  unfold rowAt
  by_cases e : x = p
  · subst e
    simp [lt]
  · rw [List.getElem?_set_ne (Ne.symm e), if_neg e]

/-- The value in a slot. -/
def slotVal (heap : List (Option Row)) (slot : Option RowPtr) : Option Record :=
  slot.bind fun p => (rowAt heap p).map Row.record

/-- The values of the slots of a table. -/
def slots (rows : List (Option RowPtr)) (heap : List (Option Row)) : List (Option Record) :=
  rows.map (slotVal heap)

/-- There are as many slots as pointers. -/
@[simp] lemma slots_length {rows : List (Option RowPtr)} {heap : List (Option Row)} :
    (slots rows heap).length = rows.length := by
  simp [slots]

/-- A slot holds what its pointer points to. -/
@[simp] lemma slots_getElem? {rows : List (Option RowPtr)} {heap : List (Option Row)} {i : Nat} :
    (slots rows heap)[i]? = (rows[i]?).map (slotVal heap) := by
  simp [slots]

/-- A pointer to a row gives its record. -/
lemma slotVal_some {heap : List (Option Row)} {p : RowPtr} {r : Row} (h : rowAt heap p = some r) :
    slotVal heap (some p) = some r.record := by
  simp [slotVal, h]

/-- A live row: its slot, its pointer and its contents. -/
def Table.Live (t : Table) (i : Nat) (p : RowPtr) (r : Row) : Prop :=
  t.rows[i]? = some (some p) ∧ t.row? p = some r

/-- Every occupied slot holds an allocated row of full width that points back to the slot. -/
def Slotted (width : Nat) (rows : List (Option RowPtr)) (heap : List (Option Row)) : Prop :=
  ∀ (i : Nat) (p : RowPtr), rows[i]? = some (some p) →
    ∃ r, rowAt heap p = some r ∧ r.idxInsideTable = i ∧ r.data.length = width

/-- No row occupies two slots. -/
lemma Slotted.inj {width : Nat} {rows : List (Option RowPtr)} {heap : List (Option Row)} {i j : Nat}
    {p : RowPtr} (sl : Slotted width rows heap) (at_i : rows[i]? = some (some p))
    (at_j : rows[j]? = some (some p)) : i = j := by
  obtain ⟨r, hr, ei, _⟩ := sl i p at_i
  obtain ⟨r', hr', ej, _⟩ := sl j p at_j
  rw [hr] at hr'
  cases hr'
  rw [← ei, ej]

/-- Behind the value in a slot there is a row. -/
lemma slots_eq_some {rows : List (Option RowPtr)} {heap : List (Option Row)} {i : Nat} {x : Record}
    (h : (slots rows heap)[i]? = some (some x)) :
    ∃ p r, rows[i]? = some (some p) ∧ rowAt heap p = some r ∧ r.record = x := by
  rw [slots_getElem?, Option.map_eq_some_iff] at h
  obtain ⟨slot, at_i, e⟩ := h
  rw [slotVal, Option.bind_eq_some_iff] at e
  obtain ⟨p, rfl, e⟩ := e
  obtain ⟨r, hr, e⟩ := Option.map_eq_some_iff.mp e
  exact ⟨p, r, at_i, hr, e⟩

/-- The physical columns of an index are in range. -/
structure Ranged (index : UniqueIndex) (width : Nat) : Prop where
  len : index.hashPhy.length = index.cols.length
  lt : ∀ p ∈ index.hashPhy, p < width

/-- `updated_at` is known, and is physical column `u`. -/
def UpdAt (t : Table) (u : Nat) : Prop :=
  ∃ c d, t.updCol = some c ∧ t.colHeap[c]? = some d ∧ d.mapping = u ∧ u < t.colPhy

section
variable (hashCombine : UInt64 → Str → UInt64)

/-- The hash files the rows of the first `n` slots, and nothing else. -/
structure Filed (index : UniqueIndex) (n : Nat) (rows : List (Option RowPtr))
    (heap : List (Option Row)) : Prop where
  sound : ∀ h p, index.hash h = some p →
    ∃ i r, i < n ∧ rows[i]? = some (some p) ∧ rowAt heap p = some r ∧
      hashOf hashCombine index.hashPhy r.data = h
  complete : ∀ i p r, i < n → rows[i]? = some (some p) → rowAt heap p = some r →
    index.hash (hashOf hashCombine index.hashPhy r.data) = some p

/-- The key under which a row is filed. -/
def slotKey (phy : List Nat) (x : Record) : UInt64 := hashOf hashCombine phy x.data

variable {hashCombine} {index : UniqueIndex} {t : Table} {n u : Nat}

/-- Two filed slots with equal key are the same slot. -/
lemma Filed.unique {rows : List (Option RowPtr)} {heap : List (Option Row)} {width : Nat}
    (fl : Filed hashCombine index n rows heap) (sl : Slotted width rows heap) :
    Unique (slotKey hashCombine index.hashPhy) ((slots rows heap).take n) := by
  intro i j x y at_i at_j e
  rw [List.getElem?_take] at at_i at_j
  split at at_i
  · rename_i lti
    split at at_j
    · rename_i ltj
      obtain ⟨p, r, row_i, hr, rfl⟩ := slots_eq_some at_i
      obtain ⟨q, s, row_j, hs, rfl⟩ := slots_eq_some at_j
      have filed := fl.complete i p r lti row_i hr
      have filed' := fl.complete j q s ltj row_j hs
      simp only [slotKey, Row.record_data] at e
      rw [e, filed'] at filed
      cases filed
      exact sl.inj row_i row_j
    · cases at_j
  · cases at_i

/-- `getHashOfRow` hashes the key cells. -/
lemma getHashOfRow_eq {r : Row} {width : Nat} (rg : Ranged index width)
    (wd : r.data.length = width) :
    index.getHashOfRow hashCombine r = .ok (hashOf hashCombine index.hashPhy r.data) := by
  have run : ∀ k ≤ index.hashPhy.length,
      (List.range k).foldlM (fun hashValue i => do
        let phy ← deref index.hashPhy[i]?
        let cell ← deref r.data[phy]?
        .ok (hashCombine hashValue cell)) 2022
      = (.ok ((keyCells (index.hashPhy.take k) r.data).foldl hashCombine 2022) : Res UInt64) := by
    intro k
    induction k with
    | zero => intro _; rfl
    | succ k ih =>
      intro le
      have lt : k < index.hashPhy.length := by omega
      have mem : index.hashPhy[k] < r.data.length := by
        rw [wd]
        exact rg.lt _ (List.getElem_mem lt)
      have next : keyCells (index.hashPhy.take (k + 1)) r.data =
          keyCells (index.hashPhy.take k) r.data ++ [r.data[index.hashPhy[k]]] := by
        rw [keyCells, List.take_add_one, List.getElem?_eq_getElem lt, Option.toList_some,
          List.map_append, List.map_singleton, List.getD_eq_getElem _ _ mem, keyCells]
      rw [List.range_succ, List.foldlM_append, ih (by omega), ok_bind, List.foldlM_cons,
        List.getElem?_eq_getElem lt, deref_some, ok_bind, List.getElem?_eq_getElem mem, deref_some,
        ok_bind, next, List.foldl_append]
      rfl
  have h := run index.hashPhy.length le_rfl
  rw [List.take_length] at h
  rw [UniqueIndex.getHashOfRow, ← rg.len, h]
  rfl

/-- The heap after `doRowReplace` of `q` by `p`, which takes over slot `j`. -/
def replaceHeap (heap : List (Option Row)) (q p : RowPtr) (r : Row) (j : Nat) : List (Option Row) :=
  (heap.set p (some { r with idxInsideTable := j })).set q none

/-- The rows after a replacement. -/
lemma rowAt_replaceHeap {heap : List (Option Row)} {q p x : RowPtr} {o r : Row} {j : Nat}
    (ne : q ≠ p) (hq : rowAt heap q = some o) (hp : rowAt heap p = some r) :
    rowAt (replaceHeap heap q p r j) x =
      if x = q then none else if x = p then some { r with idxInsideTable := j } else rowAt heap x := by
  have hq' : rowAt (heap.set p (some { r with idxInsideTable := j })) q = some o := by
    rw [rowAt_set hp, if_neg ne, hq]
  rw [replaceHeap, rowAt_set hq', rowAt_set hp]

/-- The three tie-break levels of `checkRow` are the lexicographic order of the ranks. -/
lemma Record.later_iff {α : Type} {o r : Row} {won lost : α} :
    (if o.data.getD u [] = r.data.getD u [] then
      if r.source < o.source then won
      else if r.source > o.source then lost
      else if r.stamp > o.stamp then won
      else lost
    else if o.data.getD u [] < r.data.getD u [] then won
    else lost) = if o.record.rank u < r.record.rank u then won else lost := by
  have lt_iff : o.record.rank u < r.record.rank u ↔
      o.data.getD u [] < r.data.getD u [] ∨ o.data.getD u [] = r.data.getD u [] ∧
        (r.source < o.source ∨ o.source = r.source ∧ o.stamp < r.stamp) := Record.rank_lt
  by_cases eu : o.data.getD u [] = r.data.getD u []
  · rw [if_pos eu]
    by_cases lo : r.source < o.source
    · rw [if_pos lo, if_pos (lt_iff.mpr (Or.inr ⟨eu, Or.inl lo⟩))]
    · rw [if_neg lo]
      by_cases hi : r.source > o.source
      · rw [if_pos hi, if_neg]
        intro lt
        rcases lt_iff.mp lt with h | ⟨_, h | ⟨h, _⟩⟩
        · exact absurd eu (ne_of_lt h)
        · exact lo h
        · omega
      · rw [if_neg hi]
        by_cases st : r.stamp > o.stamp
        · rw [if_pos st, if_pos (lt_iff.mpr (Or.inr ⟨eu, Or.inr ⟨by omega, st⟩⟩))]
        · rw [if_neg st, if_neg]
          intro lt
          rcases lt_iff.mp lt with h | ⟨_, h | ⟨_, h⟩⟩
          · exact absurd eu (ne_of_lt h)
          · exact lo h
          · exact st h
  · rw [if_neg eu]
    by_cases lt : o.data.getD u [] < r.data.getD u []
    · rw [if_pos lt, if_pos (lt_iff.mpr (Or.inl lt))]
    · rw [if_neg lt, if_neg]
      intro h
      rcases lt_iff.mp h with h | ⟨h, _⟩
      · exact lt h
      · exact eu h

/-- What `checkRow` does to a row `p` outside the first `n` slots. -/
lemma checkRow_spec {p : RowPtr} {r : Row} (rg : Ranged index t.colPhy) (up : UpdAt t u)
    (sl : Slotted t.colPhy t.rows t.rowHeap) (fl : Filed hashCombine index n t.rows t.rowHeap)
    (hp : rowAt t.rowHeap p = some r) (wd : r.data.length = t.colPhy) :
    ((∀ i q o, i < n → t.rows[i]? = some (some q) → rowAt t.rowHeap q = some o →
        hashOf hashCombine index.hashPhy o.data ≠ hashOf hashCombine index.hashPhy r.data) ∧
      index.checkRow hashCombine t p = .ok (0, index, t)) ∨
    (∃ j q o, j < n ∧ t.rows[j]? = some (some q) ∧ rowAt t.rowHeap q = some o ∧
      hashOf hashCombine index.hashPhy o.data = hashOf hashCombine index.hashPhy r.data ∧
      index.checkRow hashCombine t p =
        if o.record.rank u < r.record.rank u then
          .ok (1, { index with
            hash := Function.update index.hash (hashOf hashCombine index.hashPhy r.data) (some p) },
            { t with
              rows := t.rows.set j (some p), rowHeap := replaceHeap t.rowHeap q p r j })
        else .ok (-1, index, t)) := by
  obtain ⟨c, d, hc, hd, hm, hu⟩ := up
  have hash_eq := @getHashOfRow_eq hashCombine _ _ _ rg wd
  cases hit : index.hash (hashOf hashCombine index.hashPhy r.data) with
  | none =>
    left
    constructor
    · intro i q o lt at_i ho e
      have filed := fl.complete i q o lt at_i ho
      rw [e, hit] at filed
      cases filed
    · simp [UniqueIndex.checkRow, Table.row, hp, hash_eq, hit]
  | some q =>
    right
    obtain ⟨j, o, lt, at_j, ho, e⟩ := fl.sound _ _ hit
    obtain ⟨o', ho', ej, wdo⟩ := sl j q at_j
    rw [ho] at ho'
    cases ho'
    have lt_rows : j < t.rows.length := (List.getElem?_eq_some_iff.mp at_j).1
    have repl : t.doRowReplace q p = .ok { t with
        rows := t.rows.set j (some p), rowHeap := replaceHeap t.rowHeap q p r j } := by
      simp [Table.doRowReplace, Table.row, ho, hp, ej, lt_rows, replaceHeap]
    refine ⟨j, q, o, lt, at_j, ho, e, ?_⟩
    have o_u : o.data[u]? = some (o.data.getD u []) := by
      rw [List.getD_eq_getElem _ _ (by omega), List.getElem?_eq_getElem]
    have r_u : r.data[u]? = some (r.data.getD u []) := by
      rw [List.getD_eq_getElem _ _ (by omega), List.getElem?_eq_getElem]
    have body : index.checkRow hashCombine t p =
        if o.data.getD u [] = r.data.getD u [] then
          if r.source < o.source then
            index.replace t (hashOf hashCombine index.hashPhy r.data) q p
          else if r.source > o.source then .ok (-1, index, t)
          else if r.stamp > o.stamp then
            index.replace t (hashOf hashCombine index.hashPhy r.data) q p
          else .ok (-1, index, t)
        else if o.data.getD u [] < r.data.getD u [] then
          index.replace t (hashOf hashCombine index.hashPhy r.data) q p
        else .ok (-1, index, t) := by
      simp only [UniqueIndex.checkRow, Table.row, Table.row?_eq, hp, deref_some, ok_bind, hash_eq,
        hit, ho, hc, Table.col, hd, hm, o_u, r_u]
    have moved : index.replace t (hashOf hashCombine index.hashPhy r.data) q p =
        .ok (1, { index with
          hash := Function.update index.hash (hashOf hashCombine index.hashPhy r.data) (some p) },
          { t with rows := t.rows.set j (some p), rowHeap := replaceHeap t.rowHeap q p r j }) := by
      simp [UniqueIndex.replace, repl]
    rw [body, moved]
    exact Record.later_iff

/-- The index with `p` filed under `h`. -/
def fileUnder (index : UniqueIndex) (h : UInt64) (p : RowPtr) : UniqueIndex :=
  { index with hash := Function.update index.hash h (some p) }

variable {width j : Nat} {p q : RowPtr} {o r : Row} {rows : List (Option RowPtr)}
  {heap : List (Option Row)}

/-- Emptying a slot. -/
lemma Slotted.clear (sl : Slotted width rows heap) : Slotted width (rows.set n none) heap := by
  intro i x at_i
  rw [List.getElem?_set] at at_i
  split at at_i
  · simp at at_i
  · exact sl i x at_i

/-- Clearing a pointer clears its slot. -/
lemma slots_clear : slots (rows.set n none) heap = (slots rows heap).set n none := by
  simp [slots, List.map_set, slotVal]

/-- The slot behind those that are filed may be cleared. -/
lemma Filed.clear (fl : Filed hashCombine index n rows heap) :
    Filed hashCombine index n (rows.set n none) heap where
  sound := by
    intro h x hit
    obtain ⟨i, r, lt, at_i, hr, e⟩ := fl.sound h x hit
    exact ⟨i, r, lt, by rw [List.getElem?_set_ne (by omega), at_i], hr, e⟩
  complete := by
    intro i x r lt at_i hr
    rw [List.getElem?_set_ne (by omega)] at at_i
    exact fl.complete i x r lt at_i hr

/-- A slot without a row needs no entry. -/
lemma Filed.succ (fl : Filed hashCombine index n rows heap)
    (empty : ∀ x, rows[n]? ≠ some (some x)) : Filed hashCombine index (n + 1) rows heap where
  sound := by
    intro h x hit
    obtain ⟨i, r, lt, rest⟩ := fl.sound h x hit
    exact ⟨i, r, by omega, rest⟩
  complete := by
    intro i x r lt at_i hr
    have ne : i ≠ n := by
      rintro rfl
      exact empty x at_i
    exact fl.complete i x r (by omega) at_i hr

/-- A row with a new key is filed under it. -/
lemma Filed.file (fl : Filed hashCombine index n rows heap)
    (at_n : rows[n]? = some (some p)) (hp : rowAt heap p = some r)
    (new : ∀ i q o, i < n → rows[i]? = some (some q) → rowAt heap q = some o →
      hashOf hashCombine index.hashPhy o.data ≠ hashOf hashCombine index.hashPhy r.data) :
    Filed hashCombine (fileUnder index (hashOf hashCombine index.hashPhy r.data) p) (n + 1)
      rows heap where
  sound := by
    intro h x hit
    simp only [fileUnder, Function.update_apply] at hit
    split at hit
    · cases hit
      exact ⟨n, r, by omega, at_n, hp, by simp [fileUnder, *]⟩
    · obtain ⟨i, r', lt, rest⟩ := fl.sound h x hit
      exact ⟨i, r', by omega, rest⟩
  complete := by
    intro i x r' lt at_i hr
    simp only [fileUnder, Function.update_apply]
    by_cases e : i = n
    · subst e
      rw [at_n] at at_i
      cases at_i
      rw [hp] at hr
      cases hr
      rw [if_pos rfl]
    · rw [if_neg (new i x r' (by omega) at_i hr)]
      exact fl.complete i x r' (by omega) at_i hr

/-- A row whose key is in none of the first `n` slots meets nothing there. -/
lemma merge_new (u : Nat) {phy : List Nat}
    (new : ∀ i q o, i < n → rows[i]? = some (some q) → rowAt heap q = some o →
      hashOf hashCombine phy o.data ≠ hashOf hashCombine phy r.data) :
    merge (slotKey hashCombine phy) (Record.rank u) ((slots rows heap).take n) r.record = none := by
  rw [merge_eq_none]
  intro x mem e
  obtain ⟨k, at_k⟩ := List.mem_iff_getElem?.mp mem
  rw [List.getElem?_take] at at_k
  split at at_k
  · obtain ⟨q, o, row_k, ho, rfl⟩ := slots_eq_some at_k
    exact new k q o ‹_› row_k ho e
  · cases at_k

/-- A row whose key is filed meets the row that has it. -/
lemma Filed.merge_known (u : Nat) (fl : Filed hashCombine index n rows heap) (sl : Slotted width rows heap)
    (jn : j < n) (at_j : rows[j]? = some (some q)) (ho : rowAt heap q = some o)
    (eh : hashOf hashCombine index.hashPhy o.data = hashOf hashCombine index.hashPhy r.data) :
    merge (slotKey hashCombine index.hashPhy) (Record.rank u) ((slots rows heap).take n) r.record =
      some (((slots rows heap).take n).set j
        (some (if o.record.rank u < r.record.rank u then r.record else o.record))) := by
  have here : ((slots rows heap).take n)[j]? = some (some o.record) := by
    rw [List.getElem?_take, if_pos jn, slots_getElem?, at_j, Option.map_some, slotVal_some ho]
  exact merge_of_mem (fl.unique sl) here eh

/-- The pointers after a replacement: the new row, or the old ones. -/
lemma replace_rows {i : Nat} {x : RowPtr} (jn : j < n)
    (at_i : ((rows.set j (some p)).set n none)[i]? = some (some x)) :
    i = j ∧ x = p ∨ i ≠ j ∧ i ≠ n ∧ rows[i]? = some (some x) := by
  rw [List.getElem?_set] at at_i
  split at at_i
  · simp at at_i
  · rename_i ne_n
    rw [List.getElem?_set] at at_i
    split at at_i
    · simp only [Option.ite_none_right_eq_some, Option.some.injEq] at at_i
      exact Or.inl ⟨by omega, at_i.2.symm⟩
    · exact Or.inr ⟨by omega, by omega, at_i⟩

section
variable (sl : Slotted width rows heap) (at_j : rows[j]? = some (some q)) (jn : j < n)
  (ho : rowAt heap q = some o) (hp : rowAt heap p = some r) (only : ∀ i, rows[i]? = some (some p) → i = n)
include sl at_j jn ho hp only

/-- `p` replaced `q` in slot `j` and left its own slot `n`: the rows in other slots are untouched. -/
lemma replace_other {i : Nat} {x : RowPtr} (ne_j : i ≠ j) (ne_n : i ≠ n)
    (at_i : rows[i]? = some (some x)) : rowAt (replaceHeap heap q p r j) x = rowAt heap x := by
  have qp : q ≠ p := by
    rintro rfl
    have := only j at_j
    omega
  have xq : x ≠ q := by
    rintro rfl
    exact ne_j (sl.inj at_i at_j)
  have xp : x ≠ p := by
    rintro rfl
    exact ne_n (only i at_i)
  rw [rowAt_replaceHeap qp ho hp, if_neg xq, if_neg xp]

omit sl in
/-- The replacing row sits in slot `j`. -/
lemma replace_here :
    rowAt (replaceHeap heap q p r j) p = some { r with idxInsideTable := j } := by
  have qp : q ≠ p := by
    rintro rfl
    have := only j at_j
    omega
  rw [rowAt_replaceHeap qp ho hp, if_neg (Ne.symm qp), if_pos rfl]

/-- After a replacement every row still knows its slot. -/
lemma replace_slotted (wd : r.data.length = width) :
    Slotted width ((rows.set j (some p)).set n none) (replaceHeap heap q p r j) := by
  intro i x at_i
  rcases replace_rows jn at_i with ⟨rfl, rfl⟩ | ⟨ne_j, ne_n, at_i⟩
  · exact ⟨_, replace_here at_j jn ho hp only, rfl, wd⟩
  · rw [replace_other sl at_j jn ho hp only ne_j ne_n at_i]
    exact sl i x at_i

/-- The slots after a replacement. -/
lemma replace_slots :
    slots ((rows.set j (some p)).set n none) (replaceHeap heap q p r j) =
      ((slots rows heap).set j (some r.record)).set n none := by
  apply List.ext_getElem?
  intro i
  have lt_j := (List.getElem?_eq_some_iff.mp at_j).1
  simp only [slots_getElem?, List.getElem?_set, List.length_set, slots_length]
  by_cases e_n : n = i
  · subst e_n
    simp only [if_true]
    split <;> simp [slotVal]
  · rw [if_neg e_n, if_neg e_n]
    by_cases e_j : j = i
    · subst e_j
      simp only [if_true, lt_j, Option.map_some]
      rw [slotVal_some (replace_here at_j jn ho hp only)]
      rfl
    · rw [if_neg e_j, if_neg e_j]
      cases at_i : rows[i]? with
      | none => rfl
      | some slot =>
        cases slot with
        | none => rfl
        | some x =>
          have same := replace_other sl at_j jn ho hp only (Ne.symm e_j) (Ne.symm e_n) at_i
          simp only [Option.map_some, slotVal, Option.bind_some, same]

/-- After a replacement the hash files the new row in place of the old. -/
lemma replace_filed (fl : Filed hashCombine index n rows heap)
    (eh : hashOf hashCombine index.hashPhy o.data = hashOf hashCombine index.hashPhy r.data) :
    Filed hashCombine (fileUnder index (hashOf hashCombine index.hashPhy r.data) p) n
      ((rows.set j (some p)).set n none) (replaceHeap heap q p r j) where
  sound := by
    intro h x hit
    have lt_j := (List.getElem?_eq_some_iff.mp at_j).1
    simp only [fileUnder, Function.update_apply] at hit
    split at hit
    · cases hit
      refine ⟨j, _, jn, ?_, replace_here at_j jn ho hp only, ?_⟩
      · rw [List.getElem?_set_ne (by omega), List.getElem?_set_self lt_j]
      · simp [fileUnder, *]
    · rename_i ne
      obtain ⟨i, r', lt, at_i, hr, e⟩ := fl.sound h x hit
      have ne_j : i ≠ j := by
        rintro rfl
        rw [at_j] at at_i
        cases at_i
        rw [ho] at hr
        cases hr
        exact ne (e.symm.trans eh)
      refine ⟨i, r', lt, ?_, ?_, e⟩
      · rw [List.getElem?_set_ne (by omega), List.getElem?_set_ne (Ne.symm ne_j), at_i]
      · rw [replace_other sl at_j jn ho hp only ne_j (by omega) at_i, hr]
  complete := by
    intro i x r' lt at_i hr
    simp only [fileUnder, Function.update_apply]
    rcases replace_rows jn at_i with ⟨rfl, rfl⟩ | ⟨ne_j, ne_n, at_i⟩
    · rw [replace_here at_j jn ho hp only] at hr
      cases hr
      rw [if_pos rfl]
    · rw [replace_other sl at_j jn ho hp only ne_j ne_n at_i] at hr
      have filed := fl.complete i x r' lt at_i hr
      rw [if_neg]
      · exact filed
      · -- a second slot with the key would be slot `j`
        intro e
        have filed' := fl.complete j q o jn at_j ho
        rw [eh, ← e, filed] at filed'
        cases filed'
        exact ne_j (sl.inj at_i at_j)

end

/-- The heap after `insertRow` of `p`, which gets slot `j`. -/
def appendHeap (heap : List (Option Row)) (p : RowPtr) (r : Row) (j : Nat) : List (Option Row) :=
  heap.set p (some { r with idxInsideTable := j })

/-- The pointers after an insertion: the old ones, then the new row. -/
lemma append_rows {i : Nat} {x : RowPtr} (at_i : (rows ++ [some p])[i]? = some (some x)) :
    i < rows.length ∧ rows[i]? = some (some x) ∨ i = rows.length ∧ x = p := by
  rw [List.getElem?_append] at at_i
  split at at_i
  · exact Or.inl ⟨‹_›, at_i⟩
  · rw [List.getElem?_singleton] at at_i
    split at at_i
    · cases at_i
      exact Or.inr ⟨by omega, rfl⟩
    · cases at_i

section
variable (hp : rowAt heap p = some r)
include hp

/-- The new row sits in the slot it was given. -/
lemma append_here : rowAt (appendHeap heap p r j) p = some { r with idxInsideTable := j } := by
  rw [appendHeap, rowAt_set hp, if_pos rfl]

/-- An insertion leaves the other rows alone. -/
lemma append_away {x : RowPtr} (ne : x ≠ p) : rowAt (appendHeap heap p r j) x = rowAt heap x := by
  rw [appendHeap, rowAt_set hp, if_neg ne]

variable (fresh : some p ∉ rows)
include fresh

/-- The rows that had a slot are untouched. -/
lemma append_other {i : Nat} {x : RowPtr} (at_i : rows[i]? = some (some x)) :
    rowAt (appendHeap heap p r j) x = rowAt heap x := by
  apply append_away hp
  rintro rfl
  exact fresh (List.mem_of_getElem? at_i)

/-- After an insertion every row still knows its slot. -/
lemma append_slotted (sl : Slotted width rows heap) (wd : r.data.length = width) :
    Slotted width (rows ++ [some p]) (appendHeap heap p r rows.length) := by
  intro i x at_i
  rcases append_rows at_i with ⟨_, old⟩ | ⟨rfl, rfl⟩
  · rw [append_other hp fresh old]
    exact sl i x old
  · exact ⟨_, append_here hp, rfl, wd⟩

/-- The slots after an insertion. -/
lemma append_slots :
    slots (rows ++ [some p]) (appendHeap heap p r rows.length) = slots rows heap ++ [some r.record] := by
  have old : slots rows (appendHeap heap p r rows.length) = slots rows heap := by
    apply List.map_congr_left
    intro slot mem
    cases slot with
    | none => rfl
    | some x =>
      obtain ⟨i, at_i⟩ := List.mem_iff_getElem?.mp mem
      simp only [slotVal, Option.bind_some, append_other hp fresh at_i]
  rw [slots, List.map_append, List.map_singleton, ← slots, old, slotVal_some (append_here hp)]
  rfl

/-- The hash still agrees with the slots in front of the new one. -/
lemma append_filed (fl : Filed hashCombine index rows.length rows heap) :
    Filed hashCombine index rows.length (rows ++ [some p]) (appendHeap heap p r rows.length) where
  sound := by
    intro h x hit
    obtain ⟨i, r', lt, at_i, hr, e⟩ := fl.sound h x hit
    refine ⟨i, r', lt, ?_, ?_, e⟩
    · rw [List.getElem?_append_left lt, at_i]
    · rw [append_other hp fresh at_i, hr]
  complete := by
    intro i x r' lt at_i hr
    rcases append_rows at_i with ⟨_, old⟩ | ⟨rfl, rfl⟩
    · rw [append_other hp fresh old] at hr
      exact fl.complete i x r' lt old hr
    · omega

end

end

/-- Steps that keep the columns keep `updated_at` in its place. -/
lemma UpdAt.sameCols {t t' : Table} {u : Nat} (up : UpdAt t u) (sc : SameCols t t') :
    UpdAt t' u := by
  rw [sc]
  exact up

/-- The rows of `t'` come from `t` by merging, among them `new` ones: those in the slots are old or new,
    those still allocated have their old values, and those that took no part are untouched. -/
structure Merged (new : List RowPtr) (t t' : Table) : Prop where
  heap_length : t'.rowHeap.length = t.rowHeap.length
  mem : ∀ p, some p ∈ t'.rows → some p ∈ t.rows ∨ p ∈ new
  value : ∀ p r', rowAt t'.rowHeap p = some r' →
    ∃ r, rowAt t.rowHeap p = some r ∧ r'.record = r.record
  other : ∀ p, some p ∉ t.rows → p ∉ new → rowAt t'.rowHeap p = rowAt t.rowHeap p

/-- Nothing is merged. -/
lemma Merged.refl {t : Table} : Merged [] t t :=
  ⟨rfl, fun _ h => Or.inl h, fun _ r h => ⟨r, h, rfl⟩, fun _ _ _ => rfl⟩

/-- What is merged in two steps. -/
lemma Merged.trans {new new' : List RowPtr} {t t' t'' : Table} (m : Merged new t t')
    (m' : Merged new' t' t'') : Merged (new ++ new') t t'' where
  heap_length := m'.heap_length.trans m.heap_length
  mem := by
    intro p h
    rw [List.mem_append]
    rcases m'.mem p h with h | h
    · rcases m.mem p h with h | h
      · exact Or.inl h
      · exact Or.inr (Or.inl h)
    · exact Or.inr (Or.inr h)
  value := by
    intro p r'' h
    obtain ⟨r', h', e'⟩ := m'.value p r'' h
    obtain ⟨r, h, e⟩ := m.value p r' h'
    exact ⟨r, h, e'.trans e⟩
  other := by
    intro p out no
    rw [List.mem_append, not_or] at no
    have out' : some p ∉ t'.rows := by
      intro h
      rcases m.mem p h with h | h
      · exact out h
      · exact no.1 h
    rw [m'.other p out' no.2, m.other p out no.1]

/-- Clearing a slot merges nothing new. -/
lemma Merged.clear {t : Table} {n : Nat} : Merged [] t { t with rows := t.rows.set n none } where
  heap_length := rfl
  mem := by
    intro p h
    rcases List.mem_or_eq_of_mem_set h with h | h
    · exact Or.inl h
    · cases h
  value := fun _ r h => ⟨r, h, rfl⟩
  other := fun _ _ _ => rfl

/-- A row that takes the slot of another is merged. -/
lemma Merged.replace {new : List RowPtr} {t : Table} {j n : Nat} {p q : RowPtr} {o r : Row}
    (ne : q ≠ p) (ho : rowAt t.rowHeap q = some o) (hp : rowAt t.rowHeap p = some r)
    (hq : some q ∈ t.rows) (mem : some p ∈ t.rows ∨ p ∈ new) :
    Merged new t { t with
      rows := (t.rows.set j (some p)).set n none, rowHeap := replaceHeap t.rowHeap q p r j } where
  heap_length := by simp [replaceHeap]
  mem := by
    intro x h
    rcases List.mem_or_eq_of_mem_set h with h | h
    · rcases List.mem_or_eq_of_mem_set h with h | h
      · exact Or.inl h
      · cases h
        exact mem
    · cases h
  value := by
    intro x r' h
    simp only [rowAt_replaceHeap ne ho hp] at h
    split at h
    · cases h
    · split at h
      · cases h
        subst x
        exact ⟨r, hp, rfl⟩
      · exact ⟨r', h, rfl⟩
  other := by
    intro x out no
    simp only [rowAt_replaceHeap ne ho hp]
    rw [if_neg, if_neg]
    · rintro rfl
      rcases mem with h | h
      · exact out h
      · exact no h
    · rintro rfl
      exact out hq

/-- A row that gets a slot of its own is merged. -/
lemma Merged.append {t : Table} {p : RowPtr} {r : Row} {j : Nat} (hp : rowAt t.rowHeap p = some r) :
    Merged [p] t { t with rows := t.rows ++ [some p], rowHeap := appendHeap t.rowHeap p r j } where
  heap_length := by simp [appendHeap]
  mem := by
    intro x h
    rcases List.mem_append.mp h with h | h
    · exact Or.inl h
    · rw [List.mem_singleton, Option.some.injEq] at h
      exact Or.inr (by simp [h])
  value := by
    intro x r' h
    by_cases e : x = p
    · subst e
      rw [append_here hp] at h
      cases h
      exact ⟨r, hp, rfl⟩
    · rw [append_away hp e] at h
      exact ⟨r', h, rfl⟩
  other := by
    intro x _ no
    exact append_away hp (by simpa using no)

section
variable (hashCombine : UInt64 → Str → UInt64)

/-- The state of `reCompute` after `i` iterations from table `t`. -/
structure Rebuilt (index : UniqueIndex) (u : Nat) (t : Table) (i : Nat) (s : UniqueIndex × Table) :
    Prop where
  same : s.1 = { index with hash := s.1.hash }
  frame : s.2 = { t with rows := s.2.rows, rowHeap := s.2.rowHeap }
  merged : Merged [] t s.2
  slotted : Slotted t.colPhy s.2.rows s.2.rowHeap
  filed : Filed hashCombine s.1 i s.2.rows s.2.rowHeap
  slots : slots s.2.rows s.2.rowHeap =
    rebuildTo (slotKey hashCombine index.hashPhy) (Record.rank u) (slots t.rows t.rowHeap) i ++
      (slots t.rows t.rowHeap).drop i

variable {hashCombine} {index : UniqueIndex} {t : Table} {u : Nat}

/-- `reCompute` keeps the number of slots. -/
lemma Rebuilt.length {i : Nat} {s : UniqueIndex × Table} (le : i ≤ t.rows.length)
    (inv : Rebuilt hashCombine index u t i s) : s.2.rows.length = t.rows.length := by
  have len := congrArg List.length inv.slots
  rw [slots_length, List.length_append, List.length_drop, rebuildTo_length (by simp; omega),
    slots_length] at len
  omega

section
variable {i : Nat} {s : UniqueIndex × Table} (inv : Rebuilt hashCombine index u t i s)
include inv

/-- `reCompute` keeps the physical columns of the index. -/
lemma Rebuilt.hashPhy : s.1.hashPhy = index.hashPhy := by
  rw [inv.same]

/-- `reCompute` keeps the number of physical columns. -/
lemma Rebuilt.colPhy : s.2.colPhy = t.colPhy := by
  rw [inv.frame]

/-- `reCompute` keeps the physical columns in range. -/
lemma Rebuilt.ranged (rg : Ranged index t.colPhy) : Ranged s.1 s.2.colPhy := by
  rw [inv.colPhy, inv.same]
  exact ⟨rg.len, rg.lt⟩

/-- `reCompute` keeps `updated_at` in its place. -/
lemma Rebuilt.updAt (up : UpdAt t u) : UpdAt s.2 u := by
  rw [inv.frame]
  exact up

variable (lt : i < t.rows.length)
include lt

/-- The slot that the next iteration looks at, between those that are done and the rest. -/
lemma Rebuilt.window {slot : Option RowPtr} (at_i : s.2.rows[i]? = some slot) :
    ∃ done : List (Option Record), done.length = i ∧
      Store.slots s.2.rows s.2.rowHeap =
        done ++ slotVal s.2.rowHeap slot :: (Store.slots t.rows t.rowHeap).drop (i + 1) ∧
      rebuildTo (slotKey hashCombine index.hashPhy) (Record.rank u) (Store.slots t.rows t.rowHeap) (i + 1) =
        rebuildStep (slotKey hashCombine index.hashPhy) (Record.rank u) done (slotVal s.2.rowHeap slot) := by
  obtain ⟨-, -, -, -, -, es⟩ := inv
  generalize done_def : rebuildTo (slotKey hashCombine index.hashPhy) (Record.rank u)
    (Store.slots t.rows t.rowHeap) i = done at es
  have done_len : done.length = i := by
    rw [← done_def, rebuildTo_length (by simp; omega)]
  have at_i0 : (Store.slots t.rows t.rowHeap)[i]? = some (slotVal s.2.rowHeap slot) := by
    have := congrArg (·[i]?) es
    rw [slots_getElem?, at_i, Option.map_some, List.getElem?_append_right (by omega), done_len,
      Nat.sub_self, List.getElem?_drop, Nat.add_zero] at this
    exact this.symm
  have drop : (Store.slots t.rows t.rowHeap).drop i =
      slotVal s.2.rowHeap slot :: (Store.slots t.rows t.rowHeap).drop (i + 1) := by
    obtain ⟨lt', e⟩ := List.getElem?_eq_some_iff.mp at_i0
    rw [List.drop_eq_getElem_cons lt', e]
  refine ⟨done, done_len, by rw [es, drop], ?_⟩
  rw [← done_def]
  exact rebuildTo_succ at_i0

/-- An empty slot stays empty. -/
lemma Rebuilt.skip (at_i : s.2.rows[i]? = some none) : Rebuilt hashCombine index u t (i + 1) s := by
  obtain ⟨done, _, es, next⟩ := inv.window lt at_i
  refine ⟨inv.same, inv.frame, inv.merged, inv.slotted, inv.filed.succ (by simp [at_i]), ?_⟩
  rw [next, es]
  simp [slotVal, rebuildStep]

variable {p : RowPtr} {r : Row} (at_i : s.2.rows[i]? = some (some p))
  (hp : rowAt s.2.rowHeap p = some r)
include at_i hp

/-- A row with a new key stays and is filed. -/
lemma Rebuilt.keep
    (new : ∀ k q o, k < i → s.2.rows[k]? = some (some q) → rowAt s.2.rowHeap q = some o →
      hashOf hashCombine s.1.hashPhy o.data ≠ hashOf hashCombine s.1.hashPhy r.data) :
    Rebuilt hashCombine index u t (i + 1)
      (fileUnder s.1 (hashOf hashCombine s.1.hashPhy r.data) p, s.2) := by
  obtain ⟨done, done_len, es, next⟩ := inv.window lt at_i
  refine ⟨?_, inv.frame, inv.merged, inv.slotted, inv.filed.file at_i hp new, ?_⟩
  · rw [fileUnder, inv.same]
  · have no := merge_new u new
    rw [es, List.take_left' done_len, inv.hashPhy] at no
    rw [slotVal_some hp] at next es
    rw [next, es, rebuildStep, no]
    simp

variable {q : RowPtr} {o : Row} {j : Nat} (jn : j < i) (at_j : s.2.rows[j]? = some (some q))
  (ho : rowAt s.2.rowHeap q = some o)
  (eh : hashOf hashCombine s.1.hashPhy o.data = hashOf hashCombine s.1.hashPhy r.data)
include jn at_j ho eh

/-- A row that comes after the one with its key in slot `j` takes over that slot. -/
lemma Rebuilt.replace (less : o.record.rank u < r.record.rank u) (wd : r.data.length = t.colPhy) :
    Rebuilt hashCombine index u t (i + 1)
      (fileUnder s.1 (hashOf hashCombine s.1.hashPhy r.data) p, { s.2 with
        rows := (s.2.rows.set j (some p)).set i none
        rowHeap := replaceHeap s.2.rowHeap q p r j }) := by
  obtain ⟨done, done_len, es, next⟩ := inv.window lt at_i
  have sl := inv.slotted
  have only : ∀ k, s.2.rows[k]? = some (some p) → k = i := fun k at_k => sl.inj at_k at_i
  have qp : q ≠ p := by
    rintro rfl
    have := only j at_j
    omega
  refine ⟨?_, ?_, ?_, ?_, ?_, ?_⟩
  · rw [fileUnder, inv.same]
  · rw [inv.frame]
  · exact inv.merged.trans (Merged.replace qp ho hp (List.mem_of_getElem? at_j)
      (Or.inl (List.mem_of_getElem? at_i)))
  · exact replace_slotted sl at_j jn ho hp only wd
  · apply (replace_filed sl at_j jn ho hp only inv.filed eh).succ
    simp [List.getElem?_set]
  · have met := inv.filed.merge_known u sl jn at_j ho eh
    rw [es, List.take_left' done_len, inv.hashPhy, if_pos less] at met
    rw [slotVal_some hp] at next es
    rw [replace_slots sl at_j jn ho hp only, next, es, rebuildStep, met,
      List.set_append_left _ _ (by omega), List.set_append_right _ _ (by simp [done_len])]
    simp [done_len]

/-- A row that does not come after the one with its key loses its slot. -/
lemma Rebuilt.drop (less : ¬ o.record.rank u < r.record.rank u) :
    Rebuilt hashCombine index u t (i + 1) (s.1, { s.2 with rows := s.2.rows.set i none }) := by
  obtain ⟨done, done_len, es, next⟩ := inv.window lt at_i
  refine ⟨inv.same, by rw [inv.frame], inv.merged.trans .clear, inv.slotted.clear, ?_, ?_⟩
  · apply inv.filed.clear.succ
    simp [List.getElem?_set]
  · have met := inv.filed.merge_known u inv.slotted jn at_j ho eh
    rw [es, List.take_left' done_len, inv.hashPhy, if_neg less] at met
    have at_done : done[j]? = some (some o.record) := by
      rw [← List.take_left' done_len, ← es, List.getElem?_take, if_pos jn, slots_getElem?, at_j,
        Option.map_some, slotVal_some ho]
    obtain ⟨lt_j, e_j⟩ := List.getElem?_eq_some_iff.mp at_done
    rw [slotVal_some hp] at next es
    rw [slots_clear, next, es, rebuildStep, met, ← e_j, List.set_getElem_self,
      List.set_append_right _ _ (by omega)]
    simp [done_len]

end

/-- One iteration of `reCompute`. -/
lemma reComputeAt_spec {i : Nat} {s : UniqueIndex × Table} (rg : Ranged index t.colPhy)
    (up : UpdAt t u) (lt : i < t.rows.length) (inv : Rebuilt hashCombine index u t i s) :
    Yields (UniqueIndex.reComputeAt hashCombine s i) (Rebuilt hashCombine index u t (i + 1)) := by
  obtain ⟨slot, at_i⟩ : ∃ slot, s.2.rows[i]? = some slot :=
    ⟨_, List.getElem?_eq_getElem (by rw [inv.length (by omega)]; omega)⟩
  have sl : Slotted s.2.colPhy s.2.rows s.2.rowHeap := by
    rw [inv.colPhy]
    exact inv.slotted
  cases slot with
  | none =>
    have run : UniqueIndex.reComputeAt hashCombine s i = .ok s := by
      simp [UniqueIndex.reComputeAt, at_i]
    exact ⟨_, run, inv.skip lt at_i⟩
  | some p =>
    obtain ⟨r, hp, _, wd⟩ := sl i p at_i
    rcases checkRow_spec (inv.ranged rg) (inv.updAt up) sl inv.filed hp wd with
      ⟨new, run⟩ | ⟨j, q, o, jn, at_j, ho, eh, run⟩
    · have body : UniqueIndex.reComputeAt hashCombine s i =
          .ok (fileUnder s.1 (hashOf hashCombine s.1.hashPhy r.data) p, s.2) := by
        simp [UniqueIndex.reComputeAt, at_i, run, UniqueIndex.updateRow, Table.row, hp,
          getHashOfRow_eq (inv.ranged rg) wd, fileUnder]
      exact ⟨_, body, inv.keep lt at_i hp new⟩
    · by_cases less : o.record.rank u < r.record.rank u
      · rw [if_pos less] at run
        have body : UniqueIndex.reComputeAt hashCombine s i =
            .ok (fileUnder s.1 (hashOf hashCombine s.1.hashPhy r.data) p, { s.2 with
              rows := (s.2.rows.set j (some p)).set i none
              rowHeap := replaceHeap s.2.rowHeap q p r j }) := by
          simp [UniqueIndex.reComputeAt, at_i, run, fileUnder]
        exact ⟨_, body, inv.replace lt at_i hp jn at_j ho eh less (by rw [wd, inv.colPhy])⟩
      · rw [if_neg less] at run
        have body : UniqueIndex.reComputeAt hashCombine s i =
            .ok (s.1, { s.2 with rows := s.2.rows.set i none }) := by
          simp [UniqueIndex.reComputeAt, at_i, run]
        exact ⟨_, body, inv.drop lt at_i hp jn at_j ho eh less⟩

/-- The slots of a table agree with its index. -/
structure Filing (hashCombine : UInt64 → Str → UInt64) (index : UniqueIndex) (t : Table) : Prop where
  ranged : Ranged index t.colPhy
  slotted : Slotted t.colPhy t.rows t.rowHeap
  filed : Filed hashCombine index t.rows.length t.rows t.rowHeap

/-- `reCompute` rebuilds the slots. -/
theorem reCompute_spec (rg : Ranged index t.colPhy) (up : UpdAt t u)
    (sl : Slotted t.colPhy t.rows t.rowHeap) :
    Yields (index.reCompute hashCombine t) fun s =>
      s.1 = { index with hash := s.1.hash } ∧
      s.2 = { t with rows := s.2.rows, rowHeap := s.2.rowHeap } ∧ Merged [] t s.2 ∧
      Filing hashCombine s.1 s.2 ∧
      slots s.2.rows s.2.rowHeap =
        rebuild (slotKey hashCombine index.hashPhy) (Record.rank u) (slots t.rows t.rowHeap) := by
  have init : Rebuilt hashCombine index u t 0 ({ index with hash := fun _ => none }, t) := by
    refine ⟨rfl, rfl, .refl, sl, ⟨?_, ?_⟩, rfl⟩
    · intro h p hit
      cases hit
    · intro i p r lt
      omega
  apply Yields.imp (Yields.range_foldlM _ (fun i lt s => reComputeAt_spec rg up lt) init)
  rintro s ⟨ei, ef, mg, sl', fl, es⟩
  rw [List.drop_eq_nil_of_le (by simp), List.append_nil, ← @slots_length _ t.rowHeap,
    rebuildTo_all] at es
  have len : s.2.rows.length = t.rows.length := by
    have := congrArg List.length es
    simpa using this
  have wide : s.2.colPhy = t.colPhy := by rw [ef]
  rw [← len] at fl
  refine ⟨ei, ef, mg, ⟨?_, by rw [wide]; exact sl', fl⟩, es⟩
  rw [ei, wide]
  exact ⟨rg.len, rg.lt⟩

/-- The slot a fresh row gets at the end. -/
lemma append_filing {p : RowPtr} {r : Row} (fi : Filing hashCombine index t)
    (hp : rowAt t.rowHeap p = some r) (wd : r.data.length = t.colPhy) (fresh : some p ∉ t.rows)
    (new : ∀ i q o, i < t.rows.length → t.rows[i]? = some (some q) → rowAt t.rowHeap q = some o →
      hashOf hashCombine index.hashPhy o.data ≠ hashOf hashCombine index.hashPhy r.data) :
    Filing hashCombine (fileUnder index (hashOf hashCombine index.hashPhy r.data) p)
      { t with rows := t.rows ++ [some p], rowHeap := appendHeap t.rowHeap p r t.rows.length } where
  ranged := ⟨fi.ranged.len, fi.ranged.lt⟩
  slotted := append_slotted hp fresh fi.slotted wd
  filed := by
    have at_end : (t.rows ++ [some p])[t.rows.length]? = some (some p) := by simp
    have filed := (append_filed hp fresh fi.filed).file at_end (append_here hp) (by
      intro i q o lt at_i ho
      rcases append_rows at_i with ⟨_, old⟩ | ⟨rfl, rfl⟩
      · rw [append_other hp fresh old] at ho
        exact new i q o lt old ho
      · omega)
    rw [List.length_append, List.length_singleton]
    exact filed

/-- `insertRow` of a fresh row puts its value into the slots. -/
theorem insertRow_spec {p : RowPtr} {r : Row} (fi : Filing hashCombine index t) (up : UpdAt t u)
    (hp : rowAt t.rowHeap p = some r) (wd : r.data.length = t.colPhy) (fresh : some p ∉ t.rows) :
    Yields (Table.insertRow hashCombine (index, t) p) fun s =>
      s.1 = { index with hash := s.1.hash } ∧ SameCols t s.2 ∧ Merged [p] t s.2 ∧
      Filing hashCombine s.1 s.2 ∧
      slots s.2.rows s.2.rowHeap =
        put (slotKey hashCombine index.hashPhy) (Record.rank u) (slots t.rows t.rowHeap)
          r.record := by
  have all : (slots t.rows t.rowHeap).take t.rows.length = slots t.rows t.rowHeap :=
    List.take_of_length_le (by simp)
  rcases checkRow_spec fi.ranged up fi.slotted fi.filed hp wd with
    ⟨new, run⟩ | ⟨j, q, o, jn, at_j, ho, eh, run⟩
  · -- the key is new: the row gets a slot at the end
    have body : Table.insertRow hashCombine (index, t) p =
        .ok (fileUnder index (hashOf hashCombine index.hashPhy r.data) p, { t with
          rows := t.rows ++ [some p], rowHeap := appendHeap t.rowHeap p r t.rows.length }) := by
      simp [Table.insertRow, run, UniqueIndex.updateRow, Table.row, hp,
        getHashOfRow_eq fi.ranged wd, fileUnder, appendHeap]
    refine ⟨_, body, rfl, rfl, .append hp, append_filing fi hp wd fresh new, ?_⟩
    have no := merge_new u new
    rw [all] at no
    rw [put, no]
    exact append_slots hp fresh
  · -- the key is known: the later of the two rows stays in slot `j`
    have met := fi.filed.merge_known u fi.slotted jn at_j ho eh
    rw [all] at met
    by_cases less : o.record.rank u < r.record.rank u
    · rw [if_pos less] at run met
      have qp : q ≠ p := by
        rintro rfl
        exact fresh (List.mem_of_getElem? at_j)
      have only : ∀ k, t.rows[k]? = some (some p) → k = t.rows.length := by
        intro k at_k
        exact absurd (List.mem_of_getElem? at_k) fresh
      -- emptying the slot behind the last one changes nothing
      have past : ∀ {α : Type} (l : List (Option α)), l.length = t.rows.length →
          l.set t.rows.length none = l := by
        intro α l e
        exact List.set_eq_of_length_le (by omega)
      have es := replace_slots fi.slotted at_j jn ho hp only
      have sl := replace_slotted fi.slotted at_j jn ho hp only wd
      have fl := replace_filed fi.slotted at_j jn ho hp only fi.filed eh
      have mg := @Merged.replace [p] t j t.rows.length _ _ _ _ qp ho hp
        (List.mem_of_getElem? at_j) (Or.inr (by simp))
      rw [past _ (by simp)] at es sl fl mg
      rw [past _ (by simp)] at es
      have body : Table.insertRow hashCombine (index, t) p =
          .ok (fileUnder index (hashOf hashCombine index.hashPhy r.data) p, { t with
            rows := t.rows.set j (some p), rowHeap := replaceHeap t.rowHeap q p r j }) := by
        simp [Table.insertRow, run, fileUnder]
      refine ⟨_, body, rfl, rfl, mg, ⟨⟨fi.ranged.len, fi.ranged.lt⟩, sl, ?_⟩, ?_⟩
      · simpa using fl
      · rw [es, put, met]
        rfl
    · rw [if_neg less] at run met
      have body : Table.insertRow hashCombine (index, t) p = .ok (index, t) := by
        simp [Table.insertRow, run]
      refine ⟨_, body, rfl, rfl, ?_, fi, ?_⟩
      · exact ⟨rfl, fun _ h => Or.inl h, fun _ r h => ⟨r, h, rfl⟩, fun _ _ _ => rfl⟩
      · have at_slot : (slots t.rows t.rowHeap)[j]? = some (some o.record) := by
          rw [slots_getElem?, at_j, Option.map_some, slotVal_some ho]
        obtain ⟨lt_j, e_j⟩ := List.getElem?_eq_some_iff.mp at_slot
        rw [← e_j, List.set_getElem_self] at met
        rw [put, met]
        rfl

/-- `insertRow` of fresh rows, one after the other. -/
lemma insertRow_each {ps : List RowPtr} {rs : List Row} {index : UniqueIndex} {t : Table}
    (fi : Filing hashCombine index t) (up : UpdAt t u)
    (rows : List.Forall₂ (fun p r => rowAt t.rowHeap p = some r ∧ r.data.length = t.colPhy) ps rs)
    (fresh : ∀ p ∈ ps, some p ∉ t.rows) (nodup : ps.Nodup) :
    Yields (ps.foldlM (Table.insertRow hashCombine) (index, t)) fun s =>
      s.1 = { index with hash := s.1.hash } ∧ SameCols t s.2 ∧ Merged ps t s.2 ∧
      Filing hashCombine s.1 s.2 ∧
      slots s.2.rows s.2.rowHeap =
        (rs.map Row.record).foldl (put (slotKey hashCombine index.hashPhy) (Record.rank u))
          (slots t.rows t.rowHeap) := by
  induction ps generalizing rs index t with
  | nil =>
    cases rows
    exact .ok ⟨rfl, rfl, .refl, fi, rfl⟩
  | cons p ps ih =>
    cases rows with
    | @cons _ r _ rs hp rows =>
      obtain ⟨notin, nodup⟩ := List.nodup_cons.mp nodup
      rw [List.foldlM_cons]
      apply Yields.bind (insertRow_spec fi up hp.1 hp.2 (fresh p List.mem_cons_self))
      rintro ⟨ix, tb⟩ ⟨ei, sc, mg, fi', es⟩
      simp only at ei sc mg fi' es
      have wide : tb.colPhy = t.colPhy := by rw [sc]
      have phy : ix.hashPhy = index.hashPhy := by rw [ei]
      -- the rows that are left took no part in the merge, and are as fresh as before
      have still : ∀ x ∈ ps, some x ∉ t.rows ∧ x ∉ [p] := by
        intro x mem
        refine ⟨fresh x (List.mem_cons_of_mem p mem), ?_⟩
        rw [List.mem_singleton]
        rintro rfl
        exact notin mem
      have rows' : List.Forall₂
          (fun p r => rowAt tb.rowHeap p = some r ∧ r.data.length = tb.colPhy) ps rs := by
        rw [wide]
        apply ((List.forall₂_and_left ps rs).mpr ⟨still, rows⟩).imp
        rintro x r ⟨out, hx⟩
        rw [mg.other x out.1 out.2]
        exact hx
      have fresh' : ∀ x ∈ ps, some x ∉ tb.rows := by
        intro x mem h
        rcases mg.mem x h with h | h
        · exact (still x mem).1 h
        · exact (still x mem).2 h
      apply Yields.imp (ih fi' (up.sameCols sc) rows' fresh' nodup)
      rintro ⟨ix', tb'⟩ ⟨ei', sc', mg', fi'', es'⟩
      simp only at ei' sc' mg' fi'' es'
      refine ⟨?_, sc.trans sc', mg.trans mg', fi'', ?_⟩
      · rw [ei', ei]
      · rw [es', phy, es]
        rfl

/-- `insertRows` of fresh rows puts their values into the slots, in order. -/
theorem insertRows_spec {ps : List RowPtr} {rs : List Row} (one : t.indexs = [index])
    (fi : Filing hashCombine index t) (up : UpdAt t u)
    (rows : List.Forall₂ (fun p r => rowAt t.rowHeap p = some r ∧ r.data.length = t.colPhy) ps rs)
    (fresh : ∀ p ∈ ps, some p ∉ t.rows) (nodup : ps.Nodup) :
    Yields (t.insertRows hashCombine ps) fun t' => ∃ index',
      index' = { index with hash := index'.hash } ∧
      SameCols t t' ∧ Merged ps t t' ∧ t'.indexs = [index'] ∧
      Filing hashCombine index' t' ∧
      slots t'.rows t'.rowHeap =
        (rs.map Row.record).foldl (put (slotKey hashCombine index.hashPhy) (Record.rank u))
          (slots t.rows t.rowHeap) := by
  rw [Table.insertRows, one]
  apply Yields.bind (insertRow_each fi up rows fresh nodup)
  rintro ⟨ix, tb⟩ ⟨ei, sc, mg, fi', es⟩
  simp only at ei sc mg fi' es
  refine .ok ⟨ix, ei, ?_, ⟨mg.heap_length, mg.mem, mg.value, mg.other⟩, rfl,
    ⟨fi'.ranged, fi'.slotted, fi'.filed⟩, es⟩
  rw [sc]
  rfl

end

end TdsqlMerge.Store
