import Mathlib.Data.List.Nodup
import TdsqlMerge.Store.Headers
import TdsqlMerge.Store.Integrity

/-!
# What a temporary index is over

A table without a key has a temporary index, over all its columns but `updated_at` (`TempOver`). Every
operation keeps it that way as long as `updated_at` is not dropped (`settled_tempOver`): ADDCOL builds it
anew, and DROPCOL takes the column out of it.
-/

namespace TdsqlMerge.Store
open Lib

/-- A temporary index is over all columns but `updated_at`. -/
structure TempOver (t : Table) (u : ColPtr) (index : UniqueIndex) : Prop where
  upd_mem : index.isTemp = true → u ∈ t.colDes
  perm : index.isTemp = true → index.cols.Perm (t.colDes.erase u)

section
variable {hashCombine : UInt64 → Str → UInt64} {t t' : Table} {u u' : ColPtr} {index index' : UniqueIndex}

/-- The columns of a temporary index. -/
lemma TempOver.mem_iff (spans : TempOver t u index) (la : Layout t) (isTemp : index.isTemp = true)
    {c : ColPtr} : c ∈ index.cols ↔ c ∈ t.colDes ∧ c ≠ u := by
  rw [(spans.perm isTemp).mem_iff, la.nodup.mem_erase_iff, and_comm]

/-- A named index is none. -/
lemma TempOver.of_named (named : index.isTemp = false) : TempOver t u index := by
  constructor <;>
  · intro isTemp
    rw [named] at isTemp
    cases isTemp

/-- An index that was just built over all columns but `updated_at`. -/
lemma TempOver.of_temp (mem : u ∈ t.colDes) (hd : index.header = Header.temp (t.colDes.erase u)) :
    TempOver t u index := by
  refine ⟨fun _ => mem, fun _ => ?_⟩
  rw [show index.cols = t.colDes.erase u from congrArg Header.cols hd]

/-- The property only depends on the columns and on the header of the index. -/
lemma TempOver.of_header (spans : TempOver t u index) (colDes : t'.colDes = t.colDes)
    (hd : index'.header = index.header) : TempOver t' u index' := by
  have temp : index'.isTemp = index.isTemp := congrArg Header.isTemp hd
  have cols : index'.cols = index.cols := congrArg Header.cols hd
  exact ⟨fun isTemp => colDes ▸ spans.upd_mem (temp ▸ isTemp), fun isTemp => by
    rw [cols, colDes]
    exact spans.perm (temp ▸ isTemp)⟩

/-- A sound table has the header of its index. -/
lemma Sound.headers (so : Sound hashCombine t u index) : t.headers = [index.header] := by
  rw [Table.headers, so.indexs]
  rfl

/-- The index of a sound table has the only header. -/
lemma Sound.header_eq {h : Header} (so : Sound hashCombine t u index) (one : t.headers = [h]) :
    index.header = h := by
  rw [so.headers] at one
  exact (List.cons.inj one).1

/-- A temporary index that the operation built. -/
lemma Sound.tempOver {v : ColPtr} (so : Sound hashCombine t u index) (upd : t.updCol = some v)
    (mem : v ∈ t.colDes) (one : t.headers = [Header.temp (t.colDes.erase v)]) : TempOver t u index := by
  have same : v = u := Option.some.inj (upd.symm.trans so.upd.col)
  subst same
  exact .of_temp mem (so.header_eq one)

/-- After `addColumn` a temporary index is over all columns. -/
lemma addColumnOf_tempOver {col : ColumnStatement} {after : Option Str} (so : Sound hashCombine t u index)
    (so' : Sound hashCombine t' u' index') (run : t.addColumnOf hashCombine col after = .ok t') :
    TempOver t' u' index' := by
  obtain ⟨perm, temp⟩ := addColumnOf_headers run
  cases isTemp : index.isTemp with
  | false =>
    have hd : index'.header = index.header := by
      apply so'.header_eq
      rw [perm, so.headers]
      intro h head
      rw [so.headers, List.head?_cons, Option.some.injEq] at head
      rw [← head]
      exact isTemp
    exact .of_named ((congrArg Header.isTemp hd).trans isTemp)
  | true =>
    obtain ⟨v, upd, mem, one⟩ := temp _ so.headers isTemp
    exact so'.tempOver upd mem one

/-- After `dropColumn` a temporary index is over the columns left. -/
lemma dropColumn_tempOver {name : Str} (so : Sound hashCombine t u index)
    (so' : Sound hashCombine t' u' index') (spans : TempOver t u index)
    (kept : t.colDes.find? (t.hasName name) ≠ some u)
    (run : t.dropColumn hashCombine name = .ok t') : TempOver t' u' index' := by
  have cd := dropColumn_cols run
  obtain ⟨c, find, colDes⟩ := cd.colDes
  have same : u' = u := by
    have upd := so'.upd.col
    rw [cd.updCol, so.upd.col] at upd
    exact (Option.some.inj upd).symm
  subst same
  obtain ⟨last, rest⟩ := dropColumn_headers run find
  by_cases none : t.headersWithout c = []
  · obtain ⟨v, upd, mem, one⟩ := last none
    rw [← colDes] at mem one
    rw [← cd.updCol] at upd
    exact so'.tempOver upd mem one
  · have one := rest none
    rw [Table.headersWithout, so.headers, List.map_singleton, List.filter_singleton] at one none
    cases left : decide ((Header.erase c index.header).cols ≠ []) with
    | false =>
      rw [left] at none
      exact absurd rfl none
    | true =>
      rw [left] at one
      have hd := so'.header_eq one
      have temp : index'.isTemp = index.isTemp := congrArg Header.isTemp hd
      have cols : index'.cols = index.cols.erase c := congrArg Header.cols hd
      have ne : u' ≠ c := fun e => kept (e ▸ find)
      refine ⟨fun isTemp => ?_, fun isTemp => ?_⟩
      · rw [colDes]
        exact (List.mem_erase_of_ne ne).mpr (spans.upd_mem (temp ▸ isTemp))
      · rw [cols, colDes, List.erase_comm]
        exact (spans.perm (temp ▸ isTemp)).erase c

/-- After `dropUniqueIndex` a temporary index is over all columns. -/
lemma dropUniqueIndex_tempOver {isPrimary isTemp : Bool} {indexName : Str}
    (so : Sound hashCombine t u index) (so' : Sound hashCombine t' u' index') (spans : TempOver t u index)
    (run : t.dropUniqueIndex hashCombine isPrimary isTemp indexName = .ok t') : TempOver t' u' index' := by
  have sc := dropUniqueIndex_cols run
  obtain ⟨none, some⟩ := dropUniqueIndex_headers run
  rw [so.headers, List.findIdx?_singleton] at none some
  split at none
  · rename_i meant
    rw [if_pos meant] at some
    obtain ⟨v, upd, mem, one⟩ := (some 0 rfl).1 rfl
    have colDes : t'.colDes = t.colDes := by rw [sc]
    rw [← colDes] at mem one
    refine so'.tempOver ?_ mem one
    rw [sc]
    exact upd
  · obtain rfl := none rfl
    have same : u' = u := Option.some.inj (so'.upd.col.symm.trans so.upd.col)
    subst same
    exact spans.of_header rfl (so'.header_eq so.headers)

/-- Statements keep it, unless they drop `updated_at`. -/
lemma fillToTable_tempOver {statement : Statement} (so : Sound hashCombine t u index)
    (so' : Sound hashCombine t' u' index') (spans : TempOver t u index) (alter : statement.isAlter = true)
    (kept : ∀ name, statement = .dropCol name → t.colDes.find? (t.hasName name) ≠ some u)
    (run : statement.fillToTable hashCombine t = .ok t') : TempOver t' u' index' := by
  have same : t'.updCol = t.updCol → u' = u := by
    intro e
    rw [so'.upd.col, so.upd.col] at e
    exact Option.some.inj e
  cases statement with
  | create name cols indexs => cases alter
  | addCol col after => exact addColumnOf_tempOver so so' run
  | nothing =>
    cases run
    obtain rfl := same rfl
    exact spans.of_header rfl (so'.header_eq so.headers)
  | dropCol name => exact dropColumn_tempOver so so' spans (kept name rfl) run
  | dropIndex isPrimary indexName => exact dropUniqueIndex_tempOver so so' spans run
  | addIndex isPrimary indexName cols =>
    obtain ⟨_, _, _, one⟩ := addUniqueIndex_headers run
    exact .of_named (congrArg Header.isTemp (so'.header_eq one))
  | changeCol col prevName =>
    have cc := changeCol_cols run
    obtain rfl := same cc.updCol
    have hd : t'.headers = t.headers := by rw [Table.headers, changeCol_indexs run, Table.headers]
    exact spans.of_header cc.colDes (so'.header_eq (hd.trans so.headers))

/-- CREATE builds a temporary index over all columns but `updated_at`. -/
lemma fillCreate_tempOver {cols : List ColumnStatement} {indexs : List IndexStatement}
    (so : Sound hashCombine t u index) (le : indexs.length ≤ 1)
    (run : Table.new.fillCreate hashCombine cols indexs = .ok t) : TempOver t u index := by
  match indexs, le with
  | [key], _ =>
    obtain ⟨index', one, named, _⟩ := fillCreate_keyed run
    rw [so.indexs] at one
    exact .of_named ((List.cons.inj one).1 ▸ named)
  | [], _ =>
    rw [Table.fillCreate, bind_ok] at run
    obtain ⟨t1, fold, run⟩ := run
    obtain ⟨rl1, bare, _⟩ := (addColumns_bare Rowless.new rfl).of_ok fold
    obtain ⟨t2, none, run⟩ := bind_ok.mp run
    cases none
    have temp : t1.pushTemp hashCombine = .ok t := run
    obtain ⟨v, upd, mem, one⟩ := pushTemp_headers temp
    have sc := pushTemp_cols temp
    have colDes : t.colDes = t1.colDes := by rw [sc]
    have empty : t1.headers = [] := by
      rw [Table.headers, bare]
      rfl
    rw [empty, List.nil_append] at one
    rw [← colDes] at mem one
    refine so.tempOver ?_ mem one
    rw [sc]
    exact upd

end

section
variable (hashCombine : UInt64 → Str → UInt64)

/-- The reachable tables, as long as `updated_at` is not dropped. -/
inductive Settled : Table → Prop where
  | create {cols indexs t} :
    Table.new.fillCreate hashCombine cols indexs = .ok t →
    indexs.length ≤ 1 →
    (∃ col ∈ cols, col.name = updatedAt) →
    Settled t
  | alter {t t'} {statement : Statement} :
    Settled t →
    statement.isAlter = true →
    (∀ name, statement = .dropCol name → t.colDes.find? (t.hasName name) ≠ t.updCol) →
    statement.fillToTable hashCombine t = .ok t' →
    Settled t'
  | insert {t t'} {rs : List Row} :
    Settled t →
    (∀ r ∈ rs, r.data.length = t.colPhy) →
    (t.alloc rs).insertRows hashCombine (t.fresh rs) = .ok t' →
    Settled t'

/-- A temporary index is over all columns but `updated_at` at any time. -/
theorem settled_tempOver {t : Table} (st : Settled hashCombine t) :
    ∃ u index, Sound hashCombine t u index ∧ TempOver t u index := by
  induction st with
  | create run le has =>
    obtain ⟨u, index, so⟩ := fillCreate_sound run le has
    exact ⟨u, index, so, fillCreate_tempOver so le run⟩
  | alter _ alter kept run ih =>
    obtain ⟨u, index, so, spans⟩ := ih
    obtain ⟨u', index', so'⟩ := fillToTable_sound so alter run
    refine ⟨u', index', so', fillToTable_tempOver so so' spans alter ?_ run⟩
    rw [← so.upd.col]
    exact kept
  | insert _ wide run ih =>
    obtain ⟨u, index, so, spans⟩ := ih
    obtain ⟨index', _, sc, so', _⟩ := (insertRows_sound so wide).of_ok run
    have hd : _ = Table.headers _ := insertRows_headers run
    refine ⟨u, index', so', spans.of_header ?_ (so'.header_eq (hd.trans so.headers))⟩
    rw [sc]

end

end TdsqlMerge.Store
