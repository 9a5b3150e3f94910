import Mathlib.Data.List.InsertIdx
import TdsqlMerge.Store.Headers
import TdsqlMerge.Store.Refusals

/-!
# The catalogue of the columns

A table describes its columns in several places: `colDes`, the descriptors, `nameToColDes` and `updCol`.
`declared` is the catalogue as the statements define it: each column with the name, the type and the default of
its latest definition. `catalogue_kept` says that the places agree with it, and with each other, through
every run whose statements pass `Keeps`: a column has the name of no other, CHANGECOL changes neither a name
nor a type, and no temporary index is built after `updated_at` was dropped. `catalogue_not_kept` shows what
other statements do.
-/

namespace TdsqlMerge.Store
open Lib

/-- What a definition says of a column. -/
structure Declared where
  name : Str
  type : Str
  default : Option Str
deriving DecidableEq

/-- What a statement declares of a column. -/
def ColumnStatement.declared (col : ColumnStatement) : Declared :=
  { name := col.name, type := col.type, default := col.defaultStr }

/-- What a descriptor holds of it. -/
def ColumnDescriptor.declared (d : ColumnDescriptor) : Declared :=
  { name := d.name, type := d.type, default := d.defStr }

/-- What the descriptor of a column says. -/
def Table.declared (t : Table) (c : ColPtr) : Option Declared := (t.colHeap[c]?).map ColumnDescriptor.declared

/-- The columns after a statement, as the statement defines them. -/
def Statement.declared (cat : List Declared) : Statement → List Declared
  | .create _ cols _ => cols.map ColumnStatement.declared
  | .addCol col none => cat ++ [col.declared]
  | .addCol col (some after) =>
    match cat.findIdx? fun d => decide (d.name = after) with
    | some i => cat.insertIdx (i + 1) col.declared
    | none => cat
  | .dropCol colName => cat.filter fun d => d.name ≠ colName
  | .changeCol col prevName => cat.map fun d => if d.name = prevName then col.declared else d
  | .nothing | .dropIndex .. | .addIndex .. => cat

/-- Does the statement leave the table without an index, so that a temporary one is built? -/
def Statement.EmptiesIndexs (t : Table) : Statement → Prop
  | .addCol _ _ => t.OneTemp
  | .dropCol colName => ∃ c, t.colDes.find? (t.hasName colName) = some c ∧ t.headersWithout c = []
  | .dropIndex isPrimary indexName => ∃ index, t.indexs = [index] ∧ index.isMeant isPrimary false indexName
  | .create .. | .nothing | .addIndex .. | .changeCol .. => False

/-- The definition is one that the table keeps track of. -/
def Statement.Tracked (cat : List Declared) : Statement → Prop
  | .create _ cols _ => (cols.map ColumnStatement.name).Nodup
  | .addCol col _ => col.name ∉ cat.map Declared.name
  | .changeCol col prevName => col.name = prevName ∧ ∀ d ∈ cat, d.name = prevName → d.type = col.type
  | .dropCol _ | .nothing | .dropIndex .. | .addIndex .. => True

/-- The definition is tracked, and a temporary index is only built over columns that include `updated_at`. -/
structure Statement.Keeps (t : Table) (cat : List Declared) (statement : Statement) : Prop where
  tracked : statement.Tracked cat
  updated : statement.EmptiesIndexs t → updatedAt ∈ (statement.declared cat).map Declared.name

/-- `updCol` is a column of the table. -/
def Table.HasUpd (t : Table) : Prop := ∃ u ∈ t.colDes, t.updCol = some u

section
variable (hashCombine : UInt64 → Str → UInt64)

/-- The index that `dropUniqueIndex` erases is the last, and `new UniqueIndex(this)` runs on `t0`. -/
def Table.DropsLast (t : Table) (isPrimary isTemp : Bool) (indexName : Str) (t0 : Table) : Prop :=
  ∃ i, (t.indexs.findIdx? fun index => index.isMeant isPrimary isTemp indexName) = some i ∧
    t.indexs.eraseIdx i = [] ∧ t0 = { t with indexs := [] }

/-- `fillToTable` runs `new UniqueIndex(this)` on `t0`. -/
def Statement.BuildsTemp (t : Table) : Statement → Table → Prop
  | .create _ cols indexs, t0 =>
    indexs = [] ∧ cols.foldlM (fun t col => t.addColumnOf hashCombine col none) t = .ok t0
  | .addCol col after, t0 => ∃ t1 t2 t3 index rest,
    (t.newCol (.new col.name col.type col.defaultStr)).placeColumn t.colHeap.length after = .ok t1 ∧
    t1.registerColumn t.colHeap.length = .ok t2 ∧
    t2.rows.foldlM (Table.pushCell (col.defaultStr.getD [])) t2 = .ok t3 ∧
    t3.indexs = index :: rest ∧ index.isTemp = true ∧ t3.DropsLast false true [] t0
  | .dropCol colName, t0 => ∃ c s, t.colDes.find? (t.hasName colName) = some c ∧
    Table.deleteColFrom hashCombine c t.indexs t = .ok s ∧ s.1 = [] ∧
    t0 = { s.2 with indexs := [], colDes := s.2.colDes.erase c }
  | .dropIndex isPrimary indexName, t0 => t.DropsLast isPrimary false indexName t0
  | .nothing, _ | .addIndex .., _ | .changeCol .., _ => False

/-- The tables that a CREATE with `updated_at`, ALTER statements that satisfy `ok` and batches lead to, with
    their columns as the statements define them. -/
inductive CatalogueRun (ok : Table → List Declared → Statement → Prop) : Table → List Declared → Prop where
  | create {name cols indexs t} :
    Statement.fillToTable hashCombine .new (.create name cols indexs) = .ok t →
    (∃ col ∈ cols, col.name = updatedAt) →
    ok .new [] (.create name cols indexs) →
    CatalogueRun ok t (Statement.declared [] (.create name cols indexs))
  | alter {t t' cat} {statement : Statement} :
    CatalogueRun ok t cat →
    statement.isAlter = true →
    ok t cat statement →
    statement.fillToTable hashCombine t = .ok t' →
    CatalogueRun ok t' (statement.declared cat)
  | batch {t t1 t' cat dat source startStamp ps stamp} :
    CatalogueRun ok t cat →
    t.parseData dat source startStamp = .ok (ps, stamp, t1) →
    t1.insertRows hashCombine ps = .ok t' →
    CatalogueRun ok t' cat

end

/-- The columns of the table are those of `cat`, and `nameToColDes` has one entry for each, its name. -/
structure Catalogued (t : Table) (cat : List Declared) : Prop where
  declared : t.colDes.map t.declared = cat.map some
  entries : ∀ name c, t.nameToColDes name = some c ↔ c ∈ t.colDes ∧ t.hasName name c = true

/-- The catalogue, with what makes `updCol` follow it. -/
structure Consistent (t : Table) (cat : List Declared) : Prop where
  layout : Layout t
  catalogued : Catalogued t cat
  upd : updatedAt ∈ cat.map Declared.name → ∃ u ∈ t.colDes, t.updCol = some u ∧ t.hasName updatedAt u = true

/-! ### Descriptors -/

section
variable {hashCombine : UInt64 → Str → UInt64} {t t' : Table} {cat : List Declared} {name : Str} {c c' : ColPtr}

/-- A column has the name that is declared for it. -/
lemma hasName_declared : t.hasName name c = (t.declared c).any fun d => decide (d.name = name) := by
  rw [Table.hasName, Table.declared, Option.any_map]
  rfl

/-- A column has a name when it is declared under it. -/
lemma hasName_iff : t.hasName name c = true ↔ ∃ d, t.declared c = some d ∧ d.name = name := by
  simp [hasName_declared, Option.any_eq_true]

/-- A column has one name. -/
lemma hasName_inj {name' : Str} (named : t.hasName name c = true) (named' : t.hasName name' c = true) :
    name = name' := by
  obtain ⟨d, e, rfl⟩ := hasName_iff.mp named
  obtain ⟨d', e', rfl⟩ := hasName_iff.mp named'
  rw [e] at e'
  cases e'
  rfl

/-- The catalogue names the columns of the table. -/
lemma Catalogued.mem_names (ct : Catalogued t cat) :
    name ∈ cat.map Declared.name ↔ ∃ c ∈ t.colDes, t.hasName name c = true := by
  rw [List.mem_map]
  constructor
  · rintro ⟨d, mem, rfl⟩
    have mem : some d ∈ t.colDes.map t.declared := by
      rw [ct.declared]
      exact List.mem_map_of_mem mem
    obtain ⟨c, mem, e⟩ := List.mem_map.mp mem
    exact ⟨c, mem, hasName_iff.mpr ⟨d, e, rfl⟩⟩
  · rintro ⟨c, mem, named⟩
    obtain ⟨d, e, rfl⟩ := hasName_iff.mp named
    have mem : some d ∈ cat.map some := by
      rw [← ct.declared, ← e]
      exact List.mem_map_of_mem mem
    obtain ⟨d', mem, e⟩ := List.mem_map.mp mem
    cases e
    exact ⟨d, mem, rfl⟩

/-- No two columns have one name. -/
lemma Catalogued.unique (ct : Catalogued t cat) (mem : c ∈ t.colDes) (mem' : c' ∈ t.colDes)
    (named : t.hasName name c = true) (named' : t.hasName name c' = true) : c = c' := by
  have entry := (ct.entries name c).mpr ⟨mem, named⟩
  have entry' := (ct.entries name c').mpr ⟨mem', named'⟩
  rw [entry] at entry'
  exact Option.some.inj entry'

/-- Merging rows and building indexes keep the catalogue. -/
lemma Consistent.sameCols (co : Consistent t cat) (sc : SameCols t t') : Consistent t' cat := by
  refine ⟨co.layout.sameCols sc, ?_, ?_⟩
  · rw [sc]
    exact ⟨co.catalogued.declared, co.catalogued.entries⟩
  · rw [sc]
    exact co.upd

/-! ### ADDCOL -/

/-- `placeColumn` changes the order of the columns only. -/
lemma placeColumn_colDes {newCol : ColPtr} {after : Option Str} (run : t.placeColumn newCol after = .ok t') :
    t' = { t with colDes := t'.colDes } := by
  cases after with
  | none =>
    cases run
    rfl
  | some name =>
    rw [Table.placeColumn] at run
    split at run
    · cases run
    · cases run
      rfl

/-- Placing and registering a column enters its name. -/
lemma registered_names {col : ColumnStatement} {after : Option Str} {t1 t2 : Table}
    (place : (t.newCol (.new col.name col.type col.defaultStr)).placeColumn t.colHeap.length after = .ok t1)
    (register : t1.registerColumn t.colHeap.length = .ok t2) :
    t2.nameToColDes = Function.update t.nameToColDes col.name (some t.colHeap.length) := by
  rw [placeColumn_colDes place] at register
  simp only [Table.registerColumn, Table.newCol, Table.col, List.getElem?_concat_length, deref_some,
    ok_bind] at register
  cases register
  rfl

/-- `addColumn` enters the name of the new column. -/
lemma addColumnOf_names {col : ColumnStatement} {after : Option Str}
    (run : t.addColumnOf hashCombine col after = .ok t') :
    t'.nameToColDes = Function.update t.nameToColDes col.name (some t.colHeap.length) := by
  simp only [Table.addColumnOf, Table.addColumn, bind_ok] at run
  obtain ⟨t1, place, t2, register, d, hd, t3, push, run⟩ := run
  have same : SameCols t2 t' := by
    split at run
    · cases run
      exact pushCells_cols push
    · split at run
      · exact (pushCells_cols push).trans (dropUniqueIndex_cols run)
      · cases run
        exact pushCells_cols push
  have names := registered_names place register
  rw [same]
  exact names

/-- What is declared for the columns once one is added. -/
lemma ColumnAdded.declared {col : ColumnStatement} {after : Option Str} (ca : ColumnAdded col after t t') :
    t'.declared c = if c = t.colHeap.length then some col.declared else t.declared c := by
  rw [Table.declared, ca.colHeap]
  split
  · rename_i new
    rw [new, List.getElem?_concat_length]
    rfl
  · rename_i old
    have heap : (t.colHeap ++ [col.descriptor t.colPhy])[c]? = t.colHeap[c]? := by
      rcases Nat.lt_or_gt_of_ne old with lt | gt
      · exact List.getElem?_append_left lt
      · rw [List.getElem?_eq_none gt.le, List.getElem?_eq_none]
        rw [List.length_append]
        exact gt
    rw [heap, Table.declared]

/-- A new column has its name, the others keep theirs. -/
lemma ColumnAdded.hasName {col : ColumnStatement} {after : Option Str} (ca : ColumnAdded col after t t') :
    t'.hasName name c = if c = t.colHeap.length then decide (col.name = name) else t.hasName name c := by
  rw [hasName_declared, ca.declared]
  split
  · rfl
  · rw [hasName_declared]

/-- The new column stands in the table where it stands in the catalogue. -/
lemma Catalogued.placed {col : ColumnStatement} {after : Option Str} (ct : Catalogued t cat) (la : Layout t)
    (ca : ColumnAdded col after t t') :
    t'.colDes.map t'.declared = (Statement.declared cat (.addCol col after)).map some := by
  have new : t'.declared t.colHeap.length = some col.declared := by rw [ca.declared, if_pos rfl]
  have old : t.colDes.map t'.declared = cat.map some := by
    rw [← ct.declared]
    apply List.map_congr_left
    intro c mem
    rw [ca.declared, if_neg]
    rw [la.heap_length]
    exact (la.lt c mem).ne
  have placed := ca.colDes
  cases after with
  | none =>
    rw [show t'.colDes = t.colDes ++ [t.colHeap.length] from placed, List.map_append, old, Statement.declared,
      List.map_append, List.map_singleton, new]
    rfl
  | some name =>
    obtain ⟨i, find, e⟩ := placed
    have find' : (cat.findIdx? fun d => decide (d.name = name)) = some i := by
      have allocated : t.colDes.map (t.newCol (.new col.name col.type col.defaultStr)).declared = cat.map some := by
        rw [← ct.declared]
        apply List.map_congr_left
        intro c mem
        rw [Table.declared, Table.newCol, List.getElem?_append_left, Table.declared]
        rw [la.heap_length]
        exact la.lt c mem
      have same : (cat.map some).findIdx? (fun o => o.any fun d => decide (d.name = name)) = some i := by
        rw [← allocated, List.findIdx?_map, ← find]
        apply congrArg (t.colDes.findIdx? ·)
        funext c
        exact hasName_declared.symm
      rwa [List.findIdx?_map] at same
    rw [e, List.map_insertIdx, old, new, Statement.declared, find', List.map_insertIdx]

/-- The columns once one is added. -/
lemma ColumnAdded.mem {col : ColumnStatement} {after : Option Str} (ca : ColumnAdded col after t t') {c : ColPtr} :
    c ∈ t'.colDes ↔ c = t.colHeap.length ∨ c ∈ t.colDes := by
  rw [ca.colDes.perm.mem_iff, List.mem_cons]

/-- The next column is not among those of the table. -/
lemma Consistent.fresh (co : Consistent t cat) : ∀ c ∈ t.colDes, c ≠ t.colHeap.length := by
  intro c mem
  rw [co.layout.heap_length]
  exact (co.layout.lt c mem).ne

/-- A column under a new name joins the catalogue. -/
lemma Consistent.catalogued_columnAdded {col : ColumnStatement} {after : Option Str} (co : Consistent t cat)
    (ca : ColumnAdded col after t t')
    (names : t'.nameToColDes = Function.update t.nameToColDes col.name (some t.colHeap.length))
    (new : col.name ∉ cat.map Declared.name) :
    Catalogued t' (Statement.declared cat (.addCol col after)) := by
  refine ⟨co.catalogued.placed co.layout ca, ?_⟩
  intro name c
  rw [names, Function.update_apply, ca.mem, ca.hasName]
  by_cases same : name = col.name
  · subst same
    rw [if_pos rfl, Option.some.injEq]
    constructor
    · rintro rfl
      rw [if_pos rfl]
      exact ⟨Or.inl rfl, decide_eq_true rfl⟩
    · rintro ⟨rfl | before, named⟩
      · rfl
      · rw [if_neg (co.fresh c before)] at named
        exact absurd (co.catalogued.mem_names.mpr ⟨c, before, named⟩) new
  · rw [if_neg same, co.catalogued.entries]
    constructor
    · rintro ⟨before, named⟩
      rw [if_neg (co.fresh c before)]
      exact ⟨Or.inr before, named⟩
    · rintro ⟨rfl | before, named⟩
      · rw [if_pos rfl] at named
        exact absurd (of_decide_eq_true named).symm same
      · rw [if_neg (co.fresh c before)] at named
        exact ⟨before, named⟩

/-- The table stays consistent when a column under a new name is added. -/
lemma Consistent.columnAdded {col : ColumnStatement} {after : Option Str} (co : Consistent t cat)
    (ca : ColumnAdded col after t t')
    (names : t'.nameToColDes = Function.update t.nameToColDes col.name (some t.colHeap.length))
    (new : col.name ∉ cat.map Declared.name) :
    Consistent t' (Statement.declared cat (.addCol col after)) := by
  have ct := co.catalogued_columnAdded ca names new
  refine ⟨co.layout.columnAdded ca, ct, ?_⟩
  intro has
  by_cases upd : col.name = updatedAt
  · refine ⟨t.colHeap.length, ca.mem.mpr (Or.inl rfl), ?_, ?_⟩
    · rw [ca.updCol, if_pos upd]
    · rw [ca.hasName, if_pos rfl]
      exact decide_eq_true upd
  · obtain ⟨c, inside, named⟩ := ct.mem_names.mp has
    rw [ca.hasName] at named
    split at named
    · exact absurd (of_decide_eq_true named) upd
    · rename_i ne
      have before := co.catalogued.mem_names.mpr ⟨c, (ca.mem.mp inside).resolve_left ne, named⟩
      obtain ⟨u, hu, at_u, named⟩ := co.upd before
      refine ⟨u, ca.mem.mpr (Or.inr hu), ?_, ?_⟩
      · rw [ca.updCol, if_neg upd, at_u]
      · rw [ca.hasName, if_neg (co.fresh u hu), named]

/-! ### DROPCOL and CHANGECOL -/

/-- `dropColumn` removes the entry of the name. -/
lemma dropColumn_names (run : t.dropColumn hashCombine name = .ok t') :
    t'.nameToColDes = Function.update t.nameToColDes name none := by
  obtain ⟨c, s, t3, find, del, temp, rfl⟩ := dropColumn_ok run
  have same : SameCols { s.2 with indexs := s.1, colDes := s.2.colDes.erase c } t3 := by
    split at temp
    · exact pushTemp_cols temp
    · rw [temp]
      rfl
  have kept : s.2.nameToColDes = t.nameToColDes := by rw [deleteColFrom_cols del]
  rw [same, kept]

/-- Dropping a column declares nothing anew. -/
lemma ColumnDropped.declared (cd : ColumnDropped name t t') : t'.declared = t.declared := by
  funext x
  rw [Table.declared, cd.colHeap, Table.declared]

/-- Dropping a column renames none. -/
lemma ColumnDropped.hasName (cd : ColumnDropped name t t') : t'.hasName = t.hasName := by
  funext n x
  rw [hasName_declared, cd.declared, hasName_declared]

/-- The columns but one are those with another name. -/
lemma Consistent.erase_eq_filter {c : ColPtr} (co : Consistent t cat) (inside : c ∈ t.colDes)
    (named : t.hasName name c = true) : t.colDes.erase c = t.colDes.filter fun x => !t.hasName name x := by
  rw [co.layout.nodup.erase_eq_filter]
  apply List.filter_congr
  intro x hx
  rw [Bool.eq_iff_iff, bne_iff_ne, Bool.not_eq_true', ← Bool.not_eq_true]
  apply not_congr
  constructor
  · rintro rfl
    exact named
  · intro named'
    exact co.catalogued.unique hx inside named' named

/-- A dropped column leaves the catalogue. -/
lemma Consistent.catalogued_columnDropped (co : Consistent t cat) (cd : ColumnDropped name t t')
    (names : t'.nameToColDes = Function.update t.nameToColDes name none) :
    Catalogued t' (Statement.declared cat (.dropCol name)) := by
  obtain ⟨c, find, erased⟩ := cd.colDes
  have inside : c ∈ t.colDes := List.mem_of_find?_eq_some find
  have named : t.hasName name c = true := List.find?_some find
  refine ⟨?_, ?_⟩
  · rw [erased, co.erase_eq_filter inside named, cd.declared, Statement.declared]
    have filtered : (t.colDes.map t.declared).filter (fun o => !o.any fun d => decide (d.name = name)) =
        (cat.filter fun d => d.name ≠ name).map some := by
      rw [co.catalogued.declared, List.filter_map]
      apply congrArg (List.map some)
      apply List.filter_congr
      intro d _
      simp
    rw [← filtered, List.filter_map]
    apply congrArg (List.map t.declared)
    apply List.filter_congr
    intro x _
    rw [hasName_declared]
    rfl
  · intro n x
    rw [names, Function.update_apply, erased, co.layout.nodup.mem_erase_iff, cd.hasName]
    by_cases same : n = name
    · subst same
      rw [if_pos rfl]
      constructor
      · intro absent
        cases absent
      · rintro ⟨⟨ne, hx⟩, named'⟩
        exact absurd (co.catalogued.unique hx inside named' named) ne
    · rw [if_neg same, co.catalogued.entries]
      constructor
      · rintro ⟨hx, named'⟩
        refine ⟨⟨?_, hx⟩, named'⟩
        rintro rfl
        exact same (hasName_inj named' named)
      · rintro ⟨⟨_, hx⟩, named'⟩
        exact ⟨hx, named'⟩

/-- The table stays consistent when a column is dropped. -/
lemma Consistent.columnDropped (co : Consistent t cat) (cd : ColumnDropped name t t')
    (names : t'.nameToColDes = Function.update t.nameToColDes name none) :
    Consistent t' (Statement.declared cat (.dropCol name)) := by
  refine ⟨co.layout.columnDropped cd, co.catalogued_columnDropped cd names, ?_⟩
  intro has
  obtain ⟨c, find, erased⟩ := cd.colDes
  have named : t.hasName name c = true := List.find?_some find
  obtain ⟨d, mem_d, e⟩ := List.mem_map.mp has
  obtain ⟨mem_d, ne⟩ := List.mem_filter.mp mem_d
  obtain ⟨u, hu, at_u, named'⟩ := co.upd (List.mem_map.mpr ⟨d, mem_d, e⟩)
  refine ⟨u, ?_, ?_, ?_⟩
  · rw [erased, co.layout.nodup.mem_erase_iff]
    refine ⟨?_, hu⟩
    rintro rfl
    rw [hasName_inj named' named] at e
    exact of_decide_eq_true ne e
  · rw [cd.updCol, at_u]
  · rw [cd.hasName, named']

section
variable {col : ColumnStatement} {prevName : Str}

/-- CHANGECOL with the old name and the old type gives the column its new declaration. -/
lemma Consistent.changed (co : Consistent t cat) (cc : ColumnChanged col prevName t t')
    (tracked : (Statement.changeCol col prevName).Tracked cat) :
    ∃ c d, c ∈ t.colDes ∧ t.declared c = some d ∧ d.name = prevName ∧
      ∀ x, t'.declared x = if x = c then some col.declared else t.declared x := by
  obtain ⟨same, type⟩ := tracked
  obtain ⟨c, d, find, at_c, heap⟩ := cc.colHeap
  have inside : c ∈ t.colDes := List.mem_of_find?_eq_some find
  have before : t.declared c = some d.declared := by
    rw [Table.declared, at_c]
    rfl
  have name : d.declared.name = prevName := by
    obtain ⟨d', e, name⟩ := hasName_iff.mp (List.find?_some find)
    rw [before] at e
    cases e
    exact name
  -- the catalogue knows the column, so the statement has its type
  have listed : d.declared ∈ cat := by
    have mem := List.mem_map_of_mem (f := t.declared) inside
    rw [co.catalogued.declared, before] at mem
    obtain ⟨e, mem, same⟩ := List.mem_map.mp mem
    cases same
    exact mem
  have kept : d.type = col.type := type d.declared listed name
  refine ⟨c, d.declared, inside, before, name, fun x => ?_⟩
  rw [Table.declared, heap]
  split
  · rename_i at_x
    rw [at_x, List.getElem?_set_self (List.getElem?_eq_some_iff.mp at_c).1, Option.map_some,
      ColumnDescriptor.declared, ColumnStatement.declared, kept]
  · rename_i ne
    rw [List.getElem?_set_ne (Ne.symm ne), Table.declared]

/-- CHANGECOL with the old name and the old type only changes the default. -/
lemma Consistent.columnChanged (co : Consistent t cat)
    (cc : ColumnChanged col prevName t t') (names : t'.nameToColDes = t.nameToColDes)
    (tracked : (Statement.changeCol col prevName).Tracked cat) :
    Consistent t' (Statement.declared cat (.changeCol col prevName)) := by
  obtain ⟨c, d, inside, before, name, after⟩ := co.changed cc tracked
  have same : col.name = prevName := tracked.1
  have named : t.hasName prevName c = true := hasName_iff.mpr ⟨d, before, name⟩
  -- the name stays, so every lookup finds what it found before
  have hasName : t'.hasName = t.hasName := by
    funext n x
    rw [hasName_declared, after]
    split
    · rename_i at_x
      rw [at_x, hasName_declared, before, Option.any_some, Option.any_some]
      have kept : col.declared.name = d.name := same.trans name.symm
      rw [kept]
    · rw [hasName_declared]
  refine ⟨co.layout.columnChanged cc, ⟨?_, ?_⟩, ?_⟩
  · rw [cc.colDes, Statement.declared, List.map_map]
    have each : ∀ x ∈ t.colDes, t'.declared x = (t.declared x).map fun d =>
        if d.name = prevName then col.declared else d := by
      intro x hx
      rw [after]
      split
      · rename_i at_x
        rw [at_x, before, Option.map_some, if_pos name]
      · rename_i ne
        cases e : t.declared x with
        | none => rfl
        | some d' =>
          rw [Option.map_some, if_neg]
          intro named'
          exact ne (co.catalogued.unique hx inside (hasName_iff.mpr ⟨d', e, named'⟩) named)
    rw [List.map_congr_left each]
    have lifted := congrArg (List.map (Option.map fun d => if d.name = prevName then col.declared else d))
      co.catalogued.declared
    rw [List.map_map, List.map_map] at lifted
    exact lifted
  · intro n x
    rw [names, cc.colDes, hasName]
    exact co.catalogued.entries n x
  · intro has
    have has : updatedAt ∈ cat.map Declared.name := by
      obtain ⟨e, mem, upd⟩ := List.mem_map.mp has
      rw [Statement.declared] at mem
      obtain ⟨e', mem', rfl⟩ := List.mem_map.mp mem
      refine List.mem_map.mpr ⟨e', mem', ?_⟩
      split at upd
      · rename_i old
        rw [old, ← same]
        exact upd
      · exact upd
    obtain ⟨u, hu, at_u, named'⟩ := co.upd has
    refine ⟨u, ?_, ?_, ?_⟩
    · rw [cc.colDes]
      exact hu
    · rw [cc.updCol, at_u]
    · rw [hasName, named']

end

/-! ### Runs -/

/-- `changeCol` does not touch `nameToColDes`. -/
lemma changeCol_names {col : ColumnStatement} {prevName : Str} (run : t.changeCol col prevName = .ok t') :
    t'.nameToColDes = t.nameToColDes := by
  rw [Table.changeCol] at run
  split at run
  · cases run
  · rw [bind_ok] at run
    obtain ⟨d, _, e⟩ := run
    cases e
    rfl

/-- An ALTER that is tracked keeps the catalogue. -/
lemma Consistent.alter {statement : Statement} (co : Consistent t cat) (alter : statement.isAlter = true)
    (tracked : statement.Tracked cat) (run : statement.fillToTable hashCombine t = .ok t') :
    Consistent t' (statement.declared cat) := by
  cases statement with
  | create name cols indexs => cases alter
  | addCol col after => exact co.columnAdded (addColumnOf_cols run) (addColumnOf_names run) tracked
  | nothing =>
    cases run
    exact co
  | dropCol name => exact co.columnDropped (dropColumn_cols run) (dropColumn_names run)
  | dropIndex isPrimary name => exact co.sameCols (dropUniqueIndex_cols run)
  | addIndex isPrimary name cols => exact co.sameCols (addUniqueIndex_cols run)
  | changeCol col prevName => exact co.columnChanged (changeCol_cols run) (changeCol_names run) tracked

/-- A new table has an empty catalogue. -/
lemma Consistent.new : Consistent .new [] where
  layout := .new
  catalogued := by
    refine ⟨rfl, ?_⟩
    intro name c
    constructor
    · intro absent
      cases absent
    · rintro ⟨absent, _⟩
      cases absent
  upd := by
    intro absent
    cases absent

/-- The columns of a CREATE with distinct names. -/
lemma Consistent.columns {cols : List ColumnStatement} (co : Consistent t cat)
    (distinct : (cat.map Declared.name ++ cols.map ColumnStatement.name).Nodup)
    (run : cols.foldlM (fun t col => t.addColumnOf hashCombine col none) t = .ok t') :
    Consistent t' (cat ++ cols.map ColumnStatement.declared) := by
  induction cols generalizing t cat with
  | nil =>
    cases run
    rwa [List.map_nil, List.append_nil]
  | cons col cols ih =>
    rw [List.foldlM_cons, bind_ok] at run
    obtain ⟨t1, one, run⟩ := run
    have new : col.name ∉ cat.map Declared.name := by
      intro mem
      exact (List.nodup_append.mp distinct).2.2 _ mem _ List.mem_cons_self rfl
    rw [List.map_cons, List.append_cons] at distinct
    have co1 := co.columnAdded (addColumnOf_cols one) (addColumnOf_names one) new
    have co2 := ih co1 (by
      rw [Statement.declared, List.map_append]
      exact distinct) run
    rwa [Statement.declared, List.append_assoc] at co2

/-- A tracked CREATE TABLE gives a table consistent with what it declares. -/
lemma Consistent.create {name : Str} {cols : List ColumnStatement} {indexs : List IndexStatement}
    (tracked : (Statement.create name cols indexs).Tracked [])
    (run : Statement.fillToTable hashCombine .new (.create name cols indexs) = .ok t) :
    Consistent t (Statement.declared [] (.create name cols indexs)) := by
  rw [Statement.fillToTable, Table.fillCreate, bind_ok] at run
  obtain ⟨t1, columns, run⟩ := run
  rw [bind_ok] at run
  obtain ⟨t2, keys, run⟩ := run
  have co1 : Consistent t1 ([] ++ cols.map ColumnStatement.declared) := Consistent.new.columns tracked columns
  have co2 : Consistent t2 ([] ++ cols.map ColumnStatement.declared) :=
    foldlM_ok (Consistent · _) (fun index _ s s' co run => co.sameCols (pushIndex_cols run)) keys co1
  split at run
  · exact co2.sameCols (pushTemp_cols run)
  · cases run
    exact co2

/-- The columns agree with their definitions along every run whose definitions are tracked. -/
lemma CatalogueRun.consistent {ok : Table → List Declared → Statement → Prop}
    (tracked : ∀ t cat statement, ok t cat statement → statement.Tracked cat)
    (run : CatalogueRun hashCombine ok t cat) : Consistent t cat := by
  induction run with
  | create made _ allowed => exact .create (tracked _ _ _ allowed) made
  | alter _ alter allowed step co => exact co.alter alter (tracked _ _ _ allowed) step
  | batch _ parse insert co => exact (co.sameCols (parseData_cols parse)).sameCols (insertRows_cols insert)

/-! ### Temporary indexes -/

/-- The table whose last index is dropped has this index only. -/
lemma Table.DropsLast.inv {isPrimary isTemp : Bool} {indexName : Str} {t0 : Table}
    (last : t.DropsLast isPrimary isTemp indexName t0) :
    (∃ index, t.indexs = [index] ∧ index.isMeant isPrimary isTemp indexName = true) ∧
      t0 = { t with indexs := [] } := by
  obtain ⟨i, find, empty, rfl⟩ := last
  refine ⟨?_, rfl⟩
  obtain ⟨lt, meant, _⟩ := List.findIdx?_eq_some_iff_getElem.mp find
  have one : t.indexs.length = 1 := by
    have len := congrArg List.length empty
    rw [List.length_eraseIdx_of_lt lt, List.length_nil] at len
    omega
  obtain ⟨index, e⟩ := List.length_eq_one_iff.mp one
  refine ⟨index, e, ?_⟩
  simp only [e] at meant
  simpa using meant

/-- A statement that builds a temporary index on a table leaves that without another. -/
lemma Statement.BuildsTemp.empties {statement : Statement} {t0 : Table} (alter : statement.isAlter = true)
    (builds : statement.BuildsTemp hashCombine t t0) : statement.EmptiesIndexs t := by
  cases statement with
  | create name cols indexs => cases alter
  | nothing => exact builds
  | addIndex isPrimary name cols => exact builds
  | changeCol col prevName => exact builds
  | dropIndex isPrimary name => exact (Table.DropsLast.inv builds).1
  | addCol col after =>
    obtain ⟨t1, t2, t3, index, rest, place, register, push, _, _, last⟩ := builds
    obtain ⟨⟨index', one, temp⟩, _⟩ := last.inv
    obtain ⟨_, _, _, indexs, _⟩ := registered place register
    rw [pushCells_indexs push, indexs] at one
    exact ⟨index', one, temp⟩
  | dropCol name =>
    obtain ⟨c, s, find, del, empty, _⟩ := builds
    refine ⟨c, find, ?_⟩
    have headers := deleteColFrom_headers del
    rw [empty] at headers
    exact headers.symm

/-- A CREATE has `updated_at` among its columns. -/
lemma create_builds {name : Str} {cols : List ColumnStatement} {indexs : List IndexStatement} {t0 : Table}
    (has : ∃ col ∈ cols, col.name = updatedAt)
    (builds : (Statement.create name cols indexs).BuildsTemp hashCombine .new t0) : t0.HasUpd := by
  obtain ⟨_, fold⟩ := builds
  obtain ⟨_, _, ca⟩ := (addColumns_bare Rowless.new rfl).of_ok fold
  obtain ⟨i, col, at_i, _, upd, _⟩ := ca.upd has
  refine ⟨_, ?_, upd⟩
  rw [ca.colDes]
  have lt := (List.getElem?_eq_some_iff.mp at_i).1
  exact List.mem_append_right _ (List.mem_range'_1.mpr ⟨Nat.le_add_right _ _, Nat.add_lt_add_left lt _⟩)

/-- Where a statement that keeps `updated_at` builds the temporary index, the column is known. -/
lemma Consistent.builds {statement : Statement} {t0 : Table} (co : Consistent t cat)
    (alter : statement.isAlter = true) (keeps : statement.Keeps t cat)
    (builds : statement.BuildsTemp hashCombine t t0) : t0.HasUpd := by
  have has := keeps.updated (builds.empties alter)
  cases statement with
  | create name cols indexs => cases alter
  | nothing => exact builds.elim
  | addIndex isPrimary name cols => exact builds.elim
  | changeCol col prevName => exact builds.elim
  | dropIndex isPrimary name =>
    obtain ⟨_, rfl⟩ := Table.DropsLast.inv builds
    obtain ⟨u, hu, at_u, _⟩ := co.upd has
    exact ⟨u, hu, at_u⟩
  | addCol col after =>
    obtain ⟨t1, t2, t3, index, rest, place, register, push, _, _, last⟩ := builds
    obtain ⟨_, rfl⟩ := last.inv
    obtain ⟨ca, _⟩ := registered place register
    have co2 := co.columnAdded ca (registered_names place register) keeps.tracked
    obtain ⟨u, hu, at_u, _⟩ := (co2.sameCols (pushCells_cols push)).upd has
    exact ⟨u, hu, at_u⟩
  | dropCol name =>
    obtain ⟨c, s, find, del, empty, rfl⟩ := builds
    -- the entry of the column goes only after the index is built
    have cd : ColumnDropped name t { s.2 with
        indexs := []
        colDes := s.2.colDes.erase c
        nameToColDes := Function.update t.nameToColDes name none } := by
      rw [deleteColFrom_cols del]
      exact ⟨⟨c, find, rfl⟩, rfl, rfl, rfl⟩
    obtain ⟨u, hu, at_u, _⟩ := (co.columnDropped cd rfl).upd has
    exact ⟨u, hu, at_u⟩

/-- Along every run whose statements pass `Keeps`, the columns and `nameToColDes` agree with the definitions, and
    `updCol` is a column of the table wherever a temporary index is built. -/
theorem catalogue_kept (run : CatalogueRun hashCombine Statement.Keeps t cat) :
    Catalogued t cat ∧
      (∀ (statement : Statement) t0, statement.isAlter = true → statement.Keeps t cat →
        statement.BuildsTemp hashCombine t t0 → t0.HasUpd) ∧
      ∀ name cols indexs t0, (∃ col ∈ cols, col.name = updatedAt) →
        (Statement.create name cols indexs).BuildsTemp hashCombine .new t0 → t0.HasUpd := by
  have co := run.consistent fun _ _ _ keeps => keeps.tracked
  refine ⟨co.catalogued, ?_, ?_⟩
  · intro statement t0 alter keeps builds
    exact co.builds alter keeps builds
  · intro name cols indexs t0 has builds
    exact create_builds has builds

end

/-- The CREATE of a table `(id, updated_at)` with key `id`. -/
def idCreate : Statement :=
  .create "t".toList
    [{ name := "id".toList, type := "int".toList, isNotNull := true, defaultStr := none },
      { name := updatedAt, type := "datetime".toList, isNotNull := true, defaultStr := none }]
    [{ name := [], isPrimaryKey := true, keys := ["id".toList] }]

/-- A new column behind the key. -/
def noteAdded : Statement :=
  .addCol { name := "note".toList, type := "text".toList, isNotNull := false, defaultStr := none } (some "id".toList)

/-- Adding the column `note` to a table of two columns gives the catalogue of three. -/
theorem noteAdded_catalogued : ∃ t t', noteAdded.fillToTable Store.hashCombine t = .ok t' ∧
    Catalogued t' [{ name := "id".toList, type := "int".toList, default := none },
      { name := "note".toList, type := "text".toList, default := none },
      { name := updatedAt, type := "datetime".toList, default := none }] := by
  have made : (idCreate.fillToTable Store.hashCombine .new).isOk = true := by decide +kernel
  obtain ⟨t, made⟩ := ok_of_isOk made
  have added : (idCreate.fillToTable Store.hashCombine .new >>= fun t =>
      noteAdded.fillToTable Store.hashCombine t).isOk = true := by decide +kernel
  rw [made, ok_bind] at added
  obtain ⟨t', added⟩ := ok_of_isOk added
  have run : CatalogueRun Store.hashCombine Statement.Keeps t (Statement.declared [] idCreate) := by
    refine .create made ⟨_, .tail _ (.head _), rfl⟩ ⟨?_, ?_⟩
    · show ["id".toList, updatedAt].Nodup
      decide
    · intro empties
      exact empties.elim
  refine ⟨t, t', added, (catalogue_kept (.alter run rfl ⟨?_, ?_⟩ added)).1⟩
  · show "note".toList ∉ ["id".toList, updatedAt]
    decide
  · intro _
    decide

/-- The key column becomes a `bigint` with another name. -/
def idChanged : Statement :=
  .changeCol { name := "key".toList, type := "bigint".toList, isNotNull := true, defaultStr := none } "id".toList

/-- The change, and the loss of `updated_at`. -/
def idRun : Res Table := do
  let t ← idCreate.fillToTable Store.hashCombine .new
  let t ← idChanged.fillToTable Store.hashCombine t
  Statement.fillToTable Store.hashCombine t (.dropCol updatedAt)

/-- No part of the catalogue is kept by every run: after the change the descriptor has the old type and
    `nameToColDes` the old name, and after the loss of `updated_at` the loss of the key builds a temporary
    index without it. -/
theorem catalogue_not_kept : ¬ ∀ (hashCombine : UInt64 → Str → UInt64) (t : Table) (cat : List Declared),
    CatalogueRun hashCombine (fun _ _ _ => True) t cat →
    t.colDes.map t.declared = cat.map some ∨
      (∀ name c, t.nameToColDes name = some c ↔ c ∈ t.colDes ∧ t.hasName name c = true) ∨
      ∀ (statement : Statement) t0, statement.isAlter = true → statement.BuildsTemp hashCombine t t0 → t0.HasUpd := by
  intro claim
  have runs : (idRun.toOption.any fun t =>
      t.colDes.map t.declared = [some { name := "key".toList, type := "int".toList, default := none }] ∧
      t.nameToColDes "id".toList = some 0 ∧ t.hasName "id".toList 0 = false ∧ t.colDes = [0] ∧
      t.updCol = some 1 ∧ t.indexs.map UniqueIndex.isPrimary = [true]) = true := by
    decide +kernel
  obtain ⟨t, run, h⟩ := ok_of_any runs
  obtain ⟨declared, entry, named, cols, upd, keys⟩ := of_decide_eq_true h
  simp only [idRun, bind_ok] at run
  obtain ⟨t1, made, t2, changed, dropped⟩ := run
  have run : CatalogueRun Store.hashCombine (fun _ _ _ => True) t
      (Statement.declared (Statement.declared (Statement.declared [] idCreate) idChanged) (.dropCol updatedAt)) :=
    .alter (.alter (.create made ⟨_, .tail _ (.head _), rfl⟩ trivial) rfl trivial changed) rfl trivial dropped
  obtain ⟨index, one, primary⟩ := List.map_eq_singleton_iff.mp keys
  rcases claim _ t _ run with same | entries | inside
  · rw [declared] at same
    revert same
    decide
  · have absent := ((entries "id".toList 0).mp entry).2
    rw [named] at absent
    cases absent
  · have last : t.DropsLast true false [] { t with indexs := [] } := by
      refine ⟨0, ?_, ?_, rfl⟩
      · rw [one, List.findIdx?_singleton, UniqueIndex.isMeant, if_pos rfl, primary]
        rfl
      · rw [one]
        rfl
    obtain ⟨u, mem, at_u⟩ := inside (.dropIndex true []) _ rfl last
    rw [upd] at at_u
    cases at_u
    rw [show ({ t with indexs := [] } : Table).colDes = [0] from cols] at mem
    revert mem
    decide

end TdsqlMerge.Store
