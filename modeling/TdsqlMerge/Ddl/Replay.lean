import TdsqlMerge.Ddl.Schema
import TdsqlMerge.Store.Headers
import TdsqlMerge.Store.Operations
import TdsqlMerge.Store.SubWorker

/-!
# Replaying the files

`Mirror` relates the replayed table to the schema: a column of the schema is the column pointer of its
creation, its name in the table is the spelling of its latest definition, and the indexes are the keys, or
a temporary index if there is none. The order of the columns is not part of it. `resolvable` is the
condition under which a statement finds its columns and indexes by name, `Mirrored.trace` the step lemma and
`run_mirror` the induction over the statements of a table.
-/

namespace TdsqlMerge.Ddl
open Lib Splitter Store

/-! ### The relation -/

/-- The columns of the table are those of the schema, in any order. -/
structure MirrorColumns (s : Schema) (t : Table) : Prop where
  heap : t.colHeap.length = s.next
  order : t.colDes.Perm (s.columns.map Column.id)
  nodup : (s.columns.map Column.id).Nodup
  named : ∀ c ∈ s.columns, (t.colHeap[c.id]?).map ColumnDescriptor.name = some c.spelling

/-- The header of the index of a key. -/
def Key.header (k : Key) : Header :=
  { name := k.spelling, cols := k.columns, isPrimary := k.isPrimary, isTemp := false }

/-- The indexes are the keys, or a temporary one. -/
structure MirrorKeys (s : Schema) (t : Table) : Prop where
  temp : s.keys = [] → ∃ cols, t.headers = [Header.temp cols]
  keyed : s.keys ≠ [] → t.headers = s.keys.map Key.header

/-- The table has the columns and the keys of the schema. -/
structure Mirror (s : Schema) (t : Table) : Prop where
  columns : MirrorColumns s t
  keys : MirrorKeys s t

/-- Steps that keep the columns keep their mirror. -/
lemma MirrorColumns.sameCols {s : Schema} {t t' : Table} (mi : MirrorColumns s t) (sc : SameCols t t') :
    MirrorColumns s t' := by
  rw [sc]
  exact ⟨mi.heap, mi.order, mi.nodup, mi.named⟩

/-- Steps that keep the headers keep the mirror of the keys. -/
lemma MirrorKeys.sameHeaders {s : Schema} {t t' : Table} (mi : MirrorKeys s t)
    (same : t'.headers = t.headers) : MirrorKeys s t' := by
  refine ⟨?_, ?_⟩
  · rw [same]
    exact mi.temp
  · rw [same]
    exact mi.keyed

/-! ### The condition -/

section
variable (sv : Server)

/-- The text of a reference is the spelling of the column it means, and of no other. -/
def Schema.spells (s : Schema) (n : SQLName) (text : Str) : Bool :=
  s.columns.all fun c => decide (c.spelling = text) == (s.column? sv n).any fun m => m.id = c.id

/-- The item adds or drops one column, if any, and each of its references is spelled as its target. -/
def Schema.resolves (s : Schema) : SQLAlterTableItem → Bool
  | .addColumn [_] (.after n) => s.spells sv n (replace '`' n.getSimpleName)
  | .addColumn [_] _ => true
  | .dropColumn [n] => s.spells sv n n.getSimpleName
  | .addIndex => true
  | .dropIndex n =>
    (s.keys.all fun k => decide (k.spelling = n.getSimpleName) == k.isNamed sv n) &&
      s.inline.all fun k => !k.isNamed sv n
  | .dropPrimaryKey => true
  | .addConstraint (.primaryKey parts) => parts.all fun item => s.spells sv item.expr item.toString
  | .addConstraint (.unique (some _) parts) =>
    parts.all fun item => s.spells sv item.expr item.toString
  | .changeColumn n _ _ => s.spells sv n n.getSimpleName
  | _ => false

/-- The key parts of a CREATE TABLE are spelled as its columns. -/
def resolvesCreate (columnDefinitions : List SQLColumnDefinition) (mysqlKeys : List MySqlKey) : Bool :=
  (Schema.createColumns sv columnDefinitions).any fun s =>
    (mysqlKeys.filter fun key => key.type.isSome).all fun key =>
      key.columns.all fun item => s.spells sv item.expr (replace '`' item.toString)

/-- Does an item add an index that is not unique? -/
def addsIndex : SQLAlterTableItem → Bool
  | .addIndex => true
  | _ => false

/-- The references of the first item are spelled as their targets, and other items only add indexes. -/
def resolvesIn : Option Schema → SQLStatement → Bool
  | none, .createTable _ columnDefinitions mysqlKeys => resolvesCreate sv columnDefinitions mysqlKeys
  | some _, .createTable _ _ _ => true
  | some s, .alterTable _ (item :: items) => s.resolves sv item && items.all addsIndex
  | _, _ => false

/-- The statement resolves, and none of its texts breaks its line. -/
def resolvable (l : TableLife) (st : SQLStatement) : Bool :=
  ((texts st).all fun text => decide ('\n' ∉ text)) && resolvesIn sv l.table st

end

/-! ### Lookups -/

section
variable {sv : Server} {s s' : Schema} {t t' : Table} {n : SQLName} {text : Str} {c : Column}

/-- The only element with a property is the first one. -/
lemma find?_only {α : Type} {p : α → Bool} {l : List α} {a : α} (mem : a ∈ l)
    (only : ∀ x ∈ l, p x = true ↔ x = a) : l.find? p = some a := by
  cases e : l.find? p with
  | none => exact absurd ((only a mem).mpr rfl) (by simpa using List.find?_eq_none.mp e a mem)
  | some b =>
    have eq := (only b (List.mem_of_find?_eq_some e)).mp (List.find?_some e)
    rw [eq]

/-- A column that is found is one of the schema. -/
lemma Schema.column?_mem (me : s.column? sv n = some c) : c ∈ s.columns :=
  List.mem_of_find?_eq_some me

/-- Of the columns of the schema, exactly the meant one has the name. -/
lemma MirrorColumns.hasName (mi : MirrorColumns s t) (sp : s.spells sv n text = true)
    (me : s.column? sv n = some c) {e : Column} (mem : e ∈ s.columns) :
    t.hasName text e.id = true ↔ e.id = c.id := by
  have named := mi.named e mem
  have iff := List.all_eq_true.mp sp e mem
  rw [beq_iff_eq, me, Option.any_some] at iff
  rw [Option.map_eq_some_iff] at named
  obtain ⟨d, hd, name⟩ := named
  rw [Table.hasName, hd, Option.any_some, name, iff, decide_eq_true_iff]
  exact eq_comm

/-- A reference finds the column it means. -/
lemma MirrorColumns.find (mi : MirrorColumns s t) (sp : s.spells sv n text = true)
    (me : s.column? sv n = some c) : t.colDes.find? (t.hasName text) = some c.id := by
  apply find?_only
  · exact mi.order.mem_iff.mpr (List.mem_map_of_mem (Schema.column?_mem me))
  · intro x mem
    obtain ⟨e, mem_e, rfl⟩ := List.mem_map.mp (mi.order.mem_iff.mp mem)
    exact mi.hasName sp me mem_e

/-- The columns of a key are those its parts mean. -/
lemma keyColumns_meant {parts : List SQLSelectOrderByItem} {ids : List Nat}
    (key : s.keyColumns sv parts = some ids) :
    List.Forall₂ (fun item id => (s.column? sv item.expr).map Column.id = some id) parts ids := by
  rw [Schema.keyColumns, Option.bind_eq_bind, Option.bind_eq_some_iff] at key
  obtain ⟨cols, map, e⟩ := key
  dsimp only at e
  split at e
  · cases e
    rw [List.forall₂_map_right_iff]
    apply (mapM_eq_some.mp map).imp
    intro item c me
    rw [me]
    rfl
  · cases e

/-- The parts of a key find their columns. -/
lemma MirrorColumns.findParts {f : SQLSelectOrderByItem → Str} {parts : List SQLSelectOrderByItem}
    {ids : List Nat} (mi : MirrorColumns s t) (key : s.keyColumns sv parts = some ids)
    (sp : parts.all (fun item => s.spells sv item.expr (f item)) = true) :
    List.Forall₂ (fun colStr c => t.colDes.find? (t.hasName colStr) = some c) (parts.map f) ids := by
  rw [List.all_eq_true] at sp
  rw [List.forall₂_map_left_iff]
  have meant := keyColumns_meant key
  rw [List.forall₂_iff_zip] at meant ⊢
  refine ⟨meant.1, ?_⟩
  intro item id mem
  obtain ⟨c, me, rfl⟩ := Option.map_eq_some_iff.mp (meant.2 mem)
  exact mi.find (sp item (List.of_mem_zip mem).1) me

/-! ### Columns -/

/-- The columns of the schema are allocated in the table. -/
lemma MirrorColumns.lt (mi : MirrorColumns s t) (mem : c ∈ s.columns) : c.id < t.colHeap.length := by
  have named := mi.named c mem
  rw [Option.map_eq_some_iff] at named
  obtain ⟨d, hd, _⟩ := named
  exact (List.getElem?_eq_some_iff.mp hd).1

/-- A placed column is the only new one. -/
lemma place_perm {cols cols' : List Column} {col : Column} {placement : Placement}
    (h : place sv cols col placement = some cols') : cols'.Perm (col :: cols) := by
  cases placement with
  | none =>
    cases h
    exact List.perm_append_singleton col cols
  | first =>
    cases h
    exact .refl _
  | after n =>
    rw [place, Option.bind_eq_bind, Option.bind_eq_some_iff] at h
    obtain ⟨i, find, e⟩ := h
    cases e
    have lt := (List.findIdx?_eq_some_iff_getElem.mp find).1
    exact List.perm_insertIdx col cols (by omega)

/-- AFTER refers to a column. -/
lemma place_after {col : Column} {cols : List Column}
    (h : place sv s.columns col (.after n) = some cols) : ∃ c, s.column? sv n = some c := by
  rw [place, Option.bind_eq_bind, Option.bind_eq_some_iff] at h
  obtain ⟨i, find, _⟩ := h
  obtain ⟨lt, same, _⟩ := List.findIdx?_eq_some_iff_getElem.mp find
  apply Option.isSome_iff_exists.mp
  rw [Schema.column?, List.find?_isSome]
  exact ⟨_, List.getElem_mem lt, same⟩

/-- What ADD did to the schema. -/
lemma addColumn_ok {created : Bool} {placement : Placement} {d : SQLColumnDefinition}
    (h : s.addColumn sv created placement d = some s') :
    ∃ columns, place sv s.columns { id := s.next, name := d.columnName, created } placement = some columns ∧
      s' = { s with
        columns
        inline := s.inline ++ s.inlineKeys sv d s.next
        next := s.next + 1
        lastUpdatedAt :=
          if (Column.mk s.next d.columnName created).spelling = updatedAt then some s.next
          else s.lastUpdatedAt } := by
  rw [Schema.addColumn] at h
  split at h
  · cases h
  · rw [Option.bind_eq_bind, Option.bind_eq_some_iff] at h
    obtain ⟨columns, put, e⟩ := h
    cases e
    exact ⟨columns, put, rfl⟩

/-- Adding a column on both sides keeps the mirror. -/
lemma MirrorColumns.added {created : Bool} {placement : Placement} {d : SQLColumnDefinition}
    {col : ColumnStatement} {after : Option Str} (mi : MirrorColumns s t)
    (ap : s.addColumn sv created placement d = some s') (ca : ColumnAdded col after t t')
    (name : col.name = (Column.mk s.next d.columnName created).spelling) : MirrorColumns s' t' := by
  obtain ⟨columns, put, rfl⟩ := addColumn_ok ap
  have perm := place_perm put
  refine ⟨?_, ?_, ?_, ?_⟩
  · show t'.colHeap.length = s.next + 1
    rw [ca.colHeap, List.length_append, mi.heap, List.length_singleton]
  · refine ca.colDes.perm.trans (.trans ?_ (perm.map Column.id).symm)
    rw [List.map_cons, mi.heap]
    exact mi.order.cons s.next
  · refine ((perm.map Column.id).nodup_iff).mpr ?_
    rw [List.map_cons, List.nodup_cons]
    refine ⟨?_, mi.nodup⟩
    intro mem
    obtain ⟨e, mem, same⟩ := List.mem_map.mp mem
    have lt := mi.lt mem
    rw [mi.heap, same] at lt
    exact lt_irrefl _ lt
  · intro e mem
    rw [ca.colHeap]
    rcases List.mem_cons.mp (perm.mem_iff.mp mem) with rfl | old
    · rw [← mi.heap, List.getElem?_concat_length]
      exact congrArg some (by rw [← mi.heap] at name; exact name)
    · rw [List.getElem?_append_left (mi.lt old)]
      exact mi.named e old

/-- The ids of the columns that are left. -/
lemma map_id_filter {columns : List Column} {id : Nat} (nd : (columns.map Column.id).Nodup) :
    (columns.filter fun e => e.id ≠ id).map Column.id = (columns.map Column.id).erase id := by
  rw [nd.erase_eq_filter, List.filter_map]
  apply congrArg
  apply List.filter_congr
  intro e _
  simp [bne, beq_eq_decide]

/-- What DROP did to the schema. -/
lemma dropColumn_ok (h : s.dropColumn sv n = some s') :
    ∃ c, s.column? sv n = some c ∧ s' = { s with
      columns := s.columns.filter fun e => e.id ≠ c.id
      keys := keysWithout c.id s.keys
      inline := keysWithout c.id s.inline } := by
  rw [Schema.dropColumn, Option.bind_eq_bind, Option.bind_eq_some_iff] at h
  obtain ⟨c, me, e⟩ := h
  cases e
  exact ⟨c, me, rfl⟩

/-- Dropping a column on both sides keeps the mirror. -/
lemma MirrorColumns.dropped {name : Str} (mi : MirrorColumns s t)
    (columns : s'.columns = s.columns.filter fun e => e.id ≠ c.id) (next : s'.next = s.next)
    (cd : ColumnDropped name t t') (find : t.colDes.find? (t.hasName name) = some c.id) :
    MirrorColumns s' t' := by
  refine ⟨?_, ?_, ?_, ?_⟩
  · rw [cd.colHeap, next]
    exact mi.heap
  · rw [cd.erased find, columns, map_id_filter mi.nodup]
    exact mi.order.erase c.id
  · rw [columns, map_id_filter mi.nodup]
    exact mi.nodup.erase c.id
  · intro e mem
    rw [columns] at mem
    rw [cd.colHeap]
    exact mi.named e (List.mem_of_mem_filter mem)

/-- What CHANGE did to the schema. -/
lemma changeColumn_ok {placement : Placement} {d : SQLColumnDefinition}
    (h : s.changeColumn sv n d placement = some s') :
    ∃ c columns, s.column? sv n = some c ∧
      replaceColumn sv s.columns { id := c.id, name := d.columnName, created := false } placement =
        some columns ∧
      s' = { s with columns, inline := s.inline ++ s.inlineKeys sv d c.id } := by
  rw [Schema.changeColumn, Option.bind_eq_bind, Option.bind_eq_some_iff] at h
  obtain ⟨c, me, h⟩ := h
  split at h
  · cases h
  · rw [Option.bind_eq_bind, Option.bind_eq_some_iff] at h
    obtain ⟨columns, put, e⟩ := h
    cases e
    exact ⟨c, columns, me, put, rfl⟩

/-- A replaced column leaves the others as they were, and all ids. -/
lemma replaceColumn_columns {cols cols' : List Column} {col : Column} {placement : Placement}
    (nd : (cols.map Column.id).Nodup) (mem_col : col.id ∈ cols.map Column.id)
    (h : replaceColumn sv cols col placement = some cols') :
    (cols'.map Column.id).Perm (cols.map Column.id) ∧
      ∀ e ∈ cols', e = col ∨ e ∈ cols ∧ e.id ≠ col.id := by
  -- with a placement the column is taken out and put in again
  have placed : ∀ {placement : Placement},
      place sv (cols.filter fun e => e.id ≠ col.id) col placement = some cols' →
      (cols'.map Column.id).Perm (cols.map Column.id) ∧
      ∀ e ∈ cols', e = col ∨ e ∈ cols ∧ e.id ≠ col.id := by
    intro placement put
    have perm := place_perm put
    constructor
    · refine (perm.map Column.id).trans ?_
      rw [List.map_cons, map_id_filter nd]
      exact (List.perm_cons_erase mem_col).symm
    · intro e mem
      rcases List.mem_cons.mp (perm.mem_iff.mp mem) with rfl | old
      · exact .inl rfl
      · have kept := List.mem_filter.mp old
        exact .inr ⟨kept.1, by simpa using kept.2⟩
  cases placement with
  | none =>
    cases h
    constructor
    · apply List.Perm.of_eq
      rw [List.map_map]
      apply List.map_congr_left
      intro e _
      show (if e.id = col.id then col else e).id = e.id
      split
      · rename_i same
        exact same.symm
      · rfl
    · intro e mem
      obtain ⟨e', mem', rfl⟩ := List.mem_map.mp mem
      split
      · exact .inl rfl
      · rename_i other
        exact .inr ⟨mem', other⟩
  | first => exact @placed .first h
  | after n => exact @placed (.after n) h

/-- Changing a column on both sides keeps the mirror. -/
lemma MirrorColumns.changed {placement : Placement} {d : SQLColumnDefinition} {col : ColumnStatement}
    {prevName : Str} (mi : MirrorColumns s t) (me : s.column? sv n = some c)
    (put : replaceColumn sv s.columns { id := c.id, name := d.columnName, created := false } placement =
      some s'.columns)
    (next : s'.next = s.next) (cc : ColumnChanged col prevName t t')
    (find : t.colDes.find? (t.hasName prevName) = some c.id)
    (name : col.name = d.columnName.getSimpleName) : MirrorColumns s' t' := by
  have here : c.id ∈ s.columns.map Column.id := List.mem_map_of_mem (Schema.column?_mem me)
  obtain ⟨perm, mem_iff⟩ := @replaceColumn_columns _ _ _
    { id := c.id, name := d.columnName, created := false } _ mi.nodup here put
  obtain ⟨p, e, find', hd, heap⟩ := cc.colHeap
  have same : p = c.id := Option.some.inj (find'.symm.trans find)
  rw [same] at heap
  refine ⟨?_, ?_, perm.nodup_iff.mpr mi.nodup, ?_⟩
  · rw [heap, List.length_set, next]
    exact mi.heap
  · rw [cc.colDes]
    exact mi.order.trans perm.symm
  · intro x mem
    rw [heap]
    rcases mem_iff x mem with rfl | ⟨old, other⟩
    · rw [List.getElem?_set_self (mi.lt (Schema.column?_mem me))]
      exact congrArg some name
    · rw [List.getElem?_set_ne (Ne.symm other)]
      exact mi.named x old

/-! ### Keys -/

/-- ADDCOL keeps the keys. -/
lemma MirrorKeys.added {col : ColumnStatement} {after : Option Str}
    {hashCombine : UInt64 → Str → UInt64} (mi : MirrorKeys s t) (same : s'.keys = s.keys)
    (run : t.addColumnOf hashCombine col after = .ok t') : MirrorKeys s' t' := by
  obtain ⟨perm, temp⟩ := addColumnOf_headers run
  refine ⟨?_, ?_⟩
  · intro none
    obtain ⟨cols, one⟩ := mi.temp (same ▸ none)
    obtain ⟨u, _, _, hd⟩ := temp _ one rfl
    exact ⟨_, hd⟩
  · intro keyed
    rw [same] at keyed ⊢
    have old := mi.keyed keyed
    rw [perm ?_, old]
    intro h first
    rw [old, List.head?_map, Option.map_eq_some_iff] at first
    obtain ⟨k, _, rfl⟩ := first
    rfl

/-- Without a column, keys and indexes still correspond. -/
lemma MirrorKeys.without {id : Nat} (mi : MirrorKeys s t) (keyed : s.keys ≠ []) :
    t.headersWithout id = (keysWithout id s.keys).map Key.header := by
  rw [Table.headersWithout, mi.keyed keyed, List.map_map, keysWithout, List.filter_map, List.filter_map,
    List.map_map]
  rfl

/-- The headers are those of the keys that are left, or the temporary one. -/
lemma MirrorKeys.of_headers (temp : s.keys.map Key.header = [] → ∃ cols, t.headers = [Header.temp cols])
    (left : s.keys.map Key.header ≠ [] → t.headers = s.keys.map Key.header) : MirrorKeys s t where
  temp := fun empty => temp (List.map_eq_nil_iff.mpr empty)
  keyed := fun some => left fun empty => some (List.map_eq_nil_iff.mp empty)

/-- DROPCOL takes the column out of the keys. -/
lemma MirrorKeys.dropped {name : Str} {hashCombine : UInt64 → Str → UInt64} (mi : MirrorKeys s t)
    (keys : s'.keys = keysWithout c.id s.keys) (run : t.dropColumn hashCombine name = .ok t')
    (find : t.colDes.find? (t.hasName name) = some c.id) : MirrorKeys s' t' := by
  obtain ⟨gone, left⟩ := dropColumn_headers run find
  by_cases none : s.keys = []
  · obtain ⟨cols, one⟩ := mi.temp none
    have keys' : s'.keys = [] := by
      rw [keys, none]
      rfl
    refine ⟨fun _ => ?_, fun some => absurd keys' some⟩
    by_cases empty : t.headersWithout c.id = []
    · obtain ⟨u, _, _, hd⟩ := gone empty
      exact ⟨_, hd⟩
    · refine ⟨cols.erase c.id, ?_⟩
      rw [left empty, Table.headersWithout, one, List.map_singleton, List.filter_eq_self.mpr]
      · rfl
      · intro h mem
        by_contra out
        rw [List.mem_singleton] at mem
        apply empty
        rw [Table.headersWithout, one, List.map_singleton, List.filter_cons_of_neg (mem ▸ out),
          List.filter_nil]
  · rw [mi.without none, ← keys] at gone left
    apply MirrorKeys.of_headers _ left
    intro empty
    obtain ⟨u, _, _, hd⟩ := gone empty
    exact ⟨_, hd⟩

/-- DROP INDEX leaves the columns alone. -/
lemma MirrorColumns.dropKey {p : Key → Bool} (mi : MirrorColumns s t) : MirrorColumns (s.dropKey p) t := by
  rw [Schema.dropKey]
  split
  · exact ⟨mi.heap, mi.order, mi.nodup, mi.named⟩
  · exact ⟨mi.heap, mi.order, mi.nodup, mi.named⟩

/-- Dropping the first key with a property that its header shows. -/
lemma MirrorKeys.dropKey {p : Key → Bool} {isPrimary : Bool} {name : Str}
    {hashCombine : UInt64 → Str → UInt64} (mi : MirrorKeys s t)
    (shown : ∀ k ∈ s.keys, Header.isMeant isPrimary false name k.header = p k)
    (run : t.dropUniqueIndex hashCombine isPrimary false name = .ok t') :
    MirrorKeys (s.dropKey p) t' := by
  obtain ⟨miss, hit⟩ := dropUniqueIndex_headers run
  by_cases none : s.keys = []
  -- without keys the table has one temporary index, before and after
  · obtain ⟨cols, one⟩ := mi.temp none
    have keys : (s.dropKey p).keys = [] := by
      rw [Schema.dropKey, none, List.findIdx?_nil]
    refine ⟨fun _ => ?_, fun some => absurd keys some⟩
    cases e : t.headers.findIdx? (Header.isMeant isPrimary false name) with
    | none =>
      rw [miss e]
      exact ⟨cols, one⟩
    | some i =>
      have zero : i = 0 := by
        have lt := (List.findIdx?_eq_some_iff_getElem.mp e).1
        rw [one, List.length_singleton] at lt
        omega
      obtain ⟨u, _, _, hd⟩ := (hit i e).1 (by rw [zero, one]; rfl)
      exact ⟨_, hd⟩
  · have old := mi.keyed none
    have same : t.headers.findIdx? (Header.isMeant isPrimary false name) = s.keys.findIdx? p := by
      rw [old, List.findIdx?_map]
      exact findIdx?_congr shown
    rw [same] at miss hit
    rw [Schema.dropKey]
    cases find : s.keys.findIdx? p with
    | none =>
      rw [miss find]
      exact ⟨fun empty => absurd empty none, fun _ => old⟩
    | some i =>
      obtain ⟨gone, left⟩ := hit i find
      rw [old, List.eraseIdx_map] at gone left
      apply MirrorKeys.of_headers _ left
      intro empty
      obtain ⟨u, _, _, hd⟩ := gone empty
      exact ⟨_, hd⟩

/-- What the definition of a key did to the schema. -/
lemma addKey_ok {name : Option SQLName} {isPrimary : Bool} {parts : List SQLSelectOrderByItem}
    (h : s.addKey sv name isPrimary parts = some s') :
    ∃ k : Key, s.keyColumns sv parts = some k.columns ∧ k.name = name ∧ k.isPrimary = isPrimary ∧
      s' = { s with keys := s.keys ++ [k] } := by
  rw [Schema.addKey, Option.bind_eq_bind, Option.bind_eq_some_iff] at h
  obtain ⟨columns, cols, e⟩ := h
  cases e
  exact ⟨_, cols, rfl, rfl, rfl⟩

/-- ADDINDEX puts the first key in the place of a temporary index. -/
lemma Mirror.addedKey {name : Option SQLName} {isPrimary : Bool} {parts : List SQLSelectOrderByItem}
    {text : Str} {hashCombine : UInt64 → Str → UInt64} (mi : Mirror s t)
    (ap : s.addKey sv name isPrimary parts = some s')
    (sp : parts.all (fun item => s.spells sv item.expr item.toString) = true)
    (spelling : (name.map SQLName.getSimpleName).getD [] = text)
    (run : t.addUniqueIndex hashCombine text (parts.map SQLSelectOrderByItem.toString) isPrimary = .ok t') :
    Mirror s' t' := by
  obtain ⟨k, key, rfl, rfl, rfl⟩ := addKey_ok ap
  obtain ⟨⟨h, one, temp⟩, cols, find, hd⟩ := addUniqueIndex_headers run
  have none : s.keys = [] := by
    by_contra some
    have keyed := mi.keys.keyed some
    have mem : h ∈ s.keys.map Key.header := by
      rw [← keyed, one]
      exact List.mem_singleton.mpr rfl
    obtain ⟨k', _, rfl⟩ := List.mem_map.mp mem
    cases temp
  have same : k.columns = cols := forall₂_functional (mi.columns.findParts key sp) find
  refine ⟨?_, ⟨fun empty => ?_, fun _ => ?_⟩⟩
  · have mc := mi.columns.sameCols (addUniqueIndex_cols run)
    exact ⟨mc.heap, mc.order, mc.nodup, mc.named⟩
  · rw [none] at empty
    cases empty
  · rw [hd, none, ← same, ← spelling]
    rfl

/-! ### Statements -/

/-- The items that resolve, and which references of each are spelled as their targets. -/
inductive ResolvedItem (sv : Server) (s : Schema) : SQLAlterTableItem → Prop where
  | addColumn {d : SQLColumnDefinition} {placement : Placement} :
    (∀ n, placement = .after n → s.spells sv n (replace '`' n.getSimpleName) = true) →
    ResolvedItem sv s (.addColumn [d] placement)
  | dropColumn {n : SQLName} : s.spells sv n n.getSimpleName = true → ResolvedItem sv s (.dropColumn [n])
  | addIndex : ResolvedItem sv s .addIndex
  | dropIndex {n : SQLName} : s.resolves sv (.dropIndex n) = true → ResolvedItem sv s (.dropIndex n)
  | dropPrimaryKey : ResolvedItem sv s .dropPrimaryKey
  | primaryKey {parts : List SQLSelectOrderByItem} :
    (parts.all fun item => s.spells sv item.expr item.toString) = true →
    ResolvedItem sv s (.addConstraint (.primaryKey parts))
  | unique {n : SQLName} {parts : List SQLSelectOrderByItem} :
    (parts.all fun item => s.spells sv item.expr item.toString) = true →
    ResolvedItem sv s (.addConstraint (.unique (some n) parts))
  | changeColumn {n : SQLName} {d : SQLColumnDefinition} {placement : Placement} :
    s.spells sv n n.getSimpleName = true → ResolvedItem sv s (.changeColumn n d placement)

/-- The items that resolve. -/
lemma resolves_inv {item : SQLAlterTableItem} (ok : s.resolves sv item = true) : ResolvedItem sv s item := by
  cases item with
  | addColumn columns placement =>
    match columns, placement, ok with
    | [d], .none, _ => exact .addColumn fun n e => by cases e
    | [d], .first, _ => exact .addColumn fun n e => by cases e
    | [d], .after n, ok =>
      refine .addColumn ?_
      rintro _ ⟨⟩
      exact ok
  | dropColumn columns =>
    match columns, ok with
    | [n], ok => exact .dropColumn ok
  | addIndex => exact .addIndex
  | dropIndex n => exact .dropIndex ok
  | dropPrimaryKey => exact .dropPrimaryKey
  | addConstraint constraint =>
    match constraint, ok with
    | .primaryKey parts, ok => exact .primaryKey ok
    | .unique (some n) parts, ok => exact .unique ok
  | changeColumn n d placement => exact .changeColumn ok
  | other => cases ok

/-- An item that resolves is loaded. -/
lemma loadItem_of_resolves {item : SQLAlterTableItem} (ok : s.resolves sv item = true) :
    ∃ stmt, loadItem item = some stmt := by
  cases resolves_inv ok with
  | _ => exact ⟨_, rfl⟩

/-- Adding a list of one column is adding the column. -/
lemma item_addColumn {d : SQLColumnDefinition} {placement : Placement} :
    s.item sv (.addColumn [d] placement) = Schema.addColumn sv false placement s d := by
  rw [Schema.item, List.foldlM_cons]
  exact bind_pure _

/-- DROP COLUMN of one column. -/
lemma item_dropColumn {n : SQLName} : s.item sv (.dropColumn [n]) = s.dropColumn sv n := by
  rw [Schema.item, List.foldlM_cons]
  exact bind_pure _

/-- Replaying an item that resolves keeps the relation. -/
lemma Mirror.item {item : SQLAlterTableItem} {stmt : Statement} {hashCombine : UInt64 → Str → UInt64}
    (mi : Mirror s t) (ap : s.item sv item = some s') (ok : s.resolves sv item = true)
    (ld : loadItem item = some stmt) (run : stmt.fillToTable hashCombine t = .ok t') : Mirror s' t' := by
  cases resolves_inv ok with
  | addColumn after =>
    cases ld
    rw [item_addColumn] at ap
    obtain ⟨columns, put, same⟩ := addColumn_ok ap
    exact ⟨mi.columns.added ap (addColumnOf_cols run) rfl, mi.keys.added (by rw [same]) run⟩
  | dropColumn spelt =>
    cases ld
    rw [item_dropColumn] at ap
    obtain ⟨c, me, rfl⟩ := dropColumn_ok ap
    have find := mi.columns.find spelt me
    exact ⟨mi.columns.dropped rfl rfl (dropColumn_cols run) find, mi.keys.dropped rfl run find⟩
  | addIndex =>
    cases ld
    cases ap
    cases run
    exact mi
  | @dropIndex n =>
    cases ld
    cases ap
    rw [Schema.resolves, Bool.and_eq_true, List.all_eq_true, List.all_eq_true] at ok
    have shown : ∀ k ∈ s.keys,
        Header.isMeant false false n.getSimpleName k.header = k.isNamed sv n := fun k mem =>
      beq_iff_eq.mp (ok.1 k mem)
    exact ⟨(mi.columns.sameCols (dropUniqueIndex_cols run)).dropKey, mi.keys.dropKey shown run⟩
  | dropPrimaryKey =>
    cases ld
    cases ap
    exact ⟨(mi.columns.sameCols (dropUniqueIndex_cols run)).dropKey,
      mi.keys.dropKey (fun k _ => rfl) run⟩
  | primaryKey spelt =>
    cases ld
    exact mi.addedKey ap spelt rfl run
  | unique spelt =>
    cases ld
    exact mi.addedKey ap spelt rfl run
  | changeColumn spelt =>
    cases ld
    obtain ⟨c, columns, me, put, rfl⟩ := changeColumn_ok ap
    have find := mi.columns.find spelt me
    have headers : t'.headers = t.headers := by
      rw [Table.headers, changeCol_indexs run]
      rfl
    have mk := mi.keys.sameHeaders headers
    exact ⟨mi.columns.changed me put rfl (changeCol_cols run) find rfl, mk.temp, mk.keyed⟩

/-- The columns of a CREATE TABLE. -/
lemma MirrorColumns.created {columnDefinitions : List SQLColumnDefinition}
    {hashCombine : UInt64 → Str → UInt64} (mi : MirrorColumns s t) (bare : t.headers = [])
    (ap : columnDefinitions.foldlM (Schema.addColumn sv true .none) s = some s')
    (run : (columnDefinitions.map loadCreated).foldlM
      (fun t col => t.addColumnOf hashCombine col none) t = .ok t') :
    MirrorColumns s' t' ∧ t'.headers = [] ∧ s'.keys = s.keys := by
  induction columnDefinitions generalizing s t with
  | nil =>
    cases ap
    cases run
    exact ⟨mi, bare, rfl⟩
  | cons d ds ih =>
    rw [List.foldlM_cons, Option.bind_eq_bind, Option.bind_eq_some_iff] at ap
    rw [List.map_cons, List.foldlM_cons, bind_ok] at run
    obtain ⟨s1, ap, aps⟩ := ap
    obtain ⟨t1, run, runs⟩ := run
    have name : (loadCreated d).name = (Column.mk s.next d.columnName true).spelling := rfl
    have bare1 : t1.headers = [] := by
      rw [(addColumnOf_headers run).1 ?_, bare]
      intro h first
      rw [bare] at first
      cases first
    obtain ⟨mi', bare', keys⟩ := ih (mi.added ap (addColumnOf_cols run) name) bare1 aps runs
    obtain ⟨columns, _, rfl⟩ := addColumn_ok ap
    exact ⟨mi', bare', keys⟩

/-- The keys of a CREATE TABLE. -/
lemma Mirror.createdKeys {keys : List MySqlKey} {hashCombine : UInt64 → Str → UInt64}
    (mc : MirrorColumns s t) (hd : t.headers = s.keys.map Key.header)
    (sp : ∀ key ∈ keys, key.columns.all
      (fun item => s.spells sv item.expr (replace '`' item.toString)) = true)
    (ap : keys.foldlM (fun s key => s.addKey sv key.name key.isPrimary key.columns) s = some s')
    (run : (keys.map loadKey).foldlM (Table.pushIndex hashCombine) t = .ok t') :
    MirrorColumns s' t' ∧ t'.headers = s'.keys.map Key.header ∧
      s'.keys.length = s.keys.length + keys.length := by
  induction keys generalizing s t with
  | nil =>
    cases ap
    cases run
    exact ⟨mc, hd, rfl⟩
  | cons key keys ih =>
    rw [List.foldlM_cons, Option.bind_eq_bind, Option.bind_eq_some_iff] at ap
    rw [List.map_cons, List.foldlM_cons, bind_ok] at run
    obtain ⟨s1, ap, aps⟩ := ap
    obtain ⟨t1, run, runs⟩ := run
    obtain ⟨k, cols, name, isPrimary, rfl⟩ := addKey_ok ap
    obtain ⟨cols', find, hd1⟩ := pushIndex_headers run
    have same : k.columns = cols' :=
      forall₂_functional (mc.findParts cols (sp key List.mem_cons_self)) find
    have mc1 := mc.sameCols (pushIndex_cols run)
    have one : t1.headers = (s.keys ++ [k]).map Key.header := by
      rw [hd1, hd, List.map_append, List.map_singleton, Key.header, Key.spelling, name, isPrimary, same]
      rfl
    obtain ⟨mc', hd', len⟩ := ih (s := { s with keys := s.keys ++ [k] })
      ⟨mc1.heap, mc1.order, mc1.nodup, mc1.named⟩ one
      (fun key mem => sp key (List.mem_cons_of_mem _ mem)) aps runs
    refine ⟨mc', hd', ?_⟩
    rw [len, List.length_append, List.length_singleton, List.length_cons]
    omega

/-- Replaying a CREATE TABLE that resolves establishes the relation. -/
lemma Mirror.create {columnDefinitions : List SQLColumnDefinition} {mysqlKeys : List MySqlKey}
    {hashCombine : UInt64 → Str → UInt64}
    (ok : resolvesCreate sv columnDefinitions mysqlKeys = true)
    (cols : Schema.createColumns sv columnDefinitions = some s)
    (keys : s.createKeys sv mysqlKeys = some s')
    (run : Table.new.fillCreate hashCombine (columnDefinitions.map loadCreated)
      ((mysqlKeys.filter fun key => key.type.isSome).map loadKey) = .ok t) : Mirror s' t := by
  rw [resolvesCreate, cols, Option.any_some, List.all_eq_true] at ok
  simp only [Table.fillCreate, bind_ok] at run
  obtain ⟨t1, add, t2, push, run⟩ := run
  have empty : MirrorColumns Schema.empty Table.new :=
    ⟨rfl, .refl _, List.nodup_nil, fun c mem => by cases mem⟩
  obtain ⟨mc, bare, nokeys⟩ := empty.created rfl cols add
  obtain ⟨mc', hd, len⟩ := Mirror.createdKeys mc (by rw [bare, nokeys]; rfl) ok keys push
  split at run
  · rename_i nil
    have nil := List.map_eq_nil_iff.mp (List.isEmpty_iff.mp nil)
    have nokeys' : s'.keys = [] := by
      rw [← List.length_eq_zero_iff, len, nokeys, nil]
      rfl
    rw [nokeys'] at hd
    obtain ⟨u, _, _, hd'⟩ := pushTemp_headers run
    rw [hd] at hd'
    exact ⟨mc'.sameCols (pushTemp_cols run), ⟨fun _ => ⟨_, hd'⟩, fun some => absurd nokeys' some⟩⟩
  · rename_i some
    cases run
    refine ⟨mc', ⟨fun nokeys' => ?_, fun _ => hd⟩⟩
    have nil : mysqlKeys.filter (fun key => key.type.isSome) = [] := by
      rw [← List.length_eq_zero_iff]
      rw [nokeys', List.length_nil] at len
      omega
    rw [nil] at some
    exact absurd rfl some

/-! ### Runs -/

/-- The files of a work are those written for the statements of a table. -/
def Replays (wd : WorkDescriptor) (l : TableLife) : Prop :=
  ∀ k st, l.written[k]? = some st → wd.ddl k = ddlText st

/-- The replayed table of a schema, if there is one. -/
def Mirrored (table : Option Schema) (replayed : Option Table) : Prop :=
  match table with
  | none => replayed = none
  | some s => ∃ t, replayed = some t ∧ Mirror s t

section
variable {hashCombine : UInt64 → Str → UInt64} {wd : WorkDescriptor} {l l' : TableLife}
  {st : SQLStatement} {w w' : WorkState}

/-- Merging the rows of a state keeps the columns and the headers. -/
lemma mergeSource_same {state source : Nat} {p p' : Table × (Nat → Nat)}
    (run : wd.mergeSource hashCombine state p source = .ok p') :
    SameCols p.1 p'.1 ∧ p'.1.headers = p.1.headers := by
  simp only [WorkDescriptor.mergeSource, bind_ok] at run
  obtain ⟨⟨rows, stamp, t1⟩, parse, t2, insert, e⟩ := run
  cases e
  refine ⟨(parseData_cols parse).trans (insertRows_cols insert), ?_⟩
  rw [insertRows_headers insert, Table.headers, parseData_indexs parse]
  rfl

/-- Merging the rows of a state keeps the relation. -/
lemma Mirror.merge {state source : Nat} {p p' : Table × (Nat → Nat)} (mi : Mirror s p.1)
    (run : wd.mergeSource hashCombine state p source = .ok p') : Mirror s p'.1 := by
  obtain ⟨sc, hd⟩ := mergeSource_same run
  exact ⟨mi.columns.sameCols sc, mi.keys.sameHeaders hd⟩

/-- A statement that is executed keeps to the bounds and has its effect. -/
lemma execute_ok {table : Option Schema} (ex : Schema.execute sv table st = some s') :
    (∀ n ∈ counts st, n < 2 ^ 31) ∧ Schema.effect sv table st = some s' := by
  rw [Schema.execute] at ex
  split at ex
  · cases ex
  · rename_i few
    refine ⟨?_, ex⟩
    intro n mem
    by_contra many
    apply few
    rw [List.any_eq_true]
    exact ⟨n, mem, decide_eq_true (lt_of_lt_of_le (by decide) (Nat.le_of_not_lt many))⟩

/-- The statements that resolve: the first CREATE TABLE, another one, and an ALTER TABLE. -/
inductive ResolvedIn (sv : Server) : Option Schema → SQLStatement → Prop where
  | create {n columnDefinitions mysqlKeys} : resolvesCreate sv columnDefinitions mysqlKeys = true →
    ResolvedIn sv none (.createTable n columnDefinitions mysqlKeys)
  | again {s n columnDefinitions mysqlKeys} :
    ResolvedIn sv (some s) (.createTable n columnDefinitions mysqlKeys)
  | alter {s n item items} : s.resolves sv item = true → items.all addsIndex = true →
    ResolvedIn sv (some s) (.alterTable n (item :: items))

/-- The statements that resolve. -/
lemma resolvesIn_inv {table : Option Schema} (ok : resolvesIn sv table st = true) :
    ResolvedIn sv table st := by
  match table, st, ok with
  | none, .createTable _ _ _, ok => exact .create ok
  | some _, .createTable _ _ _, _ => exact .again
  | some _, .alterTable _ (item :: items), ok =>
    obtain ⟨spelt, only⟩ := Bool.and_eq_true_iff.mp ok
    exact .alter spelt only

/-- A statement that resolves can be loaded. -/
lemma load_of_resolvesIn {table : Option Schema} (ok : resolvesIn sv table st = true) :
    ∃ stmt, load st = some stmt := by
  cases resolvesIn_inv ok with
  | create => exact ⟨_, rfl⟩
  | again => exact ⟨_, rfl⟩
  | alter spelt => exact loadItem_of_resolves spelt

/-- A statement that resolves is read from its file as it is loaded. -/
lemma getStatement_of_resolvable (ok : resolvable sv l st = true)
    (ex : Schema.execute sv l.table st = some s') :
    ∃ stmt, load st = some stmt ∧ Statement.getStatement (ddlText st) = .ok stmt := by
  rw [resolvable, Bool.and_eq_true, List.all_eq_true] at ok
  obtain ⟨nb, ok⟩ := ok
  have plain : Plain (texts st) := fun text mem => of_decide_eq_true (nb text mem)
  obtain ⟨stmt, ld⟩ := load_of_resolvesIn ok
  exact ⟨stmt, ld, getStatement_written ld (execute_ok ex).1 plain⟩

/-- What a CREATE TABLE did. -/
lemma effect_create {tableName : SQLName} {columnDefinitions : List SQLColumnDefinition}
    {mysqlKeys : List MySqlKey}
    (ef : Schema.effect sv none (.createTable tableName columnDefinitions mysqlKeys) = some s') :
    ∃ s, Schema.createColumns sv columnDefinitions = some s ∧ s.columns ≠ [] ∧
      s.createKeys sv mysqlKeys = some s' := by
  rw [Schema.effect, Option.bind_eq_bind, Option.bind_eq_some_iff] at ef
  obtain ⟨s, cols, ef⟩ := ef
  split at ef
  · cases ef
  · rename_i some
    exact ⟨s, cols, some, ef⟩

/-- Items that only add indexes have no effect. -/
lemma items_addIndex {items : List SQLAlterTableItem} (only : items.all addsIndex = true) :
    items.foldlM (Schema.item sv) s = some s := by
  induction items with
  | nil => rfl
  | cons item items ih =>
    rw [List.all_cons, Bool.and_eq_true] at only
    cases item with
    | addIndex =>
      rw [List.foldlM_cons]
      exact ih only.2
    | _ => cases only.1

/-- What an ALTER TABLE did whose other items add indexes. -/
lemma effect_alter {tableName : SQLName} {item : SQLAlterTableItem} {items : List SQLAlterTableItem}
    (only : items.all addsIndex = true)
    (ef : Schema.effect sv (some s) (.alterTable tableName (item :: items)) = some s') :
    s.item sv item = some s' ∧ s'.columns ≠ [] := by
  rw [Schema.effect, Option.bind_eq_bind, Option.bind_eq_some_iff] at ef
  obtain ⟨s1, run, ef⟩ := ef
  rw [List.foldlM_cons, Option.bind_eq_bind, Option.bind_eq_some_iff] at run
  obtain ⟨s2, one, rest⟩ := run
  rw [items_addIndex only] at rest
  cases rest
  split at ef
  · cases ef
  · rename_i some
    cases ef
    exact ⟨one, some⟩

/-- An ALTER TABLE is traced on the table. -/
lemma Trace_alter {stmt : Statement} {n : Nat} (alter : stmt.isAlter = true) :
    Trace hashCombine (some t) n stmt = stmt.fillToTable hashCombine t := by
  cases stmt with
  | create name cols indexs => cases alter
  | _ => rfl

/-- Replaying the file of a statement that resolves keeps the relation. -/
lemma Mirrored.trace {n : Nat} (mi : Mirrored l.table w.table) (ok : resolvable sv l st = true)
    (ex : Schema.execute sv l.table st = some s') (file : wd.ddl n = ddlText st)
    (first : l.table = none ↔ n = 0) (run : wd.traceAt hashCombine w n = .ok t) : Mirror s' t := by
  obtain ⟨stmt, ld, read⟩ := getStatement_of_resolvable ok ex
  rw [WorkDescriptor.traceAt, file, read] at run
  simp only at run
  rw [resolvable, Bool.and_eq_true] at ok
  have ok := ok.2
  have ef := (execute_ok ex).2
  generalize l.table = table at mi ok ef first
  cases resolvesIn_inv ok with
  | create spelt =>
    cases ld
    obtain ⟨s, cols, _, keys⟩ := effect_create ef
    rw [Trace, if_neg (not_not_intro (first.mp rfl))] at run
    exact Mirror.create spelt cols keys run
  | @again s =>
    cases ld
    obtain ⟨t', table, mi⟩ := mi
    rw [Trace, if_pos (fun zero => Option.some_ne_none s (first.mpr zero)), table] at run
    cases run
    cases ef
    exact mi
  | alter spelt only =>
    obtain ⟨t', table, mi⟩ := mi
    rw [table, Trace_alter (loadItem_isAlter ld)] at run
    exact mi.item (effect_alter only ef).1 spelt ld run

/-- Entering the state of a statement that resolves keeps the relation. -/
lemma Mirrored.enterState {n : Nat} (mi : Mirrored l.table w.table) (ok : resolvable sv l st = true)
    (ex : Schema.execute sv l.table st = some s') (file : wd.ddl n = ddlText st)
    (first : l.table = none ↔ n = 0) (run : wd.enterState hashCombine w n = .ok w') :
    Mirrored (some s') w'.table := by
  obtain ⟨t, t1, t2, stamp1, stamp2, trace, one, two, rfl⟩ := enterState_ok run
  have m1 := (mi.trace ok ex file first trace).merge (p := (t, w.stamp)) one
  have m2 := m1.merge (p := (t1, stamp1)) two
  exact ⟨t2, rfl, m2⟩

/-- A step of a table executes a statement and writes it down. -/
lemma step_ok (st' : l.step sv st = some l') :
    ∃ s', Schema.execute sv l.table st = some s' ∧
      l' = { written := l.written ++ [st], table := some s' } := by
  rw [TableLife.step, Option.bind_eq_bind, Option.bind_eq_some_iff] at st'
  obtain ⟨s', ex, e⟩ := st'
  cases e
  exact ⟨s', ex, rfl⟩

/-- The files of a longer life start with those of the shorter one. -/
lemma Replays.prior (re : Replays wd { written := l.written ++ [st], table := some s' }) :
    Replays wd l ∧ wd.ddl l.written.length = ddlText st := by
  constructor
  · intro k st' at_k
    apply re k st'
    rw [List.getElem?_append_left (List.getElem?_eq_some_iff.mp at_k).1]
    exact at_k
  · apply re
    rw [List.getElem?_concat_length]

/-- There is a table from the first statement on. -/
lemma run_table {ok : TableLife → SQLStatement → Prop} (run : Steps (TableLife.step sv) ok .new l) :
    l.table = none ↔ l.written.length = 0 := by
  apply run.invariant
  · exact ⟨fun _ => rfl, fun _ => rfl⟩
  · intro l st l' _ _ step
    obtain ⟨s', _, rfl⟩ := step_ok step
    constructor
    · intro none
      cases none
    · intro zero
      rw [List.length_append, List.length_singleton] at zero
      omega

/-- The replayed table mirrors the schema after every statement, if all of them resolve. -/
theorem run_mirror
    (run : Steps (TableLife.step sv) (fun l st => resolvable sv l st = true) .new l)
    (re : Replays wd l) (done : wd.statesTo hashCombine l.written.length = .ok w) :
    Mirrored l.table w.table := by
  revert w
  revert re
  apply run.invariant_along (I := fun l => Replays wd l →
    ∀ {w}, wd.statesTo hashCombine l.written.length = .ok w → Mirrored l.table w.table)
  · intro _ w done
    cases done
    rfl
  · intro l st l' run ih ok step re w done
    obtain ⟨s', ex, rfl⟩ := step_ok step
    obtain ⟨re, file⟩ := re.prior
    rw [List.length_append, List.length_singleton, WorkDescriptor.statesTo_succ, bind_ok] at done
    obtain ⟨w0, prior, enter⟩ := done
    exact (ih re prior).enterState ok ex file (run_table run) enter

end

end

end TdsqlMerge.Ddl
