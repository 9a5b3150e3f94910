import Mathlib.Data.List.Nodup
import TdsqlMerge.Ddl.Names
import TdsqlMerge.Store.Returns

/-!
# The columns of the replayed table and of the final table

The values of `result.csv` stand in the order of `colDes`, the INSERT header in that of `finalTableCols.txt`.
`Lockstep` strengthens `Mirror` by the order of the columns and by what building a temporary index needs.
`columns_agree` says that both lists are equal after every statement, and that the files can be replayed,
if every statement `agrees`; `first_column_swapped` is a table for which they are not.
-/

namespace TdsqlMerge.Ddl
open Lib Splitter Store

/-! ### The condition -/

section
variable (sv : Server)

/-- The replay puts the column where the item does: not FIRST, and a changed column stays in its place. -/
def Schema.keepsOrder (s : Schema) : SQLAlterTableItem → Bool
  | .addColumn _ .first => false
  | .changeColumn n d placement => (s.column? sv n).any fun c =>
    (replaceColumn sv s.columns { id := c.id, name := d.columnName, created := false } placement).any
      fun cols => cols.map Column.id = s.columns.map Column.id
  | _ => true

/-- Does the replay of an item build a temporary index if no key is left? -/
def Schema.buildsTemp (s : Schema) : SQLAlterTableItem → Bool
  | .addColumn _ _ => true
  | .dropIndex n => s.keys ≠ [] || n.getSimpleName = "___TEMP_PRIMARY".toList
  | _ => s.keys ≠ []

/-- The column last added as `updated_at` is in the table. -/
def Schema.hasUpd (s : Schema) : Bool :=
  s.lastUpdatedAt.any fun u => u ∈ s.columns.map Column.id

/-- There is at most one key, and `updated_at` where a temporary index is built. -/
def Schema.fits (s' : Schema) (builds : Bool) : Bool :=
  s'.keys.length ≤ 1 && (s'.keys ≠ [] || !builds || s'.hasUpd)

/-- The statement puts the columns where the replay does, and its keys fit the replay. -/
def agreesIn (s' : Schema) : Option Schema → SQLStatement → Bool
  | none, .createTable _ columnDefinitions _ =>
    (columnDefinitions.all fun d => decide ('`' ∉ d.columnName.getSimpleName)) && s'.fits true
  | some s, .alterTable _ (item :: _) => s.keepsOrder sv item && s'.fits (s.buildsTemp item)
  | _, _ => true

/-- The statement resolves, keeps the order of the replay and fits it. -/
def agrees (l : TableLife) (st : SQLStatement) : Bool :=
  resolvable sv l st && (Schema.execute sv l.table st).all fun s' => agreesIn sv s' l.table st

end

/-! ### The relation -/

/-- A temporary index has all columns but `updated_at`. -/
def TempCovers (t : Table) : Prop :=
  ∀ cols, t.headers = [Header.temp cols] → ∀ c ∈ t.colDes, c ∈ cols ∨ t.updCol = some c

/-- The table mirrors the schema, its columns in the same order and under their own names, and so do
    `updated_at` and a temporary index. -/
structure Lockstep (s : Schema) (t : Table) : Prop where
  mirror : Mirror s t
  order : t.colDes = s.columns.map Column.id
  upd : t.updCol = s.lastUpdatedAt
  covers : TempCovers t
  plain : ∀ c ∈ s.columns, c.spelling = c.name.getSimpleName

/-- The names of the columns in their order. -/
def columnNames (t : Table) : Option (List Str) :=
  t.colDes.mapM fun c => (t.colHeap[c]?).map ColumnDescriptor.name

/-! ### Temporary indexes -/

section
variable {s s' : Schema} {t t' : Table} {hashCombine : UInt64 → Str → UInt64}

/-- The index of a key is not temporary. -/
lemma TempCovers.keyed {keys : List Key} (hd : t.headers = keys.map Key.header) : TempCovers t := by
  intro cols one
  have mem : Header.temp cols ∈ keys.map Key.header := by
    rw [← hd, one]
    exact List.mem_singleton.mpr rfl
  obtain ⟨k, _, e⟩ := List.mem_map.mp mem
  have temp : k.header.isTemp = true := by rw [e]; rfl
  cases temp

/-- A temporary index that was just built. -/
lemma TempCovers.built {u : ColPtr} (hd : t.headers = [Header.temp (t.colDes.erase u)])
    (upd : t.updCol = some u) : TempCovers t := by
  intro cols one c mem
  rw [hd] at one
  have e : t.colDes.erase u = cols := congrArg Header.cols (List.cons.inj one).1
  by_cases same : c = u
  · right
    rw [same, upd]
  · left
    rw [← e]
    exact (List.mem_erase_of_ne same).mpr mem

/-- A temporary index with the same columns covers the table. -/
lemma TempCovers.same (tc : TempCovers t) (hd : t'.headers = t.headers) (cols : t'.colDes = t.colDes)
    (upd : t'.updCol = t.updCol) : TempCovers t' := by
  unfold TempCovers
  rw [hd, cols, upd]
  exact tc

/-- Dropping an index of a table that mirrors a schema. -/
lemma TempCovers.dropUniqueIndex {isPrimary : Bool} {name : Str} (tc : TempCovers t)
    (mk : MirrorKeys s t) (run : t.dropUniqueIndex hashCombine isPrimary false name = .ok t') :
    TempCovers t' := by
  obtain ⟨miss, hit⟩ := dropUniqueIndex_headers run
  have sc := dropUniqueIndex_cols run
  cases find : t.headers.findIdx? (Header.isMeant isPrimary false name) with
  | none =>
    rw [miss find]
    exact tc
  | some i =>
    obtain ⟨gone, left⟩ := hit i find
    by_cases last : t.headers.eraseIdx i = []
    · obtain ⟨u, upd, _, hd⟩ := gone last
      apply TempCovers.built (u := u)
      · rw [hd, sc]
      · rw [sc]
        exact upd
    · by_cases none : s.keys = []
      · obtain ⟨cols, one⟩ := mk.temp none
        rw [one] at last find
        have lt := (List.findIdx?_eq_some_iff_getElem.mp find).1
        rw [List.length_singleton] at lt
        rw [show i = 0 by omega] at last
        exact absurd rfl last
      · have hd := left last
        rw [mk.keyed none, List.eraseIdx_map] at hd
        exact .keyed hd

/-- Dropping a column of a table that mirrors a schema. -/
lemma TempCovers.dropColumn {name : Str} {c : ColPtr} (tc : TempCovers t) (mk : MirrorKeys s t)
    (nd : t.colDes.Nodup) (find : t.colDes.find? (t.hasName name) = some c)
    (run : t.dropColumn hashCombine name = .ok t') : TempCovers t' := by
  obtain ⟨gone, left⟩ := dropColumn_headers run find
  have cd := dropColumn_cols run
  have colDes := cd.erased find
  by_cases last : t.headersWithout c = []
  · obtain ⟨u, upd, _, hd⟩ := gone last
    apply TempCovers.built (u := u)
    · rw [hd, colDes]
    · rw [cd.updCol, upd]
  · have hd := left last
    by_cases none : s.keys = []
    · obtain ⟨cols, one⟩ := mk.temp none
      intro cols' one' x mem
      have erased : Header.temp cols' = (Header.temp cols).erase c := by
        have mem : Header.temp cols' ∈ t.headersWithout c := by
          rw [← hd, one']
          exact List.mem_singleton.mpr rfl
        rw [Table.headersWithout, one] at mem
        exact List.mem_singleton.mp (List.mem_of_mem_filter mem)
      have e : cols' = cols.erase c := congrArg Header.cols erased
      rw [colDes] at mem
      rw [e, cd.updCol]
      obtain ⟨ne, old⟩ := nd.mem_erase_iff.mp mem
      rcases tc cols one x old with here | upd
      · exact .inl ((List.mem_erase_of_ne ne).mpr here)
      · exact .inr upd
    · apply @TempCovers.keyed _ (keysWithout c s.keys)
      exact hd.trans (mk.without none)

end

/-! ### The order of the columns -/

section
variable {sv : Server} {s s' : Schema} {t t' : Table} {hashCombine : UInt64 → Str → UInt64}

/-- The place after a column is the same in both lists. -/
lemma findIdx_id {n : SQLName} {i : Nat} {p : ColPtr → Bool} (nd : (s.columns.map Column.id).Nodup)
    (at_i : s.columns.findIdx? (fun c => sv.same c.name n) = some i)
    (only : ∀ c, s.column? sv n = some c → ∀ e ∈ s.columns, p e.id = true ↔ e.id = c.id) :
    (s.columns.map Column.id).findIdx? p = some i := by
  obtain ⟨lt, same, _⟩ := List.findIdx?_eq_some_iff_getElem.mp at_i
  have me : s.column? sv n = some s.columns[i] := by
    rw [Schema.column?, List.find?_eq_bind_findIdx?_getElem?, at_i, Option.bind_some,
      List.getElem?_eq_getElem lt]
  rw [List.findIdx?_map, List.findIdx?_eq_some_iff_getElem]
  refine ⟨lt, (only _ me _ (List.getElem_mem lt)).mpr rfl, ?_⟩
  intro j before hit
  have e := (only _ me _ (List.getElem_mem (before.trans lt))).mp hit
  have ltj : j < (s.columns.map Column.id).length := by
    rw [List.length_map]
    exact before.trans lt
  have lti : i < (s.columns.map Column.id).length := by
    rw [List.length_map]
    exact lt
  have ids : (s.columns.map Column.id)[j] = (s.columns.map Column.id)[i] := by
    rw [List.getElem_map, List.getElem_map, e]
  have := (List.Nodup.getElem_inj_iff nd).mp ids
  omega

/-- A column that is not put FIRST stands at the same place in both lists. -/
lemma place_order {cols' : List Column} {col : Column} {placement : Placement} {d : ColumnDescriptor}
    {colDes' : List ColPtr} (mc : MirrorColumns s t) (order : t.colDes = s.columns.map Column.id)
    (put : place sv s.columns col placement = some cols') (late : placement ≠ .first)
    (sp : ∀ n, placement = .after n → s.spells sv n (replace '`' n.getSimpleName) = true)
    (placed : Placed (t.newCol d).hasName t.colDes col.id (loadPlacement placement) colDes') :
    colDes' = cols'.map Column.id := by
  cases placement with
  | none =>
    cases put
    have e : colDes' = t.colDes ++ [col.id] := placed
    rw [e, order, List.map_append]
    rfl
  | first => exact absurd rfl late
  | after n =>
    rw [place, Option.bind_eq_bind, Option.bind_eq_some_iff] at put
    obtain ⟨i, at_i, e⟩ := put
    cases e
    obtain ⟨j, at_j, e⟩ := placed
    have same : t.colDes.findIdx? ((t.newCol d).hasName (replace '`' n.getSimpleName)) = some i := by
      rw [order]
      apply findIdx_id mc.nodup at_i
      intro c me e mem
      rw [hasName_newCol (mc.lt mem)]
      exact mc.hasName (sp n rfl) me mem
    rw [same] at at_j
    cases at_j
    rw [e, order, List.map_insertIdx]

/-- A key or nothing else changed in the schema. -/
lemma Lockstep.sameColumns (lo : Lockstep s t) (mi : Mirror s' t') (columns : s'.columns = s.columns)
    (last : s'.lastUpdatedAt = s.lastUpdatedAt) (sc : SameCols t t') (tc : TempCovers t') :
    Lockstep s' t' := by
  refine ⟨mi, ?_, ?_, tc, ?_⟩
  · rw [sc, columns]
    exact lo.order
  · rw [sc, last]
    exact lo.upd
  · rw [columns]
    exact lo.plain

/-- Dropping a key leaves the columns alone. -/
lemma dropKey_columns {p : Key → Bool} :
    (s.dropKey p).columns = s.columns ∧ (s.dropKey p).lastUpdatedAt = s.lastUpdatedAt := by
  rw [Schema.dropKey]
  split
  · exact ⟨rfl, rfl⟩
  · exact ⟨rfl, rfl⟩

/-- ADD COLUMN keeps the lockstep, unless the column comes first. -/
lemma Lockstep.addedColumn {d : SQLColumnDefinition} {placement : Placement} {isNotNull : Bool}
    (lo : Lockstep s t) (ap : s.addColumn sv false placement d = some s') (mi : Mirror s' t')
    (late : placement ≠ .first)
    (sp : ∀ n, placement = .after n → s.spells sv n (replace '`' n.getSimpleName) = true)
    (run : t.addColumnOf hashCombine (loadColumn d isNotNull) (loadPlacement placement) = .ok t') :
    Lockstep s' t' := by
  have ca := addColumnOf_cols run
  obtain ⟨columns, put, rfl⟩ := addColumn_ok ap
  have heap := lo.mirror.columns.heap
  refine ⟨mi, ?_, ?_, ?_, ?_⟩
  · have placed := ca.colDes
    rw [heap] at placed
    exact @place_order _ _ _ _ ⟨s.next, d.columnName, false⟩ _ _ _ lo.mirror.columns lo.order put late
      sp placed
  · rw [ca.updCol, heap, lo.upd]
    rfl
  · by_cases none : s.keys = []
    · obtain ⟨cols, one⟩ := lo.mirror.keys.temp none
      obtain ⟨u, upd, _, hd⟩ := (addColumnOf_headers run).2 _ one rfl
      exact .built hd upd
    · exact .keyed (mi.keys.keyed none)
  · intro e mem
    rcases List.mem_cons.mp ((place_perm put).mem_iff.mp mem) with rfl | old
    · rfl
    · exact lo.plain e old

/-- DROP COLUMN keeps the lockstep. -/
lemma Lockstep.droppedColumn {n : SQLName} (lo : Lockstep s t) (ap : s.dropColumn sv n = some s')
    (mi : Mirror s' t') (sp : s.spells sv n n.getSimpleName = true)
    (run : t.dropColumn hashCombine n.getSimpleName = .ok t') : Lockstep s' t' := by
  have cd := dropColumn_cols run
  obtain ⟨c, me, rfl⟩ := dropColumn_ok ap
  have find := lo.mirror.columns.find sp me
  have nd := lo.mirror.columns.nodup
  refine ⟨mi, ?_, cd.updCol.trans lo.upd, ?_, ?_⟩
  · rw [cd.erased find, lo.order]
    exact (map_id_filter nd).symm
  · exact lo.covers.dropColumn lo.mirror.keys (lo.order ▸ nd) find run
  · exact fun e mem => lo.plain e (List.mem_of_mem_filter mem)

/-- CHANGE COLUMN keeps the lockstep, where it keeps the order. -/
lemma Lockstep.changedColumn {n : SQLName} {d : SQLColumnDefinition} {placement : Placement}
    {col : ColumnStatement} (lo : Lockstep s t) (ap : s.changeColumn sv n d placement = some s')
    (mi : Mirror s' t') (keep : s.keepsOrder sv (.changeColumn n d placement) = true)
    (run : t.changeCol col n.getSimpleName = .ok t') : Lockstep s' t' := by
  have cc := changeCol_cols run
  obtain ⟨c, columns, me, put, rfl⟩ := changeColumn_ok ap
  rw [Schema.keepsOrder, me, Option.any_some, put, Option.any_some, decide_eq_true_iff] at keep
  have here : c.id ∈ s.columns.map Column.id := List.mem_map_of_mem (Schema.column?_mem me)
  have mem_iff := (@replaceColumn_columns _ _ _ { id := c.id, name := d.columnName, created := false } _
    lo.mirror.columns.nodup here put).2
  refine ⟨mi, ?_, cc.updCol.trans lo.upd, ?_, ?_⟩
  · rw [cc.colDes, lo.order]
    exact keep.symm
  · refine lo.covers.same ?_ cc.colDes cc.updCol
    rw [Table.headers, changeCol_indexs run]
    rfl
  · intro e mem
    rcases mem_iff e mem with rfl | ⟨old, _⟩
    · rfl
    · exact lo.plain e old

/-- Dropping a key keeps the lockstep. -/
lemma Lockstep.droppedKey {p : Key → Bool} {isPrimary : Bool} {name : Str} (lo : Lockstep s t)
    (mi : Mirror (s.dropKey p) t') (run : t.dropUniqueIndex hashCombine isPrimary false name = .ok t') :
    Lockstep (s.dropKey p) t' :=
  lo.sameColumns mi dropKey_columns.1 dropKey_columns.2 (dropUniqueIndex_cols run)
    (lo.covers.dropUniqueIndex lo.mirror.keys run)

/-- Adding a key keeps the lockstep. -/
lemma Lockstep.addedKey {name : Option SQLName} {isPrimary : Bool} {parts : List SQLSelectOrderByItem}
    {text : Str} {cols : List Str} (lo : Lockstep s t) (ap : s.addKey sv name isPrimary parts = some s')
    (mi : Mirror s' t') (run : t.addUniqueIndex hashCombine text cols isPrimary = .ok t') : Lockstep s' t' := by
  obtain ⟨k, _, _, _, rfl⟩ := addKey_ok ap
  exact lo.sameColumns mi rfl rfl (addUniqueIndex_cols run)
    (.keyed (mi.keys.keyed (List.append_ne_nil_of_right_ne_nil _ (List.cons_ne_nil k []))))

/-- Replaying an item that keeps the order keeps both tables in lockstep. -/
lemma Lockstep.item {item : SQLAlterTableItem} {stmt : Statement} (lo : Lockstep s t)
    (ap : s.item sv item = some s') (ok : s.resolves sv item = true)
    (keep : s.keepsOrder sv item = true) (ld : loadItem item = some stmt)
    (run : stmt.fillToTable hashCombine t = .ok t') : Lockstep s' t' := by
  have mi := lo.mirror.item ap ok ld run
  cases resolves_inv ok with
  | addColumn after =>
    cases ld
    rw [item_addColumn] at ap
    refine lo.addedColumn ap mi ?_ after run
    rintro rfl
    cases keep
  | dropColumn spelt =>
    cases ld
    rw [item_dropColumn] at ap
    exact lo.droppedColumn ap mi spelt run
  | addIndex =>
    cases ld
    cases ap
    cases run
    exact lo
  | dropIndex =>
    cases ld
    cases ap
    exact lo.droppedKey mi run
  | dropPrimaryKey =>
    cases ld
    cases ap
    exact lo.droppedKey mi run
  | primaryKey =>
    cases ld
    exact lo.addedKey ap mi run
  | unique =>
    cases ld
    exact lo.addedKey ap mi run
  | changeColumn =>
    cases ld
    exact lo.changedColumn ap mi keep run

/-- The columns of a CREATE TABLE. -/
lemma created_order {columnDefinitions : List SQLColumnDefinition} (mc : MirrorColumns s t)
    (order : t.colDes = s.columns.map Column.id) (upd : t.updCol = s.lastUpdatedAt)
    (plain : ∀ c ∈ s.columns, c.spelling = c.name.getSimpleName)
    (names : ∀ d ∈ columnDefinitions, '`' ∉ d.columnName.getSimpleName)
    (ap : columnDefinitions.foldlM (Schema.addColumn sv true .none) s = some s')
    (run : (columnDefinitions.map loadCreated).foldlM
      (fun t col => t.addColumnOf hashCombine col none) t = .ok t') :
    t'.colDes = s'.columns.map Column.id ∧ t'.updCol = s'.lastUpdatedAt ∧
      ∀ c ∈ s'.columns, c.spelling = c.name.getSimpleName := by
  induction columnDefinitions generalizing s t with
  | nil =>
    cases ap
    cases run
    exact ⟨order, upd, plain⟩
  | cons d ds ih =>
    rw [List.foldlM_cons, Option.bind_eq_bind, Option.bind_eq_some_iff] at ap
    rw [List.map_cons, List.foldlM_cons, bind_ok] at run
    obtain ⟨s1, ap, aps⟩ := ap
    obtain ⟨t1, run, runs⟩ := run
    have ca := addColumnOf_cols run
    have mc1 := mc.added ap ca rfl
    obtain ⟨columns, put, rfl⟩ := addColumn_ok ap
    cases put
    apply ih mc1 _ _ _ (fun d mem => names d (List.mem_cons_of_mem _ mem)) aps runs
    · have placed : t1.colDes = t.colDes ++ [t.colHeap.length] := ca.colDes
      rw [placed, order, mc.heap, List.map_append]
      rfl
    · rw [ca.updCol, mc.heap, upd]
      rfl
    · intro e mem
      rcases List.mem_append.mp mem with old | new
      · exact plain e old
      · rw [List.mem_singleton.mp new]
        exact replace_eq_self.mpr (names d List.mem_cons_self)

/-- The keys of a CREATE TABLE leave the columns alone. -/
lemma createKeys_columns {keys : List MySqlKey}
    (ap : keys.foldlM (fun s key => s.addKey sv key.name key.isPrimary key.columns) s = some s') :
    s'.columns = s.columns ∧ s'.lastUpdatedAt = s.lastUpdatedAt := by
  induction keys generalizing s with
  | nil =>
    cases ap
    exact ⟨rfl, rfl⟩
  | cons key keys ih =>
    rw [List.foldlM_cons, Option.bind_eq_bind, Option.bind_eq_some_iff] at ap
    obtain ⟨s1, ap, aps⟩ := ap
    obtain ⟨k, _, _, _, rfl⟩ := addKey_ok ap
    exact ih (s := { s with keys := s.keys ++ [k] }) aps

/-- Pushing the indexes of a CREATE TABLE keeps the columns. -/
lemma pushIndexs_cols {indexs : List IndexStatement}
    (run : indexs.foldlM (Table.pushIndex hashCombine) t = .ok t') : SameCols t t' := by
  apply foldlM_ok (SameCols t) _ run .refl
  intro stat _ t1 t2 sc push
  exact sc.trans (pushIndex_cols push)

/-- Replaying a CREATE TABLE establishes lockstep. -/
lemma Lockstep.create {columnDefinitions : List SQLColumnDefinition} {mysqlKeys : List MySqlKey}
    (ok : resolvesCreate sv columnDefinitions mysqlKeys = true)
    (names : ∀ d ∈ columnDefinitions, '`' ∉ d.columnName.getSimpleName)
    (cols : Schema.createColumns sv columnDefinitions = some s)
    (keys : s.createKeys sv mysqlKeys = some s')
    (run : Table.new.fillCreate hashCombine (columnDefinitions.map loadCreated)
      ((mysqlKeys.filter fun key => key.type.isSome).map loadKey) = .ok t) : Lockstep s' t := by
  have mi := Mirror.create ok cols keys run
  simp only [Table.fillCreate, bind_ok] at run
  obtain ⟨t1, add, t2, push, run⟩ := run
  have empty : MirrorColumns Schema.empty Table.new :=
    ⟨rfl, .refl _, List.nodup_nil, fun c mem => by cases mem⟩
  obtain ⟨order, upd, plain⟩ := created_order empty rfl rfl (fun c mem => by cases mem) names cols add
  obtain ⟨columns, last⟩ := createKeys_columns keys
  have sc := pushIndexs_cols push
  have lockstep : SameCols t1 t → TempCovers t → Lockstep s' t := by
    intro sc tc
    refine ⟨mi, ?_, ?_, tc, ?_⟩
    · rw [sc, columns]
      exact order
    · rw [sc, last]
      exact upd
    · rw [columns]
      exact plain
  split at run
  · rename_i nil
    rw [List.isEmpty_iff.mp nil] at push
    cases push
    obtain ⟨u, upd, _, hd⟩ := pushTemp_headers run
    have bare := (empty.created rfl cols add).2.1
    have sc := pushTemp_cols run
    apply lockstep sc
    apply TempCovers.built (u := u)
    · rw [hd, bare, sc]
      rfl
    · rw [sc]
      exact upd
  · rename_i some
    cases run
    apply lockstep sc
    apply TempCovers.keyed
    apply mi.keys.keyed
    intro nokeys
    -- without keys there would be no index statement
    rw [resolvesCreate, cols, Option.any_some, List.all_eq_true] at ok
    obtain ⟨mc, bare, nokeys'⟩ := empty.created rfl cols add
    obtain ⟨_, _, len⟩ := Mirror.createdKeys mc (by rw [bare, nokeys']; rfl) ok keys push
    rw [nokeys, List.length_nil] at len
    have nil := List.length_eq_zero_iff.mp (by omega : (mysqlKeys.filter fun key => key.type.isSome).length = 0)
    rw [nil] at some
    exact some rfl

/-! ### The replay returns -/

/-- Where the schema has `updated_at`, the table has it. -/
lemma Schema.hasUpd_iff {updCol : Option ColPtr} {colDes : List ColPtr}
    (order : colDes.Perm (s.columns.map Column.id)) (upd : updCol = s.lastUpdatedAt)
    (has : s.hasUpd = true) : HasUpd updCol colDes := by
  obtain ⟨u, last, mem⟩ := (Option.any_eq_true _ _).mp has
  exact ⟨u, upd.trans last, order.mem_iff.mpr (of_decide_eq_true mem)⟩

/-- The one index of a table with at most one key. -/
lemma MirrorKeys.one (mk : MirrorKeys s t) (few : s.keys.length ≤ 1) : ∃ h, t.headers = [h] := by
  cases keys : s.keys with
  | nil =>
    obtain ⟨cols, one⟩ := mk.temp keys
    exact ⟨_, one⟩
  | cons k ks =>
    have hd := mk.keyed (by rw [keys]; exact List.cons_ne_nil k ks)
    rw [keys, List.length_cons] at few
    rw [keys, List.length_eq_zero_iff.mp (by omega : ks.length = 0)] at hd
    exact ⟨k.header, hd⟩

/-- A table without key has a temporary index, and only such a table. -/
lemma MirrorKeys.temp_iff (mk : MirrorKeys s t) {h : Header} (one : t.headers = [h]) :
    h.isTemp = true ↔ s.keys = [] := by
  constructor
  · intro temp
    by_contra some
    have mem : h ∈ s.keys.map Key.header := by
      rw [← mk.keyed some, one]
      exact List.mem_singleton.mpr rfl
    obtain ⟨k, _, rfl⟩ := List.mem_map.mp mem
    cases temp
  · intro none
    obtain ⟨cols, one'⟩ := mk.temp none
    rw [one'] at one
    rw [← (List.cons.inj one).1]
    rfl

/-- Where a temporary index is built on a schema that fits, there is `updated_at`. -/
lemma Schema.fits_upd {builds : Bool} (fits : s.fits builds = true) (none : s.keys = [])
    (built : builds = true) : s.hasUpd = true := by
  rw [Schema.fits, none, built] at fits
  simpa using fits

/-- A schema that fits has at most one key. -/
lemma Schema.fits_few {builds : Bool} (fits : s.fits builds = true) : s.keys.length ≤ 1 := by
  rw [Schema.fits, Bool.and_eq_true] at fits
  exact of_decide_eq_true fits.1

/-- The key that DROPINDEX would drop as the last one. -/
lemma MirrorKeys.dropKey_last {p : Key → Bool} {isPrimary : Bool} {name : Str} {i : Nat}
    (mk : MirrorKeys s t)
    (shown : ∀ k ∈ s.keys, Header.isMeant isPrimary false name k.header = p k)
    (find : t.headers.findIdx? (Header.isMeant isPrimary false name) = some i)
    (last : t.headers.eraseIdx i = []) : (s.dropKey p).keys = [] := by
  by_cases none : s.keys = []
  · rw [Schema.dropKey, none, List.findIdx?_nil]
  · have hd := mk.keyed none
    rw [hd, List.findIdx?_map] at find
    have same : s.keys.findIdx? p = some i := (findIdx?_congr fun k mem => (shown k mem).symm).trans find
    rw [Schema.dropKey, same]
    rw [hd, List.eraseIdx_map, List.map_eq_nil_iff] at last
    exact last

/-- DROPINDEX returns if it does not have to build a temporary index without `updated_at`. -/
lemma Lockstep.dropUniqueIndex_returns {p : Key → Bool} {isPrimary builds : Bool} {name : Str}
    (lo : Lockstep s t) (rl : Rowless t) (fits : (s.dropKey p).fits builds = true)
    (shown : ∀ k ∈ s.keys, Header.isMeant isPrimary false name k.header = p k)
    (built : ∀ cols, s.keys = [] → Header.isMeant isPrimary false name (.temp cols) = true → builds = true)
    (keyed : s.keys ≠ [] → builds = true) :
    ∃ t', t.dropUniqueIndex hashCombine isPrimary false name = .ok t' := by
  apply TdsqlMerge.Store.dropUniqueIndex_returns rl
  intro i find last
  have none := lo.mirror.keys.dropKey_last shown find last
  have build : builds = true := by
    by_cases nokeys : s.keys = []
    · obtain ⟨cols, one⟩ := lo.mirror.keys.temp nokeys
      obtain ⟨lt, meant, _⟩ := List.findIdx?_eq_some_iff_getElem.mp find
      simp only [one, List.getElem_singleton] at meant
      exact built cols nokeys meant
    · exact keyed nokeys
  have has := Schema.fits_upd fits none build
  rw [Schema.hasUpd, dropKey_columns.1, dropKey_columns.2] at has
  exact Schema.hasUpd_iff lo.mirror.columns.order lo.upd has

/-- ADDCOL returns. -/
lemma Lockstep.addColumn_returns {d : SQLColumnDefinition} {placement : Placement} {isNotNull : Bool}
    (lo : Lockstep s t) (rl : Rowless t) (few : s.keys.length ≤ 1)
    (ap : s.addColumn sv false placement d = some s')
    (sp : ∀ n, placement = .after n → s.spells sv n (replace '`' n.getSimpleName) = true)
    (fits : s'.fits true = true) :
    ∃ t', t.addColumnOf hashCombine (loadColumn d isNotNull) (loadPlacement placement) = .ok t' := by
  obtain ⟨h, one⟩ := lo.mirror.keys.one few
  obtain ⟨columns, put, same⟩ := addColumn_ok ap
  apply addColumnOf_returns rl
  · intro name mem
    cases placement with
    | none => cases mem
    | first => cases mem
    | after n =>
      cases mem
      obtain ⟨c, me⟩ := place_after put
      exact ⟨c.id, lo.mirror.columns.find (sp n rfl) me⟩
  · rintro t' ca ⟨h', one', temp⟩
    have none : s'.keys = [] := by
      rw [same]
      exact (lo.mirror.keys.temp_iff one').mp temp
    have mc := lo.mirror.columns.added ap ca rfl
    have upd : t'.updCol = s'.lastUpdatedAt := by
      rw [ca.updCol, lo.mirror.columns.heap, lo.upd, same]
      rfl
    exact Schema.hasUpd_iff mc.order upd (Schema.fits_upd fits none rfl)
  · rw [one]
    exact le_rfl

/-- DROPCOL returns. -/
lemma Lockstep.dropColumn_returns {n : SQLName} (lo : Lockstep s t) (rl : Rowless t)
    (ap : s.dropColumn sv n = some s') (sp : s.spells sv n n.getSimpleName = true)
    (some : s'.columns ≠ []) (fits : s'.fits (s.keys ≠ []) = true) :
    ∃ t', t.dropColumn hashCombine n.getSimpleName = .ok t' := by
  obtain ⟨c, me, rfl⟩ := dropColumn_ok ap
  have find := lo.mirror.columns.find sp me
  have nd := lo.mirror.columns.nodup
  apply TdsqlMerge.Store.dropColumn_returns rl find
  intro gone
  have order : t.colDes.erase c.id = (s.columns.filter fun e => e.id ≠ c.id).map Column.id := by
    rw [lo.order]
    exact (map_id_filter nd).symm
  by_cases none : s.keys = []
  · -- the temporary index had no other column than the dropped one
    obtain ⟨cols, one⟩ := lo.mirror.keys.temp none
    have empty : cols.erase c.id = [] := by
      by_contra left
      rw [Table.headersWithout, one, List.map_singleton, List.filter_cons_of_pos] at gone
      · cases gone
      · exact decide_eq_true left
    obtain ⟨e, mem⟩ := List.exists_mem_of_ne_nil _ some
    have here : e.id ∈ t.colDes.erase c.id := by
      rw [order]
      exact List.mem_map_of_mem mem
    have ne : e.id ≠ c.id := ((lo.order ▸ nd).mem_erase_iff.mp here).1
    rcases lo.covers cols one e.id (List.mem_of_mem_erase here) with other | upd
    · have := (List.mem_erase_of_ne ne).mpr other
      rw [empty] at this
      cases this
    · exact ⟨e.id, upd, here⟩
  · have keys : keysWithout c.id s.keys = [] := by
      rw [lo.mirror.keys.without none, List.map_eq_nil_iff] at gone
      exact gone
    have has := Schema.fits_upd fits keys (decide_eq_true none)
    obtain ⟨u, last, mem⟩ := (Option.any_eq_true _ _).mp has
    refine ⟨u, lo.upd.trans last, ?_⟩
    rw [order]
    exact of_decide_eq_true mem

/-- The parts of a key are found. -/
lemma Lockstep.findParts {f : SQLSelectOrderByItem → Str} {parts : List SQLSelectOrderByItem}
    {ids : List Nat} (lo : Lockstep s t) (key : s.keyColumns sv parts = some ids)
    (sp : parts.all (fun item => s.spells sv item.expr (f item)) = true) :
    ∀ colStr ∈ parts.map f, ∃ c, t.colDes.find? (t.hasName colStr) = some c :=
  forall₂_right (lo.mirror.columns.findParts key sp).flip fun _ _ find => ⟨_, find⟩

/-- ADDINDEX returns. -/
lemma Lockstep.addKey_returns {name : Option SQLName} {isPrimary builds : Bool} {text : Str}
    {parts : List SQLSelectOrderByItem} (lo : Lockstep s t) (rl : Rowless t)
    (ap : s.addKey sv name isPrimary parts = some s')
    (sp : parts.all (fun item => s.spells sv item.expr item.toString) = true)
    (fits : s'.fits builds = true) :
    ∃ t', t.addUniqueIndex hashCombine text (parts.map SQLSelectOrderByItem.toString) isPrimary =
      .ok t' := by
  obtain ⟨k, key, _, _, rfl⟩ := addKey_ok ap
  have few := Schema.fits_few fits
  have none : s.keys = [] := by
    rw [← List.length_eq_zero_iff]
    rw [List.length_append, List.length_singleton] at few
    omega
  obtain ⟨cols, one⟩ := lo.mirror.keys.temp none
  exact addUniqueIndex_returns rl one rfl (lo.findParts key sp)

/-- Replaying an item that fits a table without rows returns. -/
lemma Lockstep.item_returns {item : SQLAlterTableItem} {stmt : Statement} (lo : Lockstep s t)
    (rl : Rowless t) (few : s.keys.length ≤ 1) (ap : s.item sv item = some s')
    (some : s'.columns ≠ []) (ok : s.resolves sv item = true)
    (fits : s'.fits (s.buildsTemp item) = true) (ld : loadItem item = .some stmt) :
    ∃ t', stmt.fillToTable hashCombine t = .ok t' := by
  cases resolves_inv ok with
  | addColumn after =>
    cases ld
    rw [item_addColumn] at ap
    exact lo.addColumn_returns rl few ap after fits
  | dropColumn spelt =>
    cases ld
    rw [item_dropColumn] at ap
    exact lo.dropColumn_returns rl ap spelt some fits
  | addIndex =>
    cases ld
    exact ⟨t, rfl⟩
  | @dropIndex n =>
    cases ld
    cases ap
    rw [Schema.resolves, Bool.and_eq_true, List.all_eq_true] at ok
    -- a statement may name the temporary index of a table without keys
    refine lo.dropUniqueIndex_returns rl fits (fun k mem => beq_iff_eq.mp (ok.1 k mem)) ?_ ?_
    · intro cols _ meant
      have name : "___TEMP_PRIMARY".toList = n.getSimpleName := of_decide_eq_true meant
      rw [Schema.buildsTemp, Bool.or_eq_true]
      exact .inr (decide_eq_true name.symm)
    · intro keyed
      rw [Schema.buildsTemp, Bool.or_eq_true]
      exact .inl (decide_eq_true keyed)
  | dropPrimaryKey =>
    cases ld
    cases ap
    refine lo.dropUniqueIndex_returns rl fits (fun k _ => rfl) ?_ ?_
    · intro cols _ meant
      cases meant
    · intro keyed
      exact decide_eq_true keyed
  | primaryKey spelt =>
    cases ld
    exact lo.addKey_returns rl ap spelt fits
  | unique spelt =>
    cases ld
    exact lo.addKey_returns rl ap spelt fits
  | changeColumn spelt =>
    cases ld
    obtain ⟨c, _, me, _⟩ := changeColumn_ok ap
    exact changeCol_returns rl.layout (lo.mirror.columns.find spelt me)

/-- Replaying a CREATE TABLE that fits returns. -/
lemma create_returns {columnDefinitions : List SQLColumnDefinition} {mysqlKeys : List MySqlKey}
    (ok : resolvesCreate sv columnDefinitions mysqlKeys = true)
    (names : ∀ d ∈ columnDefinitions, '`' ∉ d.columnName.getSimpleName)
    (cols : Schema.createColumns sv columnDefinitions = some s)
    (keys : s.createKeys sv mysqlKeys = some s') (fits : s'.fits true = true) :
    ∃ t, Table.new.fillCreate hashCombine (columnDefinitions.map loadCreated)
      ((mysqlKeys.filter fun key => key.type.isSome).map loadKey) = .ok t := by
  obtain ⟨t1, add, found⟩ := @found_create _ _ _ hashCombine _ _ ok cols keys
  have empty : MirrorColumns Schema.empty Table.new :=
    ⟨rfl, .refl _, List.nodup_nil, fun c mem => by cases mem⟩
  apply fillCreate_returns add
  · intro stat mem colStr key
    refine forall₂_right (P := fun name => ∃ c, t1.colDes.find? (t1.hasName name) = some c) found.flip ?_
      colStr (List.mem_flatMap.mpr ⟨stat, mem, key⟩)
    rintro col name ⟨c, _, find⟩
    exact ⟨c.id, find⟩
  · intro nil
    have none := List.map_eq_nil_iff.mp nil
    rw [Schema.createKeys, none] at keys
    cases keys
    have nokeys := (empty.created rfl cols add).2.2
    have has := Schema.fits_upd fits nokeys rfl
    obtain ⟨order, upd, _⟩ := created_order empty rfl rfl (fun c mem => by cases mem) names cols add
    exact Schema.hasUpd_iff (.of_eq order) upd has

end

/-! ### Runs -/

/-- The replayed table is in lockstep with the schema, if there is one. -/
def InStep (table : Option Schema) (replayed : Option Table) : Prop :=
  match table with
  | none => replayed = none
  | some s => ∃ t, replayed = some t ∧ Lockstep s t ∧ s.keys.length ≤ 1

section
variable {sv : Server} {s s' : Schema} {t : Table} {hashCombine : UInt64 → Str → UInt64}
  {wd : WorkDescriptor} {l : TableLife} {st : SQLStatement} {w w' : WorkState} {n : Nat}

/-- Merging the rows of a state keeps both tables in lockstep. -/
lemma Lockstep.merge {state source : Nat} {p p' : Table × (Nat → Nat)} (lo : Lockstep s p.1)
    (run : wd.mergeSource hashCombine state p source = .ok p') : Lockstep s p'.1 := by
  obtain ⟨sc, hd⟩ := mergeSource_same run
  apply lo.sameColumns (lo.mirror.merge run) rfl rfl sc
  apply lo.covers.same hd
  · rw [sc]
  · rw [sc]

/-- A statement that agrees resolves, and agrees on the schema it leads to. -/
lemma agrees_ok (ok : agrees sv l st = true) (ex : Schema.execute sv l.table st = some s') :
    resolvable sv l st = true ∧ agreesIn sv s' l.table st = true := by
  rw [agrees, Bool.and_eq_true, ex, Option.all_some] at ok
  exact ok

/-- A CREATE TABLE that agrees has no name with a backquote, and its schema fits. -/
lemma agreesIn_create {tableName : SQLName} {columnDefinitions : List SQLColumnDefinition}
    {mysqlKeys : List MySqlKey} (ok : agreesIn sv s' none (.createTable tableName columnDefinitions mysqlKeys) = true) :
    (∀ d ∈ columnDefinitions, '`' ∉ d.columnName.getSimpleName) ∧ s'.fits true = true := by
  rw [agreesIn, Bool.and_eq_true, List.all_eq_true] at ok
  exact ⟨fun d mem => of_decide_eq_true (ok.1 d mem), ok.2⟩

/-- What the loader replays of a statement that agrees. -/
lemma traceAt_agrees (ok : agrees sv l st = true) (ex : Schema.execute sv l.table st = some s')
    (file : wd.ddl n = ddlText st) :
    (agreesIn sv s' l.table st = true ∧ resolvesIn sv l.table st = true ∧ Schema.effect sv l.table st = some s') ∧
      ∃ stmt, load st = some stmt ∧
        ∀ hashCombine w, wd.traceAt hashCombine w n = Trace hashCombine w.table n stmt := by
  obtain ⟨resolvable, ok⟩ := agrees_ok ok ex
  obtain ⟨stmt, ld, read⟩ := getStatement_of_resolvable resolvable ex
  rw [Ddl.resolvable, Bool.and_eq_true] at resolvable
  refine ⟨⟨ok, resolvable.2, (execute_ok ex).2⟩, stmt, ld, fun hashCombine w => ?_⟩
  rw [WorkDescriptor.traceAt, file, read]

/-- Replaying the file of a statement that agrees keeps both tables in lockstep. -/
lemma InStep.trace (is : InStep l.table w.table) (ok : agrees sv l st = true)
    (ex : Schema.execute sv l.table st = some s') (file : wd.ddl n = ddlText st)
    (first : l.table = none ↔ n = 0) (run : wd.traceAt hashCombine w n = .ok t) :
    Lockstep s' t ∧ s'.keys.length ≤ 1 := by
  obtain ⟨⟨ok, spelt, ef⟩, stmt, ld, read⟩ := traceAt_agrees ok ex file
  rw [read] at run
  generalize l.table = table at is ok spelt ef first
  cases resolvesIn_inv spelt with
  | @create _ columnDefinitions mysqlKeys here =>
    cases ld
    obtain ⟨s, cols, _, keys⟩ := effect_create ef
    obtain ⟨names, fits⟩ := agreesIn_create ok
    rw [Trace, if_neg (not_not_intro (first.mp rfl))] at run
    exact ⟨Lockstep.create here names cols keys run, Schema.fits_few fits⟩
  | @again s =>
    cases ld
    obtain ⟨t', table, lo, few⟩ := is
    rw [Trace, if_pos (fun zero => Option.some_ne_none s (first.mpr zero)), table] at run
    cases run
    cases ef
    exact ⟨lo, few⟩
  | alter here only =>
    obtain ⟨t', table, lo, few⟩ := is
    obtain ⟨keep, fits⟩ := Bool.and_eq_true_iff.mp ok
    rw [table, Trace_alter (loadItem_isAlter ld)] at run
    exact ⟨lo.item (effect_alter only ef).1 here keep ld run, Schema.fits_few fits⟩

/-- On a table without rows, replaying the file of a statement that agrees returns one. -/
lemma InStep.trace_returns (is : InStep l.table w.table) (rl : ∀ t, w.table = some t → Rowless t)
    (ok : agrees sv l st = true) (ex : Schema.execute sv l.table st = some s')
    (file : wd.ddl n = ddlText st) (first : l.table = none ↔ n = 0) :
    ∃ t, wd.traceAt hashCombine w n = .ok t ∧ Rowless t := by
  obtain ⟨⟨ok, spelt, ef⟩, stmt, ld, read⟩ := traceAt_agrees ok ex file
  rw [read]
  generalize l.table = table at is ok spelt ef first
  cases resolvesIn_inv spelt with
  | @create _ columnDefinitions mysqlKeys here =>
    cases ld
    obtain ⟨s, cols, _, keys⟩ := effect_create ef
    obtain ⟨names, fits⟩ := agreesIn_create ok
    rw [Trace, if_neg (not_not_intro (first.mp rfl))]
    obtain ⟨t, run⟩ := @create_returns _ _ _ hashCombine _ _ here names cols keys fits
    exact ⟨t, run, (fillCreate_rowless run).1⟩
  | @again s =>
    cases ld
    obtain ⟨t', table, _, _⟩ := is
    rw [Trace, if_pos (fun zero => Option.some_ne_none s (first.mpr zero)), table]
    exact ⟨t', rfl, rl t' table⟩
  | alter here only =>
    obtain ⟨t', table, lo, few⟩ := is
    obtain ⟨_, fits⟩ := Bool.and_eq_true_iff.mp ok
    obtain ⟨ap, some⟩ := effect_alter only ef
    rw [table, Trace_alter (loadItem_isAlter ld)]
    obtain ⟨t, run⟩ := @Lockstep.item_returns _ _ _ _ hashCombine _ _ lo (rl t' table) few ap some here
      fits ld
    exact ⟨t, run, fillToTable_rowless (rl t' table) (loadItem_isAlter ld) run⟩

/-- Merging an empty file. -/
lemma mergeSource_nil {state source : Nat} {stamp : Nat → Nat} {h : Header} (la : Layout t)
    (one : t.headers = [h]) (empty : wd.dat source state = []) :
    ∃ stamp', wd.mergeSource hashCombine state (t, stamp) source = .ok (t, stamp') := by
  have parse : t.parseData [] source (stamp source) = .ok ([], stamp source, t) := by
    rw [Table.parseData, Table.getPhyPosArray, la.mapM_mapping la.lt]
    rfl
  simp only [WorkDescriptor.mergeSource, empty, parse, ok_bind, insertRows_nil one]
  exact ⟨_, rfl⟩

/-- After a run whose statements all agree, a replay that returned is in lockstep. -/
lemma run_inStep (run : Steps (TableLife.step sv) (fun l st => agrees sv l st = true) .new l)
    (re : Replays wd l) (done : wd.statesTo hashCombine l.written.length = .ok w) :
    InStep l.table w.table := by
  revert w
  revert re
  apply run.invariant_along (I := fun l => Replays wd l →
    ∀ {w}, wd.statesTo hashCombine l.written.length = .ok w → InStep l.table w.table)
  · intro _ w done
    cases done
    rfl
  · intro l st l' run ih ok step re w done
    obtain ⟨s', ex, rfl⟩ := step_ok step
    obtain ⟨re, file⟩ := re.prior
    rw [List.length_append, List.length_singleton, WorkDescriptor.statesTo_succ, bind_ok] at done
    obtain ⟨w0, prior, enter⟩ := done
    obtain ⟨t, t1, t2, stamp1, stamp2, trace, one, two, rfl⟩ := enterState_ok enter
    obtain ⟨lo, few⟩ := (ih re prior).trace ok ex file (run_table run) trace
    have lo1 := lo.merge (p := (t, w0.stamp)) one
    have lo2 := lo1.merge (p := (t1, stamp1)) two
    exact ⟨t2, rfl, lo2, few⟩

/-- After a run whose statements all agree, a replay without rows has returned. -/
lemma run_returns (run : Steps (TableLife.step sv) (fun l st => agrees sv l st = true) .new l)
    (re : Replays wd l) (empty : ∀ i k, wd.dat i k = []) :
    ∃ w, wd.statesTo hashCombine l.written.length = .ok w ∧ ∀ t, w.table = some t → Rowless t := by
  revert re
  apply run.invariant_along (I := fun l => Replays wd l →
    ∃ w, wd.statesTo hashCombine l.written.length = .ok w ∧ ∀ t, w.table = some t → Rowless t)
  · intro _
    refine ⟨_, rfl, ?_⟩
    intro t e
    cases e
  · intro l st l' run ih ok step re
    obtain ⟨s', ex, rfl⟩ := step_ok step
    obtain ⟨re, file⟩ := re.prior
    obtain ⟨w, prior, rl⟩ := ih re
    have is := run_inStep run re prior
    have first := run_table run
    obtain ⟨t, trace, rl'⟩ := @InStep.trace_returns _ _ hashCombine _ _ _ _ _ is rl ok ex file first
    obtain ⟨lo, few⟩ := is.trace ok ex file first trace
    obtain ⟨h, one⟩ := lo.mirror.keys.one few
    obtain ⟨stamp1, m1⟩ := @mergeSource_nil _ hashCombine wd l.written.length 0 w.stamp _ rl'.layout one
      (empty _ _)
    obtain ⟨stamp2, m2⟩ := @mergeSource_nil _ hashCombine wd l.written.length 1 stamp1 _ rl'.layout one
      (empty _ _)
    have two : List.range 2 = [0, 1] := rfl
    refine ⟨{ table := some t, stamp := stamp2 }, ?_, ?_⟩
    · rw [List.length_append, List.length_singleton, WorkDescriptor.statesTo_succ, prior, ok_bind,
        WorkDescriptor.enterState, trace, ok_bind, two, List.foldlM_cons, m1, ok_bind, List.foldlM_cons,
        m2]
      rfl
    · intro t' e
      cases e
      exact rl'

/-- The names of the columns of a table in lockstep. -/
lemma Lockstep.columnNames (lo : Lockstep s t) : columnNames t = some s.finalTableCols := by
  rw [Ddl.columnNames, lo.order, List.mapM_map, mapM_eq_some, Schema.finalTableCols,
    List.forall₂_map_right_iff, List.forall₂_same]
  intro c mem
  rw [← lo.plain c mem]
  exact lo.mirror.columns.named c mem

end

/-! ### Both lists of columns -/

/-- If every statement agrees, the replayed table has the columns of the final table, in their order, and
    a replay without rows returns. -/
theorem columns_agree {sv : Server} {hashCombine : UInt64 → Str → UInt64} {wd : WorkDescriptor}
    {l : TableLife} (run : Steps (TableLife.step sv) (fun l st => agrees sv l st = true) .new l)
    (re : Replays wd l) :
    (∀ w, wd.statesTo hashCombine l.written.length = .ok w → ∀ s, l.table = some s →
      ∃ t, w.table = some t ∧ columnNames t = some s.finalTableCols) ∧
    ((∀ i k, wd.dat i k = []) → ∃ w, wd.statesTo hashCombine l.written.length = .ok w) := by
  constructor
  · intro w done s table
    have is := run_inStep run re done
    rw [table] at is
    obtain ⟨t, replayed, lo, _⟩ := is
    exact ⟨t, replayed, lo.columnNames⟩
  · intro empty
    obtain ⟨w, done, _⟩ := run_returns run re empty
    exact ⟨w, done⟩

/-! ### A column that is put first -/

/-- All names of an item are written without quotes. -/
def itemUnquoted : SQLAlterTableItem → Bool
  | .addColumn columns placement =>
    (columns.all fun d => !d.columnName.quoted) &&
      match placement with
      | .after n => !n.quoted
      | _ => true
  | .dropColumn columns => columns.all fun n => !n.quoted
  | .dropIndex n => !n.quoted
  | .addConstraint (.primaryKey parts) => parts.all fun item => !item.expr.quoted
  | .addConstraint (.unique name parts) =>
    (name.all fun n => !n.quoted) && parts.all fun item => !item.expr.quoted
  | .changeColumn n d placement =>
    !n.quoted && !d.columnName.quoted &&
      match placement with
      | .after n => !n.quoted
      | _ => true
  | _ => true

/-- All names of a statement are written without quotes. -/
def unquoted : SQLStatement → Bool
  | .createTable tableName columnDefinitions mysqlKeys =>
    !tableName.quoted && (columnDefinitions.all fun d => !d.columnName.quoted) &&
      mysqlKeys.all fun key =>
        (key.name.all fun n => !n.quoted) && key.columns.all fun item => !item.expr.quoted
  | .alterTable tableName items => !tableName.quoted && items.all itemUnquoted
  | _ => false

/-- `CREATE TABLE t (id int, updated_at int, PRIMARY KEY (id))`. -/
def createBare : SQLStatement :=
  .createTable (bare "t".toList) [intColumn (bare "id".toList), intColumn (bare updatedAt)]
    [{ name := none, type := some "PRIMARY".toList, isPrimary := true,
       columns := [{ expr := bare "id".toList, length := none, type := none }] }]

/-- `ADD COLUMN a int AFTER id`. -/
def addAfter : SQLStatement :=
  alterT (.addColumn [intColumn (bare "a".toList)] (.after (bare "id".toList)))

/-- `ADD COLUMN a int FIRST`. -/
def addFirst : SQLStatement := alterT (.addColumn [intColumn (bare "a".toList)] .first)

/-- A column added behind the first agrees. -/
theorem middle_column_agrees : ∃ (l : TableLife) (s : Schema) (w : WorkState) (t : Table),
    l.written = [createBare, addAfter] ∧ l.table = some s ∧
      (workOf l.written).statesTo Store.hashCombine l.written.length = .ok w ∧ w.table = some t ∧
      columnNames t = some s.finalTableCols := by
  have run : ([createBare, addAfter].foldlM (fun l st => if agrees lowerCase l st then
      TableLife.step lowerCase l st else none) .new).any (fun l => l.table.isSome) = true := by
    decide +kernel
  obtain ⟨l, run, some⟩ := (Option.any_eq_true _ _).mp run
  obtain ⟨s, table⟩ := Option.isSome_iff_exists.mp some
  obtain ⟨same, returns⟩ := @columns_agree _ Store.hashCombine _ _ (Steps.of_checked run) workOf_replays
  obtain ⟨w, done⟩ := returns fun _ _ => rfl
  obtain ⟨t, replayed, names⟩ := same w done s table
  exact ⟨l, s, w, t, written_of_checked run, table, done, replayed, names⟩

/-- A column added as the first comes last in the replay. -/
theorem first_column_swapped : ¬ ∀ (sv : Server) (hashCombine : UInt64 → Str → UInt64)
    (wd : WorkDescriptor) (l : TableLife) (w : WorkState) (s : Schema),
    Steps (TableLife.step sv) (fun _ st => unquoted st = true) .new l → Replays wd l →
      wd.statesTo hashCombine l.written.length = .ok w → l.table = some s →
      ∃ t, w.table = some t ∧ columnNames t = some s.finalTableCols := by
  intro claim
  have run : ([createBare, addFirst].foldlM (fun l st => if unquoted st then
      TableLife.step lowerCase l st else none) .new).any (fun l => l.table.any fun s =>
        decide (s.finalTableCols = ["a".toList, "id".toList, updatedAt])) = true := by
    decide +kernel
  obtain ⟨l, run, h⟩ := (Option.any_eq_true _ _).mp run
  obtain ⟨s, table, final⟩ := (Option.any_eq_true _ _).mp h
  have written : l.written = [createBare, addFirst] :=
    @written_of_checked (fun _ st => unquoted st) _ _ _ _ run
  have replay : ((workOf [createBare, addFirst]).statesTo Store.hashCombine 2).toOption.any
      (fun w => w.table.any fun t =>
        decide (columnNames t = some ["id".toList, updatedAt, "a".toList])) = true := by
    decide +kernel
  obtain ⟨w, reached, h⟩ := ok_of_any replay
  obtain ⟨t, replayed, names⟩ := (Option.any_eq_true _ _).mp h
  obtain ⟨t', replayed', same⟩ := claim lowerCase Store.hashCombine (workOf l.written) l w s
    (@Steps.of_checked _ _ _ _ _ (fun _ st => unquoted st) _ run) workOf_replays
    (by rw [written]; exact reached) table
  cases replayed.symm.trans replayed'
  rw [of_decide_eq_true names, of_decide_eq_true final] at same
  cases same

end TdsqlMerge.Ddl
