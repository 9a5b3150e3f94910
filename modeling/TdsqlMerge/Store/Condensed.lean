import TdsqlMerge.Store.Backfill
import TdsqlMerge.Store.DropColumn
import TdsqlMerge.Store.Survivors

/-!
# Replays under which the key only gets coarser

A table created without a unique key is merged under a temporary index over all its columns but `updated_at`,
which ADDCOL and DROPCOL change and ADDINDEX replaces. As long as no statement tells rows apart that an
earlier index held for equal, the live rows are the newest of all rows the table was shown (`Condensed`):
each statement keeps this (`trace_condensed`), each parsed file adds its rows (`mergeSource_condensed`), so
it holds at the end (`coarse_newest`).
-/

namespace TdsqlMerge.Store
open Lib

/-- The columns of the index. -/
def Table.keyCols (t : Table) : List ColPtr := (t.indexs.head?.map UniqueIndex.cols).getD []

/-- What a statement does to a row of the table: ADDCOL appends its default. -/
def Statement.shows : Statement → Record → Record
  | .addCol col _ => Record.grow (col.defaultStr.getD [])
  | .create .. | .nothing | .dropCol _ | .dropIndex .. | .addIndex .. | .changeCol .. => id

/-- The statements that may follow, finding the columns they name: a repeated CREATE, NOTHING, CHANGECOL, ADDCOL
    of a column not named `updated_at`, DROPCOL of another column than `updated_at` that leaves two columns and
    is not the whole key, DROPINDEX of an index that is not there, and ADDINDEX over other columns than
    `updated_at` in place of the temporary index. -/
def Statement.Coarsens (t : Table) (u : ColPtr) : Statement → Prop
  | .create .. | .nothing => True
  | .addCol col insAfter => col.name ≠ updatedAt ∧ ∀ name ∈ insAfter, (t.colDes.find? (t.hasName name)).isSome
  | .dropCol name => ∃ c ∈ t.colDes.find? (t.hasName name), c ≠ u ∧ t.keyCols.erase c ≠ [] ∧ 3 ≤ t.colDes.length
  | .changeCol _ prevName => (t.colDes.find? (t.hasName prevName)).isSome
  | .dropIndex isPrimary indexName => ∀ index ∈ t.indexs, index.isMeant isPrimary false indexName = false
  | .addIndex _ _ cols => (∀ index ∈ t.indexs, index.isTemp = true) ∧
    ∀ name ∈ cols, ∃ c ∈ t.colDes.find? (t.hasName name), c ≠ u

instance Statement.decidableCoarsens (t : Table) (u : ColPtr) :
    (statement : Statement) → Decidable (statement.Coarsens t u)
  | .create .. | .nothing => isTrue trivial
  | .addCol col insAfter => inferInstanceAs (Decidable (col.name ≠ updatedAt ∧
      ∀ name ∈ insAfter, (t.colDes.find? (t.hasName name)).isSome))
  | .dropCol name => inferInstanceAs (Decidable (∃ c ∈ t.colDes.find? (t.hasName name),
      c ≠ u ∧ t.keyCols.erase c ≠ [] ∧ 3 ≤ t.colDes.length))
  | .changeCol _ prevName => inferInstanceAs (Decidable ((t.colDes.find? (t.hasName prevName)).isSome))
  | .dropIndex isPrimary indexName =>
    inferInstanceAs (Decidable (∀ index ∈ t.indexs, index.isMeant isPrimary false indexName = false))
  | .addIndex _ _ cols => inferInstanceAs (Decidable ((∀ index ∈ t.indexs, index.isTemp = true) ∧
      ∀ name ∈ cols, ∃ c ∈ t.colDes.find? (t.hasName name), c ≠ u))

section
variable (hashCombine : UInt64 → Str → UInt64)

/-- The live rows are the newest of `S`, one for each content of the key columns. -/
structure Condensed (t : Table) (u : ColPtr) (S : Set Record) : Prop where
  store : ∃ index, Sound hashCombine t u index ∧ TempOver t u index
  upd_mem : u ∈ t.colDes
  two : 2 ≤ t.colDes.length
  wide : ∀ x ∈ S, x.data.length = t.colPhy
  rep : Represents (fun x => keyCells t.keyCols x.data) (Record.rank u) S (slots t.rows t.rowHeap)

end

section
variable {hashCombine : UInt64 → Str → UInt64} {t t' : Table} {u : ColPtr} {index : UniqueIndex} {S : Set Record}

/-- The key columns of a sound table are those of its index. -/
lemma Sound.keyCols (so : Sound hashCombine t u index) : t.keyCols = index.cols := by
  rw [Table.keyCols, so.indexs]
  rfl

/-- The key columns are those of the only header. -/
lemma Sound.keyCols_of_header {h : Header} (so : Sound hashCombine t u index) (one : t.headers = [h]) :
    t.keyCols = h.cols := by
  rw [so.keyCols, ← so.header_eq one]
  rfl

/-- The rows of a condensed table are among those it condenses. -/
lemma Condensed.records (co : Condensed hashCombine t u S) : t.records ⊆ S :=
  fun x mem => (co.rep.newest x mem).1

/-- The rows are unique under the hash as well. -/
lemma Condensed.hashed (co : Condensed hashCombine t u S) (sep : Separates hashCombine t.keyCols S) :
    Represents (slotKey hashCombine t.keyCols) (Record.rank u) S (slots t.rows t.rowHeap) := by
  have rep := @Represents.map _ _ _ _ _ _ _ _ _ _ (slotKey hashCombine t.keyCols) (Record.rank u) id co.rep
    (fun x hx y hy => sep.key_iff hx hy) (fun _ _ => rfl)
  rwa [Set.image_id, Option.map_id, List.map_id] at rep

/-- A rebuilt index over fewer columns. -/
lemma Condensed.rebuilt {K : List ColPtr} {arr : List (Option Record)} (co : Condensed hashCombine t u S)
    (sub : ∀ c ∈ K, c ∈ t.keyCols) (sep : Separates hashCombine K S)
    (es : arr = rebuild (slotKey hashCombine K) (Record.rank u) (slots t.rows t.rowHeap)) :
    Represents (fun x => keyCells K x.data) (Record.rank u) S arr := by
  rw [es]
  apply co.rep.coarsen
  · intro x _ y _ e
    rw [keyCells, keyCells, List.map_inj_left] at e ⊢
    exact fun c mem => e c (sub c mem)
  · exact Represents.ofHash represents_rebuild (sep.mono co.records)

/-! ### One step of the replay -/

/-- ADDCOL: the rows get its default, which tells none of them apart. -/
lemma addColumnOf_condensed {col : ColumnStatement} {after : Option Str} (co : Condensed hashCombine t u S)
    (name : col.name ≠ updatedAt)
    (sep : Separates hashCombine t'.keyCols (Record.grow (col.defaultStr.getD []) '' S))
    (run : t.addColumnOf hashCombine col after = .ok t') :
    Condensed hashCombine t' u (Record.grow (col.defaultStr.getD []) '' S) := by
  obtain ⟨index, so, spans⟩ := co.store
  have ca := addColumnOf_cols run
  -- under a temporary index the key is all columns again
  have later : index.isTemp = true → t'.keyCols = t'.colDes.erase u := by
    intro isTemp
    obtain ⟨w, index', _, _, _, so', _⟩ := addColumnOf_sound so run
    obtain ⟨v, upd, _, one⟩ := (addColumnOf_headers run).2 _ so.headers isTemp
    rw [ca.updCol, if_neg name, so.upd.col] at upd
    cases upd
    exact so'.keyCols_of_header one
  obtain ⟨w, index', again, _, so', _, cols, kept, es⟩ := addColumnOf_grows so spans name
    (addColumnOf_find so run) (by
      intro isTemp w ca'
      rw [later isTemp, ca.colDes_eq ca'] at sep
      exact sep.mono (Set.image_mono co.records))
  rw [run] at again
  cases again
  refine ⟨⟨index', so', addColumnOf_tempOver so so' run⟩, (ca.mem_iff so).mpr (.inr co.upd_mem), ?_, ?_, ?_⟩
  · rw [ca.colDes.perm.length_eq]
    exact co.two.trans (Nat.le_succ _)
  · rintro x ⟨y, mem, rfl⟩
    rw [Record.grow, List.length_append, co.wide y mem, ca.colPhy]
    rfl
  · rw [es]
    apply co.rep.map
    · intro x hx y hy
      rw [so'.keyCols, so.keyCols]
      cases isTemp : index.isTemp with
      | false =>
        have lt : ∀ z ∈ S, ∀ c ∈ index.cols, c < z.data.length := by
          intro z mem
          rw [co.wide z mem]
          exact so.well.cols_lt
        rw [kept isTemp, Record.grow, Record.grow, keyCells_append (lt x hx), keyCells_append (lt y hy)]
      | true =>
        rw [cols isTemp, keyCells_grow_iff (co.wide x hx) (co.wide y hy) so.well.cols_lt
          fun c => spans.mem_grown so ca isTemp]
        exact and_iff_left rfl
    · intro x mem
      apply Record.rank_grow
      rw [co.wide x mem]
      exact so.upd.lt

/-- DROPCOL: rows that differ in this column only become one. -/
lemma dropColumn_condensed {name : Str} (co : Condensed hashCombine t u S)
    (coarsens : (Statement.dropCol name).Coarsens t u) (sep : Separates hashCombine t'.keyCols S)
    (run : t.dropColumn hashCombine name = .ok t') : Condensed hashCombine t' u S := by
  obtain ⟨index, so, spans⟩ := co.store
  have cd := dropColumn_cols run
  obtain ⟨c, index', find, so', _⟩ := dropColumn_sound so run
  obtain ⟨c', again, colDes⟩ := cd.colDes
  rw [find] at again
  cases again
  obtain ⟨c', find', ne, left, three⟩ := coarsens
  rw [find] at find'
  cases find'
  rw [so.keyCols] at left
  obtain ⟨index1, one, kept, _⟩ := (dropColumn_slots so co.upd_mem ne find).of_ok run
  rw [so'.indexs] at one
  cases one
  obtain ⟨cols, es⟩ := kept left
  have mem : c ∈ t.colDes := List.mem_of_find?_eq_some find
  have others : t.colDes.find? (t.hasName name) ≠ some u := by
    rw [find]
    exact fun e => ne (Option.some.inj e)
  refine ⟨⟨index', so', dropColumn_tempOver so so' spans others run⟩, ?_, ?_, ?_, ?_⟩
  · rw [colDes]
    exact (List.mem_erase_of_ne (Ne.symm ne)).mpr co.upd_mem
  · rw [colDes, List.length_erase_of_mem mem]
    omega
  · rw [cd.colPhy]
    exact co.wide
  · rw [so'.keyCols, cols] at sep ⊢
    apply co.rebuilt _ sep es
    intro x h
    rw [so.keyCols]
    exact List.mem_of_mem_erase h

/-- ADDINDEX runs the rows through the new index. -/
lemma addUniqueIndex_slots {name : Str} {colNames : List Str} {isPrimary : Bool} (so : Sound hashCombine t u index)
    (isTemp : index.isTemp = true) (find : ∀ n ∈ colNames, ∃ c, t.colDes.find? (t.hasName n) = some c) :
    Yields (t.addUniqueIndex hashCombine name colNames isPrimary) fun t' =>
      slots t'.rows t'.rowHeap =
        rebuild (slotKey hashCombine t'.keyCols) (Record.rank u) (slots t.rows t.rowHeap) := by
  have la : Layout { t with indexs := [] } :=
    ⟨so.layout.heap_length, so.layout.mapping, so.layout.lt, so.layout.nodup⟩
  have uc : UpdCol { t with indexs := [] } u := ⟨so.upd.col, so.upd.lt⟩
  obtain ⟨cols, mapped⟩ : ∃ cols,
      (colNames.mapM fun n => deref (t.colDes.find? (t.hasName n)) : Res (List ColPtr)) = .ok cols := by
    refine ⟨colNames.map fun n => (t.colDes.find? (t.hasName n)).getD 0, mapM_eq_ok.mpr ?_⟩
    rw [List.forall₂_map_right_iff, List.forall₂_same]
    intro n mem
    obtain ⟨c, found⟩ := find n mem
    rw [found, deref_some, Option.getD_some]
  have lt : ∀ c ∈ cols, c < t.colPhy := so.layout.found_lt (mapM_eq_ok.mp mapped)
  obtain ⟨⟨ix, tb⟩, build, ei, ef, _, _, es⟩ := @buildIndex_spec hashCombine _ _
    { name, cols, hash := fun _ => none, hashPhy := [], isPrimary, isTemp := false } la uc so.well.slotted lt
  dsimp only at ei ef es
  have named : UniqueIndex.named hashCombine { t with indexs := [] } name colNames isPrimary = .ok (ix, tb) := by
    rw [UniqueIndex.named]
    refine Eq.trans ?_ build
    exact congrArg (· >>= _) mapped
  rw [Table.addUniqueIndex, so.indexs]
  dsimp only
  rw [if_pos isTemp, named, ok_bind]
  refine .ok ?_
  have first : ({ tb with indexs := tb.indexs ++ [ix] } : Table).keyCols = ix.cols := by
    rw [Table.keyCols, ef]
    rfl
  dsimp only
  rw [first, es, ei]

/-- ADDINDEX: rows with the same key become one. -/
lemma addUniqueIndex_condensed {name : Str} {colNames : List Str} {isPrimary : Bool}
    (co : Condensed hashCombine t u S) (others : ∀ n ∈ colNames, ∃ c ∈ t.colDes.find? (t.hasName n), c ≠ u)
    (sep : Separates hashCombine t'.keyCols S)
    (run : t.addUniqueIndex hashCombine name colNames isPrimary = .ok t') : Condensed hashCombine t' u S := by
  obtain ⟨index, so, spans⟩ := co.store
  obtain ⟨index', so', _⟩ := addUniqueIndex_sound so run
  have sc := addUniqueIndex_cols run
  obtain ⟨⟨h, one, isTemp⟩, cols, find, one'⟩ := addUniqueIndex_headers run
  have temp : index.isTemp = true := by
    rw [← so.header_eq one] at isTemp
    exact isTemp
  have perm : index'.isTemp = false := congrArg Header.isTemp (so'.header_eq one')
  have colDes : t'.colDes = t.colDes := by rw [sc]
  refine ⟨⟨index', so', .of_named perm⟩, by rw [colDes]; exact co.upd_mem, by rw [colDes]; exact co.two, ?_, ?_⟩
  · rw [sc]
    exact co.wide
  · have es := (addUniqueIndex_slots so temp fun n mem => (others n mem).imp fun _ found => found.1).of_ok run
    apply co.rebuilt _ sep es
    -- the temporary index was over all these columns
    intro c mem
    rw [so'.keyCols_of_header one'] at mem
    rw [so.keyCols, spans.mem_iff so.layout temp]
    obtain ⟨i, lt, rfl⟩ := List.mem_iff_getElem.mp mem
    have lt' : i < colNames.length := by rw [find.length_eq]; exact lt
    have at_i := (List.forall₂_iff_get.mp find).2 i lt' lt
    obtain ⟨c, found, ne⟩ := others _ (List.getElem_mem lt')
    rw [show t.colDes.find? (t.hasName colNames[i]) = some cols[i] from at_i] at found
    cases found
    exact ⟨List.mem_of_find?_eq_some at_i, ne⟩

/-- DROPINDEX of the only index leaves a temporary one. -/
lemma Sound.dropUniqueIndex_returns {isPrimary isTemp : Bool} {indexName : Str} (so : Sound hashCombine t u index)
    (mem : u ∈ t.colDes) : ∃ t', t.dropUniqueIndex hashCombine isPrimary isTemp indexName = .ok t' := by
  rw [Table.dropUniqueIndex, so.indexs]
  cases meant : index.isMeant isPrimary isTemp indexName with
  | false =>
    unfold UniqueIndex.isMeant at meant
    rw [List.findIdx?_singleton, meant]
    exact ⟨t, rfl⟩
  | true =>
    obtain ⟨t', push, _⟩ := @pushTemp_spec hashCombine { t with indexs := [] } u
      ⟨so.layout.heap_length, so.layout.mapping, so.layout.lt, so.layout.nodup⟩ ⟨so.upd.col, so.upd.lt⟩
      so.well.slotted rfl mem
    unfold UniqueIndex.isMeant at meant
    rw [List.findIdx?_singleton, meant]
    exact ⟨t', push⟩

/-- The admissible statements show the rows so that the live ones stay the newest. -/
lemma trace_condensed {state : Nat} {statement : Statement} (co : Condensed hashCombine t u S)
    (later : 0 < state) (coarsens : statement.Coarsens t u)
    (sep : Separates hashCombine t'.keyCols (statement.shows '' S))
    (run : Trace hashCombine (some t) state statement = .ok t') :
    Condensed hashCombine t' u (statement.shows '' S) := by
  cases statement with
  | create name cs indexs =>
    rw [Trace, if_pos (by omega)] at run
    cases run
    rw [Statement.shows, Set.image_id]
    exact co
  | nothing =>
    cases run
    rw [Statement.shows, Set.image_id]
    exact co
  | addCol col after => exact addColumnOf_condensed co coarsens.1 sep run
  | dropCol name =>
    rw [Statement.shows, Set.image_id] at sep ⊢
    exact dropColumn_condensed co coarsens sep run
  | changeCol col prevName =>
    have change : t.changeCol col prevName = .ok t' := run
    obtain ⟨index, so, spans⟩ := co.store
    obtain ⟨so', rows, heap⟩ := changeCol_sound so change
    have cc := changeCol_cols change
    rw [Statement.shows, Set.image_id]
    refine ⟨⟨index, so', spans.of_header cc.colDes rfl⟩, by rw [cc.colDes]; exact co.upd_mem,
      by rw [cc.colDes]; exact co.two, by rw [cc.colPhy]; exact co.wide, ?_⟩
    rw [so'.keyCols, ← so.keyCols, rows, heap]
    exact co.rep
  | dropIndex isPrimary indexName =>
    have drop : t.dropUniqueIndex hashCombine isPrimary false indexName = .ok t' := run
    obtain ⟨index, so, _⟩ := co.store
    rw [Statement.shows, Set.image_id]
    rcases dropUniqueIndex_ok so drop with ⟨_, rfl⟩ | ⟨meant, _⟩
    · exact co
    · rw [coarsens index (by rw [so.indexs]; exact List.mem_singleton_self index)] at meant
      cases meant
  | addIndex isPrimary indexName cs =>
    rw [Statement.shows, Set.image_id] at sep ⊢
    exact addUniqueIndex_condensed co coarsens.2 sep run

/-- The admissible statements return. -/
lemma Condensed.trace_returns {state : Nat} {statement : Statement} (co : Condensed hashCombine t u S)
    (later : 0 < state) (coarsens : statement.Coarsens t u) :
    ∃ t', Trace hashCombine (some t) state statement = .ok t' := by
  obtain ⟨index, so, _⟩ := co.store
  cases statement with
  | create name cs indexs =>
    rw [Trace, if_pos (by omega)]
    exact ⟨t, rfl⟩
  | nothing => exact ⟨t, rfl⟩
  | addCol col insAfter =>
    obtain ⟨w, ca, wi, sw, run⟩ := @addColumnOf_widens hashCombine _ _ _ _ insAfter so fun name mem =>
      Option.isSome_iff_exists.mp (coarsens.2 name mem)
    rw [updAfter, if_neg coarsens.1] at sw
    obtain ⟨t', drop⟩ := @Sound.dropUniqueIndex_returns hashCombine _ _ _ false true [] sw
      ((ca.mem_iff so).mpr (.inr co.upd_mem))
    cases isTemp : index.isTemp with
    | false =>
      rw [isTemp] at run
      exact ⟨w, run⟩
    | true =>
      rw [isTemp] at run
      exact ⟨t', run.trans drop⟩
  | dropCol name =>
    obtain ⟨c, find, ne, _⟩ := coarsens
    obtain ⟨t', run, _⟩ := dropColumn_slots so co.upd_mem ne find
    exact ⟨t', run⟩
  | changeCol col prevName =>
    obtain ⟨c, find⟩ := Option.isSome_iff_exists.mp coarsens
    exact changeCol_returns so.layout find
  | dropIndex isPrimary indexName =>
    exact so.dropUniqueIndex_returns co.upd_mem
  | addIndex isPrimary indexName cs =>
    have isTemp := coarsens.1 index (by rw [so.indexs]; exact List.mem_singleton_self index)
    obtain ⟨t', run, _⟩ := @addUniqueIndex_slots hashCombine _ _ _ (if isPrimary then [] else indexName) _ isPrimary so
      isTemp fun n mem => (coarsens.2 n mem).imp fun _ found => found.1
    exact ⟨t', run⟩

/-- The rows of the lines of a file. -/
def Table.parsedRows (t : Table) (source startStamp : Nat) (fs : List (List Str)) : List Record :=
  (rowsOf t.colDes t.colPhy source startStamp fs).map Row.record

/-- The parsed rows are those of the lines. -/
lemma mem_parsedRows {source startStamp : Nat} {fs : List (List Str)} {x : Record} :
    x ∈ t.parsedRows source startStamp fs ↔ ∃ (j : Nat) (fields : List Str), fs[j]? = some fields ∧
      (rowOf t.colDes t.colPhy source (startStamp + j) fields).record = x := by
  simp only [Table.parsedRows, rowsOf, List.mem_iff_getElem?, List.getElem?_map, List.getElem?_mapIdx,
    Option.map_map, Option.map_eq_some_iff, Function.comp_apply]

/-- A file that can be parsed is merged, which adds its rows. -/
lemma mergeSource_condensed {wd : WorkDescriptor} {state source : Nat} {stamp : Nat → Nat}
    {fs : List (List Str)} (co : Condensed hashCombine t u S)
    (sep : Separates hashCombine t.keyCols (S ∪ {x | x ∈ t.parsedRows source (stamp source) fs}))
    (lines : List.Forall₂ (fun line fields => LineText line fields ∧ fields.length = t.colDes.length)
      (getlines (wd.dat source state)) fs) :
    ∃ t', wd.mergeSource hashCombine state (t, stamp) source =
        .ok (t', Function.update stamp source (stamp source + fs.length)) ∧
      t'.colDes = t.colDes ∧ t'.colPhy = t.colPhy ∧ t'.keyCols = t.keyCols ∧
      Condensed hashCombine t' u (S ∪ {x | x ∈ t.parsedRows source (stamp source) fs}) := by
  obtain ⟨index, so, spans⟩ := co.store
  obtain ⟨t', insert, index', ei, sc, so', _, es⟩ :=
    @insertRows_sound _ _ _ _ (rowsOf t.colDes t.colPhy source (stamp source) fs) so rowsOf_wide
  have colDes : t'.colDes = t.colDes := by rw [sc]
  have colPhy : t'.colPhy = t.colPhy := by rw [sc]
  have keyCols : t'.keyCols = t.keyCols := by rw [so'.keyCols, so.keyCols, ei]
  refine ⟨t', ?_, colDes, colPhy, keyCols, ⟨index', so', spans.of_header colDes (by rw [ei]; rfl)⟩,
    by rw [colDes]; exact co.upd_mem, by rw [colDes]; exact co.two, ?_, ?_⟩
  · rw [WorkDescriptor.mergeSource, parseData_spec so.layout (fun _ => co.two) lines, ok_bind]
    dsimp only
    rw [insert]
    rfl
  · rw [colPhy]
    rintro x (old | new)
    · exact co.wide x old
    · obtain ⟨j, fields, _, rfl⟩ := mem_parsedRows.mp new
      simp [rowOf, Row.new, Row.record]
  · rw [keyCols]
    apply Represents.ofHash _ sep
    rw [es, ← so.keyCols]
    exact (co.hashed (sep.mono Set.subset_union_left)).foldl_put

end

/-! ### The replay -/

/-- What the statement of a state does to a row of the table. -/
def WorkDescriptor.showsAt (wd : WorkDescriptor) (state : Nat) : Record → Record :=
  match Statement.getStatement (wd.ddl state) with
  | .ok statement => statement.shows
  | .error _ => id

section
variable (hashCombine : UInt64 → Str → UInt64)

/-- The rows parsed in the first `n` states, as the table shows them in the last of these states. -/
def WorkDescriptor.shown (wd : WorkDescriptor) (fss : Nat → Nat → List (List Str)) : Nat → List Record
  | 0 => []
  | n + 1 => (wd.shown fss n).map (wd.showsAt n) ++
    match wd.tableAt hashCombine n with
    | .ok t => (List.range 2).flatMap fun source => t.parsedRows source (stampBefore fss source n) (fss source n)
    | .error _ => []

/-- The rows shown, as a set. -/
abbrev WorkDescriptor.Shown (wd : WorkDescriptor) (fss : Nat → Nat → List (List Str)) (n : Nat) : Set Record :=
  {x | x ∈ wd.shown hashCombine fss n}

/-- The statement of state `0` is a CREATE of two or more columns, one of them `updated_at`, with one key over
    its columns or none. -/
def WorkDescriptor.Creates (wd : WorkDescriptor) : Prop :=
  ∃ name cols indexs, Statement.getStatement (wd.ddl 0) = .ok (.create name cols indexs) ∧ indexs.length ≤ 1 ∧
    2 ≤ cols.length ∧ (∃ col ∈ cols, col.name = updatedAt) ∧
    ∀ key ∈ indexs, ∀ s ∈ key.keys, ∃ col ∈ cols, col.name = s

/-- Each later statement is one of those above. -/
def WorkDescriptor.Coarsens (wd : WorkDescriptor) : Prop :=
  ∀ state, 0 < state → state < wd.stateCount → ∃ statement,
    Statement.getStatement (wd.ddl state) = .ok statement ∧ ∀ s t u, wd.statesTo hashCombine state = .ok s →
      s.table = some t → t.updCol = some u → statement.Coarsens t u

/-- A replay whose statements only coarsen the key. In each state the key hash separates the keys that occur. -/
structure WorkDescriptor.CoarseRun (wd : WorkDescriptor) (fss : Nat → Nat → List (List Str)) : Prop where
  states : 0 < wd.stateCount
  creates : wd.Creates
  coarsens : wd.Coarsens hashCombine
  fields : wd.HasFields hashCombine fss
  separates : ∀ n < wd.stateCount, ∀ t, wd.tableAt hashCombine n = .ok t →
    Separates hashCombine t.keyCols (wd.Shown hashCombine fss (n + 1))

/-- The live rows of `t` are the newest of the rows shown, one for each content of the key columns. -/
structure WorkDescriptor.Condenses (wd : WorkDescriptor) (fss : Nat → Nat → List (List Str)) (t : Table)
    (u : ColPtr) : Prop where
  one : ∀ x ∈ wd.Shown hashCombine fss wd.stateCount,
    ∃! i : Nat, ∃ p r, t.Live i p r ∧ keyCells t.keyCols r.data = keyCells t.keyCols x.data
  newest : ∀ x, (∃ i p r, t.Live i p r ∧ r.record = x) ↔ IsNewest (fun x => keyCells t.keyCols x.data)
    (Record.rank u) (wd.Shown hashCombine fss wd.stateCount) x

end

section
variable {hashCombine : UInt64 → Str → UInt64} {wd : WorkDescriptor} {fss : Nat → Nat → List (List Str)}
  {t t' : Table} {n : Nat} {s s' : WorkState} {x y : Record}

/-- A statement leaves source and stamp of a row alone. -/
lemma showsAt_label : (wd.showsAt n x).source = x.source ∧ (wd.showsAt n x).stamp = x.stamp := by
  rw [WorkDescriptor.showsAt]
  cases Statement.getStatement (wd.ddl n) with
  | error what => exact ⟨rfl, rfl⟩
  | ok statement => cases statement <;> exact ⟨rfl, rfl⟩

/-- The rows shown after a state: those of before and those of the two files. -/
lemma mem_shown_succ : x ∈ wd.shown hashCombine fss (n + 1) ↔
    (∃ y ∈ wd.shown hashCombine fss n, wd.showsAt n y = x) ∨ ∃ t, wd.tableAt hashCombine n = .ok t ∧
      ∃ source < 2, x ∈ t.parsedRows source (stampBefore fss source n) (fss source n) := by
  rw [WorkDescriptor.shown, List.mem_append, List.mem_map]
  refine or_congr_right ?_
  cases wd.tableAt hashCombine n with
  | error f => exact iff_of_false List.not_mem_nil (by rintro ⟨t, e, _⟩; cases e)
  | ok t =>
    dsimp only
    rw [List.mem_flatMap]
    constructor
    · rintro ⟨source, two, mem⟩
      exact ⟨t, rfl, source, List.mem_range.mp two, mem⟩
    · rintro ⟨t', e, source, two, mem⟩
      cases e
      exact ⟨source, List.mem_range.mpr two, mem⟩

/-- The rows shown after one more state: the old ones as they show now, and those of both sources. -/
lemma shown_succ (table : wd.tableAt hashCombine n = .ok t) :
    wd.Shown hashCombine fss (n + 1) = wd.showsAt n '' wd.Shown hashCombine fss n ∪
      {x | x ∈ t.parsedRows 0 (stampBefore fss 0 n) (fss 0 n)} ∪
      {x | x ∈ t.parsedRows 1 (stampBefore fss 1 n) (fss 1 n)} := by
  ext x
  rw [Set.mem_union, Set.mem_union, or_assoc]
  refine mem_shown_succ.trans (or_congr_right ⟨?_, ?_⟩)
  · rintro ⟨t', table', source, two, mem⟩
    rw [table] at table'
    cases table'
    have which : source = 0 ∨ source = 1 := by omega
    rcases which with rfl | rfl
    · exact .inl mem
    · exact .inr mem
  · rintro (mem | mem)
    · exact ⟨t, table, 0, by omega, mem⟩
    · exact ⟨t, table, 1, by omega, mem⟩

/-- A row shown was numbered before. -/
lemma shown_stamp (mem : x ∈ wd.shown hashCombine fss n) : x.stamp < stampBefore fss x.source n := by
  induction n generalizing x with
  | zero => cases mem
  | succ n ih =>
    rw [stampBefore_succ]
    rcases mem_shown_succ.mp mem with ⟨y, old, rfl⟩ | ⟨t, _, source, _, new⟩
    · obtain ⟨source, stamp⟩ := @showsAt_label wd n y
      rw [source, stamp]
      exact (ih old).trans_le (Nat.le_add_right _ _)
    · obtain ⟨j, fields, at_j, rfl⟩ := mem_parsedRows.mp new
      exact Nat.add_lt_add_left (List.getElem?_eq_some_iff.mp at_j).1 _

/-- No two rows shown have one source and one stamp. -/
lemma shown_apart (hx : x ∈ wd.shown hashCombine fss n) (hy : y ∈ wd.shown hashCombine fss n)
    (source : x.source = y.source) (stamp : x.stamp = y.stamp) : x = y := by
  induction n generalizing x y with
  | zero => cases hx
  | succ n ih =>
    -- a row of before has a smaller stamp than those of this state
    have before : ∀ {a b : Record}, a ∈ wd.shown hashCombine fss n → ∀ {t : Table} {i : Nat},
        b ∈ t.parsedRows i (stampBefore fss i n) (fss i n) → a.source = b.source → a.stamp ≠ b.stamp := by
      intro a b old t i new source stamp
      obtain ⟨j, fields, _, rfl⟩ := mem_parsedRows.mp new
      have lt := shown_stamp old
      rw [stamp, source] at lt
      exact absurd lt (Nat.not_lt.mpr (Nat.le_add_right _ _))
    rcases mem_shown_succ.mp hx with ⟨a, old, rfl⟩ | ⟨t, table, i, _, new⟩ <;>
      rcases mem_shown_succ.mp hy with ⟨b, old', rfl⟩ | ⟨t', table', i', _, new'⟩
    · rw [showsAt_label.1, showsAt_label.1] at source
      rw [showsAt_label.2, showsAt_label.2] at stamp
      rw [ih old old' source stamp]
    · rw [showsAt_label.1] at source
      rw [showsAt_label.2] at stamp
      exact absurd stamp (before old new' source)
    · rw [showsAt_label.1] at source
      rw [showsAt_label.2] at stamp
      exact absurd stamp.symm (before old' new source.symm)
    · rw [table] at table'
      cases table'
      obtain ⟨j, fields, at_j, rfl⟩ := mem_parsedRows.mp new
      obtain ⟨j', fields', at_j', rfl⟩ := mem_parsedRows.mp new'
      cases (source : i = i')
      cases Nat.add_left_cancel (stamp : stampBefore fss i n + j = stampBefore fss i n + j')
      rw [at_j] at at_j'
      cases at_j'
      rfl

/-- The statements of a replay can be tried at the tables it reaches. -/
lemma coarsens_of_states (each : ∀ state < wd.stateCount, 0 < state →
    (Statement.getStatement (wd.ddl state)).toOption.any fun statement =>
      (wd.statesTo hashCombine state).toOption.all fun (s : WorkState) => s.table.all fun (t : Table) =>
        t.updCol.all fun u => decide (statement.Coarsens t u)) : wd.Coarsens hashCombine := by
  intro state pos lt
  obtain ⟨statement, ddl, coarsens⟩ := (Option.any_eq_true _ _).mp (each state lt pos)
  refine ⟨statement, ok_of_toOption ddl, fun s t u prior table upd => ?_⟩
  rw [prior] at coarsens
  have here := (Option.all_eq_true _ _).mp coarsens s rfl
  rw [table, Option.all_some, upd, Option.all_some] at here
  exact of_decide_eq_true here

/-- The CREATE returns a table without rows. -/
lemma create_condensed {stamp : Nat → Nat} (cr : wd.Creates) :
    ∃ t u, wd.traceAt hashCombine { table := none, stamp } 0 = .ok t ∧ Condensed hashCombine t u ∅ := by
  obtain ⟨name, cols, indexs, ddl, le, two, upd, keys⟩ := cr
  obtain ⟨t1, add, rl1, _, ca1⟩ := @addColumns_bare hashCombine _ cols Rowless.new rfl
  have range : t1.colDes = List.range cols.length := by
    rw [ca1.colDes, List.range_eq_range']
    rfl
  have find : ∀ stat ∈ indexs, ∀ s ∈ stat.keys, ∃ c, t1.colDes.find? (t1.hasName s) = some c := by
    intro stat mem s mem_s
    obtain ⟨col, listed, e⟩ := keys stat mem s mem_s
    rw [ca1.find_eq, ← Option.isSome_iff_exists, List.findIdx?_isSome, List.any_eq_true]
    exact ⟨col, listed, decide_eq_true e⟩
  have has : HasUpd t1.updCol t1.colDes := by
    obtain ⟨i, col, at_i, _, updCol, _⟩ := ca1.upd upd
    refine ⟨_, updCol, ?_⟩
    rw [range, List.mem_range]
    exact (Nat.zero_add i).trans_lt (List.getElem?_eq_some_iff.mp at_i).1
  obtain ⟨t, fill⟩ := fillCreate_returns add find fun _ => has
  obtain ⟨rl, ca, len⟩ := fillCreate_rowless fill
  rw [max_eq_left le] at len
  obtain ⟨index, one⟩ := List.length_eq_one_iff.mp len
  obtain ⟨i, col, at_i, _, updCol, _⟩ := ca.upd upd
  have so : Sound hashCombine t (Table.new.colPhy + i) index := rl.sound one updCol
  have colDes : t.colDes = List.range cols.length := by
    rw [ca.colDes, List.range_eq_range']
    rfl
  refine ⟨t, _, ?_, ⟨index, so, fillCreate_tempOver so le fill⟩, ?_, ?_, fun x mem => mem.elim, ?_⟩
  · rw [WorkDescriptor.traceAt, ddl]
    exact fill
  · rw [colDes, List.mem_range]
    exact (Nat.zero_add i).trans_lt (List.getElem?_eq_some_iff.mp at_i).1
  · rwa [colDes, List.length_range]
  · rw [rl.rows]
    exact represents_nil

/-- A state whose statement returned is entered, which adds the rows of its files. -/
lemma enterState_condensed {u : ColPtr} (cr : wd.CoarseRun hashCombine fss) (lt : n < wd.stateCount)
    (prior : wd.statesTo hashCombine n = .ok s) (trace : wd.traceAt hashCombine s n = .ok t)
    (stamp : ∀ source < 2, s.stamp source = stampBefore fss source n)
    (condensed : Separates hashCombine t.keyCols (wd.showsAt n '' wd.Shown hashCombine fss n) →
      Condensed hashCombine t u (wd.showsAt n '' wd.Shown hashCombine fss n)) :
    ∃ s', wd.enterState hashCombine s n = .ok s' ∧
      (∀ source < 2, s'.stamp source = stampBefore fss source (n + 1)) ∧
      ∃ t', s'.table = some t' ∧ Condensed hashCombine t' u (wd.Shown hashCombine fss (n + 1)) := by
  have table : wd.tableAt hashCombine n = .ok t := by
    rw [WorkDescriptor.tableAt, prior, ok_bind, trace]
  have lines := cr.fields n lt t table
  have sep := cr.separates n lt t table
  rw [shown_succ table, ← stamp 0 (by omega), ← stamp 1 (by omega)] at sep
  have co := condensed (sep.mono (Set.subset_union_left.trans Set.subset_union_left))
  obtain ⟨t1, first, cols1, phy1, keys1, co1⟩ :=
    mergeSource_condensed co (sep.mono Set.subset_union_left) (lines 0 (by omega))
  have same : t1.parsedRows = t.parsedRows := by
    funext source startStamp fs
    rw [Table.parsedRows, Table.parsedRows, cols1, phy1]
  have lines1 := lines 1 (by omega)
  rw [← cols1] at lines1
  obtain ⟨stamp1, new⟩ : ∃ f, Function.update s.stamp 0 (s.stamp 0 + (fss 0 n).length) = f := ⟨_, rfl⟩
  rw [new] at first
  have next : stamp1 1 = s.stamp 1 := by simp [← new]
  have sep1 : Separates hashCombine t1.keyCols (wd.showsAt n '' wd.Shown hashCombine fss n ∪
      {x | x ∈ t.parsedRows 0 (s.stamp 0) (fss 0 n)} ∪ {x | x ∈ t1.parsedRows 1 (stamp1 1) (fss 1 n)}) := by
    rw [keys1, same, next]
    exact sep
  obtain ⟨t2, second, _, _, _, co2⟩ := mergeSource_condensed co1 sep1 lines1
  have two : List.range 2 = [0, 1] := rfl
  have enter : wd.enterState hashCombine s n =
      .ok { table := some t2, stamp := Function.update stamp1 1 (stamp1 1 + (fss 1 n).length) } := by
    rw [WorkDescriptor.enterState, trace, ok_bind, two, List.foldlM_cons, first, ok_bind, List.foldlM_cons, second,
      ok_bind, List.foldlM_nil]
    rfl
  refine ⟨_, enter, ?_, t2, rfl, ?_⟩
  · intro source two
    rw [stampBefore_succ]
    have which : source = 0 ∨ source = 1 := by omega
    rcases which with rfl | rfl
    · simp [← new, stamp]
    · simp [← new, stamp]
  · rw [same, next] at co2
    rw [shown_succ table, ← stamp 0 (by omega), ← stamp 1 (by omega)]
    exact co2

/-- Every state is entered, and after it the live rows are the newest of those shown. -/
lemma run_condensed (cr : wd.CoarseRun hashCombine fss) (lt : n < wd.stateCount) :
    ∃ s t u, wd.statesTo hashCombine (n + 1) = .ok s ∧
      (∀ source < 2, s.stamp source = stampBefore fss source (n + 1)) ∧ s.table = some t ∧
      Condensed hashCombine t u (wd.Shown hashCombine fss (n + 1)) := by
  induction n with
  | zero =>
    obtain ⟨t, u, trace, co⟩ := @create_condensed hashCombine _ (fun _ => 0) cr.creates
    obtain ⟨s', step, stamp, t', table, co'⟩ := enterState_condensed (u := u) cr lt rfl trace (fun _ _ => rfl) (by
      intro _
      have none : wd.Shown hashCombine fss 0 = ∅ := by
        ext x
        exact iff_of_false List.not_mem_nil (Set.notMem_empty x)
      rw [none, Set.image_empty]
      exact co)
    exact ⟨s', t', u, WorkDescriptor.statesTo_succ.trans step, stamp, table, co'⟩
  | succ n ih =>
    obtain ⟨s, t, u, prior, stamp, table, co⟩ := ih (by omega)
    obtain ⟨index, so, _⟩ := co.store
    obtain ⟨statement, ddl, coarsens⟩ := cr.coarsens (n + 1) (Nat.succ_pos n) lt
    have coarse := coarsens s t u prior table so.upd.col
    obtain ⟨t1, trace⟩ := co.trace_returns (Nat.succ_pos n) coarse
    have traceAt : wd.traceAt hashCombine s (n + 1) = .ok t1 := by
      rw [WorkDescriptor.traceAt, ddl, table]
      exact trace
    obtain ⟨s', step, stamp', t', table', co'⟩ := enterState_condensed (u := u) cr lt prior traceAt stamp (by
      rw [WorkDescriptor.showsAt, ddl]
      exact fun sep => trace_condensed co (Nat.succ_pos n) coarse sep trace)
    refine ⟨s', t', u, ?_, stamp', table', co'⟩
    rw [WorkDescriptor.statesTo_succ, prior]
    exact step

/-- Newest row wins whatever the key columns are: a replay whose statements only coarsen the key ends, with
    exactly the newest of the rows shown for each content of the key columns. While the index is a temporary
    one these are all columns but `updated_at`. -/
theorem coarse_newest (cr : wd.CoarseRun hashCombine fss) :
    ∃ t u, wd.work hashCombine = .ok t ∧ t.updCol = some u ∧ wd.Condenses hashCombine fss t u ∧
      ∀ index, t.indexs = [index] → index.isTemp = true → t.keyCols.Perm (t.colDes.erase u) := by
  obtain ⟨n, count⟩ := Nat.exists_eq_succ_of_ne_zero cr.states.ne'
  obtain ⟨s, t, u, states, _, table, co⟩ := run_condensed cr (show n < wd.stateCount by omega)
  rw [show n + 1 = wd.stateCount from count.symm] at states co
  obtain ⟨index, so, spans⟩ := co.store
  refine ⟨t, u, ?_, so.upd.col, ⟨?_, ?_⟩, ?_⟩
  · rw [WorkDescriptor.work, states, ok_bind, table]
    rfl
  · intro x mem
    refine (existsUnique_congr fun i => ?_).mp (co.rep.existsUnique mem)
    constructor
    · rintro ⟨y, at_i, e⟩
      obtain ⟨p, r, live, rfl⟩ := exists_live at_i
      exact ⟨p, r, live, e⟩
    · rintro ⟨p, r, live, e⟩
      exact ⟨r.record, live.slot, e⟩
  · intro x
    rw [← co.rep.mem_iff, List.mem_iff_getElem?]
    · constructor
      · rintro ⟨i, p, r, live, rfl⟩
        exact ⟨i, live.slot⟩
      · rintro ⟨i, at_i⟩
        exact ⟨i, exists_live at_i⟩
    · intro x hx y hy _ rank
      obtain ⟨_, label⟩ := Prod.mk.inj (toLex_inj.mp rank)
      obtain ⟨source, stamp⟩ := Prod.mk.inj (toLex_inj.mp label)
      exact shown_apart hx hy source stamp
  · intro index' one isTemp
    rw [so.indexs] at one
    cases one
    rw [so.keyCols]
    exact spans.perm isTemp

end

instance {hashCombine : UInt64 → Str → UInt64} {phy : List Nat} {l : List Record} :
    Decidable (Separates hashCombine phy {x | x ∈ l}) :=
  inferInstanceAs (Decidable (∀ x ∈ l, ∀ y ∈ l, hashOf hashCombine phy x.data = hashOf hashCombine phy y.data →
    keyCells phy x.data = keyCells phy y.data))

/-- A table without a key that gets and loses a column and then a primary key. -/
def bareFields : Nat → Nat → List (List Str)
  | 0, 0 => [["1", "x", "5"], ["1", "y", "6"]].map (List.map String.toList)
  | 1, 0 => [["1", "x", "7"]].map (List.map String.toList)
  | 0, 1 => [["1", "x", "4", "0"], ["1", "x", "4", "9"]].map (List.map String.toList)
  | 1, 2 => [["2", "8", "0"]].map (List.map String.toList)
  | _, _ => []

/-- A line of quoted fields. -/
def quotedLine (fields : List Str) : Str := '"' :: (List.intercalate ['"', ',', '"'] fields ++ ['"'])

def bareWork : WorkDescriptor where
  stateCount := 4
  ddl
    | 0 => unlines (["CREATE", "t", "3", "a", "int", "1", "0", "b", "int", "1", "0", "updated_at", "datetime", "0",
        "0", "0"].map String.toList)
    | 1 => unlines (["ALTER", "ADDCOL", "c", "int", "0", "1", "0", "0"].map String.toList)
    | 2 => unlines (["ALTER", "DROPCOL", "b"].map String.toList)
    | _ => unlines (["ALTER", "ADDINDEX", "1", "1", "a"].map String.toList)
  dat source state := unlines ((bareFields source state).map quotedLine)

/-- A line of quoted plain fields is the text of these fields. -/
lemma quotedLine_text {fields : List Str} (ne : fields ≠ []) (plain : ∀ s ∈ fields, ∀ c ∈ s, c ≠ '\\' ∧ c ≠ '"') :
    LineText (quotedLine fields) fields := by
  refine ⟨_, rfl, ?_⟩
  induction fields with
  | nil => exact absurd rfl ne
  | cons s fields ih =>
    have text := FieldText.self (plain s List.mem_cons_self)
    cases fields with
    | nil =>
      rw [List.intercalate_singleton]
      exact .last text
    | cons s' fields =>
      rw [List.intercalate_cons_cons, List.append_assoc, List.append_assoc]
      exact .cons text (ih (List.cons_ne_nil s' fields) fun x mem => plain x (List.mem_cons_of_mem s mem))

/-- The files of the bare table have their fields. -/
lemma bare_hasFields : bareWork.HasFields Store.hashCombine bareFields := by
  intro state lt t at_state source two
  have clean : ∀ state < 4, ∀ source < 2, ∀ fields ∈ bareFields source state, fields ≠ [] ∧ fields.all fun s =>
      s.all fun c => c ≠ '\\' ∧ c ≠ '"' := by
    decide +kernel
  have single : ∀ state < 4, ∀ source < 2, ∀ line ∈ (bareFields source state).map quotedLine, '\n' ∉ line := by
    decide +kernel
  have widths : ∀ state < 4, ∀ source < 2, ∀ fields ∈ bareFields source state,
      (bareWork.tableAt Store.hashCombine state).toOption.all fun (t : Table) => fields.length = t.colDes.length := by
    decide +kernel
  have lines : getlines (bareWork.dat source state) = (bareFields source state).map quotedLine :=
    getlines_unlines (single state lt source two)
  rw [lines, List.forall₂_map_left_iff, List.forall₂_same]
  intro fields mem
  obtain ⟨ne, plain⟩ := clean state lt source two fields mem
  have width := widths state lt source two fields mem
  rw [at_state] at width
  refine ⟨quotedLine_text ne fun s mem_s c mem_c => ?_, of_decide_eq_true width⟩
  exact of_decide_eq_true (List.all_eq_true.mp (List.all_eq_true.mp plain s mem_s) c mem_c)

/-- The bare table is created with `updated_at`. -/
lemma bare_creates : bareWork.Creates := by
  refine ⟨"t".toList, [{ name := "a".toList, type := "int".toList, isNotNull := true, defaultStr := none },
    { name := "b".toList, type := "int".toList, isNotNull := true, defaultStr := none },
    { name := updatedAt, type := "datetime".toList, isNotNull := false, defaultStr := none }], [], rfl,
    Nat.zero_le 1, by decide, ⟨_, List.mem_cons_of_mem _ (List.mem_cons_of_mem _ List.mem_cons_self), rfl⟩, ?_⟩
  exact fun key mem => absurd mem List.not_mem_nil

/-- The statements of the bare table coarsen its key. -/
lemma bare_coarsens : bareWork.Coarsens Store.hashCombine := coarsens_of_states (by decide +kernel)

/-- The bare table condenses its rows. -/
theorem bare_condenses : bareWork.CoarseRun Store.hashCombine bareFields ∧ ∃ t u,
    bareWork.work Store.hashCombine = .ok t ∧ t.updCol = some u ∧
    bareWork.Condenses Store.hashCombine bareFields t u := by
  have separate : ∀ n < 4, (bareWork.tableAt Store.hashCombine n).toOption.all fun (t : Table) =>
      decide (Separates Store.hashCombine t.keyCols (bareWork.Shown Store.hashCombine bareFields (n + 1))) := by
    decide +kernel
  have cr : bareWork.CoarseRun Store.hashCombine bareFields := by
    refine ⟨by decide, bare_creates, bare_coarsens, bare_hasFields, ?_⟩
    intro n lt t table
    have here := separate n lt
    rw [table] at here
    exact of_decide_eq_true here
  obtain ⟨t, u, run, upd, condenses, _⟩ := coarse_newest cr
  exact ⟨cr, t, u, run, upd, condenses⟩

end TdsqlMerge.Store
