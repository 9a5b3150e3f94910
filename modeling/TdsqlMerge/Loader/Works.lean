import Mathlib.Data.List.DropRight
import TdsqlMerge.Loader.WorkLoader
import TdsqlMerge.Splitter.Tree

/-!
# The works of the tables

`EventDealer` writes the files of a table below `binlogFolder/db/table`, and `WorkLoader` takes the names of the
database and the table from that path, with `stem`. `faithful_iff`: every table gets its work, under its own
names, exactly if no name contains a dot. Behind a dot the name is lost, and tables whose names are equal up
to their last dots share an entry, where the later directory replaces the earlier.
-/

namespace TdsqlMerge.Loader
open Lib Splitter

/-- The names of a table directory as a key. -/
def keyOf (dir : FileName × FileName) : Key := (dir.1.val, dir.2.val)

/-- One of the dealers has written files of the table. -/
def HasTable (dealers : List EventDealer) (key : Key) : Prop := ∃ s ∈ dealers, s.HasDirectory key

/-- A tree that dealers create in one folder: the table directories are those of the tables they have written
    files of. A path with a name `.` or `..` leads elsewhere; what is in the tree besides the other tables if
    there is such a name is left open. -/
structure CreatedBy (parse : Str → Option SQLStatement) (dealers : List EventDealer) (root : BinlogDirectory) :
    Prop where
  reached : ∀ s ∈ dealers, Reachable parse s
  names : ∀ key, HasTable dealers key → (key.1 ≠ [] ∧ '/' ∉ key.1) ∧ key.2 ≠ [] ∧ '/' ∉ key.2
  complete : ∀ dir, HasTable dealers (keyOf dir) → ∃ table, (dir, table) ∈ root.tables
  only : (∀ key, HasTable dealers key → ∃ dir, keyOf dir = key) →
    ∀ dir table, (dir, table) ∈ root.tables → HasTable dealers (keyOf dir)

/-- There is one work for each table directory, with the names the dealers use for the table, and no other. -/
structure Faithful (dealers : List EventDealer) (dataPath : Path) (root : BinlogDirectory) (works : Works) :
    Prop where
  loaded : ∀ key, HasTable dealers key → ∃ dir table, keyOf dir = key ∧ (dir, table) ∈ root.tables ∧
    works.lookup key = some { dbName := key.1, tableName := key.2, binlogPath := dataPath ++ [key.1, key.2]
                              stateCount := table.cnt.map extractInt }
  only : ∀ key ∈ works, HasTable dealers key
  length : works.entries.length = root.tables.length

section
variable {stem : Str → Str} {parse : Str → Option SQLStatement} {dealers : List EventDealer} {dataPath : Path}
  {root : BinlogDirectory}

/-! ### Stems -/

/-- The name of a directory is its own stem exactly if it has no dot. -/
lemma Stem.eq_self_iff (doc : Stem stem) {name : FileName} : stem name.val = name.val ↔ '.' ∉ name.val := by
  constructor
  · intro same mem
    obtain ⟨back, front, e, last⟩ := List.eq_append_cons_of_mem (List.mem_reverse.mpr mem)
    have cut : name.val = front.reverse ++ '.' :: back.reverse := by
      rw [← List.reverse_reverse name.val, e]
      simp
    obtain ⟨-, -, dot, dots⟩ := name.property
    rw [cut] at same dot dots
    rw [doc.cut _ _ (fun mem => last (List.mem_reverse.mp mem)) dot dots] at same
    have lengths := congrArg List.length same
    simp at lengths
  · exact fun bare => doc.whole _ (.inl bare)

/-! ### What is loaded -/

/-- The keys of different tables differ. -/
lemma keyOf_injective : Function.Injective keyOf := by
  intro dir dir' same
  obtain ⟨db, table⟩ := Prod.mk.inj same
  exact Prod.ext (Subtype.ext db) (Subtype.ext table)

/-- A name without slash and dot is the name of an entry. -/
lemma exists_fileName {name : Str} (ne : name ≠ []) (slash : '/' ∉ name) (dot : '.' ∉ name) :
    ∃ file : FileName, file.val = name := by
  refine ⟨⟨name, ne, slash, ?_, ?_⟩, rfl⟩
  · rintro rfl
    exact dot List.mem_cons_self
  · rintro rfl
    exact dot List.mem_cons_self

/-- The key under which the work of a table directory is put in. -/
def stemKey (stem : Str → Str) (table : (FileName × FileName) × TableDirectory) : Key :=
  (stem table.1.1.val, stem table.1.2.val)

/-- A table directory whose names are their stems gets a work with these names. -/
lemma workOf_eq {table : (FileName × FileName) × TableDirectory} (stems : stemKey stem table = keyOf table.1) :
    workOf stem dataPath table =
      { dbName := (keyOf table.1).1, tableName := (keyOf table.1).2
        binlogPath := dataPath ++ [(keyOf table.1).1, (keyOf table.1).2]
        stateCount := table.2.cnt.map extractInt } := by
  obtain ⟨db, tb⟩ := Prod.mk.inj stems
  rw [workOf, db, tb, keyOf]

/-- The work in an entry is that of a table directory. -/
lemma of_lookup_loadWorks {key : Key} {work : WorkDescriptor}
    (has : (loadWorks stem dataPath root).lookup key = some work) :
    ∃ table ∈ root.tables, stemKey stem table = key ∧ workOf stem dataPath table = work := by
  rw [loadWorks_eq] at has
  exact of_lookup_fill has

/-- There is an entry for each table directory. -/
lemma lookup_loadWorks {table : (FileName × FileName) × TableDirectory} (mem : table ∈ root.tables) :
    ∃ table' ∈ root.tables, stemKey stem table' = stemKey stem table ∧
      (loadWorks stem dataPath root).lookup (stemKey stem table) = some (workOf stem dataPath table') := by
  rw [loadWorks_eq]
  exact lookup_fill_of_mem mem

/-- Every table gets its own work exactly if no database and no table has a dot in its name. -/
theorem faithful_iff (doc : Stem stem) (created : CreatedBy parse dealers root) :
    Faithful dealers dataPath root (loadWorks stem dataPath root) ↔
      ∀ key, HasTable dealers key → '.' ∉ key.1 ∧ '.' ∉ key.2 := by
  constructor
  · intro faithful key has
    obtain ⟨_, _, _, _, loaded⟩ := faithful.loaded key has
    obtain ⟨table, -, stems, work⟩ := of_lookup_loadWorks loaded
    -- the path of the work has the names of the directory, and the key has their stems
    have path := congrArg WorkDescriptor.binlogPath work
    have names : table.1.1.val = key.1 ∧ table.1.2.val = key.2 := by simpa [workOf] using path
    obtain ⟨db, tb⟩ := Prod.mk.inj stems
    rw [← names.1, ← names.2]
    exact ⟨doc.eq_self_iff.mp (db.trans names.1.symm), doc.eq_self_iff.mp (tb.trans names.2.symm)⟩
  · intro bare
    have dirs : ∀ key, HasTable dealers key → ∃ dir, keyOf dir = key := by
      intro key has
      obtain ⟨⟨ne, slash⟩, ne', slash'⟩ := created.names key has
      obtain ⟨db, hdb⟩ := exists_fileName ne slash (bare key has).1
      obtain ⟨tb, htb⟩ := exists_fileName ne' slash' (bare key has).2
      exact ⟨(db, tb), by rw [keyOf, hdb, htb]⟩
    have stems : ∀ table ∈ root.tables, stemKey stem table = keyOf table.1 := by
      intro table mem
      have free := bare _ (created.only dirs table.1 table.2 mem)
      rw [stemKey, doc.eq_self_iff.mpr free.1, doc.eq_self_iff.mpr free.2, keyOf]
    refine ⟨?_, ?_, ?_⟩
    · intro key has
      obtain ⟨dir, rfl⟩ := dirs key has
      obtain ⟨table, mem⟩ := created.complete dir has
      obtain ⟨⟨dir', table'⟩, mem', same, found⟩ := @lookup_loadWorks stem dataPath _ _ mem
      rw [stems _ mem', stems _ mem] at same
      cases keyOf_injective same
      rw [stems _ mem, workOf_eq (stems _ mem')] at found
      exact ⟨dir, table', rfl, mem', found⟩
    · intro key mem
      obtain ⟨work, has⟩ := Option.isSome_iff_exists.mp (AList.lookup_isSome.mpr mem)
      obtain ⟨table, within, rfl, -⟩ := of_lookup_loadWorks has
      rw [stems _ within]
      exact created.only dirs table.1 table.2 within
    · rw [loadWorks_eq]
      apply length_fill
      have names : root.tables.map (stemKey stem) = (root.tables.map Prod.fst).map keyOf := by
        rw [List.map_map]
        exact List.map_congr_left stems
      exact names ▸ tables_nodup.map keyOf_injective

end

/-! ### Tables of one database -/

/-- What comes before the last dot of a name. -/
def beforeLastDot (name : Str) : Str :=
  if '.' ∉ name ∨ name = ['.'] ∨ name = ['.', '.'] then name
  else (name.rdropWhile fun c => c ≠ '.').dropLast

/-- Cutting at the last dot is a stem. -/
lemma beforeLastDot_stem : Stem beforeLastDot where
  whole := fun name bare => if_pos bare
  cut := by
    intro front back free dot dots
    have mem : '.' ∈ front ++ '.' :: back := List.mem_append_right _ List.mem_cons_self
    have dropped : ((front ++ '.' :: back).rdropWhile fun c => c ≠ '.') = front ++ ['.'] := by
      have skip : ∀ c ∈ back.reverse, decide (c ≠ '.') = true := by
        intro c mem
        have ne : c ≠ '.' := fun e => free (e ▸ List.mem_reverse.mp mem)
        simpa using ne
      rw [List.rdropWhile, List.reverse_append, List.reverse_cons, List.append_assoc,
        List.dropWhile_append_of_pos skip]
      simp
    rw [beforeLastDot, if_neg (by tauto), dropped, List.dropLast_concat]

/-- A parser for the statements below. -/
def parseCreate (query : Str) : Option SQLStatement :=
  some (.createTable ⟨(query.drop "CREATE TABLE `".length).takeWhile (· ≠ '`'), true⟩
    [⟨⟨"id".toList, false⟩, "int".toList, [], none⟩] [])

/-- Tables are created in database `d`. -/
def creates (names : List Str) : List Action :=
  names.flatMap fun name =>
    [.deal (.query ⟨"d".toList, "CREATE TABLE `".toList ++ name ++ "` (id int)".toList⟩), .main]

/-- The name of a database directory. -/
def database : FileName := ⟨"d".toList, by decide⟩

/-- The folder after that, with the binlog in it. -/
def folder (names : List FileName) (nodup : names.Nodup) : BinlogDirectory where
  entries := [(⟨"binlog0.bin".toList, by decide⟩, .file),
    (database, .directory
      { entries := names.map fun name => (name, .directory { cnt := some ['1'] })
        nodup := by simpa [Function.comp_def] using nodup })]
  nodup := by simp [database]

/-- The tables of the folder. -/
lemma folder_tables {names : List FileName} {nodup : names.Nodup} :
    (folder names nodup).tables = names.map fun name => ((database, name), { cnt := some ['1'] }) := by
  simp [BinlogDirectory.tables, Directory.directories, folder, List.filterMap_map, Function.comp_def]

/-- The tree of a dealer that created the tables. -/
lemma created_folder {names : List FileName} {nodup : names.Nodup}
    (run : ((creates (names.map Subtype.val)).foldlM (fun s a => if newborn parseCreate s a then
      EventDealer.step parseCreate s a else none) .new).any (fun s =>
        s.dealt.map (·.updates parseCreate) = names.map fun name => some (keyOf (database, name))) = true) :
    ∃ s, CreatedBy parseCreate [s] (folder names nodup) ∧
      ∀ key, HasTable [s] key ↔ ∃ name ∈ names, keyOf (database, name) = key := by
  obtain ⟨s, steps, h⟩ := (Option.any_eq_true _ _).mp run
  have dealt := of_decide_eq_true h
  have run := Steps.of_checked steps
  have has : ∀ key, HasTable [s] key ↔ ∃ name ∈ names, keyOf (database, name) = key := by
    intro key
    have updated : (∃ e ∈ s.dealt, e.updates parseCreate = some key) ↔
        some key ∈ s.dealt.map (·.updates parseCreate) := List.mem_map.symm
    rw [HasTable]
    simp only [List.mem_singleton, exists_eq_left]
    rw [(run_tree run).directory, updated, dealt]
    simp
  refine ⟨s, ⟨?_, ?_, ?_, ?_⟩, has⟩
  · intro s' mem
    rw [List.mem_singleton.mp mem]
    exact run.imp fun _ _ _ => trivial
  · intro key mem
    obtain ⟨name, -, rfl⟩ := (has key).mp mem
    exact ⟨⟨database.property.1, database.property.2.1⟩, name.property.1, name.property.2.1⟩
  · intro dir mem
    obtain ⟨name, mem, same⟩ := (has _).mp mem
    rw [← keyOf_injective same, folder_tables]
    exact ⟨_, List.mem_map_of_mem mem⟩
  · intro _ dir table mem
    rw [folder_tables, List.mem_map] at mem
    obtain ⟨name, mem, e⟩ := mem
    cases e
    exact (has _).mpr ⟨name, mem, rfl⟩

/-- Two tables without dots. -/
theorem two_tables_faithful : ∃ s root, CreatedBy parseCreate [s] root ∧ root.tables.length = 2 ∧
    Faithful [s] ["binlogs".toList] root (loadWorks beforeLastDot ["binlogs".toList] root) := by
  let names : List FileName := [⟨"a".toList, by decide⟩, ⟨"b".toList, by decide⟩]
  obtain ⟨s, created, has⟩ := @created_folder names (by decide) (by decide +kernel)
  refine ⟨s, _, created, by rw [folder_tables]; rfl, (faithful_iff beforeLastDot_stem created).mpr ?_⟩
  intro key mem
  obtain ⟨name, within, rfl⟩ := (has key).mp mem
  have bare : ∀ name ∈ names, '.' ∉ (keyOf (database, name)).1 ∧ '.' ∉ (keyOf (database, name)).2 := by decide
  exact bare name within

/-- Tables `a.b` and `a.c` share one entry. -/
theorem dotted_tables_clash : ¬ ∀ (parse : Str → Option SQLStatement) (dealers : List EventDealer)
    (root : BinlogDirectory), CreatedBy parse dealers root →
      Faithful dealers ["binlogs".toList] root (loadWorks beforeLastDot ["binlogs".toList] root) := by
  intro claim
  let names : List FileName := [⟨"a.b".toList, by decide⟩, ⟨"a.c".toList, by decide⟩]
  obtain ⟨s, created, -⟩ := @created_folder names (by decide) (by decide +kernel)
  have lengths := (claim _ _ _ created).length
  rw [folder_tables] at lengths
  exact absurd lengths (by decide +kernel)

end TdsqlMerge.Loader
