import TdsqlMerge.Lib.Fill
import TdsqlMerge.Splitter.EventDealer

/-!
# Loading the works

Embedding of `src/utils/workloader.cpp` and of `Works` (`include/structure/descriptor.h`). A directory is the list
of its entries in the order `directory_iterator` visits them, a path the list of its names. Of what lies below
a table directory only the text of `0/cnt.txt` is read.

`stem` stands for `boost::filesystem::path::stem`, on the last name of a path; `Stem` is its documentation.
-/

namespace TdsqlMerge.Loader
open Lib Splitter

/-! ### Directories -/

/-- The name of a directory entry: `.` and `..` are not visited. -/
abbrev FileName := { name : Str // name ≠ [] ∧ '/' ∉ name ∧ name ≠ ['.'] ∧ name ≠ ['.', '.'] }

/-- The entries of a directory, under different names. -/
structure Directory (α : Type) where
  entries : List (FileName × α)
  nodup : (entries.map Prod.fst).Nodup

/-- A file, or a directory with what is known of it. -/
inductive Entry (α : Type) where
  | file
  | directory (d : α)

/-- The text of `0/cnt.txt`, if it is there. -/
structure TableDirectory where
  cnt : Option Str

/-- The directory of a database. -/
abbrev DbDirectory := Directory (Entry TableDirectory)

/-- The directory `binlog_path`. -/
abbrev BinlogDirectory := Directory (Entry DbDirectory)

/-- The directories in a directory. -/
def Directory.directories {α : Type} (d : Directory (Entry α)) : List (FileName × α) :=
  d.entries.filterMap fun e => match e.2 with
    | .file => none
    | .directory a => some (e.1, a)

/-- The table directories, by the names of the database and of the table. -/
def BinlogDirectory.tables (root : BinlogDirectory) : List ((FileName × FileName) × TableDirectory) :=
  root.directories.flatMap fun db => db.2.directories.map fun table => ((db.1, table.1), table.2)

/-! ### Paths -/

/-- The names on the way to a file. -/
abbrev Path := List Str

/-- `path::stem` cuts a name at its last dot, unless it is `.` or `..`. -/
structure Stem (stem : Str → Str) : Prop where
  whole : ∀ name, '.' ∉ name ∨ name = ['.'] ∨ name = ['.', '.'] → stem name = name
  cut : ∀ front back, '.' ∉ back → front ++ '.' :: back ≠ ['.'] → front ++ '.' :: back ≠ ['.', '.'] →
    stem (front ++ '.' :: back) = front

/-- The stem of the last name of a path. -/
def pathStem (stem : Str → Str) (path : Path) : Str := stem (path.getLast?.getD [])

/-! ### Works -/

/-- The fields of a new `WorkDescriptor`; the count is not set if it was not read. -/
structure WorkDescriptor where
  dbName : Str
  tableName : Str
  binlogPath : Path
  stateCount : Option Int
  deriving DecidableEq

/-- `Works`. -/
abbrev Works := AList fun _ : Key => WorkDescriptor

/-- `isspace`. -/
def isSpace (c : Char) : Bool := c ∈ [' ', '\t', '\n', '\x0b', '\x0c', '\r']

/-- The value `>>` gives an `int`: what does not start with a number is 0, and what does not fit is the nearest
    value. -/
def extractInt (text : Str) : Int :=
  let digits := fun ds : Str => Nat.ofDigitChars 10 (ds.takeWhile Char.isDigit) 0
  match text.dropWhile isSpace with
  | '-' :: ds => Int.negOfNat (Nat.min (2 ^ 31) (digits ds))
  | '+' :: ds => Int.ofNat (Nat.min (2 ^ 31 - 1) (digits ds))
  | ds => Int.ofNat (Nat.min (2 ^ 31 - 1) (digits ds))

section
variable (stem : Str → Str)

/-- `WorkLoader::_loadTable`. -/
def loadTable (works : Works) (dbPath : Path) (db : DbDirectory) : Works :=
  db.entries.foldl (fun works entry => match entry.2 with
    | .file => works
    | .directory table =>
      let path := dbPath ++ [entry.1.val]
      let dbName := pathStem stem path.dropLast
      let tableName := pathStem stem path
      let stateCount := table.cnt.map extractInt
      works.insert (dbName, tableName) { dbName, tableName, binlogPath := path, stateCount }) works

/-- `WorkLoader::loadWorks`. -/
def loadWorks (dataPath : Path) (root : BinlogDirectory) : Works :=
  root.entries.foldl (fun works entry => match entry.2 with
    | .file => works
    | .directory db => loadTable stem works (dataPath ++ [entry.1.val]) db) ∅

end

/-! ### What is loaded -/

/-- The work of a table directory. -/
def workOf (stem : Str → Str) (dataPath : Path) (table : (FileName × FileName) × TableDirectory) :
    WorkDescriptor where
  dbName := stem table.1.1.val
  tableName := stem table.1.2.val
  binlogPath := dataPath ++ [table.1.1.val, table.1.2.val]
  stateCount := table.2.cnt.map extractInt

section
variable {stem : Str → Str} {works : Works} {dataPath : Path} {root : BinlogDirectory}

/-- A loop over the entries that skips the files is a loop over the directories. -/
lemma foldl_directories {α β : Type} {d : Directory (Entry α)} {g : β → FileName × Entry α → β}
    {f : β → FileName × α → β} {b : β} (file : ∀ b name, g b (name, .file) = b)
    (directory : ∀ b name a, g b (name, .directory a) = f b (name, a)) :
    d.entries.foldl g b = d.directories.foldl f b := by
  rw [Directory.directories, List.foldl_filterMap]
  congr
  funext b e
  obtain ⟨name, e⟩ := e
  cases e with
  | file => exact file b name
  | directory a => exact directory b name a

/-- `loadTable` inserts the work of each table directory. -/
lemma loadTable_eq {name : FileName} {db : DbDirectory} :
    loadTable stem works (dataPath ++ [name.val]) db =
      (db.directories.map fun table => ((name, table.1), table.2)).foldl (fun works table =>
        works.insert (stem table.1.1.val, stem table.1.2.val) (workOf stem dataPath table)) works := by
  rw [List.foldl_map]
  apply foldl_directories
  · exact fun _ _ => rfl
  · intro works name table
    simp [pathStem, workOf]

/-- One work is put in for each table directory, in turn. -/
theorem loadWorks_eq : loadWorks stem dataPath root =
    fill (fun table => (stem table.1.1.val, stem table.1.2.val)) (workOf stem dataPath) root.tables := by
  rw [fill, BinlogDirectory.tables, List.foldl_flatMap]
  apply foldl_directories
  · exact fun _ _ => rfl
  · exact fun _ _ _ => loadTable_eq

/-- The directories of a directory have different names. -/
lemma Directory.directories_nodup {α : Type} {d : Directory (Entry α)} :
    (d.directories.map Prod.fst).Nodup := by
  refine List.Nodup.sublist ?_ d.nodup
  rw [Directory.directories]
  induction d.entries with
  | nil => exact .slnil
  | cons e entries ih =>
    obtain ⟨name, e⟩ := e
    cases e with
    | file => exact ih.cons name
    | directory a => exact ih.cons_cons name

/-- The table directories have different names. -/
lemma tables_nodup : (root.tables.map Prod.fst).Nodup := by
  rw [BinlogDirectory.tables, List.map_flatMap, List.nodup_flatMap]
  constructor
  · intro db _
    rw [List.map_map]
    have names := @Directory.directories_nodup _ db.2
    have pairs : (Prod.fst ∘ fun table : FileName × TableDirectory => ((db.1, table.1), table.2)) =
        Prod.mk db.1 ∘ Prod.fst := rfl
    rw [pairs, ← List.map_map]
    exact names.map fun _ _ same => (Prod.mk.inj same).2
  · have names := @Directory.directories_nodup _ root
    rw [List.Nodup, List.pairwise_map] at names
    apply names.imp
    intro db db' ne key mem mem'
    simp only [List.map_map, List.mem_map, Function.comp_apply] at mem mem'
    obtain ⟨_, _, rfl⟩ := mem
    obtain ⟨_, _, e⟩ := mem'
    exact ne (congrArg Prod.fst e).symm

end

end TdsqlMerge.Loader
