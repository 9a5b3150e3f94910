import TdsqlMerge.Pusher.Batches
import TdsqlMerge.Pusher.Literals

/-!
# Reading an INSERT back

What a server reads out of an INSERT of `pushFromFile`: the name of the table, the columns, and one tuple of values
for each line. `readInsert_tuples` puts the values of a line (`Literals`) together to those of a batch.
-/

namespace TdsqlMerge.Pusher
open Lib Store

/-- `n` values, separated by commas, up to the closing bracket. -/
def readTuple : Nat → Str → Option (List SqlValue × Str)
  | 0, _ => none
  | 1, s =>
    match readValue s with
    | some (v, ')' :: rest) => some ([v], rest)
    | _ => none
  | n + 2, s =>
    match readValue s with
    | some (v, ',' :: rest) => (readTuple (n + 1) rest).map fun x => (v :: x.1, x.2)
    | _ => none

/-- Tuples of `n` values, separated by commas; the fuel bounds their number. -/
def readTuples (n : Nat) : Nat → Str → Option (List (List SqlValue))
  | fuel + 1, '(' :: s =>
    match readTuple n s with
    | some (vs, []) => some [vs]
    | some (vs, ',' :: rest) => (readTuples n fuel rest).map (vs :: ·)
    | _ => none
  | _, _ => none

/-- The text after a prefix. -/
def stripPrefix (pre s : Str) : Option Str := if pre <+: s then some (s.drop pre.length) else none

/-- The name of the table of an INSERT, and the rest of the statement. -/
def readInto (sql : Str) : Option (Str × Str) := do
  let rest ← stripPrefix "INSERT INTO \x60".toList sql
  let name := rest.takeWhile fun c => c ≠ '\x60'
  let rest ← stripPrefix ['\x60'] (rest.drop name.length)
  some (name, rest)

/-- The rows of an INSERT into a table with these columns, all of which it names. -/
def readRows (columns : List Str) (rest : Str) : Option (List (List SqlValue)) := do
  let values ← stripPrefix (" (".toList ++ List.intercalate [','] columns ++ ") VALUES ".toList) rest
  readTuples columns.length values.length values

/-- A line can be read as values, whatever follows its bracket. -/
def ReadsAs (n : Nat) (line : Str) (values : List SqlValue) : Prop :=
  ∀ rest, readTuple n (line ++ ')' :: rest) = some (values, rest)

section
variable {t : Table} {c : ColPtr} {cell rest name line : Str} {n fuel : Nat} {columns batch : List Str}
  {rows : List (List SqlValue)} {values : List SqlValue}

/-- The beginning of a text is stripped. -/
lemma stripPrefix_append {pre s : Str} : stripPrefix pre (pre ++ s) = some s := by
  rw [stripPrefix, if_pos (List.prefix_append pre s), List.drop_left]

/-- A cell that survives is read before a comma or a bracket. -/
lemma readValue_survives (survives : Survives t c cell) (next : Unquoted rest) :
    readValue (nullSubst (t.written c cell) ++ rest) = some (meant t c cell, rest) := by
  rw [meant, Table.written]
  by_cases default : (t.colHeap[c]?).bind ColumnDescriptor.defStr = some cell
  · rw [if_pos default, if_pos default, default_alone]
    rfl
  rw [if_neg default, if_neg default]
  by_cases marker : cell = nullMarker
  · rw [if_pos marker, marker, marker_alone]
    rfl
  rw [if_neg marker]
  rcases survives with e | e | ⟨faithful, safe⟩
  · exact absurd e default
  · exact absurd e marker
  · have text : ('\'' :: (escapeQuotes cell ++ ['\''])) ++ rest = '\'' :: (escapeQuotes cell ++ '\'' :: rest) := by
      simp
    rw [quoted_alone marker safe, quotedToStream_eq, text, readValue_quote, readBody_iff next]
    exact ⟨faithful, rfl⟩

/-- The first of several values of a tuple is read to its comma. -/
lemma readTuple_more {v : SqlValue} {s rest1 rest2 : Str} {vs : List SqlValue}
    (first : readValue s = some (v, ',' :: rest1)) (others : readTuple (n + 1) rest1 = some (vs, rest2)) :
    readTuple (n + 2) s = some (v :: vs, rest2) := by
  rw [readTuple, first]
  simp only [others, Option.map_some]

/-- A list of values is read if each of them is. -/
lemma readTuple_intercalate {β : Type} {text : β → Str} {value : β → SqlValue} {l : List β} (some : l ≠ [])
    (one : ∀ b ∈ l, ∀ rest, Unquoted rest → readValue (text b ++ rest) = .some (value b, rest)) :
    ReadsAs l.length (List.intercalate [','] (l.map text)) (l.map value) := by
  intro rest
  induction l with
  | nil => exact absurd rfl some
  | cons b l ih =>
    cases l with
    | nil =>
      have here := one b List.mem_cons_self (')' :: rest) (by intro X e; cases e)
      simp only [List.map_cons, List.map_nil, intercalate_singleton, List.length_singleton, readTuple, here]
    | cons b' l =>
      have others := ih (List.cons_ne_nil b' l) fun b mem => one b (List.mem_cons_of_mem _ mem)
      simp only [List.map_cons, intercalate_cons_cons, List.append_assoc, List.cons_append, List.length_cons]
        at others ⊢
      exact readTuple_more (one b List.mem_cons_self _ (by intro X e; cases e)) others

/-- A line of the dump is read as what its cells mean. -/
lemma line_readsAs {data : List Str} (cols : t.colDes ≠ [])
    (survives : ∀ c ∈ t.colDes, Survives t c (data.getD c [])) :
    ReadsAs t.colDes.length (nullSubst (t.line data)) (t.colDes.map fun c => meant t c (data.getD c [])) := by
  rw [nullSubst_line]
  exact readTuple_intercalate cols fun c mem rest next => readValue_survives (survives c mem) next

/-- The lines of a batch are read in turn. -/
lemma readTuples_batch (some : batch ≠ []) (reads : List.Forall₂ (ReadsAs n) batch rows)
    (enough : batch.length ≤ fuel) : readTuples n fuel (tuples batch) = .some rows := by
  induction reads generalizing fuel with
  | nil => exact absurd rfl some
  | @cons line values batch rows one reads ih =>
    obtain ⟨fuel, rfl⟩ := Nat.exists_eq_add_of_le' (Nat.le_trans (Nat.succ_pos _) enough : 1 ≤ fuel)
    cases reads with
    | nil =>
      have text : tuples [line] = '(' :: (line ++ ')' :: []) := by simp [tuples]
      rw [text, readTuples, one]
    | @cons line' values' batch rows one' reads =>
      have text : tuples (line :: line' :: batch) = '(' :: (line ++ ')' :: ',' :: tuples (line' :: batch)) := by
        simp [tuples]
      rw [text, readTuples, one]
      simp only
      rw [ih (List.cons_ne_nil _ _) (by simpa using enough)]
      rfl

/-- A batch has no more tuples than its text has characters. -/
lemma length_le_tuples : batch.length ≤ (tuples batch).length := by
  have full : ∀ p ∈ batch.map fun line => '(' :: line ++ [')'], p ≠ [] := by
    intro p mem
    obtain ⟨line, _, rfl⟩ := List.mem_map.mp mem
    exact List.cons_ne_nil _ _
  have le := @length_le_intercalate _ ',' _ full
  rwa [List.length_map] at le

/-- The name of the table is read up to its backquote. -/
lemma readInto_append (bare : '\x60' ∉ name) :
    readInto ("INSERT INTO \x60".toList ++ (name ++ '\x60' :: rest)) = some (name, rest) := by
  have reached : (name ++ '\x60' :: rest).takeWhile (fun c => c ≠ '\x60') = name := by
    have inside : ∀ c ∈ name, decide (c ≠ '\x60') = true := by
      intro c mem
      rw [decide_eq_true_eq]
      rintro rfl
      exact bare mem
    rw [List.takeWhile_append_of_pos inside, List.takeWhile_cons_of_neg (by decide), List.append_nil]
  have close : stripPrefix ['\x60'] ('\x60' :: rest) = some rest := @stripPrefix_append ['\x60'] rest
  rw [readInto, stripPrefix_append]
  simp only [Option.bind_eq_bind, Option.bind_some, reached, List.drop_left, close]

/-- A batch is read back by a server that has a table with the columns of `finalTableCols.txt`. -/
theorem readInsert_tuples {finalTableCols : Str} (bare : '\x60' ∉ name) (some : batch ≠ [])
    (reads : List.Forall₂ (ReadsAs (getlines finalTableCols).length) batch rows) :
    ∃ rest, readInto (pushSQLHeader name finalTableCols ++ tuples batch) = .some (name, rest) ∧
      readRows (getlines finalTableCols) rest = .some rows := by
  have into : "INSERT INTO ".toList ++ ['\x60'] = "INSERT INTO \x60".toList := by decide
  have close : "\x60 (".toList = '\x60' :: " (".toList := by decide
  have parts : ∀ a b c d e : Str, a ++ '\x60' :: name ++ '\x60' :: b ++ c ++ d ++ e =
      (a ++ ['\x60']) ++ (name ++ '\x60' :: (b ++ c ++ d ++ e)) := by
    intro a b c d e
    simp
  -- a rewrite with `into` or `close` would compare the texts of the header by evaluation
  have header : pushSQLHeader name finalTableCols ++ tuples batch = _ :=
    congrArg (fun text => "INSERT INTO ".toList ++ '\x60' :: name ++ text ++
      List.intercalate [','] (getlines finalTableCols) ++ ") VALUES ".toList ++ tuples batch) close
  rw [header.trans (parts "INSERT INTO ".toList " (".toList _ _ _), congrArg (· ++ _) into]
  refine ⟨_, readInto_append bare, ?_⟩
  rw [readRows, stripPrefix_append, Option.bind_eq_bind, Option.bind_some]
  exact readTuples_batch some reads length_le_tuples

end

end TdsqlMerge.Pusher
