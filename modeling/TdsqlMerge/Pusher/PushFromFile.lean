import TdsqlMerge.Lib.Replace
import TdsqlMerge.Store.Loaded

/-!
# Pushing the result

Embedding of `Pusher::pushFromFile` and `Pusher::flushSQL` (`src/worker_impl/pusher.cpp`) from the
statement after `SET unique_checks=0` on. The server is a parameter: `refuses` says, given the statements
executed before, whether it throws `SQLException` on a statement.

`nullSubst_line` says what the replacement of the quoted NULL marker does to a line of `result.csv`: it works
on each value of the line alone.
-/

namespace TdsqlMerge.Pusher
open Lib Store

/-- The statements given to `SQLInstance::executeRaw`, and those of them that threw and were printed. -/
structure SQLInstance where
  executed : List Str
  failed : List Str

/-- `Pusher::flushSQL`. -/
def flushSQL (refuses : List Str → Str → Bool) (sqlHeader sqlContent : Str) (sqlInstance : SQLInstance) :
    SQLInstance :=
  let sql := sqlHeader ++ sqlContent
  { executed := sqlInstance.executed ++ [sql]
    failed := if refuses sqlInstance.executed sql then sqlInstance.failed ++ [sql] else sqlInstance.failed }

/-- `boost::replace_all(line, "'_NUll_&'", "null")`. -/
def nullSubst (line : Str) : Str := replaceAll "'_NUll_&'".toList "null".toList line

/-- The locals of the loop of `pushFromFile`. -/
structure PushState where
  sqlInstance : SQLInstance
  pushSQLContent : Str
  contentCount : Nat

/-- `pushSQLHeader`, from the lines of `finalTableCols.txt`. -/
def pushSQLHeader (tableName finalTableCols : Str) : Str :=
  "INSERT INTO ".toList ++ '\x60' :: tableName ++ "\x60 (".toList ++
    List.intercalate [','] (getlines finalTableCols) ++ ") VALUES ".toList

/-- One iteration of the loop of `pushFromFile`. -/
def pushLine (refuses : List Str → Str → Bool) (header : Str) (threshold : Int) (s : PushState) (line : Str) :
    PushState :=
  let content := s.pushSQLContent ++ (if s.contentCount ≠ 0 then [','] else []) ++ '(' :: nullSubst line ++ [')']
  -- `contentCount` counts the line that was just appended
  if ((s.contentCount + 1 : Nat) : Int) ≥ threshold then
    { sqlInstance := flushSQL refuses header content s.sqlInstance, pushSQLContent := [], contentCount := 0 }
  else { s with pushSQLContent := content, contentCount := s.contentCount + 1 }

/-- The lines the loop of `pushFromFile` sees: it ends at the first empty one. -/
def pushedLines (result : Str) : List Str := (getlines result).takeWhile fun line => decide (line ≠ [])

/-- `Pusher::pushFromFile` on the texts of `finalTableCols.txt` and `result.csv`. -/
def pushFromFile (refuses : List Str → Str → Bool) (tableName finalTableCols result : Str) (threshold : Int)
    (sqlInstance : SQLInstance) : SQLInstance :=
  let header := pushSQLHeader tableName finalTableCols
  let s := (pushedLines result).foldl (pushLine refuses header threshold)
    { sqlInstance, pushSQLContent := [], contentCount := 0 }
  if s.contentCount ≠ 0 then flushSQL refuses header s.pushSQLContent s.sqlInstance else s.sqlInstance

/-! ### Quoted values -/

/-- The text of a value between its quotes. -/
def escapeQuotes (s : Str) : Str := s.flatMap fun c => if c = '\'' then ['\\', '\''] else [c]

/-- `quotedToStream` puts the escaped text in quotes. -/
lemma quotedToStream_eq {s : Str} : quotedToStream s = '\'' :: (escapeQuotes s ++ ['\'']) := rfl

/-- Nothing is escaped in the empty text. -/
@[simp] lemma escapeQuotes_nil : escapeQuotes [] = [] := rfl

/-- A quote is escaped. -/
@[simp] lemma escapeQuotes_quote {s : Str} : escapeQuotes ('\'' :: s) = '\\' :: '\'' :: escapeQuotes s := rfl

/-- Any other character stays. -/
lemma escapeQuotes_cons {c : Char} {s : Str} (ne : c ≠ '\'') :
    escapeQuotes (c :: s) = c :: escapeQuotes s := by
  rw [escapeQuotes, List.flatMap_cons, if_neg ne]
  rfl

/-- Each part of a text is escaped. -/
lemma escapeQuotes_append {s s' : Str} : escapeQuotes (s ++ s') = escapeQuotes s ++ escapeQuotes s' :=
  List.flatMap_append

/-- A text without quotes and backslashes only precedes a quote if it is the whole value. -/
lemma prefix_escapeQuotes {m s X rest : Str} (plain : ∀ c ∈ m, c ≠ '\'' ∧ c ≠ '\\')
    (e : m ++ '\'' :: X = escapeQuotes s ++ '\'' :: rest) : s = m := by
  induction m generalizing s with
  | nil =>
    cases s with
    | nil => rfl
    | cons c s =>
      by_cases quote : c = '\''
      · subst quote
        rw [escapeQuotes_quote, List.nil_append, List.cons_append, List.cons.injEq] at e
        exact absurd e.1 (by decide)
      · rw [escapeQuotes_cons quote, List.nil_append, List.cons_append, List.cons.injEq] at e
        exact absurd e.1.symm quote
  | cons d m ih =>
    obtain ⟨no_quote, no_bs⟩ := plain d List.mem_cons_self
    cases s with
    | nil =>
      rw [escapeQuotes_nil, List.nil_append, List.cons_append, List.cons.injEq] at e
      exact absurd e.1 no_quote
    | cons c s =>
      by_cases quote : c = '\''
      · subst quote
        rw [escapeQuotes_quote, List.cons_append, List.cons_append, List.cons.injEq] at e
        exact absurd e.1 no_bs
      · rw [escapeQuotes_cons quote, List.cons_append, List.cons_append, List.cons.injEq] at e
        rw [← e.1, ih (fun c mem => plain c (List.mem_cons_of_mem d mem)) e.2]

end TdsqlMerge.Pusher
