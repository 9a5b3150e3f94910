import TdsqlMerge.Lib.StringLiteral
import TdsqlMerge.Pusher.Nulls

/-!
# The values in the INSERT

What MySQL reads in a line of the INSERT. `quotedToStream` escapes quotes and no backslashes, so a value is
read back only if each of its backslashes starts one of the two escapes that keep it (`readBody_iff`), and the
replacement of the NULL marker must not have cut its end. `values_iff` says for which rows a line is read as
the values that were written.
-/

namespace TdsqlMerge.Pusher
open Lib Store

/-- Every backslash is immediately followed by `%` or `_`. -/
def Faithful : Str → Prop
  | [] => True
  | '\\' :: d :: s => (d = '%' ∨ d = '_') ∧ Faithful s
  | '\\' :: [] => False
  | _ :: s => Faithful s

section
variable {c d : Char} {s X Y z r rest w : Str} {k : Nat}

/-- A character that is no backslash does not matter. -/
lemma faithful_cons (ne : c ≠ '\\') : Faithful (c :: s) ↔ Faithful s := by
  rw [Faithful.eq_def]
  split <;> simp_all

/-- The escaped text of a cell does not begin with a quote. -/
lemma escapeQuotes_unquoted (ne : s ≠ []) : Unquoted (escapeQuotes s ++ Y) := by
  cases s with
  | nil => exact absurd rfl ne
  | cons c s =>
    intro X e
    by_cases quote : c = '\''
    · subst quote
      cases e
    · rw [escapeQuotes_cons quote, List.cons_append, List.cons.injEq] at e
      exact quote e.1

/-- A value without other backslashes is read up to its end. -/
lemma readBody_faithful (faithful : Faithful s) :
    readBody (escapeQuotes s ++ Y) = (readBody Y).map fun x => (s ++ x.1, x.2) := by
  induction s using Faithful.induct with
  | case1 => simp
  | case2 d s ih =>
    obtain ⟨pattern, faithful⟩ := faithful
    have quote : d ≠ '\'' := by
      rintro rfl
      exact absurd pattern (by decide)
    rw [escapeQuotes_cons (by decide), escapeQuotes_cons quote, List.cons_append, List.cons_append,
      readBody_escape, ih faithful, unescape_pattern pattern, Option.map_map]
    rfl
  | case3 => exact faithful.elim
  | case4 c s not_escape not_lone ih =>
    have bs : c ≠ '\\' := by
      rintro rfl
      cases s with
      | nil => exact not_lone rfl rfl
      | cons d s => exact not_escape d s rfl rfl
    have tail := ih ((faithful_cons bs).mp faithful)
    by_cases quote : c = '\''
    · subst quote
      rw [escapeQuotes_quote, List.cons_append, List.cons_append, readBody_escape, tail, Option.map_map]
      rfl
    · rw [escapeQuotes_cons quote, List.cons_append, readBody_plain quote bs, tail, Option.map_map]
      rfl

/-- A text that reads as itself: its start `s`, written with escaped quotes, is faithful. After an escape that
    loses its backslash the reader lags behind by some number `k` of backslashes and never makes up for it. -/
lemma faithful_of_read (base : ∀ k r, readBody Y = some (List.replicate k '\\' ++ z, r) → k = 0)
    (lone : ∀ k r, readBody ('\\' :: Y) ≠ some (List.replicate k '\\' ++ '\\' :: z, r))
    (pair : ∀ k r, readBody ('\'' :: Y) ≠ some (List.replicate k '\\' ++ '\'' :: z, r))
    (read : readBody (escapeQuotes s ++ Y) = some (List.replicate k '\\' ++ (s ++ z), r)) :
    k = 0 ∧ Faithful s ∧ readBody Y = some (z, r) := by
  induction size : s.length using Nat.strong_induction_on generalizing s k with
  | _ n ih =>
    match s with
    | [] =>
      have zero := base k r read
      subst zero
      exact ⟨rfl, trivial, read⟩
    | c :: s =>
      have shorter : s.length < n := by
        rw [← size]
        exact Nat.lt_succ_self _
      by_cases quote : c = '\''
      · subst quote
        rw [escapeQuotes_quote] at read
        obtain ⟨v, read, e⟩ := readBody_escape_some read
        obtain ⟨rfl, _, rfl⟩ := cons_eq_replicate_append (by decide) e.symm
        obtain ⟨_, faithful, stop⟩ := @ih s.length shorter s 0 read rfl
        exact ⟨rfl, (faithful_cons (by decide)).mpr faithful, stop⟩
      by_cases bs : c = '\\'
      · subst bs
        match s with
        | [] => exact absurd read (lone k r)
        | d :: s =>
          have shorter : s.length < n := by
            rw [← size, List.length_cons, List.length_cons]
            omega
          by_cases quote : d = '\''
          · subst quote
            -- the backslash of the escaped quote is escaped, so the quote ends the literal
            rw [escapeQuotes_cons (by decide), escapeQuotes_quote, List.cons_append, List.cons_append,
              List.cons_append] at read
            obtain ⟨v, read, e⟩ := readBody_escape_some read
            rw [List.cons_append, replicate_append_self] at e
            have rest : v = List.replicate k '\\' ++ '\'' :: (s ++ z) := (List.cons.inj e).2.symm
            subst rest
            by_cases nil : s = []
            · subst nil
              exact absurd read (pair k r)
            · rw [readBody_close (escapeQuotes_unquoted nil)] at read
              simp at read
          rw [escapeQuotes_cons (by decide), escapeQuotes_cons quote] at read
          obtain ⟨v, read, e⟩ := readBody_escape_some read
          rw [List.cons_append, replicate_append_self] at e
          -- an escape either keeps its backslash, or loses it and the reader lags behind by one more
          by_cases pattern : d = '%' ∨ d = '_'
          · rw [unescape_pattern pattern] at e
            have ne : d ≠ '\\' := by
              rintro rfl
              exact absurd pattern (by decide)
            obtain ⟨rfl, _, rfl⟩ := cons_eq_replicate_append ne (List.cons.inj e).2.symm
            obtain ⟨_, faithful, stop⟩ := @ih s.length shorter s 0 read rfl
            exact ⟨rfl, ⟨pattern, faithful⟩, stop⟩
          · obtain ⟨x, single, bs⟩ := unescape_single pattern
            rw [single] at e
            obtain ⟨rfl, lag⟩ := List.cons.inj e
            rw [bs.mp rfl, List.cons_append, replicate_append_self, ← List.cons_append,
              ← List.replicate_succ] at lag
            subst lag
            exact absurd (@ih s.length shorter s (k + 1) read rfl).1 (Nat.succ_ne_zero k)
      · rw [escapeQuotes_cons quote] at read
        obtain ⟨v, read, e⟩ := readBody_plain_some quote bs read
        obtain ⟨rfl, _, rfl⟩ := cons_eq_replicate_append bs e.symm
        obtain ⟨_, faithful, stop⟩ := @ih s.length shorter s 0 read rfl
        exact ⟨rfl, (faithful_cons bs).mpr faithful, stop⟩

/-- A quoted value is read as itself if each of its backslashes starts an escape that keeps it, and then the
    reader stops at its closing quote. -/
lemma readBody_iff (next : Unquoted rest) :
    readBody (escapeQuotes s ++ '\'' :: rest) = some (s, r) ↔ Faithful s ∧ r = rest := by
  constructor
  · intro read
    have base : ∀ k r, readBody ('\'' :: rest) = some (List.replicate k '\\' ++ [], r) → k = 0 := by
      intro k r read
      rw [readBody_close next, Option.some.injEq, Prod.mk.injEq, List.append_nil] at read
      exact (List.replicate_eq_nil_iff _).mp read.1.symm
    have lone : ∀ k r, readBody ('\\' :: '\'' :: rest) ≠ some (List.replicate k '\\' ++ ['\\'], r) := by
      intro k r read
      obtain ⟨v, _, e⟩ := readBody_escape_some read
      exact absurd (cons_eq_replicate_append (by decide) e.symm).2.1 (by decide)
    have pair : ∀ k r, readBody ('\'' :: '\'' :: rest) ≠ some (List.replicate k '\\' ++ ['\''], r) := by
      intro k r read
      rw [readBody_doubled, Option.map_eq_some_iff] at read
      obtain ⟨⟨v, r'⟩, read, e⟩ := read
      have nil : v = [] := (cons_eq_replicate_append (by decide) (Prod.mk.inj e).1).2.2
      rw [nil] at read
      exact readBody_ne_nil next read
    obtain ⟨_, faithful, stop⟩ := @faithful_of_read s _ [] r 0 base lone pair
      (by rwa [List.append_nil, List.replicate_zero, List.nil_append])
    rw [readBody_close next, Option.some.injEq, Prod.mk.injEq] at stop
    exact ⟨faithful, stop.2.symm⟩
  · rintro ⟨faithful, rfl⟩
    rw [readBody_faithful faithful, readBody_close next, Option.map_some, List.append_nil]

/-- A value whose end was replaced is not read as it was. -/
lemma cut_unread : readBody (escapeQuotes s ++ '\\' :: 'n' :: X) ≠ some (s ++ '\'' :: z, r) := by
  intro read
  have base : ∀ k r, readBody ('\\' :: 'n' :: X) = some (List.replicate k '\\' ++ '\'' :: z, r) → k = 0 := by
    intro k r read
    obtain ⟨v, _, e⟩ := readBody_escape_some read
    exact (cons_eq_replicate_append (by decide) e.symm).1
  have lone : ∀ k r, readBody ('\\' :: '\\' :: 'n' :: X) ≠
      some (List.replicate k '\\' ++ '\\' :: '\'' :: z, r) := by
    intro k r read
    obtain ⟨v, read, e⟩ := readBody_escape_some read
    rw [replicate_append_self] at e
    have tail : v = List.replicate k '\\' ++ '\'' :: z := (List.cons.inj e).2.symm
    obtain ⟨v', _, e'⟩ := readBody_plain_some (by decide) (by decide) read
    rw [e'] at tail
    exact absurd (cons_eq_replicate_append (by decide) tail).2.1 (by decide)
  have pair : ∀ k r, readBody ('\'' :: '\\' :: 'n' :: X) ≠
      some (List.replicate k '\\' ++ '\'' :: '\'' :: z, r) := by
    intro k r read
    rw [readBody_close (by intro X e; cases e)] at read
    simp at read
  obtain ⟨_, _, stop⟩ := @faithful_of_read s _ ('\'' :: z) r 0 base lone pair read
  obtain ⟨v, _, e⟩ := readBody_escape_some stop
  exact absurd (List.cons.inj e).1 (by decide)

end

/-! ### Values -/

/-- What a value in the INSERT stands for. -/
inductive SqlValue where
  | default
  | null
  | text (s : Str)
  deriving DecidableEq

/-- Read a value. -/
def readValue (s : Str) : Option (SqlValue × Str) :=
  match readLiteral s with
  | some (v, rest) => some (.text v, rest)
  | none =>
    if "null".toList <+: s then some (.null, s.drop 4)
    else if "DEFAULT".toList <+: s then some (.default, s.drop 7)
    else none

/-- Read exactly `n` values, separated by commas. -/
def readValues : Nat → Str → Option (List SqlValue)
  | 0, s => if s = [] then some [] else none
  | 1, s =>
    match readValue s with
    | some (v, []) => some [v]
    | _ => none
  | n + 2, s =>
    match readValue s with
    | some (v, ',' :: rest) => (readValues (n + 1) rest).map (v :: ·)
    | _ => none

/-- What the INSERT should say about a cell. -/
def meant (t : Table) (c : ColPtr) (cell : Str) : SqlValue :=
  if (t.colHeap[c]?).bind ColumnDescriptor.defStr = some cell then .default
  else if cell = nullMarker then .null
  else .text cell

/-- The cell is not written in quotes, or each of its backslashes starts an escape that keeps it and its end
    does not look like the NULL marker. -/
def Survives (t : Table) (c : ColPtr) (cell : Str) : Prop :=
  (t.colHeap[c]?).bind ColumnDescriptor.defStr = some cell ∨ cell = nullMarker ∨
    Faithful cell ∧ ¬ '\'' :: nullMarker <:+ cell

section
variable {t : Table} {c : ColPtr} {cell rest r : Str}

/-- A value that starts with a quote is a literal. -/
lemma readValue_quote {X v : Str} :
    readValue ('\'' :: X) = some (.text v, r) ↔ readBody X = some (v, r) := by
  rw [readValue, readLiteral]
  cases readBody X with
  | none => simp
  | some x => simp [Prod.ext_iff]

/-- One value of the INSERT. -/
lemma readValue_iff (next : ∀ d X, rest = d :: X → d = ',') :
    readValue (nullSubst (t.written c cell) ++ rest) = some (meant t c cell, r) ↔
      Survives t c cell ∧ r = rest := by
  have unquoted : Unquoted rest := by
    intro X e
    exact absurd (next _ _ e) (by decide)
  rw [meant, Survives, Table.written]
  by_cases default : (t.colHeap[c]?).bind ColumnDescriptor.defStr = some cell
  · have read : readValue ("DEFAULT".toList ++ rest) = some (.default, rest) := rfl
    rw [if_pos default, if_pos default, default_alone, read]
    simp [default, eq_comm]
  rw [if_neg default, if_neg default]
  by_cases marker : cell = nullMarker
  · have read : readValue ("null".toList ++ rest) = some (.null, rest) := rfl
    rw [if_pos marker, marker, marker_alone, read]
    simp [eq_comm]
  rw [if_neg marker]
  by_cases suffix : '\'' :: nullMarker <:+ cell
  · obtain ⟨s, rfl⟩ := suffix
    constructor
    · intro read
      have text : ('\'' :: (escapeQuotes s ++ '\\' :: "null".toList)) ++ rest =
          '\'' :: (escapeQuotes s ++ '\\' :: 'n' :: ("ull".toList ++ rest)) := by simp
      rw [broken_alone, text, readValue_quote] at read
      exact absurd read cut_unread
    · rintro ⟨survives, _⟩
      rcases survives with e | e | ⟨_, safe⟩
      · exact absurd e default
      · exact absurd e marker
      · exact absurd (List.suffix_append s _) safe
  · have text : ('\'' :: (escapeQuotes cell ++ ['\''])) ++ rest = '\'' :: (escapeQuotes cell ++ '\'' :: rest) := by
      simp
    rw [quoted_alone marker suffix, quotedToStream_eq, text, readValue_quote, readBody_iff unquoted]
    simp [default, marker, suffix]

/-- One value is read to the end. -/
lemma readValues_one {s : Str} {v : SqlValue} : readValues 1 s = some [v] ↔ readValue s = some (v, []) := by
  rw [readValues]
  split
  · rename_i v' e
    simp [e]
  · rename_i other
    simp only [reduceCtorEq, false_iff]
    exact other v

/-- The first of several values is read to its comma. -/
lemma readValues_more {n : Nat} {s : Str} {v : SqlValue} {vs : List SqlValue} :
    readValues (n + 2) s = some (v :: vs) ↔
      ∃ rest, readValue s = some (v, ',' :: rest) ∧ readValues (n + 1) rest = some vs := by
  rw [readValues]
  split
  · rename_i v' rest e
    rw [e]
    simp only [Option.map_eq_some_iff, List.cons.injEq, Option.some.injEq, Prod.mk.injEq, true_and]
    constructor
    · rintro ⟨vs', read, rfl, rfl⟩
      exact ⟨rest, ⟨rfl, rfl⟩, read⟩
    · rintro ⟨_, ⟨rfl, rfl⟩, read⟩
      exact ⟨vs, read, rfl, rfl⟩
  · rename_i other
    simp only [reduceCtorEq, false_iff, not_exists, not_and]
    intro rest e
    exact absurd e (other v rest)

/-- A list of values is read if each of them is. -/
lemma readValues_iff {β : Type} {text : β → Str} {value : β → SqlValue} {good : β → Prop} {l : List β}
    (one : ∀ b rest r, (∀ d X, rest = d :: X → d = ',') →
      (readValue (text b ++ rest) = some (value b, r) ↔ good b ∧ r = rest)) :
    readValues l.length (List.intercalate [','] (l.map text)) = some (l.map value) ↔ ∀ b ∈ l, good b := by
  induction l with
  | nil => simp [readValues, List.intercalate]
  | cons b l ih =>
    cases l with
    | nil =>
      have here := one b [] [] (by intro d X e; cases e)
      rw [List.append_nil] at here
      simp only [List.map_cons, List.map_nil, intercalate_singleton, List.length_singleton, readValues_one, here]
      simp
    | cons b' l =>
      have here := fun r => one b (',' :: List.intercalate [','] ((b' :: l).map text)) r (by
        intro d X e
        cases e
        rfl)
      rw [List.forall_mem_cons, ← ih]
      simp only [List.map_cons, intercalate_cons_cons, List.length_cons, readValues_more] at here ⊢
      simp only [here, List.cons.injEq, true_and]
      constructor
      · rintro ⟨rest, ⟨good, rfl⟩, read⟩
        exact ⟨good, read⟩
      · rintro ⟨good, read⟩
        exact ⟨_, ⟨good, rfl⟩, read⟩

/-- For every row of a table made from files whose CREATE has `updated_at`, in whatever order the rows are
    written: each value in its line of the INSERT is read as its cell if the cell survives, and else it is not; and
    the line is read as exactly these values, one for each column, if all cells survive, and else it is not. -/
theorem values_iff {hashCombine : UInt64 → Str → UInt64} {rows : List (Option RowPtr)}
    (ld : Loaded hashCombine t) (perm : rows.Perm t.rows) : ∃ csv, Table.dumpToFile { t with rows } = .ok csv ∧
    List.Forall₂ (fun line (x : Record) =>
      (∀ c ∈ t.colDes, readValue (nullSubst (t.written c (x.data.getD c []))) =
        some (meant t c (x.data.getD c []), []) ↔ Survives t c (x.data.getD c [])) ∧
      (readValues t.colDes.length (nullSubst line) =
        some (t.colDes.map fun c => meant t c (x.data.getD c [])) ↔
          ∀ c ∈ t.colDes, Survives t c (x.data.getD c [])))
      (getlines csv) ((slots rows t.rowHeap).filterMap id) := by
  rw [ld.forall_lines perm]
  intro x _
  constructor
  · intro c _
    have here := @readValue_iff t c (x.data.getD c []) [] [] (by intro d X e; cases e)
    rw [List.append_nil] at here
    simpa using here
  · rw [nullSubst_line]
    exact readValues_iff fun c rest r next => readValue_iff next

end

/-- The values of a note with a quote survive. -/
theorem plainNote_survives : ∃ t csv,
    filesRun (notesDdl "0\n") "\"it's 6\",\"5\"\n".toList = .ok t ∧ t.dumpToFile = .ok csv ∧
    List.Forall₂ (fun line (x : Record) =>
      (∀ c ∈ t.colDes, readValue (nullSubst (t.written c (x.data.getD c []))) =
        some (meant t c (x.data.getD c []), []) ↔ Survives t c (x.data.getD c [])) ∧
      (readValues t.colDes.length (nullSubst line) =
        some (t.colDes.map fun c => meant t c (x.data.getD c [])) ↔
          ∀ c ∈ t.colDes, Survives t c (x.data.getD c [])))
      (getlines csv) ((slots t.rows t.rowHeap).filterMap id) := by
  obtain ⟨t, run, ld, _⟩ := notesSeen_loaded (show notesSeen "0\n" none "\"it's 6\",\"5\"\n".toList
    [some (noteRow "it's 6")] = true by decide +kernel)
  obtain ⟨csv, dump, lines⟩ := values_iff ld (.refl t.rows)
  exact ⟨t, csv, run, dump, lines⟩

/-- A note that ends with a backslash runs into the next value. -/
theorem backslashNote_runs_on :
    ¬ ∀ (hashCombine : UInt64 → Str → UInt64) (t : Table) (rows : List (Option RowPtr)),
    Loaded hashCombine t → rows.Perm t.rows → ∃ csv, Table.dumpToFile { t with rows } = .ok csv ∧
    List.Forall₂ (fun line (x : Record) =>
      (∀ c ∈ t.colDes, readValue (nullSubst (t.written c (x.data.getD c []))) =
        some (meant t c (x.data.getD c []), [])) ∧
      readValues t.colDes.length (nullSubst line) =
        some (t.colDes.map fun c => meant t c (x.data.getD c [])))
      (getlines csv) ((slots rows t.rowHeap).filterMap id) := by
  intro holds
  obtain ⟨t, _, ld, cols, defs, rows⟩ := notesSeen_loaded (show notesSeen "0\n" none
    "\"a\\\\\",\"5\"\n".toList [some (noteRow "a\\")] = true by decide +kernel)
  obtain ⟨_, same⟩ := (ld.forall_lines (.refl _)).mp (holds _ t t.rows ld (.refl _)) (noteRow "a\\") (by
    rw [rows]
    exact List.mem_cons_self)
  simp only [Table.line, Table.written, meant, notes_bare defs, cols] at same
  revert same
  decide +kernel

end TdsqlMerge.Pusher
