import TdsqlMerge.Pusher.PushFromFile

/-!
# NULL in the INSERT

`pushFromFile` turns the quoted NULL marker into `null` by a replacement over the whole line.
`nullSubst_line` shows that the replacement works on each value of the line alone. It misses its aim for two
kinds of cells (`substitution_iff`): a longer value that ends with a quote and the marker loses its end,
since its last escaped quote and the closing one enclose the marker, and a NULL cell in a column with the
default text `_NUll_&` was written as `DEFAULT`.
-/

namespace TdsqlMerge.Pusher
open Lib Store

/-- The quoted NULL marker. -/
lemma pattern_eq : "'_NUll_&'".toList = '\'' :: (nullMarker ++ ['\'']) := by decide

/-- The marker has no quote and no backslash. -/
lemma marker_plain : ∀ c ∈ nullMarker, c ≠ '\'' ∧ c ≠ '\\' := by decide

/-- Nothing is substituted in the empty text. -/
@[simp] lemma nullSubst_nil : nullSubst [] = [] := rfl

section
variable {s rest : Str}

/-- The pattern does not start at a quote that ends a value. -/
lemma no_match_end (next : ∀ c X, rest = c :: X → c = ',') : ¬ "'_NUll_&'".toList <+: '\'' :: rest := by
  rw [pattern_eq, List.cons_prefix_cons]
  rintro ⟨_, X, e⟩
  exact absurd (next _ _ e.symm) (by decide)

/-- It starts at a quote before a text only if the text is the marker. -/
lemma no_match (ne : s ≠ nullMarker) :
    ¬ "'_NUll_&'".toList <+: '\'' :: (escapeQuotes s ++ '\'' :: rest) := by
  rw [pattern_eq, List.cons_prefix_cons]
  rintro ⟨_, X, e⟩
  rw [List.append_assoc, List.singleton_append] at e
  exact ne (prefix_escapeQuotes marker_plain e)

/-- It does not start at another character. -/
lemma no_match_other {c : Char} {X : Str} (ne : c ≠ '\'') : ¬ "'_NUll_&'".toList <+: c :: X := by
  rw [pattern_eq, List.cons_prefix_cons]
  exact fun start => ne start.1.symm

/-- A value that ends with a quote and the marker is not the marker. -/
lemma ne_marker_of_suffix : s ++ '\'' :: nullMarker ≠ nullMarker := by
  intro e
  have len := congrArg List.length e
  rw [List.length_append, List.length_cons] at len
  omega

/-- The rest of a value that does not end with a quote and the marker stays. -/
lemma nullSubst_kept (next : ∀ c X, rest = c :: X → c = ',') (safe : ¬ '\'' :: nullMarker <:+ s) :
    nullSubst (escapeQuotes s ++ '\'' :: rest) = escapeQuotes s ++ '\'' :: nullSubst rest := by
  induction s with
  | nil => exact replaceAll_cons (no_match_end next)
  | cons c s ih =>
    have tail := ih fun suffix => safe (suffix.trans (List.suffix_cons c s))
    by_cases quote : c = '\''
    · subst quote
      have ne : s ≠ nullMarker := by
        rintro rfl
        exact safe List.suffix_rfl
      rw [escapeQuotes_quote, List.cons_append, List.cons_append, nullSubst, replaceAll_cons
        (no_match_other (by decide)), replaceAll_cons (no_match ne), ← nullSubst, tail]
      rfl
    · rw [escapeQuotes_cons quote, List.cons_append, nullSubst, replaceAll_cons (no_match_other quote),
        ← nullSubst, tail]
      rfl

/-- A value that ends with a quote and the marker loses its end and its closing quote. -/
lemma nullSubst_broken :
    nullSubst (escapeQuotes (s ++ '\'' :: nullMarker) ++ '\'' :: rest) =
      escapeQuotes s ++ '\\' :: ("null".toList ++ nullSubst rest) := by
  induction s with
  | nil =>
    have text : escapeQuotes ([] ++ '\'' :: nullMarker) ++ '\'' :: rest =
        '\\' :: ("'_NUll_&'".toList ++ rest) := by
      rw [List.nil_append, escapeQuotes_quote, pattern_eq]
      rfl
    rw [text, nullSubst, replaceAll_cons (no_match_other (by decide)), replaceAll_match (by decide)]
    rfl
  | cons c s ih =>
    by_cases quote : c = '\''
    · subst quote
      rw [List.cons_append, escapeQuotes_quote, List.cons_append, List.cons_append, nullSubst,
        replaceAll_cons (no_match_other (by decide)), replaceAll_cons (no_match ne_marker_of_suffix), ← nullSubst, ih]
      rfl
    · rw [List.cons_append, escapeQuotes_cons quote, List.cons_append, nullSubst,
        replaceAll_cons (no_match_other quote), ← nullSubst, ih, escapeQuotes_cons quote]
      rfl

/-- The quoted marker becomes `null`. -/
lemma nullSubst_marker : nullSubst (quotedToStream nullMarker ++ rest) = "null".toList ++ nullSubst rest := by
  have text : quotedToStream nullMarker = "'_NUll_&'".toList := by decide
  rw [text]
  exact replaceAll_match (by decide)

/-- The opening quote of any other value stays. -/
lemma nullSubst_open (ne : s ≠ nullMarker) :
    nullSubst (quotedToStream s ++ rest) = '\'' :: nullSubst (escapeQuotes s ++ '\'' :: rest) := by
  rw [quotedToStream_eq, List.cons_append, List.append_assoc, List.singleton_append, nullSubst,
    replaceAll_cons (no_match ne)]
  rfl

/-- A quoted value that is no marker and does not end like one stays. -/
lemma nullSubst_quoted (ne : s ≠ nullMarker) (safe : ¬ '\'' :: nullMarker <:+ s)
    (next : ∀ c X, rest = c :: X → c = ',') :
    nullSubst (quotedToStream s ++ rest) = quotedToStream s ++ nullSubst rest := by
  rw [nullSubst_open ne, nullSubst_kept next safe, quotedToStream_eq, List.cons_append, List.append_assoc]
  rfl

/-- A quoted value that ends with a quote and the marker. -/
lemma nullSubst_quoted_broken :
    nullSubst (quotedToStream (s ++ '\'' :: nullMarker) ++ rest) =
      '\'' :: (escapeQuotes s ++ '\\' :: ("null".toList ++ nullSubst rest)) := by
  rw [nullSubst_open ne_marker_of_suffix, nullSubst_broken]

/-- `DEFAULT` stays. -/
lemma nullSubst_default : nullSubst ("DEFAULT".toList ++ rest) = "DEFAULT".toList ++ nullSubst rest := by
  rw [nullSubst, pattern_eq]
  exact replaceAll_free_of_not_mem (by decide)

end

/-! ### Lines -/

section
variable {t : Table} {c : ColPtr} {cell s rest : Str}

/-! A value alone. -/

/-- DEFAULT stays. -/
lemma default_alone : nullSubst "DEFAULT".toList = "DEFAULT".toList := by decide

/-- The quoted marker becomes `null`. -/
lemma marker_alone : nullSubst (quotedToStream nullMarker) = "null".toList := by decide

/-- A cell that ends with a quote and the marker is cut. -/
lemma broken_alone : nullSubst (quotedToStream (s ++ '\'' :: nullMarker)) =
    '\'' :: (escapeQuotes s ++ '\\' :: "null".toList) := by
  have broken := @nullSubst_quoted_broken s []
  rwa [List.append_nil, nullSubst_nil, List.append_nil] at broken

/-- Any other quoted cell stays. -/
lemma quoted_alone (ne : s ≠ nullMarker) (safe : ¬ '\'' :: nullMarker <:+ s) :
    nullSubst (quotedToStream s) = quotedToStream s := by
  have kept := @nullSubst_quoted s [] ne safe (by intro d X e; cases e)
  rwa [List.append_nil, nullSubst_nil, List.append_nil] at kept

/-- The replacement in a value does not depend on what follows. -/
lemma nullSubst_written (next : ∀ d X, rest = d :: X → d = ',') :
    nullSubst (t.written c cell ++ rest) = nullSubst (t.written c cell) ++ nullSubst rest := by
  rw [Table.written]
  split
  · rw [nullSubst_default, default_alone]
  by_cases marker : cell = nullMarker
  · rw [marker, nullSubst_marker, marker_alone]
  by_cases suffix : '\'' :: nullMarker <:+ cell
  · obtain ⟨s, rfl⟩ := suffix
    rw [nullSubst_quoted_broken, broken_alone]
    simp
  · rw [nullSubst_quoted marker suffix next, quoted_alone marker suffix]

/-- The replacement in a line works on each value alone. -/
theorem nullSubst_line {data : List Str} :
    nullSubst (t.line data) =
      List.intercalate [','] (t.colDes.map fun c => nullSubst (t.written c (data.getD c []))) := by
  rw [Table.line]
  induction t.colDes with
  | nil => rfl
  | cons c cs ih =>
    cases cs with
    | nil => simp
    | cons c' cs =>
      simp only [List.map_cons, intercalate_cons_cons] at ih ⊢
      have comma : ∀ X, nullSubst (',' :: X) = ',' :: nullSubst X := fun X =>
        replaceAll_cons (no_match_other (by decide))
      rw [nullSubst_written, comma, ih]
      intro d X e
      cases e
      rfl

/-- What a cell is meant to arrive as: `null` for the marker, and else what `dumpToFile` wrote. -/
def intended (t : Table) (c : ColPtr) (cell : Str) : Str :=
  if cell = nullMarker then "null".toList else t.written c cell

/-- The cell is no marker in a column with that default text, and if it is written in quotes it does not end
    with a quote and the marker. -/
def NullSafe (t : Table) (c : ColPtr) (cell : Str) : Prop :=
  if (t.colHeap[c]?).bind ColumnDescriptor.defStr = some cell then cell ≠ nullMarker
  else ¬ '\'' :: nullMarker <:+ cell

/-- A safe cell arrives as intended. -/
lemma NullSafe.eq (safe : NullSafe t c cell) : nullSubst (t.written c cell) = intended t c cell := by
  rw [NullSafe] at safe
  rw [intended, Table.written]
  split at safe
  · rename_i default
    rw [if_pos default, if_neg safe, default_alone]
  · rename_i default
    rw [if_neg default]
    split
    · rename_i marker
      rw [marker, marker_alone]
    · rename_i marker
      exact quoted_alone marker safe

/-- Another cell does not. -/
lemma differ_of_not_safe (bad : ¬ NullSafe t c cell) :
    Differ (nullSubst (t.written c cell)) (intended t c cell) := by
  rw [NullSafe] at bad
  rw [intended, Table.written]
  split at bad
  · rename_i default
    rw [not_not] at bad
    rw [if_pos default, if_pos bad, default_alone]
    exact ⟨[], 'D', 'n', _, _, by decide, rfl, rfl⟩
  · rename_i default
    rw [not_not] at bad
    obtain ⟨s, rfl⟩ := bad
    rw [if_neg default, if_neg ne_marker_of_suffix, broken_alone, quotedToStream_eq,
      escapeQuotes_append]
    -- up to the last escaped quote the two texts agree
    refine ⟨'\'' :: escapeQuotes s ++ ['\\'], 'n', '\'', "ull".toList, escapeQuotes nullMarker ++ ['\''],
      by decide, ?_, ?_⟩
    · simp
    · simp

/-- For every row of a table made from files whose CREATE has `updated_at`, in whatever order the rows are
    written: its line in the INSERT is the list of its values with `null` for the NULL cells if all its cells are
    safe, and else it is not. -/
theorem substitution_iff {hashCombine : UInt64 → Str → UInt64} {rows : List (Option RowPtr)}
    (ld : Loaded hashCombine t) (perm : rows.Perm t.rows) : ∃ csv, Table.dumpToFile { t with rows } = .ok csv ∧
    List.Forall₂ (fun line (x : Record) =>
      nullSubst line = List.intercalate [','] (t.colDes.map fun c => intended t c (x.data.getD c [])) ↔
        ∀ c ∈ t.colDes, NullSafe t c (x.data.getD c []))
      (getlines csv) ((slots rows t.rowHeap).filterMap id) := by
  rw [ld.forall_lines perm]
  intro x _
  rw [nullSubst_line, intercalate_eq_iff]
  · refine forall₂_congr fun c mem => ⟨fun e => ?_, NullSafe.eq⟩
    by_contra bad
    exact @Differ.append_ne _ _ _ [] [] (differ_of_not_safe bad) (by rw [e])
  · intro c mem
    by_cases safe : NullSafe t c (x.data.getD c [])
    · exact .inl safe.eq
    · exact .inr (differ_of_not_safe safe)

end

/-- The row `(note, 5)`. -/
def noteRow (note : String) : Record := { data := [note.toList, "5".toList], source := 0, stamp := 0 }

/-- A table of notes without defaults. -/
lemma notes_bare {t : Table} (defs : t.colHeap.map ColumnDescriptor.defStr = [none, none]) (c : ColPtr) :
    (t.colHeap[c]?).bind ColumnDescriptor.defStr = none := by
  cases at_c : t.colHeap[c]? with
  | none => rfl
  | some d =>
    have mem := List.mem_map_of_mem (f := ColumnDescriptor.defStr) (List.mem_of_getElem? at_c)
    rw [defs] at mem
    simpa using mem

/-- The line of a note with a quote arrives as intended. -/
theorem plainNote_substitution : ∃ t csv,
    filesRun (notesDdl "0\n") "\"it's 6\",\"5\"\n".toList = .ok t ∧ t.dumpToFile = .ok csv ∧
    List.Forall₂ (fun line (x : Record) =>
      nullSubst line = List.intercalate [','] (t.colDes.map fun c => intended t c (x.data.getD c [])) ↔
        ∀ c ∈ t.colDes, NullSafe t c (x.data.getD c []))
      (getlines csv) ((slots t.rows t.rowHeap).filterMap id) := by
  obtain ⟨t, run, ld, _⟩ := notesSeen_loaded (show notesSeen "0\n" none "\"it's 6\",\"5\"\n".toList
    [some (noteRow "it's 6")] = true by decide +kernel)
  obtain ⟨csv, dump, lines⟩ := substitution_iff ld (.refl t.rows)
  exact ⟨t, csv, run, dump, lines⟩

/-- A note that ends with a quote and the marker is cut. -/
theorem markerTail_cut : ¬ ∀ (hashCombine : UInt64 → Str → UInt64) (t : Table) (rows : List (Option RowPtr)),
    Loaded hashCombine t → rows.Perm t.rows → ∃ csv, Table.dumpToFile { t with rows } = .ok csv ∧
    List.Forall₂ (fun line (x : Record) =>
      nullSubst line = List.intercalate [','] (t.colDes.map fun c => intended t c (x.data.getD c [])))
      (getlines csv) ((slots rows t.rowHeap).filterMap id) := by
  intro holds
  obtain ⟨t, _, ld, cols, defs, rows⟩ := notesSeen_loaded (show notesSeen "0\n" none
    "\"a'_NUll_&\",\"5\"\n".toList [some (noteRow "a'_NUll_&")] = true by decide +kernel)
  have same := (ld.forall_lines (.refl _)).mp (holds _ t t.rows ld (.refl _)) (noteRow "a'_NUll_&") (by
    rw [rows]
    exact List.mem_cons_self)
  simp only [Table.line, Table.written, intended, notes_bare defs, cols] at same
  revert same
  decide +kernel

end TdsqlMerge.Pusher
