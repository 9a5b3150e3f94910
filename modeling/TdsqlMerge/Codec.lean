import TdsqlMerge.Splitter.RowParser
import TdsqlMerge.Store.Fields

/-!
# Rows through a `.dat` file

The splitter writes rows with `RowParser.parseOneRow`, the loader reads them with
`DATParser::parseData`. The writer escapes quotes only, while the reader takes every backslash for an
escape and every line break for the end of a row. `codec_iff` states for which rows reading undoes
writing: those of at least two cells without backslash, line break or a string that looks like NULL.
-/

namespace TdsqlMerge
open Lib Store Splitter

/-! ### Writing then reading a cell -/

/-- The cell the loader should see. -/
def cellOf : Option Str → Str
  | none => nullMarker
  | some s => s

/-- A cell without backslash and line break, which does not look like NULL. -/
def PlainCell (cell : Option Str) : Prop :=
  ∀ s, cell = some s → '\\' ∉ s ∧ '\n' ∉ s ∧ s ≠ nullMarker

/-- A text without backslashes is escaped into the text of a field. -/
lemma fieldText_escape {s : Str} (plain : '\\' ∉ s) : FieldText (escape s) s := by
  induction s with
  | nil => exact .nil
  | cons c s ih =>
    rw [List.mem_cons, not_or] at plain
    rw [escape_cons]
    split
    · rename_i e
      rw [e]
      exact .escaped (ih plain.2)
    · rename_i quote
      exact .plain (Ne.symm plain.1) quote (ih plain.2)

/-- A cell without backslashes is written as the text of its field. -/
lemma fieldText_cell {cell : Option Str} (plain : ∀ s, cell = some s → '\\' ∉ s) :
    FieldText (cellText cell) (cellOf cell) := by
  cases cell with
  | none => exact .self (by decide)
  | some s => exact fieldText_escape (plain s rfl)

/-- Cells without backslashes are written as the texts of their fields. -/
lemma fieldsText_cells {cells : List (Option Str)} (ne : cells ≠ [])
    (plain : ∀ s, some s ∈ cells → '\\' ∉ s) : FieldsText (cellsText cells) (cells.map cellOf) := by
  induction cells with
  | nil => exact absurd rfl ne
  | cons cell cells ih =>
    have here := @fieldText_cell cell fun s e => plain s (by rw [e]; exact List.mem_cons_self)
    cases cells with
    | nil => exact .last here
    | cons next cells =>
      exact .cons here (ih (List.cons_ne_nil next cells) fun s mem => plain s (List.mem_cons_of_mem _ mem))

/-- A character other than a backslash is read as it is. -/
lemma readField_escape_cons {c : Char} {s rest : Str} (bs : c ≠ '\\') :
    readField (escape (c :: s) ++ '"' :: rest) = c :: readField (escape s ++ '"' :: rest) := by
  rw [escape_cons]
  split
  · rename_i quote
    rw [quote]
    rfl
  · rename_i quote
    rw [List.append_assoc, List.singleton_append, readField.eq_def]
    split <;> simp_all

/-- A field is only read back if it has no backslash: after a backslash the reader lags behind by some
    number `m` of backslashes and never makes up for it. -/
lemma readField_escape {s rest : Str} {m : Nat}
    (e : readField (escape s ++ '"' :: rest) = List.replicate m '\\' ++ s) :
    m = 0 ∧ '\\' ∉ s := by
  induction size : s.length using Nat.strong_induction_on generalizing s m with
  | _ n ih =>
    match s with
    | [] =>
      have none : [] = List.replicate m '\\' ++ [] := e
      rw [List.append_nil, eq_comm, List.replicate_eq_nil_iff] at none
      exact ⟨none, List.not_mem_nil⟩
    | c :: s =>
      by_cases bs : c = '\\'
      · subst bs
        -- a backslash at the end escapes the closing quote
        match s with
        | [] =>
          have head : '"' :: readField rest = List.replicate m '\\' ++ '\\' :: [] := e
          rw [replicate_append_self, List.cons.injEq] at head
          exact absurd head.1 (by decide)
        | d :: s =>
          by_cases bs : d = '\\'
          -- two backslashes are read as one, so the reader lags behind by one more
          · subst bs
            have tail : '\\' :: readField (escape s ++ '"' :: rest) =
                List.replicate m '\\' ++ '\\' :: '\\' :: s := e
            rw [replicate_append_self, List.cons.injEq, replicate_append_self, ← List.cons_append,
              ← List.replicate_succ] at tail
            have := (ih s.length (by rw [← size, List.length_cons, List.length_cons]; omega) tail.2 rfl).1
            omega
          · by_cases quote : d = '"'
            -- before a quote there are three bytes of which the reader takes the first two
            · subst quote
              have short : ['\\'] = List.replicate m '\\' ++ '\\' :: '"' :: s := e
              have len := congrArg List.length short
              simp only [List.length_append, List.length_cons, List.length_nil,
                List.length_replicate] at len
              omega
            · have text : escape ('\\' :: d :: s) = '\\' :: d :: escape s := by
                rw [escape_cons, escape_cons, if_neg (by decide), if_neg quote]
                rfl
              rw [text] at e
              have head : d :: readField (escape s ++ '"' :: rest) =
                  List.replicate m '\\' ++ '\\' :: d :: s := e
              rw [replicate_append_self, List.cons.injEq] at head
              exact absurd head.1 bs
      · obtain ⟨zero, _, tail⟩ := cons_eq_replicate_append bs ((readField_escape_cons bs).symm.trans e)
        have plain := (ih s.length (by rw [← size, List.length_cons]; omega)
          (show readField (escape s ++ '"' :: rest) = List.replicate 0 '\\' ++ s from tail) rfl).2
        refine ⟨zero, ?_⟩
        rw [List.mem_cons, not_or]
        exact ⟨Ne.symm bs, plain⟩

/-! ### A row -/

/-- The text of a row starts with its first cell. -/
lemma cellsText_cons {cell : Option Str} {cells : List (Option Str)} :
    ∃ rest, cellsText (cell :: cells) = cellText cell ++ '"' :: rest ∧
      (cells ≠ [] → rest = ',' :: '"' :: cellsText cells) := by
  cases cells with
  | nil => exact ⟨[], rfl, fun ne => absurd rfl ne⟩
  | cons next cells => exact ⟨_, rfl, fun _ => rfl⟩

section
variable {cell : Option Str} {cells : List (Option Str)} {insPos : List Nat} {n k q : Nat} {vec vec' : List Str}

/-- If the first cell is read back as it was, it has no backslash. -/
lemma parseLoop_first (run : parseLoop insPos n (cellsText (cell :: cells)) k vec = .ok vec')
    (nodup : insPos.Nodup) (at_k : insPos[k]? = some q) (at_q : vec[q]? = some [])
    (back : vec'[q]? = some (cellOf cell)) : ∀ s, cell = some s → '\\' ∉ s := by
  obtain ⟨rest, text, _⟩ := @cellsText_cons cell cells
  have here := parseLoop_here run nodup at_k at_q
  rw [back, text, List.nil_append] at here
  rintro s rfl
  exact (readField_escape (m := 0) (Option.some.inj here).symm).2

/-- After its first cell was read, the loop goes on with the others. -/
lemma parseLoop_tail (run : parseLoop insPos n (cellsText (cell :: cells)) k vec = .ok vec')
    (plain : ∀ s, cell = some s → '\\' ∉ s) (ne : cells ≠ []) (at_k : insPos[k]? = some q)
    (at_q : vec[q]? = some []) (more : k + 1 < insPos.length)
    (empty : ∀ (i p : Nat), k ≤ i → insPos[i]? = some p → vec[p]? = some []) :
    parseLoop insPos n (cellsText cells) (k + 1) (vec.set q (cellOf cell)) = .ok vec' := by
  obtain ⟨rest, text, next⟩ := @cellsText_cons cell cells
  have at_next := List.getElem?_eq_getElem more
  have lt_next := (List.getElem?_eq_some_iff.mp (empty (k + 1) _ (by omega) at_next)).1
  rwa [text, parseLoop_field (fieldText_cell plain) at_k at_q, List.nil_append, next ne,
    parseLoop_close at_next (by rwa [List.length_set])] at run

/-- If the fields are read back as they were, no cell has a backslash. -/
lemma parseLoop_plain (run : parseLoop insPos n (cellsText cells) k vec = .ok vec') (nodup : insPos.Nodup)
    (len : k + cells.length = insPos.length)
    (empty : ∀ (i p : Nat), k ≤ i → insPos[i]? = some p → vec[p]? = some [])
    (back : ∀ (i p : Nat) (cell : Option Str), cells[i]? = some cell → insPos[k + i]? = some p →
      vec'[p]? = some (cellOf cell)) : ∀ s, some s ∈ cells → '\\' ∉ s := by
  induction cells generalizing k vec with
  | nil => simp
  | cons cell cells ih =>
    rw [List.length_cons] at len
    have lt_k : k < insPos.length := by omega
    have at_k := List.getElem?_eq_getElem lt_k
    have at_q := empty k _ le_rfl at_k
    have plain := parseLoop_first run nodup at_k at_q (back 0 _ cell rfl at_k)
    intro s mem
    rcases List.mem_cons.mp mem with e | mem
    · exact plain s e.symm
    · have ne : cells ≠ [] := List.ne_nil_of_mem mem
      have pos := List.length_pos_iff.mpr ne
      have run := parseLoop_tail run plain ne at_k at_q (by omega) empty
      refine ih run (by omega) (empty_next nodup at_k empty) ?_ s mem
      intro i p cell' at_i at_p'
      exact back (i + 1) p cell' at_i (by rw [← at_p']; congr 1; omega)

end

/-- Escaping adds no line break. -/
lemma break_mem_escape {s : Str} : '\n' ∈ escape s ↔ '\n' ∈ s := by
  induction s with
  | nil => rfl
  | cons c s ih =>
    rw [escape_cons, List.mem_append, ih, List.mem_cons]
    split
    · rename_i e
      simp [e]
    · simp

/-- A cell is written with a line break where it has one. -/
lemma break_mem_cell {cell : Option Str} :
    '\n' ∈ cellText cell ↔ ∃ s, cell = some s ∧ '\n' ∈ s := by
  cases cell with
  | none =>
    have no : '\n' ∉ nullMarker := by decide
    simp [cellText, no]
  | some s => simp [cellText, break_mem_escape]

/-- The line breaks in the text of a row are those of its cells. -/
lemma break_mem_cells {cells : List (Option Str)} :
    '\n' ∈ cellsText cells ↔ ∃ s, some s ∈ cells ∧ '\n' ∈ s := by
  induction cells with
  | nil => simp [cellsText]
  | cons cell cells ih =>
    cases cells with
    | nil =>
      rw [cellsText, List.mem_append, break_mem_cell]
      simp [eq_comm]
    | cons next cells =>
      have text : cellsText (cell :: next :: cells) =
          cellText cell ++ '"' :: ',' :: '"' :: cellsText (next :: cells) := rfl
      rw [text, List.mem_append, break_mem_cell]
      simp only [List.mem_cons, ih]
      constructor
      · rintro (⟨s, e, mem⟩ | h | h | h | ⟨s, mem, nb⟩)
        · exact ⟨s, Or.inl e.symm, mem⟩
        · cases h
        · cases h
        · cases h
        · exact ⟨s, Or.inr mem, nb⟩
      · rintro ⟨s, e | mem, nb⟩
        · exact Or.inl ⟨s, e.symm, nb⟩
        · exact Or.inr (Or.inr (Or.inr (Or.inr ⟨s, mem, nb⟩)))

/-! ### A file -/

/-- The text of rows, one line for each. -/
lemma parseRowsEvent_lines {rows : List (List (Option Str))} (ne : ∀ cells ∈ rows, cells ≠ []) :
    parseRowsEvent .write (rows.map fullImage) [] =
      some (unlines (rows.map fun cells => '"' :: cellsText cells)) := by
  rw [parseRowsEvent_full ne, unlines, List.flatMap_map, List.nil_append]

/-- If there are as many lines as rows, no row contains a line break. -/
lemma no_breaks {ls : List Str} (len : (getlines (unlines ls)).length ≤ ls.length) :
    ∀ l ∈ ls, '\n' ∉ l := by
  have more : ∀ ls : List Str, ls.length ≤ (getlines (unlines ls)).length := by
    intro ls
    induction ls with
    | nil => exact Nat.zero_le _
    | cons l ls ih =>
      rw [unlines_cons, getlines_length_append, List.length_cons]
      omega
  induction ls with
  | nil => simp
  | cons l ls ih =>
    rw [unlines_cons, getlines_length_append, List.length_cons] at len
    have rest := more ls
    have zero : l.count '\n' = 0 := by omega
    intro x mem
    rcases List.mem_cons.mp mem with rfl | mem
    · exact List.count_eq_zero.mp zero
    · exact ih (by omega) x mem

/-- A row of the loader has the cells of a row of the splitter: each logical column has its string, the
    columns with NULL and no others have the marker, and every other physical column is empty. -/
structure CellsBack (insPos : List Nat) (phys : Nat) (cells : List (Option Str)) (r : Row) : Prop where
  width : r.data.length = phys
  cell : ∀ (i p : Nat) (cell : Option Str), cells[i]? = some cell → insPos[i]? = some p →
    r.data[p]? = some (cellOf cell)
  marker : ∀ (i p : Nat) (cell : Option Str), cells[i]? = some cell → insPos[i]? = some p →
    (r.data[p]? = some nullMarker ↔ cell = none)
  other : ∀ p < phys, p ∉ insPos → r.data[p]? = some []

/-- `parseData` reads the text as exactly these rows, in order. -/
def ReadsBack (t : Table) (insPos : List Nat) (rows : List (List (Option Str))) (text : Str)
    (source startStamp : Nat) : Prop :=
  ∃ ps stamp t' rs, t.parseData text source startStamp = .ok (ps, stamp, t') ∧
    List.Forall₂ (fun p r => t'.row? p = some r) ps rs ∧
    List.Forall₂ (CellsBack insPos t.colPhy) rows rs

section
variable {t : Table} {insPos : List Nat} {rows : List (List (Option Str))} {source startStamp : Nat}

/-- The lines of rows without line breaks. -/
lemma getlines_rows (plain : ∀ cells ∈ rows, ∀ cell ∈ cells, PlainCell cell) :
    getlines (unlines (rows.map fun cells => '"' :: cellsText cells)) =
      rows.map fun cells => '"' :: cellsText cells := by
  apply getlines_unlines
  intro l mem
  obtain ⟨cells, row, rfl⟩ := List.mem_map.mp mem
  rw [List.mem_cons, not_or, break_mem_cells]
  refine ⟨by decide, ?_⟩
  rintro ⟨s, h, nb⟩
  exact (plain cells row (some s) h s rfl).2.1 nb

/-- Cells that are put at their places are there again. -/
lemma cellsBack_filled {cells : List (Option Str)} {r : Row} {phys : Nat} (nodup : insPos.Nodup)
    (range : ∀ p ∈ insPos, p < phys) (plain : ∀ cell ∈ cells, PlainCell cell)
    (data : r.data = fillCells insPos (cells.map cellOf) (List.replicate phys [])) :
    CellsBack insPos phys cells r := by
  have back : ∀ (i p : Nat) (cell : Option Str), cells[i]? = some cell → insPos[i]? = some p →
      r.data[p]? = some (cellOf cell) := by
    intro i p cell at_i at_p
    rw [data]
    exact fillCells_at nodup (by simpa using range) at_p (by rw [List.getElem?_map, at_i]; rfl)
  refine ⟨?_, back, ?_, ?_⟩
  · rw [data]
    simp
  · intro i p cell at_i at_p
    rw [back i p cell at_i at_p]
    cases cell with
    | none => simp [cellOf]
    | some s =>
      have ne := (plain (some s) (List.mem_of_getElem? at_i) s rfl).2.2
      simp [cellOf, ne]
  · intro p lt out
    rw [data, fillCells_other out, List.getElem?_replicate, if_pos lt]

/-- Plain rows are read back. -/
lemma readsBack_of_plain (pos : t.getPhyPosArray = .ok insPos) (nodup : insPos.Nodup)
    (range : ∀ p ∈ insPos, p < t.colPhy) (len : ∀ cells ∈ rows, cells.length = insPos.length)
    (two : rows = [] ∨ 2 ≤ insPos.length)
    (plain : ∀ cells ∈ rows, ∀ cell ∈ cells, PlainCell cell) :
    ReadsBack t insPos rows (unlines (rows.map fun cells => '"' :: cellsText cells)) source
      startStamp := by
  have two' : ∀ cells ∈ rows, 2 ≤ insPos.length := by
    intro cells mem
    rcases two with rfl | two
    · cases mem
    · exact two
  have parse : (rows.map fun cells => '"' :: cellsText cells).mapM (fun line =>
      parseEscaped (List.replicate t.colPhy []) line insPos.length insPos) =
      (.ok (rows.map fun cells => fillCells insPos (cells.map cellOf) (List.replicate t.colPhy [])) :
        Res (List (List Str))) := by
    rw [mapM_eq_ok, List.forall₂_map_left_iff, List.forall₂_map_right_iff, List.forall₂_same]
    intro cells mem
    have wide := len cells mem
    have ne : cells ≠ [] := by
      rintro rfl
      have := two' [] mem
      rw [← wide] at this
      cases this
    exact parseEscaped_ok ⟨_, rfl, fieldsText_cells ne fun s h => (plain cells mem _ h s rfl).1⟩
      (by rw [List.length_map, wide]) (two' cells mem) nodup range
  have run := @parseData_eq t source startStamp
    (unlines (rows.map fun cells => '"' :: cellsText cells)) _ pos
  rw [getlines_rows plain, parse, ok_bind] at run
  have fresh := @fresh_rows t (rowsFrom source startStamp
    (rows.map fun cells => fillCells insPos (cells.map cellOf) (List.replicate t.colPhy [])))
    (fun _ => True) (fun _ _ => trivial)
  refine ⟨_, _, _, _, run, fresh.imp fun _ _ h => h.1, ?_⟩
  rw [List.forall₂_iff_get]
  refine ⟨by simp [rowsFrom], ?_⟩
  intro k hk hk'
  apply cellsBack_filled nodup range (plain _ (List.get_mem rows ⟨k, hk⟩))
  simp [rowsFrom, Row.new]

/-- The line of a row that is read back is parsed, and it has no line break. -/
lemma ReadsBack.row {cells : List (Option Str)} (pos : t.getPhyPosArray = .ok insPos)
    (back : ReadsBack t insPos rows (unlines (rows.map fun cells => '"' :: cellsText cells)) source startStamp)
    (mem : cells ∈ rows) :
    '\n' ∉ cellsText cells ∧ ∃ r, parseEscaped (List.replicate t.colPhy []) ('"' :: cellsText cells)
      insPos.length insPos = (.ok r.data : Res (List Str)) ∧ CellsBack insPos t.colPhy cells r := by
  obtain ⟨ps, stamp, t', rs, run, pointers, back⟩ := back
  rw [parseData_eq pos, bind_ok] at run
  obtain ⟨datas, parse, e⟩ := run
  cases e
  have fresh := @fresh_rows t (rowsFrom source startStamp datas) (fun _ => True)
    (fun _ _ => trivial)
  have rows_eq : rs = rowsFrom source startStamp datas :=
    forall₂_functional pointers (fresh.imp fun _ _ h => h.1)
  rw [rows_eq] at back
  have parses := mapM_eq_ok.mp parse
  -- there are as many lines as rows, so the lines are the rows
  have count : (getlines (unlines (rows.map fun cells => '"' :: cellsText cells))).length ≤
      (rows.map fun cells => '"' :: cellsText cells).length := by
    rw [List.length_map, parses.length_eq, back.length_eq, rowsFrom, List.length_mapIdx]
  have lineBreaks := no_breaks count
  rw [getlines_unlines lineBreaks, List.forall₂_map_left_iff] at parses
  constructor
  · have line := lineBreaks _ (List.mem_map_of_mem mem)
    rw [List.mem_cons, not_or] at line
    exact line.2
  · obtain ⟨k, hk, rfl⟩ := List.mem_iff_getElem.mp mem
    have lt_data : k < datas.length := by rw [← parses.length_eq]; exact hk
    have lt_rows : k < (rowsFrom source startStamp datas).length := by
      rw [← back.length_eq]
      exact hk
    have data : ((rowsFrom source startStamp datas)[k]).data = datas[k] := by simp [rowsFrom, Row.new]
    refine ⟨(rowsFrom source startStamp datas)[k], ?_, back.get hk lt_rows⟩
    rw [data]
    exact parses.get hk lt_data

/-- A row that its line was parsed to has plain cells. -/
lemma CellsBack.plain {cells : List (Option Str)} {r : Row} (cb : CellsBack insPos t.colPhy cells r)
    (nodup : insPos.Nodup) (range : ∀ p ∈ insPos, p < t.colPhy) (wide : cells.length = insPos.length)
    (line : '\n' ∉ cellsText cells)
    (parse : parseEscaped (List.replicate t.colPhy []) ('"' :: cellsText cells) insPos.length insPos =
      (.ok r.data : Res (List Str))) : ∀ cell ∈ cells, PlainCell cell := by
  have backslash : ∀ s, some s ∈ cells → '\\' ∉ s := by
    have loop : parseLoop insPos insPos.length (cellsText cells) 0 (List.replicate t.colPhy []) =
        .ok r.data := by
      rw [parseEscaped] at parse
      split at parse
      · cases parse
      · exact parse
    apply parseLoop_plain loop nodup (by omega)
    · intro i p _ at_i
      rw [List.getElem?_replicate, if_pos (range p (List.mem_of_getElem? at_i))]
    · intro i p cell at_i at_p
      rw [Nat.zero_add] at at_p
      exact cb.cell i p cell at_i at_p
  rintro cell h s rfl
  refine ⟨backslash s h, ?_, ?_⟩
  · exact fun nb => line (break_mem_cells.mpr ⟨s, h, nb⟩)
  · rintro rfl
    obtain ⟨i, lt_i, at_i⟩ := List.mem_iff_getElem.mp h
    have at_i' : cells[i]? = some (some nullMarker) := by rw [List.getElem?_eq_getElem lt_i, at_i]
    have at_p := List.getElem?_eq_getElem (lt_of_lt_of_eq lt_i wide)
    have isNull := (cb.marker i _ _ at_i' at_p).mp (cb.cell i _ _ at_i' at_p)
    cases isNull

/-- Rows that are read back are plain. -/
lemma plain_of_readsBack (pos : t.getPhyPosArray = .ok insPos) (nodup : insPos.Nodup)
    (range : ∀ p ∈ insPos, p < t.colPhy) (len : ∀ cells ∈ rows, cells.length = insPos.length)
    (one : 1 ≤ insPos.length)
    (back : ReadsBack t insPos rows (unlines (rows.map fun cells => '"' :: cellsText cells)) source
      startStamp) :
    (rows = [] ∨ 2 ≤ insPos.length) ∧ ∀ cells ∈ rows, ∀ cell ∈ cells, PlainCell cell := by
  constructor
  · cases rows with
    | nil => exact Or.inl rfl
    | cons cells rows =>
      right
      obtain ⟨-, r, parse, -⟩ := back.row pos List.mem_cons_self
      by_contra few
      rw [parseEscaped, if_pos (by omega)] at parse
      cases parse
  · intro cells mem
    obtain ⟨line, r, parse, cb⟩ := back.row pos mem
    exact cb.plain nodup range (len cells mem) line parse

/-- Decoding undoes encoding exactly for rows of at least two cells, none of which has a backslash or a line
    break or is a string that looks like NULL: the text that a write event gets for such rows is read back
    as these rows, whatever the physical order `insPos` of the columns, and the text of any other rows is
    not. -/
theorem codec_iff (pos : t.getPhyPosArray = .ok insPos) (nodup : insPos.Nodup)
    (range : ∀ p ∈ insPos, p < t.colPhy) (one : 1 ≤ insPos.length)
    (len : ∀ cells ∈ rows, cells.length = insPos.length) :
    (∃ text, parseRowsEvent .write (rows.map fullImage) [] = some text ∧
      ReadsBack t insPos rows text source startStamp) ↔
    (rows = [] ∨ 2 ≤ insPos.length) ∧ ∀ cells ∈ rows, ∀ cell ∈ cells, PlainCell cell := by
  have ne : ∀ cells ∈ rows, cells ≠ [] := by
    rintro cells mem rfl
    have := len [] mem
    rw [← this] at one
    cases one
  rw [parseRowsEvent_lines ne]
  constructor
  · rintro ⟨text, e, back⟩
    cases e
    exact plain_of_readsBack pos nodup range len one back
  · rintro ⟨two, plain⟩
    exact ⟨_, rfl, readsBack_of_plain pos nodup range len two plain⟩

end

/-- A table with two columns, the first of which is the second physical one. -/
def twoColumns : Table :=
  { Table.new with
    colPhy := 2
    colDes := [1, 0]
    colHeap := [{ name := "b".toList, type := [], mapping := 0, defStr := none },
      { name := "a".toList, type := [], mapping := 1, defStr := none }] }

/-- A row with a quote and a NULL is read back. -/
theorem plain_row_reads_back :
    ∃ text, parseRowsEvent .write ([[some "x\"y".toList, none]].map fullImage) [] = some text ∧
      ReadsBack twoColumns [1, 0] [[some "x\"y".toList, none]] text 0 0 :=
  (codec_iff rfl (by decide) (by decide) (by decide) (by decide)).mpr
    ⟨Or.inr (by decide), by
      intro cells row cell mem s e
      obtain rfl : cells = [some "x\"y".toList, none] := List.mem_singleton.mp row
      subst e
      have here : s = "x\"y".toList := by simpa using mem
      subst here
      decide⟩

/-- The row `a\`, `b` is not read back: the backslash takes the closing quote of its cell for a character,
    and the next cell is lost. -/
theorem backslash_row_lost :
    ¬ ∃ text, parseRowsEvent .write ([[some "a\\".toList, some "b".toList]].map fullImage) [] = some text ∧
      ReadsBack twoColumns [1, 0] [[some "a\\".toList, some "b".toList]] text 0 0 := by
  rintro ⟨text, write, ps, stamp, t', rs, read, pointers, back⟩
  have seen : (parseRowsEvent .write ([[some "a\\".toList, some "b".toList]].map fullImage) []).map
      (fun text => (twoColumns.parseData text 0 0).toOption.map fun s =>
        s.1.map fun p => (s.2.2.row? p).map Row.data) =
      some (some [some [[], "a\",".toList]]) := by decide +kernel
  rw [write] at seen
  have seen' := Option.some.inj seen
  dsimp only at seen'
  rw [read] at seen'
  have rows := Option.some.inj seen'
  dsimp only at rows
  cases pointers with
  | nil => cases rows
  | cons hp rest =>
    cases back with
    | cons cb _ =>
      rw [List.map_cons, hp, List.cons.injEq] at rows
      have data := Option.some.inj rows.1
      have cell := cb.cell 0 1 _ rfl rfl
      rw [data] at cell
      revert cell
      decide

end TdsqlMerge
