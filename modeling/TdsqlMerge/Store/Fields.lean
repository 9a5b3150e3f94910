import TdsqlMerge.Store.Batch
import TdsqlMerge.Store.DatParser

/-!
# What the lines of a `.dat` file say

`FieldText text field` and `LineText line fields` relate a line to the fields it means: quoted fields
separated by commas, in which a backslash makes the next byte stand for itself. `parseEscaped_ok`
shows that `parseEscaped` reads the fields of such a line into the physical columns of the table, and
`parseData_spec` that a file of such lines becomes one fresh row for each line, with running stamps.
-/

namespace TdsqlMerge.Store
open Lib

/-- The text of a field between its quotes. -/
inductive FieldText : Str → Str → Prop where
  | nil : FieldText [] []
  | plain {c text field} :
    c ≠ '\\' → c ≠ '"' → FieldText text field → FieldText (c :: text) (c :: field)
  | escaped {c text field} :
    FieldText text field → FieldText ('\\' :: c :: text) (c :: field)

/-- The text of a line after its first quote. -/
inductive FieldsText : Str → List Str → Prop where
  | last {text field} : FieldText text field → FieldsText (text ++ ['"']) [field]
  | cons {text field rest fields} :
    FieldText text field → FieldsText rest fields →
    FieldsText (text ++ '"' :: ',' :: '"' :: rest) (field :: fields)

/-- The text of a line. -/
def LineText (line : Str) (fields : List Str) : Prop :=
  ∃ rest, line = '"' :: rest ∧ FieldsText rest fields

/-- A text without quotes and backslashes means itself. -/
lemma FieldText.self {field : Str} (plain : ∀ c ∈ field, c ≠ '\\' ∧ c ≠ '"') :
    FieldText field field := by
  induction field with
  | nil => exact .nil
  | cons c field ih =>
    obtain ⟨bs, quote⟩ := plain c List.mem_cons_self
    exact .plain bs quote (ih fun x mem => plain x (List.mem_cons_of_mem c mem))

/-- The text of a line has a field. -/
lemma FieldsText.ne_nil {text : Str} {fields : List Str} (h : FieldsText text fields) :
    fields ≠ [] := by
  cases h <;> simp

/-- The cells of a row after its fields were put into the physical columns `insPos`. -/
def fillCells : List Nat → List Str → List Str → List Str
  | p :: insPos, field :: fields, vec => fillCells insPos fields (vec.set p field)
  | _, _, vec => vec

/-- Filling cells keeps their number. -/
@[simp] lemma fillCells_length {insPos : List Nat} {fields vec : List Str} :
    (fillCells insPos fields vec).length = vec.length := by
  induction insPos generalizing fields vec with
  | nil => rfl
  | cons p insPos ih =>
    cases fields with
    | nil => rfl
    | cons field fields => rw [fillCells, ih, List.length_set]

/-- A column that gets no field keeps its cell. -/
lemma fillCells_other {insPos : List Nat} {fields vec : List Str} {q : Nat} (out : q ∉ insPos) :
    (fillCells insPos fields vec)[q]? = vec[q]? := by
  induction insPos generalizing fields vec with
  | nil => rfl
  | cons p insPos ih =>
    cases fields with
    | nil => rfl
    | cons field fields =>
      rw [List.mem_cons, not_or] at out
      rw [fillCells, ih out.2, List.getElem?_set_ne (Ne.symm out.1)]

/-- The column at position `i` gets field `i`. -/
lemma fillCells_at {insPos : List Nat} {fields vec : List Str} {i q : Nat} {field : Str}
    (nodup : insPos.Nodup) (lt : ∀ p ∈ insPos, p < vec.length) (at_i : insPos[i]? = some q)
    (field_i : fields[i]? = some field) : (fillCells insPos fields vec)[q]? = some field := by
  induction insPos generalizing fields vec i with
  | nil => cases at_i
  | cons p insPos ih =>
    obtain ⟨notin, nodup⟩ := List.nodup_cons.mp nodup
    cases fields with
    | nil => cases field_i
    | cons f fields =>
      cases i with
      | zero =>
        cases at_i
        cases field_i
        rw [fillCells, fillCells_other notin, List.getElem?_set_self (lt q List.mem_cons_self)]
      | succ i =>
        rw [fillCells]
        apply ih nodup _ at_i field_i
        intro x mem
        rw [List.length_set]
        exact lt x (List.mem_cons_of_mem p mem)

/-- A character is appended to a cell that is there. -/
lemma appendCell_ok {vec : List Str} {insPos : List Nat} {k p : Nat} {cell : Str} {c : Char}
    (at_k : insPos[k]? = some p) (at_p : vec[p]? = some cell) :
    appendCell vec insPos k c = .ok (vec.set p (cell ++ [c])) := by
  simp [appendCell, at_k, at_p]

/-- The bytes `parseEscaped` appends to the current cell. -/
def readField : Str → Str
  | [] => []
  | '\\' :: [] => [Char.ofNat 0]
  | '\\' :: c :: rest => c :: readField rest
  | '"' :: _ => []
  | c :: rest => c :: readField rest

/-- One appended byte. -/
lemma appendCell_inv {vec vec' : List Str} {insPos : List Nat} {k : Nat} {c : Char}
    (run : appendCell vec insPos k c = .ok vec') :
    ∃ p cell, insPos[k]? = some p ∧ vec[p]? = some cell ∧ vec' = vec.set p (cell ++ [c]) := by
  simp only [appendCell, bind_ok, deref_eq_ok] at run
  obtain ⟨p, at_k, cell, at_p, e⟩ := run
  cases e
  exact ⟨p, cell, at_k, at_p, rfl⟩

/-- What one iteration of the loop of `parseEscaped` did: it ended, appended a byte to the current
    cell, or went on to the next cell. -/
lemma parseLoop_inv {text : Str} {insPos : List Nat} {n k : Nat} {vec vec' : List Str}
    (run : parseLoop insPos n text k vec = .ok vec') :
    (readField text = [] ∧ vec' = vec) ∨
    (∃ c rest vec1, readField text = c :: readField rest ∧ rest <:+ text ∧ rest.length < text.length ∧
      appendCell vec insPos k c = .ok vec1 ∧ parseLoop insPos n rest k vec1 = .ok vec') ∨
    ∃ rest, readField text = [] ∧ rest <:+ text ∧ rest.length < text.length ∧
      parseLoop insPos n rest (k + 1) vec = .ok vec' := by
  rw [parseLoop.eq_def] at run
  split at run
  · cases run
    exact Or.inl ⟨rfl, rfl⟩
  · exact Or.inr (Or.inl ⟨_, [], vec', rfl, List.nil_suffix, by simp, run, rfl⟩)
  · rw [bind_ok] at run
    obtain ⟨vec1, step, run⟩ := run
    exact Or.inr (Or.inl ⟨_, _, vec1, rfl, List.suffix_append [_, _] _,
      by simp only [List.length_cons]; omega, step, run⟩)
  · rename_i rest
    -- the next cell was there, if there is one
    have passed {next : Res (List Str)} (run : (if k + 1 < n then do
        let pos ← deref insPos[k + 1]?
        let _ ← deref vec[pos]?
        next
      else next) = .ok vec') : next = .ok vec' := by
      split at run
      · simp only [bind_ok] at run
        obtain ⟨_, _, _, _, run⟩ := run
        exact run
      · exact run
    -- after a quote the loop skips `,"`, or the line ends
    have next : (∃ a b tail, rest = a :: b :: tail ∧ parseLoop insPos n tail (k + 1) vec = .ok vec') ∨
        vec' = vec := by
      rcases rest with _ | ⟨a, _ | ⟨b, tail⟩⟩
      · cases passed run
        exact .inr rfl
      · cases passed run
        exact .inr rfl
      · exact .inl ⟨a, b, tail, rfl, passed run⟩
    rcases next with ⟨a, b, tail, rfl, next⟩ | rfl
    · exact Or.inr (Or.inr ⟨tail, rfl, List.suffix_append [_, _, _] _,
        by simp only [List.length_cons]; omega, next⟩)
    · exact Or.inl ⟨rfl, rfl⟩
  · rename_i c rest no_end bs quote
    rw [bind_ok] at run
    obtain ⟨vec1, step, run⟩ := run
    refine Or.inr (Or.inl ⟨c, rest, vec1, ?_, List.suffix_cons c rest, by simp, step, run⟩)
    rw [readField.eq_def]
    split <;> simp_all

/-- A parse leaves the columns of earlier fields alone. -/
lemma parseLoop_other {text : Str} {insPos : List Nat} {n k q : Nat} {vec vec' : List Str}
    (run : parseLoop insPos n text k vec = .ok vec') (out : ∀ i, k ≤ i → insPos[i]? ≠ some q) :
    vec'[q]? = vec[q]? := by
  induction size : text.length using Nat.strong_induction_on generalizing text k vec with
  | _ _ ih =>
    rcases parseLoop_inv run with ⟨_, rfl⟩ | ⟨c, rest, vec1, _, _, lt, step, run⟩ |
      ⟨rest, _, _, lt, run⟩
    · rfl
    · obtain ⟨p, cell, at_k, _, rfl⟩ := appendCell_inv step
      rw [ih rest.length (by omega) run out rfl]
      apply List.getElem?_set_ne
      rintro rfl
      exact out k le_rfl at_k
    · exact ih rest.length (by omega) run (fun i le => out i (by omega)) rfl

/-- A parse appends the current field to its cell. -/
lemma parseLoop_here {text : Str} {insPos : List Nat} {n k p : Nat} {vec vec' : List Str} {cell : Str}
    (run : parseLoop insPos n text k vec = .ok vec') (nodup : insPos.Nodup)
    (at_k : insPos[k]? = some p) (at_p : vec[p]? = some cell) :
    vec'[p]? = some (cell ++ readField text) := by
  have lt_k := (List.getElem?_eq_some_iff.mp at_k).1
  induction size : text.length using Nat.strong_induction_on generalizing text cell vec with
  | _ _ ih =>
    rcases parseLoop_inv run with ⟨none, rfl⟩ | ⟨c, rest, vec1, read, _, lt, step, run⟩ |
      ⟨rest, none, _, lt, run⟩
    · rw [none, List.append_nil, at_p]
    · have lt_p := (List.getElem?_eq_some_iff.mp at_p).1
      rw [appendCell_ok at_k at_p] at step
      cases step
      rw [ih rest.length (by omega) run (List.getElem?_set_self lt_p) rfl, read, List.append_assoc,
        List.singleton_append]
    · rw [none, List.append_nil, ← at_p]
      apply parseLoop_other run
      intro i le at_i
      have same := (List.getElem?_inj lt_k nodup).mp (at_k.trans at_i.symm)
      omega

/-- The loop of `parseEscaped` appends the text of a field to the current cell. -/
lemma parseLoop_field {text field rest : Str} {insPos : List Nat} {n k p : Nat} {vec : List Str}
    {cell : Str} (ft : FieldText text field) (at_k : insPos[k]? = some p)
    (at_p : vec[p]? = some cell) :
    parseLoop insPos n (text ++ rest) k vec = parseLoop insPos n rest k (vec.set p (cell ++ field)) := by
  have lt : p < vec.length := (List.getElem?_eq_some_iff.mp at_p).1
  induction ft generalizing vec cell with
  | nil =>
    obtain ⟨_, e⟩ := List.getElem?_eq_some_iff.mp at_p
    rw [List.append_nil, ← e, List.set_getElem_self, List.nil_append]
  | @plain c text field bs quote _ ih =>
    have set_p : (vec.set p (cell ++ [c]))[p]? = some (cell ++ [c]) := List.getElem?_set_self lt
    rw [List.cons_append, parseLoop.eq_def]
    split
    · simp_all
    · simp_all
    · simp_all
    · simp_all
    · rename_i e
      cases e
      rw [appendCell_ok at_k at_p, ok_bind, ih set_p (by simpa using lt), List.set_set]
      simp
  | @escaped c text field _ ih =>
    have set_p : (vec.set p (cell ++ [c]))[p]? = some (cell ++ [c]) := List.getElem?_set_self lt
    rw [List.cons_append, List.cons_append, parseLoop, appendCell_ok at_k at_p, ok_bind,
      ih set_p (by simpa using lt), List.set_set]
    simp

/-- Between two fields the loop of `parseEscaped` goes on to the next cell. -/
lemma parseLoop_close {rest : Str} {insPos : List Nat} {n k q : Nat} {vec : List Str} {c d : Char}
    (at_next : insPos[k + 1]? = some q) (lt : q < vec.length) :
    parseLoop insPos n ('"' :: c :: d :: rest) k vec = parseLoop insPos n rest (k + 1) vec := by
  rw [parseLoop, at_next, deref_some, ok_bind, List.getElem?_eq_getElem lt, deref_some, ok_bind]
  split <;> rfl

/-- After a field the cells of the later ones are still empty. -/
lemma empty_next {insPos : List Nat} {k p : Nat} {vec : List Str} {field : Str}
    (nodup : insPos.Nodup) (at_k : insPos[k]? = some p)
    (empty : ∀ (i q : Nat), k ≤ i → insPos[i]? = some q → vec[q]? = some []) :
    ∀ (i q : Nat), k + 1 ≤ i → insPos[i]? = some q → (vec.set p field)[q]? = some [] := by
  intro i q le at_i
  have ne : p ≠ q := by
    rintro rfl
    have lt := (List.getElem?_eq_some_iff.mp at_k).1
    have := (List.getElem?_inj lt nodup).mp (at_k.trans at_i.symm)
    omega
  rw [List.getElem?_set_ne ne]
  exact empty i q (by omega) at_i

/-- The loop of `parseEscaped` reads the fields of a line from the current one on. -/
lemma parseLoop_fields {text : Str} {fields : List Str} {insPos : List Nat} {k : Nat}
    {vec : List Str} (ft : FieldsText text fields) (len : k + fields.length ≤ insPos.length)
    (nodup : insPos.Nodup) (lt : ∀ p ∈ insPos, p < vec.length)
    (empty : ∀ (i p : Nat), k ≤ i → insPos[i]? = some p → vec[p]? = some []) :
    parseLoop insPos insPos.length text k vec = .ok (fillCells (insPos.drop k) fields vec) := by
  induction ft generalizing k vec with
  | @last text field ft =>
    have ltk : k < insPos.length := by
      rw [List.length_singleton] at len
      omega
    have at_k := List.getElem?_eq_getElem ltk
    have at_p := empty k _ le_rfl at_k
    have close : ∀ vec' : List Str, vec'.length = vec.length →
        parseLoop insPos insPos.length ['"'] k vec' = .ok vec' := by
      intro vec' same
      rw [parseLoop]
      · split
        · rename_i next
          have lt_next := lt _ (List.getElem_mem next)
          rw [← same] at lt_next
          rw [List.getElem?_eq_getElem next, deref_some, ok_bind, List.getElem?_eq_getElem lt_next,
            deref_some, ok_bind]
        · rfl
      · simp
    rw [parseLoop_field ft at_k at_p, List.nil_append, close _ List.length_set,
      List.drop_eq_getElem_cons ltk, fillCells]
    cases insPos.drop (k + 1) <;> rfl
  | @cons text field rest fields ft more ih =>
    rw [List.length_cons] at len
    have ltk : k < insPos.length := by omega
    have at_k := List.getElem?_eq_getElem ltk
    have at_p := empty k _ le_rfl at_k
    have next : k + 1 < insPos.length := by
      have := List.length_pos_iff.mpr more.ne_nil
      omega
    have at_next := List.getElem?_eq_getElem next
    have lt_next : insPos[k + 1] < (vec.set insPos[k] field).length := by
      rw [List.length_set]
      exact lt _ (List.getElem_mem next)
    rw [parseLoop_field ft at_k at_p, List.nil_append, parseLoop_close at_next lt_next,
      ih (by omega), List.drop_eq_getElem_cons ltk, fillCells]
    · intro p mem
      rw [List.length_set]
      exact lt p mem
    · exact empty_next nodup at_k empty

/-- `parseEscaped` on a line with at most one field for each of at least two columns. -/
lemma parseEscaped_ok {line : Str} {fields : List Str} {insPos : List Nat} {width : Nat}
    (lt : LineText line fields) (len : fields.length ≤ insPos.length) (two : 2 ≤ insPos.length)
    (nodup : insPos.Nodup) (range : ∀ p ∈ insPos, p < width) :
    parseEscaped (List.replicate width []) line insPos.length insPos =
      .ok (fillCells insPos fields (List.replicate width [])) := by
  obtain ⟨rest, rfl, ft⟩ := lt
  rw [parseEscaped, if_neg (by omega), List.drop_one, List.tail_cons,
    parseLoop_fields ft (by omega) nodup (by simpa using range), List.drop_zero]
  intro i p _ at_i
  rw [List.getElem?_replicate, if_pos (range p (List.mem_of_getElem? at_i))]

/-- The row a line with these fields becomes. -/
def rowOf (cols : List Nat) (width source stamp : Nat) (fields : List Str) : Row :=
  .new (fillCells cols fields (List.replicate width [])) source stamp

/-- The rows of the lines of a file, with running stamps. -/
def rowsOf (cols : List Nat) (width source startStamp : Nat) (fss : List (List Str)) : List Row :=
  fss.mapIdx fun j fields => rowOf cols width source (startStamp + j) fields

/-- Rows with these cells and running stamps. -/
def rowsFrom (source startStamp : Nat) (datas : List (List Str)) : List Row :=
  datas.mapIdx fun j data => .new data source (startStamp + j)

section
variable {t : Table} {source startStamp : Nat} {fss : List (List Str)}

/-- The rows of a file are as wide as the table. -/
lemma rowsOf_wide {width : Nat} {cols : List Nat} :
    ∀ r ∈ rowsOf cols width source startStamp fss, r.data.length = width := by
  intro r mem
  obtain ⟨j, lt, e⟩ := List.mem_mapIdx.mp mem
  rw [← e]
  simp [rowOf, Row.new]

/-- `parseData` parses the lines one by one into fresh rows. -/
lemma parseData_eq {dat : Str} {insPos : List Nat} (pos : t.getPhyPosArray = .ok insPos) :
    t.parseData dat source startStamp = (do
      let datas ← (getlines dat).mapM fun line =>
        parseEscaped (List.replicate t.colPhy []) line insPos.length insPos
      .ok (t.fresh (rowsFrom source startStamp datas), startStamp + datas.length,
        t.alloc (rowsFrom source startStamp datas))) := by
  have run : ∀ (ls : List Str) (done : List (List Str)),
      ls.foldlM (parseLine source insPos) (t.fresh (rowsFrom source startStamp done),
        startStamp + done.length, t.alloc (rowsFrom source startStamp done)) = (do
      let datas ← ls.mapM fun line =>
        parseEscaped (List.replicate t.colPhy []) line insPos.length insPos
      .ok (t.fresh (rowsFrom source startStamp (done ++ datas)), startStamp + (done ++ datas).length,
        t.alloc (rowsFrom source startStamp (done ++ datas)))) := by
    -- on the lines that are left; `done` are the rows parsed so far
    intro ls
    induction ls with
    | nil =>
      intro done
      simp [pure, Except.pure]
    | cons line ls ih =>
      intro done
      rw [List.foldlM_cons, List.mapM_cons]
      have step : parseLine source insPos (t.fresh (rowsFrom source startStamp done),
          startStamp + done.length, t.alloc (rowsFrom source startStamp done)) line = (do
          let data ← parseEscaped (List.replicate t.colPhy []) line insPos.length insPos
          .ok (t.fresh (rowsFrom source startStamp (done ++ [data])),
            startStamp + (done ++ [data]).length,
            t.alloc (rowsFrom source startStamp (done ++ [data])))) := by
        have same : (t.alloc (rowsFrom source startStamp done)).colPhy = t.colPhy := rfl
        simp only [parseLine, same]
        congr 1
        funext data
        simp [Table.fresh, Table.alloc, Table.newRow, List.range'_concat, Nat.add_assoc, rowsFrom,
          List.mapIdx_append]
      rw [step]
      cases parseEscaped (List.replicate t.colPhy []) line insPos.length insPos with
      | error f => rfl
      | ok data =>
        rw [ok_bind, ok_bind, ih]
        cases ls.mapM fun line =>
            parseEscaped (List.replicate t.colPhy []) line insPos.length insPos with
        | error f => rfl
        | ok datas =>
          simp [pure, Except.pure]
  rw [Table.parseData, pos, ok_bind]
  have all := run (getlines dat) []
  simp only [List.nil_append] at all
  rw [← all]
  simp [Table.fresh, Table.alloc, rowsFrom]

/-- `parseData` on lines that have one field for each column of the table. -/
theorem parseData_spec {dat : Str} (la : Layout t) (two : getlines dat ≠ [] → 2 ≤ t.colDes.length)
    (lines : List.Forall₂ (fun line fields => LineText line fields ∧ fields.length = t.colDes.length)
      (getlines dat) fss) :
    t.parseData dat source startStamp =
      .ok (t.fresh (rowsOf t.colDes t.colPhy source startStamp fss), startStamp + fss.length,
        t.alloc (rowsOf t.colDes t.colPhy source startStamp fss)) := by
  have parse : (getlines dat).mapM (fun line =>
      parseEscaped (List.replicate t.colPhy []) line t.colDes.length t.colDes) =
      .ok (fss.map fun fields => fillCells t.colDes fields (List.replicate t.colPhy [])) := by
    rw [mapM_eq_ok, List.forall₂_map_right_iff]
    apply ((List.forall₂_and_left _ _).mpr ⟨fun line mem => mem, lines⟩).imp
    rintro line fields ⟨mem, text, len⟩
    exact parseEscaped_ok text (Nat.le_of_eq len) (two (List.ne_nil_of_mem mem)) la.nodup la.lt
  have rows : rowsFrom source startStamp
      (fss.map fun fields => fillCells t.colDes fields (List.replicate t.colPhy [])) =
      rowsOf t.colDes t.colPhy source startStamp fss := by
    apply List.ext_getElem?
    intro j
    simp only [rowsFrom, rowsOf, rowOf, List.getElem?_mapIdx, List.getElem?_map, Option.map_map]
    rfl
  rw [parseData_eq (la.mapM_mapping la.lt), parse, ok_bind, rows, List.length_map]

end

end TdsqlMerge.Store
