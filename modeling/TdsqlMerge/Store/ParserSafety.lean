import TdsqlMerge.Store.Fields
import TdsqlMerge.Store.Hash
import TdsqlMerge.Store.Operations

/-!
# Where the row parser is safe

`fieldsOf` cuts a line at its quotes, whatever the line looks like. `parseEscaped_safe_iff` says for which
tables and lines `EscapedResolver::parseEscaped` stays in range: for tables of at least two columns and lines
without text behind their last column. It does not check the number of fields when it appends a byte,
and its estimate of the length of a cell divides by the number of columns less one.
-/

namespace TdsqlMerge.Store
open Lib

/-- The fields of the text behind the first quote of a line: a quote without backslash ends a field,
    together with the two bytes behind it. -/
def fieldsOf : Str → List Str
  | [] => [[]]
  | '\\' :: [] => [[Char.ofNat 0]]
  | '\\' :: c :: rest => (fieldsOf rest).modifyHead (c :: ·)
  | '"' :: _ :: _ :: rest => [] :: fieldsOf rest
  | '"' :: _ => [[]]
  | c :: rest => (fieldsOf rest).modifyHead (c :: ·)

/-- No text stands behind the first `n` fields. -/
def Fits (n : Nat) (text : Str) : Prop := ∀ field ∈ (fieldsOf text).drop n, field = []

section
variable (hashCombine : UInt64 → Str → UInt64)

/-- The tables that any statements and any `.dat` files lead to. -/
inductive Built : Table → Prop where
  | new : Built .new
  | statement {t t' statement} : Built t → Statement.fillToTable hashCombine t statement = .ok t' →
    Built t'
  | batch {t t1 t' dat source startStamp ps stamp} : Built t →
    t.parseData dat source startStamp = .ok (ps, stamp, t1) → t1.insertRows hashCombine ps = .ok t' →
    Built t'

variable {hashCombine} {t t' : Table}

/-- A CREATE TABLE leads to a layout. -/
lemma fillCreate_layout {cols : List ColumnStatement} {indexs : List IndexStatement} (la : Layout t)
    (run : t.fillCreate hashCombine cols indexs = .ok t') : Layout t' := by
  rw [Table.fillCreate, bind_ok] at run
  obtain ⟨t1, columns, run⟩ := run
  rw [bind_ok] at run
  obtain ⟨t2, keys, run⟩ := run
  have la1 : Layout t1 :=
    foldlM_ok Layout (fun col _ s s' la run => la.columnAdded (addColumnOf_cols run)) columns la
  have la2 : Layout t2 := foldlM_ok Layout (fun index _ s s' la run => la.sameCols (pushIndex_cols run)) keys la1
  split at run
  · exact la2.sameCols (pushTemp_cols run)
  · cases run
    exact la2

/-- The columns of every table have their own physical places. -/
lemma Built.layout (re : Built hashCombine t) : Layout t := by
  induction re with
  | new => exact .new
  | @statement t t' statement _ run la =>
    cases statement with
    | create name cols indexs => exact fillCreate_layout la run
    | addCol col after => exact la.columnAdded (addColumnOf_cols run)
    | nothing =>
      cases run
      exact la
    | dropCol name => exact la.columnDropped (dropColumn_cols run)
    | dropIndex isPrimary name => exact la.sameCols (dropUniqueIndex_cols run)
    | addIndex isPrimary name cols => exact la.sameCols (addUniqueIndex_cols run)
    | changeCol col prevName => exact la.columnChanged (changeCol_cols run)
  | batch _ parse insert la => exact (la.sameCols (parseData_cols parse)).sameCols (insertRows_cols insert)

end

/-! ### The loop -/

section
variable {insPos : List Nat} {vec : List Str} {n k : Nat} {text rest : Str} {c : Char}

/-- Changing the first element empties no list. -/
lemma modifyHead_ne_nil {α : Type} {f : α → α} {l : List α} (ne : l ≠ []) : l.modifyHead f ≠ [] := by
  cases l with
  | nil => exact absurd rfl ne
  | cons a l => simp

/-- A text has a field. -/
lemma fieldsOf_ne_nil : fieldsOf text ≠ [] := by
  induction text using fieldsOf.induct with
  | case1 => simp [fieldsOf]
  | case2 => simp [fieldsOf]
  | case3 c rest ih => exact modifyHead_ne_nil ih
  | case4 a b rest ih => simp [fieldsOf]
  | case5 rest short =>
    rw [fieldsOf]
    · simp
    · exact short
  | case6 c rest =>
    rename_i ih
    rw [fieldsOf]
    · exact modifyHead_ne_nil ih
    all_goals assumption

/-- A byte belongs to the field it is read into, which is one of the first `n`. -/
lemma fits_head (head : fieldsOf text = (fieldsOf rest).modifyHead (c :: ·)) :
    Fits n text ↔ 0 < n ∧ Fits n rest := by
  obtain ⟨field, fields, cut⟩ := List.exists_cons_of_ne_nil (@fieldsOf_ne_nil rest)
  rw [Fits, Fits, head, cut]
  cases n with
  | zero => simp
  | succ n => simp

/-- A quote and the two bytes behind it take one field off. -/
lemma fits_quote {a b : Char} : Fits n ('"' :: a :: b :: rest) ↔ Fits (n - 1) rest := by
  rw [Fits, Fits, fieldsOf]
  cases n with
  | zero => simp
  | succ n => simp

/-- A text without content fits any number of columns. -/
lemma fits_empty (cut : fieldsOf text = [[]]) : Fits n text := by
  rw [Fits, cut]
  cases n with
  | zero => simp
  | succ n => simp

/-- A byte can be appended if there is a column for its field. -/
lemma appendCell_ok_iff (range : ∀ p ∈ insPos, p < vec.length) :
    (∃ vec', appendCell vec insPos k c = .ok vec' ∧ vec'.length = vec.length) ↔ k < insPos.length := by
  constructor
  · rintro ⟨vec', run, _⟩
    obtain ⟨p, _, at_k, _, _⟩ := appendCell_inv run
    exact (List.getElem?_eq_some_iff.mp at_k).1
  · intro lt
    have at_k := List.getElem?_eq_getElem lt
    have at_p := List.getElem?_eq_getElem (range _ (List.getElem_mem lt))
    exact ⟨_, appendCell_ok at_k at_p, List.length_set⟩

/-- An appended byte and the rest of the loop. -/
lemma append_then_iff {P : Prop} {f : List Str → Res (List Str)} (range : ∀ p ∈ insPos, p < vec.length)
    (go_on : ∀ vec', vec'.length = vec.length → ((∃ vec'', f vec' = .ok vec'') ↔ P)) :
    (∃ vec', (appendCell vec insPos k c >>= f) = .ok vec') ↔ k < insPos.length ∧ P := by
  rw [← appendCell_ok_iff (k := k) (c := c) range]
  constructor
  · rintro ⟨vec'', run⟩
    obtain ⟨vec', step, run⟩ := bind_ok.mp run
    obtain ⟨p, cell, _, _, rfl⟩ := appendCell_inv step
    exact ⟨⟨_, step, List.length_set⟩, (go_on _ List.length_set).mp ⟨vec'', run⟩⟩
  · rintro ⟨⟨vec', step, len⟩, rest⟩
    obtain ⟨vec'', run⟩ := (go_on vec' len).mpr rest
    exact ⟨vec'', by rw [step, ok_bind, run]⟩

/-- The cell of the next column is in range, so that reserving its space does nothing. -/
lemma reserve_next {α : Type} {next : Res α} (range : ∀ p ∈ insPos, p < vec.length) :
    (if k + 1 < insPos.length then do
      let pos ← deref insPos[k + 1]?
      let _ ← deref vec[pos]?
      next
    else next) = next := by
  split
  · rename_i lt
    rw [List.getElem?_eq_getElem lt, deref_some, ok_bind,
      List.getElem?_eq_getElem (range _ (List.getElem_mem lt)), deref_some, ok_bind]
  · rfl

/-- The loop stays in range if the fields from the current one on that have text have columns. -/
lemma parseLoop_ok_iff (range : ∀ p ∈ insPos, p < vec.length) :
    (∃ vec', parseLoop insPos insPos.length text k vec = .ok vec') ↔ Fits (insPos.length - k) text := by
  induction text using fieldsOf.induct generalizing k vec with
  | case1 =>
    have fits : Fits (insPos.length - k) [] := fits_empty (by rw [fieldsOf])
    simp [parseLoop, fits]
  | case2 =>
    -- a backslash at the end of the line takes the 0 behind the text as its byte
    have head : fieldsOf ['\\'] = (fieldsOf []).modifyHead (Char.ofNat 0 :: ·) := by
      rw [fieldsOf, fieldsOf]
      rfl
    have fits : Fits (insPos.length - k) [] := fits_empty (by rw [fieldsOf])
    rw [parseLoop, fits_head head, Nat.sub_pos_iff_lt, ← appendCell_ok_iff (k := k) (c := Char.ofNat 0) range]
    constructor
    · rintro ⟨vec', run⟩
      obtain ⟨p, cell, _, _, rfl⟩ := appendCell_inv run
      exact ⟨⟨_, run, List.length_set⟩, fits⟩
    · rintro ⟨⟨vec', run, _⟩, _⟩
      exact ⟨vec', run⟩
  | case3 c rest ih =>
    have head : fieldsOf ('\\' :: c :: rest) = (fieldsOf rest).modifyHead (c :: ·) := by rw [fieldsOf]
    rw [parseLoop, fits_head head, Nat.sub_pos_iff_lt]
    apply append_then_iff range
    intro vec' len
    exact ih (by rw [len]; exact range)
  | case4 a b rest ih =>
    -- a closing quote: the next field goes to the next column
    rw [parseLoop, fits_quote, Nat.sub_sub, reserve_next range]
    exact ih range
  | case5 rest short =>
    -- the last quote of the line
    have fits : Fits (insPos.length - k) ('"' :: rest) := by
      apply fits_empty
      rw [fieldsOf]
      assumption
    have ends : parseLoop insPos insPos.length ('"' :: rest) k vec = .ok vec := by
      rcases rest with _ | ⟨a, _ | ⟨b, rest⟩⟩
      · rw [parseLoop, reserve_next range]
        exact short
      · rw [parseLoop, reserve_next range]
        exact short
      · exact (short a b rest rfl).elim
    rw [ends]
    exact ⟨fun _ => fits, fun _ => ⟨vec, rfl⟩⟩
  | case6 c rest =>
    rename_i ih
    have head : fieldsOf (c :: rest) = (fieldsOf rest).modifyHead (c :: ·) := by
      rw [fieldsOf]
      all_goals assumption
    rw [fits_head head, Nat.sub_pos_iff_lt, parseLoop]
    · apply append_then_iff range
      intro vec' len
      exact ih (by rw [len]; exact range)
    all_goals assumption

end

/-! ### The parser -/

/-- `parseEscaped` stays in range exactly for tables of two columns or more and lines that fit them. -/
theorem parseEscaped_safe_iff {hashCombine : UInt64 → Str → UInt64} {t : Table} {line : Str}
    (re : Built hashCombine t) (one : t.colDes ≠ []) :
    ∃ insPos, t.getPhyPosArray = .ok insPos ∧
      ((∃ vec, parseEscaped (List.replicate t.colPhy []) line insPos.length insPos = .ok vec) ↔
        2 ≤ t.colDes.length ∧ Fits t.colDes.length (line.drop 1)) := by
  have la := re.layout
  refine ⟨t.colDes, la.mapM_mapping la.lt, ?_⟩
  have range : ∀ p ∈ t.colDes, p < (List.replicate t.colPhy ([] : Str)).length := by
    intro p mem
    rw [List.length_replicate]
    exact la.lt p mem
  have pos := List.length_pos_iff.mpr one
  have loop := @parseLoop_ok_iff t.colDes _ 0 (line.drop 1) range
  rw [Nat.sub_zero] at loop
  rw [parseEscaped]
  split
  · rename_i single
    constructor
    · rintro ⟨vec, run⟩
      cases run
    · rintro ⟨two, _⟩
      omega
  · rename_i more
    rw [loop]
    exact ⟨fun fits => ⟨by omega, fits⟩, fun h => h.2⟩

/-- A table with these columns, whose key is the first. -/
def keyedTable (names : List String) : Res Table :=
  Statement.fillToTable Store.hashCombine .new (.create "t".toList
    (names.map fun name => { name := name.toList, type := "int".toList, isNotNull := true, defaultStr := none })
    [{ name := [], isPrimaryKey := true, keys := (names.take 1).map String.toList }])

-- behind the closing quote stand the two bytes of `é`, so `X` is in a third field
example : fieldsOf ((utf8 "\"1\",\"2\"éX").drop 1) = [['1'], ['2'], ['X']] := by decide +kernel

/-- A line that ends inside its second field is parsed into three columns. -/
theorem short_line_parsed : ∃ t insPos, keyedTable ["id", "a", "updated_at"] = .ok t ∧
    t.getPhyPosArray = .ok insPos ∧
    ∃ vec, parseEscaped (List.replicate t.colPhy []) "\"1\",\"x".toList insPos.length insPos = .ok vec := by
  have run : ((keyedTable ["id", "a", "updated_at"]).toOption.any fun t => t.colDes = [0, 1, 2]) = true := by
    decide +kernel
  obtain ⟨t, run, cols⟩ := ok_of_any run
  have cols := of_decide_eq_true cols
  obtain ⟨insPos, pos, safe⟩ :=
    @parseEscaped_safe_iff _ _ "\"1\",\"x".toList (.statement .new run) (by simp [cols])
  refine ⟨t, insPos, run, pos, safe.mpr ?_⟩
  rw [cols, Fits]
  decide

/-- On a table of one column the estimate divides by zero. -/
theorem parser_divides_by_zero : ¬ ∀ (hashCombine : UInt64 → Str → UInt64) (t : Table) (line : Str),
    Built hashCombine t → t.colDes ≠ [] →
    ∃ insPos, t.getPhyPosArray = .ok insPos ∧
      ∃ vec, parseEscaped (List.replicate t.colPhy []) line insPos.length insPos = .ok vec := by
  intro claim
  have run : ((keyedTable ["id"]).toOption.any fun t =>
      t.colDes = [0] ∧ t.getPhyPosArray.toOption = some [0]) = true := by decide +kernel
  obtain ⟨t, run, h⟩ := ok_of_any run
  obtain ⟨cols, pos⟩ := of_decide_eq_true h
  obtain ⟨insPos, pos', vec, parse⟩ := claim _ t "\"1\"".toList (.statement .new run) (by simp [cols])
  rw [ok_of_toOption pos] at pos'
  cases pos'
  have single : [0].length = 1 := rfl
  rw [parseEscaped, if_pos single] at parse
  cases parse

end TdsqlMerge.Store
