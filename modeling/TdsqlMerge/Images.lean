import TdsqlMerge.Codec
import TdsqlMerge.Store.Loaded
import TdsqlMerge.Store.ParserSafety

/-!
# Partial row images

A row image need not carry every column. `RowParser.parseOneRow` writes the values it carries one after the
other, and the loader takes the first field for the first column. `aligned_iff` states for which images that
comes out right: those that carry a column, and none with a non-empty value behind one they leave out. The
other condition, as for full images, is that the strings have no backslash and no line break.
-/

namespace TdsqlMerge
open Lib Store Splitter

/-- For each column whether the image carries it, and its value. -/
abbrev Image := List (Bool × Value)

/-- Every second image. -/
def seconds : List Image → List Image
  | _ :: after :: images => after :: seconds images
  | _ => []

/-- The after-images of an event. -/
def afterImages : RowsType → List Image → List Image
  | .write, images => images
  | .delete, _ => []
  | .update, images => seconds images

/-- The cell of a value: NULL, or a string. -/
def valueCell : Value → Option Str
  | .null => none
  | .string s => some s
  | .other text => some text

/-- The cells an image carries. -/
def present (image : Image) : List (Option Str) :=
  image.filterMap fun c => if c.1 then some (valueCell c.2) else none

/-- What the loader should see in each column of the table: nothing where the image carries no value. -/
def wanted (image : Image) : List Str :=
  image.map fun c => if c.1 then cellOf (valueCell c.2) else []

/-- Objects other than strings are numbers, dates and the like, whose `toString` has no quote, backslash or line
    break. -/
def PlainObjects (image : Image) : Prop :=
  ∀ text, (true, Value.other text) ∈ image → '\\' ∉ text ∧ '"' ∉ text ∧ '\n' ∉ text

/-- The image carries a column, none with a non-empty value behind one that it leaves out, and its strings
    have no backslash and no line break. -/
structure Straight (image : Image) : Prop where
  carries : present image ≠ []
  leading : ∀ (i j : Nat) (v w : Value), i < j → image[i]? = some (false, v) → image[j]? = some (true, w) →
    valueCell w = some []
  plain : ∀ s, some s ∈ present image → '\\' ∉ s ∧ '\n' ∉ s

/-- The event gives one line for each after-image, and the loader reads each value of the image from it into
    the column of the value and nothing into the others. -/
def Aligned (t : Table) (type : RowsType) (images : List Image) : Prop :=
  ∃ text insPos, parseRowsEvent type images [] = some text ∧ t.getPhyPosArray = .ok insPos ∧
    List.Forall₂ (fun image line => ∃ vec,
      parseEscaped (List.replicate t.colPhy []) line insPos.length insPos = .ok vec ∧
        ∀ (i p : Nat) (cell : Str), insPos[i]? = some p → (wanted image)[i]? = some cell →
          vec[p]? = some cell)
      (afterImages type images) (getlines text)

/-! ### The text of an event -/

section
variable {image : Image} {images : List Image} {type : RowsType} {builder text : Str} {v : Value}

/-- A column that the image leaves out gives no cell. -/
@[simp] lemma present_absent : present ((false, v) :: image) = present image := rfl

/-- A column that the image carries gives its cell. -/
@[simp] lemma present_carried : present ((true, v) :: image) = valueCell v :: present image := rfl

/-- The cells of the columns that the image carries. -/
lemma mem_present {c : Option Str} :
    c ∈ present image ↔ ∃ (i : Nat) (v : Value), image[i]? = some (true, v) ∧ valueCell v = c := by
  rw [present, List.mem_filterMap]
  constructor
  · rintro ⟨⟨carried, v⟩, mem, h⟩
    obtain ⟨i, at_i⟩ := List.mem_iff_getElem?.mp mem
    cases carried with
    | true => exact ⟨i, v, at_i, Option.some.inj h⟩
    | false => cases h
  · rintro ⟨i, v, at_i, rfl⟩
    exact ⟨(true, v), List.mem_of_getElem? at_i, rfl⟩

/-- A text without quotes is escaped as it is. -/
lemma escape_self {s : Str} (plain : '"' ∉ s) : escape s = s := by
  induction s with
  | nil => rfl
  | cons c s ih =>
    rw [List.mem_cons, not_or] at plain
    rw [escape_cons, if_neg (Ne.symm plain.1), ih plain.2]
    rfl

/-- A value is written as its cell is. -/
lemma parseColumn_carried (objects : ∀ text, v = .other text → '"' ∉ text) :
    parseColumn true builder (true, v) = (fullImage [valueCell v]).foldl (parseColumn true) builder := by
  cases v with
  | null => rfl
  | string s => rfl
  | other text =>
    show builder ++ ['"'] ++ text ++ "\",".toList = convert text (builder ++ ['"']) ++ "\",".toList
    rw [convert_eq, escape_self (objects text rfl)]

/-- Columns that the image does not carry leave no trace in the text. -/
lemma foldl_present (objects : PlainObjects image) :
    image.foldl (parseColumn true) builder =
      (fullImage (present image)).foldl (parseColumn true) builder := by
  induction image generalizing builder with
  | nil => rfl
  | cons c image ih =>
    have rest : PlainObjects image := fun text mem => objects text (List.mem_cons_of_mem _ mem)
    obtain ⟨carried, v⟩ := c
    cases carried with
    | false => exact ih rest
    | true =>
      have here : parseColumn true builder (true, v) =
          (fullImage [valueCell v]).foldl (parseColumn true) builder := by
        apply parseColumn_carried
        rintro text rfl
        exact (objects text List.mem_cons_self).2.1
      rw [List.foldl_cons, here, ih rest]
      rfl

/-- An image is written as the full image of its cells. -/
lemma parseOneRow_present (objects : PlainObjects image) :
    parseOneRow image true builder = parseOneRow (fullImage (present image)) true builder := by
  rw [parseOneRow, parseOneRow, foldl_present objects]

/-- A before-image adds nothing. -/
lemma parseOneRow_before : parseOneRow image false builder = some builder := by
  have still : image.foldl (parseColumn false) builder = builder := by
    induction image with
    | nil => rfl
    | cons c image ih =>
      have here : parseColumn false builder c = builder := by
        rw [parseColumn]
        split
        · rfl
        · split <;> rfl
      rw [List.foldl_cons, here, ih]
  rw [parseOneRow, still]
  rfl

/-- An event adds the lines of its after-images. -/
lemma parseRowsEvent_after :
    parseRowsEvent type images builder =
      (afterImages type images).foldlM (fun builder image => parseOneRow image true builder) builder := by
  cases type with
  | write => rfl
  | delete =>
    show images.foldlM (fun builder image => parseOneRow image false builder) builder = some builder
    induction images with
    | nil => rfl
    | cons image images ih =>
      rw [List.foldlM_cons, parseOneRow_before, Option.bind_eq_bind, Option.bind_some, ih]
  | update =>
    show parseUpdates images builder = _
    rw [afterImages]
    induction images using seconds.induct generalizing builder with
    | case1 before after images ih =>
      rw [parseUpdates, parseOneRow_before, Option.bind_eq_bind, Option.bind_some, seconds, List.foldlM_cons]
      exact Option.bind_congr fun builder _ => ih
    | case2 images short =>
      rcases images with _ | ⟨before, _ | ⟨after, images⟩⟩
      · rfl
      · exact parseOneRow_before
      · exact (short before after images rfl).elim

/-- The line of a row. -/
def lineOf (cells : List (Option Str)) : Str := '"' :: cellsText cells

/-- Rows with cells add their lines; a row without any takes back the line break before it and adds one. -/
lemma foldlM_lines {rows : List (List (Option Str))} (ends : builder = [] ∨ ∃ before, builder = before ++ ['\n'])
    (run : rows.foldlM (fun builder cells => parseOneRow (fullImage cells) true builder) builder = some text) :
    text = builder ++ unlines ((rows.filter (· ≠ [])).map lineOf) := by
  induction rows generalizing builder with
  | nil =>
    cases run
    exact (List.append_nil _).symm
  | cons cells rows ih =>
    rw [List.foldlM_cons, Option.bind_eq_bind, Option.bind_eq_some_iff] at run
    obtain ⟨builder1, row, run⟩ := run
    by_cases e : cells = []
    · subst e
      have same : builder1 = builder := by
        rcases ends with rfl | ⟨before, rfl⟩
        · cases row
        · have closed : parseOneRow (fullImage []) true (before ++ ['\n']) =
              some ((before ++ ['\n']).dropLast ++ ['\n']) := by
            rw [parseOneRow]
            simp [fullImage]
          rw [closed, List.dropLast_concat] at row
          exact (Option.some.inj row).symm
      rw [same] at run
      rw [ih ends run]
      simp
    · rw [parseOneRow_full e] at row
      cases row
      rw [ih (Or.inr ⟨_, rfl⟩) run, List.filter_cons_of_pos (by simpa using e), List.map_cons, unlines_cons,
        lineOf]
      simp

end

/-! ### Reading a line -/

section
variable {image : Image} {insPos : List Nat} {n k : Nat} {vec vec' : List Str} {cells : List (Option Str)}
  {cell : Option Str} {rest : Str}

/-- Only the empty string is read as nothing. -/
lemma cell_of_read_nil (read : readField (cellText cell ++ '"' :: rest) = []) : cell = some [] := by
  cases cell with
  | none =>
    have marker : cellText none = nullMarker := rfl
    rw [marker] at read
    cases read
  | some s =>
    cases s with
    | nil => rfl
    | cons c s =>
      rw [cellText, escape_cons] at read
      split at read
      · cases read
      · rename_i quote
        rw [List.append_assoc, List.singleton_append, readField.eq_def] at read
        split at read <;> simp_all

/-- If every column gets nothing or the text of an earlier cell of the line, all cells are empty. -/
lemma all_empty (run : parseLoop insPos n (cellsText cells) k vec = .ok vec') (nodup : insPos.Nodup)
    (len : k + cells.length ≤ insPos.length)
    (empty : ∀ (i p : Nat), k ≤ i → insPos[i]? = some p → vec[p]? = some [])
    (back : ∀ (i p : Nat), i < cells.length → insPos[k + i]? = some p →
      vec'[p]? = some [] ∨ ∃ m < i, ∃ c, cells[m]? = some c ∧ vec'[p]? = some (cellOf c)) :
    ∀ c ∈ cells, c = some [] := by
  induction cells generalizing k vec with
  | nil => simp
  | cons cell cells ih =>
    rw [List.length_cons] at len
    have at_k := List.getElem?_eq_getElem (show k < insPos.length by omega)
    have at_q := empty k _ le_rfl at_k
    have here := parseLoop_here run nodup at_k at_q
    obtain ⟨rest, text, _⟩ := @cellsText_cons cell cells
    have first : cell = some [] := by
      rcases back 0 _ (Nat.succ_pos _) at_k with none | ⟨m, lt, _⟩
      · rw [none, List.nil_append, text] at here
        exact cell_of_read_nil (Option.some.inj here).symm
      · cases lt
    refine List.forall_mem_cons.mpr ⟨first, ?_⟩
    rcases List.eq_nil_or_concat cells with rfl | ⟨_, _, more⟩
    · simp
    have ne : cells ≠ [] := by simp [more]
    have pos := List.length_pos_iff.mpr ne
    have run := parseLoop_tail run (by simp [first]) ne at_k at_q (by omega) empty
    refine ih run (by omega) (empty_next nodup at_k empty) ?_
    intro i p lt at_p
    have at_p' : insPos[k + (i + 1)]? = some p := by
      rw [← at_p]
      congr 1
      omega
    rcases back (i + 1) p (Nat.succ_lt_succ lt) at_p' with none | ⟨m, lt, c, at_m, got⟩
    · exact Or.inl none
    · cases m with
      | zero =>
        cases at_m
        rw [first] at got
        exact Or.inl got
      | succ m => exact Or.inr ⟨m, by omega, c, at_m, got⟩

/-- What is wanted in a column is nothing or a cell the image carries, of no higher number. -/
lemma wanted_or {i : Nat} {s : Str} (at_i : (wanted image)[i]? = some s) :
    s = [] ∨ ∃ m ≤ i, ∃ c, (present image)[m]? = some c ∧ s = cellOf c := by
  induction image generalizing i with
  | nil => cases at_i
  | cons c image ih =>
    obtain ⟨carried, v⟩ := c
    cases carried with
    | false =>
      cases i with
      | zero =>
        cases at_i
        exact Or.inl rfl
      | succ i =>
        rcases ih at_i with none | ⟨m, le, c, at_m, e⟩
        · exact Or.inl none
        · exact Or.inr ⟨m, by omega, c, at_m, e⟩
    | true =>
      cases i with
      | zero =>
        cases at_i
        exact Or.inr ⟨0, le_rfl, _, rfl, rfl⟩
      | succ i =>
        rcases ih at_i with none | ⟨m, le, c, at_m, e⟩
        · exact Or.inl none
        · exact Or.inr ⟨m + 1, by omega, c, at_m, e⟩

/-- An image carries no more cells than it has columns. -/
lemma present_length_le : (present image).length ≤ image.length := List.length_filterMap_le _ _

/-- There is something wanted in each column. -/
lemma wanted_length : (wanted image).length = image.length := List.length_map _

/-- If the columns get what is wanted behind one that the image leaves out, it carries no values. -/
lemma nothing_of_read (run : parseLoop insPos n (cellsText (present image)) k vec = .ok vec')
    (nodup : insPos.Nodup) (len : k + image.length + 1 = insPos.length)
    (empty : ∀ (i p : Nat), k ≤ i → insPos[i]? = some p → vec[p]? = some [])
    (back : ∀ (i p : Nat) (s : Str), insPos[k + i]? = some p → (wanted ((false, v) :: image))[i]? = some s →
      vec'[p]? = some s) : ∀ c ∈ present image, c = some [] := by
  have le := @present_length_le image
  refine all_empty run nodup (by omega) empty ?_
  intro i p lt at_p
  cases i with
  | zero => exact Or.inl (back 0 p [] at_p rfl)
  | succ i =>
    have lt_i : i < (wanted image).length := by
      rw [wanted_length]
      omega
    have at_i := List.getElem?_eq_getElem lt_i
    rcases wanted_or at_i with none | ⟨m, le, c, at_m, e⟩
    · rw [none] at at_i
      exact Or.inl (back (i + 1) p [] at_p at_i)
    · rw [e] at at_i
      exact Or.inr ⟨m, by omega, c, at_m, back (i + 1) p _ at_p at_i⟩

/-- No value follows a column that the image leaves out. -/
def Leading (image : Image) : Prop :=
  ∀ (i j : Nat) (v w : Value), i < j → image[i]? = some (false, v) → image[j]? = some (true, w) →
    valueCell w = some []

/-- A column may be left out before cells that are empty. -/
lemma Leading.leftOut (nothing : ∀ c ∈ present image, c = some []) : Leading ((false, v) :: image) := by
  intro i j v' w lt at_i at_j
  cases j with
  | zero => cases at_j
  | succ j => exact nothing _ (mem_present.mpr ⟨j, w, at_j, rfl⟩)

/-- A column that is carried may come first. -/
lemma Leading.carried (leading : Leading image) : Leading ((true, v) :: image) := by
  intro i j v' w lt at_i at_j
  cases i with
  | zero => cases at_i
  | succ i =>
    cases j with
    | zero => cases lt
    | succ j => exact leading i j v' w (by omega) at_i at_j

/-- No value follows a left-out column in the rest. -/
lemma Leading.tail {c : Bool × Value} (leading : Leading (c :: image)) : Leading image :=
  fun i j v w lt at_i at_j => leading (i + 1) (j + 1) v w (Nat.succ_lt_succ lt) at_i at_j

/-- If the columns get what is wanted, no value follows a column left out, and no string has a backslash. -/
lemma leading_of_read (run : parseLoop insPos n (cellsText (present image)) k vec = .ok vec')
    (nodup : insPos.Nodup) (len : k + image.length = insPos.length)
    (empty : ∀ (i p : Nat), k ≤ i → insPos[i]? = some p → vec[p]? = some [])
    (back : ∀ (i p : Nat) (s : Str), insPos[k + i]? = some p → (wanted image)[i]? = some s →
      vec'[p]? = some s) : Leading image ∧ ∀ s, some s ∈ present image → '\\' ∉ s := by
  induction image generalizing k vec with
  | nil =>
    refine ⟨?_, by simp [present]⟩
    intro i j v w lt at_i
    cases at_i
  | cons c image ih =>
    obtain ⟨carried, v⟩ := c
    rw [List.length_cons] at len
    cases carried with
    | false =>
      rw [present_absent] at run
      -- the column is empty, so every text read after it went one column too far to the left
      have nothing := nothing_of_read run nodup (by omega) empty back
      refine ⟨.leftOut nothing, fun s mem => ?_⟩
      cases nothing _ mem
      exact List.not_mem_nil
    | true =>
      rw [present_carried] at run
      have lt_k : k < insPos.length := by omega
      have at_k := List.getElem?_eq_getElem lt_k
      have at_q := empty k _ le_rfl at_k
      -- the first cell is in place, and the rest is read like a line of its own
      have plain := parseLoop_first run nodup at_k at_q (back 0 _ _ at_k rfl)
      have behind : Leading image ∧ ∀ s, some s ∈ present image → '\\' ∉ s := by
        by_cases none : present image = []
        · rw [none]
          refine ⟨?_, by simp⟩
          intro i j v' w lt at_i at_j
          have mem := mem_present.mpr ⟨j, w, at_j, rfl⟩
          rw [none] at mem
          cases mem
        · have pos := List.length_pos_iff.mpr none
          have le := @present_length_le image
          have run := parseLoop_tail run plain none at_k at_q (by omega) empty
          refine ih run (by omega) (empty_next nodup at_k empty) ?_
          intro i p s at_p at_i
          apply back (i + 1) p s _ at_i
          rw [← at_p]
          congr 1
          omega
      refine ⟨behind.1.carried, fun s mem => ?_⟩
      rcases List.mem_cons.mp mem with e | mem
      · exact plain s e.symm
      · exact behind.2 s mem

/-- A column beyond the fields keeps its cell. -/
lemma fillCells_beyond {fields : List Str} {i q : Nat} (nodup : insPos.Nodup) (at_i : insPos[i]? = some q)
    (beyond : fields.length ≤ i) : (fillCells insPos fields vec)[q]? = vec[q]? := by
  induction insPos generalizing fields vec i with
  | nil => cases at_i
  | cons p insPos ih =>
    obtain ⟨notin, nodup⟩ := List.nodup_cons.mp nodup
    cases fields with
    | nil => rfl
    | cons field fields =>
      cases i with
      | zero => cases beyond
      | succ i =>
        have mem : q ∈ insPos := List.mem_of_getElem? at_i
        have ne : p ≠ q := by
          rintro rfl
          exact notin mem
        rw [fillCells, ih nodup at_i (Nat.le_of_succ_le_succ beyond), List.getElem?_set_ne ne]

/-- The cells a straight image carries are the first ones wanted, and nothing is wanted behind them. -/
lemma wanted_of_leading {i : Nat} {s : Str} (leading : Leading image)
    (at_i : (wanted image)[i]? = some s) : (((present image).map cellOf)[i]?).getD [] = s := by
  induction image generalizing i with
  | nil => cases at_i
  | cons c image ih =>
    obtain ⟨carried, v⟩ := c
    cases carried with
    | false =>
      -- everything the image carries is empty from here on
      have nothing : ∀ c ∈ present image, c = some [] := by
        intro c mem
        obtain ⟨j, w, at_j, rfl⟩ := mem_present.mp mem
        exact leading 0 (j + 1) v w (Nat.succ_pos j) rfl at_j
      have want : s = [] := by
        rcases wanted_or at_i with none | ⟨m, _, c, at_m, e⟩
        · exact none
        · rw [e, nothing c (List.mem_of_getElem? at_m)]
          rfl
      rw [want, present_absent, List.getElem?_map]
      cases at_c : (present image)[i]? with
      | none => rfl
      | some c =>
        rw [nothing c (List.mem_of_getElem? at_c)]
        rfl
    | true =>
      cases i with
      | zero =>
        cases at_i
        rfl
      | succ i =>
        exact ih leading.tail at_i

end

/-! ### Aligned events -/

section
variable {hashCombine : UInt64 → Str → UInt64} {t : Table} {type : RowsType} {images : List Image} {image : Image}

/-- The line of a straight image is read as wanted. -/
lemma straight_read (la : Layout t) (len : image.length = t.colDes.length) (two : 2 ≤ t.colDes.length)
    (st : Straight image) : ∃ vec,
      parseEscaped (List.replicate t.colPhy []) (lineOf (present image)) t.colDes.length t.colDes = .ok vec ∧
        ∀ (i p : Nat) (s : Str), t.colDes[i]? = some p → (wanted image)[i]? = some s → vec[p]? = some s := by
  have le := @present_length_le image
  have text : LineText (lineOf (present image)) ((present image).map cellOf) :=
    ⟨_, rfl, fieldsText_cells st.carries fun s mem => (st.plain s mem).1⟩
  refine ⟨_, parseEscaped_ok text (by rw [List.length_map]; omega) two la.nodup la.lt, ?_⟩
  intro i p s at_i at_s
  have lt_p : p < t.colPhy := la.lt p (List.mem_of_getElem? at_i)
  rw [← wanted_of_leading st.leading at_s]
  cases at_f : ((present image).map cellOf)[i]? with
  | some field => exact fillCells_at la.nodup (by simpa using la.lt) at_i at_f
  | none =>
    rw [fillCells_beyond la.nodup at_i (List.getElem?_eq_none_iff.mp at_f), List.getElem?_replicate, if_pos lt_p]
    rfl

/-- A line that is read as wanted is that of a straight image. -/
lemma straight_of_read (la : Layout t) (len : image.length = t.colDes.length) {vec : List Str}
    (carries : present image ≠ [])
    (run : parseEscaped (List.replicate t.colPhy []) (lineOf (present image)) t.colDes.length t.colDes = .ok vec)
    (breaks : ∀ s, some s ∈ present image → '\n' ∉ s)
    (back : ∀ (i p : Nat) (s : Str), t.colDes[i]? = some p → (wanted image)[i]? = some s → vec[p]? = some s) :
    t.colDes.length ≠ 1 ∧ Straight image := by
  rw [parseEscaped] at run
  split at run
  · cases run
  · rename_i ne
    have empty : ∀ (i p : Nat), 0 ≤ i → t.colDes[i]? = some p →
        (List.replicate t.colPhy ([] : Str))[p]? = some [] := by
      intro i p _ at_i
      rw [List.getElem?_replicate, if_pos (la.lt p (List.mem_of_getElem? at_i))]
    obtain ⟨leading, plain⟩ := leading_of_read run la.nodup (by omega) empty (by simpa using back)
    exact ⟨ne, carries, leading, fun s mem => ⟨plain s mem, breaks s mem⟩⟩

/-- An event is written as full images of what its after-images carry. -/
lemma parseRowsEvent_present {builder : Str}
    (objects : ∀ image ∈ afterImages type images, PlainObjects image) :
    parseRowsEvent type images builder =
      ((afterImages type images).map present).foldlM
        (fun builder cells => parseOneRow (fullImage cells) true builder) builder := by
  rw [parseRowsEvent_after]
  generalize afterImages type images = images at objects
  induction images generalizing builder with
  | nil => rfl
  | cons image images ih =>
    have rest : ∀ image ∈ images, PlainObjects image := fun image mem => objects image (List.mem_cons_of_mem _ mem)
    rw [List.foldlM_cons, List.map_cons, List.foldlM_cons, parseOneRow_present (objects image List.mem_cons_self)]
    exact Option.bind_congr fun builder _ => ih rest

/-- A line whose strings have no line break has none. -/
lemma lineOf_unbroken (unbroken : ∀ s, some s ∈ present image → '\n' ∉ s) : '\n' ∉ lineOf (present image) := by
  rw [lineOf, List.mem_cons, not_or, break_mem_cells]
  refine ⟨by decide, ?_⟩
  rintro ⟨s, carried, nb⟩
  exact unbroken s carried nb

/-- A cell that was read from a line has no line break. -/
lemma unbroken_of_aligned {text : Str} (len : ∀ image ∈ afterImages type images, image.length = t.colDes.length)
    (lines : List.Forall₂ (fun image line => ∃ vec,
      parseEscaped (List.replicate t.colPhy []) line t.colDes.length t.colDes = .ok vec ∧
        ∀ (i p : Nat) (s : Str), t.colDes[i]? = some p → (wanted image)[i]? = some s → vec[p]? = some s)
      (afterImages type images) (getlines text)) :
    ∀ image ∈ afterImages type images, ∀ s, some s ∈ present image → '\n' ∉ s := by
  have parsed := (List.forall₂_and_left _ _).mpr ⟨fun image mem => mem, lines⟩
  have parsed := (List.forall₂_and_left _ _).mpr ⟨fun line mem => mem, parsed.flip⟩
  refine forall₂_right (P := fun image => ∀ s, some s ∈ present image → '\n' ∉ s) parsed ?_
  rintro line image ⟨from_text, mem, vec, parse, back⟩ s carried nb
  obtain ⟨i, v, at_i, cell⟩ := mem_present.mp carried
  have lt_i : i < t.colDes.length := by
    rw [← len image mem]
    exact (List.getElem?_eq_some_iff.mp at_i).1
  have want : (wanted image)[i]? = some s := by
    rw [wanted, List.getElem?_map, at_i]
    show some (cellOf (valueCell v)) = _
    rw [cell]
    rfl
  have got := back i _ s (List.getElem?_eq_getElem lt_i) want
  have unbroken := parseEscaped_unbroken parse (not_mem_of_mem_getlines from_text)
  exact unbroken.2 ⟨s, List.mem_of_getElem? got, nb⟩

/-- A rows event is read back column by column exactly if the table has two columns or more and its
    after-images are straight. -/
theorem aligned_iff (re : Built hashCombine t) (one : t.colDes ≠ [])
    (len : ∀ image ∈ afterImages type images, image.length = t.colDes.length)
    (objects : ∀ image ∈ afterImages type images, PlainObjects image) :
    Aligned t type images ↔
      ∀ image ∈ afterImages type images, 2 ≤ t.colDes.length ∧ Straight image := by
  have la := re.layout
  have pos : t.getPhyPosArray = .ok t.colDes := la.mapM_mapping la.lt
  have least := List.length_pos_iff.mpr one
  constructor
  · rintro ⟨text, insPos, run, pos', lines⟩
    rw [pos] at pos'
    cases pos'
    rw [parseRowsEvent_present objects] at run
    have text_eq := foldlM_lines (Or.inl rfl) run
    rw [List.nil_append] at text_eq
    have unbroken := unbroken_of_aligned len lines
    have read : getlines text = (((afterImages type images).map present).filter (· ≠ [])).map lineOf := by
      rw [text_eq]
      apply getlines_unlines
      intro line mem
      obtain ⟨cells, row, rfl⟩ := List.mem_map.mp mem
      obtain ⟨image, here, rfl⟩ := List.mem_map.mp (List.mem_of_mem_filter row)
      exact lineOf_unbroken (unbroken image here)
    -- an image without any column gives no line, so one line for each image means that there is none
    have filled : ∀ cells ∈ (afterImages type images).map present, decide (cells ≠ []) = true := by
      have same := lines.length_eq
      rw [read, List.length_map] at same
      apply List.length_filter_eq_length_iff.mp
      rw [← same, List.length_map]
    have all : ((afterImages type images).map present).filter (· ≠ []) = (afterImages type images).map present := by
      exact List.filter_eq_self.mpr filled
    rw [read, all, List.map_map, List.forall₂_map_right_iff, List.forall₂_same] at lines
    intro image mem
    obtain ⟨vec, parse, back⟩ := lines image mem
    have carries := of_decide_eq_true (filled _ (List.mem_map_of_mem mem))
    obtain ⟨ne, straight⟩ := straight_of_read la (len image mem) carries parse (unbroken image mem) back
    exact ⟨by omega, straight⟩
  · intro straight
    have carries : ∀ cells ∈ (afterImages type images).map present, cells ≠ [] := by
      intro cells mem
      obtain ⟨image, here, rfl⟩ := List.mem_map.mp mem
      exact (straight image here).2.carries
    have written := @parseRowsEvent_lines ((afterImages type images).map present) carries
    rw [parseRowsEvent, List.foldlM_map] at written
    refine ⟨_, t.colDes, (parseRowsEvent_present objects).trans written, pos, ?_⟩
    rw [getlines_unlines, List.map_map, List.forall₂_map_right_iff, List.forall₂_same]
    · intro image mem
      exact straight_read la (len image mem) (straight image mem).1 (straight image mem).2
    · intro line mem
      obtain ⟨cells, row, rfl⟩ := List.mem_map.mp mem
      obtain ⟨image, here, rfl⟩ := List.mem_map.mp row
      exact lineOf_unbroken fun s carried => ((straight image here).2.plain s carried).2

end

/-- A table `(id, a, updated_at)`. -/
lemma three_columns : ∃ t, keyedTable ["id", "a", "updated_at"] = .ok t ∧ t.colDes = [0, 1, 2] ∧ t.colPhy = 3 := by
  have run : ((keyedTable ["id", "a", "updated_at"]).toOption.any fun t =>
      t.colDes = [0, 1, 2] ∧ t.colPhy = 3) = true := by decide +kernel
  obtain ⟨t, run, h⟩ := ok_of_any run
  exact ⟨t, run, of_decide_eq_true h⟩

/-- An update whose after-image leaves out the last column. -/
def leadingUpdate : List Image :=
  [[(true, .other "1".toList), (true, .string "x".toList), (true, .string "5".toList)],
    [(true, .other "1".toList), (true, .string "y".toList), (false, .null)]]

/-- An update whose after-image leaves out the last column is aligned. -/
theorem leadingUpdate_aligned : ∃ t, keyedTable ["id", "a", "updated_at"] = .ok t ∧
    Aligned t .update leadingUpdate := by
  obtain ⟨t, run, cols, _⟩ := three_columns
  refine ⟨t, run, (aligned_iff (.statement .new run) (by simp [cols]) ?_ ?_).mpr ?_⟩
  · rw [cols]
    decide
  · intro image mem text carried
    cases List.mem_singleton.mp mem
    have here : text = "1".toList := by simpa using carried
    rw [here]
    decide
  · intro image mem
    cases List.mem_singleton.mp mem
    refine ⟨by rw [cols]; decide, by decide, ?_, ?_⟩
    · intro i j v w lt at_i at_j
      -- only the last column is left out
      rcases i with _ | _ | _ | i
      · cases at_i
      · cases at_i
      · obtain ⟨j, rfl⟩ := Nat.exists_eq_add_of_lt lt
        rw [List.getElem?_eq_none (by simp)] at at_j
        cases at_j
      · cases at_i
    · intro s carried
      have here : s = "1".toList ∨ s = "y".toList := by simpa [present, valueCell] using carried
      rcases here with rfl | rfl <;> decide

/-- An insert whose image leaves out the second column, so that the value of the third is taken for it. -/
theorem gap_misaligned : ¬ ∀ (hashCombine : UInt64 → Str → UInt64) (t : Table) (type : RowsType)
    (images : List Image), Built hashCombine t → t.colDes ≠ [] →
    (∀ image ∈ afterImages type images, image.length = t.colDes.length) →
    (∀ image ∈ afterImages type images, PlainObjects image) → Aligned t type images := by
  intro claim
  obtain ⟨t, run, cols, phy⟩ := three_columns
  have aligned := claim _ t .write
    [[(true, .string "1".toList), (false, .null), (true, .string "5".toList)]] (.statement .new run)
    (by simp [cols]) (by rw [cols]; decide) (by simp [afterImages, PlainObjects])
  obtain ⟨text, insPos, write, pos, lines⟩ := aligned
  have la : Layout t := (Built.statement .new run).layout
  rw [Table.getPhyPosArray, la.mapM_mapping la.lt, cols] at pos
  cases pos
  have written : parseRowsEvent .write [[(true, .string "1".toList), (false, .null), (true, .string "5".toList)]] [] =
      some "\"1\",\"5\"\n".toList := by decide
  rw [written] at write
  cases write
  have one : getlines "\"1\",\"5\"\n".toList = ["\"1\",\"5\"".toList] := by decide
  rw [one, phy] at lines
  obtain ⟨⟨vec, parse, back⟩, _⟩ := List.forall₂_cons.mp lines
  have seen : (parseEscaped (List.replicate 3 []) "\"1\",\"5\"".toList 3 [0, 1, 2]).toOption =
      some ["1".toList, "5".toList, []] := by decide +kernel
  cases (ok_of_toOption seen).symm.trans parse
  have got : some "5".toList = some ([] : Str) := back 1 1 [] rfl rfl
  cases got

end TdsqlMerge
