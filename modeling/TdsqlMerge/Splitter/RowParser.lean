import TdsqlMerge.Basic

/-!
# Writing the rows of an event

Embedding of `extfetcher/src/RowParser.java` and `EscapeConvert.java`: the text that a rows event adds to
a `.dat` file. An image of a row is the list of its columns, each with the bit that tells whether the
event carries it and with its value. `none` is the exception of `deleteCharAt` on an empty builder. The
closed form of the text is `parseOneRow_full`.
-/

namespace TdsqlMerge.Splitter

/-- A value of `RowsLogBuffer`: NULL, a `String`, or an object that is written with `toString`. -/
inductive Value where
  | null
  | string (s : Str)
  | other (text : Str)
  deriving DecidableEq

/-- `EscapeConvert.convert`. -/
def convert (toConvert builder : Str) : Str :=
  toConvert.foldl (fun builder curChar =>
    (if curChar = '"' then builder ++ ['\\'] else builder) ++ [curChar]) builder

/-- One iteration of the loop of `RowParser.parseOneRow`. -/
def parseColumn (isAfter : Bool) (builder : Str) (column : Bool × Value) : Str :=
  if !column.1 then builder
  else match column.2 with
    | .null => if isAfter then builder ++ "\"_NUll_&\",".toList else builder
    | .string s => if isAfter then convert s (builder ++ ['"']) ++ "\",".toList else builder
    | .other text => if isAfter then builder ++ ['"'] ++ text ++ "\",".toList else builder

/-- `RowParser.parseOneRow`. -/
def parseOneRow (columns : List (Bool × Value)) (isAfter : Bool) (builder : Str) : Option Str :=
  let builder := columns.foldl (parseColumn isAfter) builder
  if isAfter then
    -- this deletes the last comma, and the last character of the line before if the image carries no column
    if builder.isEmpty then none else some (builder.dropLast ++ ['\n'])
  else some builder

/-- The kinds of rows events. -/
inductive RowsType where
  | write
  | delete
  | update
  deriving DecidableEq

/-- The loop of `RowParser.parseRowsEvent` on the images of an update event, before and after in turn. -/
def parseUpdates : List (List (Bool × Value)) → Str → Option Str
  | [], builder => some builder
  | [before], builder => parseOneRow before false builder
  | before :: after :: images, builder => do
    let builder ← parseOneRow before false builder
    let builder ← parseOneRow after true builder
    parseUpdates images builder

/-- `RowParser.parseRowsEvent` on the row images of an event. -/
def parseRowsEvent (type : RowsType) (images : List (List (Bool × Value))) (builder : Str) :
    Option Str :=
  match type with
  | .write => images.foldlM (fun builder image => parseOneRow image true builder) builder
  | .delete => images.foldlM (fun builder image => parseOneRow image false builder) builder
  | .update => parseUpdates images builder

/-- The full image of a row whose cells are NULL or strings. -/
def fullImage (cells : List (Option Str)) : List (Bool × Value) :=
  cells.map fun cell => (true, match cell with | none => .null | some s => .string s)

/-- A quote gets a backslash; every other character stays. -/
def escape (s : Str) : Str := s.flatMap fun c => if c = '"' then ['\\', '"'] else [c]

/-- The first character is escaped if it is a quote. -/
lemma escape_cons {c : Char} {s : Str} :
    escape (c :: s) = (if c = '"' then ['\\', '"'] else [c]) ++ escape s := rfl

/-- `convert` appends the escaped text. -/
lemma convert_eq {s builder : Str} : convert s builder = builder ++ escape s := by
  rw [convert]
  induction s generalizing builder with
  | nil => simp [escape]
  | cons c s ih =>
    rw [List.foldl_cons, ih, escape_cons]
    split <;> simp_all

/-- The text of a cell between its quotes. -/
def cellText : Option Str → Str
  | none => nullMarker
  | some s => escape s

/-- The text of a row after its first quote. -/
def cellsText : List (Option Str) → Str
  | [] => []
  | [cell] => cellText cell ++ ['"']
  | cell :: cells => cellText cell ++ '"' :: ',' :: '"' :: cellsText cells

/-- A column of a full image is written in quotes, with a comma behind it. -/
lemma parseColumn_full {builder : Str} {cell : Option Str} :
    (fullImage [cell]).foldl (parseColumn true) builder = builder ++ '"' :: cellText cell ++ ['"', ','] := by
  cases cell with
  | none =>
    have marker : "\"_NUll_&\",".toList = '"' :: nullMarker ++ ['"', ','] := by decide
    show builder ++ "\"_NUll_&\",".toList = _
    rw [marker, cellText, List.append_assoc, List.cons_append]
  | some s =>
    have close : "\",".toList = ['"', ','] := by decide
    show convert s (builder ++ ['"']) ++ "\",".toList = _
    rw [convert_eq, close, cellText]
    simp

/-- The columns of a full image are written one after the other. -/
lemma foldl_full {builder : Str} {cells : List (Option Str)} (ne : cells ≠ []) :
    (fullImage cells).foldl (parseColumn true) builder = builder ++ '"' :: cellsText cells ++ [','] := by
  induction cells generalizing builder with
  | nil => exact absurd rfl ne
  | cons cell cells ih =>
    have step : (fullImage (cell :: cells)).foldl (parseColumn true) builder =
        (fullImage cells).foldl (parseColumn true) (builder ++ '"' :: cellText cell ++ ['"', ',']) := by
      rw [← parseColumn_full]
      rfl
    rw [step]
    cases cells with
    | nil => simp [fullImage, cellsText]
    | cons next cells =>
      rw [ih (List.cons_ne_nil next cells)]
      simp [cellsText]

/-- What `parseOneRow` appends for a full after-image: a line. -/
theorem parseOneRow_full {cells : List (Option Str)} {builder : Str} (ne : cells ≠ []) :
    parseOneRow (fullImage cells) true builder = some (builder ++ '"' :: cellsText cells ++ ['\n']) := by
  have drop : (builder ++ '"' :: cellsText cells ++ [',']).dropLast =
      builder ++ '"' :: cellsText cells := List.dropLast_concat
  rw [parseOneRow, foldl_full ne, if_pos rfl, if_neg (by simp), drop]

/-- What a write event appends for full after-images: one line for each. -/
lemma parseRowsEvent_full {rows : List (List (Option Str))} {builder : Str}
    (ne : ∀ cells ∈ rows, cells ≠ []) :
    parseRowsEvent .write (rows.map fullImage) builder =
      some (builder ++ rows.flatMap fun cells => '"' :: cellsText cells ++ ['\n']) := by
  rw [parseRowsEvent]
  induction rows generalizing builder with
  | nil => simp
  | cons cells rows ih =>
    rw [List.map_cons, List.foldlM_cons, parseOneRow_full (ne cells List.mem_cons_self), Option.bind_eq_bind,
      Option.bind_some, ih fun c mem => ne c (List.mem_cons_of_mem _ mem)]
    simp

end TdsqlMerge.Splitter
