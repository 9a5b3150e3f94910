import Mathlib.Data.List.Infix
import Mathlib.Data.Prod.Lex
import Mathlib.Order.WithBot
import TdsqlMerge.Lib.StrictWeak
import TdsqlMerge.Store.Slotting

/-!
# Sorting for the dump

Embedding of `Table::optimizeTableForDump` (`src/structure/table.cpp`). `std::sort` and
`boost::lexical_cast<float>` are parameters: the one returns a permutation if its comparison is a strict weak
order on the elements, the other is a partial function into a linear order, which throws on other texts.

`optimize_iff` says when the rows of a table are sorted: all comparisons but one are total and compare
by a key. The one for an index over an `int` and a `float` column converts the second cells of rows that agree
in the first, and NULL is not a number.
-/

namespace TdsqlMerge.Store
open Lib

/-! ### The function -/

/-- `std::string::size`. -/
def byteSize (s : Str) : Nat := (bytes s).length

/-- `x.size() < y.size() || (x.size() == y.size() && x < y)`. -/
def sizeLess (x y : Str) : Bool := byteSize x < byteSize y || (byteSize x = byteSize y && x < y)

/-- Nothing catches what is thrown while the rows are sorted, so what it leaves behind is left out. -/
abbrev Unwinding := Except (Fault Unit)

/-- A comparison of two rows. -/
abbrev RowLess := Row → Row → Unwinding Bool

/-- `compByFirstColInt` and the comparison for a single index, on the cells at `col`. -/
def compByCol (col : Nat) : RowLess := fun x y => do
  let a ← deref x.data[col]?
  let b ← deref y.data[col]?
  .ok (sizeLess a b)

/-- The comparison for a double index: rows that agree at `colA` are compared by `second`. -/
def compPair (colA : Nat) (second : RowLess) : RowLess := fun x y => do
  let a ← deref x.data[colA]?
  let b ← deref y.data[colA]?
  if byteSize a = byteSize b ∧ a = b then second x y else .ok (sizeLess a b)

/-- The comparison for "Int and Char". -/
def compIntChar (colA colB : Nat) : RowLess :=
  compPair colA fun x y => do
    let c ← deref x.data[colB]?
    let d ← deref y.data[colB]?
    .ok (c < d)

/-- Null slots come first, rows are compared by `comp`: the beginning of every comparison. -/
def Table.nullsFirst (t : Table) (comp : RowLess) (x y : Option RowPtr) : Unwinding Bool :=
  match x, y with
  | none, some _ => .ok true
  | some _, none => .ok false
  | none, none => .ok false
  | some p, some q => do
    let r ← deref (t.row? p)
    let s ← deref (t.row? q)
    comp r s

/-- `type.find(part) != std::string::npos`. -/
def ColumnDescriptor.typeHas (d : ColumnDescriptor) (part : String) : Bool := decide (part.toList <:+: d.type)

/-- A sorting function like `std::sort`. -/
abbrev SlotSort :=
  (Option RowPtr → Option RowPtr → Unwinding Bool) → List (Option RowPtr) → Unwinding (List (Option RowPtr))

section
variable {F : Type} [LinearOrder F] (lexicalCast : Str → Option F)

/-- `boost::lexical_cast<float>`. -/
def lexicalCastFloat (s : Str) : Unwinding F :=
  match lexicalCast s with
  | some f => .ok f
  | none => .error (.throw "bad lexical cast" ())

/-- The comparison for "Int and Float". -/
def compIntFloat (colA colB : Nat) : RowLess :=
  compPair colA fun x y => do
    let c ← deref x.data[colB]?
    let d ← deref y.data[colB]?
    let f ← lexicalCastFloat lexicalCast c
    let g ← lexicalCastFloat lexicalCast d
    .ok (f < g)

/-- The comparisons, on the physical columns they look at. -/
inductive SortBy where
  | oneCol (col : Nat)
  | intChar (colA colB : Nat)
  | intFloat (colA colB : Nat)
deriving DecidableEq

def SortBy.less : SortBy → RowLess
  | .oneCol col => compByCol col
  | .intChar colA colB => compIntChar colA colB
  | .intFloat colA colB => compIntFloat lexicalCast colA colB

end

/-- The comparison for an index over these columns; for two columns of other types there is none. -/
def Table.sortByCols (t : Table) : List ColPtr → Unwinding (Option SortBy)
  | [c] => do
    let d ← deref t.colHeap[c]?
    .ok (some (.oneCol d.mapping))
  | [c, c'] => do
    let d ← deref t.colHeap[c]?
    let d' ← deref t.colHeap[c']?
    .ok (if d.typeHas "int" && d'.typeHas "char" then some (.intChar d.mapping d'.mapping)
      else if d.typeHas "int" && d'.typeHas "float" then some (.intFloat d.mapping d'.mapping)
      else none)
  | _ => .ok (some (.oneCol 0))

/-- The comparison that `optimizeTableForDump` sorts by, if it sorts. -/
def Table.sortBy (t : Table) : Unwinding (Option SortBy) :=
  if t.colDes.isEmpty then .ok none
  else
    match t.indexs with
    | [] => .ok (some (.oneCol 0))
    | index :: _ => t.sortByCols index.cols

/-- `Table::optimizeTableForDump`. -/
def Table.optimizeTableForDump {F : Type} [LinearOrder F] (lexicalCast : Str → Option F) (sort : SlotSort)
    (t : Table) : Unwinding Table := do
  match ← t.sortBy with
  | none => .ok t
  | some kind => do
    let rows ← sort (t.nullsFirst (kind.less lexicalCast)) t.rows
    .ok { t with rows }

/-! ### Sizes -/

section
variable {a b : Str}

/-- The order of the texts by size, then by their bytes. -/
def sizeKey (s : Str) : ℕ ×ₗ Str := toLex (byteSize s, s)

/-- The comparison of two texts is the order of their keys. -/
lemma sizeLess_iff : sizeLess a b = true ↔ sizeKey a < sizeKey b := by
  rw [sizeLess, sizeKey, sizeKey, Prod.Lex.toLex_lt_toLex]
  simp

/-- The key determines the text. -/
lemma sizeKey_inj (same : sizeKey a = sizeKey b) : a = b :=
  congrArg (fun k : ℕ ×ₗ Str => (ofLex k).2) same

end

/-! ### Comparisons by a key -/

/-- On the rows of the table, the comparison orders by a key where it returns, and returns on any two rows. -/
structure ByKey {κ : Type} [LinearOrder κ] (t : Table) (comp : RowLess) (key : Row → κ) : Prop where
  less : ∀ i j p q r s, t.Live i p r → t.Live j q s → (comp r s = .ok true ↔ key r < key s)
  returns : ∀ i j p q r s, i ≠ j → t.Live i p r → t.Live j q s → ∃ b, comp r s = .ok b

section
variable {κ : Type} [LinearOrder κ] {t : Table} {comp : RowLess} {key : Row → κ}

/-- The key of a slot, least where it is null. -/
def Table.keyOf (t : Table) (key : Row → κ) : Option RowPtr → WithBot κ
  | none => ⊥
  | some p => ((t.row? p).map key : Option κ)

omit [LinearOrder κ] in
/-- The slot of a live row has the key of this row. -/
lemma Table.Live.keyOf {i : Nat} {p : RowPtr} {r : Row} (live : t.Live i p r) :
    t.keyOf key (some p) = (key r : WithBot κ) := by
  rw [Table.keyOf, live.2]
  rfl

/-- Two live rows are compared by the comparison of rows. -/
lemma Table.Live.nullsFirst {i j : Nat} {p q : RowPtr} {r s : Row} (live : t.Live i p r) (live' : t.Live j q s) :
    t.nullsFirst comp (some p) (some q) = comp r s := by
  rw [Table.nullsFirst, live.2, live'.2, deref_some, deref_some, ok_bind, ok_bind]

/-- A comparison by a key is a strict weak order on the slots. -/
lemma ByKey.strictWeak (bk : ByKey t comp key) (sl : Slotted t.colPhy t.rows t.rowHeap) :
    StrictWeak (t.nullsFirst comp) t.rows := by
  apply StrictWeak.of_key (t.keyOf key)
  -- the empty slots come first, the others as the key says
  · have returns : ∀ (i j : Nat) x y, i ≠ j → t.rows[i]? = some x → t.rows[j]? = some y →
        ∃ b, t.nullsFirst comp x y = .ok b := by
      intro i j x y ne at_i at_j
      cases x with
      | none => cases y <;> exact ⟨_, rfl⟩
      | some p =>
        cases y with
        | none => exact ⟨_, rfl⟩
        | some q =>
          obtain ⟨r, live, _⟩ := sl.live at_i
          obtain ⟨s, live', _⟩ := sl.live at_j
          rw [live.nullsFirst live']
          exact bk.returns i j p q r s ne live live'
    rw [List.pairwise_iff_getElem]
    intro i j hi hj lt
    have at_i := List.getElem?_eq_getElem hi
    have at_j := List.getElem?_eq_getElem hj
    exact ⟨returns i j _ _ lt.ne at_i at_j, returns j i _ _ lt.ne' at_j at_i⟩
  · intro x hx y hy
    cases x with
    | none =>
      cases y with
      | none => simp [Table.nullsFirst, Table.keyOf]
      | some q =>
        obtain ⟨j, at_j⟩ := List.mem_iff_getElem?.mp hy
        obtain ⟨s, live', _⟩ := sl.live at_j
        rw [live'.keyOf]
        simp [Table.nullsFirst, Table.keyOf, WithBot.bot_lt_coe]
    | some p =>
      cases y with
      | none =>
        have no : ¬ t.keyOf key (some p) < t.keyOf key none := not_lt_bot
        simp [Table.nullsFirst, no]
      | some q =>
        obtain ⟨i, at_i⟩ := List.mem_iff_getElem?.mp hx
        obtain ⟨j, at_j⟩ := List.mem_iff_getElem?.mp hy
        obtain ⟨r, live, _⟩ := sl.live at_i
        obtain ⟨s, live', _⟩ := sl.live at_j
        rw [live.nullsFirst live', live.keyOf, live'.keyOf, WithBot.coe_lt_coe]
        exact bk.less i j p q r s live live'

end

/-! ### The comparisons of the function -/

/-- The rows of the table have a cell at `col`. -/
def Table.HasCol (t : Table) (col : Nat) : Prop := ∀ i p r, t.Live i p r → col < r.data.length

section
variable {t : Table} {col colA colB : Nat}

/-- A cell that is there is read. -/
lemma deref_cell {r : Row} (lt : col < r.data.length) :
    (deref r.data[col]? : Unwinding Str) = .ok (r.data.getD col []) := by
  rw [List.getElem?_eq_getElem lt, deref_some, List.getD_eq_getElem _ _ lt]

/-- `compByCol` compares by the key of its column. -/
lemma compByCol_byKey (has : t.HasCol col) :
    ByKey t (compByCol col) fun r => sizeKey (r.data.getD col []) := by
  have value : ∀ i j p q r s, t.Live i p r → t.Live j q s →
      compByCol col r s = .ok (sizeLess (r.data.getD col []) (s.data.getD col [])) := by
    intro i j p q r s live live'
    rw [compByCol, deref_cell (has i p r live), deref_cell (has j q s live'), ok_bind, ok_bind]
  refine ⟨?_, ?_⟩
  · intro i j p q r s live live'
    rw [value i j p q r s live live', Except.ok.injEq, sizeLess_iff]
  · intro i j p q r s _ live live'
    exact ⟨_, value i j p q r s live live'⟩

/-- Do the rows agree at the column? -/
def Row.Agree (col : Nat) (r s : Row) : Prop := r.data.getD col [] = s.data.getD col []

/-- The comparison of a pair falls back on the second where the first cells agree. -/
lemma compPair_value {second : RowLess} {i j : Nat} {p q : RowPtr} {r s : Row} (has : t.HasCol colA)
    (live : t.Live i p r) (live' : t.Live j q s) :
    (r.Agree colA s → compPair colA second r s = second r s) ∧
      (¬ r.Agree colA s →
        compPair colA second r s = .ok (sizeLess (r.data.getD colA []) (s.data.getD colA []))) := by
  rw [compPair, deref_cell (has i p r live), deref_cell (has j q s live'), ok_bind, ok_bind]
  constructor
  · intro agree
    rw [Row.Agree] at agree
    rw [if_pos ⟨by rw [agree], agree⟩]
  · intro differ
    rw [if_neg fun h => differ h.2]

/-- Rows are ordered by the first cell, and by the second if they agree there. -/
lemma compPair_byKey {κ : Type} [LinearOrder κ] {second : RowLess} {key : Row → κ} (has : t.HasCol colA)
    (less : ∀ i j p q r s, t.Live i p r → t.Live j q s → r.Agree colA s →
      (second r s = .ok true ↔ key r < key s))
    (returns : ∀ i j p q r s, i ≠ j → t.Live i p r → t.Live j q s → r.Agree colA s → ∃ b, second r s = .ok b) :
    ByKey t (compPair colA second) fun r => toLex (sizeKey (r.data.getD colA []), key r) := by
  refine ⟨?_, ?_⟩
  · intro i j p q r s live live'
    rw [Prod.Lex.toLex_lt_toLex]
    by_cases agree : r.Agree colA s
    · rw [(compPair_value has live live').1 agree, less i j p q r s live live' agree]
      have same : sizeKey (r.data.getD colA []) = sizeKey (s.data.getD colA []) := congrArg sizeKey agree
      simp only [same, lt_irrefl, false_or, true_and]
    · rw [(compPair_value has live live').2 agree, Except.ok.injEq, sizeLess_iff]
      have ne : sizeKey (r.data.getD colA []) ≠ sizeKey (s.data.getD colA []) := fun e => agree (sizeKey_inj e)
      simp only [ne, false_and, or_false]
  · intro i j p q r s ne live live'
    by_cases agree : r.Agree colA s
    · rw [(compPair_value has live live').1 agree]
      exact returns i j p q r s ne live live' agree
    · exact ⟨_, (compPair_value has live live').2 agree⟩

/-- `compIntChar` compares by the pair of its keys. -/
lemma compIntChar_byKey (hasA : t.HasCol colA) (hasB : t.HasCol colB) :
    ByKey t (compIntChar colA colB) fun r =>
      toLex (sizeKey (r.data.getD colA []), r.data.getD colB []) := by
  have value : ∀ i j p q r s, t.Live i p r → t.Live j q s → (do
      let c ← deref r.data[colB]?
      let d ← deref s.data[colB]?
      .ok (decide (c < d)) : Unwinding Bool) = .ok (decide (r.data.getD colB [] < s.data.getD colB [])) := by
    intro i j p q r s live live'
    rw [deref_cell (hasB i p r live), deref_cell (hasB j q s live'), ok_bind, ok_bind]
  apply compPair_byKey hasA
  · intro i j p q r s live live' _
    rw [value i j p q r s live live', Except.ok.injEq, decide_eq_true_iff]
  · intro i j p q r s _ live live' _
    exact ⟨_, value i j p q r s live live'⟩

section
variable {F : Type} [LinearOrder F] {lexicalCast : Str → Option F}

/-- Rows that agree in the first cell have numbers in the second. -/
def Convertible (lexicalCast : Str → Option F) (t : Table) (colA colB : Nat) : Prop :=
  ∀ i j p q r s, i ≠ j → t.Live i p r → t.Live j q s → r.Agree colA s →
    (lexicalCast (r.data.getD colB [])).isSome = true

/-- The comparison of the second cells. -/
lemma compFloat_value {r s : Row} (hr : colB < r.data.length) (hs : colB < s.data.length) :
    (do
      let c ← deref r.data[colB]?
      let d ← deref s.data[colB]?
      let f ← lexicalCastFloat lexicalCast c
      let g ← lexicalCastFloat lexicalCast d
      .ok (decide (f < g)) : Unwinding Bool) =
    match lexicalCast (r.data.getD colB []), lexicalCast (s.data.getD colB []) with
    | some f, some g => .ok (decide (f < g))
    | _, _ => .error (.throw "bad lexical cast" ()) := by
  rw [deref_cell hr, deref_cell hs, ok_bind, ok_bind, lexicalCastFloat, lexicalCastFloat]
  cases lexicalCast (r.data.getD colB []) with
  | none => rfl
  | some f => cases lexicalCast (s.data.getD colB []) <;> rfl

/-- The number a text stands for, least where there is none. -/
def numberKey (lexicalCast : Str → Option F) (s : Str) : WithBot F := lexicalCast s

/-- "Int and Float" orders by the first cell and by the number in the second, if there is one wherever it looks. -/
lemma compIntFloat_byKey (hasA : t.HasCol colA) (hasB : t.HasCol colB)
    (numbers : Convertible lexicalCast t colA colB) :
    ByKey t (compIntFloat lexicalCast colA colB) fun r =>
      toLex (sizeKey (r.data.getD colA []), numberKey lexicalCast (r.data.getD colB [])) := by
  apply compPair_byKey hasA
  · intro i j p q r s live live' agree
    rw [compFloat_value (hasB i p r live) (hasB j q s live')]
    by_cases same : i = j
    · -- a row is not less than itself, whether its cell is a number or not
      subst same
      obtain rfl : p = q := Option.some.inj (Option.some.inj (live.1.symm.trans live'.1))
      obtain rfl : r = s := Option.some.inj (live.2.symm.trans live'.2)
      cases lexicalCast (r.data.getD colB []) <;> simp
    · obtain ⟨f, ef⟩ := Option.isSome_iff_exists.mp (numbers i j p q r s same live live' agree)
      obtain ⟨g, eg⟩ := Option.isSome_iff_exists.mp (numbers j i q p s r (Ne.symm same) live' live agree.symm)
      rw [numberKey, numberKey, ef, eg, Except.ok.injEq, decide_eq_true_iff]
      exact WithBot.coe_lt_coe.symm
  · intro i j p q r s ne live live' agree
    rw [compFloat_value (hasB i p r live) (hasB j q s live')]
    obtain ⟨f, ef⟩ := Option.isSome_iff_exists.mp (numbers i j p q r s ne live live' agree)
    obtain ⟨g, eg⟩ := Option.isSome_iff_exists.mp (numbers j i q p s r ne.symm live' live agree.symm)
    rw [ef, eg]
    exact ⟨_, rfl⟩

/-- If it returns on any two rows, it found numbers. -/
lemma convertible_of_strictWeak (hasA : t.HasCol colA) (hasB : t.HasCol colB)
    (sw : StrictWeak (t.nullsFirst (compIntFloat lexicalCast colA colB)) t.rows) :
    Convertible lexicalCast t colA colB := by
  intro i j p q r s ne live live' agree
  have returned : ∃ b, t.nullsFirst (compIntFloat lexicalCast colA colB) (some p) (some q) = .ok b := by
    have pairs := List.pairwise_iff_getElem.mp sw.returns
    obtain ⟨hi, at_i⟩ := List.getElem?_eq_some_iff.mp live.1
    obtain ⟨hj, at_j⟩ := List.getElem?_eq_some_iff.mp live'.1
    rcases Nat.lt_or_gt_of_ne ne with lt | gt
    · have pair := pairs i j hi hj lt
      rw [at_i, at_j] at pair
      exact pair.1
    · have pair := pairs j i hj hi gt
      rw [at_i, at_j] at pair
      exact pair.2
  obtain ⟨b, returned⟩ := returned
  rw [live.nullsFirst live', compIntFloat, (compPair_value hasA live live').1 agree,
    compFloat_value (hasB i p r live) (hasB j q s live')] at returned
  cases ef : lexicalCast (r.data.getD colB []) with
  | none =>
    rw [ef] at returned
    cases returned
  | some f => rfl

end

end

/-! ### Built tables -/

section
variable {hashCombine : UInt64 → Str → UInt64} {t : Table} {F : Type} [LinearOrder F] {lexicalCast : Str → Option F}

/-- In a seated table the rows have every physical column. -/
lemma Seated.hasCol {col : Nat} (se : Seated t) (lt : col < t.colPhy) : t.HasCol col := by
  intro i p r live
  obtain ⟨r', hr', _, wide⟩ := se.slotted i p live.1
  obtain rfl : r' = r := Option.some.inj (hr'.symm.trans live.2)
  rw [wide]
  exact lt

/-- The rows have the cells that a comparison looks at. -/
def SortBy.InRange (t : Table) : SortBy → Prop
  | .oneCol col => t.HasCol col
  | .intChar colA colB | .intFloat colA colB => t.HasCol colA ∧ t.HasCol colB

/-- A seated table can be sorted by any of its columns. -/
lemma Seated.sortByCols {cols : List ColPtr} (la : Layout t) (se : Seated t) (first : t.HasCol 0)
    (lt : ∀ c ∈ cols, c < t.colPhy) : ∃ o, t.sortByCols cols = .ok o ∧ ∀ k ∈ o, k.InRange t := by
  have col : ∀ c ∈ cols, ∃ d, t.colHeap[c]? = some d ∧ t.HasCol d.mapping := by
    intro c mem
    obtain ⟨d, at_c, mapping⟩ := la.col (lt c mem)
    refine ⟨d, at_c, se.hasCol ?_⟩
    rw [mapping]
    exact lt c mem
  have other : ∀ k ∈ (some (.oneCol 0) : Option SortBy), k.InRange t := by
    intro k mem
    cases mem
    exact first
  rcases cols with _ | ⟨c, _ | ⟨c', _ | ⟨c'', more⟩⟩⟩
  · exact ⟨_, rfl, other⟩
  · obtain ⟨d, at_c, has⟩ := col c List.mem_cons_self
    rw [Table.sortByCols, at_c, deref_some, ok_bind]
    refine ⟨_, rfl, ?_⟩
    intro k mem
    cases mem
    exact has
  · obtain ⟨d, at_c, has⟩ := col c List.mem_cons_self
    obtain ⟨d', at_c', has'⟩ := col c' (List.mem_cons_of_mem _ List.mem_cons_self)
    rw [Table.sortByCols, at_c, at_c', deref_some, deref_some, ok_bind, ok_bind]
    refine ⟨_, rfl, ?_⟩
    intro k mem
    split at mem
    · cases mem
      exact ⟨has, has'⟩
    · split at mem
      · cases mem
        exact ⟨has, has'⟩
      · cases mem
  · exact ⟨_, rfl, other⟩

/-- The function finds its comparison, and the rows have the cells for it. -/
lemma Seated.sortBy (la : Layout t) (se : Seated t) : ∃ o, t.sortBy = .ok o ∧ ∀ k ∈ o, k.InRange t := by
  rw [Table.sortBy]
  split
  · refine ⟨_, rfl, ?_⟩
    intro k mem
    cases mem
  · rename_i some
    obtain ⟨c, mem⟩ := List.exists_mem_of_ne_nil t.colDes (by simpa using some)
    have lt := la.lt c mem
    have first : t.HasCol 0 := se.hasCol (Nat.zero_lt_of_lt lt)
    split
    · refine ⟨_, rfl, ?_⟩
      intro k mem
      cases mem
      exact first
    · rename_i index rest indexs
      have mem : index.header ∈ t.headers := by
        rw [Table.headers, indexs]
        exact List.mem_cons_self
      exact se.sortByCols la first (se.range _ mem)

/-- Every comparison but "Int and Float" is a strict weak order, and that one is where it finds numbers. -/
lemma SortBy.strictWeak_iff {kind : SortBy} (range : kind.InRange t) (sl : Slotted t.colPhy t.rows t.rowHeap) :
    StrictWeak (t.nullsFirst (kind.less lexicalCast)) t.rows ↔
      ∀ colA colB, kind = .intFloat colA colB → Convertible lexicalCast t colA colB := by
  cases kind with
  | oneCol col =>
    refine iff_of_true ((compByCol_byKey range).strictWeak sl) ?_
    rintro colA colB ⟨⟩
  | intChar colA colB =>
    refine iff_of_true ((compIntChar_byKey range.1 range.2).strictWeak sl) ?_
    rintro colA colB ⟨⟩
  | intFloat colA colB =>
    constructor
    · rintro sw _ _ ⟨⟩
      exact convertible_of_strictWeak range.1 range.2 sw
    · intro numbers
      exact (compIntFloat_byKey range.1 range.2 (numbers colA colB rfl)).strictWeak sl

/-- The function returns with the rows in some order, and its comparison is a strict weak order on them. -/
structure SortsRows (lexicalCast : Str → Option F) (sort : SlotSort) (t : Table) : Prop where
  returns : ∃ rows, t.optimizeTableForDump lexicalCast sort = .ok { t with rows } ∧ rows.Perm t.rows
  strictWeak : ∀ kind, t.sortBy = .ok (some kind) → StrictWeak (t.nullsFirst (kind.less lexicalCast)) t.rows

/-- The rows of a table are sorted exactly if its comparison is not "Int and Float" or the second cells of
    any two rows that agree in the first are numbers. -/
theorem optimize_iff {sort : SlotSort} (bu : Built hashCombine t) (documented : Sorts sort) :
    SortsRows lexicalCast sort t ↔
      ∀ colA colB, t.sortBy = .ok (some (.intFloat colA colB)) → Convertible lexicalCast t colA colB := by
  have se := built_seated bu
  obtain ⟨o, chosen, range⟩ := se.sortBy bu.layout
  cases o with
  | none =>
    constructor
    · intro _ colA colB intFloat
      rw [chosen] at intFloat
      cases intFloat
    · intro _
      refine ⟨⟨t.rows, ?_, .refl _⟩, ?_⟩
      · rw [Table.optimizeTableForDump, chosen]
        rfl
      · intro kind choice
        rw [chosen] at choice
        cases choice
  | some kind =>
    have range := range kind rfl
    constructor
    · rintro ⟨_, sw⟩ colA colB intFloat
      have same : kind = .intFloat colA colB := by
        rw [chosen] at intFloat
        cases intFloat
        rfl
      exact (SortBy.strictWeak_iff range se.slotted).mp (sw kind chosen) colA colB same
    · intro numbers
      have sw : StrictWeak (t.nullsFirst (kind.less lexicalCast)) t.rows := by
        apply (SortBy.strictWeak_iff range se.slotted).mpr
        rintro colA colB rfl
        exact numbers colA colB chosen
      obtain ⟨rows, sorted, perm⟩ := documented _ _ sw
      refine ⟨⟨rows, ?_, perm⟩, ?_⟩
      · rw [Table.optimizeTableForDump, chosen, ok_bind]
        dsimp only
        rw [sorted]
        rfl
      · intro kind' choice
        rw [chosen] at choice
        cases choice
        exact sw

end

/-! ### A table of measures -/

/-- A table `(a, f, updated_at)` with the unique key `(a, f)`, and the rows of one file. -/
def measures (dat : String) : Res Table := do
  let t ← Statement.fillToTable Store.hashCombine .new (.create "t".toList
    [{ name := "a".toList, type := "int".toList, isNotNull := true, defaultStr := none },
      { name := "f".toList, type := "float".toList, isNotNull := false, defaultStr := none },
      { name := updatedAt, type := "datetime".toList, isNotNull := true, defaultStr := none }]
    [{ name := "k".toList, isPrimaryKey := false, keys := ["a".toList, "f".toList] }])
  let (ps, _, t) ← t.parseData dat.toList 0 0
  t.insertRows Store.hashCombine ps

/-- The table of measures is built by the operations. -/
lemma measures_built {dat : String} {t : Table} (run : measures dat = .ok t) : Built Store.hashCombine t := by
  simp only [measures, bind_ok] at run
  obtain ⟨t1, made, ⟨ps, stamp, t2⟩, parse, insert⟩ := run
  exact .batch (.statement .new made) parse insert

/-- Two rows that agree in `a` have numbers in `f`; a third has NULL. -/
theorem measures_sorted : ∃ t, measures "\"1\",\"7\",\"5\"\n\"2\",\"_NUll_&\",\"5\"\n\"1\",\"3\",\"6\"\n" = .ok t ∧
    SortsRows lexicalCastInt insertionSort t := by
  have run : ((measures "\"1\",\"7\",\"5\"\n\"2\",\"_NUll_&\",\"5\"\n\"1\",\"3\",\"6\"\n").toOption.any fun t =>
      t.sortBy.toOption = some (some (.intFloat 0 1)) ∧ (slots t.rows t.rowHeap).map (Option.map Record.data) =
        [some ["1".toList, "7".toList, "5".toList], some ["2".toList, nullMarker, "5".toList],
          some ["1".toList, "3".toList, "6".toList]]) = true := by
    decide +kernel
  obtain ⟨t, run, h⟩ := ok_of_any run
  obtain ⟨chosen, rows⟩ := of_decide_eq_true h
  refine ⟨t, run, (optimize_iff (measures_built run) insertionSort_sorts).mpr ?_⟩
  intro colA colB intFloat
  rw [ok_of_toOption chosen] at intFloat
  cases intFloat
  have data : ∀ i p r, t.Live i p r → i = 0 ∧ r.data = ["1".toList, "7".toList, "5".toList] ∨
      i = 1 ∧ r.data = ["2".toList, nullMarker, "5".toList] ∨
      i = 2 ∧ r.data = ["1".toList, "3".toList, "6".toList] := by
    intro i p r live
    have slot : ((slots t.rows t.rowHeap).map (Option.map Record.data))[i]? = some (some r.data) := by
      rw [List.getElem?_map, live.slot]
      rfl
    rw [rows] at slot
    rcases i with _ | _ | _ | i
    · exact .inl ⟨rfl, (Option.some.inj (Option.some.inj slot)).symm⟩
    · exact .inr (.inl ⟨rfl, (Option.some.inj (Option.some.inj slot)).symm⟩)
    · exact .inr (.inr ⟨rfl, (Option.some.inj (Option.some.inj slot)).symm⟩)
    · cases slot
  -- only the first and the third row agree in `a`
  intro i j p q r s ne live live' agree
  rw [Row.Agree] at agree
  rcases data i p r live with ⟨rfl, cells⟩ | ⟨rfl, cells⟩ | ⟨rfl, cells⟩
  · rw [cells]
    decide
  · rcases data j q s live' with ⟨rfl, cells'⟩ | ⟨rfl, cells'⟩ | ⟨rfl, cells'⟩
    · rw [cells, cells'] at agree
      exact absurd agree (by decide)
    · exact absurd rfl ne
    · rw [cells, cells'] at agree
      exact absurd agree (by decide)
  · rw [cells]
    decide

/-- NULL is compared with a number. -/
theorem null_not_sorted : ¬ ∀ (F : Type) [LinearOrder F] (lexicalCast : Str → Option F) (sort : SlotSort)
    (hashCombine : UInt64 → Str → UInt64) (t : Table), Sorts sort → Built hashCombine t →
    SortsRows lexicalCast sort t := by
  intro claim
  have run : ((measures "\"1\",\"7\",\"5\"\n\"1\",\"_NUll_&\",\"6\"\n").toOption.any fun t =>
      (t.optimizeTableForDump lexicalCastInt insertionSort).isOk = false) = true := by
    decide +kernel
  obtain ⟨t, run, throws⟩ := ok_of_any run
  obtain ⟨rows, returns, _⟩ :=
    (claim Int lexicalCastInt insertionSort _ t insertionSort_sorts (measures_built run)).returns
  rw [returns] at throws
  cases of_decide_eq_true throws

end TdsqlMerge.Store
