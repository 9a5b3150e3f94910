import Mathlib.Tactic.Common
import Mathlib.Data.List.Basic

/-!
# Texts as lines

`getlines` is the sequence of lines a loop over `std::getline` reads from a text, `unlines` the text
that line-wise writing produces; `getlines_unlines` says that reading undoes writing when no line
contains a line break. The parts of a line are joined by `List.intercalate`. `Reader` reads a text line by
line.
-/

namespace TdsqlMerge.Lib

/-- The lines a loop over `std::getline` reads: a last line need not be terminated. -/
def getlines : List Char → List (List Char)
  | [] => []
  | c :: rest =>
    if c = '\n' then [] :: getlines rest
    else match getlines rest with
      | [] => [[c]]
      | l :: ls => (c :: l) :: ls

/-- The text of a list of lines, each terminated. -/
def unlines (ls : List (List Char)) : List Char :=
  ls.flatMap fun l => l ++ ['\n']

/-- The empty text has no line. -/
@[simp] lemma getlines_nil : getlines [] = [] := rfl

/-- No line gives the empty text. -/
@[simp] lemma unlines_nil : unlines [] = [] := rfl

/-- The first line ends with a line break. -/
lemma unlines_cons {l : List Char} {ls : List (List Char)} :
    unlines (l :: ls) = l ++ '\n' :: unlines ls := by
  simp [unlines]

/-- A terminated line is read as it is. -/
lemma getlines_line {l rest : List Char} (nb : '\n' ∉ l) :
    getlines (l ++ '\n' :: rest) = l :: getlines rest := by
  induction l with
  | nil => simp [getlines]
  | cons c l ih =>
    simp only [List.mem_cons, not_or] at nb
    rw [List.cons_append, getlines, if_neg (Ne.symm nb.1), ih nb.2]

/-- Lines without line breaks are read as they are, whatever follows. -/
lemma getlines_unlines_append {ls ls' : List (List Char)} (nb : ∀ l ∈ ls, '\n' ∉ l) :
    getlines (unlines (ls ++ ls')) = ls ++ getlines (unlines ls') := by
  induction ls with
  | nil => rfl
  | cons l ls ih =>
    rw [List.cons_append, unlines_cons, getlines_line (nb l List.mem_cons_self),
      ih fun l' mem => nb l' (List.mem_cons_of_mem l mem), List.cons_append]

/-- Reading undoes line-wise writing. -/
lemma getlines_unlines {ls : List (List Char)} (nb : ∀ l ∈ ls, '\n' ∉ l) :
    getlines (unlines ls) = ls := by
  have read := @getlines_unlines_append ls [] nb
  rwa [List.append_nil, unlines_nil, getlines_nil, List.append_nil] at read

/-- No line that is read contains a line break. -/
lemma not_mem_of_mem_getlines {text l : List Char} (mem : l ∈ getlines text) : '\n' ∉ l := by
  induction text generalizing l with
  | nil => cases mem
  | cons c rest ih =>
    rw [getlines] at mem
    split at mem
    · cases mem with
      | head => exact List.not_mem_nil
      | tail _ mem => exact ih mem
    · rename_i ne
      split at mem
      · rw [List.mem_singleton] at mem
        subst mem
        simpa using Ne.symm ne
      · rename_i l1 ls e
        rw [e] at ih
        cases mem with
        | head =>
          have nb := ih List.mem_cons_self
          simp only [List.mem_cons, not_or]
          exact ⟨Ne.symm ne, nb⟩
        | tail _ mem => exact ih (List.mem_cons_of_mem l1 mem)

/-- Each terminator ends a line. -/
lemma getlines_length_append {l rest : List Char} :
    (getlines (l ++ '\n' :: rest)).length = l.count '\n' + 1 + (getlines rest).length := by
  induction l with
  | nil =>
    simp only [List.nil_append, getlines, if_true, List.length_cons, List.count_nil]
    omega
  | cons c l ih =>
    rw [List.cons_append, getlines]
    split
    · rename_i e
      rw [e, List.length_cons, ih, List.count_cons_self]
      omega
    · rename_i ne
      rw [List.count_cons_of_ne ne]
      split
      · rename_i e
        rw [e] at ih
        simp only [List.length_nil] at ih
        omega
      · rename_i e
        rw [e] at ih
        simpa using ih

/-! ### Separated parts -/

section
variable {α : Type} {sep : α} {p q : List α} {ps : List (List α)}

/-- One part is joined to itself. -/
@[simp] lemma intercalate_singleton : List.intercalate [sep] [p] = p := by
  simp [List.intercalate, List.intersperse]

/-- The separator stands behind the first of two parts. -/
@[simp] lemma intercalate_cons_cons :
    List.intercalate [sep] (p :: q :: ps) = p ++ sep :: List.intercalate [sep] (q :: ps) := by
  simp [List.intercalate, List.intersperse]

/-- Parts without `a`, separated by something else, are without `a`. -/
lemma not_mem_intercalate {a : α} (ne : a ≠ sep) (out : ∀ p ∈ ps, a ∉ p) :
    a ∉ List.intercalate [sep] ps := by
  induction ps with
  | nil => exact List.not_mem_nil
  | cons p ps ih =>
    have rest := ih fun q mem => out q (List.mem_cons_of_mem p mem)
    cases ps with
    | nil =>
      rw [intercalate_singleton]
      exact out p List.mem_cons_self
    | cons q ps =>
      rw [intercalate_cons_cons, List.mem_append, List.mem_cons, not_or, not_or]
      exact ⟨out p List.mem_cons_self, ne, rest⟩

/-- There are at most as many parts as elements. -/
lemma length_le_intercalate (full : ∀ p ∈ ps, p ≠ []) : ps.length ≤ (List.intercalate [sep] ps).length := by
  induction ps with
  | nil => exact Nat.zero_le _
  | cons p ps ih =>
    have rest := ih fun q mem => full q (List.mem_cons_of_mem p mem)
    have pos := List.length_pos_iff.mpr (full p List.mem_cons_self)
    cases ps with
    | nil =>
      rw [intercalate_singleton]
      exact pos
    | cons q ps =>
      rw [intercalate_cons_cons, List.length_append, List.length_cons (a := sep), List.length_cons (a := p)]
      omega

/-- A part is no longer than the joined text. -/
lemma length_le_intercalate_of_mem (mem : p ∈ ps) : p.length ≤ (List.intercalate [sep] ps).length := by
  induction ps with
  | nil => cases mem
  | cons q ps ih =>
    cases ps with
    | nil =>
      have eq : p = List.intercalate [sep] [q] := by rw [List.mem_singleton.mp mem, intercalate_singleton]
      exact Nat.le_of_eq (congrArg _ eq)
    | cons r ps =>
      rw [intercalate_cons_cons, List.length_append, List.length_cons]
      rcases List.mem_cons.mp mem with rfl | mem
      · exact Nat.le_add_right _ _
      · have le := ih mem
        omega

/-- The texts have different elements at some place. -/
def Differ (p q : List α) : Prop := ∃ u x y p' q', x ≠ y ∧ p = u ++ x :: p' ∧ q = u ++ y :: q'

/-- Texts that differ still do with something behind them. -/
lemma Differ.append_ne {r r' : List α} (df : Differ p q) : p ++ r ≠ q ++ r' := by
  obtain ⟨u, x, y, p', q', ne, rfl, rfl⟩ := df
  intro e
  rw [List.append_assoc, List.append_assoc, List.append_cancel_left_eq, List.cons_append, List.cons_append,
    List.cons.injEq] at e
  exact ne e.1

/-- Joined texts agree if their parts do, provided that parts which do not agree differ at some place. -/
lemma intercalate_eq_iff {β : Type} {f g : β → List α} {l : List β}
    (apart : ∀ b ∈ l, f b = g b ∨ Differ (f b) (g b)) :
    List.intercalate [sep] (l.map f) = List.intercalate [sep] (l.map g) ↔ ∀ b ∈ l, f b = g b := by
  constructor
  · intro e
    induction l with
    | nil => simp
    | cons b l ih =>
      rcases apart b List.mem_cons_self with here | df
      · have rest : ∀ b ∈ l, f b = g b := by
          cases l with
          | nil => simp
          | cons b' l =>
            simp only [List.map_cons, intercalate_cons_cons] at e
            rw [here, List.append_cancel_left_eq, List.cons.injEq] at e
            exact ih (fun b mem => apart b (List.mem_cons_of_mem _ mem)) e.2
        exact List.forall_mem_cons.mpr ⟨here, rest⟩
      · cases l with
        | nil =>
          simp only [List.map_cons, List.map_nil, intercalate_singleton] at e
          exact absurd (congrArg (· ++ []) e) df.append_ne
        | cons b' l =>
          simp only [List.map_cons, intercalate_cons_cons] at e
          exact absurd e df.append_ne
  · intro same
    rw [List.map_congr_left same]

end

/-! ### Runs -/

section
variable {α : Type} {a b c : α} {l l' : List α} {m : Nat}

/-- One more of the same element may stand before or behind the others. -/
lemma replicate_append_self : List.replicate m a ++ a :: l = a :: (List.replicate m a ++ l) := by
  induction m with
  | zero => rfl
  | succ m ih => rw [List.replicate_succ, List.cons_append, ih, List.cons_append]

/-- A text that does not start with `a` starts with no run of `a`. -/
lemma cons_eq_replicate_append (ne : c ≠ a) (e : c :: l' = List.replicate m a ++ b :: l) :
    m = 0 ∧ c = b ∧ l' = l := by
  cases m with
  | zero =>
    cases e
    exact ⟨rfl, rfl, rfl⟩
  | succ m =>
    rw [List.replicate_succ, List.cons_append, List.cons.injEq] at e
    exact absurd e.1 ne

end

/-! ### Reading line by line -/

/-- A reader consumes lines and may fail. -/
abbrev Reader := StateT (List (List Char)) (Except String)

/-- The next line, or the empty text at the end. -/
def Reader.getLine : Reader (List Char) := fun ls =>
  match ls with
  | [] => .ok ([], [])
  | l :: ls => .ok (l, ls)

/-- `r` repeated `n` times. -/
def Reader.times {α : Type} (r : Reader α) : Nat → Reader (List α)
  | 0 => pure []
  | n + 1 => do
    let a ← r
    let as ← Reader.times r n
    pure (a :: as)

/-- `getLine` takes the first line. -/
@[simp] lemma Reader.getLine_cons {l : List Char} {ls : List (List Char)} :
    Reader.getLine (l :: ls) = .ok (l, ls) := rfl

/-- A reader that reads `ls` as `a` continues with `a`. -/
lemma Reader.bind_of_ok {α β : Type} {r : Reader α} {f : α → Reader β}
    {ls ls' : List (List Char)} {a : α} (h : r ls = .ok (a, ls')) : (r >>= f) ls = f a ls' := by
  show (r ls >>= fun x => f x.1 x.2) = f a ls'
  rw [h]
  rfl

/-- A composed reader succeeds if its parts do, one after the other. -/
lemma Reader.bind_eq_ok {α β : Type} {r : Reader α} {f : α → Reader β} {ls ls' : List (List Char)} {b : β} :
    (r >>= f) ls = .ok (b, ls') ↔ ∃ a ls1, r ls = .ok (a, ls1) ∧ f a ls1 = .ok (b, ls') := by
  show (r ls >>= fun x => f x.1 x.2) = _ ↔ _
  cases r ls with
  | error e =>
    constructor
    · intro run
      cases run
    · rintro ⟨a, ls1, e, _⟩
      cases e
  | ok x =>
    constructor
    · intro run
      exact ⟨x.1, x.2, rfl, run⟩
    · rintro ⟨a, ls1, e, run⟩
      cases e
      exact run

/-- Repeated reading of a list of items, each read from its own lines. -/
lemma Reader.times_ok {α β : Type} {r : Reader α} {write : β → List (List Char)} {read : β → α}
    {xs : List β} {ls : List (List Char)}
    (one : ∀ x ∈ xs, ∀ ls, r (write x ++ ls) = .ok (read x, ls)) :
    Reader.times r xs.length (xs.flatMap write ++ ls) = .ok (xs.map read, ls) := by
  induction xs with
  | nil => rfl
  | cons x xs ih =>
    simp only [List.flatMap_cons, List.append_assoc, List.length_cons, List.map_cons]
    rw [Reader.times, Reader.bind_of_ok (one x List.mem_cons_self _),
      Reader.bind_of_ok (ih fun y mem => one y (List.mem_cons_of_mem x mem))]
    rfl

end TdsqlMerge.Lib
