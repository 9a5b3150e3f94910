import Mathlib.Tactic.Common
import Mathlib.Data.List.Basic

/-!
# Replacing a pattern

`replaceAll pattern sub s` replaces the occurrences of `pattern` in `s`, from left to right and without
overlap, by `sub`. `replaceAll_free` says that nothing happens before the first place where the pattern
occurs, `replaceAll_match` what happens there.
-/

namespace TdsqlMerge.Lib

variable {α : Type} [DecidableEq α]

/-- The rest of a text in which the next `skip` elements belong to an occurrence. -/
def replaceFrom (pattern sub : List α) : Nat → List α → List α
  | _, [] => []
  | skip + 1, _ :: rest => replaceFrom pattern sub skip rest
  | 0, c :: rest =>
    if pattern <+: c :: rest then sub ++ replaceFrom pattern sub (pattern.length - 1) rest
    else c :: replaceFrom pattern sub 0 rest

/-- All occurrences of `pattern` replaced by `sub`. -/
def replaceAll (pattern sub s : List α) : List α := replaceFrom pattern sub 0 s

variable {pattern sub s rest : List α}

/-- Nothing is replaced in the empty text. -/
@[simp] lemma replaceAll_nil : replaceAll pattern sub [] = [] := rfl

/-- Skipped characters are dropped. -/
lemma replaceFrom_skip {skip : Nat} : replaceFrom pattern sub skip s = replaceAll pattern sub (s.drop skip) := by
  induction s generalizing skip with
  | nil => simp [replaceFrom]
  | cons c s ih =>
    cases skip with
    | zero => rfl
    | succ skip => rw [replaceFrom, ih, List.drop_succ_cons]

/-- An element at which the pattern does not occur stays. -/
lemma replaceAll_cons {c : α} (free : ¬ pattern <+: c :: s) :
    replaceAll pattern sub (c :: s) = c :: replaceAll pattern sub s := by
  rw [replaceAll, replaceFrom, if_neg free]
  rfl

/-- An occurrence is replaced. -/
lemma replaceAll_match (ne : pattern ≠ []) :
    replaceAll pattern sub (pattern ++ rest) = sub ++ replaceAll pattern sub rest := by
  cases pattern with
  | nil => exact absurd rfl ne
  | cons c p =>
    have here : c :: p <+: c :: (p ++ rest) := List.prefix_append _ _
    rw [List.cons_append, replaceAll, replaceFrom, if_pos here, replaceFrom_skip, List.length_cons,
      Nat.add_sub_cancel, List.drop_left]

/-- A text in which the pattern does not start stays, whatever follows. -/
lemma replaceAll_free (free : ∀ u v, u ++ v = s → v ≠ [] → ¬ pattern <+: v ++ rest) :
    replaceAll pattern sub (s ++ rest) = s ++ replaceAll pattern sub rest := by
  induction s with
  | nil => rfl
  | cons c s ih =>
    have here : ¬ pattern <+: c :: (s ++ rest) := free [] (c :: s) rfl (List.cons_ne_nil c s)
    rw [List.cons_append, replaceAll_cons here, ih]
    · rfl
    · intro u v e ne
      exact free (c :: u) v (by rw [List.cons_append, e]) ne

/-- The pattern does not start in a text without its first element. -/
lemma replaceAll_free_of_not_mem {c : α} {p : List α} (out : c ∉ s) :
    replaceAll (c :: p) sub (s ++ rest) = s ++ replaceAll (c :: p) sub rest := by
  apply replaceAll_free
  rintro u v rfl ne here
  cases v with
  | nil => exact ne rfl
  | cons d v =>
    have first : c = d := (List.cons_prefix_cons.mp here).1
    exact out (List.mem_append_right u (first ▸ List.mem_cons_self))

end TdsqlMerge.Lib
