import Mathlib.Tactic.Common
import Mathlib.Data.List.Basic

/-!
# Splitting a text

`split sep s` is `String.split` of Java for a separator that is one character: the parts between the separators,
without the empty ones at the end, and the whole text if the separator does not occur.
-/

namespace TdsqlMerge.Lib

/-- The list without the empty parts at its end. -/
def dropEmptyEnd (parts : List (List Char)) : List (List Char) :=
  (parts.reverse.dropWhile List.isEmpty).reverse

/-- `s.split("c")`. -/
def split (sep : Char) (s : List Char) : List (List Char) :=
  if sep ∈ s then dropEmptyEnd (s.splitOn sep) else [s]

variable {sep : Char} {parts : List (List Char)}

/-- Parts that are not empty stay. -/
lemma dropEmptyEnd_eq_self (full : ∀ p ∈ parts, p ≠ []) : dropEmptyEnd parts = parts := by
  rw [dropEmptyEnd]
  cases e : parts.reverse with
  | nil =>
    rw [List.reverse_eq_nil_iff.mp e]
    rfl
  | cons p rest =>
    have mem : p ∈ parts := List.mem_reverse.mp (by rw [e]; exact List.mem_cons_self)
    rw [List.dropWhile_cons_of_neg (by simpa using full p mem), ← e, List.reverse_reverse]

/-- Parts joined by the separator are found again if none is empty and none has the separator. -/
lemma split_intercalate (some : parts ≠ []) (full : ∀ p ∈ parts, p ≠ []) (out : ∀ p ∈ parts, sep ∉ p) :
    split sep (List.intercalate [sep] parts) = parts := by
  rw [split]
  split
  · rw [List.splitOn_intercalate sep out some, dropEmptyEnd_eq_self full]
  · rename_i none
    have found := List.splitOn_intercalate sep out some
    rwa [List.splitOn_eq_singleton none] at found

end TdsqlMerge.Lib
