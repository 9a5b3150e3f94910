import Mathlib.Tactic.Common
import Mathlib.Tactic.Ring
import Mathlib.Data.List.Basic

/-!
# Little-endian numbers

`bytesLE w n` is the number `n` in `w` bytes, the lowest first, and `takeLE` reads such a number from the front of
a text of bytes; `takeLE_append` says that it reads what was written. `takeMany` reads a counted list of anything,
and `takeMany_append` says the same of it.
-/

namespace TdsqlMerge.Lib

/-- The lowest `w` bytes of `n`. -/
def bytesLE : Nat → Nat → List (BitVec 8)
  | 0, _ => []
  | w + 1, n => BitVec.ofNat 8 n :: bytesLE w (n / 256)

/-- The number with these bytes. -/
def ofBytesLE (bs : List (BitVec 8)) : Nat := bs.foldr (fun b n => b.toNat + 256 * n) 0

/-- Take a number of `w` bytes. -/
def takeLE (w : Nat) (bs : List (BitVec 8)) : Option (Nat × List (BitVec 8)) :=
  if w ≤ bs.length then some (ofBytesLE (bs.take w), bs.drop w) else none

variable {w n : Nat} {rest : List (BitVec 8)}

/-- A number is written in as many bytes as asked for. -/
@[simp] lemma bytesLE_length : (bytesLE w n).length = w := by
  induction w generalizing n with
  | zero => rfl
  | succ w ih => rw [bytesLE, List.length_cons, ih]

/-- A number that fits is read back. -/
lemma ofBytesLE_bytesLE (lt : n < 256 ^ w) : ofBytesLE (bytesLE w n) = n := by
  induction w generalizing n with
  | zero =>
    rw [Nat.pow_zero, Nat.lt_one_iff] at lt
    rw [lt]
    rfl
  | succ w ih =>
    have high : n / 256 < 256 ^ w := by
      rw [Nat.div_lt_iff_lt_mul (by decide)]
      rwa [Nat.pow_succ] at lt
    have split : ofBytesLE (bytesLE (w + 1) n) = n % 256 + 256 * ofBytesLE (bytesLE w (n / 256)) := rfl
    rw [split, ih high]
    exact Nat.mod_add_div n 256

/-- What was written is read, whatever follows. -/
lemma takeLE_append (lt : n < 256 ^ w) : takeLE w (bytesLE w n ++ rest) = some (n, rest) := by
  rw [takeLE, if_pos (by rw [List.length_append, bytesLE_length]; omega),
    List.take_left' bytesLE_length, List.drop_left' bytesLE_length, ofBytesLE_bytesLE lt]

section
variable {α β : Type}

/-- Take as many items as the count says. -/
def takeMany (take : List (BitVec 8) → Option (α × List (BitVec 8))) :
    Nat → List (BitVec 8) → Option (List α × List (BitVec 8))
  | 0, bs => some ([], bs)
  | n + 1, bs => do
    let (a, bs) ← take bs
    let (as, bs) ← takeMany take n bs
    some (a :: as, bs)

/-- If every item is read as it was written, so are all of them. -/
lemma takeMany_append {take : List (BitVec 8) → Option (α × List (BitVec 8))} {write : β → List (BitVec 8)}
    {value : β → α} {bs : List β}
    (one : ∀ b ∈ bs, ∀ rest, take (write b ++ rest) = some (value b, rest)) :
    takeMany take bs.length (bs.flatMap write ++ rest) = some (bs.map value, rest) := by
  induction bs with
  | nil => rfl
  | cons b bs ih =>
    have others := ih fun b mem => one b (List.mem_cons_of_mem _ mem)
    rw [List.length_cons, takeMany, List.flatMap_cons, List.append_assoc, one b List.mem_cons_self]
    dsimp only [Option.bind_eq_bind, Option.bind_some]
    rw [others]
    rfl

end

end TdsqlMerge.Lib
