import Mathlib.Algebra.GroupWithZero.Nat
import Mathlib.Data.List.Basic

/-!
# Texts

Both halves of the program pass texts through files: Java strings written as UTF-8 by the splitter,
read as `std::string` by the loader. A text is modelled by the bytes of its UTF-8 form, each byte as the
character with its number (`utf8`, `bytes`), so an ASCII text is the list of its characters. The loader
works on bytes. What the splitter treats specially is ASCII, and the form of any other character has no
ASCII byte, so what it does to the characters of a string it does to the bytes. `std::string` compares
bytes as unsigned numbers, which is the order of `List Char`.
-/

namespace TdsqlMerge

/-- A text (`std::string`, `java.lang.String`), byte by byte. -/
abbrev Str := List Char

/-- The bytes of a text. -/
def bytes (s : Str) : List UInt8 := s.map fun c => c.toNat.toUInt8

/-- The text of a string. -/
def utf8 (s : String) : Str := (s.toList.flatMap String.utf8EncodeChar).map fun b => Char.ofNat b.toNat

/-- The bytes of the text of a string are those of its UTF-8 form. -/
lemma bytes_utf8 {s : String} : bytes (utf8 s) = s.toList.flatMap String.utf8EncodeChar := by
  rw [bytes, utf8, List.map_map]
  conv_rhs => rw [← List.map_id (s.toList.flatMap String.utf8EncodeChar)]
  apply List.map_congr_left
  intro b _
  have small : b.toNat.isValidChar := Or.inl (Nat.lt_trans b.toNat_lt (by decide))
  show (Char.ofNat b.toNat).toNat.toUInt8 = b
  rw [Char.ofNat, dif_pos small]
  exact UInt8.ofNat_toNat

/-- A property of all bytes of a text is decided by going through the text. -/
instance (priority := 2000) decidableChars {s : Str} {p : Char → Prop} [DecidablePred p] :
    Decidable (∀ c ∈ s, p c) := List.decidableBAll p s

/-- The column by which rows with equal keys are compared. -/
def updatedAt : Str := "updated_at".toList

/-- The marker `RowParser.parseOneRow` writes for a NULL cell. -/
def nullMarker : Str := "_NUll_&".toList

end TdsqlMerge
