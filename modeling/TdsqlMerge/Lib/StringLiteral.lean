import Mathlib.Tactic.Common
import Mathlib.Data.List.Basic

/-!
# String literals

`readLiteral` reads a text in single quotes by the default rules of MySQL: a backslash starts an escape, a
quote ends the literal unless it is escaped or doubled. It returns what the literal denotes and the text after
it, or nothing if the literal does not end.
-/

namespace TdsqlMerge.Lib

/-- What a backslash and this character denote. `\%` and `\_` keep the backslash, for patterns. -/
def unescape : Char → List Char
  | '0' => [Char.ofNat 0]
  | 'b' => [Char.ofNat 8]
  | 'n' => ['\n']
  | 'r' => ['\r']
  | 't' => ['\t']
  | 'Z' => [Char.ofNat 26]
  | '%' => ['\\', '%']
  | '_' => ['\\', '_']
  | c => [c]

/-- The rest of a literal after its opening quote. -/
def readBody : List Char → Option (List Char × List Char)
  | [] => none
  | c :: rest =>
    if c = '\'' then
      match rest with
      | '\'' :: rest => (readBody rest).map fun x => ('\'' :: x.1, x.2)
      | _ => some ([], rest)
    else if c = '\\' then
      match rest with
      | [] => none
      | d :: rest => (readBody rest).map fun x => (unescape d ++ x.1, x.2)
    else (readBody rest).map fun x => (c :: x.1, x.2)

/-- A literal. -/
def readLiteral : List Char → Option (List Char × List Char)
  | '\'' :: rest => readBody rest
  | _ => none

variable {c d : Char} {s rest w : List Char}

/-- The text does not start with a quote. -/
def Unquoted (s : List Char) : Prop := ∀ X, s ≠ '\'' :: X

/-- A doubled quote means a quote. -/
lemma readBody_doubled : readBody ('\'' :: '\'' :: rest) = (readBody rest).map fun x => ('\'' :: x.1, x.2) := by
  rw [readBody, if_pos rfl]

/-- A single quote ends the body. -/
lemma readBody_close (next : Unquoted rest) : readBody ('\'' :: rest) = some ([], rest) := by
  rw [readBody.eq_def]
  dsimp only
  rw [if_pos rfl]
  split
  · exact absurd rfl (next _)
  · rfl

/-- A backslash and a character mean what they escape. -/
lemma readBody_escape :
    readBody ('\\' :: d :: rest) = (readBody rest).map fun x => (unescape d ++ x.1, x.2) := by
  rw [readBody.eq_def]
  dsimp only
  rw [if_neg (by decide), if_pos rfl]

/-- Any other character means itself. -/
lemma readBody_plain (quote : c ≠ '\'') (bs : c ≠ '\\') :
    readBody (c :: rest) = (readBody rest).map fun x => (c :: x.1, x.2) := by
  rw [readBody.eq_def]
  dsimp only
  rw [if_neg quote, if_neg bs]

/-- Only the two pattern escapes keep their backslash. -/
lemma unescape_pattern (h : d = '%' ∨ d = '_') : unescape d = ['\\', d] := by
  rcases h with rfl | rfl <;> rfl

/-- The other escapes denote one character, which is a backslash only for the backslash. -/
lemma unescape_single (h : ¬ (d = '%' ∨ d = '_')) : ∃ e, unescape d = [e] ∧ (e = '\\' ↔ d = '\\') := by
  rw [not_or] at h
  unfold unescape
  split <;> first
    | exact ⟨_, rfl, by decide⟩
    | exact absurd rfl h.1
    | exact absurd rfl h.2
    | exact ⟨d, rfl, Iff.rfl⟩

/-- An escape means something. -/
lemma unescape_ne_nil : unescape d ≠ [] := by
  by_cases pattern : d = '%' ∨ d = '_'
  · rw [unescape_pattern pattern]
    exact List.cons_ne_nil _ _
  · obtain ⟨e, single, _⟩ := unescape_single pattern
    rw [single]
    exact List.cons_ne_nil _ _

/-! What one step of the reader did. -/

/-- What is read behind a backslash. -/
lemma readBody_escape_some (read : readBody ('\\' :: d :: s) = some (w, rest)) :
    ∃ v, readBody s = some (v, rest) ∧ w = unescape d ++ v := by
  rw [readBody_escape, Option.map_eq_some_iff] at read
  obtain ⟨⟨v, rest'⟩, read, e⟩ := read
  cases e
  exact ⟨v, read, rfl⟩

/-- What is read behind a plain character. -/
lemma readBody_plain_some (quote : c ≠ '\'') (bs : c ≠ '\\') (read : readBody (c :: s) = some (w, rest)) :
    ∃ v, readBody s = some (v, rest) ∧ w = c :: v := by
  rw [readBody_plain quote bs, Option.map_eq_some_iff] at read
  obtain ⟨⟨v, rest'⟩, read, e⟩ := read
  cases e
  exact ⟨v, read, rfl⟩

/-- A literal that denotes nothing ends at once. -/
lemma readBody_ne_nil (next : Unquoted s) : readBody s ≠ some ([], rest) := by
  intro read
  cases s with
  | nil => cases read
  | cons c s =>
    have quote : c ≠ '\'' := by
      rintro rfl
      exact next s rfl
    by_cases bs : c = '\\'
    · subst bs
      cases s with
      | nil => cases read
      | cons d s =>
        obtain ⟨v, _, e⟩ := readBody_escape_some read
        exact unescape_ne_nil (List.append_eq_nil_iff.mp e.symm).1
    · obtain ⟨v, _, e⟩ := readBody_plain_some quote bs read
      cases e

end TdsqlMerge.Lib
