import TdsqlMerge.Fetcher.ExternalFetcher
import TdsqlMerge.Fetcher.GtidText

/-!
# The files between fetching and splitting

Embedding of the loop of `ExternalFetcher::dumpEventToFile` (`src/external/extfetcher.cpp`), which appends every
event to a `.bin` file and its length to a `.binlen` file, and of the way `CanalSplitter.doSplit`
(`extfetcher/src/CanalSplitter.java`) reads them back. `java.util.Scanner` is described for numbers without
group separators. `dumpEvents_read` says which events come back.
-/

namespace TdsqlMerge.Fetcher
open Lib

/-- The `.bin` and the `.binlen` file. -/
structure BinlogFiles where
  binlog : List UInt8
  event_length : Str

/-- The body of the loop of `dumpEventToFile` for a buffer that is not empty. -/
def BinlogFiles.write (files : BinlogFiles) (buffer : Packet) : BinlogFiles :=
  { binlog := files.binlog ++ buffer.drop 1
    event_length := files.event_length ++ Nat.toDigits 10 (buffer.length - 1) ++ ['\n'] }

/-- The loop of `dumpEventToFile` over what `mysql_binlog_fetch` delivers; an empty buffer is the end. -/
def dumpEvents (files : BinlogFiles) : List Packet → BinlogFiles
  | [] => files
  | buffer :: stream => if buffer.length = 0 then files else dumpEvents (files.write buffer) stream

/-- `dumpEventToFile`: the files are written anew. -/
def dumpEventToFile (stream : List Packet) : BinlogFiles := dumpEvents { binlog := [], event_length := [] } stream

/-- The tokens of a `Scanner`; `token` is the one that has begun. -/
def tokensFrom (token : Str) : Str → List Str
  | [] => if token = [] then [] else [token]
  | c :: s =>
    if c.isWhitespace then
      if token = [] then tokensFrom [] s else token :: tokensFrom [] s
    else tokensFrom (token ++ [c]) s

/-- The token as `Scanner.nextInt` reads it; `none` if `hasNextInt` is false. -/
def nextInt (token : Str) : Option Int := (parseLong token).filter fun n => -2 ^ 31 ≤ n ∧ n < 2 ^ 31

/-- What `lenReader.nextInt` returns until `lenReader.hasNextInt` is false. -/
def lengths (event_length : Str) : List Int := go (tokensFrom [] event_length)
where
  go : List Str → List Int
    | [] => []
    | token :: tokens => match nextInt token with
      | some n => n :: go tokens
      | none => []

/-- The arrays that the loop of `doSplit` hands to the decoder: `read` fills as much of `new byte[eventLength]` as the
    file has left. `none` is `NegativeArraySizeException`. -/
def readEvents : List Int → List UInt8 → Option (List Packet)
  | [], _ => some []
  | eventLength :: eventLengths, stream =>
    if eventLength < 0 then none
    else do
      let eventByte := stream.take eventLength.toNat
      let events ← readEvents eventLengths (stream.drop eventLength.toNat)
      some ((eventByte ++ List.replicate (eventLength.toNat - eventByte.length) 0) :: events)

/-- The events that `doSplit` reads from the files. -/
def BinlogFiles.read (files : BinlogFiles) : Option (List Packet) :=
  readEvents (lengths files.event_length) files.binlog

section
variable {files : BinlogFiles} {stream : List Packet} {word rest token : Str}

/-- A word without spaces becomes part of the token. -/
lemma tokensFrom_word (inside : ∀ c ∈ word, c.isWhitespace = false) :
    tokensFrom token (word ++ rest) = tokensFrom (token ++ word) rest := by
  induction word generalizing token with
  | nil => rw [List.nil_append, List.append_nil]
  | cons c word ih =>
    have c_in := inside c List.mem_cons_self
    rw [List.cons_append, tokensFrom, if_neg (by rw [c_in]; exact Bool.false_ne_true),
      ih fun d mem => inside d (List.mem_cons_of_mem _ mem), List.append_assoc, List.singleton_append]

/-- A line is a token. -/
lemma tokensFrom_line (some : word ≠ []) (inside : ∀ c ∈ word, c.isWhitespace = false) :
    tokensFrom [] (word ++ '\n' :: rest) = word :: tokensFrom [] rest := by
  rw [tokensFrom_word inside, List.nil_append, tokensFrom, if_pos (by decide), if_neg some]

/-- A digit is no space. -/
lemma digit_inside {c : Char} (digit : c.isDigit = true) : c.isWhitespace = false := by
  by_contra space
  rw [Bool.not_eq_false, Char.isWhitespace] at space
  simp only [Bool.or_eq_true, decide_eq_true_eq] at space
  rcases space with ((rfl | rfl) | rfl) | rfl <;> exact absurd digit (by decide)

/-- The digits of a number are read back as long as it fits. -/
lemma parseLong_toDigits {n : Nat} :
    parseLong (Nat.toDigits 10 n) = if n < 2 ^ 63 then some (n : Int) else none := by
  have digits : ∀ c ∈ Nat.toDigits 10 n, c.isDigit = true := fun c mem =>
    Nat.isDigit_of_mem_toDigits (by decide) (by decide) mem
  have value : Nat.ofDigitChars 10 (Nat.toDigits 10 n) 0 = n := Nat.ofDigitChars_ten_toDigits
  have some' : Nat.toDigits 10 n ≠ [] := Nat.toDigits_ne_nil
  unfold parseLong
  split
  · rename_i ds e
    have sign := digits '-' (by rw [e]; exact List.mem_cons_self)
    exact absurd sign (by decide)
  · rename_i ds e
    have sign := digits '+' (by rw [e]; exact List.mem_cons_self)
    exact absurd sign (by decide)
  · dsimp only
    rw [value, if_pos ⟨some', List.all_eq_true.mpr digits⟩, Option.bind_some]

/-- The length of an event is read back while it fits into an `int`. -/
lemma nextInt_length {n : Nat} :
    nextInt (Nat.toDigits 10 n) = if n < 2 ^ 31 then some (n : Int) else none := by
  rw [nextInt, parseLong_toDigits]
  by_cases lt : n < 2 ^ 31
  · have fits : (-2 ^ 31 : Int) ≤ n ∧ (n : Int) < 2 ^ 31 := by omega
    rw [if_pos lt, if_pos (by omega), Option.filter_some, if_pos (decide_eq_true fits)]
  · have big : ¬ ((-2 ^ 31 : Int) ≤ n ∧ (n : Int) < 2 ^ 31) := by omega
    rw [if_neg lt]
    split
    · rw [Option.filter_some, if_neg (by rw [decide_eq_true_eq]; exact big)]
    · rfl

/-- What the files hold: the events before the empty buffer, and a line for the length of each. -/
lemma dumpEvents_eq :
    dumpEvents files stream =
      { binlog := files.binlog ++ (stream.takeWhile fun b => b.length ≠ 0).flatMap fun b => b.drop 1
        event_length := files.event_length ++
          (stream.takeWhile fun b => b.length ≠ 0).flatMap fun b => Nat.toDigits 10 (b.length - 1) ++ ['\n'] } := by
  induction stream generalizing files with
  | nil =>
    simp only [dumpEvents, List.takeWhile_nil, List.flatMap_nil, List.append_nil]
  | cons buffer stream ih =>
    rw [dumpEvents]
    split
    · rename_i empty
      simp only [List.takeWhile_cons, empty, ne_eq, not_true_eq_false, decide_false, Bool.false_eq_true, if_false,
        List.flatMap_nil, List.append_nil]
    · rename_i more
      rw [ih, List.takeWhile_cons_of_pos (by simpa using more), List.flatMap_cons, List.flatMap_cons]
      simp only [BinlogFiles.write, List.append_assoc]

/-- The lengths are read back up to the first that does not fit. -/
lemma lengths_lines {events : List Packet} :
    lengths (events.flatMap fun b => Nat.toDigits 10 (b.length - 1) ++ ['\n']) =
      (events.takeWhile fun b => b.length - 1 < 2 ^ 31).map fun b => ((b.length - 1 : Nat) : Int) := by
  have tokens : tokensFrom [] (events.flatMap fun b => Nat.toDigits 10 (b.length - 1) ++ ['\n']) =
      events.map fun b => Nat.toDigits 10 (b.length - 1) := by
    induction events with
    | nil => rfl
    | cons b events ih =>
      have inside : ∀ c ∈ Nat.toDigits 10 (b.length - 1), c.isWhitespace = false := fun c mem =>
        digit_inside (Nat.isDigit_of_mem_toDigits (by decide) (by decide) mem)
      rw [List.flatMap_cons, List.append_assoc, List.singleton_append, tokensFrom_line Nat.toDigits_ne_nil inside, ih,
        List.map_cons]
  rw [lengths, tokens]
  clear tokens
  induction events with
  | nil => rfl
  | cons b events ih =>
    rw [List.map_cons, lengths.go, nextInt_length]
    by_cases lt : b.length - 1 < 2 ^ 31
    · simp only [lt, if_true, List.takeWhile_cons, decide_true, List.map_cons, ih]
    · simp only [lt, if_false, List.takeWhile_cons, decide_false, Bool.false_eq_true, List.map_nil]

/-- With the lengths beside them, the events are cut out of the file again. -/
lemma readEvents_flat {events : List Packet} {tail : List UInt8} :
    readEvents (events.map fun b => ((b.length - 1 : Nat) : Int)) ((events.flatMap fun b => b.drop 1) ++ tail) =
      some (events.map fun b => b.drop 1) := by
  induction events with
  | nil => rfl
  | cons b events ih =>
    have len : (b.drop 1).length = b.length - 1 := List.length_drop
    rw [List.map_cons, readEvents, if_neg (by omega), Int.toNat_natCast, List.flatMap_cons, List.append_assoc, ← len,
      List.take_left, List.drop_left, ih]
    simp only [Option.bind_eq_bind, Option.bind_some, Nat.sub_self, List.replicate_zero, List.append_nil, List.map_cons]

/-- The packets before the end or the first one that is too long. -/
lemma takeWhile_fits (stream : List Packet) :
    ((stream.takeWhile fun b => b.length ≠ 0).takeWhile fun b => b.length - 1 < 2 ^ 31) =
    stream.takeWhile fun b => b.length ≠ 0 ∧ b.length ≤ 2 ^ 31 := by
  induction stream with
  | nil => rfl
  | cons b stream ih =>
    by_cases empty : b.length = 0
    · simp only [List.takeWhile_cons, empty, ne_eq, not_true_eq_false, false_and, decide_false, Bool.false_eq_true,
        if_false, List.takeWhile_nil]
    · have fits : b.length - 1 < 2 ^ 31 ↔ b.length ≤ 2 ^ 31 := by omega
      simp only [List.takeWhile_cons, empty, ne_eq, not_false_eq_true, decide_true, if_true, fits, true_and]
      split
      · exact congrArg _ ih
      · rfl

/-- Whatever `mysql_binlog_fetch` delivers, `doSplit` reads from the files the events without their first byte, each
    as it came and in order, up to the end of the stream or the first event of more than `2 ^ 31` bytes. -/
theorem dumpEvents_read (stream : List Packet) :
    (dumpEventToFile stream).read =
      some ((stream.takeWhile fun buffer => buffer.length ≠ 0 ∧ buffer.length ≤ 2 ^ 31).map fun buffer =>
        buffer.drop 1) := by
  obtain ⟨long, split⟩ : ∃ long, (stream.takeWhile fun b => b.length ≠ 0) =
      ((stream.takeWhile fun b => b.length ≠ 0).takeWhile fun b => b.length - 1 < 2 ^ 31) ++ long :=
    ⟨_, List.takeWhile_append_dropWhile.symm⟩
  have same := takeWhile_fits stream
  rw [BinlogFiles.read, dumpEventToFile, dumpEvents_eq, List.nil_append, List.nil_append, lengths_lines, same]
  rw [same] at split
  rw [split, List.flatMap_append]
  exact readEvents_flat

end

end TdsqlMerge.Fetcher
