import Mathlib.Data.BitVec
import TdsqlMerge.Basic
import TdsqlMerge.Lib.Split

/-!
# The GTID package

Embedding of `extfetcher/src/GtidSet.java`, as far as `GtidResolver.main` uses it, of
`extfetcher/src/GtidResolver.java` and of `ExternalFetcher::retrieveGtidPackage`
(`src/external/extfetcher.cpp`). `none` is a Java exception. A `long` is an integer that is wrapped where the
source computes with it, a `byte` has eight bits. `ByteArrayOutputStream` belongs to the binlog library and
is a parameter. `Long.parseLong` also takes digits that are not ASCII, and `>>` a sign and a `0x`; both are
left out.
-/

namespace TdsqlMerge.Fetcher
open Lib

/-- A byte of a package. -/
abbrev Byte := BitVec 8

/-- The value of an integer computed with 64 bits. -/
def long (n : Int) : Int := n.bmod (2 ^ 64)

/-- The value of an integer computed with 32 bits. -/
def int (n : Int) : Int := n.bmod (2 ^ 32)

/-- `Long.parseLong`. -/
def parseLong (s : Str) : Option Int :=
  let number (ds : Str) : Option Nat :=
    if ds ≠ [] ∧ ds.all Char.isDigit then some (Nat.ofDigitChars 10 ds 0) else none
  match s with
  | '-' :: ds => (number ds).bind fun n => if n ≤ 2 ^ 63 then some (-(n : Int)) else none
  | '+' :: ds => (number ds).bind fun n => if n < 2 ^ 63 then some (n : Int) else none
  | ds => (number ds).bind fun n => if n < 2 ^ 63 then some (n : Int) else none

/-- `GtidSet.Interval`; `stop` is its `end`. -/
structure Interval where
  start : Int
  stop : Int
  deriving DecidableEq

/-- `GtidSet.UUIDSet`. -/
structure UUIDSet where
  uuid : Str
  intervals : List Interval

/-- One iteration of the loop of `joinAdjacentIntervals`. -/
def joinAt (intervals : List Interval) (i : Nat) : List Interval :=
  match intervals[i - 1]?, intervals[i]? with
  | some a, some b =>
    -- the sum overflows for the greatest `long`
    if long (a.stop + 1) = b.start then (intervals.set (i - 1) { a with stop := b.stop }).eraseIdx i
    else intervals
  | _, _ => intervals

/-- `UUIDSet.joinAdjacentIntervals`. -/
def joinAdjacentIntervals (intervals : List Interval) (index : Nat) : List Interval :=
  let first := min (index + 1) (intervals.length - 1)
  let e := index - 1
  (List.range' (e + 1) (first - e)).reverse.foldl joinAt intervals

/-- `UUIDSet.UUIDSet`. -/
def UUIDSet.new (uuid : Str) (intervals : List Interval) : UUIDSet :=
  { uuid, intervals := if intervals.length > 1 then joinAdjacentIntervals intervals 0 else intervals }

/-- The body of the loop over `rawIntervals` in `GtidSet.GtidSet`. -/
def Interval.parse (interval : Str) : Option Interval := do
  let longs ← (split '-' interval).mapM parseLong
  match longs with
  | [] => none
  | [n] => some { start := n, stop := n }
  | n :: m :: _ => some { start := n, stop := m }

/-- The body of the loop over `uuidSets` in `GtidSet.GtidSet`. -/
def UUIDSet.parse (uuidSet : Str) : Option UUIDSet := do
  let uuidSeparatorIndex ← uuidSet.findIdx? fun c => c = ':'
  let sourceId := uuidSet.take uuidSeparatorIndex
  let rawIntervals := split ':' (uuidSet.drop (uuidSeparatorIndex + 1))
  let intervals ← rawIntervals.mapM Interval.parse
  some (.new sourceId intervals)

/-- `map.put`; the keys are the `uuid` of the sets. -/
def putUUIDSet (map : List UUIDSet) (s : UUIDSet) : List UUIDSet :=
  if map.any fun x => x.uuid = s.uuid then map.map fun x => if x.uuid = s.uuid then s else x
  else map ++ [s]

/-- `GtidSet.GtidSet`: the values of `map`. -/
def GtidSet.parse (gtidSet : Str) : Option (List UUIDSet) :=
  let uuidSets := if gtidSet.isEmpty then [] else split ',' (gtidSet.filter fun c => c ≠ '\n')
  uuidSets.foldlM (fun map uuidSet => (UUIDSet.parse uuidSet).map (putUUIDSet map)) []

/-- `Character.digit(c, 16)`. -/
def hexDigit (c : Char) : Option Nat :=
  if c.isDigit then some (c.toNat - '0'.toNat)
  else if 'a' ≤ c ∧ c ≤ 'f' then some (c.toNat - 'a'.toNat + 10)
  else if 'A' ≤ c ∧ c ≤ 'F' then some (c.toNat - 'A'.toNat + 10)
  else none

/-- `Integer.parseInt(c + "" + d, 16)`. -/
def parseHex (c d : Char) : Option Int := do
  let low ← hexDigit d
  -- `parseInt` takes a sign in front of the only digit
  if c = '+' then some low
  else if c = '-' then some (-low)
  else do
    let high ← hexDigit c
    some (16 * high + low)

/-- `GtidSet.hexToByteArray`. -/
def hexToByteArray : Str → Option (List Byte)
  | [] => some []
  -- `charAt(j + 1)` behind the last character
  | [_] => none
  | c :: d :: uuid => do
    let n ← parseHex c d
    let b ← hexToByteArray uuid
    some (BitVec.ofInt 8 n :: b)

/-- `com.github.shyiko.mysql.binlog.io.ByteArrayOutputStream`: what a write appends. -/
structure ByteArrayOutputStream where
  writeInteger : Int → Nat → List Byte
  writeLong : Int → Nat → List Byte

section
variable (buffer : ByteArrayOutputStream)

/-- The body of the second loop of `getCommandPackage`. -/
def UUIDSet.write (uuidSet : UUIDSet) : Option (List Byte) := do
  let uuid ← hexToByteArray (uuidSet.uuid.filter fun c => c ≠ '-')
  some (uuid ++ buffer.writeLong uuidSet.intervals.length 8 ++
    uuidSet.intervals.flatMap fun i => buffer.writeLong i.start 8 ++ buffer.writeLong (long (i.stop + 1)) 8)

/-- `GtidSet.getCommandPackage`. -/
def getCommandPackage (uuidSets : List UUIDSet) : Option (List Byte) := do
  let dataSize := uuidSets.foldl (fun n s => int (n + (16 + 8 + s.intervals.length * 16 : Int))) 8
  let sets ← uuidSets.mapM (UUIDSet.write buffer)
  some (buffer.writeInteger dataSize 4 ++ buffer.writeLong uuidSets.length 8 ++ sets.flatten)

/-- `String.format("%02X ", b)`: a negative byte is written with `2 ^ 8` added. -/
def formatByte (b : Byte) : Str :=
  let n := if b.toInt < 0 then b.toInt + 2 ^ 8 else b.toInt
  let ds := (Nat.toDigits 16 n.toNat).map Char.toUpper
  List.replicate (2 - ds.length) '0' ++ ds ++ [' ']

/-- `GtidResolver.main`. -/
def GtidResolver.main (gtidSetString : Str) : Option Str := do
  let gtidSet ← GtidSet.parse gtidSetString
  let gtidCommand ← getCommandPackage buffer gtidSet
  some ((gtidCommand.drop 4).flatMap formatByte)

/-- `ss >> std::hex >> byteInt`. -/
def readHex (s : Str) : Option (Nat × Str) :=
  let s := s.dropWhile Char.isWhitespace
  let digits := (s.takeWhile fun c => (hexDigit c).isSome).filterMap hexDigit
  let n := digits.foldl (fun n d => 16 * n + d) 0
  if digits ≠ [] ∧ n < 2 ^ 32 then some (n, s.drop digits.length) else none

/-- A number that was read took a character. -/
lemma readHex_lt {s rest : Str} {n : Nat} (read : readHex s = some (n, rest)) : rest.length < s.length := by
  simp only [readHex, ne_eq, Option.ite_none_right_eq_some, Option.some.injEq, Prod.mk.injEq] at read
  obtain ⟨⟨some, _⟩, _, rfl⟩ := read
  have le := (List.dropWhile_suffix Char.isWhitespace (l := s)).length_le
  have taken := List.length_filterMap_le hexDigit
    ((s.dropWhile Char.isWhitespace).takeWhile fun c => (hexDigit c).isSome)
  have digits := (List.takeWhile_prefix (fun c => (hexDigit c).isSome)
    (l := s.dropWhile Char.isWhitespace)).length_le
  have pos := List.length_pos_iff.mpr some
  rw [List.length_drop]
  omega

/-- The loop of `retrieveGtidPackage`. -/
def readPackage (s : Str) : List Byte :=
  match _read : readHex s with
  | some (byteInt, rest) => BitVec.ofNat 8 byteInt :: readPackage rest
  | none => []
termination_by s.length
decreasing_by exact readHex_lt _read

/-- `ExternalFetcher::retrieveGtidPackage`, for the configured `sql_gtid`. -/
def retrieveGtidPackage (sql_gtid : Str) : Option (List Byte) := do
  let packageString ← GtidResolver.main buffer sql_gtid
  some (readPackage packageString)

end

end TdsqlMerge.Fetcher
