import TdsqlMerge.Lib.LittleEndian
import TdsqlMerge.Fetcher.GtidText

/-!
# What the GTID package denotes

`decodePackage` reads the layout of MySQL's `COM_BINLOG_DUMP_GTID`. `readPackage_format` takes the package
through the hex text between Java and C++, `takeSet_write` reads one UUID set back, and
`package_denotes` says that the package decodes to the transactions that the configured text denotes.
-/

namespace TdsqlMerge.Fetcher
open Lib

/-! ## The layout -/

/-- A decoded UUID set: the UUID as a number, and the intervals with their exclusive ends. -/
structure ServerSet where
  server : Nat
  intervals : List (Nat × Nat)
  deriving DecidableEq

/-- The number that bytes spell, the highest first. -/
def spelled (bs : List Byte) : Nat := bs.foldl (fun n b => 256 * n + b.toNat) 0

/-- Start and exclusive end. -/
def takeInterval (bs : List Byte) : Option ((Nat × Nat) × List Byte) := do
  let (start, bs) ← takeLE 8 bs
  let (stop, bs) ← takeLE 8 bs
  some ((start, stop), bs)

/-- 16 bytes of a UUID, the number of its intervals, and the intervals. -/
def takeSet (bs : List Byte) : Option (ServerSet × List Byte) := do
  let (count, rest) ← takeLE 8 (bs.drop 16)
  let (intervals, rest) ← takeMany takeInterval count rest
  some ({ server := spelled (bs.take 16), intervals }, rest)

/-- The number of UUID sets, and the sets, without leftover bytes. -/
def decodePackage (bs : List Byte) : Option (List ServerSet) := do
  let (count, bs) ← takeLE 8 bs
  let (sets, bs) ← takeMany takeSet count bs
  if bs = [] then some sets else none

/-! ## The hex text -/

/-- The upper-case hex digit. -/
def hexChar (d : Nat) : Char := (Nat.digitChar d).toUpper

/-- A hex character is read back, and is no space. -/
lemma hexDigit_hexChar : ∀ d < 16, hexDigit (hexChar d) = some d ∧ (hexChar d).isWhitespace = false := by
  decide

/-- A byte below 256 is formatted as its two digits and a space. -/
lemma formatByte_ofNat : ∀ n < 256,
    formatByte (BitVec.ofNat 8 n) = [hexChar (n / 16), hexChar (n % 16), ' '] := by
  decide +kernel

/-- A byte is formatted as its two digits and a space. -/
lemma formatByte_eq (b : Byte) :
    formatByte b = [hexChar (b.toNat / 16), hexChar (b.toNat % 16), ' '] := by
  have eq := formatByte_ofNat b.toNat b.isLt
  rwa [BitVec.ofNat_toNat, BitVec.setWidth_eq] at eq

/-- The two digits of a byte are read as this byte, and the blank stays. -/
lemma readHex_format {b : Byte} {s : Str} : readHex (formatByte b ++ s) = some (b.toNat, ' ' :: s) := by
  have lt := b.isLt
  obtain ⟨high, black⟩ := hexDigit_hexChar (b.toNat / 16) (by omega)
  obtain ⟨low, _⟩ := hexDigit_hexChar (b.toNat % 16) (by omega)
  have blank : hexDigit ' ' = none := by decide
  have start : (formatByte b ++ s).dropWhile Char.isWhitespace = formatByte b ++ s := by
    rw [formatByte_eq, List.cons_append, List.dropWhile_cons_of_neg (by rw [black]; decide)]
  have digits : ((formatByte b ++ s).takeWhile fun c => (hexDigit c).isSome).filterMap hexDigit =
      [b.toNat / 16, b.toNat % 16] := by
    rw [formatByte_eq]
    simp [high, low, blank]
  have value : 16 * (16 * 0 + b.toNat / 16) + b.toNat % 16 = b.toNat := by omega
  unfold readHex
  dsimp only
  rw [start, digits, List.foldl_cons, List.foldl_cons, List.foldl_nil, value,
    if_pos ⟨List.cons_ne_nil _ _, by omega⟩, formatByte_eq]
  rfl

/-- The loop reads a byte and goes on. -/
lemma readPackage_some {s rest : Str} {n : Nat} (read : readHex s = some (n, rest)) :
    readPackage s = BitVec.ofNat 8 n :: readPackage rest := by
  rw [readPackage]
  split
  · rename_i other
    rw [read] at other
    cases other
    rfl
  · rename_i other
    rw [read] at other
    cases other

/-- Leading blanks are skipped. -/
lemma readPackage_blank {s : Str} : readPackage (' ' :: s) = readPackage s := by
  have same : readHex (' ' :: s) = readHex s := by
    unfold readHex
    rw [List.dropWhile_cons_of_pos (by decide)]
  rw [readPackage, readPackage, same]

/-- The bytes that were printed are read again, also those that are negative in Java. -/
lemma readPackage_format {bs : List Byte} : readPackage (bs.flatMap formatByte) = bs := by
  induction bs with
  | nil =>
    rw [readPackage]
    rfl
  | cons b bs ih =>
    rw [List.flatMap_cons, readPackage_some readHex_format, readPackage_blank, ih, BitVec.ofNat_toNat,
      BitVec.setWidth_eq]

/-! ## The UUID -/

/-- A hex digit is below 16. -/
lemma hexDigit_lt {c : Char} {n : Nat} (digit : hexDigit c = some n) : n < 16 := by
  unfold hexDigit at digit
  split at digit
  · rename_i ascii
    simp only [Char.isDigit, Bool.and_eq_true, decide_eq_true_eq] at ascii
    have le : c.toNat ≤ 57 := UInt32.le_iff_toNat_le.mp ascii.2
    have eq := Option.some.inj digit
    have zero : '0'.toNat = 48 := rfl
    omega
  · split at digit
    · rename_i range
      have le : c.toNat ≤ 102 := UInt32.le_iff_toNat_le.mp range.2
      have eq := Option.some.inj digit
      have a : 'a'.toNat = 97 := rfl
      omega
    · split at digit
      · rename_i range
        have le : c.toNat ≤ 70 := UInt32.le_iff_toNat_le.mp range.2
        have eq := Option.some.inj digit
        have a : 'A'.toNat = 65 := rfl
        omega
      · cases digit

/-- Two hex digits are read as one byte. -/
lemma parseHex_digits {c d : Char} {high low : Nat} (hc : hexDigit c = some high) (hd : hexDigit d = some low) :
    parseHex c d = some (16 * high + low : Int) := by
  have notPlus : c ≠ '+' := by
    rintro rfl
    cases hc
  have notMinus : c ≠ '-' := by
    rintro rfl
    cases hc
  rw [parseHex, hd, Option.bind_eq_bind, Option.bind_some, if_neg notPlus, if_neg notMinus, hc]
  rfl

/-- Pairs of hex digits are written as the bytes that spell the same number (`hexToByteArray`). -/
lemma hexToByteArray_digits {n : Nat} {cs : Str} (hex : ∀ c ∈ cs, (hexDigit c).isSome)
    (length : cs.length = 2 * n) :
    ∃ bs, hexToByteArray cs = some bs ∧ bs.length = n ∧ ∀ m,
      bs.foldl (fun n b => 256 * n + b.toNat) m = (cs.filterMap hexDigit).foldl (fun n d => 16 * n + d) m := by
  induction n generalizing cs with
  | zero =>
    rw [List.length_eq_zero_iff.mp length]
    exact ⟨[], rfl, rfl, fun _ => rfl⟩
  | succ n ih =>
    match cs, length with
    | c :: d :: cs, length =>
      obtain ⟨high, hc⟩ := Option.isSome_iff_exists.mp (hex c List.mem_cons_self)
      obtain ⟨low, hd⟩ := Option.isSome_iff_exists.mp (hex d (List.mem_cons_of_mem c List.mem_cons_self))
      have ltHigh := hexDigit_lt hc
      have ltLow := hexDigit_lt hd
      obtain ⟨bs, read, lengthBs, spells⟩ := ih
        (fun x mem => hex x (List.mem_cons_of_mem c (List.mem_cons_of_mem d mem)))
        (by rw [List.length_cons, List.length_cons] at length; omega)
      have byte : (BitVec.ofInt 8 (16 * high + low)).toNat = 16 * high + low := by
        rw [BitVec.toNat_ofInt]
        omega
      refine ⟨BitVec.ofInt 8 (16 * high + low) :: bs, ?_, ?_, ?_⟩
      · rw [hexToByteArray, parseHex_digits hc hd, read]
        rfl
      · rw [List.length_cons, lengthBs]
      · intro m
        have shift : 256 * m + (16 * high + low) = 16 * (16 * m + high) + low := by ring
        rw [List.foldl_cons, List.filterMap_cons_some hc, List.filterMap_cons_some hd, List.foldl_cons,
          List.foldl_cons, byte, spells, shift]

/-- The UUID of a set is written in 16 bytes that spell its number. -/
lemma SetText.WellFormed.uuid_bytes {s : SetText} (wf : s.WellFormed) :
    ∃ bs, hexToByteArray (s.uuid.filter fun c => c ≠ '-') = some bs ∧ bs.length = 16 ∧ spelled bs = s.server := by
  have dash : hexDigit '-' = none := by decide
  have hex : ∀ c ∈ s.uuid.filter fun c => c ≠ '-', (hexDigit c).isSome := by
    intro c mem
    obtain ⟨mem, ne⟩ := List.mem_filter.mp mem
    exact (wf.hex c mem).resolve_left (of_decide_eq_true ne)
  have same : (s.uuid.filter fun c => c ≠ '-').filterMap hexDigit = s.uuid.filterMap hexDigit := by
    rw [List.filterMap_filter]
    apply List.filterMap_congr
    intro c _
    split
    · rfl
    · rename_i eq
      have eq : c = '-' := by simpa using eq
      rw [eq, dash]
  have length : (s.uuid.filter fun c => c ≠ '-').length = 2 * 16 := by
    rw [← List.filterMap_length_eq_length.mpr hex, same, wf.digits]
  obtain ⟨bs, read, sixteen, spells⟩ := hexToByteArray_digits hex length
  refine ⟨bs, read, sixteen, ?_⟩
  rw [spelled, spells, same, SetText.server]

/-! ## The package -/

/-- The library writes integers in two's complement, the lowest byte first. -/
structure LittleEndian (buffer : ByteArrayOutputStream) : Prop where
  writeInteger : ∀ n w, w ≤ 4 → buffer.writeInteger n w = bytesLE w (n % 256 ^ w).toNat
  writeLong : ∀ n w, w ≤ 8 → buffer.writeLong n w = bytesLE w (n % 256 ^ w).toNat

/-- Start and exclusive end of an interval of the constructor. -/
def Interval.ends (i : Interval) : Nat × Nat := (i.start.toNat, (i.stop + 1).toNat)

/-- What is to be decoded for a set of the text. -/
def SetText.decoded (s : SetText) : ServerSet :=
  { server := s.server, intervals := s.value.intervals.map Interval.ends }

/-- The ends of the intervals say which transactions they cover. -/
lemma ends_covers {is : List Interval} (o : Ordered is) {transaction : Nat} :
    Covers is transaction ↔ ∃ i ∈ is.map Interval.ends, i.1 ≤ transaction ∧ transaction < i.2 := by
  have same (i : Interval) (mem : i ∈ is) : i.start ≤ transaction ∧ (transaction : Int) ≤ i.stop ↔
      i.ends.1 ≤ transaction ∧ transaction < i.ends.2 := by
    have bounds := o.bounds i mem
    simp only [Interval.ends]
    omega
  constructor
  · rintro ⟨i, mem, inside⟩
    exact ⟨i.ends, List.mem_map_of_mem mem, (same i mem).mp inside⟩
  · rintro ⟨_, mem, inside⟩
    obtain ⟨i, there, rfl⟩ := List.mem_map.mp mem
    exact ⟨i, there, (same i there).mpr inside⟩

/-- The ends of the intervals are in order. -/
lemma ends_increasing {is : List Interval} (o : Ordered is) :
    (∀ i ∈ is.map Interval.ends, i.1 < i.2) ∧ (is.map Interval.ends).Pairwise fun i j => i.2 ≤ j.1 := by
  constructor
  · intro _ mem
    obtain ⟨i, there, rfl⟩ := List.mem_map.mp mem
    have bounds := o.bounds i there
    simp only [Interval.ends]
    omega
  · rw [List.pairwise_map]
    apply o.increasing.imp
    intro i j lt
    simp only [Interval.ends]
    omega

section
variable {buffer : ByteArrayOutputStream} (lib : LittleEndian buffer)
include lib

/-- A number that is not negative is written with its low byte first. -/
lemma LittleEndian.writeLong_eq {n : Int} (nonneg : 0 ≤ n) (lt : n < 2 ^ 63) :
    buffer.writeLong n 8 = bytesLE 8 n.toNat := by
  rw [lib.writeLong n 8 (le_refl _), Int.emod_eq_of_lt nonneg (by omega)]

/-- A written number is decoded. -/
lemma LittleEndian.takeLE_writeLong {n : Int} (nonneg : 0 ≤ n) (lt : n < 2 ^ 63) (rest : List Byte) :
    takeLE 8 (buffer.writeLong n 8 ++ rest) = some (n.toNat, rest) := by
  rw [lib.writeLong_eq nonneg lt, takeLE_append (by omega)]

/-- A written interval is decoded; its end becomes exclusive. -/
lemma takeInterval_write {is : List Interval} (o : Ordered is) {i : Interval} (mem : i ∈ is) (rest : List Byte) :
    takeInterval (buffer.writeLong i.start 8 ++ buffer.writeLong (long (i.stop + 1)) 8 ++ rest) =
      some (i.ends, rest) := by
  have bounds := o.bounds i mem
  rw [takeInterval, List.append_assoc, lib.takeLE_writeLong (by omega) (by omega)]
  dsimp only [Option.bind_eq_bind, Option.bind_some]
  rw [long_eq (by omega) (by omega), lib.takeLE_writeLong (by omega) (by omega)]
  rfl

/-- A written UUID set is decoded. -/
lemma takeSet_write {s : SetText} (wf : s.WellFormed) (fits : s.intervals.length < 2 ^ 31) :
    ∃ bs, UUIDSet.write buffer s.value = some bs ∧ ∀ rest, takeSet (bs ++ rest) = some (s.decoded, rest) := by
  obtain ⟨uuid, read, sixteen, spells⟩ := wf.uuid_bytes
  have ordered : Ordered s.value.intervals := UUIDSet.new_ordered wf.ordered
  have length : s.value.intervals.length < 2 ^ 31 := by
    have le : s.value.intervals.length ≤ (s.intervals.map IntervalText.value).length :=
      UUIDSet.new_length wf.ordered
    rw [List.length_map] at le
    omega
  refine ⟨_, by rw [UUIDSet.write, SetText.value_uuid, read]; rfl, ?_⟩
  intro rest
  have count : (s.value.intervals.length : Int).toNat = s.value.intervals.length := Int.toNat_natCast _
  rw [takeSet, List.append_assoc, List.append_assoc, List.drop_left' sixteen, List.take_left' sixteen,
    lib.takeLE_writeLong (by omega) (by omega), count]
  dsimp only [Option.bind_eq_bind, Option.bind_some]
  rw [takeMany_append fun i mem rest => takeInterval_write lib ordered mem rest, spells]
  rfl

end

/-- There are fewer sets in a text than characters, and fewer intervals in each of them. -/
lemma GtidText.fit {text : Str} {sets : List SetText} (t : GtidText text sets) :
    sets.length < 2 ^ 31 ∧ ∀ s ∈ sets, s.intervals.length < 2 ^ 31 := by
  have shorter : (text.filter fun c => c ≠ '\n').length ≤ text.length := List.length_filter_le _ _
  have fits := t.fits
  rw [t.written] at shorter
  constructor
  -- a set or an interval takes a character at least
  · have le : (sets.map SetText.text).length ≤ (List.intercalate [','] (sets.map SetText.text)).length := by
      apply length_le_intercalate
      intro p mem
      obtain ⟨s, _, rfl⟩ := List.mem_map.mp mem
      exact SetText.text_ne_nil
    rw [List.length_map] at le
    omega
  · intro s mem
    have le : (s.intervals.map IntervalText.text).length ≤
        (List.intercalate [':'] (s.intervals.map IntervalText.text)).length := by
      apply length_le_intercalate
      intro p inside
      obtain ⟨i, there, rfl⟩ := List.mem_map.mp inside
      exact ((t.wellFormed s mem).intervals i there).text_ne_nil
    have part : s.text.length ≤ (List.intercalate [','] (sets.map SetText.text)).length :=
      length_le_intercalate_of_mem (List.mem_map_of_mem mem)
    rw [SetText.text, List.length_append, List.length_cons] at part
    rw [List.length_map] at le
    omega

/-- The bytes of a UUID in the package. -/
def SetText.bytes (buffer : ByteArrayOutputStream) (s : SetText) : List Byte :=
  (UUIDSet.write buffer s.value).getD []

/-- They are written, and decoded as the UUID with its intervals. -/
lemma SetText.write_bytes {buffer : ByteArrayOutputStream} {s : SetText} (lib : LittleEndian buffer)
    (wf : s.WellFormed) (few : s.intervals.length < 2 ^ 31) :
    UUIDSet.write buffer s.value = some (s.bytes buffer) ∧
      ∀ rest, takeSet (s.bytes buffer ++ rest) = some (s.decoded, rest) := by
  obtain ⟨bs, written, decodes⟩ := takeSet_write lib wf few
  rw [SetText.bytes, written, Option.getD_some]
  exact ⟨rfl, decodes⟩

/-- The package of a text is decoded set by set. -/
lemma decodePackage_retrieve {buffer : ByteArrayOutputStream} (lib : LittleEndian buffer) {text : Str}
    {sets : List SetText} (t : GtidText text sets) :
    ∃ package, retrieveGtidPackage buffer text = some package ∧
      decodePackage package = some (sets.map SetText.decoded) := by
  obtain ⟨count, counts⟩ := t.fit
  have one (s : SetText) (mem : s ∈ sets) := SetText.write_bytes lib (t.wellFormed s mem) (counts s mem)
  have all : (sets.map SetText.value).mapM (UUIDSet.write buffer) =
      some (sets.map (SetText.bytes buffer)) := by
    rw [mapM_eq_some, List.forall₂_map_left_iff, List.forall₂_map_right_iff, List.forall₂_same]
    intro s mem
    exact (one s mem).1
  have four (n : Int) : (buffer.writeInteger n 4).length = 4 := by
    rw [lib.writeInteger n 4 (le_refl _), bytesLE_length]
  refine ⟨buffer.writeLong sets.length 8 ++ sets.flatMap (SetText.bytes buffer), ?_, ?_⟩
  · rw [retrieveGtidPackage, GtidResolver.main, GtidSet.parse_text t]
    dsimp only [Option.bind_eq_bind, Option.bind_some]
    rw [getCommandPackage, all]
    dsimp only [Option.bind_eq_bind, Option.bind_some]
    -- the size of the payload comes first and is skipped
    rw [List.append_assoc, List.drop_left' (four _), readPackage_format, List.length_map, List.flatMap_def]
  · have number : (sets.length : Int).toNat = sets.length := Int.toNat_natCast _
    have sent : takeMany takeSet sets.length (sets.flatMap (SetText.bytes buffer)) =
        some (sets.map SetText.decoded, []) := by
      have read (rest : List Byte) : takeMany takeSet sets.length (sets.flatMap (SetText.bytes buffer) ++ rest) =
          some (sets.map SetText.decoded, rest) := takeMany_append fun s mem => (one s mem).2
      rw [← read, List.append_nil]
    rw [decodePackage, lib.takeLE_writeLong (by omega) (by omega), number]
    dsimp only [Option.bind_eq_bind, Option.bind_some]
    rw [sent]
    rfl

/-- The package that is sent decodes, without leftover bytes, to the UUIDs of the text in their order and to the
transactions that the text denotes, with the intervals of every UUID in increasing order. -/
theorem package_denotes {buffer : ByteArrayOutputStream} (lib : LittleEndian buffer) {text : Str}
    {sets : List SetText} (t : GtidText text sets) :
    ∃ package decoded, retrieveGtidPackage buffer text = some package ∧ decodePackage package = some decoded ∧
      decoded.map ServerSet.server = sets.map SetText.server ∧
      (∀ server transaction, Denotes sets server transaction ↔
        ∃ s ∈ decoded, s.server = server ∧ ∃ i ∈ s.intervals, i.1 ≤ transaction ∧ transaction < i.2) ∧
      ∀ s ∈ decoded, (∀ i ∈ s.intervals, i.1 < i.2) ∧ s.intervals.Pairwise fun i j => i.2 ≤ j.1 := by
  obtain ⟨package, retrieved, decoded⟩ := decodePackage_retrieve lib t
  have ordered (s : SetText) (mem : s ∈ sets) : Ordered s.value.intervals :=
    UUIDSet.new_ordered (t.wellFormed s mem).ordered
  refine ⟨package, _, retrieved, decoded, by rw [List.map_map]; rfl, ?_, ?_⟩
  · intro server transaction
    rw [denotes_iff t.wellFormed]
    constructor
    · rintro ⟨s, mem, eq, covers⟩
      exact ⟨s.decoded, List.mem_map_of_mem mem, eq, (ends_covers (ordered s mem)).mp covers⟩
    · rintro ⟨_, mem, eq, inside⟩
      obtain ⟨s, there, rfl⟩ := List.mem_map.mp mem
      exact ⟨s, there, eq, (ends_covers (ordered s there)).mpr inside⟩
  · intro _ mem
    obtain ⟨s, there, rfl⟩ := List.mem_map.mp mem
    exact ends_increasing (ordered s there)

/-- A stream that writes the lowest byte first. -/
def littleEndian : ByteArrayOutputStream :=
  { writeInteger := fun n w => bytesLE w (n % 256 ^ w).toNat
    writeLong := fun n w => bytesLE w (n % 256 ^ w).toNat }

/-- Two servers; the first two intervals of the first one touch, and so do the last two. -/
def twoServers : List SetText :=
  [{ uuid := "3E11FA47-71CA-11E1-9E33-C80AA9429562".toList
     intervals := [⟨"1".toList, some "3".toList⟩, ⟨"4".toList, some "5".toList⟩, ⟨"11".toList, none⟩,
       ⟨"12".toList, some "9223372036854775806".toList⟩] },
   { uuid := "fffe0000-71ca-11e1-9e33-c80aa9429562".toList, intervals := [⟨"7".toList, none⟩] }]

/-- The text of the two servers, in two lines. -/
def twoServersText : Str :=
  ("3E11FA47-71CA-11E1-9E33-C80AA9429562:1-3:4-5:11:12-9223372036854775806,\n" ++
    "fffe0000-71ca-11e1-9e33-c80aa9429562:7").toList

/-- The package of the two servers. -/
theorem twoServers_denotes :
    ∃ package decoded, retrieveGtidPackage littleEndian twoServersText = some package ∧
      decodePackage package = some decoded ∧
      decoded.map ServerSet.server = twoServers.map SetText.server ∧
      (∀ server transaction, Denotes twoServers server transaction ↔
        ∃ s ∈ decoded, s.server = server ∧ ∃ i ∈ s.intervals, i.1 ≤ transaction ∧ transaction < i.2) ∧
      ∀ s ∈ decoded, (∀ i ∈ s.intervals, i.1 < i.2) ∧ s.intervals.Pairwise fun i j => i.2 ≤ j.1 :=
  package_denotes ⟨fun _ _ _ => rfl, fun _ _ _ => rfl⟩
    { written := by decide +kernel
      empty := fun e => absurd e (List.cons_ne_nil _ _)
      wellFormed := by decide +kernel
      once := by decide +kernel
      fits := by decide +kernel }

end TdsqlMerge.Fetcher
