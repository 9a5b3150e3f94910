import Mathlib.Data.List.Perm.Subperm
import TdsqlMerge.Fetcher.GtidAdd
import TdsqlMerge.Fetcher.GtidPackage

/-!
# Comparing and writing GTID sets

Embedding of `isContainedWithin`, `equals` and `toString` of `GtidSet` and of its classes
(`extfetcher/src/GtidSet.java`). On sets with separated intervals, `equals` and `isContainedWithin` are equality and
inclusion of what the sets have (`comparison_iff`). The text of such a set is read back
as the set, and the package for this text has its transactions (`toString_package`).
-/

namespace TdsqlMerge.Fetcher
open Lib

/-- `String.equalsIgnoreCase`, for letters that are ASCII. -/
def equalsIgnoreCase (s t : Str) : Bool := s.map Char.toLower = t.map Char.toLower

/-- `Interval.isContainedWithin`. -/
def Interval.isContainedWithin (i other : Interval) : Bool := i.start ≥ other.start && i.stop ≤ other.stop

/-- `UUIDSet.isContainedWithin`. -/
def UUIDSet.isContainedWithin (s other : UUIDSet) : Bool :=
  if !equalsIgnoreCase s.uuid other.uuid then false
  else if s.intervals.isEmpty then true
  else if other.intervals.isEmpty then false
  else s.intervals.all fun thisInterval => other.intervals.any thisInterval.isContainedWithin

/-- `UUIDSet.equals`. -/
def UUIDSet.equals (s that : UUIDSet) : Bool := equalsIgnoreCase s.uuid that.uuid && s.intervals = that.intervals

/-- `GtidSet.equals`: the maps have the same size, and each entry equals the one that is found under its key. -/
def GtidSet.equals (map that : List UUIDSet) : Bool :=
  map.length = that.length && map.all fun s => (getUUIDSet that s.uuid).any s.equals

/-- `GtidSet.isContainedWithin`. -/
def GtidSet.isContainedWithin (map other : List UUIDSet) : Bool :=
  if GtidSet.equals map other then true
  -- a source that `other` does not have is not contained in `null`
  else map.all fun uuidSet => (getUUIDSet other uuidSet.uuid).any uuidSet.isContainedWithin

/-- `Long.toString`. -/
def longToString (n : Int) : Str := if n < 0 then '-' :: Nat.toDigits 10 n.natAbs else Nat.toDigits 10 n.natAbs

/-- `Interval.toString`. -/
def Interval.toString (i : Interval) : Str := longToString i.start ++ ['-'] ++ longToString i.stop

/-- `GtidSet.join`. -/
def join (o : List Str) (delimiter : Str) : Str :=
  if o.isEmpty then []
  else
    let sb := o.flatMap fun o1 => o1 ++ delimiter
    sb.take (sb.length - delimiter.length)

/-- `GtidSet.toString`. -/
def GtidSet.toString (map : List UUIDSet) : Str :=
  join (map.map fun uuidSet => uuidSet.uuid ++ [':'] ++ join (uuidSet.intervals.map Interval.toString) [':']) [',']

/-! ## Comparing -/

section
variable {a b : List UUIDSet} {s t : UUIDSet}

/-- The intervals of an entry are known from its transactions. -/
lemma Canonical.ext {is is' : List Interval} (ca : Canonical is) (ca' : Canonical is')
    (same : transactions is = transactions is') : is = is' := by
  have bounds := ca.apart.ext ca'.apart same
  apply List.map_injective_iff.mpr ?_ bounds
  intro i j eq
  cases i
  cases j
  cases eq
  rfl

/-- An entry has a transaction. -/
lemma Held.inhabited (he : Held a) (mem : s ∈ a) : ∃ id, id ∈ transactions s.intervals := by
  obtain ⟨i, is, eq⟩ := List.exists_cons_of_ne_nil (he.full s mem)
  have mem_i : i ∈ s.intervals := eq ▸ List.mem_cons_self
  exact ⟨i.start, i, mem_i, le_refl _, (he.canonical s mem).apart.valid i mem_i⟩

/-- The transactions of a source are those of its entry. -/
lemma Held.has_iff (he : Held a) (mem : s ∈ a) {id : Int} : Has a s.uuid id ↔ id ∈ transactions s.intervals := by
  constructor
  · rintro ⟨x, mem_x, same, inside⟩
    rwa [List.inj_on_of_nodup_map he.once mem_x mem same] at inside
  · exact fun inside => ⟨s, mem, rfl, inside⟩

/-- Where a set has no more than another one, each of its entries stands against one of the other. -/
lemma Held.against (ha : Held a) (hb : Held b) (sub : ∀ source id, Has a source id → Has b source id) (mem : s ∈ a) :
    ∃ t ∈ b, t.uuid = s.uuid ∧ getUUIDSet b s.uuid = some t ∧ transactions s.intervals ⊆ transactions t.intervals := by
  obtain ⟨id, inside⟩ := ha.inhabited mem
  obtain ⟨t, mem_t, same, _⟩ := sub s.uuid id ⟨s, mem, rfl, inside⟩
  refine ⟨t, mem_t, same, same ▸ hb.get mem_t, fun id inside => ?_⟩
  rw [← hb.has_iff mem_t, same]
  exact sub s.uuid id ⟨s, mem, rfl, inside⟩

/-- A set whose GTIDs are in another has its sources. -/
lemma Held.subperm (ha : Held a) (hb : Held b) (sub : ∀ source id, Has a source id → Has b source id) :
    (a.map UUIDSet.uuid).Subperm (b.map UUIDSet.uuid) := by
  apply ha.once.subperm
  intro source listed
  obtain ⟨s, mem, rfl⟩ := List.mem_map.mp listed
  obtain ⟨t, mem_t, same, _⟩ := ha.against hb sub mem
  exact same ▸ List.mem_map_of_mem mem_t

/-- `equals` compares what the sets have. -/
lemma equals_iff (ha : Held a) (hb : Held b) :
    GtidSet.equals a b = true ↔ ∀ source id, Has a source id ↔ Has b source id := by
  rw [GtidSet.equals, Bool.and_eq_true, decide_eq_true_eq, List.all_eq_true]
  constructor
  · rintro ⟨length, each⟩
    have found : ∀ s ∈ a, ∃ t ∈ b, t.uuid = s.uuid ∧ s.intervals = t.intervals := by
      intro s mem
      obtain ⟨t, get, eq⟩ := (Option.any_eq_true _ _).mp (each s mem)
      obtain ⟨mem_t, same⟩ := getUUIDSet_some get
      rw [UUIDSet.equals, Bool.and_eq_true, decide_eq_true_eq] at eq
      exact ⟨t, mem_t, same, eq.2⟩
    have forward : ∀ source id, Has a source id → Has b source id := by
      rintro source id ⟨s, mem, rfl, inside⟩
      obtain ⟨t, mem_t, same, eq⟩ := found s mem
      exact ⟨t, mem_t, same, eq ▸ inside⟩
    have perm := (ha.subperm hb forward).perm_of_length_le (by rw [List.length_map, List.length_map, length])
    refine fun source id => ⟨forward source id, ?_⟩
    rintro ⟨t, mem, rfl, inside⟩
    obtain ⟨s, mem_s, same⟩ := List.mem_map.mp (perm.mem_iff.mpr (List.mem_map_of_mem mem))
    obtain ⟨t', mem_t', same', eq⟩ := found s mem_s
    rw [List.inj_on_of_nodup_map hb.once mem_t' mem (same'.trans same)] at eq
    exact ⟨s, mem_s, same, eq ▸ inside⟩
  · intro same
    have sub := ha.subperm hb fun source id => (same source id).mp
    have sub' := hb.subperm ha fun source id => (same source id).mpr
    refine ⟨?_, fun s mem => ?_⟩
    · have le := sub.length_le
      have le' := sub'.length_le
      rw [List.length_map, List.length_map] at le le'
      omega
    · obtain ⟨t, mem_t, uuid, get, _⟩ := ha.against hb (fun source id => (same source id).mp) mem
      have together : transactions s.intervals = transactions t.intervals := by
        ext id
        rw [← ha.has_iff mem, ← hb.has_iff mem_t, uuid]
        exact same s.uuid id
      have eq := (ha.canonical s mem).ext (hb.canonical t mem_t) together
      rw [get, Option.any_some, UUIDSet.equals, equalsIgnoreCase, uuid, eq]
      simp

/-- `isContainedWithin` compares the ends. -/
lemma Interval.contained_iff {i j : Interval} :
    i.isContainedWithin j = true ↔ j.start ≤ i.start ∧ i.stop ≤ j.stop := by
  rw [Interval.isContainedWithin, Bool.and_eq_true, decide_eq_true_eq, decide_eq_true_eq, ge_iff_le]

/-- Entries of one source are contained if their transactions are. -/
lemma UUIDSet.contained_iff (cs : Canonical s.intervals) (ct : Canonical t.intervals) (full : t.intervals ≠ [])
    (uuid : s.uuid = t.uuid) :
    s.isContainedWithin t = true ↔ transactions s.intervals ⊆ transactions t.intervals := by
  have same : equalsIgnoreCase s.uuid t.uuid = true := by rw [uuid, equalsIgnoreCase, decide_eq_true_eq]
  rw [transactions, transactions, ct.apart.covered_subset_iff cs.apart.valid, UUIDSet.isContainedWithin, same,
    Bool.not_true, if_neg Bool.false_ne_true, if_neg (show ¬ t.intervals.isEmpty = true by simpa using full)]
  split_ifs with empty
  · rw [List.isEmpty_iff] at empty
    rw [empty]
    exact iff_of_true rfl fun i mem => absurd mem List.not_mem_nil
  · simp only [List.all_eq_true, List.any_eq_true, Interval.contained_iff]

/-- `equals` and `isContainedWithin` are equality and inclusion of what the sets have. -/
theorem comparison_iff (ha : Held a) (hb : Held b) :
    (GtidSet.equals a b = true ↔ ∀ source id, Has a source id ↔ Has b source id) ∧
      (GtidSet.isContainedWithin a b = true ↔ ∀ source id, Has a source id → Has b source id) := by
  refine ⟨equals_iff ha hb, ?_⟩
  rw [GtidSet.isContainedWithin]
  split_ifs with eq
  · exact iff_of_true rfl fun source id => ((equals_iff ha hb).mp eq source id).mp
  · rw [List.all_eq_true]
    constructor
    · rintro each source id ⟨s, mem, rfl, inside⟩
      obtain ⟨t, get, within⟩ := (Option.any_eq_true _ _).mp (each s mem)
      obtain ⟨mem_t, same⟩ := getUUIDSet_some get
      rw [UUIDSet.contained_iff (ha.canonical s mem) (hb.canonical t mem_t) (hb.full t mem_t) same.symm] at within
      exact ⟨t, mem_t, same, within inside⟩
    · intro sub s mem
      obtain ⟨t, mem_t, same, get, within⟩ := ha.against hb sub mem
      rw [get, Option.any_some, UUIDSet.contained_iff (ha.canonical s mem) (hb.canonical t mem_t) (hb.full t mem_t)
        same.symm]
      exact within

end

/-! ## Writing -/

/-- The text of an interval, as a tree. -/
def Interval.written (i : Interval) : IntervalText :=
  { first := Nat.toDigits 10 i.start.natAbs, last := some (Nat.toDigits 10 i.stop.natAbs) }

/-- The text of an entry, as a tree. -/
def UUIDSet.written (s : UUIDSet) : SetText := { uuid := s.uuid, intervals := s.intervals.map Interval.written }

/-- The number that a UUID spells. -/
def serverNumber (uuid : Str) : Nat := (SetText.mk uuid []).server

/-- 32 hex digits, and dashes. -/
structure IsUuid (uuid : Str) : Prop where
  hex : ∀ c ∈ uuid, c = '-' ∨ (hexDigit c).isSome
  digits : (uuid.filterMap hexDigit).length = 32

section
variable {map : List UUIDSet} {s : UUIDSet} {i : Interval}

/-- The texts are joined as `intercalate` does. -/
lemma join_eq {o : List Str} {c : Char} : join o [c] = List.intercalate [c] o := by
  rw [join]
  split_ifs with none
  · rw [List.isEmpty_iff.mp none]
    rfl
  · -- each text has a delimiter behind it, the last one too many
    have all : ∀ o : List Str, o ≠ [] → (o.flatMap fun o1 => o1 ++ [c]) = List.intercalate [c] o ++ [c] := by
      intro o some'
      induction o with
      | nil => exact absurd rfl some'
      | cons a o ih =>
        cases o with
        | nil => rw [List.flatMap_cons, List.flatMap_nil, List.append_nil, intercalate_singleton]
        | cons b o =>
          rw [List.flatMap_cons, ih (List.cons_ne_nil b o), intercalate_cons_cons, List.append_assoc,
            List.append_assoc, List.singleton_append, List.cons_append]
    dsimp only
    rw [all o (by simpa using none), List.length_append, Nat.add_sub_cancel, List.take_left]

/-- The first number of the text of an interval. -/
lemma Interval.written_lo : i.written.lo = i.start.natAbs := Nat.ofDigitChars_ten_toDigits

/-- The last number of the text of an interval. -/
lemma Interval.written_hi : i.written.hi = i.stop.natAbs := Nat.ofDigitChars_ten_toDigits

/-- The text of an interval with positive bounds. -/
lemma Interval.toString_eq (pos : 0 < i.start) (le : i.start ≤ i.stop) : i.toString = i.written.text := by
  rw [Interval.toString, longToString, longToString, if_neg (by omega), if_neg (by omega), IntervalText.text,
    Interval.written, Option.toList_some, intercalate_cons_cons, intercalate_singleton, List.append_assoc]
  rfl

/-- The text of an interval means the interval. -/
lemma Interval.written_value (pos : 0 < i.start) (le : i.start ≤ i.stop) : i.written.value = i := by
  rw [IntervalText.value, Interval.written_lo, Interval.written_hi, Interval.mk.injEq]
  omega

/-- The text of an interval is well formed. -/
lemma Interval.written_wellFormed (pos : 0 < i.start) (le : i.start ≤ i.stop) (lt : i.stop < 2 ^ 63 - 1) :
    i.written.WellFormed := by
  have digits : ∀ n, Nat.toDigits 10 n ≠ [] ∧ (Nat.toDigits 10 n).all Char.isDigit := fun n =>
    ⟨Nat.toDigits_ne_nil, List.all_eq_true.mpr fun c mem => Nat.isDigit_of_mem_toDigits (by decide) (by decide) mem⟩
  refine ⟨?_, ?_, ?_, ?_⟩
  · intro text mem
    rw [Interval.written, Option.toList_some, List.mem_cons, List.mem_singleton] at mem
    rcases mem with rfl | rfl
    · exact digits _
    · exact digits _
  · rw [Interval.written_lo]
    omega
  · rw [Interval.written_lo, Interval.written_hi]
    omega
  · rw [Interval.written_hi]
    omega

/-- An entry for a server is written as a well-formed set. -/
lemma UUIDSet.written_wellFormed (ca : Canonical s.intervals) (full : s.intervals ≠ []) (uuid : IsUuid s.uuid)
    (lt : ∀ i ∈ s.intervals, i.stop < 2 ^ 63 - 1) : s.written.WellFormed := by
  refine ⟨uuid.hex, uuid.digits, by simpa [UUIDSet.written] using full, ?_, ?_⟩
  · intro text written
    obtain ⟨i, mem, rfl⟩ := List.mem_map.mp written
    exact i.written_wellFormed (ca.range i mem).1 (ca.apart.valid i mem) (lt i mem)
  · rw [UUIDSet.written, List.pairwise_map]
    refine ca.apart.gaps.imp_of_mem fun {i j} mem mem' gap => ?_
    have pos := ca.range i mem
    have pos' := ca.range j mem'
    have le := ca.apart.valid i mem
    rw [Interval.written_lo, Interval.written_hi]
    omega

/-- The texts of the intervals mean the intervals. -/
lemma written_values (ca : Canonical s.intervals) :
    s.written.intervals.map IntervalText.value = s.intervals := by
  rw [UUIDSet.written, List.map_map]
  conv_rhs => rw [← List.map_id s.intervals]
  apply List.map_congr_left
  intro i mem
  exact i.written_value (ca.range i mem).1 (ca.apart.valid i mem)

/-- Separated intervals are not joined when they are read. -/
lemma UUIDSet.written_value (ca : Canonical s.intervals) (wf : s.written.WellFormed) : s.written.value = s := by
  have values := written_values ca
  have intervals : s.written.value.intervals = s.intervals := by
    have ordered := wf.ordered
    rw [values] at ordered
    rw [SetText.value, values]
    rcases UUIDSet.new_cases s.written.uuid ordered with same | ⟨a, b, rest, eq, touch, _⟩
    · exact same
    · have gap := ca.apart.gaps
      rw [eq] at gap
      have apart := (List.pairwise_cons.mp gap).1 b List.mem_cons_self
      omega
  have uuid : s.written.value.uuid = s.uuid := rfl
  cases value : s.written.value
  cases s
  rw [value] at intervals uuid
  cases intervals
  cases uuid
  rfl

/-- `toString` writes the texts of the entries. -/
lemma GtidSet.toString_eq (canonical : ∀ s ∈ map, Canonical s.intervals) :
    GtidSet.toString map = List.intercalate [','] ((map.map UUIDSet.written).map SetText.text) := by
  rw [GtidSet.toString, join_eq, List.map_map]
  congr 1
  apply List.map_congr_left
  intro s mem
  have texts : s.intervals.map Interval.toString = s.written.intervals.map IntervalText.text := by
    rw [UUIDSet.written, List.map_map]
    apply List.map_congr_left
    intro i mem_i
    exact i.toString_eq ((canonical s mem).range i mem_i).1 ((canonical s mem).apart.valid i mem_i)
  rw [join_eq, texts, Function.comp_apply, SetText.text, List.append_assoc]
  rfl

/-- The texts of the entries are well formed. -/
lemma Held.written_wellFormed (he : Held map) (uuids : ∀ s ∈ map, IsUuid s.uuid)
    (lt : ∀ source id, Has map source id → id < 2 ^ 63 - 1) : ∀ s ∈ map, s.written.WellFormed := by
  intro s mem
  have ca := he.canonical s mem
  apply UUIDSet.written_wellFormed ca (he.full s mem) (uuids s mem)
  intro i mem_i
  exact lt s.uuid i.stop ⟨s, mem, rfl, i, mem_i, ca.apart.valid i mem_i, le_refl _⟩

/-- The text of a set is a GTID set text. -/
lemma Held.gtidText (he : Held map) (uuids : ∀ s ∈ map, IsUuid s.uuid)
    (lt : ∀ source id, Has map source id → id < 2 ^ 63 - 1) (fits : (GtidSet.toString map).length < 2 ^ 31) :
    GtidText (GtidSet.toString map) (map.map UUIDSet.written) := by
  have wf := he.written_wellFormed uuids lt
  have text := GtidSet.toString_eq he.canonical
  refine ⟨?_, ?_, ?_, ?_, fits⟩
  · have unbroken : ∀ t ∈ (map.map UUIDSet.written).map SetText.text, '\n' ∉ t := by
      intro t listed
      obtain ⟨_, written, rfl⟩ := List.mem_map.mp listed
      obtain ⟨s, mem, rfl⟩ := List.mem_map.mp written
      rw [SetText.text, List.mem_append, List.mem_cons, not_or, not_or]
      exact ⟨(wf s mem).not_mem_uuid (by decide) (by decide), by decide,
        not_mem_intercalate (by decide) ((wf s mem).not_mem_interval (by decide) (by decide))⟩
    rw [text, List.filter_eq_self]
    intro c mem
    apply decide_eq_true
    rintro rfl
    exact not_mem_intercalate (by decide) unbroken mem
  · intro none
    rw [List.map_eq_nil_iff.mp none]
    rfl
  · intro t written
    obtain ⟨s, mem, rfl⟩ := List.mem_map.mp written
    exact wf s mem
  · rw [List.map_map]
    exact he.once

/-- The texts of the entries mean the entries. -/
lemma Held.written_values (he : Held map) (wf : ∀ s ∈ map, s.written.WellFormed) :
    (map.map UUIDSet.written).map SetText.value = map := by
  rw [List.map_map]
  conv_rhs => rw [← List.map_id map]
  apply List.map_congr_left
  intro s mem
  exact s.written_value (he.canonical s mem) (wf s mem)

/-- The text of a set is read back as the set, and the package that is sent for it decodes to its transactions. -/
theorem toString_package {buffer : ByteArrayOutputStream} (lib : LittleEndian buffer) (he : Held map)
    (uuids : ∀ s ∈ map, IsUuid s.uuid) (lt : ∀ source id, Has map source id → id < 2 ^ 63 - 1)
    (fits : (GtidSet.toString map).length < 2 ^ 31) :
    GtidSet.parse (GtidSet.toString map) = some map ∧
      ∃ package decoded, retrieveGtidPackage buffer (GtidSet.toString map) = some package ∧
        decodePackage package = some decoded ∧ ∀ (server transaction : Nat),
          (∃ s ∈ decoded, s.server = server ∧ ∃ i ∈ s.intervals, i.1 ≤ transaction ∧ transaction < i.2) ↔
            ∃ source, serverNumber source = server ∧ Has map source transaction := by
  have text := he.gtidText uuids lt fits
  have wf := he.written_wellFormed uuids lt
  have values := he.written_values wf
  refine ⟨by rw [GtidSet.parse_text text, values], ?_⟩
  obtain ⟨package, retrieved, decoded⟩ := decodePackage_retrieve lib text
  refine ⟨package, _, retrieved, decoded, fun server transaction => ?_⟩
  have covers : ∀ s ∈ map, Covers s.written.value.intervals transaction ↔
      (transaction : Int) ∈ transactions s.intervals := by
    intro s mem
    rw [s.written_value (he.canonical s mem) (wf s mem)]
    rfl
  constructor
  · rintro ⟨_, listed, same, inside⟩
    obtain ⟨_, written, rfl⟩ := List.mem_map.mp listed
    obtain ⟨s, mem, rfl⟩ := List.mem_map.mp written
    have ordered : Ordered s.written.value.intervals := UUIDSet.new_ordered (wf s mem).ordered
    exact ⟨s.uuid, same, s, mem, rfl, (covers s mem).mp ((ends_covers ordered).mpr inside)⟩
  · rintro ⟨_, same, s, mem, rfl, inside⟩
    have ordered : Ordered s.written.value.intervals := UUIDSet.new_ordered (wf s mem).ordered
    exact ⟨_, List.mem_map_of_mem (List.mem_map_of_mem mem), same,
      (ends_covers ordered).mp ((covers s mem).mpr inside)⟩

end

/-- Two sources, with the transactions 1, 2 and 9, and 5. -/
def twoSources : List UUIDSet :=
  [{ uuid := "3E11FA47-71CA-11E1-9E33-C80AA9429562".toList, intervals := [⟨1, 2⟩, ⟨9, 9⟩] },
    { uuid := "fffe0000-71ca-11e1-9e33-c80aa9429562".toList, intervals := [⟨5, 5⟩] }]

/-- The set of two sources is held. -/
lemma twoSources_held : Held twoSources := by
  refine ⟨by decide +kernel, ?_, by decide⟩
  intro s mem
  simp only [twoSources, List.mem_cons, List.not_mem_nil, or_false] at mem
  rcases mem with rfl | rfl
  · exact ⟨⟨by decide, by decide⟩, by decide⟩
  · exact ⟨⟨by decide, by decide⟩, by decide⟩

/-- The second source alone. -/
lemma oneSource_held : Held (twoSources.drop 1) :=
  ⟨by decide, fun s mem => twoSources_held.canonical s (List.mem_of_mem_drop mem), by decide⟩

/-- The second source is contained in both, and not equal to them. -/
theorem oneSource_contained : (∀ source id, Has (twoSources.drop 1) source id → Has twoSources source id) ∧
    ¬ ∀ source id, Has (twoSources.drop 1) source id ↔ Has twoSources source id :=
  ⟨(comparison_iff oneSource_held twoSources_held).2.mp (by decide +kernel),
    fun same => absurd ((comparison_iff oneSource_held twoSources_held).1.mpr same) (by decide +kernel)⟩

/-- The text of the two sources is read back. -/
theorem twoSources_read : GtidSet.parse (GtidSet.toString twoSources) = some twoSources := by
  have lib : LittleEndian littleEndian := ⟨fun _ _ _ => rfl, fun _ _ _ => rfl⟩
  refine (toString_package lib twoSources_held ?_ ?_ (by decide +kernel)).1
  · intro s mem
    simp only [twoSources, List.mem_cons, List.not_mem_nil, or_false] at mem
    rcases mem with rfl | rfl
    · exact ⟨by decide +kernel, by decide +kernel⟩
    · exact ⟨by decide +kernel, by decide +kernel⟩
  · have ends : ∀ s ∈ twoSources, ∀ i ∈ s.intervals, i.stop < 2 ^ 63 - 1 := by decide +kernel
    rintro _ id ⟨s, mem, rfl, i, mem_i, inside⟩
    exact Int.lt_of_le_of_lt inside.2 (ends s mem i mem_i)

end TdsqlMerge.Fetcher
