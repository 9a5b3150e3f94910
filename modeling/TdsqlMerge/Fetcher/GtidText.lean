import TdsqlMerge.Lib.Fallible
import TdsqlMerge.Lib.Lines
import TdsqlMerge.Fetcher.GtidSet

/-!
# GTID texts

The texts that `GtidSet.GtidSet` is given, as trees, and what they denote. `UUIDSet.parse_text` and
`GtidSet.parse_text` say that the constructor reads the intervals that are written, and
`UUIDSet.new_ordered` and `UUIDSet.new_covers` that joining the first two of them changes no transaction.
-/

namespace TdsqlMerge.Fetcher
open Lib

/-- An interval of a text: `n` or `n-m`. -/
structure IntervalText where
  first : Str
  last : Option Str

namespace IntervalText

/-- The text of the interval. -/
def text (i : IntervalText) : Str := List.intercalate ['-'] (i.first :: i.last.toList)

/-- The first transaction. -/
def lo (i : IntervalText) : Nat := Nat.ofDigitChars 10 i.first 0

/-- The last transaction. -/
def hi (i : IntervalText) : Nat := Nat.ofDigitChars 10 (i.last.getD i.first) 0

/-- Its numbers are written in digits, and they are in order and in range. -/
structure WellFormed (i : IntervalText) : Prop where
  digits : ∀ s ∈ i.first :: i.last.toList, s ≠ [] ∧ s.all Char.isDigit
  pos : 1 ≤ i.lo
  le : i.lo ≤ i.hi
  lt : i.hi < 2 ^ 63 - 1

instance {i : IntervalText} : Decidable i.WellFormed :=
  decidable_of_iff ((∀ s ∈ i.first :: i.last.toList, s ≠ [] ∧ s.all Char.isDigit) ∧
      1 ≤ i.lo ∧ i.lo ≤ i.hi ∧ i.hi < 2 ^ 63 - 1)
    ⟨fun ⟨digits, pos, le, lt⟩ => ⟨digits, pos, le, lt⟩, fun ⟨digits, pos, le, lt⟩ => ⟨digits, pos, le, lt⟩⟩

/-- The interval that is written. -/
def value (i : IntervalText) : Interval := { start := i.lo, stop := i.hi }

end IntervalText

/-- A UUID set of a text: `uuid:interval[:interval]...`. -/
structure SetText where
  uuid : Str
  intervals : List IntervalText

namespace SetText

/-- The text of the set. -/
def text (s : SetText) : Str := s.uuid ++ ':' :: List.intercalate [':'] (s.intervals.map IntervalText.text)

/-- The number that the hex digits of the UUID spell. -/
def server (s : SetText) : Nat := (s.uuid.filterMap hexDigit).foldl (fun n d => 16 * n + d) 0

/-- The UUID has 32 hex digits and dashes; the intervals are increasing and disjoint. -/
structure WellFormed (s : SetText) : Prop where
  hex : ∀ c ∈ s.uuid, c = '-' ∨ (hexDigit c).isSome
  digits : (s.uuid.filterMap hexDigit).length = 32
  nonempty : s.intervals ≠ []
  intervals : ∀ i ∈ s.intervals, i.WellFormed
  increasing : s.intervals.Pairwise fun i j => i.hi < j.lo

instance {s : SetText} : Decidable s.WellFormed :=
  decidable_of_iff ((∀ c ∈ s.uuid, c = '-' ∨ (hexDigit c).isSome) ∧ (s.uuid.filterMap hexDigit).length = 32 ∧
      s.intervals ≠ [] ∧ (∀ i ∈ s.intervals, i.WellFormed) ∧ s.intervals.Pairwise fun i j => i.hi < j.lo)
    ⟨fun ⟨hex, digits, nonempty, intervals, increasing⟩ => ⟨hex, digits, nonempty, intervals, increasing⟩,
      fun ⟨hex, digits, nonempty, intervals, increasing⟩ => ⟨hex, digits, nonempty, intervals, increasing⟩⟩

end SetText

/-- `text` is the GTID set text with these UUID sets; lines may be broken anywhere. -/
structure GtidText (text : Str) (sets : List SetText) : Prop where
  written : (text.filter fun c => c ≠ '\n') = List.intercalate [','] (sets.map SetText.text)
  empty : sets = [] → text = []
  wellFormed : ∀ s ∈ sets, s.WellFormed
  once : (sets.map SetText.uuid).Nodup
  /-- the length of a Java string is an `int` -/
  fits : text.length < 2 ^ 31

/-- The text denotes this transaction of this server. -/
def Denotes (sets : List SetText) (server transaction : Nat) : Prop :=
  ∃ s ∈ sets, s.server = server ∧ ∃ i ∈ s.intervals, i.lo ≤ transaction ∧ transaction ≤ i.hi

/-! ## Reading a text -/

/-- A `long` is not wrapped in its range. -/
lemma long_eq {n : Int} (nonneg : 0 ≤ n) (lt : n < 2 ^ 63) : long n = n :=
  Int.bmod_eq_of_le (by omega) (by omega)

/-- A digit is none of the other characters. -/
lemma isDigit_ne {c d : Char} (digit : c.isDigit) (other : d.isDigit = false) : c ≠ d := by
  rintro rfl
  rw [digit] at other
  cases other

/-- Digits contain none of the other characters. -/
lemma not_mem_digits {s : Str} {d : Char} (digits : s.all Char.isDigit) (other : d.isDigit = false) : d ∉ s := by
  intro mem
  exact isDigit_ne (List.all_eq_true.mp digits d mem) other rfl

/-- Digits are read as the number they spell. -/
lemma parseLong_digits {s : Str} (some' : s ≠ []) (digits : s.all Char.isDigit)
    (lt : Nat.ofDigitChars 10 s 0 < 2 ^ 63) : parseLong s = some (Nat.ofDigitChars 10 s 0 : Int) := by
  obtain ⟨c, ds, rfl⟩ := List.exists_cons_of_ne_nil some'
  have first := List.all_eq_true.mp digits c List.mem_cons_self
  have notMinus : c ≠ '-' := isDigit_ne first (by decide)
  have notPlus : c ≠ '+' := isDigit_ne first (by decide)
  unfold parseLong
  split
  · rename_i e
    exact absurd (List.cons.inj e).1 notMinus
  · rename_i e
    exact absurd (List.cons.inj e).1 notPlus
  · dsimp only
    rw [if_pos ⟨some', digits⟩, Option.bind_some, if_pos lt]

namespace IntervalText.WellFormed
variable {i : IntervalText} (wf : i.WellFormed)
include wf

/-- The text of an interval has digits and dashes. -/
lemma chars : ∀ c ∈ i.text, c.isDigit ∨ c = '-' := by
  have first := wf.digits i.first List.mem_cons_self
  intro c mem
  rw [IntervalText.text] at mem
  cases e : i.last with
  | none =>
    rw [e, Option.toList_none, intercalate_singleton] at mem
    exact .inl (List.all_eq_true.mp first.2 c mem)
  | some m =>
    have last := wf.digits m (by rw [e]; exact List.mem_cons_of_mem _ List.mem_cons_self)
    rw [e, Option.toList_some, intercalate_cons_cons, intercalate_singleton] at mem
    rcases List.mem_append.mp mem with mem | mem
    · exact .inl (List.all_eq_true.mp first.2 c mem)
    · rcases List.mem_cons.mp mem with eq | mem
      · exact .inr eq
      · exact .inl (List.all_eq_true.mp last.2 c mem)

/-- The text of an interval is not empty. -/
lemma text_ne_nil : i.text ≠ [] := by
  have first := (wf.digits i.first List.mem_cons_self).1
  intro e
  rw [IntervalText.text] at e
  cases last : i.last with
  | none =>
    rw [last, Option.toList_none, intercalate_singleton] at e
    exact first e
  | some m =>
    rw [last, Option.toList_some, intercalate_cons_cons] at e
    exact first (List.append_eq_nil_iff.mp e).1

/-- The interval is read as it is written. -/
lemma parse : Interval.parse i.text = some i.value := by
  have le := wf.le
  have lt := wf.lt
  have parts : split '-' i.text = i.first :: i.last.toList := by
    apply split_intercalate (List.cons_ne_nil _ _)
    · intro s mem
      exact (wf.digits s mem).1
    · intro s mem
      exact not_mem_digits (wf.digits s mem).2 (by decide)
  have first := wf.digits i.first List.mem_cons_self
  have readFirst : parseLong i.first = some (i.lo : Int) :=
    parseLong_digits first.1 first.2 (show i.lo < 2 ^ 63 by omega)
  rw [Interval.parse, parts]
  cases e : i.last with
  | none =>
    have same : i.hi = i.lo := by rw [IntervalText.hi, e, Option.getD_none, IntervalText.lo]
    simp [readFirst, IntervalText.value, same]
  | some m =>
    have last := wf.digits m (by rw [e]; exact List.mem_cons_of_mem _ List.mem_cons_self)
    have hi : i.hi = Nat.ofDigitChars 10 m 0 := by rw [IntervalText.hi, e, Option.getD_some]
    have readLast : parseLong m = some (i.hi : Int) := by
      rw [hi]
      exact parseLong_digits last.1 last.2 (by omega)
    simp [readFirst, readLast, IntervalText.value]

end IntervalText.WellFormed

namespace SetText

/-- The UUID set that is written, as its constructor leaves it. -/
def value (s : SetText) : UUIDSet := .new s.uuid (s.intervals.map IntervalText.value)

/-- The text of an entry is not empty. -/
lemma text_ne_nil {s : SetText} : s.text ≠ [] := by
  rw [SetText.text]
  exact List.append_ne_nil_of_right_ne_nil _ (List.cons_ne_nil _ _)

namespace WellFormed
variable {s : SetText} (wf : s.WellFormed)
include wf

/-- Only hex digits and dashes occur in a UUID. -/
lemma not_mem_uuid {c : Char} (notDash : c ≠ '-') (notHex : hexDigit c = none) : c ∉ s.uuid := by
  intro mem
  rcases wf.hex c mem with eq | hex
  · exact notDash eq
  · rw [notHex] at hex
    cases hex

/-- The texts of intervals contain dashes and digits only. -/
lemma not_mem_interval {c : Char} (notDash : c ≠ '-') (notDigit : c.isDigit = false) :
    ∀ t ∈ s.intervals.map IntervalText.text, c ∉ t := by
  intro t mem
  obtain ⟨i, inside, rfl⟩ := List.mem_map.mp mem
  intro there
  rcases (wf.intervals i inside).chars c there with digit | eq
  · rw [notDigit] at digit
    cases digit
  · exact notDash eq

/-- The text of an entry contains no comma. -/
lemma not_mem_text : ',' ∉ s.text := by
  rw [SetText.text, List.mem_append, List.mem_cons, not_or, not_or]
  refine ⟨wf.not_mem_uuid (by decide) (by decide), by decide, ?_⟩
  exact not_mem_intercalate (by decide) (wf.not_mem_interval (by decide) (by decide))

/-- The set is read as it is written. -/
lemma parse : UUIDSet.parse s.text = some s.value := by
  have notIn : (s.uuid.findIdx? fun c => c = ':') = none := by
    rw [List.findIdx?_eq_none_iff]
    intro c mem
    have ne : c ≠ ':' := by
      rintro rfl
      exact wf.not_mem_uuid (by decide) (by decide) mem
    exact decide_eq_false ne
  have separator : (s.text.findIdx? fun c => c = ':') = some s.uuid.length := by
    rw [SetText.text, List.findIdx?_append, notIn, List.findIdx?_cons]
    simp
  have parts : split ':' (List.intercalate [':'] (s.intervals.map IntervalText.text)) =
      s.intervals.map IntervalText.text := by
    apply split_intercalate
    · simpa using wf.nonempty
    · intro t mem
      obtain ⟨i, inside, rfl⟩ := List.mem_map.mp mem
      exact (wf.intervals i inside).text_ne_nil
    · exact wf.not_mem_interval (by decide) (by decide)
  have read : (s.intervals.map IntervalText.text).mapM Interval.parse =
      some (s.intervals.map IntervalText.value) := by
    rw [mapM_eq_some, List.forall₂_map_left_iff, List.forall₂_map_right_iff, List.forall₂_same]
    intro i inside
    exact (wf.intervals i inside).parse
  have before : s.text.take s.uuid.length = s.uuid := by rw [SetText.text, List.take_left]
  have after : s.text.drop (s.uuid.length + 1) =
      List.intercalate [':'] (s.intervals.map IntervalText.text) := by
    rw [SetText.text, ← List.drop_drop, List.drop_left]
    rfl
  rw [UUIDSet.parse, separator, Option.bind_eq_bind, Option.bind_some, before, after, parts]
  dsimp only
  rw [read]
  rfl

end WellFormed

end SetText

/-- The text of an entry means a set of its source. -/
@[simp] lemma SetText.value_uuid {s : SetText} : s.value.uuid = s.uuid := rfl

/-- A set with a new UUID is put at the end. -/
lemma putUUIDSet_new {map : List UUIDSet} {s : UUIDSet} (new : s.uuid ∉ map.map UUIDSet.uuid) :
    putUUIDSet map s = map ++ [s] := by
  rw [putUUIDSet, if_neg]
  intro any
  obtain ⟨x, mem, eq⟩ := List.any_eq_true.mp any
  apply new
  rw [← of_decide_eq_true eq]
  exact List.mem_map_of_mem mem

/-- The loop of `GtidSet.GtidSet` puts one set after the other. -/
lemma putAll {sets : List SetText} {map : List UUIDSet} (wf : ∀ s ∈ sets, s.WellFormed)
    (once : (map.map UUIDSet.uuid ++ sets.map SetText.uuid).Nodup) :
    (sets.map SetText.text).foldlM (fun map uuidSet => (UUIDSet.parse uuidSet).map (putUUIDSet map)) map =
      some (map ++ sets.map SetText.value) := by
  induction sets generalizing map with
  | nil => simp
  | cons s sets ih =>
    have new : s.value.uuid ∉ map.map UUIDSet.uuid := by
      intro mem
      exact (List.nodup_append.mp once).2.2 _ mem _ List.mem_cons_self rfl
    rw [List.map_cons, List.foldlM_cons, (wf s List.mem_cons_self).parse, Option.map_some,
      putUUIDSet_new new, Option.bind_eq_bind, Option.bind_some, ih, List.map_cons, List.append_assoc]
    · rfl
    · intro x mem
      exact wf x (List.mem_cons_of_mem s mem)
    · rw [List.map_append, List.append_assoc]
      exact once

/-- The constructor reads the sets that are written, in their order (`GtidSet.GtidSet`). -/
theorem GtidSet.parse_text {text : Str} {sets : List SetText} (t : GtidText text sets) :
    GtidSet.parse text = some (sets.map SetText.value) := by
  have all : (if text.isEmpty then [] else split ',' (text.filter fun c => c ≠ '\n')) =
      sets.map SetText.text := by
    cases sets with
    | nil => rw [t.empty rfl, if_pos (by rfl), List.map_nil]
    | cons s sets =>
      have found : split ',' (List.intercalate [','] ((s :: sets).map SetText.text)) =
          (s :: sets).map SetText.text := by
        apply split_intercalate
        · exact List.cons_ne_nil _ _
        · intro p mem
          obtain ⟨x, inside, rfl⟩ := List.mem_map.mp mem
          exact SetText.text_ne_nil
        · intro p mem
          obtain ⟨x, inside, rfl⟩ := List.mem_map.mp mem
          exact (t.wellFormed x inside).not_mem_text
      have some' : ¬ text.isEmpty := by
        intro none'
        have written := t.written
        rw [List.isEmpty_iff.mp none'] at written
        rw [← written] at found
        have bad : ([] : Str) ∈ (s :: sets).map SetText.text := by
          rw [← found]
          exact List.mem_singleton_self _
        obtain ⟨x, _, e⟩ := List.mem_map.mp bad
        exact SetText.text_ne_nil e
      rw [if_neg some', t.written, found]
  rw [GtidSet.parse, all]
  exact putAll t.wellFormed t.once

/-! ## Joining the first intervals -/

/-- The intervals are increasing and disjoint, and their ends are in range. -/
structure Ordered (is : List Interval) : Prop where
  bounds : ∀ i ∈ is, 1 ≤ i.start ∧ i.start ≤ i.stop ∧ i.stop < 2 ^ 63 - 1
  increasing : is.Pairwise fun i j => i.stop < j.start

/-- A transaction lies in one of the intervals. -/
def Covers (is : List Interval) (transaction : Nat) : Prop :=
  ∃ i ∈ is, i.start ≤ transaction ∧ transaction ≤ i.stop

/-- Of at least two intervals the first two are joined, if they touch. -/
lemma joinAdjacentIntervals_front {a b : Interval} {is : List Interval} :
    joinAdjacentIntervals (a :: b :: is) 0 =
      if long (a.stop + 1) = b.start then { a with stop := b.stop } :: is else a :: b :: is := by
  have first : min (0 + 1) ((a :: b :: is).length - 1) = 1 := by
    rw [List.length_cons, List.length_cons]
    omega
  rw [joinAdjacentIntervals, first]
  rfl

/-- Either nothing is joined or the first two intervals are, which then touch. -/
lemma UUIDSet.new_cases (uuid : Str) {is : List Interval} (o : Ordered is) :
    (UUIDSet.new uuid is).intervals = is ∨
      ∃ a b rest, is = a :: b :: rest ∧ a.stop + 1 = b.start ∧
        (UUIDSet.new uuid is).intervals = { a with stop := b.stop } :: rest := by
  match is, o with
  | [], _ => exact .inl rfl
  | [_], _ => exact .inl rfl
  | a :: b :: rest, o =>
    have inside := o.bounds a List.mem_cons_self
    have join : (UUIDSet.new uuid (a :: b :: rest)).intervals = joinAdjacentIntervals (a :: b :: rest) 0 := by
      simp [UUIDSet.new]
    rw [join, joinAdjacentIntervals_front, long_eq (by omega) (by omega)]
    split
    · rename_i touch
      exact .inr ⟨a, b, rest, rfl, touch, rfl⟩
    · exact .inl rfl

variable {uuid : Str} {is : List Interval}

/-- Merging makes no more intervals. -/
lemma UUIDSet.new_length (o : Ordered is) : (UUIDSet.new uuid is).intervals.length ≤ is.length := by
  rcases UUIDSet.new_cases uuid o with same | ⟨a, b, rest, rfl, _, joined⟩
  · rw [same]
  · rw [joined, List.length_cons, List.length_cons, List.length_cons]
    omega

/-- Joining keeps the intervals in order. -/
lemma UUIDSet.new_ordered (o : Ordered is) : Ordered (UUIDSet.new uuid is).intervals := by
  rcases UUIDSet.new_cases uuid o with same | ⟨a, b, rest, rfl, touch, joined⟩
  · rw [same]
    exact o
  · obtain ⟨_, increasing⟩ := List.pairwise_cons.mp o.increasing
    obtain ⟨above, increasing⟩ := List.pairwise_cons.mp increasing
    have boundsA := o.bounds a List.mem_cons_self
    have boundsB := o.bounds b (List.mem_cons_of_mem a List.mem_cons_self)
    rw [joined]
    constructor
    · intro i mem
      rcases List.mem_cons.mp mem with rfl | mem
      · dsimp only
        omega
      · exact o.bounds i (List.mem_cons_of_mem a (List.mem_cons_of_mem b mem))
    · exact List.pairwise_cons.mpr ⟨above, increasing⟩

/-- Joining changes no transaction. -/
lemma UUIDSet.new_covers (o : Ordered is) {transaction : Nat} :
    Covers (UUIDSet.new uuid is).intervals transaction ↔ Covers is transaction := by
  rcases UUIDSet.new_cases uuid o with same | ⟨a, b, rest, rfl, touch, joined⟩
  · rw [same]
  · have boundsA := o.bounds a List.mem_cons_self
    have boundsB := o.bounds b (List.mem_cons_of_mem a List.mem_cons_self)
    rw [joined, Covers, Covers]
    simp only [List.mem_cons, exists_eq_or_imp]
    rw [← or_assoc]
    apply or_congr_left
    omega

/-- The intervals of a well-formed set are in order. -/
lemma SetText.WellFormed.ordered {s : SetText} (wf : s.WellFormed) :
    Ordered (s.intervals.map IntervalText.value) := by
  constructor
  · intro i mem
    obtain ⟨i, inside, rfl⟩ := List.mem_map.mp mem
    have wfi := wf.intervals i inside
    have pos := wfi.pos
    have le := wfi.le
    have lt := wfi.lt
    simp only [IntervalText.value]
    omega
  · rw [List.pairwise_map]
    apply wf.increasing.imp
    intro i j lt
    exact Int.ofNat_lt.mpr lt

/-- What a text denotes is what the intervals cover that the constructor leaves. -/
lemma denotes_iff {sets : List SetText} (wf : ∀ s ∈ sets, s.WellFormed) {server transaction : Nat} :
    Denotes sets server transaction ↔
      ∃ s ∈ sets, s.server = server ∧ Covers s.value.intervals transaction := by
  have covers (s : SetText) (mem : s ∈ sets) : Covers s.value.intervals transaction ↔
      ∃ i ∈ s.intervals, i.lo ≤ transaction ∧ transaction ≤ i.hi := by
    rw [SetText.value, UUIDSet.new_covers (wf s mem).ordered, Covers]
    simp [IntervalText.value]
  constructor
  · rintro ⟨s, mem, eq, inside⟩
    exact ⟨s, mem, eq, (covers s mem).mpr inside⟩
  · rintro ⟨s, mem, eq, inside⟩
    exact ⟨s, mem, eq, (covers s mem).mp inside⟩

end TdsqlMerge.Fetcher
