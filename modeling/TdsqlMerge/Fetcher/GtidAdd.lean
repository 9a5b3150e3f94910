import Mathlib.Data.List.TakeWhile
import TdsqlMerge.Fetcher.GtidText
import TdsqlMerge.Lib.Intervals

/-!
# Adding GTIDs

Embedding of `GtidSet.add`, `UUIDSet.add` and `UUIDSet.findInterval` (`extfetcher/src/GtidSet.java`). The intervals
stay separated (`Canonical`), so `findInterval` finds the place of a transaction (`findInterval_split`) and `add` adds
it (`UUIDSet.add_adds`). `adds_exactly` says what a set holds to which any GTIDs were added.
-/

namespace TdsqlMerge.Fetcher
open Lib

/-- The loop of `findInterval`: the last `p`, and whether it was returned from the loop. -/
def findFrom (intervals : List Interval) (v : Int) (l p r : Nat) : Option (Nat × Bool) :=
  if l < r then
    let p := (l + r) / 2
    match intervals[p]? with
    | none => none
    | some i =>
      if i.stop < v then findFrom intervals v (p + 1) p r
      else if v < i.start then findFrom intervals v l p p
      else some (p, true)
  else some (p, false)
termination_by r - l

/-- `UUIDSet.findInterval`. -/
def findInterval (intervals : List Interval) (v : Int) : Option Nat := do
  let (p, found) ← findFrom intervals v 0 0 intervals.length
  if found ∨ intervals.isEmpty then some p
  else do
    let i ← intervals[p]?
    some (if i.stop < v then p + 1 else p)

/-- The end of `UUIDSet.add`, where the transaction was added at `index`. -/
def UUIDSet.added (s : UUIDSet) (index : Nat) (intervals : List Interval) : Bool × UUIDSet :=
  (true, { s with intervals := if intervals.length > 1 then joinAdjacentIntervals intervals index else intervals })

/-- `intervals.add(index, new Interval(transactionId, transactionId))`, and the end of `UUIDSet.add`. -/
def UUIDSet.insertAt (s : UUIDSet) (index : Nat) (transactionId : Int) : Option (Bool × UUIDSet) :=
  if index ≤ s.intervals.length then
    some (s.added index (s.intervals.insertIdx index { start := transactionId, stop := transactionId }))
  else none

/-- `UUIDSet.add`. -/
def UUIDSet.add (s : UUIDSet) (transactionId : Int) : Option (Bool × UUIDSet) := do
  let index ← findInterval s.intervals transactionId
  match s.intervals[index]? with
  | some interval =>
    -- both sums overflow for the greatest `long`
    if interval.start = long (transactionId + 1) then
      some (s.added index (s.intervals.set index { interval with start := transactionId }))
    else if long (interval.stop + 1) = transactionId then
      some (s.added index (s.intervals.set index { interval with stop := transactionId }))
    else if interval.start ≤ transactionId ∧ transactionId ≤ interval.stop then some (false, s)
    else s.insertAt index transactionId
  | none => s.insertAt index transactionId

/-- The source and the number of a GTID, as `GtidSet.add` reads it. -/
def readGtid (gtid : Str) : Option (Str × Int) := do
  let split := split ':' gtid
  let sourceId ← split[0]?
  let transactionId ← split[1]? >>= parseLong
  some (sourceId, transactionId)

/-- `GtidSet.getUUIDSet`: `map.get`. -/
def getUUIDSet (map : List UUIDSet) (uuid : Str) : Option UUIDSet := map.find? fun s => s.uuid = uuid

/-- `GtidSet.add`. -/
def GtidSet.add (map : List UUIDSet) (gtid : Str) : Option (Bool × List UUIDSet) := do
  let (sourceId, transactionId) ← readGtid gtid
  let uuidSet := (getUUIDSet map sourceId).getD (.new sourceId [])
  let (added, uuidSet) ← uuidSet.add transactionId
  some (added, putUUIDSet map uuidSet)

/-- One `add` after the other, with what they return. -/
def GtidSet.addAll (map : List UUIDSet) : List Str → Option (List Bool × List UUIDSet)
  | [] => some ([], map)
  | gtid :: gtids => do
    let (b, map) ← GtidSet.add map gtid
    let (added, map) ← GtidSet.addAll map gtids
    some (b :: added, map)

/-! ## The place of a transaction -/

/-- The intervals are separated, and they have positive bounds that are `long`s. -/
structure Canonical (is : List Interval) : Prop where
  apart : Apart Interval.start Interval.stop is
  range : ∀ i ∈ is, 0 < i.start ∧ i.stop < 2 ^ 63

/-- The transactions of a set. -/
abbrev transactions (is : List Interval) : Set Int := covered Interval.start Interval.stop is

section
variable {is left right : List Interval} {v : Int} {n l p r : Nat}

/-- The loop comes to the place where the intervals that end below `v` end, or to the one in front of it. -/
lemma findFrom_place (increasing : is.Pairwise fun i j => i.stop < j.start)
    (below : ∀ j i, is[j]? = some i → (i.stop < v ↔ j < n)) (lower : l ≤ n) (upper : n ≤ r) (size : r ≤ is.length)
    (inside : p < is.length ∨ is = []) (last : l = r → p = n ∨ p + 1 = n) :
    ∃ q found, findFrom is v l p r = some (q, found) ∧
      (found = true ∧ q = n ∨ found = false ∧ (q < is.length ∨ is = []) ∧ (q = n ∨ q + 1 = n)) := by
  induction h : r - l using Nat.strong_induction_on generalizing l p r with
  | _ d ih =>
    rw [findFrom]
    split_ifs with lt
    · have mid : (l + r) / 2 < is.length := by omega
      have at_mid := List.getElem?_eq_getElem mid
      have mem := List.getElem_mem mid
      dsimp only
      rw [at_mid]
      dsimp only
      split_ifs with ends starts
      · have place := (below _ _ at_mid).mp ends
        exact ih _ (by omega) (by omega) upper size (.inl mid) (by omega) rfl
      · have place : n ≤ (l + r) / 2 := Nat.not_lt.mp fun lt => ends ((below _ _ at_mid).mpr lt)
        exact ih _ (by omega) lower place (by omega) (.inl mid) (by omega) rfl
      · refine ⟨_, true, rfl, .inl ⟨rfl, ?_⟩⟩
        have place : n ≤ (l + r) / 2 := Nat.not_lt.mp fun lt => ends ((below _ _ at_mid).mpr lt)
        by_contra other
        -- an interval in front of this one would end below `v` as well
        have lt_n : n < is.length := by omega
        have gap := List.pairwise_iff_getElem.mp increasing n _ lt_n mid (by omega)
        have reaches : ¬ is[n].stop < v := fun ends =>
          absurd ((below _ _ (List.getElem?_eq_getElem lt_n)).mp ends) (Nat.lt_irrefl n)
        omega
    · exact ⟨p, false, rfl, .inr ⟨rfl, inside, last (by omega)⟩⟩

/-- `findInterval` finds the first interval that does not end below `v`. -/
lemma findInterval_split (ca : Canonical (left ++ right)) (below : ∀ i ∈ left, i.stop < v)
    (above : ∀ i ∈ right, v ≤ i.stop) : findInterval (left ++ right) v = some left.length := by
  have place : ∀ j i, (left ++ right)[j]? = some i → (i.stop < v ↔ j < left.length) := by
    intro j i at_j
    constructor
    · intro ends
      by_contra behind
      rw [List.getElem?_append_right (Nat.not_lt.mp behind)] at at_j
      have reaches := above i (List.mem_of_getElem? at_j)
      omega
    · intro lt
      rw [List.getElem?_append_left lt] at at_j
      exact below i (List.mem_of_getElem? at_j)
  have increasing : (left ++ right).Pairwise fun i j => i.stop < j.start :=
    ca.apart.gaps.imp fun gap => by omega
  have size : left.length ≤ (left ++ right).length := by rw [List.length_append]; omega
  have inside : 0 < (left ++ right).length ∨ left ++ right = [] :=
    (Nat.eq_zero_or_pos _).symm.imp_right List.length_eq_zero_iff.mp
  obtain ⟨q, found, run, hit⟩ := findFrom_place increasing place (Nat.zero_le _) size (le_refl _) inside
    fun none => .inl (by omega)
  rw [findInterval, run]
  dsimp only [Option.bind_eq_bind, Option.bind_some]
  split_ifs with done
  · rcases hit with ⟨_, rfl⟩ | ⟨missed, _, at_q⟩
    · rfl
    · rcases done with found | empty
      · rw [missed] at found
        cases found
      · rw [List.isEmpty_iff, List.append_eq_nil_iff] at empty
        rw [empty.1, List.length_nil] at at_q ⊢
        rw [show q = 0 by omega]
  · obtain ⟨missed, full⟩ := not_or.mp done
    rcases hit with ⟨found, _⟩ | ⟨_, inside, at_q⟩
    · exact absurd found missed
    · have lt := inside.resolve_right fun empty => full (List.isEmpty_iff.mpr empty)
      have at_mid := List.getElem?_eq_getElem lt
      rw [at_mid, Option.bind_some]
      have ends := place _ _ at_mid
      split_ifs with low
      · rw [show q + 1 = left.length by omega]
      · rw [show q = left.length by omega]

end

/-! ## Adding a transaction -/

section
variable {is front back : List Interval} {a b m : Interval} {v : Int} {s : UUIDSet}

/-- A transaction follows another one, whose successor may overflow. -/
lemma long_succ {n k : Int} (pos : 0 < n) (lt : n < 2 ^ 63) (pos' : 0 < k) (lt' : k < 2 ^ 63) :
    long (n + 1) = k ↔ n + 1 = k := by
  by_cases greatest : n + 1 < 2 ^ 63
  · rw [long_eq (by omega) greatest]
  · have wrapped : long (n + 1) = -2 ^ 63 := by
      rw [show n + 1 = 2 ^ 63 by omega]
      decide
    rw [wrapped]
    omega

/-- The first intervals of a separated list are separated. -/
lemma Canonical.left (ca : Canonical (front ++ back)) : Canonical front :=
  ⟨ca.apart.left, fun i mem => ca.range i (List.mem_append_left back mem)⟩

/-- The last intervals of a separated list are separated. -/
lemma Canonical.right (ca : Canonical (front ++ back)) : Canonical back :=
  ⟨ca.apart.right, fun i mem => ca.range i (List.mem_append_right front mem)⟩

/-- An interval with gaps on both sides may stand between separated lists. -/
lemma Canonical.between (before : Canonical front) (after : Canonical back) (valid : m.start ≤ m.stop)
    (range : 0 < m.start ∧ m.stop < 2 ^ 63) (gaps : ∀ i ∈ front, i.stop + 1 < m.start)
    (gaps' : ∀ i ∈ back, m.stop + 1 < i.start) : Canonical (front ++ m :: back) := by
  refine ⟨before.apart.between after.apart valid gaps gaps', ?_⟩
  intro i mem
  rcases List.mem_append.mp mem with mem | mem
  · exact before.range i mem
  · rcases List.mem_cons.mp mem with rfl | mem
    · exact range
    · exact after.range i mem

/-- One iteration of the join, at two intervals that follow each other. -/
lemma joinAt_middle : joinAt (front ++ a :: b :: back) (front.length + 1) =
    if long (a.stop + 1) = b.start then front ++ { a with stop := b.stop } :: back else front ++ a :: b :: back := by
  have at_a : (front ++ a :: b :: back)[front.length + 1 - 1]? = some a := by
    rw [Nat.add_sub_cancel, List.getElem?_append_right (le_refl _), Nat.sub_self]
    rfl
  have at_b : (front ++ a :: b :: back)[front.length + 1]? = some b := by
    rw [List.getElem?_append_right (Nat.le_add_right _ 1), Nat.add_sub_cancel_left]
    rfl
  rw [joinAt, at_a, at_b]
  dsimp only
  split_ifs
  · rw [Nat.add_sub_cancel, List.set_append_right _ _ (le_refl _), Nat.sub_self, List.set_cons_zero,
      List.eraseIdx_append_of_length_le (Nat.le_add_right _ 1), Nat.add_sub_cancel_left]
    rfl
  · rfl

/-- Nothing is joined at an interval that keeps its distance to the next one. -/
lemma joinAt_apart (apart : ∀ i ∈ back, long (m.stop + 1) ≠ i.start) :
    joinAt (front ++ m :: back) (front.length + 1) = front ++ m :: back := by
  cases back with
  | nil =>
    have behind : (front ++ [m])[front.length + 1]? = none := List.getElem?_eq_none (by simp)
    rw [joinAt, behind]
    split <;> simp_all
  | cons b back => rw [joinAt_middle, if_neg (apart b List.mem_cons_self)]

/-- The join around an interval with nothing in front of it that keeps its distance to the next one. -/
lemma added_front (apart : ∀ i ∈ back, long (m.stop + 1) ≠ i.start) :
    s.added 0 (m :: back) = (true, { s with intervals := m :: back }) := by
  have same : joinAdjacentIntervals (m :: back) 0 = m :: back := by
    cases back with
    | nil => rfl
    | cons b back => rw [joinAdjacentIntervals_front, if_neg (apart b List.mem_cons_self)]
  rw [UUIDSet.added, same, ite_self]

/-- The join around an interval that keeps its distance to the next one joins it with the one in front of it, if they
    touch. -/
lemma added_behind (apart : ∀ i ∈ back, long (m.stop + 1) ≠ i.start) :
    s.added (front.length + 1) (front ++ a :: m :: back) = (true, { s with intervals :=
      (if long (a.stop + 1) = m.start then front ++ { a with stop := m.stop } :: back
        else front ++ a :: m :: back) }) := by
  have many : (front ++ a :: m :: back).length > 1 := by
    rw [List.length_append, List.length_cons, List.length_cons]
    omega
  have behind : joinAt (front ++ a :: m :: back) (front.length + 1 + 1) = front ++ a :: m :: back := by
    have same := @joinAt_apart (front ++ [a]) back m apart
    rwa [List.length_append, List.length_singleton, List.append_assoc, List.singleton_append] at same
  rw [UUIDSet.added, if_pos many, joinAdjacentIntervals, ← joinAt_middle]
  congr 2
  cases back with
  | nil =>
    have first : min (front.length + 1 + 1) ((front ++ [a, m]).length - 1) - (front.length + 1 - 1) = 1 := by
      rw [List.length_append, List.length_cons, List.length_singleton]
      omega
    rw [first]
    rfl
  | cons b back =>
    have first : min (front.length + 1 + 1) ((front ++ a :: m :: b :: back).length - 1) -
        (front.length + 1 - 1) = 2 := by
      simp only [List.length_append, List.length_cons]
      omega
    rw [first, Nat.add_sub_cancel]
    show joinAt (joinAt (front ++ a :: m :: b :: back) (front.length + 1 + 1)) (front.length + 1) = _
    rw [behind]

/-- The join leaves the intervals separated, with the same transactions. -/
lemma added_canonical (before : Canonical front) (after : Canonical back) (valid : m.start ≤ m.stop)
    (range : 0 < m.start ∧ m.stop < 2 ^ 63) (below : ∀ i ∈ front, i.stop < m.start)
    (gaps : ∀ i ∈ back, m.stop + 1 < i.start) :
    ∃ is, s.added front.length (front ++ m :: back) = (true, { s with intervals := is }) ∧ Canonical is ∧
      is ≠ [] ∧ transactions is = transactions (front ++ m :: back) := by
  have apart : ∀ i ∈ back, long (m.stop + 1) ≠ i.start := by
    intro i mem touch
    have inside := after.range i mem
    have valid' := after.apart.valid i mem
    have gap := gaps i mem
    rw [long_succ (by omega) range.2 inside.1 (by omega)] at touch
    omega
  rcases List.eq_nil_or_concat front with rfl | ⟨front, a, rfl⟩
  · exact ⟨_, added_front apart, before.between after valid range nofun gaps, List.cons_ne_nil _ _, rfl⟩
  · rw [List.concat_eq_append] at before below ⊢
    have mem_a : a ∈ front ++ [a] := List.mem_append_right _ List.mem_cons_self
    have valid_a := before.apart.valid a mem_a
    have range_a := before.range a mem_a
    have below_a := below a mem_a
    have gaps_a : ∀ i ∈ front, i.stop + 1 < a.start := fun i mem =>
      (List.pairwise_append.mp before.apart.gaps).2.2 i mem a List.mem_cons_self
    rw [List.length_append, List.length_singleton, List.append_assoc, List.singleton_append, added_behind apart]
    refine ⟨_, rfl, ?_⟩
    split_ifs with touch
    · rw [long_succ (by omega) (by omega) range.1 (by omega)] at touch
      refine ⟨before.left.between after (by dsimp only; omega) ⟨range_a.1, range.2⟩ gaps_a gaps, by simp, ?_⟩
      have together : Set.Icc a.start m.stop = Set.Icc a.start a.stop ∪ Set.Icc m.start m.stop := by
        ext x
        simp only [Set.mem_union, Set.mem_Icc]
        omega
      simp only [covered_append, covered_cons, together, Set.union_assoc]
    · rw [long_succ (by omega) (by omega) range.1 (by omega)] at touch
      refine ⟨?_, by simp, rfl⟩
      have separate : Canonical ((front ++ [a]) ++ m :: back) := by
        apply before.between after valid range ?_ gaps
        intro i mem
        rcases List.mem_append.mp mem with mem | mem
        · have gap := gaps_a i mem
          omega
        · rw [List.mem_singleton.mp mem]
          omega
      rwa [List.append_assoc] at separate

/-- An interval inserted behind the first part. -/
lemma insertIdx_between : (front ++ back).insertIdx front.length m = front ++ m :: back := by
  induction front with
  | nil => rw [List.nil_append, List.length_nil, List.insertIdx_zero, List.nil_append]
  | cons a front ih => rw [List.cons_append, List.length_cons, List.insertIdx_succ_cons, ih, List.cons_append]

/-- A transaction of its own is put between the intervals. -/
lemma insertAt_adds (ca : Canonical (front ++ back)) (split : s.intervals = front ++ back) (pos : 0 < v)
    (lt : v < 2 ^ 63) (below : ∀ i ∈ front, i.stop < v) (above : ∀ i ∈ back, v + 1 < i.start) :
    ∃ is, s.insertAt front.length v = some (true, { s with intervals := is }) ∧ Canonical is ∧ is ≠ [] ∧
      transactions is = insert v (transactions (front ++ back)) := by
  obtain ⟨is, joined, canonical, some', same⟩ := added_canonical (s := s) (m := ⟨v, v⟩) ca.left ca.right (le_refl v)
    ⟨pos, lt⟩ below above
  have room : front.length ≤ s.intervals.length := by
    rw [split, List.length_append]
    omega
  refine ⟨is, ?_, canonical, some', ?_⟩
  · rw [UUIDSet.insertAt, if_pos room, split, insertIdx_between, joined]
  · rw [same]
    simp only [covered_append, covered_cons, Set.Icc_self, Set.singleton_union, Set.union_insert]

/-- `add` adds the transaction, and returns whether it was new. -/
lemma UUIDSet.add_adds (ca : Canonical s.intervals) (pos : 0 < v) (lt : v < 2 ^ 63) :
    ∃ added is, s.add v = some (added, { s with intervals := is }) ∧ Canonical is ∧ is ≠ [] ∧
      (added = true ↔ v ∉ transactions s.intervals) ∧ transactions is = insert v (transactions s.intervals) := by
  obtain ⟨front, back, split, below, first⟩ : ∃ front back, s.intervals = front ++ back ∧
      (∀ i ∈ front, i.stop < v) ∧ ∀ i ∈ back.head?, v ≤ i.stop := by
    refine ⟨s.intervals.takeWhile fun i => i.stop < v, s.intervals.dropWhile fun i => i.stop < v,
      List.takeWhile_append_dropWhile.symm, ?_, ?_⟩
    · intro i mem
      have ends := List.mem_takeWhile_imp mem
      exact of_decide_eq_true ends
    · intro i mem
      have reaches := List.head?_dropWhile_not (fun i : Interval => decide (i.stop < v)) s.intervals
      rw [Option.mem_def.mp mem] at reaches
      exact Int.not_lt.mp (of_decide_eq_false reaches)
  rw [split] at ca ⊢
  have outside : v ∉ transactions front := by
    rintro ⟨i, mem, inside⟩
    exact absurd inside.2 (Int.not_le.mpr (below i mem))
  cases back with
  | nil =>
    have index : findInterval (front ++ []) v = some front.length := findInterval_split ca below nofun
    obtain ⟨is, put, canonical, some', same⟩ := insertAt_adds ca split pos lt below nofun
    have behind : (front ++ [])[front.length]? = none := List.getElem?_eq_none (by simp)
    refine ⟨true, is, ?_, canonical, some', by simpa using outside, same⟩
    rw [UUIDSet.add, split, index, Option.bind_eq_bind, Option.bind_some, behind]
    exact put
  | cons c back =>
    have reaches := first c rfl
    have after := List.pairwise_cons.mp ca.right.apart.gaps
    have valid := ca.right.apart.valid c List.mem_cons_self
    have range := ca.right.range c List.mem_cons_self
    have above : ∀ i ∈ c :: back, v ≤ i.stop := by
      intro i mem
      rcases List.mem_cons.mp mem with rfl | mem
      · exact reaches
      · have gap := after.1 i mem
        have valid := ca.right.apart.valid i (List.mem_cons_of_mem c mem)
        omega
    have index : findInterval (front ++ c :: back) v = some front.length := findInterval_split ca below above
    have at_c : (front ++ c :: back)[front.length]? = some c := by
      rw [List.getElem?_append_right (le_refl _), Nat.sub_self]
      rfl
    have never : long (c.stop + 1) ≠ v := by
      intro wrapped
      rw [long_succ (by omega) range.2 pos lt] at wrapped
      omega
    have fresh : v < c.start → v ∉ transactions (front ++ c :: back) := by
      rw [transactions, covered_append, covered_cons]
      rintro low (mem | mem | mem)
      · exact outside mem
      · exact absurd mem.1 (Int.not_le.mpr low)
      · have behind := ca.right.apart.above mem
        omega
    rw [UUIDSet.add, split, index, Option.bind_eq_bind, Option.bind_some, at_c]
    dsimp only
    split_ifs with touches inside
    · rw [eq_comm, long_succ pos lt range.1 (by omega)] at touches
      obtain ⟨is, joined, canonical, some', same⟩ := added_canonical (s := s) (m := ⟨v, c.stop⟩) ca.left
        ⟨ca.right.apart.tail, fun i mem => ca.right.range i (List.mem_cons_of_mem c mem)⟩ reaches ⟨pos, range.2⟩ below
        after.1
      refine ⟨true, is, ?_, canonical, some', ?_, ?_⟩
      · rw [List.set_append_right _ _ (le_refl _), Nat.sub_self, List.set_cons_zero, joined]
      · exact iff_of_true rfl (fresh (by omega))
      · have longer : Set.Icc v c.stop = insert v (Set.Icc c.start c.stop) := by
          ext x
          simp only [Set.mem_insert_iff, Set.mem_Icc]
          omega
        rw [same]
        simp only [covered_append, covered_cons, longer, Set.insert_union, Set.union_insert]
    · have held : v ∈ transactions (front ++ c :: back) := ⟨c, List.mem_append_right _ List.mem_cons_self, inside⟩
      refine ⟨false, front ++ c :: back, ?_, ca, by simp, iff_of_false nofun (not_not_intro held),
        (Set.insert_eq_of_mem held).symm⟩
      rw [← split]
    · have low : v < c.start := by omega
      rw [eq_comm, long_succ pos lt range.1 (by omega)] at touches
      have gaps : ∀ i ∈ c :: back, v + 1 < i.start := by
        intro i mem
        rcases List.mem_cons.mp mem with rfl | mem
        · omega
        · have gap := after.1 i mem
          omega
      obtain ⟨is, put, canonical, some', same⟩ := insertAt_adds ca split pos lt below gaps
      exact ⟨true, is, put, canonical, some', iff_of_true rfl (fresh low), same⟩

end

/-! ## Adding GTIDs to a set -/

/-- The set has one entry for each of its sources, with separated intervals. -/
structure Held (map : List UUIDSet) : Prop where
  once : (map.map UUIDSet.uuid).Nodup
  canonical : ∀ s ∈ map, Canonical s.intervals
  full : ∀ s ∈ map, s.intervals ≠ []

/-- The set has this transaction of this source. -/
def Has (map : List UUIDSet) (source : Str) (id : Int) : Prop :=
  ∃ s ∈ map, s.uuid = source ∧ id ∈ transactions s.intervals

section
variable {map : List UUIDSet} {s x : UUIDSet} {source gtid : Str} {id : Int}

/-- `map.put` replaces what was there under the key. -/
lemma mem_putUUIDSet : x ∈ putUUIDSet map s ↔ x = s ∨ x ∈ map ∧ x.uuid ≠ s.uuid := by
  rw [putUUIDSet]
  split_ifs with old
  · obtain ⟨y, mem, same⟩ := List.any_eq_true.mp old
    rw [List.mem_map]
    constructor
    · rintro ⟨z, mem, rfl⟩
      split_ifs with here
      · exact .inl rfl
      · exact .inr ⟨mem, here⟩
    · rintro (rfl | ⟨mem, other⟩)
      · exact ⟨y, mem, if_pos (of_decide_eq_true same)⟩
      · exact ⟨x, mem, if_neg other⟩
  · have new : ∀ y ∈ map, y.uuid ≠ s.uuid := fun y mem same =>
      old (List.any_eq_true.mpr ⟨y, mem, decide_eq_true same⟩)
    rw [List.mem_append, List.mem_singleton]
    exact ⟨fun mem => mem.symm.imp_right fun mem => ⟨mem, new x mem⟩, fun mem => mem.symm.imp_left And.left⟩

/-- The keys of the map stay distinct. -/
lemma putUUIDSet_once (once : (map.map UUIDSet.uuid).Nodup) : ((putUUIDSet map s).map UUIDSet.uuid).Nodup := by
  rw [putUUIDSet]
  split_ifs with old
  · have same : (map.map fun x => if x.uuid = s.uuid then s else x).map UUIDSet.uuid = map.map UUIDSet.uuid := by
      rw [List.map_map]
      apply List.map_congr_left
      intro x _
      rw [Function.comp_apply]
      split_ifs with here
      · exact here.symm
      · rfl
    rwa [same]
  · rw [List.map_append, List.nodup_append]
    refine ⟨once, List.nodup_singleton _, ?_⟩
    intro a mem_a b mem_b same
    obtain ⟨x, mem, uuid⟩ := List.mem_map.mp mem_a
    rw [List.map_singleton, List.mem_singleton] at mem_b
    exact old (List.any_eq_true.mpr ⟨x, mem, decide_eq_true (uuid.trans (same.trans mem_b))⟩)

/-- The entry that `getUUIDSet` finds is one of the source. -/
lemma getUUIDSet_some (get : getUUIDSet map source = some s) : s ∈ map ∧ s.uuid = source :=
  ⟨List.mem_of_find?_eq_some get, by simpa using List.find?_some get⟩

/-- `map.get` finds the only entry of a source. -/
lemma Held.get (he : Held map) (mem : s ∈ map) : getUUIDSet map s.uuid = some s := by
  cases get : getUUIDSet map s.uuid with
  | none => exact absurd (List.find?_eq_none.mp get s mem) (by simp)
  | some x =>
    obtain ⟨mem_x, same⟩ := getUUIDSet_some get
    rw [List.inj_on_of_nodup_map he.once mem_x mem same]

/-- A number that is read is a `long`. -/
lemma parseLong_lt {text : Str} {n : Int} (read : parseLong text = some n) : n < 2 ^ 63 := by
  unfold parseLong at read
  dsimp only at read
  split at read
  all_goals
    obtain ⟨k, _, read⟩ := Option.bind_eq_some_iff.mp read
    split_ifs at read
    cases read
    omega

/-- A GTID that is read has a transaction that fits. -/
lemma readGtid_lt (read : readGtid gtid = some (source, id)) : id < 2 ^ 63 := by
  simp only [readGtid, Option.bind_eq_bind, Option.bind_eq_some_iff, Option.some.injEq, Prod.mk.injEq] at read
  obtain ⟨_, _, n, ⟨_, _, number⟩, _, rfl⟩ := read
  exact parseLong_lt number

/-- `add` adds the transaction to the entry of its source, and returns whether it was new. -/
lemma GtidSet.add_adds (he : Held map) (read : readGtid gtid = some (source, id)) (pos : 0 < id) :
    ∃ added map', GtidSet.add map gtid = some (added, map') ∧ Held map' ∧
      (added = true ↔ ¬ Has map source id) ∧
      ∀ source' id', Has map' source' id' ↔ Has map source' id' ∨ source' = source ∧ id' = id := by
  have lt := readGtid_lt read
  -- the entry of the source, which is empty if the source is new
  obtain ⟨s, entry, uuid, canonical, held⟩ : ∃ s, (getUUIDSet map source).getD (.new source []) = s ∧
      s.uuid = source ∧ Canonical s.intervals ∧ ∀ id', Has map source id' ↔ id' ∈ transactions s.intervals := by
    cases get : getUUIDSet map source with
    | none =>
      refine ⟨_, rfl, rfl, ⟨.nil, fun _ mem => absurd mem List.not_mem_nil⟩, fun id' => iff_of_false ?_ ?_⟩
      · rintro ⟨x, mem, same, _⟩
        rw [← same, he.get mem] at get
        cases get
      · rintro ⟨i, mem, _⟩
        exact absurd mem List.not_mem_nil
    | some s =>
      obtain ⟨mem, same⟩ := getUUIDSet_some get
      refine ⟨s, rfl, same, he.canonical s mem, fun id' => ⟨?_, fun inside => ⟨s, mem, same, inside⟩⟩⟩
      rintro ⟨x, mem_x, same_x, inside⟩
      rwa [List.inj_on_of_nodup_map he.once mem_x mem (same_x.trans same.symm)] at inside
  obtain ⟨added, is, run, canonical, full, new, together⟩ := UUIDSet.add_adds canonical pos lt
  refine ⟨added, putUUIDSet map { s with intervals := is }, ?_, ⟨putUUIDSet_once he.once, ?_, ?_⟩, ?_, ?_⟩
  · rw [GtidSet.add, read]
    dsimp only [Option.bind_eq_bind, Option.bind_some]
    rw [entry, run]
    rfl
  · intro x mem
    rcases mem_putUUIDSet.mp mem with rfl | ⟨mem, _⟩
    · exact canonical
    · exact he.canonical x mem
  · intro x mem
    rcases mem_putUUIDSet.mp mem with rfl | ⟨mem, _⟩
    · exact full
    · exact he.full x mem
  · rw [new, held]
  · intro source' id'
    by_cases here : source' = source
    · rw [here, held, Has]
      constructor
      · rintro ⟨x, mem, same, inside⟩
        rcases mem_putUUIDSet.mp mem with rfl | ⟨_, other⟩
        · rw [together, Set.mem_insert_iff] at inside
          exact inside.symm.imp_right fun eq => ⟨rfl, eq⟩
        · exact absurd (same.trans uuid.symm) other
      · intro either
        refine ⟨_, mem_putUUIDSet.mpr (.inl rfl), uuid, ?_⟩
        rw [together, Set.mem_insert_iff]
        exact either.symm.imp_left And.right
    · rw [Has, Has]
      constructor
      · rintro ⟨x, mem, same, inside⟩
        rcases mem_putUUIDSet.mp mem with rfl | ⟨mem, _⟩
        · exact absurd (same.symm.trans uuid) here
        · exact .inl ⟨x, mem, same, inside⟩
      · rintro (⟨x, mem, same, inside⟩ | ⟨eq, _⟩)
        · exact ⟨x, mem_putUUIDSet.mpr (.inr ⟨mem, fun eq => here (same.symm.trans (eq.trans uuid))⟩), same, inside⟩
        · exact absurd eq here

/-- Adding any GTIDs adds exactly these to the set, whose intervals stay separated, and each call returns whether its
    GTID was neither there before nor added by an earlier call. -/
theorem adds_exactly {gtids : List Str} (he : Held map)
    (valid : ∀ gtid ∈ gtids, ∃ source id, readGtid gtid = some (source, id) ∧ 0 < id) :
    ∃ added map', GtidSet.addAll map gtids = some (added, map') ∧ Held map' ∧
      (∀ source id, Has map' source id ↔ Has map source id ∨ some (source, id) ∈ gtids.map readGtid) ∧
      added.length = gtids.length ∧
      ∀ (i : Nat) gtid source id, gtids[i]? = some gtid → readGtid gtid = some (source, id) →
        (added[i]? = some true ↔ ¬ Has map source id ∧ some (source, id) ∉ (gtids.take i).map readGtid) := by
  induction gtids generalizing map with
  | nil => exact ⟨[], map, rfl, he, by simp, rfl, nofun⟩
  | cons gtid gtids ih =>
    obtain ⟨source, id, read, pos⟩ := valid gtid List.mem_cons_self
    obtain ⟨b, map1, run, held, new, has⟩ := GtidSet.add_adds he read pos
    obtain ⟨added, map', runs, held', has', length, news⟩ :=
      ih held fun g mem => valid g (List.mem_cons_of_mem gtid mem)
    refine ⟨b :: added, map', by rw [GtidSet.addAll, run]; exact (congrArg (· >>= _) runs), held', ?_,
      by rw [List.length_cons, List.length_cons, length], ?_⟩
    · intro source' id'
      rw [has', has, List.map_cons, List.mem_cons, read, Option.some.injEq, Prod.mk.injEq, or_assoc]
    · intro i g source' id' at_i read'
      cases i with
      | zero =>
        cases at_i
        rw [read] at read'
        cases read'
        rw [List.getElem?_cons_zero, Option.some.injEq, new, List.take_zero]
        simp
      | succ i =>
        rw [List.getElem?_cons_succ] at at_i ⊢
        rw [news i g source' id' at_i read', has, List.take_succ_cons, List.map_cons, List.mem_cons, read,
          Option.some.injEq, Prod.mk.injEq]
        tauto

end

/-- The empty set holds nothing. -/
lemma Held.nil : Held [] := ⟨.nil, nofun, nofun⟩

/-- Transactions of one source that close the gap between two others, and one of another source, twice. -/
def gapGtids : List Str := ["a:1".toList, "a:3".toList, "b:7".toList, "a:2".toList, "b:7".toList]

/-- Only the last of these was there before. -/
theorem gap_closed : ∃ map, GtidSet.addAll [] gapGtids = some ([true, true, true, true, false], map) ∧
    Has map "a".toList 2 ∧ ¬ Has map "b".toList 2 := by
  have valid : ∀ gtid ∈ gapGtids, ∃ source id, readGtid gtid = some (source, id) ∧ 0 < id := by
    intro gtid mem
    simp only [gapGtids, List.mem_cons, List.not_mem_nil, or_false] at mem
    rcases mem with rfl | rfl | rfl | rfl | rfl <;> exact ⟨_, _, rfl, by decide⟩
  obtain ⟨added, map, run, _, has, _, _⟩ := adds_exactly Held.nil valid
  have returned : (GtidSet.addAll [] gapGtids).map Prod.fst = some [true, true, true, true, false] := by decide +kernel
  rw [run, Option.map_some, Option.some.injEq] at returned
  refine ⟨map, by rw [run, ← returned], (has _ _).mpr (.inr (by decide)), fun held => ?_⟩
  rcases (has _ _).mp held with ⟨_, mem, _⟩ | mem
  · cases mem
  · exact absurd mem (by decide)

end TdsqlMerge.Fetcher
