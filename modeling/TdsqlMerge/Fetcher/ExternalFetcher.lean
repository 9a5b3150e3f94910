import Mathlib.Tactic.IntervalCases
import TdsqlMerge.Fetcher.Logger
import TdsqlMerge.Lib.Machine

/-!
# Fetching the sources, over restarts

Embedding of `src/external/extfetcher.cpp` and of the end of `JVMConn::callMethod`
(`src/external/jvmconn.cpp`), as `main` runs them for the sources 0 and 1. The process may die at every
point and be started again; what survives are the log and the dump files. `stream` is the sequence of
events of each source, which `mysql_binlog_fetch` delivers one by one. A failure of libmysql is a C++
exception that nothing catches. A Java exception of `canalSplitOne` is only described by `callMethod`, and
the loop goes on; one of `GtidResolver` leaves no string to read, and the process dies.

A marker says that its work was done (`MarkersTrue`) in every run in which the process does not go on
after such an exception (`handled_markers`).
-/

namespace TdsqlMerge.Fetcher
open Lib

/-- The bytes of an event. -/
abbrev Packet := List UInt8

/-- Where the process stands. -/
inductive Point where
  | down
  /-- In the loop of `evokeFetchAll` over `retrieveGtidPackage`. -/
  | resolving (index : Nat)
  /-- At the head of the loop of `evokeFetch`. -/
  | checking (index : Nat)
  /-- In `dumpEventToFile` before `mysql_binlog_open` has returned. -/
  | connecting (index : Nat)
  /-- In the loop of `dumpEventToFile`. -/
  | fetching (index : Nat)
  /-- In `Entry.canalSplitOne`, with the number of events dealt with. -/
  | splitting (index : Nat) (dealt : Nat)
  /-- After `CallObjectMethod`, with what `ExceptionCheck` says. -/
  | returned (index : Nat) (exception : Bool)
  /-- After `evokeFetch`. -/
  | marking
  /-- After `evokeFetchAll`. -/
  | loading
  deriving DecidableEq

/-- The process with the files that survive it. `completed` records for every call of `canalSplitOne` that
    returned without an exception the source and the dump it was called on. -/
structure ExternalFetcher where
  point : Point
  log : List UInt64
  dump : Nat → List Packet
  completed : List (Nat × List Packet)

/-- Before the first run. -/
def ExternalFetcher.new : ExternalFetcher :=
  { point := .down, log := [], dump := fun _ => [], completed := [] }

/-- The process is started, dies, goes on, or the call it is in fails. -/
inductive Action where
  | start
  | die
  | go
  | fail
  deriving DecidableEq

namespace ExternalFetcher

/-- The start of `evokeFetchAll(0, 1)`. -/
def start (s : ExternalFetcher) : ExternalFetcher :=
  { s with point := if findLog s.log finished allKey then .loading else .resolving 0 }

/-- The next step of the process. -/
def go (stream : Nat → List Packet) (s : ExternalFetcher) : Option ExternalFetcher :=
  match s.point with
  | .resolving index =>
    some { s with point := if index ≤ 1 then .resolving (index + 1) else .checking 0 }
  | .checking index =>
    if index ≤ 1 then
      if findLog s.log finished (sourceKey index) then some { s with point := .checking (index + 1) }
      else some { s with point := .connecting index, dump := Function.update s.dump index [] }
    else some { s with point := .marking }
  | .connecting index => some { s with point := .fetching index }
  | .fetching index =>
    match (stream index)[(s.dump index).length]? with
    | some packet =>
      some { s with
        point := .fetching index
        dump := Function.update s.dump index (s.dump index ++ [packet]) }
    | none => some { s with point := .splitting index 0 }
  | .splitting index dealt =>
    if dealt < (s.dump index).length then some { s with point := .splitting index (dealt + 1) }
    else some { s with point := .returned index false, completed := (index, s.dump index) :: s.completed }
  -- an exception is only printed
  | .returned index _ =>
    some { s with
      point := .checking (index + 1)
      log := writeNormalLog s.log finished (sourceKey index) }
  | .marking => some { s with point := .loading, log := writeNormalLog s.log finished allKey }
  | _ => none

/-- The failure of the call the process is in. -/
def fail (s : ExternalFetcher) : Option ExternalFetcher :=
  match s.point with
  | .resolving _ | .connecting _ | .fetching _ => some { s with point := .down }
  | .splitting index _ => some { s with point := .returned index true }
  | _ => none

/-- A step of the process. -/
def step (stream : Nat → List Packet) (s : ExternalFetcher) : Action → Option ExternalFetcher
  | .start => match s.point with
    | .down => some s.start
    | _ => none
  | .die => match s.point with
    | .down => none
    | _ => some { s with point := .down }
  | .go => s.go stream
  | .fail => s.fail

end ExternalFetcher

/-- A run fetched all events of the source, and `canalSplitOne` returned for it without an exception. -/
def Done (stream : Nat → List Packet) (s : ExternalFetcher) (index : Nat) : Prop :=
  (index, stream index) ∈ s.completed

/-- Every marker that exists says the truth. -/
structure MarkersTrue (stream : Nat → List Packet) (s : ExternalFetcher) : Prop where
  source : ∀ index ≤ 1, findLog s.log finished (sourceKey index) = true → Done stream s index
  all : findLog s.log finished allKey = true → ∀ index ≤ 1, Done stream s index

/-- The process does not go on after a call of `canalSplitOne` that ended with an exception. -/
def handled (s : ExternalFetcher) (a : Action) : Bool :=
  match s.point, a with
  | .returned _ true, .go => false
  | _, _ => true

variable {stream : Nat → List Packet} {s s' : ExternalFetcher}

/-- The work for the sources before `index` is done. -/
def Prior (stream : Nat → List Packet) (s : ExternalFetcher) (index : Nat) : Prop :=
  ∀ i < index, i ≤ 1 → Done stream s i

/-- What is known where the process stands: the sources before the current one are done, and the dump grows
    to the stream of the current one. -/
def AtPoint (stream : Nat → List Packet) (s : ExternalFetcher) : Prop :=
  match s.point with
  | .checking index => Prior stream s index
  | .connecting index => index ≤ 1 ∧ Prior stream s index ∧ s.dump index = []
  | .fetching index => index ≤ 1 ∧ Prior stream s index ∧ s.dump index <+: stream index
  | .splitting index _ => index ≤ 1 ∧ Prior stream s index ∧ s.dump index = stream index
  | .returned index exception =>
    index ≤ 1 ∧ Prior stream s index ∧ (exception = false → Done stream s index)
  | .marking => Prior stream s 2
  | _ => True

/-- The sources have different marker files. -/
lemma sourceName_injective {i j : Nat} (hi : i ≤ 1) (hj : j ≤ 1)
    (same : fileName finished (sourceKey i) = fileName finished (sourceKey j)) : i = j := by
  obtain ⟨apart, _, _⟩ := fileName_injective
  interval_cases i <;> interval_cases j
  · rfl
  · exact absurd same apart
  · exact absurd same.symm apart
  · rfl

/-- The marker file of a source is not that of all sources. -/
lemma sourceName_ne_all {i : Nat} (hi : i ≤ 1) :
    fileName finished (sourceKey i) ≠ fileName finished allKey := by
  obtain ⟨_, zero, one⟩ := fileName_injective
  interval_cases i
  · exact zero
  · exact one

/-- A marker is found if it was just written or was there before. -/
lemma findLog_write {log : List UInt64} {type type' : Nat} {key key' : Str} :
    findLog (writeNormalLog log type key) type' key' = true ↔
      fileName type' key' = fileName type key ∨ findLog log type' key' = true := by
  rw [findLog, findLog, decide_eq_true_eq, decide_eq_true_eq, writeNormalLog, List.mem_cons]

/-- What is done stays done, and so do the markers that say so. -/
lemma MarkersTrue.frame (mt : MarkersTrue stream s) (log : s'.log = s.log)
    (completed : ∀ c ∈ s.completed, c ∈ s'.completed) : MarkersTrue stream s' where
  source := by
    rw [log]
    exact fun index le found => completed _ (mt.source index le found)
  all := by
    rw [log]
    exact fun found index le => completed _ (mt.all found index le)

/-- Once a source is done, the work before the next one is. -/
lemma Prior.succ {index : Nat} (prior : Prior stream s index) (done : index ≤ 1 → Done stream s index) :
    Prior stream s (index + 1) := by
  intro i lt le
  rcases Nat.lt_succ_iff_lt_or_eq.mp lt with lt | rfl
  · exact prior i lt le
  · exact done le

/-! ### The steps of `go`, point by point -/

section
variable {index : Nat} (mt : MarkersTrue stream s) (at_point : AtPoint stream s) (st : s.go stream = some s')
include mt at_point st

omit at_point in
/-- A step that resolves the position keeps the markers true. -/
lemma resolving_markers (point : s.point = .resolving index) :
    MarkersTrue stream s' ∧ AtPoint stream s' := by
  rw [ExternalFetcher.go, point] at st
  cases st
  refine ⟨mt.frame rfl fun _ mem => mem, ?_⟩
  rw [AtPoint]
  by_cases le : index ≤ 1
  · rw [if_pos le]
    trivial
  · rw [if_neg le]
    intro i lt _
    exact absurd lt (Nat.not_lt_zero i)

/-- A source is skipped because of its marker, or its dump is started anew, or there are no more. -/
lemma checking_markers (point : s.point = .checking index) :
    MarkersTrue stream s' ∧ AtPoint stream s' := by
  rw [ExternalFetcher.go, point] at st
  rw [AtPoint, point] at at_point
  dsimp only at st
  split at st
  · rename_i le
    split at st
    · rename_i found
      cases st
      exact ⟨mt.frame rfl fun _ mem => mem, Prior.succ at_point fun _ => mt.source index le found⟩
    · cases st
      exact ⟨mt.frame rfl fun _ mem => mem, le, at_point, Function.update_self _ _ _⟩
  · rename_i gt
    cases st
    refine ⟨mt.frame rfl fun _ mem => mem, ?_⟩
    intro i _ le
    exact at_point i (Nat.lt_of_le_of_lt le (Nat.not_le.mp gt)) le

/-- A step that connects keeps the markers true. -/
lemma connecting_markers (point : s.point = .connecting index) :
    MarkersTrue stream s' ∧ AtPoint stream s' := by
  rw [ExternalFetcher.go, point] at st
  rw [AtPoint, point] at at_point
  cases st
  obtain ⟨le, prior, empty⟩ := at_point
  refine ⟨mt.frame rfl fun _ mem => mem, le, prior, ?_⟩
  show s.dump index <+: stream index
  rw [empty]
  exact List.nil_prefix

/-- The dump stays a beginning of the stream, and is all of it at the end. -/
lemma fetching_markers (point : s.point = .fetching index) :
    MarkersTrue stream s' ∧ AtPoint stream s' := by
  rw [ExternalFetcher.go, point] at st
  rw [AtPoint, point] at at_point
  obtain ⟨le, prior, grown⟩ := at_point
  dsimp only at st
  split at st
  · rename_i packet next
    cases st
    refine ⟨mt.frame rfl fun _ mem => mem, le, prior, ?_⟩
    show Function.update s.dump index _ index <+: stream index
    obtain ⟨rest, e⟩ := grown
    rw [Function.update_self, ← e]
    rw [← e, List.getElem?_append_right le_rfl, Nat.sub_self] at next
    cases rest with
    | nil => cases next
    | cons first rest =>
      cases next
      exact ⟨rest, List.append_assoc _ _ _⟩
  · rename_i ended
    cases st
    refine ⟨mt.frame rfl fun _ mem => mem, le, prior, ?_⟩
    exact grown.eq_of_length_le (List.getElem?_eq_none_iff.mp ended)

/-- A step that splits keeps the markers true. -/
lemma splitting_markers {dealt : Nat} (point : s.point = .splitting index dealt) :
    MarkersTrue stream s' ∧ AtPoint stream s' := by
  rw [ExternalFetcher.go, point] at st
  rw [AtPoint, point] at at_point
  obtain ⟨le, prior, whole⟩ := at_point
  dsimp only at st
  split at st
  · cases st
    exact ⟨mt.frame rfl fun _ mem => mem, le, prior, whole⟩
  · cases st
    have more : ∀ c ∈ s.completed, c ∈ (index, s.dump index) :: s.completed :=
      fun c mem => List.mem_cons_of_mem _ mem
    refine ⟨mt.frame rfl more, le, fun i lt hi => more _ (prior i lt hi), fun _ => ?_⟩
    rw [Done, whole]
    exact List.mem_cons_self

/-- The marker of a source is written when its work was done. -/
lemma returned_markers (point : s.point = .returned index false) :
    MarkersTrue stream s' ∧ AtPoint stream s' := by
  rw [ExternalFetcher.go, point] at st
  rw [AtPoint, point] at at_point
  obtain ⟨le, prior, returned⟩ := at_point
  have done := returned rfl
  cases st
  refine ⟨⟨?_, ?_⟩, prior.succ fun _ => done⟩
  · intro i hi found
    rcases findLog_write.mp found with same | old
    · rw [sourceName_injective hi le same]
      exact done
    · exact mt.source i hi old
  · intro found
    rcases findLog_write.mp found with same | old
    · exact absurd same.symm (sourceName_ne_all le)
    · exact mt.all old

omit mt in
/-- The marker of all sources is written when both were dealt with. -/
lemma marking_markers (point : s.point = .marking) : MarkersTrue stream s' ∧ AtPoint stream s' := by
  rw [ExternalFetcher.go, point] at st
  rw [AtPoint, point] at at_point
  cases st
  have both : ∀ index ≤ 1, Done stream s index :=
    fun index le => at_point index (Nat.lt_succ_of_le le) le
  exact ⟨⟨fun i hi _ => both i hi, fun _ => both⟩, trivial⟩

end

/-- A step that does not go on after an exception keeps the markers true. -/
lemma go_markers (mt : MarkersTrue stream s) (at_point : AtPoint stream s)
    (ok : handled s .go = true) (st : s.go stream = some s') :
    MarkersTrue stream s' ∧ AtPoint stream s' := by
  cases point : s.point with
  | resolving index => exact resolving_markers mt st point
  | checking index => exact checking_markers mt at_point st point
  | connecting index => exact connecting_markers mt at_point st point
  | fetching index => exact fetching_markers mt at_point st point
  | splitting index dealt => exact splitting_markers mt at_point st point
  | returned index exception =>
    cases exception with
    | false => exact returned_markers mt at_point st point
    | true => simp [handled, point] at ok
  | marking => exact marking_markers at_point st point
  | down =>
    rw [ExternalFetcher.go, point] at st
    cases st
  | loading =>
    rw [ExternalFetcher.go, point] at st
    cases st

/-- Every step that meets the condition keeps the markers true. -/
lemma step_markers {a : Action} (mt : MarkersTrue stream s) (at_point : AtPoint stream s)
    (ok : handled s a = true) (st : s.step stream a = some s') :
    MarkersTrue stream s' ∧ AtPoint stream s' := by
  cases a with
  | start =>
    rw [ExternalFetcher.step] at st
    split at st
    · cases st
      refine ⟨mt.frame rfl fun _ mem => mem, ?_⟩
      rw [AtPoint, ExternalFetcher.start]
      cases findLog s.log finished allKey <;> trivial
    · cases st
  | die =>
    rw [ExternalFetcher.step] at st
    split at st
    · cases st
    · cases st
      exact ⟨mt.frame rfl fun _ mem => mem, trivial⟩
  | go => exact go_markers mt at_point ok st
  | fail =>
    rw [ExternalFetcher.step, ExternalFetcher.fail] at st
    split at st
    · cases st
      exact ⟨mt.frame rfl fun _ mem => mem, trivial⟩
    · cases st
      exact ⟨mt.frame rfl fun _ mem => mem, trivial⟩
    · cases st
      exact ⟨mt.frame rfl fun _ mem => mem, trivial⟩
    · rename_i index dealt point
      rw [AtPoint, point] at at_point
      obtain ⟨le, prior, _⟩ := at_point
      cases st
      exact ⟨mt.frame rfl fun _ mem => mem, le, prior, fun e => by cases e⟩
    · cases st

/-- In every history of runs in which the process does not go on after a call of `canalSplitOne` that ended
    with an exception, a marker means that the work was done. -/
theorem handled_markers
    (run : Steps (ExternalFetcher.step stream) (fun s a => handled s a = true) .new s) :
    MarkersTrue stream s := by
  refine (run.invariant (I := fun s => MarkersTrue stream s ∧ AtPoint stream s) ?_ ?_).1
  · refine ⟨⟨?_, ?_⟩, trivial⟩
    · intro index le found
      cases found
    · intro found
      cases found
  · rintro s1 a s2 ⟨mt, at_point⟩ ok st
    exact step_markers mt at_point ok st

/-! ### Runs -/

/-- Source 0 has one event. -/
def oneEvent (index : Nat) : List Packet := if index = 0 then [[0]] else []

/-- The first run up to an exception of `canalSplitOne`. -/
def throwRun : List Action := .start :: List.replicate 7 .go ++ [.fail]

/-- The process dies then, and a second run goes through. -/
def restartRun : List Action := throwRun ++ [.die, .start] ++ List.replicate 17 .go

/-- The process goes on and writes the marker. -/
def swallowRun : List Action := throwRun ++ [.go]

/-- A run that is stopped and started again reaches the loader with true markers. -/
theorem restarted_markers : ∃ s,
    Steps (ExternalFetcher.step oneEvent) (fun s a => handled s a = true) .new s ∧
      s.point = .loading ∧ MarkersTrue oneEvent s := by
  have run : (restartRun.foldlM
      (fun s a => if handled s a then ExternalFetcher.step oneEvent s a else none) .new).any
        (fun s => s.point = .loading) = true := by decide +kernel
  obtain ⟨s, steps, h⟩ := (Option.any_eq_true _ _).mp run
  have run := Steps.of_checked steps
  exact ⟨s, run, of_decide_eq_true h, handled_markers run⟩

/-- A split that ends in an exception is marked as finished. -/
theorem swallowed_marker : ¬ ∀ (stream : Nat → List Packet) (s : ExternalFetcher),
    Steps (ExternalFetcher.step stream) (fun _ _ => True) .new s → MarkersTrue stream s := by
  intro claim
  have run : (swallowRun.foldlM (ExternalFetcher.step oneEvent) .new).any
      (fun s => findLog s.log finished (sourceKey 0) = true ∧ s.completed = []) = true := by decide +kernel
  obtain ⟨s, steps, h⟩ := (Option.any_eq_true _ _).mp run
  obtain ⟨found, none⟩ := of_decide_eq_true h
  have done := (claim oneEvent s (Steps.of_foldlM steps)).source 0 (Nat.zero_le 1) found
  rw [Done, none] at done
  cases done

end TdsqlMerge.Fetcher
