import Mathlib.Algebra.Order.BigOperators.Group.List
import Mathlib.Algebra.Order.Group.Nat
import TdsqlMerge.Lib.Ending
import TdsqlMerge.Splitter.Drain
import TdsqlMerge.Splitter.ThreadPool

/-!
# Splitting with bounded executors

Embedding of the loop of `extfetcher/src/CanalSplitter.java` over decoded events and of the executors of
`EventDealer`, as a machine that adds to `EventDealer` what it leaves out: which events are parsed and which wait in
the queue of `executor`, which lists wait in that of `backWriteExecutor`, and where the main thread is blocked by
a full one. `run_simulates` says that every run is one of `EventDealer`, so what is proved there
holds here, and `split_bounded` that the queues take every task and bound what is held in memory.

`shutdown` is called in the steps before and after `awaitTermination` of `executor`. The limits of an hour
are left out.
-/

namespace TdsqlMerge.Splitter
open Lib

deriving instance DecidableEq for Future

/-- A call of `doSplit`: the events that are not read yet, and `eventDealer` with its executors. -/
structure CanalSplitter where
  events : List LogEvent
  eventDealer : EventDealer
  executor : ThreadPoolExecutor Nat
  backWriteExecutor : ThreadPoolExecutor (List Future)

/-- Which thread goes on, and how. -/
inductive Turn where
  | main
  /-- The main thread closes the writer of a key in the loop of `dropTableWriterAndDdlSql`. -/
  | close (key : Key)
  /-- A thread of `executor` takes a rows event from the queue. -/
  | getTask
  /-- A thread of `executor` has parsed a rows event. -/
  | parse (event : Nat)
  /-- The thread of `backWriteExecutor` takes a list from the queue. -/
  | getList
  | back
  /-- The write of the write-back thread raises an `IOException`. -/
  | writeFails
  deriving DecidableEq

namespace CanalSplitter

/-- `doSplit` before its loop. -/
def new (events : List LogEvent) : CanalSplitter :=
  { events, eventDealer := .new, executor := .new 4 40, backWriteExecutor := .new 1 2 }

section
variable (parse : Str → Option SQLStatement) (s : CanalSplitter)

/-- A step of `eventDealer` alone. -/
def deal (a : Action) : Option CanalSplitter :=
  (s.eventDealer.step parse a).map fun eventDealer => { s with eventDealer }

/-- `writeBack` of the main thread, which goes on, waits or ends with an exception. -/
def submitBack : Option CanalSplitter :=
  match s.backWriteExecutor.execute s.eventDealer.procResult with
  | .accepted backWriteExecutor => ({ s with backWriteExecutor } : CanalSplitter).deal parse .main
  | .blocked => none
  | .rejected => some { s with eventDealer := { s.eventDealer with point := .failed } }

/-- `dealEvent` for the next event. -/
def dealNext (event : LogEvent) (events : List LogEvent) : Option CanalSplitter :=
  match event with
  | .rows _ =>
    match s.executor.execute s.eventDealer.dealt.length with
    | .accepted executor => ({ s with events, executor } : CanalSplitter).deal parse (.deal event)
    | .blocked => none
    | .rejected => some { s with eventDealer := { s.eventDealer with point := .failed } }
  | _ => ({ s with events } : CanalSplitter).deal parse (.deal event)

/-- The next step of the main thread. -/
def main : Option CanalSplitter :=
  match s.eventDealer.point with
  | .idle =>
    match s.events with
    | event :: events => s.dealNext parse event events
    | [] => s.deal parse .waitIt
  | .waited => s.deal parse .closeAll
  | .draining _ => ({ s with executor := s.executor.shutdown } : CanalSplitter).submitBack parse
  | .submitted => if s.eventDealer.procResult.length ≥ 40 then s.submitBack parse else s.deal parse .main
  | .awaitParse next =>
    ({ s with
      executor := if next.isSome then .new 4 20 else s.executor
      backWriteExecutor := s.backWriteExecutor.shutdown } : CanalSplitter).deal parse .main
  | .awaitBack next =>
    ({ s with backWriteExecutor := if next.isSome then .new 1 2 else s.backWriteExecutor } : CanalSplitter).deal
      parse .main
  | _ => s.deal parse .main

/-- The next step of the write-back thread, whose list is done when it leaves the backlog. -/
def back : Option CanalSplitter := do
  let oldResult ← s.backWriteExecutor.running.head?
  let eventDealer ← s.eventDealer.back
  if eventDealer.backlog.length < s.eventDealer.backlog.length then
    (s.backWriteExecutor.afterExecute oldResult).map fun backWriteExecutor =>
      { s with eventDealer, backWriteExecutor }
  else some { s with eventDealer }

/-- A step of the machine. A writer is closed once in the loop of `dropTableWriterAndDdlSql`. -/
def step : Turn → Option CanalSplitter
  | .main => s.main parse
  | .close key =>
    if (s.eventDealer.tableWriterLookup.lookup key).any fun writer => writer.id ∈ s.eventDealer.closed then none
    else s.deal parse (.close key)
  | .getTask => s.executor.getTask.map fun executor => { s with executor }
  | .parse event =>
    (s.executor.afterExecute event).bind fun executor => ({ s with executor } : CanalSplitter).deal parse (.parse event)
  | .getList => s.backWriteExecutor.getTask.map fun backWriteExecutor => { s with backWriteExecutor }
  | .back => s.back
  | .writeFails => (s.eventDealer.move parse .writeFails).map fun eventDealer => { s with eventDealer }

end

end CanalSplitter

variable {parse : Str → Option SQLStatement} {s s' : CanalSplitter}

/-! ## What a step does -/

/-- The points at which `executor` may be shut down. -/
def Point.parsesOver : Point → Bool
  | .awaitParse _ | .awaitBack none | .waited | .closed => true
  | _ => false

/-- The points at which `backWriteExecutor` may be shut down. -/
def Point.writesOver : Point → Bool
  | .awaitBack _ | .waited | .closed => true
  | _ => false

/-- The executors are open where the main thread submits to them. -/
structure Opened (s : CanalSplitter) : Prop where
  executor : s.executor.isShutdown = true → s.eventDealer.point.parsesOver = true
  backWriteExecutor : s.backWriteExecutor.isShutdown = true → s.eventDealer.point.writesOver = true

/-- What a step does. -/
inductive Turned (parse : Str → Option SQLStatement) (s : CanalSplitter) : Turn → CanalSplitter → Prop where
  | read (event : LogEvent) (events : List LogEvent) :
    s.eventDealer.point = .idle → s.events = event :: events → (∀ r, event ≠ .rows r) →
    Turned parse s .main { s with events, eventDealer := s.eventDealer.dealEvent event }
  | submit (r : RowsLogEvent) (events : List LogEvent) (executor : ThreadPoolExecutor Nat) :
    s.eventDealer.point = .idle → s.events = .rows r :: events →
    s.executor.execute s.eventDealer.dealt.length = .accepted executor →
    Turned parse s .main { s with events, executor, eventDealer := s.eventDealer.dealEvent (.rows r) }
  | waits : s.eventDealer.point = .idle → s.events = [] →
    Turned parse s .main { s with eventDealer := { s.eventDealer with point := .draining none } }
  | closes : s.eventDealer.point = .waited →
    Turned parse s .main { s with eventDealer := s.eventDealer.closeAll }
  | drains (next : Option QueryLogEvent) (backWriteExecutor : ThreadPoolExecutor (List Future)) :
    s.eventDealer.point = .draining next →
    s.backWriteExecutor.execute s.eventDealer.procResult = .accepted backWriteExecutor →
    Turned parse s .main { s with
      executor := s.executor.shutdown, backWriteExecutor
      eventDealer := { s.eventDealer.writeBack with point := .awaitParse next } }
  | wrote (backWriteExecutor : ThreadPoolExecutor (List Future)) :
    s.eventDealer.point = .submitted → s.eventDealer.procResult.length ≥ 40 →
    s.backWriteExecutor.execute s.eventDealer.procResult = .accepted backWriteExecutor →
    Turned parse s .main { s with
      backWriteExecutor, eventDealer := { s.eventDealer.writeBack with point := .idle } }
  | kept : s.eventDealer.point = .submitted → s.eventDealer.procResult.length < 40 →
    Turned parse s .main { s with eventDealer := { s.eventDealer with point := .idle } }
  | parsed (next : Option QueryLogEvent) :
    s.eventDealer.point = .awaitParse next → s.eventDealer.running = [] →
    Turned parse s .main { s with
      executor := if next.isSome then .new 4 20 else s.executor
      backWriteExecutor := s.backWriteExecutor.shutdown
      eventDealer := { s.eventDealer with point := .awaitBack next } }
  | drained (next : Option QueryLogEvent) :
    s.eventDealer.point = .awaitBack next → s.eventDealer.backlog = [] → s.eventDealer.writing = none →
    Turned parse s .main { s with
      backWriteExecutor := if next.isSome then .new 1 2 else s.backWriteExecutor
      eventDealer := { s.eventDealer with point := match next with | some event => .query event | none => .waited } }
  | query (event : QueryLogEvent) : s.eventDealer.point = .query event →
    Turned parse s .main { s with eventDealer := s.eventDealer.dealEventData parse event }
  | forgot (event : QueryLogEvent) : s.eventDealer.point = .dropping event →
    (∀ e ∈ s.eventDealer.tableWriterLookup.entries, e.2.id ∈ s.eventDealer.closed) →
    Turned parse s .main { s with eventDealer := s.eventDealer.forgetDatabase event }
  | closing (key : Key) (writer : BufferedWriter) (event : QueryLogEvent) :
    s.eventDealer.point = .dropping event → s.eventDealer.tableWriterLookup.lookup key = some writer →
    writer.id ∉ s.eventDealer.closed →
    Turned parse s (.close key)
      { s with eventDealer := { s.eventDealer with closed := writer.id :: s.eventDealer.closed } }
  | took (executor : ThreadPoolExecutor Nat) : s.executor.getTask = some executor →
    Turned parse s .getTask { s with executor }
  | parses (event : Nat) (executor : ThreadPoolExecutor Nat) :
    s.executor.afterExecute event = some executor → event ∈ s.eventDealer.running →
    Turned parse s (.parse event) { s with
      executor, eventDealer := { s.eventDealer with running := s.eventDealer.running.erase event } }
  | tookList (backWriteExecutor : ThreadPoolExecutor (List Future)) :
    s.backWriteExecutor.getTask = some backWriteExecutor → Turned parse s .getList { s with backWriteExecutor }
  | back (eventDealer : EventDealer) : s.backWriteExecutor.running ≠ [] → s.eventDealer.back = some eventDealer →
    s.eventDealer.backlog.length ≤ eventDealer.backlog.length → Turned parse s .back { s with eventDealer }
  | listed (oldResult : List Future) (eventDealer : EventDealer)
    (backWriteExecutor : ThreadPoolExecutor (List Future)) :
    s.eventDealer.back = some eventDealer → eventDealer.backlog.length < s.eventDealer.backlog.length →
    s.backWriteExecutor.afterExecute oldResult = some backWriteExecutor →
    Turned parse s .back { s with eventDealer, backWriteExecutor }
  | writeFails : s.eventDealer.writing.isSome = true →
    Turned parse s .writeFails { s with eventDealer := { s.eventDealer with writing := none } }

/-- A step of `eventDealer` is one of the splitter. -/
lemma deal_some {a : Action} (st : s.deal parse a = some s') :
    ∃ eventDealer, s.eventDealer.step parse a = some eventDealer ∧ s' = { s with eventDealer } := by
  obtain ⟨eventDealer, deals, rfl⟩ := Option.map_eq_some_iff.mp st
  exact ⟨eventDealer, deals, rfl⟩

/-- A submitted batch was accepted by the executor. -/
lemma submitBack_cases (opened : s.backWriteExecutor.isShutdown = false) (st : s.submitBack parse = some s') :
    ∃ backWriteExecutor, s.backWriteExecutor.execute s.eventDealer.procResult = .accepted backWriteExecutor ∧
      (s.eventDealer.main parse).map (fun eventDealer => { s with eventDealer, backWriteExecutor }) = some s' := by
  rw [CanalSplitter.submitBack] at st
  split at st
  · rename_i backWriteExecutor ex
    exact ⟨backWriteExecutor, ex, st⟩
  · cases st
  · rename_i ex
    rw [ThreadPoolExecutor.execute_rejected.mp ex] at opened
    cases opened

section
variable (opened : Opened s)
include opened

/-- Until the main thread is through with writing the write-back executor is open. -/
lemma Opened.writes (ended : s.eventDealer.point.writesOver = false) : s.backWriteExecutor.isShutdown = false := by
  by_contra shut
  rw [opened.backWriteExecutor (by simpa using shut)] at ended
  cases ended

/-- What dealing with the next event does. -/
lemma dealNext_turned {event : LogEvent} {events : List LogEvent} (idle : s.eventDealer.point = .idle)
    (next : s.events = event :: events) (st : s.dealNext parse event events = some s') :
    Turned parse s .main s' := by
  rw [CanalSplitter.dealNext.eq_def] at st
  split at st
  · rename_i r
    split at st
    · rename_i executor ex
      simp only [CanalSplitter.deal, EventDealer.step, idle, Option.map_some, Option.some.injEq] at st
      subst st
      exact .submit r events executor idle next ex
    · cases st
    · rename_i ex
      have shut := opened.executor (ThreadPoolExecutor.execute_rejected.mp ex)
      rw [idle] at shut
      cases shut
  · rename_i other
    simp only [CanalSplitter.deal, EventDealer.step, idle, Option.map_some, Option.some.injEq] at st
    subst st
    exact .read event events idle next other

/-- What a step of the main thread does. -/
lemma main_turned (st : s.main parse = some s') : Turned parse s .main s' := by
  rw [CanalSplitter.main.eq_def] at st
  split at st
  · rename_i idle
    split at st
    · rename_i event events next
      exact dealNext_turned opened idle next st
    · rename_i empty
      simp only [CanalSplitter.deal, EventDealer.step, idle, Option.map_some, Option.some.injEq] at st
      subst st
      exact .waits idle empty
  · rename_i waited
    simp only [CanalSplitter.deal, EventDealer.step, waited, Option.map_some, Option.some.injEq] at st
    subst st
    exact .closes waited
  · rename_i next draining
    have writes := opened.writes (by rw [draining]; rfl)
    obtain ⟨backWriteExecutor, ex, st⟩ := submitBack_cases (s := { s with executor := s.executor.shutdown }) writes st
    simp only [EventDealer.main, draining, Option.map_some, Option.some.injEq] at st
    subst st
    exact .drains next backWriteExecutor draining ex
  · rename_i submitted
    split_ifs at st with full
    · obtain ⟨backWriteExecutor, ex, st⟩ := submitBack_cases (opened.writes (by rw [submitted]; rfl)) st
      simp only [EventDealer.main, submitted, if_pos full, Option.map_some, Option.some.injEq] at st
      subst st
      exact .wrote backWriteExecutor submitted full ex
    · simp only [CanalSplitter.deal, EventDealer.step, EventDealer.main, submitted, if_neg full, Option.map_some,
        Option.some.injEq] at st
      subst st
      exact .kept submitted (Nat.lt_of_not_le full)
  · rename_i next awaits
    obtain ⟨eventDealer, deals, rfl⟩ := deal_some st
    simp only [EventDealer.step, EventDealer.main, awaits] at deals
    by_cases idle : s.eventDealer.running = []
    · rw [if_pos idle, Option.some.injEq] at deals
      subst deals
      exact .parsed next awaits idle
    · rw [if_neg idle] at deals
      cases deals
  · rename_i next awaits
    obtain ⟨eventDealer, deals, rfl⟩ := deal_some st
    simp only [EventDealer.step, EventDealer.main, awaits] at deals
    by_cases idle : s.eventDealer.backlog = [] ∧ s.eventDealer.writing = none
    · rw [if_pos idle, Option.some.injEq] at deals
      subst deals
      exact .drained next awaits idle.1 idle.2
    · rw [if_neg idle] at deals
      cases deals
  · rename_i waiting draining submitted awaitsParse awaitsBack
    obtain ⟨eventDealer, deals, rfl⟩ := deal_some st
    rw [EventDealer.step, EventDealer.main.eq_def] at deals
    split at deals
    · rename_i next at_point
      exact absurd at_point (draining next)
    · rename_i next at_point
      exact absurd at_point (awaitsParse next)
    · rename_i next at_point
      exact absurd at_point (awaitsBack next)
    · rename_i event query
      rw [Option.some.injEq] at deals
      subst deals
      exact .query event query
    · rename_i event dropping
      split_ifs at deals with all
      rw [Option.some.injEq] at deals
      subst deals
      exact .forgot event dropping all
    · rename_i at_point
      exact absurd at_point submitted
    · cases deals

/-- What a step of the splitter does. -/
lemma step_turned {turn : Turn} (st : s.step parse turn = some s') : Turned parse s turn s' := by
  cases turn with
  | main => exact main_turned opened st
  | close key =>
    simp only [CanalSplitter.step] at st
    split_ifs at st with closed
    simp only [CanalSplitter.deal, EventDealer.step] at st
    split at st
    · rename_i event dropping
      simp only [Option.map_map, Option.map_eq_some_iff] at st
      obtain ⟨writer, found, rfl⟩ := st
      rw [found, Option.any_some, decide_eq_true_eq] at closed
      exact .closing key writer event dropping found closed
    · cases st
  | getTask =>
    obtain ⟨executor, took, rfl⟩ := Option.map_eq_some_iff.mp st
    exact .took executor took
  | parse event =>
    obtain ⟨executor, ended, st⟩ := Option.bind_eq_some_iff.mp st
    simp only [CanalSplitter.deal, EventDealer.step] at st
    split_ifs at st with mem
    · rw [Option.map_some, Option.some.injEq] at st
      subst st
      exact .parses event executor ended mem
    · cases st
  | getList =>
    obtain ⟨backWriteExecutor, took, rfl⟩ := Option.map_eq_some_iff.mp st
    exact .tookList backWriteExecutor took
  | back =>
    obtain ⟨oldResult, busy, st⟩ := Option.bind_eq_some_iff.mp st
    obtain ⟨eventDealer, wrote, st⟩ := Option.bind_eq_some_iff.mp st
    split_ifs at st with lt
    · obtain ⟨backWriteExecutor, ended, rfl⟩ := Option.map_eq_some_iff.mp st
      exact .listed oldResult eventDealer backWriteExecutor wrote lt ended
    · rw [Option.some.injEq] at st
      subst st
      have some' : s.backWriteExecutor.running ≠ [] := by
        intro empty
        rw [empty] at busy
        cases busy
      exact .back eventDealer some' wrote (Nat.le_of_not_lt lt)
  | writeFails =>
    simp only [CanalSplitter.step, EventDealer.move, Option.map_map, Option.map_eq_some_iff] at st
    obtain ⟨writing, at_write, rfl⟩ := st
    exact .writeFails (by rw [at_write]; rfl)

end

/-! ## The executors and the tasks of `eventDealer` -/

/-- The executors work on what `eventDealer` counts as not parsed and not written. -/
structure Paired (s : CanalSplitter) : Prop where
  opened : Opened s
  executor : s.executor.Fits
  parsing : s.executor.tasks = s.eventDealer.running
  backWriteExecutor : s.backWriteExecutor.Fits
  lists : s.backWriteExecutor.tasks.length = s.eventDealer.backlog.length
  writing : s.eventDealer.writing.isSome = true → s.backWriteExecutor.running ≠ []

/-- What a step of the write-back thread leaves of the lists. -/
lemma back_lists {s s' : EventDealer} (st : s.back = some s') :
    s'.running = s.running ∧
      (s'.backlog.length = s.backlog.length ∨ s'.backlog.length + 1 = s.backlog.length ∧ s'.writing = none) ∧
      ∀ n, (∀ list ∈ s.backlog, list.length ≤ n) → ∀ list ∈ s'.backlog, list.length ≤ n := by
  rw [EventDealer.back.eq_def] at st
  split at st
  · rename_i writer fut str writing
    rw [Option.some.injEq] at st
    subst st
    rw [EventDealer.endWrite]
    split <;> exact ⟨rfl, .inl rfl, fun _ le => le⟩
  · rename_i writing
    split at st
    · cases st
    · rename_i rest backlog
      rw [Option.some.injEq] at st
      subst st
      rw [backlog]
      exact ⟨rfl, .inr ⟨rfl, writing⟩, fun _ le list mem => le list (List.mem_cons_of_mem _ mem)⟩
    · rename_i fut futs rest backlog
      rw [backlog]
      have shorter : ∀ n, (∀ list ∈ (fut :: futs) :: rest, list.length ≤ n) →
          ∀ list ∈ futs :: rest, list.length ≤ n := by
        intro n le list mem
        rcases List.mem_cons.mp mem with rfl | mem
        · exact Nat.le_of_succ_le (le _ List.mem_cons_self)
        · exact le list (List.mem_cons_of_mem _ mem)
      split_ifs at st with running
      split at st
      · rw [Option.some.injEq] at st
        subst st
        exact ⟨rfl, .inl rfl, shorter⟩
      · split at st
        · rw [Option.some.injEq] at st
          subst st
          exact ⟨rfl, .inr ⟨rfl, writing⟩, fun _ le list mem => le list (List.mem_cons_of_mem _ mem)⟩
        · rw [Option.some.injEq] at st
          subst st
          exact ⟨rfl, .inl rfl, shorter⟩

/-- What a step that changes neither the tasks nor the executors keeps. -/
lemma Paired.frame {eventDealer : EventDealer} (pa : Paired s) (events : List LogEvent)
    (running : eventDealer.running = s.eventDealer.running) (backlog : eventDealer.backlog = s.eventDealer.backlog)
    (writing : eventDealer.writing.isSome = true → s.eventDealer.writing.isSome = true)
    (parses : s.eventDealer.point.parsesOver = true → eventDealer.point.parsesOver = true)
    (writes : s.eventDealer.point.writesOver = true → eventDealer.point.writesOver = true) :
    Paired { s with events, eventDealer } where
  opened := ⟨fun shut => parses (pa.opened.executor shut), fun shut => writes (pa.opened.backWriteExecutor shut)⟩
  executor := pa.executor
  parsing := pa.parsing.trans running.symm
  backWriteExecutor := pa.backWriteExecutor
  lists := by
    rw [pa.lists, ← backlog]
  writing := fun writes => pa.writing (writing writes)

/-- A new splitter has idle executors. -/
lemma Paired.new (events : List LogEvent) : Paired (.new events) where
  opened := ⟨nofun, nofun⟩
  executor := .new (by decide) (by decide)
  parsing := rfl
  backWriteExecutor := .new (by decide) (by decide)
  lists := rfl
  writing := nofun

/-- A query changes neither the tasks nor where the executors may be shut down. -/
lemma dealEventData_tasks (parse : Str → Option SQLStatement) (s : EventDealer) (event : QueryLogEvent) :
    (s.dealEventData parse event).running = s.running ∧ (s.dealEventData parse event).backlog = s.backlog ∧
      (s.dealEventData parse event).writing = s.writing ∧
      (s.dealEventData parse event).procResult = s.procResult := by
  rw [EventDealer.dealEventData]
  split
  · exact ⟨rfl, rfl, rfl, rfl⟩
  · split <;> try exact ⟨rfl, rfl, rfl, rfl⟩
    all_goals
      rw [EventDealer.updateTableWriterAndDdlSql]
      split
      · exact ⟨rfl, rfl, rfl, rfl⟩
      · split <;> exact ⟨rfl, rfl, rfl, rfl⟩

/-- The list that the main thread hands over is the last of the backlog. -/
lemma Paired.hand {executor : ThreadPoolExecutor Nat} {backWriteExecutor : ThreadPoolExecutor (List Future)}
    {point : Point} (pa : Paired s)
    (ex : s.backWriteExecutor.execute s.eventDealer.procResult = .accepted backWriteExecutor)
    (fits : executor.Fits) (parsing : executor.tasks = s.eventDealer.running)
    (ended : executor.isShutdown = true → point.parsesOver = true) :
    Paired { s with executor, backWriteExecutor, eventDealer := { s.eventDealer.writeBack with point } } where
  opened := by
    refine ⟨ended, fun shut => ?_⟩
    have opened : backWriteExecutor.isShutdown = false := by
      obtain ⟨opened, ⟨_, rfl⟩ | ⟨_, _, rfl⟩⟩ := ThreadPoolExecutor.execute_accepted ex <;> exact opened
    rw [opened] at shut
    cases shut
  executor := fits
  parsing := parsing
  backWriteExecutor := pa.backWriteExecutor.execute ex
  lists := by
    simp only [pa.backWriteExecutor.execute_tasks ex, EventDealer.writeBack, List.length_append, pa.lists,
      List.length_singleton]
  writing := fun writes => by
    have busy := pa.writing writes
    obtain ⟨_, ⟨_, rfl⟩ | ⟨_, _, rfl⟩⟩ := ThreadPoolExecutor.execute_accepted ex
    · exact List.append_ne_nil_of_left_ne_nil busy _
    · exact busy

/-- A step of the write-back thread keeps the executors paired. -/
lemma Paired.back {eventDealer : EventDealer} {backWriteExecutor : ThreadPoolExecutor (List Future)}
    (pa : Paired s) (st : s.eventDealer.back = some eventDealer) (fits : backWriteExecutor.Fits)
    (lists : backWriteExecutor.tasks.length = eventDealer.backlog.length)
    (shutdown : backWriteExecutor.isShutdown = s.backWriteExecutor.isShutdown)
    (writing : eventDealer.writing.isSome = true → backWriteExecutor.running ≠ []) :
    Paired { s with eventDealer, backWriteExecutor } where
  opened := by
    have point := (back_suffix st).1
    refine ⟨fun shut => ?_, fun shut => ?_⟩
    · rw [point]
      exact pa.opened.executor shut
    · rw [point]
      exact pa.opened.backWriteExecutor (shutdown ▸ shut)
  executor := pa.executor
  parsing := pa.parsing.trans (back_lists st).1.symm
  backWriteExecutor := fits
  lists := lists
  writing := writing

/-- A list that is done leaves the backlog and its thread. -/
lemma Paired.listed {oldResult : List Future} {eventDealer : EventDealer}
    {backWriteExecutor : ThreadPoolExecutor (List Future)} (pa : Paired s)
    (st : s.eventDealer.back = some eventDealer)
    (lt : eventDealer.backlog.length < s.eventDealer.backlog.length)
    (ended : s.backWriteExecutor.afterExecute oldResult = some backWriteExecutor) :
    Paired { s with eventDealer, backWriteExecutor } := by
  obtain ⟨_, same | ⟨shorter, written⟩, _⟩ := back_lists st
  · exact absurd same (Nat.ne_of_lt lt)
  · have tasks := ThreadPoolExecutor.afterExecute_length ended
    have lists := pa.lists
    apply pa.back st (pa.backWriteExecutor.afterExecute ended)
    · omega
    · rw [(ThreadPoolExecutor.afterExecute_some ended).2]
    · rw [written]
      exact nofun

/-- Every step keeps the executors and the tasks together. -/
lemma Paired.step {turn : Turn} (pa : Paired s) (tu : Turned parse s turn s') : Paired s' := by
  cases tu with
  | read event events idle next other =>
    cases event with
    | query event =>
      apply pa.frame events <;> try rfl
      · exact id
      · rw [idle]
        exact nofun
      · rw [idle]
        exact nofun
    | rows r => exact absurd rfl (other r)
    | other => exact pa.frame events rfl rfl id id id
  | submit r events executor idle next ex =>
    obtain ⟨opened, _⟩ := ThreadPoolExecutor.execute_accepted ex
    refine ⟨⟨?_, ?_⟩, pa.executor.execute ex, ?_, pa.backWriteExecutor, pa.lists, pa.writing⟩
    · have opened' : executor.isShutdown = false := by
        obtain ⟨_, ⟨_, rfl⟩ | ⟨_, _, rfl⟩⟩ := ThreadPoolExecutor.execute_accepted ex <;> exact opened
      intro shut
      rw [opened'] at shut
      cases shut
    · intro shut
      have ended := pa.opened.backWriteExecutor shut
      rw [idle] at ended
      cases ended
    · rw [pa.executor.execute_tasks ex, pa.parsing]
      rfl
  | waits idle empty =>
    apply pa.frame s.events <;> try rfl
    · exact id
    · rw [idle]
      exact nofun
    · rw [idle]
      exact nofun
  | closes waited => exact pa.frame s.events rfl rfl id (fun _ => rfl) fun _ => rfl
  | drains next backWriteExecutor draining ex =>
    exact pa.hand ex ⟨pa.executor.core, pa.executor.room, pa.executor.threads, pa.executor.running,
      pa.executor.queue, pa.executor.full⟩ pa.parsing fun _ => rfl
  | wrote backWriteExecutor submitted full ex =>
    apply pa.hand ex pa.executor pa.parsing
    intro shut
    have ended := pa.opened.executor shut
    rw [submitted] at ended
    cases ended
  | kept submitted short =>
    apply pa.frame s.events <;> try rfl
    · exact id
    · rw [submitted]
      exact nofun
    · rw [submitted]
      exact nofun
  | parsed next awaits idle =>
    refine ⟨⟨?_, fun _ => rfl⟩, ?_, ?_, ⟨pa.backWriteExecutor.core, pa.backWriteExecutor.room,
      pa.backWriteExecutor.threads, pa.backWriteExecutor.running, pa.backWriteExecutor.queue,
      pa.backWriteExecutor.full⟩, pa.lists, pa.writing⟩
    · cases next with
      | none => exact fun _ => rfl
      | some event => exact nofun
    · cases next with
      | none => exact pa.executor
      | some event => exact .new (by decide) (by decide)
    · cases next with
      | none => exact pa.parsing
      | some event => exact idle.symm
  | drained next awaits idle written =>
    refine ⟨⟨?_, ?_⟩, pa.executor, pa.parsing, ?_, ?_, ?_⟩
    · intro shut
      have ended := pa.opened.executor shut
      rw [awaits] at ended
      cases next with
      | none => rfl
      | some event => cases ended
    · cases next with
      | none => exact fun _ => rfl
      | some event => exact nofun
    · cases next with
      | none => exact pa.backWriteExecutor
      | some event => exact .new (by decide) (by decide)
    · cases next with
      | none => exact pa.lists
      | some event => exact (congrArg List.length idle).symm
    · rw [written]
      exact nofun
  | query event at_query =>
    obtain ⟨running, backlog, writing, _⟩ := dealEventData_tasks parse s.eventDealer event
    apply pa.frame s.events running backlog
    · rw [writing]
      exact id
    · rw [at_query]
      exact nofun
    · rw [at_query]
      exact nofun
  | forgot event dropping all =>
    apply pa.frame s.events <;> try rfl
    · exact id
    · rw [dropping]
      exact nofun
    · rw [dropping]
      exact nofun
  | closing key writer event dropping found opened => exact pa.frame s.events rfl rfl id id id
  | took executor took =>
    obtain ⟨task, elements, _, _, same⟩ := ThreadPoolExecutor.getTask_some took
    refine ⟨⟨?_, pa.opened.backWriteExecutor⟩, pa.executor.getTask took, ?_, pa.backWriteExecutor, pa.lists,
      pa.writing⟩
    · rw [same]
      exact pa.opened.executor
    · rw [ThreadPoolExecutor.getTask_tasks took, pa.parsing]
  | parses event executor ended mem =>
    have tasks := ThreadPoolExecutor.afterExecute_tasks ended
    obtain ⟨_, same⟩ := ThreadPoolExecutor.afterExecute_some ended
    refine ⟨⟨?_, pa.opened.backWriteExecutor⟩, pa.executor.afterExecute ended, ?_, pa.backWriteExecutor,
      pa.lists, pa.writing⟩
    · rw [same]
      exact pa.opened.executor
    · rw [tasks, pa.parsing]
  | tookList backWriteExecutor took =>
    obtain ⟨list, elements, _, _, same⟩ := ThreadPoolExecutor.getTask_some took
    refine ⟨⟨pa.opened.executor, ?_⟩, pa.executor, pa.parsing, pa.backWriteExecutor.getTask took, ?_, ?_⟩
    · rw [same]
      exact pa.opened.backWriteExecutor
    · rw [ThreadPoolExecutor.getTask_tasks took, pa.lists]
    · rw [same]
      exact fun _ => List.append_ne_nil_of_right_ne_nil _ (List.cons_ne_nil _ _)
  | back eventDealer busy st le =>
    apply pa.back st pa.backWriteExecutor _ rfl fun _ => busy
    obtain ⟨_, same | ⟨shorter, _⟩, _⟩ := back_lists st
    · rw [pa.lists, same]
    · omega
  | listed oldResult eventDealer backWriteExecutor st lt ended => exact pa.listed st lt ended
  | writeFails writing => exact pa.frame s.events rfl rfl nofun id id

/-- Every step is one of `EventDealer`, or changes nothing of it. -/
lemma Turned.deals {turn : Turn} (tu : Turned parse s turn s') :
    s'.eventDealer = s.eventDealer ∨
      (∃ a, s.eventDealer.step parse a = some s'.eventDealer) ∨
      turn = .writeFails ∧ s.eventDealer.move parse .writeFails = some s'.eventDealer := by
  cases tu with
  | read event events idle next other =>
    refine .inr (.inl ⟨.deal event, ?_⟩)
    simp only [EventDealer.step, idle]
  | submit r events executor idle next ex =>
    refine .inr (.inl ⟨.deal (.rows r), ?_⟩)
    simp only [EventDealer.step, idle]
  | waits idle empty =>
    refine .inr (.inl ⟨.waitIt, ?_⟩)
    simp only [EventDealer.step, idle]
  | closes waited =>
    refine .inr (.inl ⟨.closeAll, ?_⟩)
    simp only [EventDealer.step, waited]
  | drains next backWriteExecutor draining ex =>
    refine .inr (.inl ⟨.main, ?_⟩)
    simp only [EventDealer.step, EventDealer.main, draining]
  | wrote backWriteExecutor submitted full ex =>
    refine .inr (.inl ⟨.main, ?_⟩)
    simp only [EventDealer.step, EventDealer.main, submitted, if_pos full]
  | kept submitted short =>
    refine .inr (.inl ⟨.main, ?_⟩)
    simp only [EventDealer.step, EventDealer.main, submitted, if_neg (Nat.not_le_of_lt short)]
  | parsed next awaits idle =>
    refine .inr (.inl ⟨.main, ?_⟩)
    simp only [EventDealer.step, EventDealer.main, awaits, if_pos idle]
  | drained next awaits idle written =>
    refine .inr (.inl ⟨.main, ?_⟩)
    cases next with
    | none => simp only [EventDealer.step, EventDealer.main, awaits, if_pos (And.intro idle written)]
    | some event => simp only [EventDealer.step, EventDealer.main, awaits, if_pos (And.intro idle written)]
  | query event at_query =>
    refine .inr (.inl ⟨.main, ?_⟩)
    simp only [EventDealer.step, EventDealer.main, at_query]
  | forgot event dropping all =>
    refine .inr (.inl ⟨.main, ?_⟩)
    simp only [EventDealer.step, EventDealer.main, dropping, if_pos all]
  | closing key writer event dropping found opened =>
    refine .inr (.inl ⟨.close key, ?_⟩)
    simp only [EventDealer.step, dropping, found, Option.map_some]
  | took executor took => exact .inl rfl
  | parses event executor ended mem =>
    refine .inr (.inl ⟨.parse event, ?_⟩)
    simp only [EventDealer.step, if_pos mem]
  | tookList backWriteExecutor took => exact .inl rfl
  | back eventDealer busy st le => exact .inr (.inl ⟨.back, st⟩)
  | listed oldResult eventDealer backWriteExecutor st lt ended => exact .inr (.inl ⟨.back, st⟩)
  | writeFails writing =>
    obtain ⟨w, at_write⟩ := Option.isSome_iff_exists.mp writing
    refine .inr (.inr ⟨rfl, ?_⟩)
    rw [EventDealer.move, at_write, Option.map_some]

/-- Every step is a move of `EventDealer`, or changes nothing of it. -/
lemma Turned.moves {turn : Turn} (tu : Turned parse s turn s') :
    s'.eventDealer = s.eventDealer ∨ ∃ m, s.eventDealer.move parse m = some s'.eventDealer := by
  rcases tu.deals with same | ⟨a, st⟩ | ⟨_, st⟩
  · exact .inl same
  · exact .inr ⟨.act a, st⟩
  · exact .inr ⟨.writeFails, st⟩

/-- In every state reached the executors work on what `eventDealer` counts. -/
lemma run_paired {ok : CanalSplitter → Turn → Prop} {events : List LogEvent}
    (run : Steps (CanalSplitter.step parse) ok (.new events) s) : Paired s := by
  apply run.invariant (.new events)
  intro s turn s' pa _ st
  exact pa.step (step_turned pa.opened st)

/-- A run is one of `EventDealer`, with the same failures of writes. -/
theorem run_simulates {events : List LogEvent}
    (run : Steps (CanalSplitter.step parse) (fun _ _ => True) (.new events) s) :
    Steps (EventDealer.move parse) (fun _ _ => True) .new s.eventDealer := by
  apply run.simulates CanalSplitter.eventDealer
  intro s turn s' before _ st
  rcases (step_turned (run_paired before).opened st).moves with same | ⟨m, st⟩
  · exact .inl same
  · exact .inr ⟨m, trivial, st⟩

/-! ## Bounds -/

/-- The sizes of the executors, and of the lists that are handed over. -/
structure Sized (s : CanalSplitter) : Prop where
  parsers : s.executor.corePoolSize = 4
  waiting : s.executor.workQueue.maxSize ≤ 40
  writers : s.backWriteExecutor.corePoolSize = 1
  batches : s.backWriteExecutor.workQueue.maxSize = 2
  lists : ∀ list ∈ s.eventDealer.backlog, list.length ≤ 40
  results : s.eventDealer.procResult.length ≤ 40
  room : s.eventDealer.point ≠ .submitted → s.eventDealer.procResult.length < 40

/-- An accepted task changes no size. -/
lemma ThreadPoolExecutor.execute_sizes {α : Type} {p p' : ThreadPoolExecutor α} {task : α}
    (ex : p.execute task = .accepted p') :
    p'.corePoolSize = p.corePoolSize ∧ p'.workQueue.maxSize = p.workQueue.maxSize := by
  obtain ⟨_, ⟨_, rfl⟩ | ⟨_, _, rfl⟩⟩ := execute_accepted ex <;> exact ⟨rfl, rfl⟩

/-- Taking a task keeps the sizes of an executor. -/
lemma ThreadPoolExecutor.getTask_sizes {α : Type} {p p' : ThreadPoolExecutor α} (took : p.getTask = some p') :
    p'.corePoolSize = p.corePoolSize ∧ p'.workQueue.maxSize = p.workQueue.maxSize := by
  obtain ⟨_, _, _, _, rfl⟩ := getTask_some took
  exact ⟨rfl, rfl⟩

/-- Ending a task keeps the sizes of an executor. -/
lemma ThreadPoolExecutor.afterExecute_sizes {α : Type} [DecidableEq α] {p p' : ThreadPoolExecutor α} {task : α}
    (ended : p.afterExecute task = some p') :
    p'.corePoolSize = p.corePoolSize ∧ p'.workQueue.maxSize = p.workQueue.maxSize := by
  obtain ⟨_, rfl⟩ := afterExecute_some ended
  exact ⟨rfl, rfl⟩

/-- A step that leaves the executors and the lists alone. -/
lemma Sized.frame {eventDealer : EventDealer} (si : Sized s) (events : List LogEvent)
    (backlog : eventDealer.backlog = s.eventDealer.backlog)
    (results : eventDealer.procResult = s.eventDealer.procResult)
    (room : s.eventDealer.point ≠ .submitted ∨ eventDealer.procResult.length < 40) :
    Sized { s with events, eventDealer } where
  parsers := si.parsers
  waiting := si.waiting
  writers := si.writers
  batches := si.batches
  lists := by
    rw [backlog]
    exact si.lists
  results := by
    rw [results]
    exact si.results
  room := by
    intro _
    rcases room with other | short
    · rw [results]
      exact si.room other
    · exact short

/-- The main thread hands its list over. -/
lemma Sized.hand {executor : ThreadPoolExecutor Nat} {backWriteExecutor : ThreadPoolExecutor (List Future)}
    {point : Point} (si : Sized s)
    (ex : s.backWriteExecutor.execute s.eventDealer.procResult = .accepted backWriteExecutor)
    (parsers : executor.corePoolSize = 4) (waiting : executor.workQueue.maxSize ≤ 40) :
    Sized { s with executor, backWriteExecutor, eventDealer := { s.eventDealer.writeBack with point } } := by
  obtain ⟨core, room⟩ := ThreadPoolExecutor.execute_sizes ex
  refine ⟨parsers, waiting, core.trans si.writers, room.trans si.batches, ?_, Nat.zero_le _,
    fun _ => Nat.zero_lt_succ _⟩
  intro list mem
  rcases List.mem_append.mp mem with mem | mem
  · exact si.lists list mem
  · rw [List.mem_singleton.mp mem]
    exact si.results

/-- A step of the write-back thread keeps the sizes. -/
lemma Sized.back {eventDealer : EventDealer} {backWriteExecutor : ThreadPoolExecutor (List Future)} (si : Sized s)
    (st : s.eventDealer.back = some eventDealer)
    (writers : backWriteExecutor.corePoolSize = s.backWriteExecutor.corePoolSize)
    (batches : backWriteExecutor.workQueue.maxSize = s.backWriteExecutor.workQueue.maxSize) :
    Sized { s with eventDealer, backWriteExecutor } := by
  obtain ⟨point, results, _⟩ := back_suffix st
  refine ⟨si.parsers, si.waiting, writers.trans si.writers, batches.trans si.batches,
    (back_lists st).2.2 40 si.lists, ?_, ?_⟩
  · rw [results]
    exact si.results
  · rw [results, point]
    exact si.room

/-- A step of the splitter keeps the sizes. -/
lemma Sized.step {turn : Turn} (si : Sized s) (tu : Turned parse s turn s') : Sized s' := by
  cases tu with
  | read event events idle next other =>
    have waits : s.eventDealer.point ≠ .submitted := by
      rw [idle]
      exact Point.noConfusion
    cases event with
    | query event => exact si.frame events rfl rfl (.inl waits)
    | rows r => exact absurd rfl (other r)
    | other => exact si.frame events rfl rfl (.inl waits)
  | submit r events executor idle next ex =>
    obtain ⟨core, room⟩ := ThreadPoolExecutor.execute_sizes ex
    have short := si.room (by rw [idle]; exact Point.noConfusion)
    refine ⟨core.trans si.parsers, room ▸ si.waiting, si.writers, si.batches, si.lists, ?_,
      fun other => absurd rfl other⟩
    rw [EventDealer.dealEvent, List.length_append, List.length_singleton]
    omega
  | waits idle empty => exact si.frame s.events rfl rfl (.inl (by rw [idle]; exact Point.noConfusion))
  | closes waited => exact si.frame s.events rfl rfl (.inl (by rw [waited]; exact Point.noConfusion))
  | drains next backWriteExecutor draining ex => exact si.hand ex si.parsers si.waiting
  | wrote backWriteExecutor submitted full ex => exact si.hand ex si.parsers si.waiting
  | kept submitted short => exact si.frame s.events rfl rfl (.inr short)
  | parsed next awaits idle =>
    have room := si.room (by rw [awaits]; exact Point.noConfusion)
    cases next with
    | none => exact ⟨si.parsers, si.waiting, si.writers, si.batches, si.lists, si.results, fun _ => room⟩
    | some event => exact ⟨rfl, (by decide : 20 ≤ 40), si.writers, si.batches, si.lists, si.results, fun _ => room⟩
  | drained next awaits idle written =>
    have room := si.room (by rw [awaits]; exact Point.noConfusion)
    cases next with
    | none => exact ⟨si.parsers, si.waiting, si.writers, si.batches, si.lists, si.results, fun _ => room⟩
    | some event => exact ⟨si.parsers, si.waiting, rfl, rfl, si.lists, si.results, fun _ => room⟩
  | query event at_query =>
    obtain ⟨_, backlog, _, results⟩ := dealEventData_tasks parse s.eventDealer event
    exact si.frame s.events backlog results (.inl (by rw [at_query]; exact Point.noConfusion))
  | forgot event dropping all => exact si.frame s.events rfl rfl (.inl (by rw [dropping]; exact Point.noConfusion))
  | closing key writer event dropping found opened =>
    exact si.frame s.events rfl rfl (.inl (by rw [dropping]; exact Point.noConfusion))
  | took executor took =>
    obtain ⟨core, room⟩ := ThreadPoolExecutor.getTask_sizes took
    exact ⟨core.trans si.parsers, room ▸ si.waiting, si.writers, si.batches, si.lists, si.results, si.room⟩
  | parses event executor ended mem =>
    obtain ⟨core, room⟩ := ThreadPoolExecutor.afterExecute_sizes ended
    exact ⟨core.trans si.parsers, room ▸ si.waiting, si.writers, si.batches, si.lists, si.results, si.room⟩
  | tookList backWriteExecutor took =>
    obtain ⟨core, room⟩ := ThreadPoolExecutor.getTask_sizes took
    exact ⟨si.parsers, si.waiting, core.trans si.writers, room.trans si.batches, si.lists, si.results, si.room⟩
  | back eventDealer busy st le => exact si.back st rfl rfl
  | listed oldResult eventDealer backWriteExecutor st lt ended =>
    obtain ⟨core, room⟩ := ThreadPoolExecutor.afterExecute_sizes ended
    exact si.back st core room
  | writeFails writing => exact ⟨si.parsers, si.waiting, si.writers, si.batches, si.lists, si.results, si.room⟩

/-- A new splitter has these sizes. -/
lemma Sized.new (events : List LogEvent) : Sized (.new events) :=
  ⟨rfl, (by decide : 40 ≤ 40), rfl, rfl, nofun, Nat.zero_le _, fun _ => Nat.zero_lt_succ _⟩

/-- At most one list is being written and two wait. -/
lemma Sized.backlog_le (si : Sized s) (pa : Paired s) : s.eventDealer.backlog.length ≤ 3 := by
  have threads := pa.backWriteExecutor.threads
  have running := pa.backWriteExecutor.running
  have queue := pa.backWriteExecutor.queue
  rw [← pa.lists, ThreadPoolExecutor.tasks, List.length_append]
  rw [si.writers] at threads
  rw [si.batches] at queue
  omega

/-- No more than 161 rows events are under way. -/
lemma Sized.unwritten_le (si : Sized s) (pa : Paired s) : s.eventDealer.unwritten.length ≤ 161 := by
  have lists : s.eventDealer.backlog.flatten.length ≤ s.eventDealer.backlog.length * 40 := by
    rw [List.length_flatten, ← Nat.nsmul_eq_mul, ← List.length_map (f := List.length)]
    apply List.sum_le_card_nsmul
    intro n mem
    obtain ⟨list, at_list, rfl⟩ := List.mem_map.mp mem
    exact si.lists list at_list
  have backlog := si.backlog_le pa
  have results := si.results
  have writing : (s.eventDealer.writing.map fun w => w.2.1).toList.length ≤ 1 := Option.length_toList_le
  rw [EventDealer.unwritten, List.length_append, List.length_append]
  omega

/-- The call of `execute` that the main thread is at throws `RejectedExecutionException`. -/
def CanalSplitter.Rejects (s : CanalSplitter) : Prop :=
  match s.eventDealer.point with
  | .idle =>
    (∃ r events, s.events = .rows r :: events) ∧ s.executor.execute s.eventDealer.dealt.length = .rejected
  | .draining _ => s.backWriteExecutor.execute s.eventDealer.procResult = .rejected
  | .submitted =>
    s.eventDealer.procResult.length ≥ 40 ∧ s.backWriteExecutor.execute s.eventDealer.procResult = .rejected
  | _ => False

/-- The executors are open where the main thread submits to them, so they take what it submits. -/
lemma Opened.not_rejects (opened : Opened s) : ¬ s.Rejects := by
  intro rejects
  rw [CanalSplitter.Rejects] at rejects
  split at rejects
  · rename_i idle
    have ended := opened.executor (ThreadPoolExecutor.execute_rejected.mp rejects.2)
    rw [idle] at ended
    cases ended
  · rename_i next draining
    have ended := opened.backWriteExecutor (ThreadPoolExecutor.execute_rejected.mp rejects)
    rw [draining] at ended
    cases ended
  · rename_i submitted
    have ended := opened.backWriteExecutor (ThreadPoolExecutor.execute_rejected.mp rejects.2)
    rw [submitted] at ended
    cases ended
  · exact rejects

/-- Whatever the threads do, a run is one of `EventDealer` and goes on as one, no task is rejected, and the
    queues bound what is being parsed, what waits and what is held in memory. -/
theorem split_bounded {events : List LogEvent}
    (run : Steps (CanalSplitter.step parse) (fun _ _ => True) (.new events) s) :
    Steps (EventDealer.move parse) (fun _ _ => True) .new s.eventDealer ∧
      (∀ turn s', s.step parse turn = some s' → s'.eventDealer = s.eventDealer ∨
        ∃ m, s.eventDealer.move parse m = some s'.eventDealer) ∧
      ¬ s.Rejects ∧ s.executor.running.length ≤ 4 ∧
      s.executor.workQueue.elements.length ≤ 40 ∧ s.eventDealer.backlog.length ≤ 3 ∧
      s.eventDealer.unwritten.length ≤ 161 := by
  have pa := run_paired run
  have si : Sized s := by
    apply run.invariant_along (.new events)
    intro s turn s' before si _ st
    exact si.step (step_turned (run_paired before).opened st)
  refine ⟨run_simulates run, fun turn s' st => (step_turned pa.opened st).moves, pa.opened.not_rejects, ?_, ?_,
    si.backlog_le pa, si.unwritten_le pa⟩
  · exact Nat.le_trans pa.executor.running (si.parsers ▸ pa.executor.threads)
  · exact Nat.le_trans pa.executor.queue si.waiting

/-- Three rows events are being parsed, and nothing more. -/
theorem two_tables_bounded : ∃ s, Steps (CanalSplitter.step parseStatement) (fun _ _ => True) (.new twoTables) s ∧
    s.executor.running = [2, 3, 4] ∧ s.eventDealer.unwritten.length ≤ 161 := by
  have run : ((List.replicate 10 Turn.main).foldlM (CanalSplitter.step parseStatement) (.new twoTables)).map
      (fun s => s.executor.running) = some [2, 3, 4] := by decide +kernel
  obtain ⟨s, run, running⟩ := Option.map_eq_some_iff.mp run
  have run := Steps.of_foldlM run
  exact ⟨s, run, running, (split_bounded run).2.2.2.2.2.2⟩

end TdsqlMerge.Splitter
