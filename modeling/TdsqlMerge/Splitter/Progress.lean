import TdsqlMerge.Splitter.CanalSplitter

/-!
# Splitting ends

Every step of a thread uses up a part of what is left to do (`Turned.decreases`), and as long as the main thread is
not done some thread can go on (`Paired.progress`): no thread waits for ever for a full queue, for a rows event
that is not parsed or for the end of an executor. `split_ends` puts the two together.
-/

namespace TdsqlMerge.Splitter
open Lib

/-! ## What is left to do -/

/-- The steps that the main thread has left within its call, and the list that it hands over. -/
def Point.left : Point → Nat
  | .idle => 8
  | .draining (some _) => 17
  | .draining none => 7
  | .awaitParse (some _) => 13
  | .awaitParse none => 3
  | .awaitBack (some _) => 12
  | .awaitBack none => 2
  | .query _ => 11
  | .dropping _ => 9
  | .submitted => 12
  | .waited => 1
  | .closed | .failed => 0

namespace EventDealer

/-- The steps that are left for the lists of the backlog and the write. -/
def toWrite (s : EventDealer) : Nat :=
  (s.backlog.map fun list => 2 + 2 * list.length).sum + s.writing.toList.length

/-- The writers that `dropTableWriterAndDdlSql` would close. -/
def unclosed (s : EventDealer) : Nat := s.tableWriterLookup.entries.countP fun e => e.2.id ∉ s.closed

/-- What is left of the call and of the lists. -/
def left (s : EventDealer) : Nat := s.point.left + 2 * s.procResult.length + s.toWrite + s.unclosed

end EventDealer

/-- What is left to do. -/
def CanalSplitter.left (s : CanalSplitter) : Nat :=
  10 * s.events.length + s.eventDealer.left + s.executor.left + s.backWriteExecutor.workQueue.elements.length

variable {parse : Str → Option SQLStatement} {s s' : EventDealer}

/-- A step of the write-back thread is one step less for the lists. -/
lemma back_toWrite (st : s.back = some s') :
    s'.toWrite < s.toWrite ∧ s'.unclosed = s.unclosed := by
  rw [EventDealer.back.eq_def] at st
  split at st
  · rename_i writer fut str writing
    rw [Option.some.injEq] at st
    subst st
    rw [EventDealer.endWrite]
    split <;>
      exact ⟨by simp only [EventDealer.toWrite, writing, Option.toList_some, Option.toList_none, List.length_nil,
        List.length_singleton, Nat.add_zero, Nat.lt_add_one], rfl⟩
  · rename_i writing
    split at st
    · cases st
    · rename_i rest backlog
      rw [Option.some.injEq] at st
      subst st
      refine ⟨?_, rfl⟩
      simp only [EventDealer.toWrite, backlog, writing, List.map_cons, List.sum_cons]
      omega
    · rename_i fut futs rest backlog
      split_ifs at st with running
      split at st
      · rw [Option.some.injEq] at st
        subst st
        refine ⟨?_, rfl⟩
        simp only [EventDealer.toWrite, backlog, writing, List.map_cons, List.sum_cons, List.length_cons]
        omega
      · split at st
        · rw [Option.some.injEq] at st
          subst st
          refine ⟨?_, rfl⟩
          simp only [EventDealer.toWrite, backlog, writing, List.map_cons, List.sum_cons]
          omega
        · rw [Option.some.injEq] at st
          subst st
          refine ⟨?_, rfl⟩
          simp only [EventDealer.toWrite, backlog, writing, List.map_cons, List.sum_cons, List.length_cons,
            Option.toList_some, Option.toList_none, List.length_nil]
          omega

/-- Where more writers are closed of no more entries, no more are left. -/
lemma unclosed_le (entries : s'.tableWriterLookup.entries.Sublist s.tableWriterLookup.entries)
    (closed : ∀ id ∈ s.closed, id ∈ s'.closed) : s'.unclosed ≤ s.unclosed := by
  apply Nat.le_trans entries.countP_le
  apply List.countP_mono_left
  intro e _ opened
  rw [decide_eq_true_eq] at opened ⊢
  exact fun mem => opened (closed _ mem)

/-- Closing a writer leaves one less. -/
lemma unclosed_close {key : Key} {writer : BufferedWriter} (found : s.tableWriterLookup.lookup key = some writer)
    (opened : writer.id ∉ s.closed) :
    EventDealer.unclosed { s with closed := writer.id :: s.closed } < s.unclosed := by
  have mem : ⟨key, writer⟩ ∈ s.tableWriterLookup.entries := AList.mem_lookup_iff.mp found
  obtain ⟨before, after, split⟩ := List.append_of_mem mem
  have fewer : ∀ entries : List (Σ _ : Key, BufferedWriter),
      entries.countP (fun e => decide (e.2.id ∉ writer.id :: s.closed)) ≤
        entries.countP fun e => decide (e.2.id ∉ s.closed) := by
    intro entries
    apply List.countP_mono_left
    intro e _ opened
    rw [decide_eq_true_eq] at opened ⊢
    exact fun mem => opened (List.mem_cons_of_mem _ mem)
  have first := fewer before
  have last := fewer after
  have gone : ¬ decide (writer.id ∉ writer.id :: s.closed) = true := by
    rw [decide_eq_true_eq]
    exact fun absent => absent List.mem_cons_self
  rw [EventDealer.unclosed, EventDealer.unclosed, split, List.countP_append, List.countP_append, List.countP_cons,
    List.countP_cons]
  dsimp only
  rw [if_neg gone, if_pos (decide_eq_true opened)]
  omega

/-- Opening a writer adds one at most. -/
lemma unclosed_open (event : QueryLogEvent) (key : Key) (statement : SQLStatement) (state : Nat)
    {closed : List Nat} (closes : ∀ id ∈ s.closed, id ∈ closed) :
    (EventDealer.openState { s with closed } event key statement state).unclosed ≤ s.unclosed + 1 := by
  have rest : EventDealer.unclosed { s with
      closed, tableWriterLookup := s.tableWriterLookup.erase key } ≤ s.unclosed := by
    apply unclosed_le
    · exact List.kerase_sublist key s.tableWriterLookup.entries
    · exact closes
  apply Nat.le_trans _ (Nat.add_le_add_right rest 1)
  change List.countP (fun e => decide (e.2.id ∉ closed)) (_ :: List.kerase key s.tableWriterLookup.entries) ≤
    List.countP (fun e => decide (e.2.id ∉ closed)) (List.kerase key s.tableWriterLookup.entries) + 1
  rw [List.countP_cons]
  split <;> omega

/-- A query needs one step, after which a writer more may be open. -/
lemma dealEventData_left (parse : Str → Option SQLStatement) (s : EventDealer) (event : QueryLogEvent) :
    (s.dealEventData parse event).point.left + (s.dealEventData parse event).unclosed ≤ 9 + s.unclosed := by
  have opens : ∀ (closed : List Nat) (key : Key) (statement : SQLStatement) (state : Nat),
      (∀ id ∈ s.closed, id ∈ closed) →
      (EventDealer.openState { s with closed } event key statement state).point.left +
        (EventDealer.openState { s with closed } event key statement state).unclosed ≤ 9 + s.unclosed := by
    intro closed key statement state closes
    have fewer := unclosed_open event key statement state closes
    have point : (EventDealer.openState { s with closed } event key statement state).point.left ≤ 8 := by
      rw [EventDealer.openState]
      dsimp only
      split <;> decide
    omega
  have updates : ∀ tableName statement,
      (s.updateTableWriterAndDdlSql event tableName statement).point.left +
        (s.updateTableWriterAndDdlSql event tableName statement).unclosed ≤ 9 + s.unclosed := by
    intro tableName statement
    rw [EventDealer.updateTableWriterAndDdlSql]
    split
    · exact opens s.closed _ _ _ fun _ mem => mem
    · split
      · exact Nat.add_le_add_right (by decide : 0 ≤ 9) _
      · exact opens _ _ _ _ fun _ mem => List.mem_cons_of_mem _ mem
  rw [EventDealer.dealEventData]
  split
  · exact Nat.add_le_add_right (by decide : 8 ≤ 9) _
  · split
    · exact Nat.add_le_add_right (by decide : 0 ≤ 9) _
    · exact updates _ _
    · exact updates _ _
    · exact Nat.le_refl _
    · exact Nat.add_le_add_right (by decide : 8 ≤ 9) _

/-! ## What a step leaves -/

/-- Moving the program point changes what is left at the point only. -/
lemma left_point (s : EventDealer) (point : Point) :
    EventDealer.left { s with point } + s.point.left = s.left + point.left := by
  have same : EventDealer.left { s with point } = point.left + 2 * s.procResult.length + s.toWrite + s.unclosed := rfl
  rw [same, EventDealer.left]
  omega

/-- Reading a query leaves 17 steps more at most. -/
lemma left_query {event : QueryLogEvent} :
    (s.dealEvent (.query event)).left + s.point.left ≤ s.left + 17 := by
  have point : (if drains event.query then Point.draining (some event) else .query event).left ≤ 17 := by
    split
    · exact Nat.le_refl 17
    · exact (by decide : 11 ≤ 17)
  have moved := left_point s (if drains event.query then .draining (some event) else .query event)
  rw [EventDealer.dealEvent]
  omega

/-- Reading rows leaves 14 steps more. -/
lemma left_rows (s : EventDealer) (r : RowsLogEvent) : (s.dealEvent (.rows r)).left + s.point.left = s.left + 14 := by
  have same : (s.dealEvent (.rows r)).left =
      12 + 2 * (s.procResult ++ [(⟨s.dealt.length, r⟩ : Future)]).length + s.toWrite + s.unclosed := rfl
  rw [same, EventDealer.left, List.length_append, List.length_singleton]
  omega

/-- Closing all files leaves no more. -/
lemma left_closeAll (s : EventDealer) : s.closeAll.left + s.point.left ≤ s.left := by
  have fewer : s.closeAll.unclosed ≤ s.unclosed :=
    unclosed_le (List.Sublist.refl _) fun _ mem => List.mem_append_right _ mem
  have same : s.closeAll.left = 0 + 2 * s.procResult.length + s.toWrite + s.closeAll.unclosed := rfl
  rw [same, EventDealer.left]
  omega

/-- The list that the main thread hands over is written instead of waiting in `procResult`. -/
lemma left_hand (s : EventDealer) (point : Point) :
    EventDealer.left { s.writeBack with point } + s.point.left = s.left + point.left + 2 := by
  have toWrite : EventDealer.toWrite { s.writeBack with point } = s.toWrite + 2 + 2 * s.procResult.length := by
    simp only [EventDealer.toWrite, EventDealer.writeBack, List.map_append, List.map_cons, List.map_nil,
      List.sum_append, List.sum_cons, List.sum_nil]
    omega
  have same : EventDealer.left { s.writeBack with point } =
      point.left + 2 * 0 + EventDealer.toWrite { s.writeBack with point } + s.unclosed := rfl
  rw [same, toWrite, EventDealer.left]
  omega

/-- Dealing with a query leaves 9 steps more at most. -/
lemma left_dealEventData (parse : Str → Option SQLStatement) (s : EventDealer) (event : QueryLogEvent) :
    (s.dealEventData parse event).left + s.point.left ≤ s.left + 9 := by
  obtain ⟨_, backlog, writing, results⟩ := dealEventData_tasks parse s event
  have dealt := dealEventData_left parse s event
  have same : (s.dealEventData parse event).toWrite = s.toWrite := by
    rw [EventDealer.toWrite, backlog, writing, EventDealer.toWrite]
  rw [EventDealer.left, EventDealer.left, same, results]
  omega

/-- Forgetting a database leaves 8 steps more at most. -/
lemma left_forget (s : EventDealer) (event : QueryLogEvent) :
    (s.forgetDatabase event).left + s.point.left ≤ s.left + 8 := by
  have fewer : (s.forgetDatabase event).unclosed ≤ s.unclosed :=
    unclosed_le List.filter_sublist fun _ mem => mem
  have same : (s.forgetDatabase event).left =
      8 + 2 * s.procResult.length + s.toWrite + (s.forgetDatabase event).unclosed := rfl
  rw [same, EventDealer.left]
  omega

/-- Closing a writer leaves less. -/
lemma left_close {key : Key} {writer : BufferedWriter} (found : s.tableWriterLookup.lookup key = some writer)
    (opened : writer.id ∉ s.closed) : EventDealer.left { s with closed := writer.id :: s.closed } < s.left :=
  Nat.add_lt_add_left (unclosed_close found opened) _

/-- A step of the write-back thread leaves less. -/
lemma left_back (st : s.back = some s') : s'.left < s.left := by
  obtain ⟨less, writers⟩ := back_toWrite st
  obtain ⟨point, results, _⟩ := back_suffix st
  rw [EventDealer.left, EventDealer.left, point, results, writers]
  omega

/-- A failed write leaves less. -/
lemma left_fails (writing : s.writing.isSome = true) : EventDealer.left { s with writing := none } < s.left := by
  obtain ⟨w, at_write⟩ := Option.isSome_iff_exists.mp writing
  have same : EventDealer.left { s with writing := none } = s.point.left + 2 * s.procResult.length +
      ((s.backlog.map fun list => 2 + 2 * list.length).sum + 0) + s.unclosed := rfl
  rw [same, EventDealer.left, EventDealer.toWrite, at_write, Option.toList_some, List.length_singleton]
  omega

/-- A list that is accepted takes one place of the queue at most. -/
lemma queue_execute {α : Type} {p p' : ThreadPoolExecutor α} {task : α} (ex : p.execute task = .accepted p') :
    p'.workQueue.elements.length ≤ p.workQueue.elements.length + 1 := by
  obtain ⟨_, ⟨_, rfl⟩ | ⟨_, _, rfl⟩⟩ := ThreadPoolExecutor.execute_accepted ex
  · exact Nat.le_succ _
  · rw [List.length_append, List.length_singleton]

section
variable {s s' : CanalSplitter}

/-- Every step uses up a part of what is left. -/
theorem Turned.decreases {turn : Turn} (tu : Turned parse s turn s') : s'.left < s.left := by
  cases tu with
  | read event events idle next other =>
    have call : (s.eventDealer.dealEvent event).left + s.eventDealer.point.left ≤ s.eventDealer.left + 17 := by
      cases event with
      | query event => exact left_query
      | rows r => exact absurd rfl (other r)
      | other => exact Nat.add_le_add_left (by rw [idle]; decide) _
    rw [idle, Point.left] at call
    simp only [CanalSplitter.left, next, List.length_cons]
    omega
  | submit r events executor idle next ex =>
    have tasks := ThreadPoolExecutor.left_execute ex
    have call := left_rows s.eventDealer r
    rw [idle, Point.left] at call
    simp only [CanalSplitter.left, next, List.length_cons]
    omega
  | waits idle empty =>
    have call := left_point s.eventDealer (.draining none)
    rw [idle, Point.left, Point.left] at call
    simp only [CanalSplitter.left]
    omega
  | closes waited =>
    have call := left_closeAll s.eventDealer
    rw [waited, Point.left] at call
    simp only [CanalSplitter.left]
    omega
  | drains next backWriteExecutor draining ex =>
    have queue := queue_execute ex
    have call := left_hand s.eventDealer (.awaitParse next)
    have same : s.executor.shutdown.left = s.executor.left := rfl
    rw [draining] at call
    simp only [CanalSplitter.left, same]
    cases next <;> simp only [Point.left] at call <;> omega
  | wrote backWriteExecutor submitted full ex =>
    have queue := queue_execute ex
    have call := left_hand s.eventDealer .idle
    simp only [submitted, Point.left] at call
    simp only [CanalSplitter.left]
    omega
  | kept submitted short =>
    have call := left_point s.eventDealer .idle
    rw [submitted, Point.left, Point.left] at call
    simp only [CanalSplitter.left]
    omega
  | parsed next awaits idle =>
    have call := left_point s.eventDealer (.awaitBack next)
    have same : s.backWriteExecutor.shutdown.workQueue = s.backWriteExecutor.workQueue := rfl
    rw [awaits] at call
    simp only [CanalSplitter.left, same]
    cases next with
    | none =>
      simp only [Point.left, Option.isSome_none, Bool.false_eq_true, if_false] at call ⊢
      omega
    | some event =>
      have empty : (ThreadPoolExecutor.new 4 20 : ThreadPoolExecutor Nat).left = 0 := rfl
      simp only [Point.left, Option.isSome_some, if_true, empty] at call ⊢
      omega
  | drained next awaits idle written =>
    cases next with
    | none =>
      have call := left_point s.eventDealer .waited
      rw [awaits, Point.left, Point.left] at call
      simp only [CanalSplitter.left, Option.isSome_none, Bool.false_eq_true, if_false]
      omega
    | some event =>
      have call := left_point s.eventDealer (.query event)
      have empty : (ThreadPoolExecutor.new 1 2 : ThreadPoolExecutor (List Future)).workQueue.elements = [] := rfl
      rw [awaits, Point.left, Point.left] at call
      simp only [CanalSplitter.left, Option.isSome_some, if_true, empty, List.length_nil]
      omega
  | query event at_query =>
    have call := left_dealEventData parse s.eventDealer event
    rw [at_query, Point.left] at call
    simp only [CanalSplitter.left]
    omega
  | forgot event dropping all =>
    have call := left_forget s.eventDealer event
    rw [dropping, Point.left] at call
    simp only [CanalSplitter.left]
    omega
  | closing key writer event dropping found opened =>
    have call := left_close found opened
    simp only [CanalSplitter.left]
    omega
  | took executor took =>
    have fewer := ThreadPoolExecutor.left_getTask took
    simp only [CanalSplitter.left]
    omega
  | parses event executor ended mem =>
    have fewer := ThreadPoolExecutor.left_afterExecute ended
    have same : EventDealer.left { s.eventDealer with running := s.eventDealer.running.erase event } =
        s.eventDealer.left := rfl
    simp only [CanalSplitter.left, same]
    omega
  | tookList backWriteExecutor took =>
    obtain ⟨list, elements, queue, _, rfl⟩ := ThreadPoolExecutor.getTask_some took
    simp only [CanalSplitter.left, queue, List.length_cons]
    omega
  | back eventDealer busy st le =>
    have less := left_back st
    simp only [CanalSplitter.left]
    omega
  | listed oldResult eventDealer backWriteExecutor st lt ended =>
    have less := left_back st
    obtain ⟨_, rfl⟩ := ThreadPoolExecutor.afterExecute_some ended
    simp only [CanalSplitter.left]
    omega
  | writeFails writing =>
    have less := left_fails writing
    simp only [CanalSplitter.left]
    omega

/-! ## Some thread can go on -/

/-- While rows events are not parsed, a thread parses one or takes one. -/
lemma Paired.parses (pa : Paired s) (waiting : s.eventDealer.running ≠ []) :
    ∃ turn s', s.step parse turn = some s' := by
  have tasks : s.executor.tasks ≠ [] := by rwa [pa.parsing]
  rcases pa.executor.busy tasks with ⟨event, mem, executor, ended⟩ | ⟨_, executor, took⟩
  · have running : event ∈ s.eventDealer.running := by
      rw [← pa.parsing]
      exact List.mem_append_left _ mem
    refine ⟨.parse event, ?_⟩
    simp only [CanalSplitter.step, ended, Option.bind_some, CanalSplitter.deal, EventDealer.step, if_pos running,
      Option.map_some]
    exact ⟨_, rfl⟩
  · refine ⟨.getTask, ?_⟩
    rw [CanalSplitter.step, took, Option.map_some]
    exact ⟨_, rfl⟩

/-- The write-back thread waits only for a rows event that is not parsed. -/
lemma back_waits {s : EventDealer} (waiting : s.backlog ≠ [] ∨ s.writing.isSome = true) (st : s.back = none) :
    s.running ≠ [] := by
  rw [EventDealer.back.eq_def] at st
  split at st
  · cases st
  · rename_i writing
    split at st
    · rename_i backlog
      rcases waiting with lists | writes
      · exact absurd backlog lists
      · rw [writing] at writes
        cases writes
    · cases st
    · split_ifs at st with running
      · exact List.ne_nil_of_mem running
      · split at st
        · cases st
        · split at st <;> cases st

/-- While lists are not written, some thread goes on with one. -/
lemma Paired.writes (pa : Paired s) (waiting : s.eventDealer.backlog ≠ [] ∨ s.eventDealer.writing.isSome = true) :
    ∃ turn s', s.step parse turn = some s' := by
  rcases e : s.backWriteExecutor.running with _ | ⟨oldResult, others⟩
  · have lists : s.backWriteExecutor.tasks ≠ [] := by
      rcases waiting with lists | writes
      · have len := List.length_pos_iff.mpr lists
        rw [← pa.lists] at len
        exact List.length_pos_iff.mp len
      · exact absurd e (pa.writing writes)
    rcases pa.backWriteExecutor.busy lists with ⟨list, mem, _⟩ | ⟨_, backWriteExecutor, took⟩
    · rw [e] at mem
      cases mem
    · refine ⟨.getList, ?_⟩
      rw [CanalSplitter.step, took, Option.map_some]
      exact ⟨_, rfl⟩
  · cases st : s.eventDealer.back with
    | none => exact pa.parses (back_waits waiting st)
    | some eventDealer =>
      have mem : oldResult ∈ s.backWriteExecutor.running := by
        rw [e]
        exact List.mem_cons_self
      refine ⟨.back, ?_⟩
      simp only [CanalSplitter.step, CanalSplitter.back, e, List.head?_cons, st, Option.bind_eq_bind, Option.bind_some,
        ThreadPoolExecutor.afterExecute]
      rw [← e, if_pos mem]
      split <;> exact ⟨_, rfl⟩

/-- The main thread hands its list over, or waits for lists that are not written. -/
lemma Paired.submitBack (pa : Paired s) (turn : Turn) (s1 : CanalSplitter)
    (next : s.step parse turn = s1.submitBack parse) (same : s1.backWriteExecutor = s.backWriteExecutor)
    (goes : ∃ eventDealer, s1.eventDealer.main parse = some eventDealer) :
    ∃ turn s', s.step parse turn = some s' := by
  cases ex : s1.backWriteExecutor.execute s1.eventDealer.procResult with
  | accepted backWriteExecutor =>
    obtain ⟨eventDealer, goes⟩ := goes
    refine ⟨turn, ?_⟩
    rw [next, CanalSplitter.submitBack, ex]
    dsimp only
    rw [CanalSplitter.deal, EventDealer.step, goes, Option.map_some]
    exact ⟨_, rfl⟩
  | blocked =>
    have full := ThreadPoolExecutor.execute_blocked (same ▸ pa.backWriteExecutor) ex
    have tasks : s.backWriteExecutor.tasks ≠ [] := by
      rw [← same]
      exact List.append_ne_nil_of_right_ne_nil _ full
    have lists : s.eventDealer.backlog ≠ [] := by
      apply List.length_pos_iff.mp
      rw [← pa.lists]
      exact List.length_pos_iff.mpr tasks
    exact pa.writes (.inl lists)
  | rejected =>
    refine ⟨turn, ?_⟩
    rw [next, CanalSplitter.submitBack, ex]
    exact ⟨_, rfl⟩

/-- The main thread submits the next rows event, or waits for those that are not parsed. -/
lemma Paired.submit (pa : Paired s) {r : RowsLogEvent} {events : List LogEvent}
    (idle : s.eventDealer.point = .idle) (next : s.events = .rows r :: events) :
    ∃ turn s', s.step parse turn = some s' := by
  cases ex : s.executor.execute s.eventDealer.dealt.length with
  | accepted executor =>
    refine ⟨.main, ?_⟩
    simp only [CanalSplitter.step, CanalSplitter.main, idle, next, CanalSplitter.dealNext, ex, CanalSplitter.deal,
      EventDealer.step, Option.map_some]
    exact ⟨_, rfl⟩
  | blocked =>
    apply pa.parses
    rw [← pa.parsing]
    exact List.append_ne_nil_of_right_ne_nil _ (ThreadPoolExecutor.execute_blocked pa.executor ex)
  | rejected =>
    refine ⟨.main, ?_⟩
    simp only [CanalSplitter.step, CanalSplitter.main, idle, next, CanalSplitter.dealNext, ex]
    exact ⟨_, rfl⟩

/-- The loop of `dropTableWriterAndDdlSql` has a writer to close, or is done. -/
lemma CanalSplitter.drops {event : QueryLogEvent} (dropping : s.eventDealer.point = .dropping event) :
    ∃ turn s', s.step parse turn = some s' := by
  by_cases all : ∀ e ∈ s.eventDealer.tableWriterLookup.entries, e.2.id ∈ s.eventDealer.closed
  · refine ⟨.main, ?_⟩
    simp only [CanalSplitter.step, CanalSplitter.main, dropping, CanalSplitter.deal, EventDealer.step,
      EventDealer.main, if_pos all, Option.map_some]
    exact ⟨_, rfl⟩
  · obtain ⟨⟨key, writer⟩, open'⟩ := Classical.not_forall.mp all
    obtain ⟨mem, opened⟩ := Classical.not_imp.mp open'
    have found : s.eventDealer.tableWriterLookup.lookup key = some writer := AList.mem_lookup_iff.mpr mem
    refine ⟨.close key, ?_⟩
    have unclosed : ¬ decide (writer.id ∈ s.eventDealer.closed) = true := by rwa [decide_eq_true_eq]
    simp only [CanalSplitter.step, found, Option.any_some, if_neg unclosed, CanalSplitter.deal, EventDealer.step,
      dropping, Option.map_some]
    exact ⟨_, rfl⟩

/-- As long as the main thread is not done, some thread can go on. -/
theorem Paired.progress (pa : Paired s) (closed : s.eventDealer.point ≠ .closed)
    (failed : s.eventDealer.point ≠ .failed) : ∃ turn s', s.step parse turn = some s' := by
  cases point : s.eventDealer.point with
  | idle =>
    cases next : s.events with
    | nil =>
      refine ⟨.main, ?_⟩
      simp only [CanalSplitter.step, CanalSplitter.main, point, next, CanalSplitter.deal, EventDealer.step,
        Option.map_some]
      exact ⟨_, rfl⟩
    | cons event events =>
      cases event with
      | rows r => exact pa.submit point next
      | query event | other =>
        refine ⟨.main, ?_⟩
        simp only [CanalSplitter.step, CanalSplitter.main, point, next, CanalSplitter.dealNext, CanalSplitter.deal,
          EventDealer.step, Option.map_some]
        exact ⟨_, rfl⟩
  | draining next =>
    apply pa.submitBack .main { s with executor := s.executor.shutdown }
    · simp only [CanalSplitter.step, CanalSplitter.main, point]
    · rfl
    · simp only [EventDealer.main, point]
      exact ⟨_, rfl⟩
  | submitted =>
    by_cases full : s.eventDealer.procResult.length ≥ 40
    · apply pa.submitBack .main s
      · simp only [CanalSplitter.step, CanalSplitter.main, point, if_pos full]
      · rfl
      · simp only [EventDealer.main, point]
        exact ⟨_, rfl⟩
    · refine ⟨.main, ?_⟩
      simp only [CanalSplitter.step, CanalSplitter.main, point, if_neg full, CanalSplitter.deal, EventDealer.step,
        EventDealer.main, Option.map_some]
      exact ⟨_, rfl⟩
  | awaitParse next =>
    by_cases idle : s.eventDealer.running = []
    · refine ⟨.main, ?_⟩
      simp only [CanalSplitter.step, CanalSplitter.main, point, CanalSplitter.deal, EventDealer.step,
        EventDealer.main, if_pos idle, Option.map_some]
      exact ⟨_, rfl⟩
    · exact pa.parses idle
  | awaitBack next =>
    by_cases idle : s.eventDealer.backlog = [] ∧ s.eventDealer.writing = none
    · refine ⟨.main, ?_⟩
      simp only [CanalSplitter.step, CanalSplitter.main, point, CanalSplitter.deal, EventDealer.step,
        EventDealer.main, if_pos idle, Option.map_some]
      exact ⟨_, rfl⟩
    · apply pa.writes
      rcases not_and_or.mp idle with lists | writes
      · exact .inl lists
      · exact .inr (Option.isSome_iff_ne_none.mpr writes)
  | query event =>
    refine ⟨.main, ?_⟩
    simp only [CanalSplitter.step, CanalSplitter.main, point, CanalSplitter.deal, EventDealer.step,
      EventDealer.main, Option.map_some]
    exact ⟨_, rfl⟩
  | dropping event => exact CanalSplitter.drops point
  | waited =>
    refine ⟨.main, ?_⟩
    simp only [CanalSplitter.step, CanalSplitter.main, point, CanalSplitter.deal, EventDealer.step, Option.map_some]
    exact ⟨_, rfl⟩
  | closed => exact absurd point closed
  | failed => exact absurd point failed

/-- Where no thread can go on, nothing is parsed or written any more. -/
lemma Paired.final (pa : Paired s) (final : Final (CanalSplitter.step parse) s) :
    s.executor.tasks = [] ∧ s.backWriteExecutor.tasks = [] ∧ s.eventDealer.writing = none := by
  have stuck : ¬ ∃ turn s', s.step parse turn = some s' := by
    rintro ⟨turn, s', st⟩
    rw [final turn] at st
    cases st
  have lists : s.eventDealer.backlog = [] := by
    by_contra lists
    exact stuck (pa.writes (.inl lists))
  refine ⟨?_, ?_, ?_⟩
  · by_contra tasks
    exact stuck (pa.parses (pa.parsing ▸ tasks))
  · apply List.length_eq_zero_iff.mp
    rw [pa.lists, lists, List.length_nil]
  · cases writing : s.eventDealer.writing with
    | none => rfl
    | some w => exact absurd (pa.writes (.inr (by rw [writing]; rfl))) stuck

end

/-! ## All events are dealt with -/

/-- The query that the main thread is at. -/
def Point.pending : Point → List LogEvent
  | .draining (some event) | .awaitParse (some event) | .awaitBack (some event) | .query event | .dropping event =>
    [.query event]
  | _ => []

/-- Between two events none is pending. -/
lemma pending_idle : Point.idle.pending = [] := rfl

/-- The points from the call of `waitIt` on. -/
def Point.ends : Point → Bool
  | .draining none | .awaitParse none | .awaitBack none | .waited | .closed => true
  | _ => false

/-- `dealEventData` throws for the query: it is not parsed, or its `.ddl` file is not written. -/
def Fails (parse : Str → Option SQLStatement) (event : QueryLogEvent) : Prop :=
  event.query ≠ "BEGIN".toList ∧ event.query ≠ "COMMIT".toList ∧
    ∀ statement, parse event.query = some statement →
      writeDDLCompat statement = none ∧ ∃ key, (LogEvent.query event).updates parse = some key

/-- What the main thread has dealt with, is at and has not read. -/
structure Reading (parse : Str → Option SQLStatement) (events : List LogEvent) (s : CanalSplitter) : Prop where
  read : s.eventDealer.point ≠ .failed →
    s.eventDealer.dealt ++ s.eventDealer.point.pending ++ s.events = events
  ends : s.eventDealer.point.ends = true → s.events = []
  failed : s.eventDealer.point = .failed → ∃ event, .query event ∈ events ∧ Fails parse event

/-- After its files are opened a query has failed or has been read. -/
lemma openState_read {event : QueryLogEvent} {key : Key} {statement : SQLStatement} {state : Nat}
    (begins : ¬ (event.query = "BEGIN".toList ∨ event.query = "COMMIT".toList))
    (parses : parse event.query = some statement) (updates : (LogEvent.query event).updates parse = some key) :
    (s.openState event key statement state).point = .failed ∧ Fails parse event ∨
      (s.openState event key statement state).point = .idle ∧
        (s.openState event key statement state).dealt = s.dealt ++ [.query event] := by
  rw [not_or] at begins
  by_cases writes : (writeDDLCompat statement).isSome = true
  · exact .inr ⟨if_pos writes, rfl⟩
  · refine .inl ⟨if_neg writes, begins.1, begins.2, ?_⟩
    intro statement' parses'
    rw [parses] at parses'
    cases parses'
    exact ⟨by simpa using writes, key, updates⟩

/-- What `dealEventData` does with a query: it throws, is done with it, or goes on to drop a database. -/
lemma dealEventData_read (event : QueryLogEvent)
    (mapped : ∀ key state, s.tableAlterStateLookup.lookup key = some state →
      ∃ writer, s.tableWriterLookup.lookup key = some writer) :
    (s.dealEventData parse event).point = .failed ∧ Fails parse event ∨
      (s.dealEventData parse event).point = .idle ∧
        (s.dealEventData parse event).dealt = s.dealt ++ [.query event] ∨
      (s.dealEventData parse event).point = .dropping event ∧ (s.dealEventData parse event).dealt = s.dealt := by
  by_cases begins : event.query = "BEGIN".toList ∨ event.query = "COMMIT".toList
  · rw [EventDealer.dealEventData, if_pos begins]
    exact .inr (.inl ⟨rfl, rfl⟩)
  · have table : ∀ tableName statement, parse event.query = some statement →
        (LogEvent.query event).updates parse = some (event.dbName, replace '`' tableName.getSimpleName) →
        (s.updateTableWriterAndDdlSql event tableName statement).point = .failed ∧ Fails parse event ∨
          (s.updateTableWriterAndDdlSql event tableName statement).point = .idle ∧
            (s.updateTableWriterAndDdlSql event tableName statement).dealt = s.dealt ++ [.query event] := by
      intro tableName statement parses updates
      rw [EventDealer.updateTableWriterAndDdlSql]
      split
      · exact openState_read begins parses updates
      · rename_i state at_key
        obtain ⟨writer, found⟩ := mapped _ _ at_key
        rw [found]
        exact openState_read (s := { s with closed := writer.id :: s.closed }) begins parses updates
    rw [EventDealer.dealEventData, if_neg begins]
    cases parses : parse event.query with
    | none =>
      rw [not_or] at begins
      refine .inl ⟨rfl, begins.1, begins.2, ?_⟩
      intro statement parses'
      rw [parses] at parses'
      cases parses'
    | some statement =>
      cases statement with
      | createTable tableName columns keys =>
        have updates : (LogEvent.query event).updates parse =
            some (event.dbName, replace '`' tableName.getSimpleName) := by
          rw [LogEvent.updates, if_neg begins, parses]
        exact (table _ _ parses updates).imp_right .inl
      | alterTable tableName items =>
        have updates : (LogEvent.query event).updates parse =
            some (event.dbName, replace '`' tableName.getSimpleName) := by
          rw [LogEvent.updates, if_neg begins, parses]
        exact (table _ _ parses updates).imp_right .inl
      | dropDatabase => exact .inr (.inr ⟨rfl, rfl⟩)
      | other => exact .inr (.inl ⟨rfl, rfl⟩)

section
variable {events : List LogEvent} {s s' : CanalSplitter}

/-- The write-back thread reads no event. -/
lemma back_dealt {s s' : EventDealer} (st : s.back = some s') : s'.dealt = s.dealt :=
  (back_progress st).dealt

/-- At first all events are to be read. -/
lemma Reading.new : Reading parse events (.new events) := ⟨fun _ => rfl, nofun, nofun⟩

/-- The threads that parse and write leave the events to the main thread. -/
lemma Reading.other {eventDealer : EventDealer} {executor : ThreadPoolExecutor Nat}
    {backWriteExecutor : ThreadPoolExecutor (List Future)} (re : Reading parse events s)
    (dealt : eventDealer.dealt = s.eventDealer.dealt) (point : eventDealer.point = s.eventDealer.point) :
    Reading parse events { s with eventDealer, executor, backWriteExecutor } where
  read := by
    rw [dealt, point]
    exact re.read
  ends := by
    rw [point]
    exact re.ends
  failed := by
    rw [point]
    exact re.failed

/-- The main thread goes on to a point at which the same query is pending. -/
lemma Reading.goes {eventDealer : EventDealer} {executor : ThreadPoolExecutor Nat}
    {backWriteExecutor : ThreadPoolExecutor (List Future)} (re : Reading parse events s)
    (dealt : eventDealer.dealt = s.eventDealer.dealt)
    (pending : eventDealer.point.pending = s.eventDealer.point.pending)
    (ends : eventDealer.point.ends = true → s.events = []) (before : s.eventDealer.point ≠ .failed)
    (after : eventDealer.point ≠ .failed) :
    Reading parse events { s with eventDealer, executor, backWriteExecutor } where
  read := by
    rw [dealt, pending]
    exact fun _ => re.read before
  ends := ends
  failed := fun failed => absurd failed after

/-- The main thread takes the next event, and is done with it or keeps it as its query. -/
lemma Reading.takes {eventDealer : EventDealer} {executor : ThreadPoolExecutor Nat} {event : LogEvent}
    {rest : List LogEvent} (re : Reading parse events s) (idle : s.eventDealer.point = .idle)
    (next : s.events = event :: rest)
    (dealt : eventDealer.dealt ++ eventDealer.point.pending = s.eventDealer.dealt ++ [event])
    (ends : eventDealer.point.ends = false) (after : eventDealer.point ≠ .failed) :
    Reading parse events { s with events := rest, eventDealer, executor } where
  read := by
    have read := re.read (by rw [idle]; exact nofun)
    rw [idle, next, pending_idle, List.append_nil] at read
    rw [dealt, List.append_assoc, List.singleton_append]
    exact fun _ => read
  ends := by
    rw [ends]
    exact nofun
  failed := fun failed => absurd failed after

/-- Every step keeps what is read, pending and left. -/
lemma Reading.step {turn : Turn} (re : Reading parse events s) (co : Coherent parse s.eventDealer)
    (tu : Turned parse s turn s') : Reading parse events s' := by
  cases tu with
  | read event rest idle next other =>
    cases event with
    | query event =>
      apply re.takes idle next
      · rw [EventDealer.dealEvent]
        dsimp only
        split <;> rfl
      · rw [EventDealer.dealEvent]
        dsimp only
        split <;> rfl
      · rw [EventDealer.dealEvent]
        dsimp only
        split <;> exact Point.noConfusion
    | rows r => exact absurd rfl (other r)
    | other =>
      have point : (s.eventDealer.dealEvent .other).point = .idle := idle
      apply re.takes idle next
      · rw [point, pending_idle, List.append_nil]
        rfl
      · rw [point]
        rfl
      · rw [point]
        exact Point.noConfusion
  | submit r rest executor idle next ex =>
    exact re.takes idle next (List.append_nil _) rfl Point.noConfusion
  | waits idle empty =>
    exact re.goes rfl (by rw [idle]; rfl) (fun _ => empty) (by rw [idle]; exact Point.noConfusion) Point.noConfusion
  | closes waited =>
    exact re.goes rfl (by rw [waited]; rfl) (fun _ => re.ends (by rw [waited]; rfl))
      (by rw [waited]; exact Point.noConfusion)
      Point.noConfusion
  | drains next backWriteExecutor draining ex =>
    refine re.goes rfl ?_ ?_ ?_ ?_
    · rw [draining]
      cases next <;> rfl
    · intro ends
      apply re.ends
      rw [draining]
      cases next with
      | none => rfl
      | some event => cases ends
    · rw [draining]
      exact Point.noConfusion
    · exact Point.noConfusion
  | wrote backWriteExecutor submitted full ex =>
    exact re.goes rfl (by rw [submitted]; rfl) Bool.noConfusion (by rw [submitted]; exact Point.noConfusion)
      Point.noConfusion
  | kept submitted short =>
    exact re.goes rfl (by rw [submitted]; rfl) Bool.noConfusion (by rw [submitted]; exact Point.noConfusion)
      Point.noConfusion
  | parsed next awaits idle =>
    refine re.goes rfl ?_ ?_ ?_ ?_
    · rw [awaits]
      cases next <;> rfl
    · intro ends
      apply re.ends
      rw [awaits]
      cases next with
      | none => rfl
      | some event => cases ends
    · rw [awaits]
      exact Point.noConfusion
    · exact Point.noConfusion
  | drained next awaits idle written =>
    refine re.goes rfl ?_ ?_ ?_ ?_
    · rw [awaits]
      cases next <;> rfl
    · intro ends
      apply re.ends
      rw [awaits]
      cases next with
      | none => rfl
      | some event => cases ends
    · rw [awaits]
      exact Point.noConfusion
    · cases next <;> exact Point.noConfusion
  | query event at_query =>
    have read := re.read (by rw [at_query]; exact Point.noConfusion)
    rw [at_query, Point.pending] at read
    rcases dealEventData_read event co.mapped with ⟨point, fails⟩ | ⟨point, dealt⟩ | ⟨point, dealt⟩
    · refine ⟨fun live => absurd point live, ?_, fun _ => ⟨event, ?_, fails⟩⟩
      · rw [point]
        exact Bool.noConfusion
      · rw [← read]
        exact List.mem_append_left _ (List.mem_append_right _ List.mem_cons_self)
    · refine ⟨fun _ => ?_, ?_, ?_⟩
      · rw [point, dealt, pending_idle, List.append_nil]
        exact read
      · rw [point]
        exact Bool.noConfusion
      · rw [point]
        exact Point.noConfusion
    · refine ⟨fun _ => ?_, ?_, ?_⟩
      · rw [point, dealt, Point.pending]
        exact read
      · rw [point]
        exact Bool.noConfusion
      · rw [point]
        exact Point.noConfusion
  | forgot event dropping all =>
    have read := re.read (by rw [dropping]; exact Point.noConfusion)
    rw [dropping, Point.pending] at read
    have dealt : (s.eventDealer.forgetDatabase event).dealt = s.eventDealer.dealt ++ [.query event] := rfl
    have point : (s.eventDealer.forgetDatabase event).point = .idle := rfl
    refine ⟨fun _ => ?_, Bool.noConfusion, Point.noConfusion⟩
    rw [dealt, point, pending_idle, List.append_nil]
    exact read
  | closing key writer event dropping found opened => exact re.other rfl rfl
  | took executor took => exact re.other rfl rfl
  | parses event executor ended mem => exact re.other rfl rfl
  | tookList backWriteExecutor took => exact re.other rfl rfl
  | back eventDealer busy st le =>
    exact re.other (back_dealt st) (back_suffix st).1
  | listed oldResult eventDealer backWriteExecutor st lt ended =>
    exact re.other (back_dealt st) (back_suffix st).1
  | writeFails writing => exact re.other rfl rfl

/-- In every run the events read, pending and left are those of the stream. -/
lemma run_reading (run : Steps (CanalSplitter.step parse) (fun _ _ => True) (.new events) s) :
    Reading parse events s := by
  apply run.invariant_along .new
  intro s turn s' before re _ st
  exact re.step (reached_known (run_simulates before)).coherent (step_turned (run_paired before).opened st)

/-- Every step of the splitter leaves it less to do. -/
lemma run_shrinks (parse : Str → Option SQLStatement) (events : List LogEvent) :
    Shrinks (CanalSplitter.step parse) CanalSplitter.left (.new events) := by
  intro s turn s' run st
  exact (step_turned (run_paired run).opened st).decreases

/-- Where no thread can go on, the folder is closed after all events, or a query of the stream threw. -/
lemma run_final {s : CanalSplitter} (run : Steps (CanalSplitter.step parse) (fun _ _ => True) (.new events) s)
    (final : Final (CanalSplitter.step parse) s) :
    s.executor.tasks = [] ∧ s.backWriteExecutor.tasks = [] ∧
      (s.eventDealer.point = .closed ∧ s.eventDealer.dealt = events ∧ s.eventDealer.unwritten = [] ∨
        s.eventDealer.point = .failed ∧ ∃ event, .query event ∈ events ∧ Fails parse event) := by
  have re := run_reading run
  obtain ⟨parsed, written, _⟩ := (run_paired run).final final
  refine ⟨parsed, written, ?_⟩
  by_cases failed : s.eventDealer.point = .failed
  · exact .inr ⟨failed, re.failed failed⟩
  · have closed : s.eventDealer.point = .closed := by
      by_contra closed
      obtain ⟨turn, s', st⟩ := (run_paired run).progress closed failed
      rw [final turn] at st
      cases st
    have read := re.read failed
    have staged := (reached_known (run_simulates run)).staged
    rw [re.ends (by rw [closed]; rfl), closed, List.append_nil] at read
    rw [Staged, closed] at staged
    exact .inl ⟨closed, (List.append_nil _).symm.trans read, staged⟩

/-- Every rows event of the binlog has one outcome in the run, in their order, and the files hold the texts of those
    that were written. -/
structure Accounted (parse : Str → Option SQLStatement) (events : List LogEvent) (os : List (Future × Outcome))
    (s : EventDealer) : Prop where
  run : Emits (EventDealer.move parse) EventDealer.outcomes (fun _ _ => True) .new os s
  account : os.map Prod.fst = futures events
  files : Holding .new os s

/-- Where nothing is under way, every rows event that was dealt with has its outcome. -/
lemma accounted {s : EventDealer} (run : Steps (EventDealer.move parse) (fun _ _ => True) .new s)
    (none : s.unwritten = []) : ∃ os, Accounted parse s.dealt os s := by
  obtain ⟨os, run⟩ := run.emits EventDealer.outcomes
  have account := run_account run
  rw [none, List.append_nil] at account
  exact ⟨os, run, account, (run_files (reached_known .refl) run).1⟩

/-- Whatever the threads do, splitting ends, and where it ends the executors have nothing left to do, and either all
    events are dealt with and each rows event is written or has failed, or a query was not dealt with. -/
theorem split_ends :
    (∀ (turns : List Turn) s, turns.foldlM (CanalSplitter.step parse) (.new events) = some s →
      turns.length ≤ 10 * events.length + 8) ∧
    ∀ s, Steps (CanalSplitter.step parse) (fun _ _ => True) (.new events) s → Final (CanalSplitter.step parse) s →
      s.executor.tasks = [] ∧ s.backWriteExecutor.tasks = [] ∧
        (s.eventDealer.point = .closed ∧ s.eventDealer.dealt = events ∧ s.eventDealer.unwritten = [] ∧
            (∃ os, Accounted parse events os s.eventDealer) ∨
          s.eventDealer.point = .failed ∧ ∃ event, .query event ∈ events ∧ Fails parse event) := by
  constructor
  · intro turns s run
    have le := length_add_le (run_shrinks parse events) run
    have start : (CanalSplitter.new events).left = 10 * events.length + 8 := rfl
    omega
  · intro s run final
    obtain ⟨parsed, written, ⟨closed, dealt, none⟩ | failed⟩ := run_final run final
    · refine ⟨parsed, written, .inl ⟨closed, dealt, none, ?_⟩⟩
      have outcomes := accounted (run_simulates run) none
      rwa [dealt] at outcomes
    · exact ⟨parsed, written, .inr failed⟩

end

/-- Whatever the threads do, the rows of two tables all have their outcome in the end. -/
theorem two_tables_end : ∃ s, Steps (CanalSplitter.step parseStatement) (fun _ _ => True) (.new twoTables) s ∧
    s.eventDealer.point = .closed ∧ s.eventDealer.dealt = twoTables ∧ s.eventDealer.unwritten = [] ∧
      ∃ os, Accounted parseStatement twoTables os s.eventDealer := by
  obtain ⟨s, run, final⟩ := exists_final (run_shrinks parseStatement twoTables)
  obtain ⟨_, _, closed | ⟨_, event, mem, _, _, fails⟩⟩ := split_ends.2 s run final
  · exact ⟨s, run, closed⟩
  · have create : event = ⟨"d".toList, "CREATE TABLE t (id int)".toList⟩ ∨
        event = ⟨"e".toList, "CREATE TABLE t (id int)".toList⟩ := by
      simpa [twoTables] using mem
    have parses : ∃ t columns keys,
        parseStatement "CREATE TABLE t (id int)".toList = some (.createTable t columns keys) := ⟨_, _, _, rfl⟩
    obtain ⟨t, columns, keys, parses⟩ := parses
    rcases create with rfl | rfl
    · cases (fails _ parses).1
    · cases (fails _ parses).1

end TdsqlMerge.Splitter
