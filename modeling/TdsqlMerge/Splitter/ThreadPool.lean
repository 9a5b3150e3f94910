import Mathlib.Data.List.Basic
import Mathlib.Tactic.ByContra
import Mathlib.Tactic.SplitIfs
import TdsqlMerge.Basic

/-!
# The executors

Embedding of `extfetcher/src/LimitedQueue.java` and of what `EventDealer` uses of
`java.util.concurrent.ThreadPoolExecutor`, with as many core threads as threads. `execute` starts a thread
while there are fewer than the core, and else offers the task to the queue; `LimitedQueue.offer` is `put`,
which blocks while the queue is full. A task is named by what it works on. An interrupt is left out, as no
thread is interrupted.
-/

namespace TdsqlMerge.Splitter

/-- `LimitedQueue`, with its capacity and its elements. -/
structure LimitedQueue (α : Type) where
  maxSize : Nat
  elements : List α

variable {α : Type}

/-- `LimitedQueue.LimitedQueue`. -/
def LimitedQueue.new (maxSize : Nat) : LimitedQueue α := { maxSize, elements := [] }

/-- `LimitedQueue.offer`; `none` while it blocks. -/
def LimitedQueue.offer (q : LimitedQueue α) (e : α) : Option (LimitedQueue α) :=
  if q.elements.length < q.maxSize then some { q with elements := q.elements ++ [e] } else none

/-- A `ThreadPoolExecutor`: the number of its threads, and the tasks that they are at. -/
structure ThreadPoolExecutor (α : Type) where
  corePoolSize : Nat
  workQueue : LimitedQueue α
  threads : Nat
  running : List α
  isShutdown : Bool

/-- What a call of `execute` does. -/
inductive Submission (α : Type) where
  | accepted (executor : ThreadPoolExecutor α)
  /-- The call waits for the queue. -/
  | blocked
  /-- `RejectedExecutionException`. -/
  | rejected

namespace ThreadPoolExecutor

/-- `new ThreadPoolExecutor(n, n, 0L, TimeUnit.MILLISECONDS, new LimitedQueue<>(maxSize))`. -/
def new (corePoolSize maxSize : Nat) : ThreadPoolExecutor α :=
  { corePoolSize, workQueue := .new maxSize, threads := 0, running := [], isShutdown := false }

/-- The tasks that are not done, in the order in which they came. -/
def tasks (p : ThreadPoolExecutor α) : List α := p.running ++ p.workQueue.elements

/-- `execute`. -/
def execute (p : ThreadPoolExecutor α) (task : α) : Submission α :=
  if p.isShutdown then .rejected
  else if p.threads < p.corePoolSize then
    .accepted { p with threads := p.threads + 1, running := p.running ++ [task] }
  else match p.workQueue.offer task with
    | some workQueue => .accepted { p with workQueue }
    | none => .blocked

/-- `getTask` of a thread that is at no task. -/
def getTask (p : ThreadPoolExecutor α) : Option (ThreadPoolExecutor α) :=
  match p.workQueue.elements with
  | task :: elements =>
    if p.running.length < p.threads then
      some { p with running := p.running ++ [task], workQueue := { p.workQueue with elements } }
    else none
  | [] => none

/-- A thread is done with its task. -/
def afterExecute [DecidableEq α] (p : ThreadPoolExecutor α) (task : α) : Option (ThreadPoolExecutor α) :=
  if task ∈ p.running then some { p with running := p.running.erase task } else none

/-- `shutdown`. -/
def shutdown (p : ThreadPoolExecutor α) : ThreadPoolExecutor α := { p with isShutdown := true }

/-- The threads are no more than the core and each at one task at most; tasks wait only when all threads are
    there, and no more than the queue has room for. -/
structure Fits (p : ThreadPoolExecutor α) : Prop where
  core : 0 < p.corePoolSize
  room : 0 < p.workQueue.maxSize
  threads : p.threads ≤ p.corePoolSize
  running : p.running.length ≤ p.threads
  queue : p.workQueue.elements.length ≤ p.workQueue.maxSize
  full : p.workQueue.elements ≠ [] → p.threads = p.corePoolSize

variable {p p' : ThreadPoolExecutor α} {task : α}

/-- A new executor has no thread and no task. -/
lemma Fits.new {corePoolSize maxSize : Nat} (core : 0 < corePoolSize) (room : 0 < maxSize) :
    Fits (.new corePoolSize maxSize : ThreadPoolExecutor α) :=
  ⟨core, room, Nat.zero_le _, Nat.le_refl _, Nat.zero_le _, fun queue => absurd rfl queue⟩

/-- What a call of `execute` that returns has done: the task runs on a new thread or is the last one in the
    queue. -/
lemma execute_accepted (ex : p.execute task = .accepted p') :
    p.isShutdown = false ∧
      (p.threads < p.corePoolSize ∧ p' = { p with threads := p.threads + 1, running := p.running ++ [task] } ∨
        p.corePoolSize ≤ p.threads ∧ p.workQueue.elements.length < p.workQueue.maxSize ∧
          p' = { p with workQueue := { p.workQueue with elements := p.workQueue.elements ++ [task] } }) := by
  rw [execute] at ex
  split at ex
  · cases ex
  · rename_i opened
    refine ⟨by simpa using opened, ?_⟩
    split at ex
    · rename_i lt
      exact .inl ⟨lt, (Submission.accepted.inj ex).symm⟩
    · rename_i le
      rw [LimitedQueue.offer] at ex
      split_ifs at ex with room
      · exact .inr ⟨Nat.le_of_not_lt le, room, (Submission.accepted.inj ex).symm⟩

/-- A call of `execute` waits only for a full queue. -/
lemma execute_blocked (fits : p.Fits) (ex : p.execute task = .blocked) :
    p.workQueue.elements ≠ [] := by
  rw [execute] at ex
  split at ex
  · cases ex
  · split at ex
    · cases ex
    · rw [LimitedQueue.offer] at ex
      split_ifs at ex with room
      · have := fits.room
        rintro empty
        rw [empty, List.length_nil] at room
        exact room this

/-- A task is rejected once the executor is shut down. -/
lemma execute_rejected : p.execute task = .rejected ↔ p.isShutdown = true := by
  rw [execute]
  split
  · rename_i closed
    exact ⟨fun _ => closed, fun _ => rfl⟩
  · rename_i opened
    refine ⟨fun ex => ?_, fun closed => absurd closed opened⟩
    split at ex
    · cases ex
    · split at ex <;> cases ex

/-- The task of an accepted call comes last. -/
lemma Fits.execute_tasks (fits : p.Fits) (ex : p.execute task = .accepted p') : p'.tasks = p.tasks ++ [task] := by
  obtain ⟨_, ⟨lt, rfl⟩ | ⟨_, _, rfl⟩⟩ := execute_accepted ex
  · have empty : p.workQueue.elements = [] := by
      by_contra some
      exact absurd (fits.full some) (Nat.ne_of_lt lt)
    simp only [tasks, empty, List.append_nil]
  · exact (List.append_assoc _ _ _).symm

/-- Accepting a task keeps the threads and the queue within their bounds. -/
lemma Fits.execute (fits : p.Fits) (ex : p.execute task = .accepted p') : p'.Fits := by
  obtain ⟨_, ⟨lt, rfl⟩ | ⟨le, room, rfl⟩⟩ := execute_accepted ex
  · refine ⟨fits.core, fits.room, lt, ?_, fits.queue, fun some => ?_⟩
    · have := fits.running
      simp only [List.length_append, List.length_singleton]
      omega
    · exact absurd (fits.full some) (Nat.ne_of_lt lt)
  · refine ⟨fits.core, fits.room, fits.threads, fits.running, ?_, fun _ => Nat.le_antisymm fits.threads le⟩
    simp only [List.length_append, List.length_singleton]
    omega

/-- A thread takes the first task of the queue. -/
lemma getTask_some (took : p.getTask = some p') :
    ∃ task elements, p.workQueue.elements = task :: elements ∧ p.running.length < p.threads ∧
      p' = { p with running := p.running ++ [task], workQueue := { p.workQueue with elements } } := by
  rw [getTask] at took
  split at took
  · rename_i task elements queue
    split_ifs at took with idle
    exact ⟨task, elements, queue, idle, (Option.some.inj took).symm⟩
  · cases took

/-- Taking a task from the queue keeps the tasks. -/
lemma getTask_tasks (took : p.getTask = some p') : p'.tasks = p.tasks := by
  obtain ⟨task, elements, queue, _, rfl⟩ := getTask_some took
  simp only [tasks, queue, List.append_assoc, List.singleton_append]

/-- Taking a task keeps the threads and the queue within their bounds. -/
lemma Fits.getTask (fits : p.Fits) (took : p.getTask = some p') : p'.Fits := by
  obtain ⟨task, elements, queue, idle, rfl⟩ := getTask_some took
  have le := fits.queue
  rw [queue, List.length_cons] at le
  refine ⟨fits.core, fits.room, fits.threads, ?_, Nat.le_of_succ_le le, fun _ => ?_⟩
  · simp only [List.length_append, List.length_singleton]
    omega
  · exact fits.full (by rw [queue]; exact List.cons_ne_nil _ _)

section
variable [DecidableEq α]

/-- The task that ends was running. -/
lemma afterExecute_some (ended : p.afterExecute task = some p') :
    task ∈ p.running ∧ p' = { p with running := p.running.erase task } := by
  rw [afterExecute] at ended
  split_ifs at ended with mem
  exact ⟨mem, (Option.some.inj ended).symm⟩

/-- The task that ends is no longer there. -/
lemma afterExecute_tasks (ended : p.afterExecute task = some p') : p'.tasks = p.tasks.erase task := by
  obtain ⟨mem, rfl⟩ := afterExecute_some ended
  exact (List.erase_append_left _ mem).symm

/-- The task that ends makes one less. -/
lemma afterExecute_length (ended : p.afterExecute task = some p') : p'.tasks.length + 1 = p.tasks.length := by
  have mem : task ∈ p.tasks := List.mem_append_left _ (afterExecute_some ended).1
  have pos := List.length_pos_of_mem mem
  rw [afterExecute_tasks ended, List.length_erase_of_mem mem]
  omega

/-- Ending a task keeps the threads and the queue within their bounds. -/
lemma Fits.afterExecute (fits : p.Fits) (ended : p.afterExecute task = some p') : p'.Fits := by
  obtain ⟨_, rfl⟩ := afterExecute_some ended
  refine ⟨fits.core, fits.room, fits.threads, ?_, fits.queue, fits.full⟩
  exact Nat.le_trans (List.erase_sublist.length_le) fits.running

/-- While there are tasks, one is being worked on or a thread is free to take one. -/
lemma Fits.busy (fits : p.Fits) (waiting : p.tasks ≠ []) :
    (∃ task ∈ p.running, ∃ p', p.afterExecute task = some p') ∨ p.running = [] ∧ ∃ p', p.getTask = some p' := by
  rcases e : p.running with _ | ⟨task, running⟩
  · right
    rw [tasks, e, List.nil_append] at waiting
    obtain ⟨first, elements, queue⟩ := List.exists_cons_of_ne_nil waiting
    have threads := fits.full waiting
    have core := fits.core
    refine ⟨rfl, ?_⟩
    rw [ThreadPoolExecutor.getTask, queue]
    dsimp only
    rw [if_pos (by rw [e, List.length_nil]; omega)]
    exact ⟨_, rfl⟩
  · left
    have mem : task ∈ p.running := by
      rw [e]
      exact List.mem_cons_self
    refine ⟨task, List.mem_cons_self, ?_⟩
    rw [ThreadPoolExecutor.afterExecute, if_pos mem]
    exact ⟨_, rfl⟩

end

/-- What is left to do with the tasks. -/
def left (p : ThreadPoolExecutor α) : Nat := p.running.length + 2 * p.workQueue.elements.length

/-- A new task leaves two steps more at most. -/
lemma left_execute (ex : p.execute task = .accepted p') : p'.left ≤ p.left + 2 := by
  obtain ⟨_, ⟨_, rfl⟩ | ⟨_, _, rfl⟩⟩ := execute_accepted ex <;>
    simp only [left, List.length_append, List.length_singleton] <;> omega

/-- Taking a task leaves one step less. -/
lemma left_getTask (took : p.getTask = some p') : p'.left + 1 = p.left := by
  obtain ⟨task, elements, queue, _, rfl⟩ := getTask_some took
  simp only [left, queue, List.length_append, List.length_cons, List.length_nil]
  omega

/-- Ending a task leaves one step less. -/
lemma left_afterExecute [DecidableEq α] (ended : p.afterExecute task = some p') : p'.left + 1 = p.left := by
  obtain ⟨mem, rfl⟩ := afterExecute_some ended
  have len := List.length_erase_of_mem mem
  have pos := List.length_pos_of_mem mem
  simp only [left, len]
  omega

end ThreadPoolExecutor

end TdsqlMerge.Splitter
