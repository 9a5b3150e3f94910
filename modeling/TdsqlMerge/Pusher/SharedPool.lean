import Mathlib.Data.List.Nodup
import Mathlib.Data.List.Perm.Basic
import TdsqlMerge.Pusher.SQLPool

/-!
# The pool when the driver fails

Any number of threads call `SQLPool::getSQLInstance` and destroy the instances they got. `kept_iff`: in a run
every open connection is either available or has one instance, and the mutex is free after every call,
exactly if `setAutoCommit` never throws on a connection from the list. A failing `driver->connect` does no harm.
After the other failure the mutex is locked for good (`stays_locked`).
-/

namespace TdsqlMerge.Pusher
open Lib

/-- The number of a thread. -/
abbrev Thread := Nat

/-- The pool, the threads that are in `driver->connect`, and the connections of the instances: those that were
    returned and are not destroyed, and those whose `getSQLInstance` threw, which nobody can destroy. -/
structure SharedPool where
  pool : SQLPool
  connecting : List Thread
  returned : List Connection
  lost : List Connection
  deriving DecidableEq

namespace SharedPool

def new : SharedPool := { pool := .new, connecting := [], returned := [], lost := [] }

/-- `getSQLInstance` up to the end of its critical section, the rest of it if there was no connection, and the
    destructor of an instance. -/
inductive Move where
  | getSQLInstance (thread : Thread) (throws : Bool)
  | connect (thread : Thread) (throws : Bool)
  | deleteInstance (thread : Thread) (i : Nat)
  deriving DecidableEq

def step (s : SharedPool) : Move → Option SharedPool
  | .getSQLInstance thread throws =>
    if s.pool.poolMutex ∨ thread ∈ s.connecting then none
    else match s.pool.getSQLInstance throws with
      | (pool, .connects) => some { s with pool, connecting := s.connecting ++ [thread] }
      | (pool, .gets con) => some { s with pool, returned := s.returned ++ [con] }
      -- the instance was made for the front of the list
      | (pool, .throws) => some { s with pool, lost := s.lost ++ s.pool.availConnection.head?.toList }
  | .connect thread throws =>
    if thread ∈ s.connecting then
      let s := { s with connecting := s.connecting.erase thread }
      if throws then some s
      else some { s with pool := s.pool.connect.1, returned := s.returned ++ [s.pool.connect.2] }
    else none
  | .deleteInstance thread i =>
    if s.pool.poolMutex ∨ thread ∈ s.connecting then none
    else s.returned[i]?.map fun con =>
      { s with pool := s.pool.deleteInstance con, returned := s.returned.eraseIdx i }

/-- A move with the states before and after it. -/
structure Event where
  before : SharedPool
  move : Move
  after : SharedPool

/-- The event of a move. -/
def event (s : SharedPool) (move : Move) : List Event := (s.step move).toList.map (Event.mk s move)

/-- A run: its events, and its last state. -/
def Ran (trace : List Event) (s : SharedPool) : Prop :=
  Emits step event (fun _ _ => True) new trace s

/-- The connections of all live instances. -/
def held (s : SharedPool) : List Connection := s.returned ++ s.lost

/-- Every open connection is either in `availConnection`, once, or has an instance, and one only. -/
def Consistent (s : SharedPool) : Prop :=
  ∀ con < s.pool.opened, s.pool.availConnection.count con = 1 ∧ con ∉ s.held ∨
    con ∉ s.pool.availConnection ∧ s.held.count con = 1

/-- The move ends a call of `getSQLInstance`. -/
def Event.EndsCall (e : Event) : Prop :=
  match e.move with
  | .getSQLInstance .. => e.before.pool.availConnection ≠ []
  | .connect .. => True
  | .deleteInstance .. => False

/-- `setAutoCommit` throws on the front of the list. -/
def Event.FrontThrows (e : Event) : Prop :=
  match e.move with
  | .getSQLInstance _ throws => e.before.pool.availConnection ≠ [] ∧ throws = true
  | _ => False

/-- The pool is consistent in every state of the run, and the mutex is free after every call of
    `getSQLInstance`. -/
structure Kept (trace : List Event) : Prop where
  consistent : ∀ s ∈ new :: trace.map Event.after, s.Consistent
  free : ∀ e ∈ trace, e.EndsCall → e.after.pool.poolMutex = false

/-! ### What a step does -/

/-- What the moves do. -/
inductive Steps (s : SharedPool) : Move → SharedPool → Prop where
  | waits {thread : Thread} {throws : Bool} (free : s.pool.poolMutex = false)
    (empty : s.pool.availConnection = []) :
    Steps s (.getSQLInstance thread throws) { s with connecting := s.connecting ++ [thread] }
  | gets {thread : Thread} {con : Connection} {rest : List Connection} (free : s.pool.poolMutex = false)
    (front : s.pool.availConnection = con :: rest) :
    Steps s (.getSQLInstance thread false)
      { s with pool := { s.pool with availConnection := rest }, returned := s.returned ++ [con] }
  | throws {thread : Thread} {con : Connection} {rest : List Connection} (free : s.pool.poolMutex = false)
    (front : s.pool.availConnection = con :: rest) :
    Steps s (.getSQLInstance thread true)
      { s with pool := { s.pool with poolMutex := true }, lost := s.lost ++ [con] }
  | connects {thread : Thread} :
    Steps s (.connect thread false)
      { s with connecting := s.connecting.erase thread, pool := s.pool.connect.1
               returned := s.returned ++ [s.pool.connect.2] }
  | fails {thread : Thread} :
    Steps s (.connect thread true) { s with connecting := s.connecting.erase thread }
  | deletes {thread : Thread} {i : Nat} {con : Connection} (free : s.pool.poolMutex = false)
    (has : s.returned[i]? = some con) :
    Steps s (.deleteInstance thread i)
      { s with pool := s.pool.deleteInstance con, returned := s.returned.eraseIdx i }

variable {s s' : SharedPool} {move : Move} {trace : List Event} {e : Event}

/-- A critical section is entered with the mutex free. -/
lemma free_of_entered {thread : Thread} {o : Option SharedPool}
    (st : (if s.pool.poolMutex ∨ thread ∈ s.connecting then none else o) = some s') :
    s.pool.poolMutex = false ∧ o = some s' := by
  split at st
  · cases st
  · rename_i enters
    exact ⟨by simpa using (not_or.mp enters).1, st⟩

/-- What `getSQLInstance` of a thread does. -/
lemma getSQLInstance_steps {thread : Thread} {throws : Bool}
    (st : s.step (.getSQLInstance thread throws) = some s') : s.Steps (.getSQLInstance thread throws) s' := by
  obtain ⟨free, st⟩ := free_of_entered st
  cases avail : s.pool.availConnection with
  | nil =>
    rw [SQLPool.getSQLInstance_connects avail] at st
    cases st
    exact .waits free avail
  | cons con rest =>
    cases throws with
    | true =>
      have front : s.pool.availConnection.head?.toList = [con] := by
        rw [avail]
        rfl
      rw [SQLPool.getSQLInstance_throws avail] at st
      dsimp only at st
      rw [front] at st
      cases st
      exact .throws free avail
    | false =>
      rw [SQLPool.getSQLInstance_gets avail] at st
      cases st
      exact .gets free avail

/-- What a move of a thread does. -/
lemma step_steps (st : s.step move = some s') : s.Steps move s' := by
  cases move with
  | getSQLInstance thread throws => exact getSQLInstance_steps st
  | connect thread throws =>
    rw [step] at st
    split at st
    · cases throws with
      | true =>
        cases st
        exact .fails
      | false =>
        cases st
        exact .connects
    · cases st
  | deleteInstance thread i =>
    obtain ⟨free, st⟩ := free_of_entered st
    rw [Option.map_eq_some_iff] at st
    obtain ⟨con, has, st⟩ := st
    cases st
    exact .deletes free has

/-! ### Where the connections are -/

/-- The mutex is free, and every connection that was opened is available or was returned, once. -/
structure Sound (s : SharedPool) : Prop where
  free : s.pool.poolMutex = false
  lost : s.lost = []
  all : (s.pool.availConnection ++ s.returned).Perm (List.range s.pool.opened)

/-- A new pool is sound. -/
lemma new_sound : Sound new := ⟨rfl, rfl, .refl _⟩

/-- A sound pool is consistent. -/
lemma Sound.consistent (sound : Sound s) : s.Consistent := by
  intro con lt
  have once : (s.pool.availConnection ++ s.returned).count con = 1 := by
    rw [sound.all.count_eq]
    exact List.count_eq_one_of_mem List.nodup_range (List.mem_range.mpr lt)
  rw [List.count_append] at once
  rw [held, sound.lost, List.append_nil, ← List.count_eq_zero, ← List.count_eq_zero]
  omega

/-- A step keeps the connections, unless `setAutoCommit` throws. -/
lemma Steps.sound (sound : Sound s) (st : s.Steps move s') (kind : ¬ Event.FrontThrows ⟨s, move, s'⟩) :
    Sound s' := by
  cases st with
  | waits => exact ⟨sound.free, sound.lost, sound.all⟩
  | @gets thread con rest _ front =>
    refine ⟨sound.free, sound.lost, ?_⟩
    have all := sound.all
    rw [front] at all
    have moved : (rest ++ (s.returned ++ [con])).Perm (con :: rest ++ s.returned) := by
      rw [← List.append_assoc, List.cons_append]
      exact List.perm_append_singleton ..
    exact moved.trans all
  | throws _ front => exact absurd ⟨by simp [front], rfl⟩ kind
  | connects =>
    refine ⟨sound.free, sound.lost, ?_⟩
    show (s.pool.availConnection ++ (s.returned ++ [s.pool.opened])).Perm (List.range (s.pool.opened + 1))
    rw [← List.append_assoc, List.range_succ]
    exact sound.all.append_right _
  | fails => exact ⟨sound.free, sound.lost, sound.all⟩
  | @deletes thread i con _ has =>
    refine ⟨sound.free, sound.lost, ?_⟩
    obtain ⟨lt, at_⟩ := List.getElem?_eq_some_iff.mp has
    have rest : (con :: s.returned.eraseIdx i).Perm s.returned := by
      rw [← at_]
      exact List.getElem_cons_eraseIdx_perm lt
    have all : (s.pool.availConnection ++ con :: s.returned.eraseIdx i).Perm (List.range s.pool.opened) :=
      (rest.append_left _).trans sound.all
    show (s.pool.availConnection ++ [con] ++ s.returned.eraseIdx i).Perm (List.range s.pool.opened)
    rw [List.append_assoc]
    exact all

/-! ### Runs -/

/-- Each event of a run is a step. -/
lemma Ran.steps (run : Ran trace s) : ∀ e ∈ trace, e.before.Steps e.move e.after := by
  induction run with
  | refl => exact fun e mem => absurd mem List.not_mem_nil
  | tail _ _ st ih =>
    intro e mem
    rcases List.mem_append.mp mem with mem | mem
    · exact ih e mem
    · rw [event, st] at mem
      cases List.mem_singleton.mp mem
      exact step_steps st

/-- In a run in which `setAutoCommit` does not throw on a connection from the list, all states are sound. -/
lemma Ran.sound (run : Ran trace s) (kind : ∀ e ∈ trace, ¬ e.FrontThrows) :
    Sound s ∧ ∀ e ∈ trace, Sound e.after := by
  induction run with
  | refl => exact ⟨new_sound, fun e mem => absurd mem List.not_mem_nil⟩
  | @tail trace s s' move _ _ st ih =>
    rw [event, st] at kind
    obtain ⟨before, past⟩ := ih fun e mem => kind e (List.mem_append_left _ mem)
    have after : Sound s' :=
      (step_steps st).sound before (kind _ (List.mem_append_right _ (List.mem_singleton.mpr rfl)))
    refine ⟨after, fun e mem => ?_⟩
    rcases List.mem_append.mp mem with mem | mem
    · exact past e mem
    · rw [event, st] at mem
      cases List.mem_singleton.mp mem
      exact after

/-- The pool stays consistent in a run exactly if `setAutoCommit` throws in no call of `getSQLInstance` that finds
    a connection in the list. -/
theorem kept_iff (run : Ran trace s) : Kept trace ↔ ∀ e ∈ trace, ¬ e.FrontThrows := by
  constructor
  · intro kept e mem throws
    obtain ⟨before, move, after⟩ := e
    have st : before.Steps move after := run.steps _ mem
    cases st with
    | throws => cases kept.free _ mem throws.1
    | waits _ empty => exact throws.1 empty
    | gets => cases throws.2
    | _ => exact throws
  · intro kind
    obtain ⟨-, sound⟩ := run.sound kind
    refine ⟨?_, fun e mem _ => (sound e mem).free⟩
    intro s mem
    rcases List.mem_cons.mp mem with rfl | mem
    · exact new_sound.consistent
    · obtain ⟨e, within, rfl⟩ := List.mem_map.mp mem
      exact (sound e within).consistent

/-- The run of a list of moves, with its events. -/
lemma ran_of_moves {moves : List Move} (run : moves.foldlM step new = some s) :
    Ran (outputs step event new moves) s :=
  Emits.of_foldlM _ run

instance : DecidablePred Event.FrontThrows
  | ⟨_, .getSQLInstance .., _⟩ => inferInstanceAs (Decidable (_ ∧ _))
  | ⟨_, .connect .., _⟩ => .isFalse id
  | ⟨_, .deleteInstance .., _⟩ => .isFalse id

/-- Two threads wait for the driver at the same time, it refuses one of them, and the connection of the other
    is used again. -/
def refused : List Move :=
  [.getSQLInstance 0 false, .getSQLInstance 1 false, .connect 0 true, .connect 1 false, .deleteInstance 0 0,
    .getSQLInstance 0 false]

/-- A connection that the server refuses is none the pool loses. -/
theorem refused_kept : ∃ trace s, Ran trace s ∧ s.returned = [0] ∧ Kept trace := by
  have run : ((refused.foldlM step new).any fun s => s.returned = [0] ∧
      ∀ e ∈ outputs step event new refused, ¬ e.FrontThrows) = true := by
    decide +kernel
  obtain ⟨s, run, h⟩ := (Option.any_eq_true _ _).mp run
  obtain ⟨returned, kind⟩ := of_decide_eq_true h
  have ran := ran_of_moves run
  exact ⟨_, s, ran, returned, (kept_iff ran).mpr kind⟩

/-- The connection of a destroyed instance fails when it is used again. -/
def broken : List Move :=
  [.getSQLInstance 0 false, .connect 0 false, .deleteInstance 0 0, .getSQLInstance 1 true]

/-- The mutex is locked after a call of `getSQLInstance`. -/
theorem broken_not_kept : ¬ ∀ trace s, Ran trace s → Kept trace := by
  intro claim
  have run : ((broken.foldlM step new).any fun _ => (outputs step event new broken).any fun e =>
      e.move = .getSQLInstance 1 true ∧ e.before.pool.availConnection ≠ [] ∧
        e.after.pool.poolMutex = true) = true := by
    decide +kernel
  obtain ⟨s, run, last⟩ := (Option.any_eq_true _ _).mp run
  obtain ⟨e, mem, h⟩ := List.any_eq_true.mp last
  obtain ⟨move, avail, locked⟩ := of_decide_eq_true h
  have ends : e.EndsCall := by
    rw [Event.EndsCall, move]
    exact avail
  have free := (claim _ s (ran_of_moves run)).free e mem ends
  rw [locked] at free
  cases free

/-! ### After the failure -/

/-- No critical section is entered while the mutex is locked. -/
lemma Steps.locked (st : s.Steps move s') (locked : s.pool.poolMutex = true) :
    s'.pool.poolMutex = true ∧ s'.pool.availConnection = s.pool.availConnection ∧ s'.lost = s.lost := by
  cases st with
  | connects => exact ⟨locked, rfl, rfl⟩
  | fails => exact ⟨locked, rfl, rfl⟩
  | waits free => cases free.symm.trans locked
  | gets free => cases free.symm.trans locked
  | throws free => cases free.symm.trans locked
  | deletes free => cases free.symm.trans locked

/-- A locked mutex stays locked, and the instance that was lost keeps the connection in the list. -/
theorem stays_locked (run : Lib.Steps step (fun _ _ => True) s s') (locked : s.pool.poolMutex = true) :
    s'.pool.poolMutex = true ∧ s'.pool.availConnection = s.pool.availConnection ∧ s'.lost = s.lost := by
  apply run.invariant ⟨locked, rfl, rfl⟩
  rintro s1 move s2 ⟨locked, avail, lost⟩ _ st
  have same := (step_steps st).locked locked
  rw [avail, lost] at same
  exact same

end SharedPool

end TdsqlMerge.Pusher
