import TdsqlMerge.Pusher.SQLPool

/-!
# The connections of the pushers

`Accounted`: in every state of a run each connection that was opened is in `availConnection` or belongs to the
instance that one of the pushes has not deleted, and is there once. The functions of `Pusher` leave such an
instance to the end: `pushFromFile` does not delete its own. So `gives_back_iff`: a run gives its connections
back exactly as long as no push returns; `opened_le` bounds what is opened by the pushes in progress at one
moment and those that have returned.
-/

namespace TdsqlMerge.Pusher
open Lib

/-! ### What a step does -/

/-- Whether there is an instance after a call, from whether there is one before it. -/
def Call.after : Bool → Call → Option Bool
  | false, .getSQLInstance => some true
  | true, .deleteInstance => some false
  | true, .sql _ => some true
  | true, .trySql _ => some true
  | _, _ => none

/-- What a step of a push does to it and to the pool; an exception that leaves it leaves the connections where
    they are. -/
inductive Push.Steps (pool : SQLPool) (push : Push) : SQLPool → Option Push → Prop where
  | throws {pool' : SQLPool} (avail : pool'.availConnection = pool.availConnection)
    (opened : pool'.opened = pool.opened) : Steps pool push pool' none
  | connects (connecting : push.connecting = true) :
    Steps pool push pool.connect.1 (some (push.takes pool.connect.2))
  | returns (idle : push.connecting = false) (done : push.calls = []) :
    Steps pool push pool (some { push with returned := true })
  | waits {calls : List Call} (idle : push.connecting = false) (next : push.calls = .getSQLInstance :: calls)
    (empty : pool.availConnection = []) : Steps pool push pool (some { push with calls, connecting := true })
  | takes {calls : List Call} {con : Connection} {rest : List Connection} (idle : push.connecting = false)
    (next : push.calls = .getSQLInstance :: calls) (front : pool.availConnection = con :: rest) :
    Steps pool push { pool with availConnection := rest } (some ({ push with calls }.takes con))
  | deletes {calls : List Call} {con : Connection} (idle : push.connecting = false)
    (next : push.calls = .deleteInstance :: calls) (has : push.sqlInstance = some con) :
    Steps pool push (pool.deleteInstance con) (some { push with calls, sqlInstance := none })
  | sql {call : Call} {calls : List Call} (idle : push.connecting = false) (next : push.calls = call :: calls)
    (keeps : call.after true = some true) : Steps pool push pool (some { push with calls })

/-- What a step of a push does. -/
lemma Push.step_steps {pool pool' : SQLPool} {push : Push} {throws : Bool} {o : Option Push}
    (st : push.step pool throws = some (pool', o)) : push.returned = false ∧ push.Steps pool pool' o := by
  rw [Push.step] at st
  split at st
  · cases st
  rename_i running
  refine ⟨by simpa using running, ?_⟩
  -- the push is inside `driver->connect`, at its end, or before a call
  split at st
  · rename_i connecting
    cases throws with
    | true =>
      cases st
      exact .throws rfl rfl
    | false =>
      cases st
      exact .connects connecting
  rename_i idle
  have idle : push.connecting = false := by simpa using idle
  split at st
  · rename_i done
    cases st
    exact .returns idle done
  · rename_i calls next
    split at st
    · cases st
    cases avail : pool.availConnection with
    | nil =>
      rw [SQLPool.getSQLInstance_connects avail] at st
      cases st
      exact .waits idle next avail
    | cons con rest =>
      cases throws with
      | true =>
        rw [SQLPool.getSQLInstance_throws avail] at st
        cases st
        exact .throws rfl rfl
      | false =>
        rw [SQLPool.getSQLInstance_gets avail] at st
        cases st
        exact .takes idle next avail
  · rename_i calls next
    split at st
    · cases st
    rw [Option.map_eq_some_iff] at st
    obtain ⟨con, has, st⟩ := st
    cases st
    exact .deletes idle next has
  · rename_i call calls next
    cases throws with
    | true =>
      cases st
      exact .throws rfl rfl
    | false =>
      cases st
      exact .sql idle next rfl
  · rename_i call calls next
    cases st
    exact .sql idle next rfl

/-- What a step of the program does. -/
inductive Program.Steps (s : Program) : Program → Prop where
  | start (p : Pusher) : Steps s { s with pushes := s.pushes ++ [.start p] }
  | ends {pool : SQLPool} (avail : pool.availConnection = s.pool.availConnection)
    (opened : pool.opened = s.pool.opened) : Steps s { s with pool, terminated := true }
  | step {before after : List Push} {push push' : Push} {pool : SQLPool}
    (pushes : s.pushes = before ++ push :: after) (running : push.returned = false)
    (st : push.Steps s.pool pool (some push')) : Steps s { s with pool, pushes := before ++ push' :: after }

/-- What a step of the program does. -/
lemma Program.step_steps {s s' : Program} {m : Move} (st : s.step m = some s') : s.Steps s' := by
  rw [Program.step.eq_def] at st
  split at st
  · cases st
  cases m with
  | start p =>
    cases st
    exact .start p
  | step i throws =>
    simp only [Option.bind_eq_bind, Option.bind_eq_some_iff] at st
    obtain ⟨push, at_, ⟨pool, o⟩, st, e⟩ := st
    obtain ⟨running, st⟩ := Push.step_steps st
    obtain ⟨lt, at_⟩ := List.getElem?_eq_some_iff.mp at_
    have pushes : s.pushes = s.pushes.take i ++ push :: s.pushes.drop (i + 1) := by
      rw [← at_, List.getElem_cons_drop, List.take_append_drop]
    cases o with
    | none =>
      cases e
      cases st with
      | throws avail opened => exact .ends avail opened
    | some push' =>
      cases e
      dsimp only
      rw [List.set_eq_take_append_cons_drop, if_pos lt]
      exact .step pushes running st

/-! ### The instances of a push -/

section
variable {p : Pusher} {sqls : List Str}

/-- The calls of the INSERTs leave the instance where it is. -/
lemma flushSQLCalls_after : (sqls.flatMap flushSQLCalls).foldlM Call.after true = some true := by
  induction sqls with
  | nil => rfl
  | cons sql sqls ih =>
    rw [List.flatMap_cons, List.foldlM_append]
    exact ih

/-- `createFinalTable` deletes its instance. -/
lemma createFinalTable_after : p.createFinalTable.foldlM Call.after false = some false := rfl

/-- `pushFromFile` does not. -/
lemma pushFromFileCalls_after : p.pushFromFileCalls.foldlM Call.after false = some true := by
  have inserts : (p.inserts.flatMap flushSQLCalls ++ [Call.sql .commit]).foldlM Call.after true = some true := by
    rw [List.foldlM_append, flushSQLCalls_after]
    rfl
  rw [pushFromFileCalls, List.append_assoc, List.foldlM_append]
  exact inserts

/-- A push makes an instance where it has none, and deletes one where it has one, but the last. -/
lemma push_after : p.push.foldlM Call.after false = some true := by
  have last : (p.createFinalTable ++ p.pushFromFileCalls).foldlM Call.after false = some true := by
    rw [List.foldlM_append, createFinalTable_after]
    exact pushFromFileCalls_after
  rw [push, List.append_assoc, List.foldlM_append]
  exact last

end

/-- A push has the instance that its calls expect. -/
structure Push.Fits (push : Push) : Prop where
  calls : push.calls.foldlM Call.after (push.connecting || push.sqlInstance.isSome) = some true
  connecting : push.connecting = true → push.sqlInstance = none
  returned : push.returned = true → push.connecting = false ∧ push.calls = []
  taken : ∀ con, push.sqlInstance = some con → con ∈ push.taken

/-- A push has no instance when it starts. -/
lemma Push.start_fits {p : Pusher} : (Push.start p).Fits where
  calls := push_after
  connecting := fun _ => rfl
  returned := by
    rintro ⟨⟩
  taken := by
    rintro con ⟨⟩

section
variable {pool pool' : SQLPool} {push push' : Push} {call : Call} {calls : List Call}

/-- The next call of a push finds the instance it expects. -/
lemma Push.Fits.after_next (fits : push.Fits) (idle : push.connecting = false) (next : push.calls = call :: calls) :
    ∃ has, call.after push.sqlInstance.isSome = some has ∧ calls.foldlM Call.after has = some true := by
  have all := fits.calls
  rw [idle, Bool.false_or, next, List.foldlM_cons, Option.bind_eq_bind, Option.bind_eq_some_iff] at all
  exact all

/-- `getSQLInstance` is called without an instance. -/
lemma Push.Fits.gets (fits : push.Fits) (idle : push.connecting = false)
    (next : push.calls = .getSQLInstance :: calls) :
    push.sqlInstance = none ∧ calls.foldlM Call.after true = some true := by
  obtain ⟨has, after, all⟩ := fits.after_next idle next
  cases at_ : push.sqlInstance with
  | none =>
    rw [at_] at after
    cases after
    exact ⟨rfl, all⟩
  | some con =>
    rw [at_] at after
    cases after

/-- A push that comes to its end has an instance. -/
lemma Push.Fits.ends (fits : push.Fits) (idle : push.connecting = false) (done : push.calls = []) :
    push.sqlInstance.isSome = true := by
  have all := fits.calls
  rw [idle, Bool.false_or, done] at all
  exact Option.some.inj all

/-- A push that has returned still has its instance. -/
lemma Push.Fits.left (fits : push.Fits) (returned : push.returned = true) : push.sqlInstance.isSome = true :=
  fits.ends (fits.returned returned).1 (fits.returned returned).2

/-- A push that gets the instance its calls expect. -/
lemma Push.takes_fits {con : Connection} (running : push.returned = false)
    (all : push.calls.foldlM Call.after true = some true) : (push.takes con).Fits where
  calls := all
  connecting := by
    rintro ⟨⟩
  returned := by
    intro returned
    cases running.symm.trans returned
  taken := by
    rintro _ ⟨⟩
    exact List.mem_append_right _ List.mem_cons_self

/-- A step leaves a push with the instance that its calls expect. -/
lemma Push.Steps.fits (fits : push.Fits) (running : push.returned = false)
    (st : push.Steps pool pool' (some push')) : push'.Fits := by
  cases st with
  | connects connecting =>
    -- the connection that `driver->connect` returns is the instance from now on
    have all := fits.calls
    rw [connecting, Bool.true_or] at all
    exact takes_fits running all
  | returns idle done => exact ⟨fits.calls, fits.connecting, fun _ => ⟨idle, done⟩, fits.taken⟩
  | waits idle next empty =>
    obtain ⟨absent, all⟩ := fits.gets idle next
    refine ⟨all, fun _ => absent, ?_, fits.taken⟩
    intro returned
    cases running.symm.trans returned
  | @takes calls con rest idle next front =>
    exact @takes_fits { push with calls } con running (fits.gets idle next).2
  | deletes idle next has =>
    obtain ⟨_, after, all⟩ := fits.after_next idle next
    rw [has] at after
    cases after
    refine ⟨?_, fun _ => rfl, ?_, ?_⟩
    · rw [idle]
      exact all
    · intro returned
      cases running.symm.trans returned
    · rintro con ⟨⟩
  | @sql call calls idle next keeps =>
    obtain ⟨has, after, all⟩ := fits.after_next idle next
    cases at_ : push.sqlInstance with
    | none =>
      -- the only call without an instance is `getSQLInstance`
      rw [at_] at after
      cases call with
      | getSQLInstance => cases keeps
      | deleteInstance => cases after
      | sql => cases after
      | trySql => cases after
    | some con =>
      rw [at_, Option.isSome_some, keeps] at after
      cases after
      refine ⟨?_, ?_, ?_, fun c has => fits.taken c (at_.trans has)⟩
      · rw [idle]
        exact all
      · intro connecting
        cases idle.symm.trans connecting
      · intro returned
        cases running.symm.trans returned

/-- A step moves connections between the pool and the instance, and opens at most one. -/
lemma Push.Steps.moves (fits : push.Fits) (st : push.Steps pool pool' (some push')) : ∃ fresh,
    (pool'.availConnection ++ push'.sqlInstance.toList).Perm
      (pool.availConnection ++ push.sqlInstance.toList ++ fresh) ∧
    List.range pool'.opened = List.range pool.opened ++ fresh := by
  cases st with
  | connects connecting =>
    refine ⟨[pool.opened], ?_, List.range_succ⟩
    rw [fits.connecting connecting]
    exact .of_eq (by simp [SQLPool.connect, Push.takes])
  | returns => exact ⟨[], .of_eq (List.append_nil _).symm, (List.append_nil _).symm⟩
  | waits => exact ⟨[], .of_eq (List.append_nil _).symm, (List.append_nil _).symm⟩
  | takes idle next front =>
    refine ⟨[], ?_, (List.append_nil _).symm⟩
    rw [(fits.gets idle next).1, front]
    simp [Push.takes]
  | deletes idle next has =>
    refine ⟨[], ?_, (List.append_nil _).symm⟩
    rw [has]
    exact .of_eq (by simp [SQLPool.deleteInstance])
  | sql => exact ⟨[], .of_eq (List.append_nil _).symm, (List.append_nil _).symm⟩

/-- A step that asks the driver for another connection finds none in the pool. -/
lemma Push.Steps.demand (st : push.Steps pool pool' (some push')) :
    pool'.opened + (if push'.connecting = true then 1 else 0) ≤
      pool.opened + (if push.connecting = true then 1 else 0) ∨ pool'.availConnection = [] := by
  cases st with
  | connects connecting =>
    left
    rw [if_pos connecting]
    exact Nat.le_refl _
  | returns => exact .inl (Nat.le_refl _)
  | waits idle next empty => exact .inr empty
  | takes => exact .inl (Nat.le_add_right _ _)
  | deletes => exact .inl (Nat.le_refl _)
  | sql => exact .inl (Nat.le_refl _)

end

/-! ### Runs -/

namespace Program

/-- The connections of the instances that the pushes have not deleted. -/
def held (s : Program) : List Connection := s.pushes.flatMap fun push => push.sqlInstance.toList

/-- The number of pushes in `driver->connect`. -/
def connecting (s : Program) : Nat := s.pushes.countP Push.connecting

/-- The number of pushes that have returned. -/
def returned (s : Program) : Nat := s.pushes.countP Push.returned

/-- Every connection that was opened is once in `availConnection` or in an instance. -/
structure Accounted (s : Program) : Prop where
  fits : ∀ push ∈ s.pushes, push.Fits
  all : (s.pool.availConnection ++ s.held).Perm (List.range s.pool.opened)

variable {s s' : Program} {past : List Program}

/-- In a new program no connection is out. -/
lemma new_accounted : Accounted new where
  fits := fun _ mem => absurd mem List.not_mem_nil
  all := .refl _

/-- A step keeps the account of the connections. -/
lemma Steps.accounted (acc : Accounted s) (st : s.Steps s') : Accounted s' := by
  cases st with
  | start p =>
    refine ⟨?_, ?_⟩
    · intro push mem
      rcases List.mem_append.mp mem with mem | mem
      · exact acc.fits push mem
      · rw [List.mem_singleton.mp mem]
        exact Push.start_fits
    · have held : ({ s with pushes := s.pushes ++ [.start p] } : Program).held = s.held := by
        rw [Program.held, List.flatMap_append]
        exact List.append_nil _
      rw [held]
      exact acc.all
  | ends avail opened =>
    refine ⟨acc.fits, ?_⟩
    rw [avail, opened]
    exact acc.all
  | @step before after push push' pool pushes running st =>
    have fits : push.Fits := acc.fits push (by rw [pushes]; exact List.mem_append_right _ List.mem_cons_self)
    refine ⟨?_, ?_⟩
    · intro x mem
      rcases List.mem_append.mp mem with mem | mem
      · exact acc.fits x (by rw [pushes]; exact List.mem_append_left _ mem)
      · rcases List.mem_cons.mp mem with rfl | mem
        · exact Push.Steps.fits fits running st
        · exact acc.fits x (by rw [pushes]; exact List.mem_append_right _ (List.mem_cons_of_mem _ mem))
    · obtain ⟨fresh, moves, range⟩ := Push.Steps.moves fits st
      have all := acc.all
      rw [List.perm_iff_count] at moves all ⊢
      intro con
      have moves := moves con
      have all := all con
      rw [Program.held, pushes] at all
      rw [range, Program.held]
      simp only [List.flatMap_append, List.flatMap_cons, List.count_append] at moves all ⊢
      omega

/-- In every run the account of the connections holds. -/
lemma Ran.accounted (run : Ran past s) : Accounted s := by
  induction run with
  | refl => exact new_accounted
  | tail _ _ st ih => exact (step_steps st).accounted ih

/-- Every push is in progress or has returned. -/
lemma length_pushes : s.pushes.length = s.inProgress + s.returned := by
  rw [List.length_eq_countP_add_countP Push.returned, Program.inProgress, Program.returned, Nat.add_comm]
  simp

/-- The connections held are those of the pushes with an instance. -/
lemma held_length : s.held.length = s.pushes.countP fun push => push.sqlInstance.isSome := by
  rw [Program.held]
  induction s.pushes with
  | nil => rfl
  | cons push pushes ih =>
    rw [List.flatMap_cons, List.length_append, ih, List.countP_cons, Nat.add_comm]
    cases push.sqlInstance <;> rfl

/-- A push that has an instance does not wait for another. -/
lemma Accounted.demand (acc : Accounted s) : s.held.length + s.connecting ≤ s.pushes.length := by
  have waiting : s.connecting ≤ s.pushes.countP fun push => ¬ push.sqlInstance.isSome = true := by
    apply List.countP_mono_left
    intro push mem connecting
    simp [(acc.fits push mem).connecting connecting]
  have all := List.length_eq_countP_add_countP (fun push : Push => push.sqlInstance.isSome) (l := s.pushes)
  rw [held_length]
  omega

/-- A step takes back no return. -/
lemma Steps.returned_le (st : s.Steps s') : s.returned ≤ s'.returned := by
  cases st with
  | start p =>
    rw [Program.returned, Program.returned, List.countP_append]
    exact Nat.le_add_right _ _
  | ends => exact Nat.le_refl _
  | step pushes running st =>
    rw [Program.returned, pushes, Program.returned]
    rw [List.countP_append, List.countP_append, List.countP_cons, List.countP_cons, running, if_neg Bool.false_ne_true]
    omega

/-- A step opens a connection only when none is available. -/
lemma Steps.demand (st : s.Steps s') :
    s'.pool.opened + s'.connecting ≤ s.pool.opened + s.connecting ∨ s'.pool.availConnection = [] := by
  cases st with
  | start p =>
    left
    rw [Program.connecting, List.countP_append]
    exact Nat.le_refl _
  | ends avail opened =>
    left
    rw [opened]
    exact Nat.le_refl _
  | step pushes running st =>
    rcases st.demand with le | empty
    · left
      rw [Program.connecting, Program.connecting, pushes]
      rw [List.countP_append, List.countP_append, List.countP_cons, List.countP_cons]
      dsimp only
      omega
    · exact .inr empty

/-- The pool opens no more connections than there are pushes in progress at one moment and pushes that have
    returned. -/
theorem opened_le (run : Ran past s) :
    ∃ m ∈ past ++ [s], s.pool.opened + s.connecting ≤ m.inProgress + s.returned := by
  induction run with
  | refl => exact ⟨new, List.mem_cons_self, Nat.le_refl _⟩
  | @tail past s s' _ run _ st ih =>
    have acc := (step_steps st).accounted (Ran.accounted run)
    rcases (step_steps st).demand with le | empty
    · obtain ⟨m, mem, bound⟩ := ih
      have returned := (step_steps st).returned_le
      exact ⟨m, List.mem_append_left _ mem, by omega⟩
    · refine ⟨s', List.mem_append_right _ List.mem_cons_self, ?_⟩
      have all := acc.all.length_eq
      rw [empty, List.nil_append, List.length_range] at all
      rw [← all, ← length_pushes]
      exact acc.demand

/-- Each push that has returned has cost a connection. -/
theorem returned_le_opened (run : Ran past s) : s.returned ≤ s.pool.opened := by
  have acc := run.accounted
  have all := acc.all.length_eq
  rw [List.length_append, List.length_range] at all
  have left : s.returned ≤ s.held.length := by
    rw [held_length]
    exact List.countP_mono_left fun push mem returned => (acc.fits push mem).left returned
  omega

/-- The number of pushes that have returned does not fall. -/
lemma Ran.returned_le (run : Ran past s) : ∀ m ∈ past ++ [s], m.returned ≤ s.returned := by
  induction run with
  | refl =>
    intro m mem
    rw [List.mem_singleton.mp mem]
  | tail run _ st ih =>
    intro m mem
    rcases List.mem_append.mp mem with mem | mem
    · exact (ih m mem).trans (step_steps st).returned_le
    · rw [List.mem_singleton.mp mem]

/-! ### Pushes that return -/

/-- A step from the first state to the second in which the push returns. -/
structure Returns (s s' : Program) (i : Nat) (push : Push) : Prop where
  before : ∃ push, s.pushes[i]? = some push ∧ push.returned = false
  after : s'.pushes[i]? = some push
  returned : push.returned = true

/-- The push that returns keeps the connection that `pushFromFile` took. -/
lemma Accounted.keeps {i : Nat} {push : Push} (acc : s'.Accounted) (ret : Returns s s' i push) :
    ∃ con ∈ push.taken, con ∉ s'.pool.availConnection := by
  have mem := List.mem_of_getElem? ret.after
  have fits := acc.fits push mem
  obtain ⟨con, has⟩ := Option.isSome_iff_exists.mp (fits.left ret.returned)
  refine ⟨con, fits.taken con has, fun avail => ?_⟩
  have nodup := acc.all.nodup_iff.mpr List.nodup_range
  have held : con ∈ s'.held := List.mem_flatMap.mpr ⟨push, mem, by rw [has]; exact List.mem_singleton.mpr rfl⟩
  exact (List.nodup_append.mp nodup).2.2 con avail con held rfl

/-- A push that has returned was there before the step. -/
lemma Steps.there {i : Nat} {push : Push} (st : s.Steps s') (at_ : s'.pushes[i]? = some push)
    (returned : push.returned = true) : ∃ push, s.pushes[i]? = some push := by
  cases st with
  | start p =>
    by_cases lt : i < s.pushes.length
    · exact ⟨_, List.getElem?_eq_getElem lt⟩
    · rw [List.getElem?_append_right (Nat.le_of_not_lt lt), List.getElem?_singleton] at at_
      split at at_
      · cases at_
        cases returned
      · cases at_
  | ends => exact ⟨push, at_⟩
  | @step before after old new pool pushes running st =>
    have lt : i < s.pushes.length := by
      have lt := (List.getElem?_eq_some_iff.mp at_).1
      rw [pushes]
      simpa using lt
    exact ⟨_, List.getElem?_eq_getElem lt⟩

/-- A push that has returned did so in a step of the run. -/
lemma Ran.returns {i : Nat} {push : Push} (run : Ran past s) (at_ : s.pushes[i]? = some push)
    (returned : push.returned = true) :
    ∃ s1 s2 push, [s1, s2] <:+: past ++ [s] ∧ Accounted s2 ∧ Returns s1 s2 i push := by
  induction run generalizing push with
  | refl => cases at_
  | @tail past s s' _ run _ st ih =>
    obtain ⟨old, before⟩ := (step_steps st).there at_ returned
    cases was : old.returned with
    | true =>
      obtain ⟨s1, s2, push, within, acc, ret⟩ := ih before was
      exact ⟨s1, s2, push, within.trans (List.prefix_append _ _).isInfix, acc, ret⟩
    | false =>
      refine ⟨s, s', push, ⟨past, [], by simp⟩, Ran.accounted (run.tail trivial st), ?_⟩
      exact ⟨⟨old, before, was⟩, at_, returned⟩

/-- When a push returns, the connections it took are available again; and the pool opened no more connections
    than there were pushes in progress at one moment. -/
structure GivesBack (past : List Program) (s : Program) : Prop where
  returns : ∀ s1 s2 i push, [s1, s2] <:+: past ++ [s] → Returns s1 s2 i push →
    ∀ con ∈ push.taken, con ∈ s2.pool.availConnection
  bounded : ∃ m ∈ past ++ [s], s.pool.opened ≤ m.inProgress

/-- A run gives its connections back exactly if none of its pushes has returned. -/
theorem gives_back_iff (run : Ran past s) :
    GivesBack past s ↔ ∀ push ∈ s.pushes, push.returned = false := by
  constructor
  · intro gives push mem
    by_contra ne
    have returned : push.returned = true := by simpa using ne
    obtain ⟨i, at_⟩ := List.mem_iff_getElem?.mp mem
    obtain ⟨s1, s2, push, within, acc, ret⟩ := run.returns at_ returned
    obtain ⟨con, taken, lost⟩ := acc.keeps ret
    exact lost (gives.returns s1 s2 i push within ret con taken)
  · intro running
    have none : s.returned = 0 := List.countP_eq_zero.mpr fun push mem => by simp [running push mem]
    refine ⟨?_, ?_⟩
    · intro s1 s2 i push within ret
      -- a push that returns on the way has returned in the end
      have mem : s2 ∈ past ++ [s] := within.subset (List.mem_cons_of_mem _ List.mem_cons_self)
      have le := run.returned_le s2 mem
      have pos : 0 < s2.returned :=
        List.countP_pos_iff.mpr ⟨push, List.mem_of_getElem? ret.after, ret.returned⟩
      omega
    · obtain ⟨m, mem, bound⟩ := opened_le run
      exact ⟨m, mem, by omega⟩

/-! ### Two tables -/

/-- A table with two rows, each in a statement of its own. -/
def table (name : String) : Pusher :=
  { dbName := "a".toList, tableName := name.toList, finalTable := "CREATE TABLE t (x int)".toList
    finalTableCols := "x\n".toList, result := "'1'\n'2'\n".toList, threshold := 1 }

/-- The steps of push `i`, whose CREATE and first batch fail; they include one of `driver->connect`. -/
def pushMoves (i : Nat) : List Move :=
  List.replicate 9 (.step i false) ++ [.step i true] ++ List.replicate 5 (.step i false) ++ [.step i true] ++
    List.replicate 4 (.step i false)

/-- One push up to its return. -/
def onePush : List Move := .start (table "t") :: pushMoves 0

/-- The run of a list of moves, with its states. -/
lemma ran_of_moves {moves : List Move} (run : moves.foldlM step new = some s) :
    Ran (outputs step (fun s _ => [s]) new moves) s :=
  Emits.of_foldlM _ run

/-- A push before its return. -/
theorem onePush_gives_back : ∃ past s, Ran past s ∧ s.pushes.map Push.calls = [[]] ∧ GivesBack past s := by
  have run : ((onePush.foldlM step new).any fun s =>
      s.pushes.map Push.calls = [[]] ∧ ∀ push ∈ s.pushes, push.returned = false) = true := by
    decide +kernel
  obtain ⟨s, run, h⟩ := (Option.any_eq_true _ _).mp run
  obtain ⟨calls, running⟩ := of_decide_eq_true h
  have ran := ran_of_moves run
  exact ⟨_, s, ran, calls, (gives_back_iff ran).mpr running⟩

/-- A push that returns, and then another one. -/
def twoPushes : List Move :=
  onePush ++ [.step 0 false, .start (table "u")] ++ pushMoves 1 ++ [.step 1 false]

/-- One table after the other: two connections are opened, with one push in progress at any moment. -/
theorem twoPushes_leak : ¬ ∀ past s, Ran past s → GivesBack past s := by
  intro claim
  have run : ((twoPushes.foldlM step new).any fun s => s.pool.opened = 2 ∧
      ∀ m ∈ outputs step (fun s _ => [s]) new twoPushes ++ [s], m.inProgress ≤ 1) = true := by
    decide +kernel
  obtain ⟨s, run, h⟩ := (Option.any_eq_true _ _).mp run
  obtain ⟨opened, alone⟩ := of_decide_eq_true h
  obtain ⟨m, mem, bound⟩ := (claim _ s (ran_of_moves run)).bounded
  have one := alone m mem
  omega

end Program

end TdsqlMerge.Pusher
