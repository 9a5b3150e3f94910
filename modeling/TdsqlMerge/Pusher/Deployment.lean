import Mathlib.Data.List.Nodup
import TdsqlMerge.Lib.Ending
import TdsqlMerge.Pusher.Landing

/-!
# All tables on the server

`Worker::work` posts a push for each table to the pusher pool, whose threads make the calls of their pushes in any
order. Other pushes do not change the table or the session of a push (`Server.Only`), so each goes on as if it were
alone (`Doing`). The handler of `flushSQL` prints what the server refuses; `answers` says for each push which of its
INSERTs went in.
-/

namespace TdsqlMerge.Pusher
open Lib Store

/-- Whether the server took the INSERT that the push was at, if it was at one. -/
def Push.noted (push : Push) (throws : Bool) : List Bool :=
  if push.connecting then []
  else match push.calls with
    | .trySql (.executeRaw content) :: _ => if (readInto content).isSome then [!throws] else []
    | _ => []

/-- The tables that are still to be merged, the pushes that were posted, those that a thread has taken, and for each of
    these which of the INSERTs it has sent the server took. -/
structure Deployment {d : Dialect} (srv : Server d) where
  works : List Pusher
  queue : List Pusher
  started : List Pusher
  answers : List (List Bool)
  program : Program
  server : srv.State

namespace Deployment
variable {d : Dialect} {srv : Server d}

/-- Before the first push. -/
def new (works : List Pusher) (server : srv.State) : Deployment srv :=
  { works, queue := [], started := [], answers := [], program := .new, server }

/-- A turn of the main thread, of the pool or of a push. -/
inductive Turn where
  | post
  | take
  | step (i : Nat) (fails : Bool)

/-- Whether the call of the turn fails. -/
def Turn.fails : Turn → Bool
  | .step _ fails => fails
  | _ => false

/-- `SubWorker::work` posts its push, a thread of the pusher pool takes one, or goes on with the one it has. -/
def step (srv : Server d) (threads : Nat) (s : Deployment srv) : Turn → Option (Deployment srv)
  | .post =>
    if s.program.terminated then none
    else match s.works with
      | [] => none
      | p :: works => some { s with works, queue := s.queue ++ [p] }
  | .take =>
    match s.queue with
    | [] => none
    | p :: queue =>
      if s.program.inProgress < threads then
        (s.program.step (.start p)).map fun program =>
          { s with queue, started := s.started ++ [p], answers := s.answers ++ [[]], program }
      else none
  | .step i fails => do
    let push ← s.program.pushes[i]?
    let (server, throws) := srv.answer s.server s.program.pool push fails
    let program ← s.program.step (.step i throws)
    some { s with program, server, answers := s.answers.modify i (· ++ push.noted throws) }

end Deployment

/-! ### One push among others -/

/-- The calls that a push has to make, with the one it waits in. -/
def Push.ahead (push : Push) : List Call := if push.connecting then .getSQLInstance :: push.calls else push.calls

/-- The calls that a push has to make lead on from where it is, after these answers. -/
def Doing (d : Dialect) (p : Pusher) (safe goal : Stage → Prop) (s : Seen) (push : Push) (answers : List Bool) : Prop :=
  ∃ g, Along (Stage.step d p) safe goal push.ahead g ∧ s.Stands p.name push.sqlInstance g ∧ g.answers = answers

/-- A session with no pending rows. -/
def Seen.Idle (s : Seen) (con : Connection) : Prop := (s.sessions con).pending = fun _ => []

section
variable {d : Dialect} {srv : Server d} {x : srv.State} {p : Pusher} {s s' : Seen} {pool pool' : SQLPool}
  {push : Push} {calls : List Call} {call : SQLCall} {con : Connection} {rest : List Connection} {fails : Bool}
  {safe goal : Stage → Prop} {name : TableName} {g g' : Stage} {answers : List Bool} {throws : Bool}

namespace Server

/-- The answer to a push that waits for its connection. -/
lemma answer_connecting (connecting : push.connecting = true) :
    srv.answer x pool push fails = (if fails then x else srv.connect x pool.opened, fails) := if_pos connecting

/-- A push without calls asks nothing of the server. -/
lemma answer_done (idle : push.connecting = false) (done : push.calls = []) :
    srv.answer x pool push fails = (x, fails) := by
  rw [answer, idle, done]
  rfl

/-- A push that finds no connection asks nothing of the server. -/
lemma answer_waits (idle : push.connecting = false) (next : push.calls = .getSQLInstance :: calls)
    (empty : pool.availConnection = []) : srv.answer x pool push fails = (x, fails) := by
  rw [answer, idle, next, empty]
  rfl

/-- A push that takes a connection switches it to autocommit. -/
lemma answer_takes (idle : push.connecting = false) (next : push.calls = .getSQLInstance :: calls)
    (front : pool.availConnection = con :: rest) : srv.answer x pool push fails =
      (if fails then x else (srv.call x con (.setAutoCommit true)).getD x, fails) := by
  rw [answer, idle, next, front]
  rfl

/-- `deleteInstance` asks nothing of the server. -/
lemma answer_deletes (idle : push.connecting = false) (next : push.calls = .deleteInstance :: calls) :
    srv.answer x pool push fails = (x, fails) := by
  rw [answer, idle, next]
  rfl

/-- The answer to a call without a handler. -/
lemma answer_sql (idle : push.connecting = false) (next : push.calls = .sql call :: calls)
    (has : push.sqlInstance = some con) : srv.answer x pool push fails =
      if fails then (x, true) else ((srv.call x con call).getD x, (srv.call x con call).isNone) := by
  rw [answer, idle, next, has]
  rfl

/-- The answer to a call with a handler. -/
lemma answer_trySql (idle : push.connecting = false) (next : push.calls = .trySql call :: calls)
    (has : push.sqlInstance = some con) :
    srv.answer x pool push fails = ((srv.call x con call).getD x, (srv.call x con call).isNone) := by
  rw [answer, idle, next, has]
  rfl

end Server

namespace Seen

/-- A new connection. -/
lemma Stands.connect (st : s.Stands name none g) (pending : g.pending = []) :
    (s.connect con).Stands name (some con) { g with schema := false, autoCommit := true } := by
  refine Stands.of_session st.db st.table ?_
  rw [Seen.connect, sessions_onSession]
  refine ⟨fun h => (by cases h), rfl, ?_⟩
  funext n
  rw [pending, ite_self]
  rfl

/-- A connection of the pool is used again. -/
lemma Stands.reuse (st : s.Stands name none g) (pending : g.pending = []) (idle : s.Idle con) :
    Goes s name con { g with schema := false, autoCommit := true }
      ((s.commit con).onSession con fun session => { session with autoCommit := true }) := by
  have known : s.Stands name (some con) { g with schema := false, autoCommit := (s.sessions con).autoCommit } := by
    refine Stands.of_session st.db st.table ⟨fun h => (by cases h), rfl, ?_⟩
    rw [idle]
    funext n
    rw [pending, ite_self]
  obtain ⟨commits, only⟩ := known.commit
  rw [Stage.commit_of_nil (by exact pending)] at commits
  refine ⟨?_, only.trans only_onSession⟩
  refine Stands.of_session commits.db commits.table ?_
  rw [sessions_onSession]
  exact ⟨fun h => (by cases h), rfl, (commits.session con rfl).pending⟩

end Seen

/-- A push that does not wait has its calls ahead. -/
lemma Push.ahead_idle (idle : push.connecting = false) : push.ahead = push.calls := by
  rw [Push.ahead, idle]
  rfl

/-- A push that waits for its connection has to make this call as well. -/
lemma Push.ahead_connecting (connecting : push.connecting = true) : push.ahead = .getSQLInstance :: push.calls :=
  if_pos connecting

/-- A push that does not ask for a connection has one. -/
lemma Push.Fits.has {call : Call} (fits : push.Fits) (connected : push.connecting = false)
    (next : push.calls = call :: calls) (uses : (call.after true).isSome = true) :
    ∃ con, push.sqlInstance = some con := by
  obtain ⟨has, after, -⟩ := fits.after_next connected next
  cases at_ : push.sqlInstance with
  | some con => exact ⟨con, rfl⟩
  | none =>
    rw [at_] at after
    cases call with
    | getSQLInstance => cases uses
    | deleteInstance => cases after
    | sql => cases after
    | trySql => cases after

/-- Other pushes, with their tables and connections, do not get in the way. -/
lemma Doing.frame (doing : Doing d p safe goal s push answers) (only : s.Only s' name con) (other : p.name ≠ name)
    (apart : ∀ c ∈ push.sqlInstance, c ≠ con) : Doing d p safe goal s' push answers := by
  obtain ⟨g, along, stands, noted⟩ := doing
  exact ⟨g, along, only.frame other apart stands, noted⟩

/-- A push that is only asked for a connection while it has nothing pending. -/
lemma along_gets (along : Along (Stage.step d p) safe goal (.getSQLInstance :: calls) g) :
    g.pending = [] ∧
      Along (Stage.step d p) safe goal calls { g with schema := false, autoCommit := true } := by
  obtain ⟨-, some, all⟩ := along
  rw [Stage.step] at some all
  split at some
  · rename_i pending
    rw [if_pos pending] at all
    exact ⟨pending, all _ List.mem_cons_self⟩
  · exact absurd rfl some

/-- A push only deletes its instance while it has nothing pending. -/
lemma along_deletes (along : Along (Stage.step d p) safe goal (.deleteInstance :: calls) g) :
    g.pending = [] ∧ Along (Stage.step d p) safe goal calls g := by
  obtain ⟨-, some, all⟩ := along
  rw [Stage.step] at some all
  split at some
  · rename_i pending
    rw [if_pos pending] at all
    exact ⟨pending, all _ List.mem_cons_self⟩
  · exact absurd rfl some

/-- A call that is no INSERT is not answered as one. -/
lemma Stage.sql_answers (legal : g.sql d p call = some g') : g'.answers = g.answers := by
  cases call with
  | executeRaw content =>
    rw [Stage.sql] at legal
    split at legal
    · cases legal
      rfl
    split at legal
    · obtain ⟨x, _, legal⟩ := Option.bind_eq_some_iff.mp legal
      split at legal
      · cases legal
        rfl
      · cases legal
    · cases legal
  | createDB =>
    obtain ⟨_, legal⟩ := Option.ite_none_right_eq_some.mp legal
    cases legal
    rfl
  | setSchema =>
    obtain ⟨_, legal⟩ := Option.ite_none_right_eq_some.mp legal
    cases legal
    rfl
  | dropTable =>
    obtain ⟨_, legal⟩ := Option.ite_none_right_eq_some.mp legal
    cases legal
    rfl
  | setAutoCommit value =>
    cases legal
    cases value <;> rfl
  | commit =>
    cases legal
    rfl

/-- A taken INSERT is answered with yes. -/
lemma Stage.insert_answers {rows : List (List SqlValue)} : (g.insert rows).answers = g.answers ++ [true] := by
  rw [Stage.insert]
  split <;> rfl

/-- Nothing is noted of a push that waits for its connection. -/
lemma Push.noted_connecting (connecting : push.connecting = true) : push.noted throws = [] := if_pos connecting

/-- A call that is no statement with a handler is not noted. -/
lemma Push.noted_other {first : Call} (next : push.calls = first :: calls)
    (other : ∀ content, first ≠ .trySql (.executeRaw content)) : push.noted throws = [] := by
  rw [Push.noted, next]
  split
  · rfl
  split
  · rename_i content calls' e
    exact absurd (List.cons.inj e).1 (other content)
  · rfl

/-- A statement that is no INSERT is not noted. -/
lemma Push.noted_sql (next : push.calls = .trySql call :: calls) (legal : g.sql d p call = some g') :
    push.noted throws = [] := by
  rw [Push.noted, next]
  split
  · rfl
  cases call with
  | executeRaw content =>
    dsimp only
    rw [if_neg]
    rw [Stage.sql] at legal
    split at legal
    · rename_i set
      rw [set]
      decide
    split at legal
    · rename_i creating
      rw [creating.2.1]
      decide
    · cases legal
  | createDB => rfl
  | setSchema => rfl
  | dropTable => rfl
  | setAutoCommit => rfl
  | commit => rfl

/-- An INSERT is. -/
lemma Push.noted_insert {rows : List (List SqlValue)} (connected : push.connecting = false)
    (next : push.calls = .trySql call :: calls) (legal : g.inserting p call = some rows) :
    push.noted throws = [!throws] := by
  rw [Push.noted, connected, next, if_neg (by decide)]
  cases call with
  | executeRaw content =>
    rw [Stage.inserting] at legal
    split at legal
    · obtain ⟨x, into, _⟩ := Option.bind_eq_some_iff.mp legal
      dsimp only
      rw [into]
      rfl
    · cases legal
  | createDB => cases legal
  | setSchema => cases legal
  | dropTable => cases legal
  | setAutoCommit => cases legal
  | commit => cases legal

/-- What a step of a push leaves behind: it can go on, only its session and its table were touched, and the sessions
    in the pool have nothing pending. -/
structure Went (d : Dialect) (p : Pusher) (safe goal : Stage → Prop) (s : Seen) (pool : SQLPool) (s' : Seen)
    (pool' : SQLPool) (push' : Push) (answers : List Bool) : Prop where
  doing : Doing d p safe goal s' push' answers
  only : s' = s ∨ ∃ con ∈ push'.sqlInstance, s.Only s' p.name con
  idle : ∀ con ∈ pool'.availConnection, con ∈ pool.availConnection ∨ s'.Idle con

section
variable (along : Along (Stage.step d p) safe goal push.ahead g) (stands : s.Stands p.name push.sqlInstance g)
include along stands

/-- The connection that a push waits for is opened. -/
lemma went_connects (fits : push.Fits) (connecting : push.connecting = true) :
    Went d p safe goal s pool (s.connect pool.opened) pool.connect.1 (push.takes pool.connect.2) g.answers := by
  rw [Push.ahead_connecting connecting] at along
  rw [fits.connecting connecting] at stands
  obtain ⟨pending, along⟩ := along_gets along
  exact ⟨⟨_, along, stands.connect pending, rfl⟩, .inr ⟨_, rfl, Seen.only_onSession⟩, fun con mem => .inl mem⟩

/-- A push returns. -/
lemma went_returns (connected : push.connecting = false) :
    Went d p safe goal s pool s pool { push with returned := true } g.answers := by
  rw [Push.ahead_idle connected] at along
  refine ⟨⟨g, ?_, stands, rfl⟩, .inl rfl, fun con mem => .inl mem⟩
  rwa [Push.ahead_idle (by exact connected)]

/-- A push finds no connection in the pool. -/
lemma went_waits (connected : push.connecting = false) (next : push.calls = .getSQLInstance :: calls) :
    Went d p safe goal s pool s pool { push with calls, connecting := true } g.answers := by
  rw [Push.ahead_idle connected, next] at along
  exact ⟨⟨g, along, stands, rfl⟩, .inl rfl, fun con mem => .inl mem⟩

/-- A push takes a connection from the pool. -/
lemma went_takes (fits : push.Fits) (connected : push.connecting = false) (next : push.calls = .getSQLInstance :: calls)
    (front : pool.availConnection = con :: rest) (idle : s.Idle con) :
    Went d p safe goal s pool ((s.commit con).onSession con fun session => { session with autoCommit := true })
      { pool with availConnection := rest } ({ push with calls }.takes con) g.answers := by
  rw [Push.ahead_idle connected, next] at along
  rw [(fits.gets connected next).1] at stands
  obtain ⟨pending, along⟩ := along_gets along
  obtain ⟨goes, only⟩ := stands.reuse pending idle
  refine ⟨⟨_, along, goes, rfl⟩, .inr ⟨con, rfl, only⟩, fun c mem => .inl ?_⟩
  rw [front]
  exact List.mem_cons_of_mem _ mem

/-- A push gives its connection back. -/
lemma went_deletes (connected : push.connecting = false) (next : push.calls = .deleteInstance :: calls)
    (has : push.sqlInstance = some con) :
    Went d p safe goal s pool s (pool.deleteInstance con) { push with calls, sqlInstance := none } g.answers := by
  rw [Push.ahead_idle connected, next] at along
  obtain ⟨pending, along⟩ := along_deletes along
  have session := stands.session con has
  refine ⟨⟨g, ?_, ⟨stands.db, stands.table, fun c mem => by cases mem⟩, rfl⟩, .inl rfl, ?_⟩
  · rwa [Push.ahead_idle (by exact connected)]
  · intro c mem
    rcases List.mem_append.mp mem with mem | mem
    · exact .inl mem
    · rw [List.mem_singleton.mp mem, Seen.Idle, session.pending, pending]
      exact .inr (funext fun n => ite_self _)

end

/-- A call that the server answers as the stage says. -/
lemma went_call {x' : srv.State} (connected : push.connecting = false)
    (has : push.sqlInstance = some con) (next : Along (Stage.step d p) safe goal calls g')
    (goes : (srv.seen x).Goes p.name con g' (srv.seen x')) (noted : g'.answers = answers) :
    Went d p safe goal (srv.seen x) pool (srv.seen x') pool { push with calls } answers := by
  refine ⟨⟨g', ?_, ?_, noted⟩, .inr ⟨con, has, goes.2⟩, fun c mem => .inl mem⟩
  · rwa [Push.ahead_idle (by exact connected)]
  · rw [has]
    exact goes.1

/-- A call that the server does not refuse. -/
lemma went_legal (stands : (srv.seen x).Stands p.name push.sqlInstance g) (connected : push.connecting = false)
    (has : push.sqlInstance = some con) (legal : g.sql d p call = some g')
    (next : Along (Stage.step d p) safe goal calls g') : ∃ x', srv.call x con call = some x' ∧
      Went d p safe goal (srv.seen x) pool (srv.seen x') pool { push with calls } g.answers := by
  rw [has] at stands
  obtain ⟨x', called, goes⟩ := stands.call legal
  exact ⟨x', called, went_call connected has next goes (Stage.sql_answers legal)⟩

section
variable (along : Along (Stage.step d p) safe goal push.ahead g)
  (stands : (srv.seen x).Stands p.name push.sqlInstance g)
include along stands

/-- A call without a handler is one that the server does not refuse. -/
lemma went_sql (connected : push.connecting = false) (next : push.calls = .sql call :: calls)
    (has : push.sqlInstance = some con) : ∃ x', srv.call x con call = some x' ∧
      Went d p safe goal (srv.seen x) pool (srv.seen x') pool { push with calls } g.answers := by
  rw [Push.ahead_idle connected, next] at along
  obtain ⟨-, leads, all⟩ := along
  rw [Stage.step] at leads all
  cases legal : g.sql d p call with
  | none =>
    rw [legal] at leads
    exact absurd rfl leads
  | some g' =>
    rw [legal] at all
    exact went_legal stands connected has legal (all g' List.mem_cons_self)

/-- A call with a handler is answered as the stage says, or it is an INSERT that the server refuses, which changes
    nothing. -/
lemma went_trySql (connected : push.connecting = false) (next : push.calls = .trySql call :: calls)
    (has : push.sqlInstance = some con) :
    Went d p safe goal (srv.seen x) pool (srv.seen ((srv.call x con call).getD x)) pool { push with calls }
      (g.answers ++ push.noted (srv.call x con call).isNone) := by
  rw [Push.ahead_idle connected, next] at along
  obtain ⟨-, leads, all⟩ := along
  rw [Stage.step] at leads all
  cases inserts : g.inserting p call with
  | some rows =>
    rw [inserts] at all
    rw [Push.noted_insert connected next inserts]
    cases called : srv.call x con call with
    | some x' =>
      have known := stands
      rw [has] at known
      exact went_call connected has (all _ List.mem_cons_self) (known.inserting inserts called)
        Stage.insert_answers
    | none =>
      refine ⟨⟨g.refuse, ?_, stands.refuse, rfl⟩, .inl rfl, fun c mem => .inl mem⟩
      rw [Push.ahead_idle (by exact connected)]
      exact all _ (List.mem_cons_of_mem _ List.mem_cons_self)
  | none =>
    rw [inserts] at leads all
    dsimp only at leads all
    cases legal : g.sql d p call with
    | none =>
      rw [legal] at leads
      exact absurd rfl leads
    | some g' =>
      rw [legal] at all
      rw [Push.noted_sql next legal, List.append_nil]
      obtain ⟨x', called, went⟩ := went_legal stands connected has legal (all g' List.mem_cons_self)
      rw [called]
      exact went

end

/-- A connection that is used again commits automatically. -/
lemma Server.seen_reuse : srv.seen ((srv.call x con (.setAutoCommit true)).getD x) =
    ((srv.seen x).commit con).onSession con fun session => { session with autoCommit := true } := by
  obtain ⟨x', called, seen⟩ := Option.map_eq_some_iff.mp (srv.seen_setAutoCommit x con true)
  rw [called]
  exact seen

/-- A step of a push fails if the driver does, and for no other reason. -/
lemma Doing.step {o : Option Push} (doing : Doing d p safe goal (srv.seen x) push answers) (fits : push.Fits)
    (idle : ∀ con ∈ pool.availConnection, (srv.seen x).Idle con)
    (st : push.step pool (srv.answer x pool push fails).2 = some (pool', o)) :
    o = none ∧ fails = true ∧ (srv.answer x pool push fails).1 = x ∧
        push.noted (srv.answer x pool push fails).2 = [] ∨
      ∃ push', o = some push' ∧
        Went d p safe goal (srv.seen x) pool (srv.seen (srv.answer x pool push fails).1) pool' push'
          (answers ++ push.noted (srv.answer x pool push fails).2) := by
  obtain ⟨g, along, stands, rfl⟩ := doing
  rw [Push.step] at st
  split at st
  · cases st
  split at st
  · rename_i connecting
    rw [Push.noted_connecting connecting, List.append_nil]
    rw [Server.answer_connecting connecting] at st ⊢
    cases fails with
    | true =>
      cases st
      exact .inl ⟨rfl, rfl, rfl, rfl⟩
    | false =>
      cases st
      refine .inr ⟨_, rfl, ?_⟩
      rw [if_neg (by decide), srv.seen_connect]
      exact went_connects along stands fits connecting
  rename_i connected
  have connected : push.connecting = false := by simpa using connected
  split at st
  · rename_i done
    have none : push.noted (srv.answer x pool push fails).2 = [] := by
      rw [Push.noted, connected, done]
      rfl
    rw [none, List.append_nil, Server.answer_done connected done]
    cases st
    exact .inr ⟨_, rfl, went_returns along stands connected⟩
  · rename_i calls next
    rw [Push.noted_other next (by simp), List.append_nil]
    split at st
    · cases st
    cases avail : pool.availConnection with
    | nil =>
      rw [Server.answer_waits connected next avail]
      rw [SQLPool.getSQLInstance_connects avail] at st
      cases st
      exact .inr ⟨_, rfl, went_waits along stands connected next⟩
    | cons con rest =>
      rw [Server.answer_takes connected next avail] at st ⊢
      cases fails with
      | true =>
        rw [SQLPool.getSQLInstance_throws avail] at st
        cases st
        exact .inl ⟨rfl, rfl, rfl, rfl⟩
      | false =>
        rw [SQLPool.getSQLInstance_gets avail] at st
        cases st
        have front : con ∈ pool.availConnection := avail ▸ List.mem_cons_self
        refine .inr ⟨_, rfl, ?_⟩
        rw [if_neg (by decide), Server.seen_reuse]
        exact went_takes along stands fits connected next avail (idle con front)
  · rename_i calls next
    rw [Push.noted_other next (by simp), List.append_nil, Server.answer_deletes connected next]
    split at st
    · cases st
    obtain ⟨con, has, st⟩ := Option.map_eq_some_iff.mp st
    cases st
    exact .inr ⟨_, rfl, went_deletes along stands connected next has⟩
  · rename_i call calls next
    rw [Push.noted_other next (by simp), List.append_nil]
    obtain ⟨con, has⟩ := fits.has connected next rfl
    obtain ⟨x', answered, went⟩ : ∃ x', srv.call x con call = some x' ∧
        Went d p safe goal (srv.seen x) pool (srv.seen x') pool { push with calls } g.answers :=
      went_sql along stands connected next has
    rw [Server.answer_sql connected next has, answered] at st ⊢
    by_cases failed : fails = true
    · rw [if_pos failed] at st ⊢
      cases st
      exact .inl ⟨rfl, failed, rfl, rfl⟩
    · rw [if_neg failed] at st ⊢
      cases st
      exact .inr ⟨_, rfl, went⟩
  · rename_i call calls next
    obtain ⟨con, has⟩ := fits.has connected next rfl
    rw [Server.answer_trySql connected next has]
    cases st
    exact .inr ⟨_, rfl, went_trySql along stands connected next has⟩

end

/-! ### The connections of two pushes -/

namespace Program
variable {program : Program} {push push' : Push} {con : Connection} {i j : Nat}

/-- No connection is available and held, or held twice. -/
lemma Accounted.nodup (acc : Accounted program) : (program.pool.availConnection ++ program.held).Nodup :=
  acc.all.nodup_iff.mpr List.nodup_range

/-- Two pushes do not have the same connection. -/
lemma Accounted.apart (acc : Accounted program) (ne : i ≠ j) (at_i : program.pushes[i]? = some push)
    (at_j : program.pushes[j]? = some push') (has : con ∈ push.sqlInstance) : con ∉ push'.sqlInstance := by
  intro has'
  have held : program.held.Nodup := (List.nodup_append.mp acc.nodup).2.1
  have apart := List.pairwise_iff_getElem.mp (List.nodup_flatMap.mp held).2
  obtain ⟨lt_i, rfl⟩ := List.getElem?_eq_some_iff.mp at_i
  obtain ⟨lt_j, rfl⟩ := List.getElem?_eq_some_iff.mp at_j
  rcases Nat.lt_or_gt_of_ne ne with lt | lt
  · exact apart i j lt_i lt_j lt (Option.mem_toList.mpr has) (Option.mem_toList.mpr has')
  · exact apart j i lt_j lt_i lt (Option.mem_toList.mpr has') (Option.mem_toList.mpr has)

end Program

/-- A push that goes on does not lock the mutex. -/
lemma Push.Steps.free {pool pool' : SQLPool} {push push' : Push} (st : push.Steps pool pool' (some push')) :
    pool'.poolMutex = pool.poolMutex := by
  cases st <;> rfl

/-! ### What is left to do -/

/-- The steps that a push can still take: `getSQLInstance` is one or two. -/
def Push.left (push : Push) : Nat :=
  push.calls.length + push.calls.count .getSQLInstance + (if push.connecting then 1 else 0) +
    (if push.returned then 0 else 1)

/-- A push that has not returned can go on, while nobody holds the mutex. -/
lemma Push.Fits.progress {pool : SQLPool} {push : Push} {throws : Bool} (fits : push.Fits)
    (running : push.returned = false) (free : pool.poolMutex = false) : ∃ r, push.step pool throws = some r := by
  rw [Push.step, running, free]
  cases connecting : push.connecting with
  | true => cases throws <;> exact ⟨_, rfl⟩
  | false =>
    cases next : push.calls with
    | nil => exact ⟨_, rfl⟩
    | cons call calls =>
      cases call with
      | getSQLInstance =>
        cases avail : pool.availConnection with
        | nil =>
          simp only [SQLPool.getSQLInstance_connects avail]
          exact ⟨_, rfl⟩
        | cons con rest =>
          cases throws with
          | true =>
            simp only [SQLPool.getSQLInstance_throws avail]
            exact ⟨_, rfl⟩
          | false =>
            simp only [SQLPool.getSQLInstance_gets avail]
            exact ⟨_, rfl⟩
      | deleteInstance =>
        obtain ⟨con, has⟩ := fits.has connecting next rfl
        rw [has]
        exact ⟨_, rfl⟩
      | sql => exact ⟨_, rfl⟩
      | trySql => exact ⟨_, rfl⟩

/-! ### All pushes -/

namespace Deployment
variable {d : Dialect} {srv : Server d}

/-- Each push can go on from where it is, with its own table and its own session; the other tables are as they were. -/
structure Deployed (table : Pusher → ServerTable) (batches : Pusher → List (List (List SqlValue)))
    (works : List Pusher) (before : srv.State) (s : Deployment srv) : Prop where
  accounted : s.program.Accounted
  free : s.program.terminated = false → s.program.pool.poolMutex = false
  order : s.started ++ s.queue ++ s.works = works
  length : s.started.length = s.program.pushes.length
  answers : s.answers.length = s.started.length
  doing : ∀ (i : Nat) p push answers, s.started[i]? = some p → s.program.pushes[i]? = some push →
    s.answers[i]? = some answers →
      Doing d p (fun g => Partly ((srv.seen before).tables p.name) (table p) (batches p) g.answers g.table)
        (fun g => g.answers.length = (batches p).length ∧ g.table = some ((table p).lands (batches p) g.answers))
        (srv.seen s.server) push answers
  idle : ∀ con ∈ s.program.pool.availConnection, (srv.seen s.server).Idle con
  others : ∀ n, n ∉ s.started.map name → (srv.seen s.server).tables n = (srv.seen before).tables n

section
variable {threads : Nat} {table : Pusher → ServerTable} {batches : Pusher → List (List (List SqlValue))}
  {works : List Pusher} {before : srv.State} {s s' : Deployment srv} {i : Nat} {fails : Bool} {answers : List Bool}

/-- The pushes that were started have different tables. -/
lemma Deployed.names (dep : Deployed table batches works before s) (names : (works.map name).Nodup) :
    (s.started.map name).Nodup := by
  rw [← dep.order, List.append_assoc, List.map_append] at names
  exact (List.nodup_append.mp names).1

/-- The answers to a push that was started. -/
lemma Deployed.answered {p : Pusher} (dep : Deployed table batches works before s) (at_ : s.started[i]? = some p) :
    ∃ answers, s.answers[i]? = some answers := by
  have lt := (List.getElem?_eq_some_iff.mp at_).1
  exact ⟨_, List.getElem?_eq_getElem (dep.answers.symm ▸ lt)⟩

/-- All INSERTs of a push that has returned were answered, and its table has the rows of those that were taken. -/
lemma Deployed.returned {p : Pusher} {push : Push} (dep : Deployed table batches works before s)
    (at_ : s.started[i]? = some p) (at_push : s.program.pushes[i]? = some push) (returned : push.returned = true) :
    ∃ answers, s.answers[i]? = some answers ∧ answers.length = (batches p).length ∧
      (srv.seen s.server).tables p.name = some ((table p).lands (batches p) answers) := by
  obtain ⟨answers, at_answers⟩ := dep.answered at_
  obtain ⟨g, along, stands, rfl⟩ := dep.doing i p push answers at_ at_push at_answers
  obtain ⟨connected, done⟩ := (dep.accounted.fits push (List.mem_of_getElem? at_push)).returned returned
  rw [Push.ahead_idle connected, done] at along
  exact ⟨_, at_answers, along.2.1, stands.table.trans along.2.2⟩

/-! ### Runs end -/

/-- The steps that are left. -/
def left (s : Deployment srv) : Nat :=
  (s.works.map fun p => (Push.start p).left + 2).sum + (s.queue.map fun p => (Push.start p).left + 1).sum +
    (s.program.pushes.map Push.left).sum + (if s.program.terminated then 0 else 1)

end

/-! ### Two tables with the numbers 1 and 2 -/

/-- The push of two numbers. -/
def numbers (name : String) : Pusher :=
  { dbName := "a".toList, tableName := name.toList, finalTable := "CREATE TABLE ".toList ++ name.toList
    finalTableCols := "x\n".toList, result := "'1'\n'2'\n".toList, threshold := 1 }

end Deployment

end TdsqlMerge.Pusher
