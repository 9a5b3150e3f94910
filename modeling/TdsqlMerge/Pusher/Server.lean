import TdsqlMerge.Pusher.Connections
import TdsqlMerge.Pusher.Tuples

/-!
# The server

The database server is not part of the repository. `Server` is one that does what is documented of the statements that a
push sends, as far as a push can see it (`Seen`): databases, tables with their rows, and sessions. Rows that a session
inserted are pending until it commits; a statement that defines something commits first. An INSERT goes in whole or,
where the server refuses it for any reason, not at all.

`Dialect` is what the server makes of texts that are not read here: which names can stand without quotes, and which
table a CREATE TABLE statement creates. `Stands` keeps track of a push, its table and the answers to its INSERTs,
whatever else is on the server.
-/

namespace TdsqlMerge.Pusher
open Lib

/-- A table of the server: its columns as an INSERT names them, and its rows. -/
structure ServerTable where
  columns : List Str
  rows : List (List SqlValue)

/-- A database and a table. -/
abbrev TableName := Str × Str

/-- A session, with the rows it inserted and did not commit. -/
structure Session where
  schema : Option Str
  autoCommit : Bool
  pending : TableName → List (List SqlValue)

/-- A new connection. -/
def Session.new : Session := { schema := none, autoCommit := true, pending := fun _ => [] }

/-- What can be seen of a server. -/
structure Seen where
  databases : Str → Bool
  tables : TableName → Option ServerTable
  sessions : Connection → Session

/-- What the server understands: names of databases that need no quotes, and the `CREATE TABLE` statements. -/
structure Dialect where
  bare : Str → Bool
  creates : Str → Option (Str × ServerTable)

/-- Rows are put behind those of a table. -/
def ServerTable.append (t : ServerTable) (rows : List (List SqlValue)) : ServerTable :=
  { t with rows := t.rows ++ rows }

namespace Seen

/-- A change of one session. -/
def onSession (s : Seen) (con : Connection) (f : Session → Session) : Seen :=
  { s with sessions := Function.update s.sessions con (f (s.sessions con)) }

/-- A change of one table. -/
def setTable (s : Seen) (name : TableName) (t : Option ServerTable) : Seen :=
  { s with tables := Function.update s.tables name t }

/-- A new connection. -/
def connect (s : Seen) (con : Connection) : Seen := s.onSession con fun _ => .new

def commit (s : Seen) (con : Connection) : Seen :=
  onSession { s with tables := fun name => (s.tables name).map fun t => t.append ((s.sessions con).pending name) } con
    fun session => { session with pending := fun _ => [] }

/-- An INSERT of these rows that the server takes. -/
def insert (s : Seen) (con : Connection) (name : TableName) (rows : List (List SqlValue)) : Seen :=
  let held := s.onSession con fun session =>
    { session with pending := Function.update session.pending name (session.pending name ++ rows) }
  if (s.sessions con).autoCommit then held.commit con else held

end Seen

/-- A server: what a new connection and the calls of the members of `SQLInstance` do to it, where `none` is an
    `SQLException`. -/
structure Server (d : Dialect) where
  State : Type
  connect : State → Connection → State
  call : State → Connection → SQLCall → Option State
  seen : State → Seen
  seen_connect : ∀ s con, seen (connect s con) = (seen s).connect con
  seen_commit : ∀ s con, (call s con .commit).map seen = some ((seen s).commit con)
  -- switching to auto commit ends the transaction
  seen_setAutoCommit : ∀ s con value, (call s con (.setAutoCommit value)).map seen =
    some ((if value then (seen s).commit con else seen s).onSession con fun session =>
      { session with autoCommit := value })
  -- CREATE DATABASE IF NOT EXISTS, with the name as it is
  seen_createDB : ∀ s con name, d.bare name = true → (call s con (.createDB name)).map seen =
    some { (seen s).commit con with databases := Function.update (seen s).databases name true }
  seen_setSchema : ∀ s con name, (seen s).databases name = true → (call s con (.setSchema name)).map seen =
    some ((seen s).onSession con fun session => { session with schema := some name })
  -- DROP TABLE IF EXISTS
  seen_dropTable : ∀ s con db name, ((seen s).sessions con).schema = some db → (call s con (.dropTable name)).map seen =
    some (((seen s).commit con).setTable (db, name) none)
  seen_uniqueChecks : ∀ s con, (call s con (.executeRaw "SET unique_checks=0;".toList)).map seen = some (seen s)
  seen_create : ∀ s con sql db name t, ((seen s).sessions con).schema = some db →
    sql ≠ "SET unique_checks=0;".toList → readInto sql = none → d.creates sql = some (name, t) →
    (seen s).tables (db, name) = none → (call s con (.executeRaw sql)).map seen =
      some (((seen s).commit con).setTable (db, name) (some t))
  -- what the server refuses, and why, is not said
  seen_insert : ∀ s con sql db name rest t rows s', ((seen s).sessions con).schema = some db →
    readInto sql = some (name, rest) → (seen s).tables (db, name) = some t → readRows t.columns rest = some rows →
      call s con (.executeRaw sql) = some s' → seen s' = (seen s).insert con (db, name) rows

/-- What the next call of a push does to the server, and whether the driver throws: where it connects or switches a
    connection for the pool, and in a call without a handler, also if it `fails` for a reason that is not in the
    statement. -/
def Server.answer {d : Dialect} (srv : Server d) (s : srv.State) (pool : SQLPool) (push : Push) (fails : Bool) :
    srv.State × Bool :=
  if push.connecting then (if fails then s else srv.connect s pool.opened, fails)
  else match push.calls, push.sqlInstance with
    | .getSQLInstance :: _, _ =>
      match pool.availConnection with
      | con :: _ => (if fails then s else (srv.call s con (.setAutoCommit true)).getD s, fails)
      | [] => (s, fails)
    | .sql call :: _, some con =>
      if fails then (s, true) else ((srv.call s con call).getD s, (srv.call s con call).isNone)
    | .trySql call :: _, some con => ((srv.call s con call).getD s, (srv.call s con call).isNone)
    | _, _ => (s, fails)

/-! ### The table of a push -/

/-- What is known of the table of a push and of its session: whether its database is there and the session is in it,
    the table, if there is one, the pending rows, and which of the INSERTs so far the server took. -/
structure Stage where
  db : Bool
  schema : Bool
  autoCommit : Bool
  table : Option ServerTable
  pending : List (List SqlValue)
  answers : List Bool

namespace Stage

def commit (g : Stage) : Stage :=
  { g with table := g.table.map fun t => t.append g.pending, pending := [] }

/-- An INSERT of these rows, if the server takes it. -/
def insert (g : Stage) (rows : List (List SqlValue)) : Stage :=
  let held := { g with pending := g.pending ++ rows, answers := g.answers ++ [true] }
  if g.autoCommit then held.commit else held

/-- An INSERT that the server refuses. -/
def refuse (g : Stage) : Stage := { g with answers := g.answers ++ [false] }

/-- A call of the push that is no INSERT; `none` is one that a push of this table does not make at this stage. -/
def sql (d : Dialect) (p : Pusher) (g : Stage) : SQLCall → Option Stage
  | .createDB name => if name = p.dbName ∧ d.bare name then some { g.commit with db := true } else none
  | .setSchema name => if name = p.dbName ∧ g.db then some { g with schema := true } else none
  | .dropTable name => if name = p.tableName ∧ g.schema then some { g.commit with table := none } else none
  | .setAutoCommit value => some { (if value then g.commit else g) with autoCommit := value }
  | .commit => some g.commit
  | .executeRaw content =>
    if content = "SET unique_checks=0;".toList then some g
    else if g.schema ∧ readInto content = none ∧ g.table.isNone then
      (d.creates content).bind fun x =>
        if x.1 = p.tableName then some { g.commit with table := some x.2 } else none
    else none

/-- The rows of an INSERT of the push into its table. -/
def inserting (p : Pusher) (g : Stage) : SQLCall → Option (List (List SqlValue))
  | .executeRaw content =>
    if g.schema then
      (readInto content).bind fun x => g.table.bind fun t =>
        if x.1 = p.tableName then readRows t.columns x.2 else none
    else none
  | _ => none

/-- The stages that a call can lead to; a push makes no call that leads nowhere. -/
def step (d : Dialect) (p : Pusher) (g : Stage) : Call → List Stage
  | .getSQLInstance => if g.pending = [] then [{ g with schema := false, autoCommit := true }] else []
  | .deleteInstance => if g.pending = [] then [g] else []
  | .sql call => (g.sql d p call).toList
  | .trySql call =>
    match g.inserting p call with
    | some rows => [g.insert rows, g.refuse]
    | none => (g.sql d p call).toList

end Stage

/-- The name of the table of a push. -/
def name (p : Pusher) : TableName := (p.dbName, p.tableName)

/-- A session is as it is known, and its pending rows are for the table. -/
structure Session.Stands (session : Session) (name : TableName) (g : Stage) : Prop where
  schema : g.schema = true → session.schema = some name.1
  autoCommit : session.autoCommit = g.autoCommit
  pending : session.pending = fun n => if n = name then g.pending else []

/-- The server is as it is known, for a table and for a session on it. -/
structure Seen.Stands (s : Seen) (name : TableName) (con : Option Connection) (g : Stage) : Prop where
  db : g.db = true → s.databases name.1 = true
  table : s.tables name = g.table
  session : ∀ c ∈ con, (s.sessions c).Stands name g

/-- Nothing changed but a table, a session and new databases. -/
structure Seen.Only (s s' : Seen) (name : TableName) (con : Connection) : Prop where
  databases : ∀ db, s.databases db = true → s'.databases db = true
  tables : ∀ n, n ≠ name → s'.tables n = s.tables n
  sessions : ∀ c, c ≠ con → s'.sessions c = s.sessions c

/-- The server after a call, for what is known then. -/
def Seen.Goes (s : Seen) (name : TableName) (con : Connection) (g : Stage) (s' : Seen) : Prop :=
  s'.Stands name (some con) g ∧ s.Only s' name con

section
variable {d : Dialect} {p : Pusher} {s s' s'' : Seen} {name name' : TableName} {con : Connection}
  {con' : Option Connection} {g g' : Stage} {t : ServerTable} {rows : List (List SqlValue)}

/-- Appending no row changes nothing. -/
@[simp] lemma ServerTable.append_nil : t.append [] = t := by
  rw [ServerTable.append, List.append_nil]

/-- What is pending for the table is that of the stage. -/
lemma Session.Stands.here {session : Session} (st : session.Stands name g) : session.pending name = g.pending :=
  (congrFun st.pending name).trans (if_pos rfl)

/-- What a session needs is the same for stages that differ in the table. -/
lemma Session.Stands.same {session : Session} (st : session.Stands name g) (schema : g'.schema = g.schema)
    (autoCommit : g'.autoCommit = g.autoCommit) (pending : g'.pending = g.pending) : session.Stands name g' :=
  ⟨fun h => st.schema (schema ▸ h), st.autoCommit.trans autoCommit.symm, pending ▸ st.pending⟩

/-- Nothing is pending for other tables. -/
lemma Session.Stands.elsewhere {session : Session} {n : TableName} (st : session.Stands name g) (ne : n ≠ name) :
    session.pending n = [] := (congrFun st.pending n).trans (if_neg ne)

namespace Seen

/-- Nothing is changed. -/
lemma Only.refl : Only s s name con := ⟨fun _ h => h, fun _ _ => rfl, fun _ _ => rfl⟩

/-- Two changes of the same table and session. -/
lemma Only.trans (h : Only s s' name con) (h' : Only s' s'' name con) : Only s s'' name con where
  databases := fun db there => h'.databases db (h.databases db there)
  tables := fun n ne => (h'.tables n ne).trans (h.tables n ne)
  sessions := fun c ne => (h'.sessions c ne).trans (h.sessions c ne)

/-- Changing a session changes no other. -/
lemma only_onSession {f : Session → Session} : Only s (s.onSession con f) name con where
  databases := fun _ h => h
  tables := fun _ _ => rfl
  sessions := fun _ ne => Function.update_of_ne ne _ _

/-- Changing a table changes no other. -/
lemma only_setTable {t : Option ServerTable} : Only s (s.setTable name t) name con where
  databases := fun _ h => h
  tables := fun _ ne => Function.update_of_ne ne _ _
  sessions := fun _ _ => rfl

/-- What another push knows stays so. -/
lemma Only.frame (only : Only s s' name con) (other : name' ≠ name) (apart : ∀ c ∈ con', c ≠ con)
    (st : s.Stands name' con' g) : s'.Stands name' con' g where
  db := fun h => only.databases _ (st.db h)
  table := (only.tables _ other).trans st.table
  session := fun c mem => by
    rw [only.sessions c (apart c mem)]
    exact st.session c mem

/-- The session that is changed. -/
lemma sessions_onSession {f : Session → Session} : (s.onSession con f).sessions con = f (s.sessions con) :=
  Function.update_self _ _ _

/-- What is known of the session of a push is known of the session it has. -/
lemma Stands.of_session (db : g.db = true → s.databases name.1 = true) (table : s.tables name = g.table)
    (session : (s.sessions con).Stands name g) : s.Stands name (some con) g :=
  ⟨db, table, fun _ mem => Option.mem_some.mp mem ▸ session⟩

/-- COMMIT. -/
lemma Stands.commit (st : s.Stands name (some con) g) :
    (s.commit con).Stands name (some con) g.commit ∧ Only s (s.commit con) name con := by
  have session := st.session con rfl
  constructor
  · refine Stands.of_session (s := s.commit con) (g := g.commit) st.db ?_ ?_
    · show (s.tables name).map (fun t => t.append ((s.sessions con).pending name)) = _
      rw [st.table, session.here]
      rfl
    · rw [Seen.commit, sessions_onSession]
      refine ⟨session.schema, session.autoCommit, ?_⟩
      funext n
      exact (ite_self _).symm
  · constructor
    · exact fun _ h => h
    · intro n ne
      show (s.tables n).map (fun t => t.append ((s.sessions con).pending n)) = _
      rw [session.elsewhere ne]
      simp only [ServerTable.append_nil, Option.map_id']
    · exact fun c ne => Function.update_of_ne ne _ _

/-- The rows of an INSERT are put to the pending ones. -/
lemma Stands.hold {answers : List Bool} (st : s.Stands name (some con) g) :
    (s.onSession con fun session => { session with
      pending := Function.update session.pending name (session.pending name ++ rows) }).Stands name (some con)
      { g with pending := g.pending ++ rows, answers } := by
  have session := st.session con rfl
  refine Stands.of_session (g := { g with pending := g.pending ++ rows, answers }) st.db st.table ?_
  rw [sessions_onSession]
  refine ⟨session.schema, session.autoCommit, ?_⟩
  funext n
  dsimp only
  by_cases here : n = name
  · rw [here, Function.update_self, if_pos rfl, session.here]
  · rw [Function.update_of_ne here, if_neg here, session.elsewhere here]

/-- An INSERT into the table of the push that the server takes. -/
lemma Stands.insert (st : s.Stands name (some con) g) : Goes s name con (g.insert rows) (s.insert con name rows) := by
  have session := st.session con rfl
  have hold := @Stands.hold _ _ _ _ rows (g.answers ++ [true]) st
  rw [Stage.insert, Seen.insert, session.autoCommit]
  by_cases auto : g.autoCommit = true
  · rw [if_pos auto, if_pos auto]
    exact ⟨hold.commit.1, only_onSession.trans hold.commit.2⟩
  · rw [if_neg auto, if_neg auto]
    exact ⟨hold, only_onSession⟩

/-- A statement that is refused is only noted. -/
lemma Stands.refuse (st : s.Stands name con' g) : s.Stands name con' g.refuse :=
  ⟨st.db, st.table, fun c mem => (st.session c mem).same rfl rfl rfl⟩

/-- An INSERT of a push goes in whole, if the server takes it, and changes nothing but its table and its session. -/
lemma Stands.inserting {srv : Server d} {x x' : srv.State} {call : SQLCall}
    (st : (srv.seen x).Stands p.name (some con) g) (legal : g.inserting p call = some rows)
    (called : srv.call x con call = some x') : Goes (srv.seen x) p.name con (g.insert rows) (srv.seen x') := by
  have session := st.session con rfl
  cases call with
  | executeRaw content =>
    rw [Stage.inserting] at legal
    split at legal
    · rename_i schema
      obtain ⟨⟨name, rest⟩, into, legal⟩ := Option.bind_eq_some_iff.mp legal
      obtain ⟨t, known, legal⟩ := Option.bind_eq_some_iff.mp legal
      split at legal
      · rename_i here
        subst here
        rw [srv.seen_insert x con _ _ _ _ _ _ x' (session.schema schema) into (st.table.trans known) legal called]
        exact st.insert
      · cases legal
    · cases legal
  | createDB => cases legal
  | setSchema => cases legal
  | dropTable => cases legal
  | setAutoCommit => cases legal
  | commit => cases legal

/-- Another call of a push is answered as its stage says, and changes nothing but its table and its session. -/
lemma Stands.call {srv : Server d} {x : srv.State} {call : SQLCall}
    (st : (srv.seen x).Stands p.name (some con) g) (legal : g.sql d p call = some g') :
    ∃ x', srv.call x con call = some x' ∧ Goes (srv.seen x) p.name con g' (srv.seen x') := by
  have session := st.session con rfl
  obtain ⟨commits, only⟩ := st.commit
  suffices answered : ∃ s', (srv.call x con call).map srv.seen = some s' ∧ Goes (srv.seen x) p.name con g' s' by
    obtain ⟨s', answered, goes⟩ := answered
    obtain ⟨x', called, rfl⟩ := Option.map_eq_some_iff.mp answered
    exact ⟨x', called, goes⟩
  cases call with
  | createDB name =>
    rw [Stage.sql] at legal
    split at legal
    · rename_i here
      cases legal
      obtain ⟨rfl, bare⟩ := here
      refine ⟨_, srv.seen_createDB x con _ bare, ?_, only.trans ⟨?_, fun _ _ => rfl, fun _ _ => rfl⟩⟩
      · exact ⟨fun _ => Function.update_self _ _ _, commits.table,
          fun c mem => (commits.session c mem).same rfl rfl rfl⟩
      · intro db there
        show Function.update (srv.seen x).databases p.dbName true db = true
        by_cases e : db = p.dbName
        · rw [e, Function.update_self]
        · rw [Function.update_of_ne e]
          exact there
    · cases legal
  | setSchema name =>
    rw [Stage.sql] at legal
    split at legal
    · rename_i here
      cases legal
      obtain ⟨rfl, db⟩ := here
      refine ⟨_, srv.seen_setSchema x con p.dbName (st.db db), ?_, only_onSession⟩
      refine Stands.of_session (g := { g with schema := true }) st.db st.table ?_
      rw [sessions_onSession]
      exact ⟨fun _ => rfl, session.autoCommit, session.pending⟩
    · cases legal
  | dropTable name =>
    rw [Stage.sql] at legal
    split at legal
    · rename_i here
      cases legal
      obtain ⟨rfl, schema⟩ := here
      refine ⟨_, srv.seen_dropTable x con _ _ (session.schema schema), ?_, only.trans only_setTable⟩
      exact Stands.of_session (g := { g.commit with table := none }) commits.db (Function.update_self _ _ _)
        ((commits.session con rfl).same rfl rfl rfl)
    · cases legal
  | setAutoCommit value =>
    cases legal
    refine ⟨_, srv.seen_setAutoCommit x con value, ?_⟩
    have switch : ∀ {s1 : Seen} {g1 : Stage}, s1.Stands p.name (some con) g1 →
        (s1.onSession con fun session => { session with autoCommit := value }).Stands p.name (some con)
          { g1 with autoCommit := value } := by
      intro s1 g1 st1
      refine Stands.of_session (g := { g1 with autoCommit := value }) st1.db st1.table ?_
      rw [sessions_onSession]
      exact ⟨(st1.session con rfl).schema, rfl, (st1.session con rfl).pending⟩
    cases value with
    | true => exact ⟨switch commits, only.trans only_onSession⟩
    | false => exact ⟨switch st, only_onSession⟩
  | commit =>
    cases legal
    exact ⟨_, srv.seen_commit x con, commits, only⟩
  | executeRaw content =>
    rw [Stage.sql] at legal
    split at legal
    · rename_i set
      cases legal
      rw [set]
      exact ⟨_, srv.seen_uniqueChecks x con, st, .refl⟩
    rename_i other
    split at legal
    · rename_i creating
      obtain ⟨schema, into, absent⟩ := creating
      obtain ⟨⟨name, t⟩, creates, legal⟩ := Option.bind_eq_some_iff.mp legal
      split at legal
      · rename_i here
        subst here
        cases legal
        refine ⟨_, srv.seen_create x con _ _ _ _ (session.schema schema) other into creates
          (st.table.trans (Option.isNone_iff_eq_none.mp absent)), ?_, only.trans only_setTable⟩
        exact Stands.of_session (g := { g.commit with table := some t }) commits.db (Function.update_self _ _ _)
          ((commits.session con rfl).same rfl rfl rfl)
      · cases legal
    · cases legal

/-! ### A server that is no more than what is seen of it -/

variable (d : Dialect) (refuses : TableName → ServerTable → List (List SqlValue) → Bool)

/-- A statement that is sent as a text. -/
def execute (s : Seen) (con : Connection) (sql : Str) : Option Seen :=
  if sql = "SET unique_checks=0;".toList then some s
  else do
    let db ← (s.sessions con).schema
    match readInto sql with
    | some (name, rest) => do
      let t ← s.tables (db, name)
      let rows ← readRows t.columns rest
      if refuses (db, name) t rows then none else some (s.insert con (db, name) rows)
    | none => do
      let (name, t) ← d.creates sql
      if (s.tables (db, name)).isSome then none else some ((s.commit con).setTable (db, name) (some t))

/-- A call on a connection, unless the driver throws. -/
def call (s : Seen) (con : Connection) : SQLCall → Option Seen
  | .createDB name =>
    if d.bare name then some { s.commit con with databases := Function.update s.databases name true } else none
  | .setSchema name =>
    if s.databases name then some (s.onSession con fun session => { session with schema := some name }) else none
  | .dropTable name => (s.sessions con).schema.map fun db => (s.commit con).setTable (db, name) none
  | .executeRaw content => s.execute d refuses con content
  | .setAutoCommit value =>
    some ((if value then s.commit con else s).onSession con fun session => { session with autoCommit := value })
  | .commit => some (s.commit con)

end Seen

/-- The plain server, which refuses some rows for a table. -/
def Server.plain (d : Dialect) (refuses : TableName → ServerTable → List (List SqlValue) → Bool) : Server d where
  State := Seen
  connect := Seen.connect
  call := Seen.call d refuses
  seen s := s
  seen_connect _ _ := rfl
  seen_commit _ _ := rfl
  seen_setAutoCommit _ _ _ := rfl
  seen_createDB _ _ _ bare := by rw [Option.map_id_fun', id, Seen.call, if_pos bare]
  seen_setSchema _ _ _ db := by rw [Option.map_id_fun', id, Seen.call, if_pos db]
  seen_dropTable _ _ _ _ schema := by
    rw [Option.map_id_fun', id, Seen.call, schema]
    rfl
  seen_uniqueChecks _ _ := rfl
  seen_create _ _ _ _ _ _ schema other into creates absent := by
    rw [Option.map_id_fun', id, Seen.call, Seen.execute, if_neg other, schema, Option.bind_eq_bind, Option.bind_some,
      into]
    dsimp only
    rw [creates, Option.bind_eq_bind, Option.bind_some]
    dsimp only
    rw [absent]
    rfl
  seen_insert _ _ sql _ _ _ _ _ _ schema into known read called := by
    have other : sql ≠ "SET unique_checks=0;".toList := by
      rintro rfl
      have none : readInto "SET unique_checks=0;".toList = none := by decide
      cases none.symm.trans into
    rw [Seen.call, Seen.execute, if_neg other, schema, Option.bind_eq_bind, Option.bind_some, into] at called
    dsimp only at called
    rw [known, Option.bind_eq_bind, Option.bind_some, read] at called
    simp only [Option.bind_eq_bind, Option.bind_some] at called
    split at called
    · cases called
    · exact (Option.some.inj called).symm

end

end TdsqlMerge.Pusher
