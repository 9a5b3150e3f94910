import TdsqlMerge.Lib.Machine
import TdsqlMerge.Pusher.PushFromFile

/-!
# The connection pool

Embedding of `SQLPool::getSQLInstance` and `SQLInstance::~SQLInstance` (`src/external/sqlconn.cpp`), and of
`Pusher::push`, `createFinalTable` and `pushFromFile` (`src/worker_impl/pusher.cpp`) as the calls they make
to the pool and to their instance.

The threads of the pusher pool take turns, call by call; a critical section of the pool is one step, and the
driver's `connect` is outside of it. Whether the driver throws `SQLException` in a call is part of the step.
An exception that leaves `push` leaves the handler of the thread pool, which calls `std::terminate`.
-/

namespace TdsqlMerge
open Lib

/-- The fields of `Pusher`, with the texts of the files it reads and the `push_split_threshold`. -/
structure Pusher where
  dbName : Str
  tableName : Str
  finalTable : Str
  finalTableCols : Str
  result : Str
  threshold : Int

namespace Pusher

/-- A connection, by the number of those opened before it. -/
abbrev Connection := Nat

/-- The fields of `SQLPool`, and the number of connections the driver has opened for it. -/
structure SQLPool where
  availConnection : List Connection
  poolMutex : Bool
  opened : Nat
  deriving DecidableEq

/-- How the critical section of `getSQLInstance` ends. -/
inductive Borrow where
  | connects
  | gets (con : Connection)
  | throws

namespace SQLPool

def new : SQLPool := { availConnection := [], poolMutex := false, opened := 0 }

/-- `getSQLInstance` from `poolMutex.lock()` on. -/
def getSQLInstance (pool : SQLPool) (throws : Bool) : SQLPool × Borrow :=
  match pool.availConnection with
  | [] => (pool, .connects)
  | con :: rest =>
    -- `setAutoCommit` is called before `pop_front` and `unlock`
    if throws then ({ pool with poolMutex := true }, .throws)
    else ({ pool with availConnection := rest }, .gets con)

section
variable {pool : SQLPool} {throws : Bool} {con : Connection} {rest : List Connection}

/-- `getSQLInstance` connects when no connection is available. -/
lemma getSQLInstance_connects (empty : pool.availConnection = []) :
    pool.getSQLInstance throws = (pool, .connects) := by
  rw [getSQLInstance, empty]

/-- `getSQLInstance` that throws keeps the mutex, and the connection where it is. -/
lemma getSQLInstance_throws (front : pool.availConnection = con :: rest) :
    pool.getSQLInstance true = ({ pool with poolMutex := true }, .throws) := by
  simp [getSQLInstance, front]

/-- `getSQLInstance` takes the first connection. -/
lemma getSQLInstance_gets (front : pool.availConnection = con :: rest) :
    pool.getSQLInstance false = ({ pool with availConnection := rest }, .gets con) := by
  simp [getSQLInstance, front]

end

/-- The rest of `getSQLInstance` if there was no connection. -/
def connect (pool : SQLPool) : SQLPool × Connection := ({ pool with opened := pool.opened + 1 }, pool.opened)

/-- `SQLInstance::~SQLInstance`. -/
def deleteInstance (pool : SQLPool) (con : Connection) : SQLPool :=
  { pool with availConnection := pool.availConnection ++ [con] }

end SQLPool

/-! ### The calls of a push -/

/-- The members of `SQLInstance` that call the driver. -/
inductive SQLCall where
  | createDB (name : Str)
  | setSchema (name : Str)
  | dropTable (name : Str)
  | executeRaw (content : Str)
  | setAutoCommit (value : Bool)
  | commit
  deriving DecidableEq

/-- A call of a function of `Pusher`; `trySql` is one with a handler for `SQLException`. -/
inductive Call where
  | getSQLInstance
  | deleteInstance
  | sql (call : SQLCall)
  | trySql (call : SQLCall)
  deriving DecidableEq

section
variable (p : Pusher)

/-- The INSERT statements of `pushFromFile`, which do not depend on what the server refuses. -/
def inserts : List Str :=
  (pushFromFile (fun _ _ => false) p.tableName p.finalTableCols p.result p.threshold
    { executed := [], failed := [] }).executed

/-- `Pusher::flushSQL`. -/
def flushSQLCalls (sql : Str) : List Call := [.trySql (.executeRaw sql), .sql .commit]

/-- `Pusher::createFinalTable`. -/
def createFinalTable : List Call :=
  [.getSQLInstance, .sql (.createDB p.dbName), .sql (.setSchema p.dbName), .sql (.dropTable p.tableName),
    .trySql (.executeRaw p.finalTable), .deleteInstance]

/-- `Pusher::pushFromFile`. -/
def pushFromFileCalls : List Call :=
  [.getSQLInstance, .sql (.setSchema p.dbName), .sql (.setAutoCommit false),
    .sql (.executeRaw "SET unique_checks=0;".toList)] ++ p.inserts.flatMap flushSQLCalls ++ [.sql .commit]

/-- `Pusher::push`. -/
def push : List Call :=
  [.getSQLInstance, .sql (.createDB p.dbName), .sql (.setSchema p.dbName), .deleteInstance] ++
    p.createFinalTable ++ p.pushFromFileCalls

end

/-! ### Pushes in progress -/

/-- A call of `Pusher::push`: the calls it has still to make, whether it waits for the driver to connect, the
    connection of the instance it made last, if it has not deleted it, and all connections it took from the pool. -/
structure Push where
  calls : List Call
  connecting : Bool
  sqlInstance : Option Connection
  taken : List Connection
  returned : Bool
  deriving DecidableEq

namespace Push

/-- A push before its first call. -/
def start (p : Pusher) : Push :=
  { calls := p.push, connecting := false, sqlInstance := none, taken := [], returned := false }

/-- The instance is made. -/
def takes (push : Push) (con : Connection) : Push :=
  { push with connecting := false, sqlInstance := some con, taken := push.taken ++ [con] }

/-- The next step of a push, if it has one and does not wait for the mutex. An exception that leaves `push`
    leaves no push. -/
def step (pool : SQLPool) (push : Push) (throws : Bool) : Option (SQLPool × Option Push) :=
  if push.returned then none
  else if push.connecting then
    if throws then some (pool, none) else some (pool.connect.1, some (push.takes pool.connect.2))
  else match push.calls with
    | [] => some (pool, some { push with returned := true })
    | .getSQLInstance :: calls =>
      if pool.poolMutex then none
      else match pool.getSQLInstance throws with
        | (pool, .connects) => some (pool, some { push with calls, connecting := true })
        | (pool, .gets con) => some (pool, some ({ push with calls }.takes con))
        | (pool, .throws) => some (pool, none)
    | .deleteInstance :: calls =>
      if pool.poolMutex then none
      else push.sqlInstance.map fun con =>
        (pool.deleteInstance con, some { push with calls, sqlInstance := none })
    | .sql _ :: calls => some (pool, if throws then none else some { push with calls })
    -- the handler prints what was thrown
    | .trySql _ :: calls => some (pool, some { push with calls })

end Push

/-- The pool and the calls of `Pusher::push` so far. -/
structure Program where
  pool : SQLPool
  pushes : List Push
  terminated : Bool
  deriving DecidableEq

/-- A thread takes the next table from the queue, or goes on with its push. -/
inductive Move where
  | start (p : Pusher)
  | step (i : Nat) (throws : Bool)

namespace Program

def new : Program := { pool := .new, pushes := [], terminated := false }

def step (s : Program) (m : Move) : Option Program :=
  if s.terminated then none
  else match m with
    | .start p => some { s with pushes := s.pushes ++ [.start p] }
    | .step i throws => do
      let push ← s.pushes[i]?
      let (pool, push) ← push.step s.pool throws
      match push with
      | none => some { s with pool, terminated := true }
      | some push => some { s with pool, pushes := s.pushes.set i push }

/-- The number of pushes that have not returned. -/
def inProgress (s : Program) : Nat := s.pushes.countP fun push => !push.returned

/-- A run: the states it was in, and the last. -/
def Ran (past : List Program) (s : Program) : Prop :=
  Emits Program.step (fun s _ => [s]) (fun _ _ => True) .new past s

end Program

end Pusher

end TdsqlMerge
