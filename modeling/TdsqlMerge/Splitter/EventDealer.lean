import Mathlib.Data.List.AList
import Mathlib.Data.List.Infix
import TdsqlMerge.Lib.Machine
import TdsqlMerge.Splitter.DDLCompatWriter
import TdsqlMerge.Splitter.RowParser

/-!
# Dealing with the events of a binlog

Embedding of `extfetcher/src/EventDealer.java` as a machine whose steps interleave the main thread, the
threads that parse rows events and the thread that writes parsed rows back.

The main thread stands at a `Point` of the code. An update of the maps with the files it opens is one
step: the other threads see of it only the closed writer and the new entry of `tableWriterLookup`. The
loop of `dropTableWriterAndDdlSql` closes one writer a step, in any order. A submitted rows event may be
parsed at any later time; `backlog` is the queue of `backWriteExecutor`, whose first list is the one being
written, and `writing` is a writer that was looked up and not yet written to. `awaitTermination` waits
until the threads are idle; its limit of an hour and the bounds of the queues, which only block the main
thread, are left out. An exception of `dealEvent` is `Point.failed`, and `closeAll` is taken not to throw.
One of the write-back thread ends its list unless it is the `ExecutionException` of a row that did not
parse or the `IOException` of a closed writer. What a writer buffers counts as written, since every writer
that is replaced is closed first and `closeAll` closes the rest.

`parse` stands for `SQLParser.parse` and `repository.console`, where `none` is an exception. An event is
known by its place in the stream `dealt`. The files `finalTable.sql` and `finalTableCols.txt` that
`closeAll` takes from the repository are left out here.
-/

namespace TdsqlMerge.Splitter
open Lib

/-- `ImmutablePair<String, String>`: a database and a table. -/
abbrev Key := Str × Str

/-- The parts of `QueryLogEvent` that are read. -/
structure QueryLogEvent where
  dbName : Str
  query : Str
  deriving DecidableEq

/-- The parts of `RowsLogEvent` that are read. -/
structure RowsLogEvent where
  dbName : Str
  tableName : Str
  type : RowsType
  images : List (List (Bool × Value))
  deriving DecidableEq

/-- The events that `dealEvent` tells apart. -/
inductive LogEvent where
  | query (event : QueryLogEvent)
  | rows (event : RowsLogEvent)
  | other
  deriving DecidableEq

/-- The key of the `waitWriteItem` that `dealEventData(RowsLogEvent)` returns. -/
def RowsLogEvent.key (event : RowsLogEvent) : Key := (event.dbName, replace '`' event.tableName)

/-- The text of the `waitWriteItem`; `none` if parsing throws. -/
def RowsLogEvent.str (event : RowsLogEvent) : Option Str := parseRowsEvent event.type event.images []

/-- A `Future<waitWriteItem>`: the rows event and its place in the stream. -/
structure Future where
  event : Nat
  rows : RowsLogEvent

/-- A `BufferedWriter` on `state.dat` of a table, named by the place of the statement it was opened for. -/
structure BufferedWriter where
  id : Nat
  key : Key
  state : Nat

/-- The text of a rows event in a file. -/
structure Chunk where
  event : Nat
  str : Str
  deriving DecidableEq

/-- A `.dat` file: the place of the statement it was last opened for, and what was written since. -/
structure DatFile where
  opened : Nat
  chunks : List Chunk

/-- A `.ddl` file: the place of the statement it was last opened for, and its lines. -/
structure DdlFile where
  opened : Nat
  lines : List Str

/-- Where the main thread stands. -/
inductive Point where
  | idle
  /-- Before the `writeBack` of `dealEvent` for a query, or of `waitIt`. -/
  | draining (next : Option QueryLogEvent)
  | awaitParse (next : Option QueryLogEvent)
  | awaitBack (next : Option QueryLogEvent)
  /-- At the call of `dealEventData` for a query. -/
  | query (event : QueryLogEvent)
  /-- In the loop of `dropTableWriterAndDdlSql`. -/
  | dropping (event : QueryLogEvent)
  /-- After a rows event was submitted. -/
  | submitted
  | waited
  | closed
  | failed
  deriving DecidableEq

/-- The fields of `EventDealer`, its threads and the files of its source below `binlogFolder`. -/
structure EventDealer where
  point : Point
  dealt : List LogEvent
  tableAlterStateLookup : AList fun _ : Key => Nat
  tableWriterLookup : AList fun _ : Key => BufferedWriter
  closed : List Nat
  procResult : List Future
  running : List Nat
  backlog : List (List Future)
  writing : Option (BufferedWriter × Future × Str)
  dat : Key × Nat → Option DatFile
  ddl : Key × Nat → Option DdlFile
  cnt : Key → Option Nat

/-- `EventDealer::EventDealer` over an empty folder. -/
def EventDealer.new : EventDealer :=
  { point := .idle, dealt := [], tableAlterStateLookup := ∅, tableWriterLookup := ∅, closed := [],
    procResult := [], running := [], backlog := [], writing := none, dat := fun _ => none,
    ddl := fun _ => none, cnt := fun _ => none }

/-- `entrySet().removeIf` with a condition on the key. -/
def removeIf {β : Type} (p : Key → Bool) (m : AList fun _ : Key => β) : AList fun _ : Key => β :=
  ⟨m.entries.filter fun e => !p e.1, m.nodupKeys.sublist List.filter_sublist⟩

/-- `queryStr.contains`. -/
def contains (needle queryStr : Str) : Bool := decide (needle <:+: queryStr)

/-- The query texts for which `dealEvent` drains both executors first. -/
def drains (queryStr : Str) : Bool :=
  queryStr ≠ "BEGIN".toList && queryStr ≠ "COMMIT".toList && !contains "create".toList queryStr &&
    !contains "CREATE".toList queryStr

namespace EventDealer

/-- The rows events that are submitted and not written, in their order. -/
def unwritten (s : EventDealer) : List Future :=
  (s.writing.map fun w => w.2.1).toList ++ s.backlog.flatten ++ s.procResult

/-- `writeBack`. -/
def writeBack (s : EventDealer) : EventDealer :=
  { s with procResult := [], backlog := s.backlog ++ [s.procResult] }

/-- `dealEvent`, up to the drain for a query and to the submission of a rows event. -/
def dealEvent (s : EventDealer) : LogEvent → EventDealer
  | .query event =>
    { s with point := if drains event.query then .draining (some event) else .query event }
  | .rows event =>
    { s with
      point := .submitted
      procResult := s.procResult ++ [{ event := s.dealt.length, rows := event }]
      running := s.running ++ [s.dealt.length]
      dealt := s.dealt ++ [.rows event] }
  | .other => { s with dealt := s.dealt ++ [.other] }

/-- The part of `updateTableWriterAndDdlSql` after the state of the table is known. -/
def openState (s : EventDealer) (event : QueryLogEvent) (key : Key) (statement : SQLStatement)
    (state : Nat) : EventDealer :=
  { s with
    point := if (writeDDLCompat statement).isSome then .idle else .failed
    dealt := s.dealt ++ [.query event]
    tableAlterStateLookup := s.tableAlterStateLookup.insert key state
    tableWriterLookup := s.tableWriterLookup.insert key { id := s.dealt.length, key, state }
    dat := Function.update s.dat (key, state) (some { opened := s.dealt.length, chunks := [] })
    ddl := Function.update s.ddl (key, state)
      (some { opened := s.dealt.length, lines := (writeDDLCompat statement).getD [] }) }

/-- `updateTableWriterAndDdlSql`. -/
def updateTableWriterAndDdlSql (s : EventDealer) (event : QueryLogEvent) (tableName : SQLName)
    (statement : SQLStatement) : EventDealer :=
  let key := (event.dbName, replace '`' tableName.getSimpleName)
  match s.tableAlterStateLookup.lookup key with
  | none => s.openState event key statement 0
  | some state =>
    match s.tableWriterLookup.lookup key with
    | none => { s with point := .failed }
    | some writer =>
      openState { s with closed := writer.id :: s.closed } event key statement (state + 1)

/-- `dealEventData(QueryLogEvent)`. -/
def dealEventData (parse : Str → Option SQLStatement) (s : EventDealer) (event : QueryLogEvent) :
    EventDealer :=
  if event.query = "BEGIN".toList ∨ event.query = "COMMIT".toList then
    { s with point := .idle, dealt := s.dealt ++ [.query event] }
  else match parse event.query with
    | none => { s with point := .failed }
    | some (.createTable tableName cols keys) =>
      s.updateTableWriterAndDdlSql event tableName (.createTable tableName cols keys)
    | some (.alterTable tableName items) =>
      s.updateTableWriterAndDdlSql event tableName (.alterTable tableName items)
    | some .dropDatabase => { s with point := .dropping event }
    | some .other => { s with point := .idle, dealt := s.dealt ++ [.query event] }

/-- The end of `dropTableWriterAndDdlSql`, after its loop has closed every writer. -/
def forgetDatabase (s : EventDealer) (event : QueryLogEvent) : EventDealer :=
  { s with
    point := .idle
    dealt := s.dealt ++ [.query event]
    tableWriterLookup := removeIf (fun key => key.1 = event.dbName) s.tableWriterLookup
    tableAlterStateLookup := removeIf (fun key => key.1 = event.dbName) s.tableAlterStateLookup }

/-- A step of the main thread within `dealEvent` or `waitIt`. -/
def main (parse : Str → Option SQLStatement) (s : EventDealer) : Option EventDealer :=
  match s.point with
  | .draining next => some { s.writeBack with point := .awaitParse next }
  | .awaitParse next => if s.running = [] then some { s with point := .awaitBack next } else none
  | .awaitBack next =>
    if s.backlog = [] ∧ s.writing = none then
      some { s with point := match next with | some event => .query event | none => .waited }
    else none
  | .query event => some (s.dealEventData parse event)
  | .dropping event =>
    if ∀ e ∈ s.tableWriterLookup.entries, e.2.id ∈ s.closed then some (s.forgetDatabase event) else none
  | .submitted => some { (if s.procResult.length ≥ 40 then s.writeBack else s) with point := .idle }
  | _ => none

/-- The end of `writer.write`: the text is lost if the writer is closed. -/
def endWrite (s : EventDealer) (writer : BufferedWriter) (fut : Future) (str : Str) : EventDealer :=
  if writer.id ∈ s.closed then { s with writing := none }
  else { s with
    writing := none
    dat := Function.update s.dat (writer.key, writer.state)
      ((s.dat (writer.key, writer.state)).map fun file =>
        { file with chunks := file.chunks ++ [{ event := fut.event, str }] }) }

/-- A step of the write-back thread. -/
def back (s : EventDealer) : Option EventDealer :=
  match s.writing with
  | some (writer, fut, str) => some (s.endWrite writer fut str)
  | none =>
    match s.backlog with
    | [] => none
    | [] :: rest => some { s with backlog := rest }
    | (fut :: futs) :: rest =>
      if fut.event ∈ s.running then none
      else match fut.rows.str with
        | none => some { s with backlog := futs :: rest }
        | some str =>
          match s.tableWriterLookup.lookup fut.rows.key with
          | none => some { s with backlog := rest }
          | some writer => some { s with backlog := futs :: rest, writing := some (writer, fut, str) }

/-- `closeAll`. -/
def closeAll (s : EventDealer) : EventDealer :=
  { s with
    point := .closed
    cnt := s.tableAlterStateLookup.entries.foldl
      (fun cnt e => Function.update cnt e.1 (some (e.2 + 1))) s.cnt
    closed := s.tableWriterLookup.entries.map (fun e => e.2.id) ++ s.closed }

end EventDealer

/-- What the threads do: the main thread takes an event, calls `waitIt` or `closeAll`, closes the writer of
    a key or goes on; a rows event is parsed; the write-back thread goes on. -/
inductive Action where
  | deal (event : LogEvent)
  | waitIt
  | closeAll
  | close (key : Key)
  | main
  | parse (event : Nat)
  | back

/-- A step of the machine. -/
def EventDealer.step (parse : Str → Option SQLStatement) (s : EventDealer) : Action → Option EventDealer
  | .deal event => match s.point with
    | .idle => some (s.dealEvent event)
    | _ => none
  | .waitIt => match s.point with
    | .idle => some { s with point := .draining none }
    | _ => none
  | .closeAll => match s.point with
    | .waited => some s.closeAll
    | _ => none
  | .close key => match s.point with
    | .dropping _ => (s.tableWriterLookup.lookup key).map fun writer =>
      { s with closed := writer.id :: s.closed }
    | _ => none
  | .main => s.main parse
  | .parse event =>
    if event ∈ s.running then some { s with running := s.running.erase event } else none
  | .back => s.back

/-- The states of an `EventDealer`. -/
def Reachable (parse : Str → Option SQLStatement) (s : EventDealer) : Prop :=
  Steps (EventDealer.step parse) (fun _ _ => True) .new s

end TdsqlMerge.Splitter
