import TdsqlMerge.Splitter.Progress
import TdsqlMerge.Splitter.Tree

/-!
# The folder that splitting leaves

What a call of `doSplit` leaves below the binlog folder is a function of the events (`SplitInto`): for each table, a
`.ddl` file for each of its statements, and with it the `.dat` file that has the lines of the rows events up to the next
one. `split_into` says so for every schedule of the threads, if no write fails, each statement on a table
that is there drains the executors first, and no query throws.
-/

namespace TdsqlMerge.Splitter
open Lib

section
variable (parse : Str → Option SQLStatement)

/-- The CREATE or ALTER statement of an event on a table. -/
def LogEvent.statementOn (key : Key) (e : LogEvent) : Option SQLStatement :=
  if e.updates parse = some key then
    match e with
    | .query event => parse event.query
    | _ => none
  else none

/-- The CREATE and ALTER statements on a table, in their order. -/
def statementsOn (key : Key) (events : List LogEvent) : List SQLStatement :=
  events.filterMap fun e => e.statementOn parse key

/-- The folder holds what belongs into it after these events. -/
structure SplitInto (events : List LogEvent) (s : EventDealer) : Prop where
  cnt : ∀ key, s.cnt key =
    if statements parse key events = 0 then none else some (statements parse key events)
  ddl : ∀ key k, (s.ddl (key, k)).map DdlFile.lines =
    ((statementsOn parse key events)[k]?).map fun statement => (writeDDLCompat statement).getD []
  dat : ∀ key k, (s.dat (key, k)).isSome = true ↔ k < statements parse key events
  chunks : ∀ key k, chunksAt s.dat key k = belonging parse events key k (futures events)

/-- Each statement on a table that is there drains the executors first. -/
def Drains (events : List LogEvent) : Prop :=
  ∀ i event key, events[i]? = some (.query event) → (LogEvent.query event).updates parse = some key →
    drains event.query = true ∨ statements parse key (events.take i) = 0

end

variable {parse : Str → Option SQLStatement} {s s' : EventDealer} {dealt events : List LogEvent}

/-- A statement that updates a table is one that was parsed. -/
lemma updates_parses {e : LogEvent} {key : Key} (updates : e.updates parse = some key) :
    ∃ event statement, e = .query event ∧ parse event.query = some statement := by
  cases e with
  | query event =>
    rw [LogEvent.updates.eq_def] at updates
    dsimp only at updates
    split at updates
    · cases updates
    · cases parses : parse event.query with
      | none =>
        rw [parses] at updates
        cases updates
      | some statement => exact ⟨event, statement, rfl, parses⟩
  | rows r => cases updates
  | other => cases updates

/-- The statements of events that follow others. -/
lemma statementsOn_append {key : Key} {later : List LogEvent} :
    statementsOn parse key (dealt ++ later) = statementsOn parse key dealt ++ statementsOn parse key later :=
  List.filterMap_append

/-- An event that does not update the table is no statement of it. -/
lemma statementsOn_neutral {key : Key} {e : LogEvent} (updates : e.updates parse ≠ some key) :
    statementsOn parse key (dealt ++ [e]) = statementsOn parse key dealt := by
  have nothing : e.statementOn parse key = none := if_neg updates
  rw [statementsOn_append, statementsOn, statementsOn, List.filterMap_cons_none nothing, List.filterMap_nil,
    List.append_nil]

/-- A query that updates the table is its last statement. -/
lemma statementsOn_concat {key : Key} {event : QueryLogEvent} {statement : SQLStatement}
    (updates : (LogEvent.query event).updates parse = some key) (parses : parse event.query = some statement) :
    statementsOn parse key (dealt ++ [.query event]) = statementsOn parse key dealt ++ [statement] := by
  have here : (LogEvent.query event).statementOn parse key = some statement := (if_pos updates).trans parses
  rw [statementsOn_append, statementsOn, statementsOn, List.filterMap_cons_some here, List.filterMap_nil]

/-- The statements are as many as are counted. -/
lemma length_statementsOn {key : Key} : (statementsOn parse key dealt).length = statements parse key dealt := by
  induction dealt using List.reverseRecOn with
  | nil => rfl
  | append_singleton dealt e ih =>
    rw [statements_concat, ← ih]
    by_cases updates : e.updates parse = some key
    · obtain ⟨event, statement, rfl, parses⟩ := updates_parses updates
      rw [statementsOn_concat updates parses, List.length_append, if_pos updates, List.length_singleton]
    · rw [statementsOn_neutral updates, if_neg updates, Nat.add_zero]

/-- What a statement opens: the next state of its table. -/
lemma dealEventData_opens {event : QueryLogEvent} {key : Key} (co : Coherent parse s)
    (updates : (LogEvent.query event).updates parse = some key) :
    ∃ closed statement, parse event.query = some statement ∧
      s.dealEventData parse event = EventDealer.openState { s with closed } event key statement
        ((s.tableAlterStateLookup.lookup key).elim 0 (· + 1)) := by
  have begins : ¬ (event.query = "BEGIN".toList ∨ event.query = "COMMIT".toList) := by
    intro begins
    rw [LogEvent.updates, if_pos begins] at updates
    cases updates
  have table : ∀ (tableName : SQLName) statement, key = (event.dbName, replace '`' tableName.getSimpleName) →
      ∃ closed, s.updateTableWriterAndDdlSql event tableName statement =
        EventDealer.openState { s with closed } event key statement
          ((s.tableAlterStateLookup.lookup key).elim 0 (· + 1)) := by
    rintro tableName statement rfl
    rw [EventDealer.updateTableWriterAndDdlSql]
    cases at_key : s.tableAlterStateLookup.lookup (event.dbName, replace '`' tableName.getSimpleName) with
    | none => exact ⟨s.closed, rfl⟩
    | some state =>
      obtain ⟨writer, found⟩ := co.mapped _ _ at_key
      rw [found]
      exact ⟨writer.id :: s.closed, rfl⟩
  rw [LogEvent.updates, if_neg begins] at updates
  rw [EventDealer.dealEventData, if_neg begins]
  cases parses : parse event.query with
  | none =>
    rw [parses] at updates
    cases updates
  | some statement =>
    rw [parses] at updates
    cases statement with
    | createTable tableName columns keys =>
      obtain ⟨closed, opens⟩ := table tableName (.createTable tableName columns keys) (Option.some.inj updates).symm
      exact ⟨closed, _, rfl, opens⟩
    | alterTable tableName items =>
      obtain ⟨closed, opens⟩ := table tableName (.alterTable tableName items) (Option.some.inj updates).symm
      exact ⟨closed, _, rfl, opens⟩
    | dropDatabase => cases updates
    | other => cases updates

/-- The `.ddl` files hold the statements, and each has a `.dat` file. -/
structure Laid (parse : Str → Option SQLStatement) (s : EventDealer) : Prop where
  ddl : ∀ key k, (s.ddl (key, k)).map DdlFile.lines =
    ((statementsOn parse key s.dealt)[k]?).map fun statement => (writeDDLCompat statement).getD []
  dat : ∀ key k, (s.dat (key, k)).isSome = true ↔ k < statements parse key s.dealt

/-- Steps that leave the files alone keep the folder laid. -/
lemma Laid.frame (la : Laid parse s) (ddl : s'.ddl = s.ddl)
    (dat : ∀ place, (s'.dat place).isSome = (s.dat place).isSome)
    (dealt : s'.dealt = s.dealt ∨ ∃ e, s'.dealt = s.dealt ++ [e] ∧ e.updates parse = none) : Laid parse s' := by
  have same : ∀ key, statementsOn parse key s'.dealt = statementsOn parse key s.dealt := by
    intro key
    rcases dealt with dealt | ⟨e, dealt, updates⟩
    · rw [dealt]
    · rw [dealt, statementsOn_neutral (by rw [updates]; exact nofun)]
  constructor
  · intro key k
    rw [ddl, same]
    exact la.ddl key k
  · intro key k
    rw [dat, ← length_statementsOn, same, length_statementsOn]
    exact la.dat key k

/-- Opening the files of the next state keeps the folder laid. -/
lemma Laid.open {event : QueryLogEvent} {key : Key} {statement : SQLStatement} {closed : List Nat}
    (la : Laid parse s) (updates : (LogEvent.query event).updates parse = some key)
    (parses : parse event.query = some statement) :
    Laid parse (EventDealer.openState { s with closed } event key statement (statements parse key s.dealt)) := by
  have after : (EventDealer.openState { s with closed } event key statement (statements parse key s.dealt)).dealt =
      s.dealt ++ [.query event] := rfl
  have ddl : (EventDealer.openState { s with closed } event key statement (statements parse key s.dealt)).ddl =
      Function.update s.ddl (key, statements parse key s.dealt)
        (some { opened := s.dealt.length, lines := (writeDDLCompat statement).getD [] }) := rfl
  have dat : (EventDealer.openState { s with closed } event key statement (statements parse key s.dealt)).dat =
      Function.update s.dat (key, statements parse key s.dealt) (some { opened := s.dealt.length, chunks := [] }) := rfl
  constructor
  · intro key' k
    rw [after, ddl]
    by_cases same : key' = key
    · subst same
      rw [statementsOn_concat updates parses]
      rcases Nat.lt_trichotomy k (statementsOn parse key' s.dealt).length with lt | here | gt
      · rw [List.getElem?_append_left lt, Function.update_of_ne, la.ddl]
        rintro e
        rw [length_statementsOn] at lt
        exact absurd (Prod.mk.inj e).2 (Nat.ne_of_lt lt)
      · rw [here, length_statementsOn, Function.update_self, ← length_statementsOn, List.getElem?_concat_length]
        rfl
      · have beyond : (statementsOn parse key' s.dealt ++ [statement]).length ≤ k := by
          rw [List.length_append, List.length_singleton]
          exact gt
        rw [List.getElem?_eq_none beyond, Function.update_of_ne, la.ddl, List.getElem?_eq_none (Nat.le_of_lt gt)]
        rintro e
        rw [length_statementsOn] at gt
        exact absurd (Prod.mk.inj e).2 (Nat.ne_of_gt gt)
    · rw [statementsOn_neutral fun e => same (Option.some.inj (updates ▸ e)).symm, Function.update_of_ne, la.ddl]
      exact fun e => same (Prod.mk.inj e).1
  · intro key' k
    rw [after, dat, statements_concat]
    by_cases here : (key', k) = (key, statements parse key s.dealt)
    · obtain ⟨rfl, rfl⟩ := Prod.mk.inj here
      rw [Function.update_self, if_pos updates]
      exact ⟨fun _ => Nat.lt_succ_self _, fun _ => rfl⟩
    · rw [Function.update_of_ne here, la.dat]
      by_cases same : key' = key
      · subst same
        have ne : k ≠ statements parse key' s.dealt := fun e => here (e ▸ rfl)
        rw [if_pos updates]
        omega
      · rw [if_neg fun e => same (Option.some.inj (updates ▸ e)).symm, Nat.add_zero]

/-- The first part of a stream is a stream. -/
lemma Stream.before {later : List LogEvent} (stream : Stream parse (dealt ++ later)) : Stream parse dealt := by
  induction later using List.reverseRecOn with
  | nil => rwa [List.append_nil] at stream
  | append_singleton later e ih =>
    rw [← List.append_assoc] at stream
    exact ih stream.init

/-- Before a step the stream was one. -/
lemma Effect.before {a : Action} (ef : Effect parse s a s') (stream : Stream parse s'.dealt) :
    Stream parse s.dealt := by
  rcases ef.appends with same | ⟨e, more⟩
  · rwa [← same]
  · rw [more] at stream
    exact stream.init

/-- The step of a statement lays its files, every other step leaves them. -/
lemma Laid.step {a : Action} (la : Laid parse s) (stage : Staged parse s) (co : Coherent parse s)
    (stream : Stream parse s'.dealt) (st : s.step parse a = some s') : Laid parse s' := by
  have ef := step_effect st
  have opens : ∀ event key, a = .main → s.point = .query event →
      (LogEvent.query event).updates parse = some key → Laid parse s' := by
    rintro event key rfl at_query updates
    obtain ⟨closed, statement, parses, opened⟩ := dealEventData_opens co updates
    simp only [EventDealer.step, EventDealer.main, at_query, Option.some.injEq] at st
    rw [co.state_statements (ef.before stream)] at opened
    rw [← st, opened]
    exact la.open updates parses
  cases ef with
  | quiet q same => exact la.frame q.ddl (fun place => by rw [q.dat]) (.inl same)
  | noted e q neutral more => exact la.frame q.ddl (fun place => by rw [q.dat]) (.inr ⟨e, more, neutral.updates⟩)
  | submitted r => exact la.frame rfl (fun _ => rfl) (.inr ⟨.rows r, rfl, rfl⟩)
  | created event key statement at_query updates => exact opens event key rfl at_query updates
  | advanced event key statement state writer at_query updates => exact opens event key rfl at_query updates
  | closing => exact la.frame rfl (fun _ => rfl) (.inl rfl)
  | forgot event dropping =>
    have dropped := stream.kept (.query event) (List.mem_append_right _ List.mem_cons_self)
    rw [stage.drops dropping] at dropped
    cases dropped
  | written writer fut str writing =>
    have ddl : (s.endWrite writer fut str).ddl = s.ddl ∧ (s.endWrite writer fut str).dealt = s.dealt := by
      rw [EventDealer.endWrite]
      split <;> exact ⟨rfl, rfl⟩
    apply la.frame ddl.1 _ (.inl ddl.2)
    intro place
    have opened : ((s.endWrite writer fut str).dat place).map DatFile.opened = (s.dat place).map DatFile.opened :=
      endWrite_file
    have known := congrArg Option.isSome opened
    rwa [Option.isSome_map, Option.isSome_map] at known
  | took => exact la.frame rfl (fun _ => rfl) (.inl rfl)
  | skipped => exact la.frame rfl (fun _ => rfl) (.inl rfl)
  | abandoned => exact la.frame rfl (fun _ => rfl) (.inl rfl)
  | finished => exact la.frame rfl (fun _ => rfl) (.inl rfl)

/-- In a new dealer there are no files. -/
lemma Laid.new : Laid parse .new := ⟨fun _ _ => rfl, fun _ _ => ⟨nofun, nofun⟩⟩

/-- In every run over a stream the folder is laid. -/
lemma run_laid (run : Reachable parse s) (stream : Stream parse s.dealt) : Laid parse s := by
  revert stream
  refine run.invariant_along (I := fun s => Stream parse s.dealt → Laid parse s) (fun _ => .new) ?_
  intro s a s' before ih _ st stream
  obtain ⟨stage, co⟩ := reachable_coherent before
  exact (ih ((step_effect st).before stream)).step stage co stream st

/-! ## The end of a run -/

/-- `closeAll` is called once, after `waitIt`. -/
lemma closed_origin {a : Action} (co : Coherent parse s) (st : s.step parse a = some s') (closed : s'.point = .closed) :
    s.point = .closed ∨ s.point = .waited ∧ s' = s.closeAll := by
  cases a with
  | deal event =>
    simp only [EventDealer.step] at st
    split at st
    · rw [Option.some.injEq] at st
      subst st
      rename_i idle
      cases event with
      | query event =>
        rw [EventDealer.dealEvent] at closed
        dsimp only at closed
        split at closed <;> cases closed
      | rows r => cases closed
      | other => cases idle.symm.trans closed
    · cases st
  | waitIt =>
    simp only [EventDealer.step] at st
    split at st
    · rw [Option.some.injEq] at st
      subst st
      cases closed
    · cases st
  | closeAll =>
    simp only [EventDealer.step] at st
    split at st
    · rename_i waited
      rw [Option.some.injEq] at st
      exact .inr ⟨waited, st.symm⟩
    · cases st
  | close key =>
    simp only [EventDealer.step] at st
    split at st
    · obtain ⟨writer, _, rfl⟩ := Option.map_eq_some_iff.mp st
      exact .inl closed
    · cases st
  | main =>
    left
    rw [EventDealer.step, EventDealer.main.eq_def] at st
    split at st
    · cases st
      cases closed
    · split_ifs at st
      cases st
      cases closed
    · rename_i next _
      split_ifs at st
      cases st
      cases next <;> cases closed
    · rename_i event _
      cases st
      rcases dealEventData_read event co.mapped with ⟨point, _⟩ | ⟨point, _⟩ | ⟨point, _⟩ <;>
      · rw [point] at closed
        cases closed
    · split_ifs at st
      cases st
      cases closed
    · cases st
      cases closed
    · cases st
  | parse event =>
    simp only [EventDealer.step] at st
    split_ifs at st
    cases st
    exact .inl closed
  | back => exact .inl ((back_suffix st).1.symm.trans closed)

/-- After `closeAll` the threads that are left change no file. -/
lemma closed_still {a : Action} (st : s.step parse a = some s') (closed : s.point = .closed)
    (written : s.unwritten = []) : s'.dat = s.dat ∧ s'.dealt = s.dealt ∧ s'.cnt = s.cnt := by
  cases a with
  | parse event =>
    simp only [EventDealer.step] at st
    split_ifs at st
    cases st
    exact ⟨rfl, rfl, rfl⟩
  | back =>
    have none_left : ∀ fut, fut ∉ s.unwritten := by
      rw [written]
      exact fun _ => List.not_mem_nil
    have progress := back_progress st
    generalize s.outcomes (.act .back) = os at progress
    cases progress with
    | idle q same => exact ⟨q.dat, same, q.cnt⟩
    | took writer fut str futs rest writing backlog => exact ⟨rfl, rfl, rfl⟩
    | written writer fut str writing => exact absurd (mem_unwritten writing) (none_left fut)
    | unwritable => exact ⟨rfl, rfl, rfl⟩
    | unparsed => exact ⟨rfl, rfl, rfl⟩
    | noWriter => exact ⟨rfl, rfl, rfl⟩
  | deal event => simp only [EventDealer.step, closed] at st; cases st
  | waitIt => simp only [EventDealer.step, closed] at st; cases st
  | closeAll => simp only [EventDealer.step, closed] at st; cases st
  | close key => simp only [EventDealer.step, closed] at st; cases st
  | main => simp only [EventDealer.step, EventDealer.main, closed] at st; cases st

/-- After `waitIt` every file holds what belongs into it. -/
lemma waited_chunks (run : Steps (EventDealer.step parse) (fun s a => settled parse s a = true) .new s)
    (waited : s.point = .waited) (stream : Stream parse s.dealt) (key : Key) (k : Nat) :
    chunksAt s.dat key k = belonging parse s.dealt key k (futures s.dealt) := by
  rcases run_filed run stream with (⟨event, dropping⟩ | closed) | fi
  · rw [waited] at dropping
    cases dropping
  · rw [waited] at closed
    cases closed
  · obtain ⟨done, split, files⟩ := fi.files
    have stage := (reachable_coherent (run.imp fun _ _ _ => trivial)).1
    rw [Staged, waited] at stage
    rw [stage, List.append_nil] at split
    rw [← split]
    exact files key k

/-- After `closeAll` the folder holds what belongs into it. -/
lemma closed_split (run : Steps (EventDealer.step parse) (fun s a => settled parse s a = true) .new s)
    (closed : s.point = .closed) (stream : Stream parse s.dealt) : SplitInto parse s.dealt s := by
  have laid := run_laid (run.imp fun _ _ _ => trivial) stream
  have ends : (∀ key k, chunksAt s.dat key k = belonging parse s.dealt key k (futures s.dealt)) ∧
      ∀ key, s.cnt key = if statements parse key s.dealt = 0 then none else some (statements parse key s.dealt) := by
    clear laid
    revert closed stream
    refine run.invariant_along (I := fun s => s.point = .closed → Stream parse s.dealt →
      (∀ key k, chunksAt s.dat key k = belonging parse s.dealt key k (futures s.dealt)) ∧
      ∀ key, s.cnt key = if statements parse key s.dealt = 0 then none else some (statements parse key s.dealt))
      (fun new => by cases new) ?_
    intro s1 a s2 before ih _ st closed stream
    have reached : Reachable parse s1 := before.imp fun _ _ _ => trivial
    obtain ⟨stage, co⟩ := reachable_coherent reached
    rcases closed_origin co st closed with still | ⟨waited, rfl⟩
    · rw [Staged, still] at stage
      obtain ⟨dat, dealt, cnt⟩ := closed_still st still stage
      rw [dealt] at stream
      rw [dat, dealt, cnt]
      exact ih still stream
    · have chunks := waited_chunks before waited stream
      refine ⟨chunks, fun key => ?_⟩
      have uncounted : s1.cnt = fun _ => none := by
        rcases run_uncounted reached with closed | none
        · rw [waited] at closed
          cases closed
        · exact none
      have counted : (s1.tableAlterStateLookup.lookup key).elim 0 (· + 1) = statements parse key s1.dealt :=
        co.state_statements stream
      have same : s1.closeAll.dealt = s1.dealt := rfl
      rw [closeAll_cnt uncounted, same, ← counted]
      cases s1.tableAlterStateLookup.lookup key with
      | none => rfl
      | some state => exact (if_neg (Nat.succ_ne_zero state)).symm
  exact ⟨ends.2, laid.ddl, laid.dat, ends.1⟩

section
variable {t t' : CanalSplitter}

/-- Where every statement on a table that is there drains, no step advances a table with unwritten rows. -/
lemma Reading.settled (re : Reading parse events t) (co : Coherent parse t.eventDealer)
    (stream : Stream parse events) (drains : Drains parse events) (a : Action) :
    settled parse t.eventDealer a = true := by
  cases a with
  | main =>
    rw [Splitter.settled.eq_def]
    split
    · rename_i event _ at_query
      have read := re.read (by rw [at_query]; exact nofun)
      rw [at_query, Point.pending, List.append_assoc] at read
      have here : events[t.eventDealer.dealt.length]? = some (.query event) := by
        rw [← read, List.getElem?_append_right (Nat.le_refl _), Nat.sub_self]
        rfl
      have before : events.take t.eventDealer.dealt.length = t.eventDealer.dealt := by
        rw [← read, List.take_left]
      cases updates : (LogEvent.query event).updates parse with
      | none => exact Bool.or_true _
      | some key =>
        rcases drains _ event key here updates with drains | first
        · rw [drains]
          rfl
        · rw [← read] at stream
          have counted : (t.eventDealer.tableAlterStateLookup.lookup key).elim 0 (· + 1) =
              statements parse key t.eventDealer.dealt := co.state_statements stream.before
          rw [before] at first
          rw [first] at counted
          cases at_key : t.eventDealer.tableAlterStateLookup.lookup key with
          | none =>
            dsimp only
            rw [at_key, Option.isNone_none, Bool.true_or, Bool.or_true]
          | some state =>
            rw [at_key] at counted
            cases counted
    · rfl
  | _ => rfl

/-- The run of `eventDealer` in a run in which no write fails. -/
lemma run_settled (run : Steps (CanalSplitter.step parse) (fun _ turn => turn ≠ .writeFails) (.new events) t)
    (stream : Stream parse events) (drains : Drains parse events) :
    Steps (EventDealer.step parse) (fun s a => settled parse s a = true) .new t.eventDealer := by
  apply run.simulates CanalSplitter.eventDealer
  intro t1 turn t2 before other st
  have run1 : Steps (CanalSplitter.step parse) (fun _ _ => True) (.new events) t1 := before.imp fun _ _ _ => trivial
  have settles := (run_reading run1).settled (reached_known (run_simulates run1)).coherent stream drains
  rcases (step_turned (run_paired run1).opened st).deals with same | ⟨a, st⟩ | ⟨fails, _⟩
  · exact .inl same
  · exact .inr ⟨a, settles a, st⟩
  · exact absurd fails other

/-- Splitting these events ended: each table is created before its rows, no database is dropped, each statement on a
    table that is there drains, no query throws, and no write failed. -/
structure SplitOf (parse : Str → Option SQLStatement) (events : List LogEvent) (t : CanalSplitter) : Prop where
  stream : Stream parse events
  drains : Drains parse events
  parses : ∀ event, .query event ∈ events → ¬ Fails parse event
  run : Steps (CanalSplitter.step parse) (fun _ turn => turn ≠ .writeFails) (.new events) t
  final : Final (CanalSplitter.step parse) t

/-- A split has closed its files after all events. -/
lemma SplitOf.closed (sp : SplitOf parse events t) :
    t.eventDealer.point = .closed ∧ t.eventDealer.dealt = events := by
  obtain ⟨_, _, ⟨closed, dealt, _⟩ | ⟨_, event, mem, fails⟩⟩ := run_final (sp.run.imp fun _ _ _ => trivial) sp.final
  · exact ⟨closed, dealt⟩
  · exact absurd fails (sp.parses event mem)

/-- A split has filled the folder. -/
lemma SplitOf.folder (sp : SplitOf parse events t) : SplitInto parse events t.eventDealer := by
  obtain ⟨closed, dealt⟩ := sp.closed
  have files := closed_split (run_settled sp.run sp.stream sp.drains) closed (dealt ▸ sp.stream)
  rwa [dealt] at files

/-- Splitting ends with the folder that the events call for, for every schedule of the threads. -/
theorem split_into (sp : SplitOf parse events t) :
    t.eventDealer.point = .closed ∧ SplitInto parse events t.eventDealer :=
  ⟨sp.closed.1, sp.folder⟩

/-- After `closeAll`, no thread can go on whose executor has nothing left. -/
lemma final_closed (closed : t.eventDealer.point = .closed) (parsed : t.executor.tasks = [])
    (listed : t.backWriteExecutor.tasks = []) (written : t.eventDealer.writing = none) :
    Final (CanalSplitter.step parse) t := by
  obtain ⟨running, queue⟩ := List.append_eq_nil_iff.mp parsed
  obtain ⟨lists, waiting⟩ := List.append_eq_nil_iff.mp listed
  intro turn
  cases turn with
  | main => simp only [CanalSplitter.step, CanalSplitter.main, closed, CanalSplitter.deal, EventDealer.step,
      EventDealer.main, Option.map_none]
  | close key =>
    simp only [CanalSplitter.step, CanalSplitter.deal, EventDealer.step, closed, Option.map_none, ite_self]
  | getTask => simp only [CanalSplitter.step, ThreadPoolExecutor.getTask, queue, Option.map_none]
  | parse event =>
    simp only [CanalSplitter.step, ThreadPoolExecutor.afterExecute, running, List.not_mem_nil, if_false,
      Option.bind_none]
  | getList => simp only [CanalSplitter.step, ThreadPoolExecutor.getTask, waiting, Option.map_none]
  | back =>
    simp only [CanalSplitter.step, CanalSplitter.back, lists, List.head?_nil, Option.bind_eq_bind, Option.bind_none]
  | writeFails => simp only [CanalSplitter.step, EventDealer.move, written, Option.map_none]

/-- A schedule that ends with a closed folder and idle executors. -/
lemma SplitOf.of_turns (turns : List Turn) (stream : Stream parse events) (drains : Drains parse events)
    (parses : ∀ event, .query event ∈ events → ¬ Fails parse event)
    (run : (turns.foldlM (fun t turn => if decide (turn ≠ .writeFails) then CanalSplitter.step parse t turn else none)
      (.new events)).any (fun t => t.eventDealer.point = .closed ∧ t.executor.tasks = [] ∧
        t.backWriteExecutor.tasks = [] ∧ t.eventDealer.writing.isNone) = true) :
    ∃ t, SplitOf parse events t := by
  obtain ⟨t, steps, ended⟩ := (Option.any_eq_true _ _).mp run
  obtain ⟨closed, parsed, listed, written⟩ := of_decide_eq_true ended
  exact ⟨t, stream, drains, parses, Steps.imp (Steps.of_checked steps) fun _ _ => of_decide_eq_true,
    final_closed closed parsed listed (Option.isNone_iff_eq_none.mp written)⟩

end

/-- The row is written while the ALTER TABLE waits for it, and the folder is closed. -/
def alterTurns : List Turn :=
  List.replicate 6 .main ++
    [.parse 1, .main, .back, .back, .back, .main, .main, .main, .main, .main, .back, .main, .main]

/-- The stream with the ALTER is split into the folder. -/
theorem altered_split_into : ∃ t : CanalSplitter, t.eventDealer.point = .closed ∧
    SplitInto parseStatement (alterStream "ALTER TABLE t ADD COLUMN a int".toList) t.eventDealer := by
  have stream : Stream parseStatement (alterStream "ALTER TABLE t ADD COLUMN a int".toList) :=
    alterStream_stream (by decide +kernel)
  have drains : Drains parseStatement (alterStream "ALTER TABLE t ADD COLUMN a int".toList) := by
    intro i event key at_i _
    match i with
    | 0 => exact .inr rfl
    | 1 => cases at_i
    | 2 =>
      cases at_i
      exact .inl (by decide +kernel)
    | n + 3 => cases at_i
  have parses : ∀ event, .query event ∈ alterStream "ALTER TABLE t ADD COLUMN a int".toList →
      ¬ Fails parseStatement event := by
    intro event mem fails
    have statements : event = ⟨"d".toList, "CREATE TABLE t (id int)".toList⟩ ∨
        event = ⟨"d".toList, "ALTER TABLE t ADD COLUMN a int".toList⟩ := by
      simpa [alterStream] using mem
    rcases statements with rfl | rfl
    · cases (fails.2.2 _ rfl).1
    · cases (fails.2.2 _ rfl).1
  obtain ⟨t, sp⟩ := SplitOf.of_turns alterTurns stream drains parses (by decide +kernel)
  exact ⟨t, split_into sp⟩

end TdsqlMerge.Splitter
