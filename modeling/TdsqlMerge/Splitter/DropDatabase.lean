import TdsqlMerge.Splitter.Registry

/-!
# Dropping one database

`dropTableWriterAndDdlSql` closes the writers of all tables and then forgets those of the database only.
`drop_keeps_iff` says when a DROP DATABASE leaves the other databases alone: when they have no tables.
That one can be dealt with from every idle state is `drop_returns`, which rests on the executors draining
(`parse_all`, `write_all`).
-/

namespace TdsqlMerge.Splitter
open Lib

variable {parse : Str → Option SQLStatement} {s s' : EventDealer}

/-! ### The executors drain -/

/-- The threads may parse every submitted rows event. -/
lemma parse_all : Steps (EventDealer.step parse) (fun _ _ => True) s { s with running := [] } := by
  induction size : s.running generalizing s with
  | nil =>
    rw [← size]
    exact .refl
  | cons event rest ih =>
    have st : s.step parse (.parse event) = some { s with running := rest } := by
      rw [EventDealer.step, size, if_pos List.mem_cons_self, List.erase_cons_head]
    exact (Steps.single trivial st).trans (ih rfl)

/-- The write-back thread has work to do. -/
def EventDealer.work (s : EventDealer) : Nat :=
  2 * s.backlog.flatten.length + s.backlog.length + s.writing.toList.length

/-- The step of the write-back thread, when every rows event is parsed. -/
lemma back_step (parsed : s.running = []) (busy : ¬ (s.backlog = [] ∧ s.writing = none)) :
    ∃ t, s.back = some t ∧ t.work < s.work ∧ t.running = [] ∧ t.point = s.point ∧ t.dealt = s.dealt ∧
      t.tableWriterLookup = s.tableWriterLookup := by
  rw [EventDealer.back, parsed]
  cases writing : s.writing with
  | some w =>
    obtain ⟨writer, fut, str⟩ := w
    refine ⟨_, rfl, ?_⟩
    rw [EventDealer.endWrite]
    split <;>
    · refine ⟨?_, parsed, rfl, rfl, rfl⟩
      simp only [EventDealer.work, writing, Option.toList, List.length_nil, List.length_singleton]
      omega
  | none =>
    cases backlog : s.backlog with
    | nil => exact absurd ⟨backlog, writing⟩ busy
    | cons futs rest =>
      cases futs with
      | nil =>
        refine ⟨_, rfl, ?_, rfl, rfl, rfl, rfl⟩
        simp only [EventDealer.work, backlog, writing, List.flatten_cons, List.nil_append, List.length_cons]
        omega
      | cons fut futs =>
        dsimp only
        rw [if_neg List.not_mem_nil]
        split
        · refine ⟨_, rfl, ?_, rfl, rfl, rfl, rfl⟩
          simp only [EventDealer.work, backlog, writing, List.flatten_cons, List.length_append,
            List.length_cons]
          omega
        · split
          · refine ⟨_, rfl, ?_, rfl, rfl, rfl, rfl⟩
            simp only [EventDealer.work, backlog, writing, List.flatten_cons, List.length_append,
              List.length_cons]
            omega
          · refine ⟨_, rfl, ?_, rfl, rfl, rfl, rfl⟩
            simp only [EventDealer.work, backlog, writing, List.flatten_cons, List.length_append,
              List.length_cons, Option.toList, List.length_nil]
            omega

/-- The write-back thread works off all that is handed over to it. -/
lemma write_all (parsed : s.running = []) :
    ∃ t, Steps (EventDealer.step parse) (fun _ _ => True) s t ∧ t.backlog = [] ∧ t.writing = none ∧
      t.point = s.point ∧ t.dealt = s.dealt ∧ t.tableWriterLookup = s.tableWriterLookup := by
  induction size : s.work using Nat.strong_induction_on generalizing s with
  | _ n ih =>
    by_cases done : s.backlog = [] ∧ s.writing = none
    · exact ⟨s, .refl, done.1, done.2, rfl, rfl, rfl⟩
    · obtain ⟨t, st, less, parsed', point, dealt, writers⟩ := back_step parsed done
      obtain ⟨u, run, backlog, writing, point', dealt', writers'⟩ := ih t.work (by omega) parsed' rfl
      refine ⟨u, (Steps.single (a := .back) trivial st).trans run, backlog, writing, ?_, ?_, ?_⟩
      · rw [point', point]
      · rw [dealt', dealt]
      · rw [writers', writers]

/-- The loop over the writers closes them all. -/
lemma close_all {event : QueryLogEvent} (at_drop : s.point = .dropping event)
    {entries : List (Σ _ : Key, BufferedWriter)} (sub : ∀ e ∈ entries, e ∈ s.tableWriterLookup.entries) :
    ∃ closed, Steps (EventDealer.step parse) (fun _ _ => True) s { s with closed } ∧
      ∀ e ∈ entries, e.2.id ∈ closed := by
  induction entries with
  | nil => exact ⟨s.closed, .refl, by simp⟩
  | cons e entries ih =>
    obtain ⟨closed, run, all⟩ := ih fun e' mem => sub e' (List.mem_cons_of_mem _ mem)
    have mapped : s.tableWriterLookup.lookup e.1 = some e.2 :=
      AList.mem_lookup_iff.mpr (sub e List.mem_cons_self)
    have st : EventDealer.step parse { s with closed } (.close e.1) =
        some { s with closed := e.2.id :: closed } := by
      rw [EventDealer.step, at_drop]
      dsimp only
      rw [mapped]
      rfl
    refine ⟨e.2.id :: closed, run.trans (.single trivial st), ?_⟩
    exact List.forall_mem_cons.mpr
      ⟨List.mem_cons_self, fun e' mem => List.mem_cons_of_mem _ (all e' mem)⟩

/-- A DROP DATABASE leads to its dropping point. -/
lemma dealEventData_drops {event : QueryLogEvent}
    (drops : (LogEvent.query event).drops parse = some event.dbName) :
    s.dealEventData parse event = { s with point := .dropping event } := by
  rw [LogEvent.drops] at drops
  rw [EventDealer.dealEventData]
  split at drops
  · cases drops
  · rename_i go
    rw [if_neg go]
    split at drops
    · rename_i parsed
      rw [parsed]
    · cases drops

/-- A DROP DATABASE can be dealt with: the writers of the database are forgotten, those of the others
    closed. -/
lemma drop_returns {event : QueryLogEvent} (idle : s.point = .idle)
    (drops : (LogEvent.query event).drops parse = some event.dbName) :
    ∃ t, Steps (EventDealer.step parse) (fun _ _ => True) s t ∧ t.point = .idle ∧
      t.dealt = s.dealt ++ [.query event] ∧
      ∀ key writer, key.1 ≠ event.dbName → s.tableWriterLookup.lookup key = some writer →
        t.tableWriterLookup.lookup key = some writer ∧ writer.id ∈ t.closed := by
  -- the drain, if there is one
  have reached : ∃ t, Steps (EventDealer.step parse) (fun _ _ => True) s t ∧ t.point = .query event ∧
      t.dealt = s.dealt ∧ t.tableWriterLookup = s.tableWriterLookup := by
    have st : s.step parse (.deal (.query event)) = some (s.dealEvent (.query event)) := by
      rw [EventDealer.step, idle]
    have first := @Steps.single _ _ _ (fun _ _ => True) _ _ _ trivial st
    rw [EventDealer.dealEvent] at first
    cases drain : drains event.query with
    | false =>
      rw [drain] at first
      exact ⟨_, first, rfl, rfl, rfl⟩
    | true =>
      rw [drain, if_pos rfl] at first
      have flush := first.trans (.single (a := .main) trivial rfl)
      have parsed := flush.trans parse_all
      have waited := parsed.trans (.single (a := .main) trivial rfl)
      obtain ⟨t, run, backlog, writing, point, dealt, writers⟩ := @write_all parse
        { s.writeBack with point := .awaitBack (some event), running := [] } rfl
      have last : t.step parse .main = some { t with point := .query event } := by
        rw [EventDealer.step, EventDealer.main, point]
        dsimp only
        rw [if_pos ⟨backlog, writing⟩]
      exact ⟨_, (waited.trans run).trans (.single trivial last), rfl, dealt, writers⟩
  obtain ⟨t, run, point, dealt, writers⟩ := reached
  have enter : t.step parse .main = some { t with point := .dropping event } := by
    rw [EventDealer.step, EventDealer.main, point]
    dsimp only
    rw [dealEventData_drops drops]
  obtain ⟨closed, loop, all⟩ := @close_all parse
    { t with point := .dropping event } event rfl _ fun e mem => mem
  have forget : EventDealer.step parse { t with point := .dropping event, closed } .main =
      some (EventDealer.forgetDatabase { t with point := .dropping event, closed } event) := by
    rw [EventDealer.step, EventDealer.main]
    exact if_pos all
  refine ⟨_, ((run.trans (.single trivial enter)).trans loop).trans (.single trivial forget), rfl, ?_, ?_⟩
  · rw [EventDealer.forgetDatabase, dealt]
  · intro key writer other mapped
    show (removeIf _ t.tableWriterLookup).lookup key = some writer ∧ writer.id ∈ closed
    rw [← writers] at mapped
    refine ⟨?_, all ⟨key, writer⟩ (AList.mem_lookup_iff.mp mapped)⟩
    rw [lookup_removeIf, decide_eq_false other]
    exact mapped

/-! ### The other databases -/

/-- The lines that the rows events from place `i` on left in a file. -/
def laterLines (i : Nat) (s : EventDealer) (key : Key) (state : Nat) : List Str :=
  match s.dat (key, state) with
  | none => []
  | some file => (file.chunks.filter fun chunk => i ≤ chunk.event).map Chunk.str

/-- Dealing with a DROP DATABASE leaves the other databases alone: their tables keep their states and have
    open writers, and later rows leave the same lines in their files as without it. -/
def DropKeepsOthers (parse : Str → Option SQLStatement) (s : EventDealer) (event : QueryLogEvent) : Prop :=
  ∀ s', Steps (EventDealer.step parse) (fun _ _ => True) s s' → s'.point = .idle →
    s'.dealt = s.dealt ++ [.query event] →
    (∀ key state, key.1 ≠ event.dbName → s.tableAlterStateLookup.lookup key = some state →
      s'.tableAlterStateLookup.lookup key = some state ∧
        ∃ writer, s'.tableWriterLookup.lookup key = some writer ∧ writer.id ∉ s'.closed) ∧
    ∀ (rows : List RowsLogEvent) (t u : EventDealer),
      Steps (EventDealer.step parse) (fun _ _ => True) s' t → t.point = .waited →
      t.dealt = s'.dealt ++ rows.map .rows →
      Steps (EventDealer.step parse) (fun _ _ => True) s u → u.point = .waited →
      u.dealt = s.dealt ++ rows.map .rows →
      ∀ key state, key.1 ≠ event.dbName →
        laterLines s.dealt.length t key state = laterLines s.dealt.length u key state

/-- No other database than `db` has a table, and no rows event from place `i` on has been written to
    one. -/
structure Alone (db : Str) (i : Nat) (s : EventDealer) : Prop where
  writers : ∀ key, key.1 ≠ db → s.tableWriterLookup.lookup key = none
  writing : ∀ writer fut str, s.writing = some (writer, fut, str) → writer.key.1 ≠ db → fut.event < i
  files : ∀ key state file chunk, key.1 ≠ db → s.dat (key, state) = some file → chunk ∈ file.chunks →
    chunk.event < i

/-- Steps that leave the writers and the files alone leave the database alone. -/
lemma Alone.frame {db : Str} {i : Nat} (al : Alone db i s)
    (writers : s'.tableWriterLookup = s.tableWriterLookup) (writing : s'.writing = s.writing)
    (dat : s'.dat = s.dat) : Alone db i s' where
  writers := by
    rw [writers]
    exact al.writers
  writing := by
    rw [writing]
    exact al.writing
  files := by
    rw [dat]
    exact al.files

/-- Without further statements a database stays alone. -/
lemma Alone.step {db : Str} {i : Nat} {a : Action} (co : Coherent parse s) (al : Alone db i s)
    (le : i ≤ s.dealt.length) (none_later : ∀ e ∈ s'.dealt.drop i, e.updates parse = none)
    (ef : Effect parse s a s') : Alone db i s' := by
  -- only a statement on a table gives one a writer again
  have statement : ∀ {e : LogEvent} {key : Key}, s'.dealt = s.dealt ++ [e] → e.updates parse = some key →
      False := by
    intro e key dealt updates
    have mem : e ∈ s'.dealt.drop i := by
      rw [dealt, List.drop_append_of_le_length le]
      exact List.mem_append_right _ (List.mem_singleton.mpr rfl)
    rw [none_later e mem] at updates
    cases updates
  cases ef with
  | quiet q dealt => exact al.frame q.writers q.writing q.dat
  | noted e q neutral dealt => exact al.frame q.writers q.writing q.dat
  | submitted r => exact al.frame rfl rfl rfl
  | created event key _ at_query updates none => exact (statement rfl updates).elim
  | advanced event key _ state writer at_query updates at_key mapped => exact (statement rfl updates).elim
  | closing event key writer at_drop mapped => exact al.frame rfl rfl rfl
  | forgot event at_drop all =>
    refine ⟨?_, al.writing, al.files⟩
    intro key other
    show (removeIf _ s.tableWriterLookup).lookup key = none
    rw [lookup_removeIf, al.writers key other, ite_self]
  | written writer fut str writing =>
    refine ⟨?_, ?_, ?_⟩
    · rw [EventDealer.endWrite]
      split <;> exact al.writers
    · rw [EventDealer.endWrite]
      intro writer' fut' str' writing'
      split at writing' <;> cases writing'
    · intro key state file chunk other at_file mem
      rcases endWrite_chunk at_file mem with ⟨file', at_file', _, old⟩ | ⟨rfl, _, _, rfl, _⟩
      · exact al.files key state file' chunk other at_file' old
      · exact al.writing writer fut str writing other
  | took writer fut str futs rest writing backlog parsed mapped =>
    refine ⟨al.writers, ?_, al.files⟩
    intro writer' fut' str' writing' other
    cases writing'
    rw [(co.writer _ writer mapped).1] at other
    rw [al.writers _ other] at mapped
    cases mapped
  | skipped fut futs rest writing backlog parsed => exact al.frame rfl rfl rfl
  | abandoned fut futs rest writing backlog none => exact al.frame rfl rfl rfl
  | finished waited => exact al.frame rfl rfl rfl

/-- Without further statements the database stays alone. -/
lemma run_alone {db : Str} {i : Nat} (reached : Reachable parse s) (al : Alone db i s)
    (le : i ≤ s.dealt.length) (run : Steps (EventDealer.step parse) (fun _ _ => True) s s')
    (none_later : ∀ e ∈ s'.dealt.drop i, e.updates parse = none) : Alone db i s' := by
  have inv := run.invariant_along
    (I := fun s1 => i ≤ s1.dealt.length ∧ ((∀ e ∈ s1.dealt.drop i, e.updates parse = none) → Alone db i s1))
    ⟨le, fun _ => al⟩ ?_
  · exact inv.2 none_later
  · rintro s1 a s2 run ⟨le1, ih⟩ _ st
    have ef := step_effect st
    refine ⟨Nat.le_trans le1 ef.length_le, ?_⟩
    intro none2
    have none1 : ∀ e ∈ s1.dealt.drop i, e.updates parse = none := by
      intro e mem
      apply none2
      rcases ef.appends with h | ⟨e', h⟩
      · rwa [h]
      · rw [h, List.drop_append_of_le_length le1]
        exact List.mem_append_left _ mem
    exact (ih none1).step (reachable_coherent (reached.trans run)).2 le1 none2 ef

/-- In a database that is alone, no later rows event leaves a line elsewhere. -/
lemma Alone.laterLines {db : Str} {i : Nat} {key : Key} {state : Nat} (al : Alone db i s)
    (other : key.1 ≠ db) : laterLines i s key state = [] := by
  rw [Splitter.laterLines]
  split
  · rfl
  · rename_i file at_file
    rw [List.map_eq_nil_iff, List.filter_eq_nil_iff]
    intro chunk mem
    rw [decide_eq_true_eq]
    exact Nat.not_le.mpr (al.files key state file chunk other at_file mem)

/-- If the drop leaves the others alone, then there are none: it closes all writers. -/
lemma no_others {event : QueryLogEvent} (run : Reachable parse s) (idle : s.point = .idle)
    (drops : (LogEvent.query event).drops parse = some event.dbName)
    (keeps : DropKeepsOthers parse s event) :
    ∀ key state, s.tableAlterStateLookup.lookup key = some state → key.1 = event.dbName := by
  intro key state at_key
  by_contra other
  obtain ⟨writer, mapped⟩ := (reachable_coherent run).2.mapped key state at_key
  obtain ⟨t, drop, idle', dealt, closes⟩ := drop_returns idle drops
  obtain ⟨mapped', closed⟩ := closes key writer other mapped
  obtain ⟨_, writer', mapped'', live⟩ := (keeps t drop idle' dealt).1 key state other at_key
  rw [mapped'] at mapped''
  cases mapped''
  exact live closed

/-- A DROP DATABASE leaves the other databases alone if and only if they have no tables. -/
theorem drop_keeps_iff {event : QueryLogEvent} (run : Reachable parse s) (idle : s.point = .idle)
    (drops : (LogEvent.query event).drops parse = some event.dbName) :
    DropKeepsOthers parse s event ↔
      ∀ key state, s.tableAlterStateLookup.lookup key = some state → key.1 = event.dbName := by
  refine ⟨no_others run idle drops, ?_⟩
  intro only s' drop _ dealt
  obtain ⟨_, co⟩ := reachable_coherent run
  have bo := reachable_bounded run
  have al : Alone event.dbName s.dealt.length s := by
    refine ⟨?_, ?_, fun key state file chunk _ => bo.files key state file chunk⟩
    · intro key other
      cases mapped : s.tableWriterLookup.lookup key with
      | none => rfl
      | some writer => exact absurd (only key _ (co.writer key writer mapped).2.1) other
    · intro writer fut str writing _
      exact bo.unwritten fut (mem_unwritten writing)
  have rows_none : ∀ (rows : List RowsLogEvent), ∀ e ∈ rows.map LogEvent.rows, e.updates parse = none := by
    intro rows e mem
    obtain ⟨r, _, rfl⟩ := List.mem_map.mp mem
    rfl
  refine ⟨fun key state other at_key => absurd (only key state at_key) other, ?_⟩
  intro rows t u run_t _ dealt_t run_u _ dealt_u key state other
  have al_t : Alone event.dbName s.dealt.length t := by
    apply run_alone run al le_rfl (drop.trans run_t)
    rw [dealt_t, dealt, List.append_assoc, List.drop_left]
    intro e mem
    rcases List.mem_append.mp mem with first | mem
    · rw [List.mem_singleton.mp first]
      exact drops_updates drops
    · exact rows_none rows e mem
  have al_u : Alone event.dbName s.dealt.length u := by
    apply run_alone run al le_rfl run_u
    rw [dealt_u, List.drop_left]
    exact rows_none rows
  rw [al_t.laterLines other, al_u.laterLines other]

/-! ### Runs -/

/-- A parser for the statements of the runs below. -/
def parseTables (query : Str) : Option SQLStatement :=
  if query = "CREATE TABLE t (id int)".toList then
    some (.createTable ⟨"t".toList, false⟩ [⟨⟨"id".toList, false⟩, "int".toList, [], none⟩] [])
  else if query = "DROP DATABASE d".toList then some .dropDatabase
  else none

/-- The state after a table is created in a database. -/
lemma created_in {db : Str} (run : (([.deal (.query ⟨db, "CREATE TABLE t (id int)".toList⟩), .main] :
      List Action).foldlM (EventDealer.step parseTables) .new).any
        (fun s => s.point = .idle ∧ s.tableAlterStateLookup.entries = [⟨(db, "t".toList), 0⟩]) = true) :
    ∃ s, Reachable parseTables s ∧ s.point = .idle ∧
      s.tableAlterStateLookup.entries = [⟨(db, "t".toList), 0⟩] := by
  obtain ⟨s, steps, h⟩ := (Option.any_eq_true _ _).mp run
  obtain ⟨idle, entries⟩ := of_decide_eq_true h
  exact ⟨s, Steps.of_foldlM steps, idle, entries⟩

/-- Dropping the only database closes no writer of another. -/
theorem only_database_dropped : ∃ s, Reachable parseTables s ∧
    s.tableAlterStateLookup.entries = [⟨("d".toList, "t".toList), 0⟩] ∧
    DropKeepsOthers parseTables s ⟨"d".toList, "DROP DATABASE d".toList⟩ := by
  obtain ⟨s, run, idle, entries⟩ := @created_in "d".toList (by decide +kernel)
  refine ⟨s, run, entries, (drop_keeps_iff run idle (by decide +kernel)).mpr ?_⟩
  intro key state at_key
  have mem := AList.mem_lookup_iff.mp at_key
  rw [entries, List.mem_singleton] at mem
  cases mem
  rfl

/-- Dropping a database closes the writers of another. -/
theorem other_database_closed : ¬ ∀ (parse : Str → Option SQLStatement) (s : EventDealer)
    (event : QueryLogEvent), Reachable parse s → s.point = .idle →
      (LogEvent.query event).drops parse = some event.dbName → DropKeepsOthers parse s event := by
  intro claim
  obtain ⟨s, run, idle, entries⟩ := @created_in "e".toList (by decide +kernel)
  have drops : (LogEvent.query ⟨"d".toList, "DROP DATABASE d".toList⟩).drops parseTables =
      some "d".toList := by decide +kernel
  have known : s.tableAlterStateLookup.lookup ("e".toList, "t".toList) = some 0 := by
    rw [← Option.mem_def, AList.mem_lookup_iff, entries]
    exact List.mem_singleton.mpr rfl
  have same := no_others run idle drops (claim _ s _ run idle drops) _ 0 known
  exact absurd same (by decide)

end TdsqlMerge.Splitter
