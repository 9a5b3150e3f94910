import TdsqlMerge.Splitter.EventDealer

/-!
# What a step can do

`Effect` lists what a step of the machine can do to the tables and to the rows events under way; every
invariant is derived from it. `Staged` says where the executors have been drained, `Bounded` that every
rows event under way or in a file has been dealt with before.
-/

namespace TdsqlMerge.Splitter
open Lib

section
variable (parse : Str → Option SQLStatement)

/-- The table whose state the event advances: that of a CREATE TABLE or ALTER TABLE statement. -/
def LogEvent.updates : LogEvent → Option Key
  | .query event =>
    if event.query = "BEGIN".toList ∨ event.query = "COMMIT".toList then none
    else match parse event.query with
      | some (.createTable tableName _ _) => some (event.dbName, replace '`' tableName.getSimpleName)
      | some (.alterTable tableName _) => some (event.dbName, replace '`' tableName.getSimpleName)
      | _ => none
  | _ => none

/-- The database the event drops. -/
def LogEvent.drops : LogEvent → Option Str
  | .query event =>
    if event.query = "BEGIN".toList ∨ event.query = "COMMIT".toList then none
    else match parse event.query with
      | some .dropDatabase => some event.dbName
      | _ => none
  | _ => none

/-- The event neither advances a table nor drops a database nor has rows. -/
structure LogEvent.Neutral (e : LogEvent) : Prop where
  updates : e.updates parse = none
  drops : e.drops parse = none
  rows : ∀ r, e ≠ .rows r

end

variable {parse : Str → Option SQLStatement} {s s' : EventDealer}

/-- One more event makes the list no shorter. -/
lemma length_concat_le {e : LogEvent} {dealt : List LogEvent} : dealt.length ≤ (dealt ++ [e]).length := by
  rw [List.length_append]
  exact Nat.le_add_right _ _

/-- Only the threads' own places change, and no rows event is submitted or taken. -/
structure Quiet (s s' : EventDealer) : Prop where
  states : s'.tableAlterStateLookup = s.tableAlterStateLookup
  writers : s'.tableWriterLookup = s.tableWriterLookup
  closed : s'.closed = s.closed
  writing : s'.writing = s.writing
  unwritten : s'.unwritten = s.unwritten
  dat : s'.dat = s.dat
  ddl : s'.ddl = s.ddl
  cnt : s'.cnt = s.cnt

/-- What a step does to the tables and to the rows events under way. -/
inductive Effect (parse : Str → Option SQLStatement) (s : EventDealer) : Action → EventDealer → Prop where
  | quiet {a : Action} {t : EventDealer} : Quiet s t → t.dealt = s.dealt → Effect parse s a t
  | noted {a : Action} {t : EventDealer} (e : LogEvent) : Quiet s t → e.Neutral parse →
    t.dealt = s.dealt ++ [e] → Effect parse s a t
  | submitted (r : RowsLogEvent) : Effect parse s (.deal (.rows r)) (s.dealEvent (.rows r))
  | created (event : QueryLogEvent) (key : Key) (statement : SQLStatement) :
    s.point = .query event → (LogEvent.query event).updates parse = some key →
    s.tableAlterStateLookup.lookup key = none →
    Effect parse s .main (s.openState event key statement 0)
  | advanced (event : QueryLogEvent) (key : Key) (statement : SQLStatement) (state : Nat)
    (writer : BufferedWriter) :
    s.point = .query event → (LogEvent.query event).updates parse = some key →
    s.tableAlterStateLookup.lookup key = some state → s.tableWriterLookup.lookup key = some writer →
    Effect parse s .main
      (EventDealer.openState { s with closed := writer.id :: s.closed } event key statement (state + 1))
  | closing (event : QueryLogEvent) (key : Key) (writer : BufferedWriter) :
    s.point = .dropping event → s.tableWriterLookup.lookup key = some writer →
    Effect parse s (.close key) { s with closed := writer.id :: s.closed }
  | forgot (event : QueryLogEvent) :
    s.point = .dropping event → (∀ e ∈ s.tableWriterLookup.entries, e.2.id ∈ s.closed) →
    Effect parse s .main (s.forgetDatabase event)
  | written (writer : BufferedWriter) (fut : Future) (str : Str) :
    s.writing = some (writer, fut, str) → Effect parse s .back (s.endWrite writer fut str)
  | took (writer : BufferedWriter) (fut : Future) (str : Str) (futs : List Future)
    (rest : List (List Future)) :
    s.writing = none → s.backlog = (fut :: futs) :: rest → fut.rows.str = some str →
    s.tableWriterLookup.lookup fut.rows.key = some writer →
    Effect parse s .back { s with backlog := futs :: rest, writing := some (writer, fut, str) }
  | skipped (fut : Future) (futs : List Future) (rest : List (List Future)) :
    s.writing = none → s.backlog = (fut :: futs) :: rest → fut.rows.str = none →
    Effect parse s .back { s with backlog := futs :: rest }
  | abandoned (fut : Future) (futs : List Future) (rest : List (List Future)) :
    s.writing = none → s.backlog = (fut :: futs) :: rest →
    s.tableWriterLookup.lookup fut.rows.key = none →
    Effect parse s .back { s with backlog := rest }
  | finished : s.point = .waited → Effect parse s .closeAll s.closeAll

/-- A submitted event is the last of the unwritten. -/
lemma unwritten_submitted {r : RowsLogEvent} :
    (s.dealEvent (.rows r)).unwritten = s.unwritten ++ [{ event := s.dealt.length, rows := r }] := by
  simp [EventDealer.unwritten, EventDealer.dealEvent]

/-- The event being written is unwritten. -/
lemma mem_unwritten {writer : BufferedWriter} {fut : Future} {str : Str}
    (writing : s.writing = some (writer, fut, str)) : fut ∈ s.unwritten := by
  simp [EventDealer.unwritten, writing]

/-- Writing an event takes it off the front. -/
lemma unwritten_written {writer : BufferedWriter} {fut : Future} {str : Str}
    (writing : s.writing = some (writer, fut, str)) :
    s.unwritten = fut :: (s.endWrite writer fut str).unwritten := by
  rw [EventDealer.endWrite]
  split <;> simp [EventDealer.unwritten, writing]

/-- Taking an event for writing leaves it unwritten. -/
lemma unwritten_took {writer : BufferedWriter} {fut : Future} {str : Str} {futs : List Future}
    {rest : List (List Future)} (writing : s.writing = none) (backlog : s.backlog = (fut :: futs) :: rest) :
    EventDealer.unwritten { s with backlog := futs :: rest, writing := some (writer, fut, str) } =
      s.unwritten := by
  simp [EventDealer.unwritten, writing, backlog]

/-- A skipped event comes off the front. -/
lemma unwritten_skipped {fut : Future} {futs : List Future} {rest : List (List Future)}
    (writing : s.writing = none) (backlog : s.backlog = (fut :: futs) :: rest) :
    s.unwritten = fut :: EventDealer.unwritten { s with backlog := futs :: rest } := by
  simp [EventDealer.unwritten, writing, backlog]

/-- An abandoned batch comes off the front as a whole. -/
lemma unwritten_abandoned {fut : Future} {futs : List Future} {rest : List (List Future)}
    (writing : s.writing = none) (backlog : s.backlog = (fut :: futs) :: rest) :
    s.unwritten = fut :: futs ++ EventDealer.unwritten { s with backlog := rest } := by
  simp [EventDealer.unwritten, writing, backlog]

/-- Moving the program point and noting an event touch no file. -/
lemma quiet_point {p : Point} {dealt : List LogEvent} : Quiet s { s with point := p, dealt } := by
  constructor <;> rfl

/-- Handing over the batch touches no file. -/
lemma quiet_writeBack {p : Point} : Quiet s { s.writeBack with point := p } := by
  refine ⟨rfl, rfl, rfl, rfl, ?_, rfl, rfl, rfl⟩
  simp [EventDealer.unwritten, EventDealer.writeBack]

/-- The effect of `updateTableWriterAndDdlSql` at the event that updates the table. -/
lemma updateTable_effect {event : QueryLogEvent} {tableName : SQLName} {statement : SQLStatement}
    (at_query : s.point = .query event)
    (updates : (LogEvent.query event).updates parse =
      some (event.dbName, replace '`' tableName.getSimpleName)) :
    Effect parse s .main (s.updateTableWriterAndDdlSql event tableName statement) := by
  rw [EventDealer.updateTableWriterAndDdlSql]
  split
  · rename_i none
    exact .created event _ statement at_query updates none
  · rename_i state some
    split
    · exact .quiet quiet_point rfl
    · rename_i writer mapped
      exact .advanced event _ statement state writer at_query updates some mapped

/-- The effect of `dealEventData`. -/
lemma dealEventData_effect {event : QueryLogEvent} (at_query : s.point = .query event) :
    Effect parse s .main (s.dealEventData parse event) := by
  rw [EventDealer.dealEventData]
  split
  · rename_i skip
    exact .noted (.query event) quiet_point ⟨if_pos skip, if_pos skip, by simp⟩ rfl
  · rename_i go
    split
    · exact .quiet quiet_point rfl
    · rename_i tableName cols keys parsed
      apply updateTable_effect at_query
      rw [LogEvent.updates, if_neg go, parsed]
    · rename_i tableName items parsed
      apply updateTable_effect at_query
      rw [LogEvent.updates, if_neg go, parsed]
    · exact .quiet quiet_point rfl
    · rename_i parsed
      refine .noted (.query event) quiet_point ⟨?_, ?_, by simp⟩ rfl
      · rw [LogEvent.updates, if_neg go, parsed]
      · rw [LogEvent.drops, if_neg go, parsed]

/-- The effect of a step of the main thread. -/
lemma main_effect (st : s.main parse = some s') : Effect parse s .main s' := by
  rw [EventDealer.main] at st
  split at st
  · cases st
    exact .quiet quiet_writeBack rfl
  · split at st
    · cases st
      exact .quiet quiet_point rfl
    · cases st
  · split at st
    · cases st
      exact .quiet quiet_point rfl
    · cases st
  · rename_i event at_query
    cases st
    exact dealEventData_effect at_query
  · rename_i event at_drop
    split at st
    · rename_i all
      cases st
      exact .forgot event at_drop all
    · cases st
  · cases st
    split
    · exact .quiet quiet_writeBack rfl
    · exact .quiet quiet_point rfl
  · cases st

/-- The effect of a step of the write-back thread. -/
lemma back_effect (st : s.back = some s') : Effect parse s .back s' := by
  rw [EventDealer.back] at st
  split at st
  · rename_i writer fut str writing
    cases st
    exact .written writer fut str writing
  · rename_i writing
    split at st
    · cases st
    · rename_i rest backlog
      cases st
      refine .quiet ⟨rfl, rfl, rfl, rfl, ?_, rfl, rfl, rfl⟩ rfl
      simp [EventDealer.unwritten, backlog]
    · rename_i fut futs rest backlog
      split at st
      · cases st
      · split at st
        · rename_i str
          cases st
          exact .skipped fut futs rest writing backlog str
        · rename_i str parsed
          split at st
          · rename_i none
            cases st
            exact .abandoned fut futs rest writing backlog none
          · rename_i writer mapped
            cases st
            exact .took writer fut str futs rest writing backlog parsed mapped

/-- Every step has one of the effects. -/
lemma step_effect {a : Action} (st : s.step parse a = some s') : Effect parse s a s' := by
  cases a with
  | deal event =>
    rw [EventDealer.step] at st
    split at st
    · rename_i idle
      cases st
      cases event with
      | query event => exact .quiet quiet_point rfl
      | rows event => exact .submitted event
      | other =>
        refine .noted .other ?_ ⟨rfl, rfl, by simp⟩ rfl
        constructor <;> rfl
    · cases st
  | waitIt =>
    rw [EventDealer.step] at st
    split at st
    · cases st
      exact .quiet quiet_point rfl
    · cases st
  | closeAll =>
    rw [EventDealer.step] at st
    split at st
    · rename_i waited
      cases st
      exact .finished waited
    · cases st
  | close key =>
    rw [EventDealer.step] at st
    split at st
    · rename_i event at_drop
      obtain ⟨writer, mapped, rfl⟩ := Option.map_eq_some_iff.mp st
      exact .closing event key writer at_drop mapped
    · cases st
  | main => exact main_effect st
  | parse event =>
    rw [EventDealer.step] at st
    split at st
    · cases st
      refine .quiet ?_ rfl
      constructor <;> rfl
    · cases st
  | back => exact back_effect st

/-- A step only ever appends to the stream. -/
lemma Effect.appends {a : Action} (ef : Effect parse s a s') :
    s'.dealt = s.dealt ∨ ∃ e, s'.dealt = s.dealt ++ [e] := by
  cases ef with
  | quiet q dealt => exact Or.inl dealt
  | noted e q neutral dealt => exact Or.inr ⟨e, dealt⟩
  | submitted r => exact Or.inr ⟨_, rfl⟩
  | created event => exact Or.inr ⟨_, rfl⟩
  | advanced event => exact Or.inr ⟨_, rfl⟩
  | closing => exact Or.inl rfl
  | forgot event => exact Or.inr ⟨_, rfl⟩
  | written writer fut str =>
    rw [EventDealer.endWrite]
    split <;> exact Or.inl rfl
  | took => exact Or.inl rfl
  | skipped => exact Or.inl rfl
  | abandoned => exact Or.inl rfl
  | finished => exact Or.inl rfl

/-! ### Where the executors are drained -/

/-- An event that drops a database updates no table. -/
lemma drops_updates {e : LogEvent} {db : Str} (drops : e.drops parse = some db) :
    e.updates parse = none := by
  cases e with
  | query event =>
    rw [LogEvent.drops] at drops
    rw [LogEvent.updates]
    split at drops
    · cases drops
    · rename_i go
      split at drops
      · rename_i parsed
        rw [if_neg go, parsed]
      · cases drops
  | rows event => rfl
  | other => rfl

/-- What is known where the main thread stands: the current list is handed over while it waits, nothing is
    under way after a drain, and only a DROP DATABASE statement reaches the loop over the writers. -/
def Staged (parse : Str → Option SQLStatement) (s : EventDealer) : Prop :=
  match s.point with
  | .awaitParse _ | .awaitBack _ => s.procResult = []
  | .query event => drains event.query = true → s.unwritten = []
  | .dropping event => (LogEvent.query event).drops parse = some event.dbName
  | .waited | .closed => s.unwritten = []
  | _ => True

/-- Behind a dropping point is a DROP DATABASE. -/
lemma Staged.drops {event : QueryLogEvent} (stage : Staged parse s) (at_drop : s.point = .dropping event) :
    (LogEvent.query event).drops parse = some event.dbName := by
  rw [Staged, at_drop] at stage
  exact stage

/-- The write-back thread works the rows events off in their order. -/
lemma back_suffix (st : s.back = some s') :
    s'.point = s.point ∧ s'.procResult = s.procResult ∧ s'.unwritten <:+ s.unwritten := by
  rw [EventDealer.back] at st
  split at st
  · rename_i writer fut str writing
    cases st
    refine ⟨?_, ?_, unwritten_written writing ▸ List.suffix_cons _ _⟩
    · rw [EventDealer.endWrite]
      split <;> rfl
    · rw [EventDealer.endWrite]
      split <;> rfl
  · rename_i writing
    split at st
    · cases st
    · rename_i rest backlog
      cases st
      refine ⟨rfl, rfl, ?_⟩
      simp [EventDealer.unwritten, backlog]
    · rename_i fut futs rest backlog
      split at st
      · cases st
      · split at st
        · cases st
          exact ⟨rfl, rfl, unwritten_skipped writing backlog ▸ List.suffix_cons _ _⟩
        · split at st
          · cases st
            exact ⟨rfl, rfl, unwritten_abandoned writing backlog ▸ List.suffix_append _ _⟩
          · cases st
            exact ⟨rfl, rfl, unwritten_took writing backlog ▸ List.suffix_refl _⟩

/-- After a statement, its table has the new writer, and the others have theirs. -/
lemma lookup_inserted {β : Type} {m : AList fun _ : Key => β} {key key' : Key} {new b : β}
    (has : (m.insert key new).lookup key' = some b) :
    key' = key ∧ b = new ∨ key' ≠ key ∧ m.lookup key' = some b := by
  by_cases e : key' = key
  · rw [e, AList.lookup_insert] at has
    cases has
    exact Or.inl ⟨e, rfl⟩
  · rw [AList.lookup_insert_ne e] at has
    exact Or.inr ⟨e, has⟩

/-- After a statement, the file of its state is the new one, and the others are as before. -/
lemma file_updated {dat : Key × Nat → Option DatFile} {place place' : Key × Nat} {new file : DatFile}
    (has : Function.update dat place (some new) place' = some file) :
    place' = place ∧ file = new ∨ place' ≠ place ∧ dat place' = some file := by
  by_cases e : place' = place
  · rw [e, Function.update_self] at has
    cases has
    exact Or.inl ⟨e, rfl⟩
  · rw [Function.update_of_ne e] at has
    exact Or.inr ⟨e, has⟩

/-- After a file is opened the main thread stands at a stage of its event. -/
lemma openState_staged {event : QueryLogEvent} {key : Key} {statement : SQLStatement} {state : Nat} :
    Staged parse (s.openState event key statement state) := by
  rw [Staged, EventDealer.openState]
  cases (writeDDLCompat statement).isSome <;> trivial

/-- `dealEventData` leaves the main thread at a stage of its event. -/
lemma dealEventData_staged {event : QueryLogEvent} : Staged parse (s.dealEventData parse event) := by
  have update : ∀ {tableName statement},
      Staged parse (s.updateTableWriterAndDdlSql event tableName statement) := by
    intro tableName statement
    rw [EventDealer.updateTableWriterAndDdlSql]
    split
    · exact openState_staged
    · split
      · trivial
      · exact openState_staged
  rw [EventDealer.dealEventData]
  split
  · trivial
  · rename_i go
    split
    · trivial
    · exact update
    · exact update
    · rename_i parsed
      show (LogEvent.query event).drops parse = some event.dbName
      rw [LogEvent.drops, if_neg go, parsed]
    · trivial

/-- A step of the main thread ends at a stage of its event. -/
lemma main_staged (stage : Staged parse s) (st : s.main parse = some s') : Staged parse s' := by
  rw [EventDealer.main] at st
  split at st
  · cases st
    rfl
  · rename_i next at_parse
    split at st
    · cases st
      rw [Staged, at_parse] at stage
      exact stage
    · cases st
  · rename_i next at_back
    split at st
    · rename_i idle
      cases st
      have none : s.unwritten = [] := by
        rw [Staged, at_back] at stage
        simp only [EventDealer.unwritten, idle.1, idle.2, stage]
        rfl
      cases next with
      | none => exact none
      | some event => exact fun _ => none
    · cases st
  · cases st
    exact dealEventData_staged
  · split at st
    · cases st
      trivial
    · cases st
  · cases st
    trivial
  · cases st

/-- The write-back thread does not move the main thread. -/
lemma Staged.later (stage : Staged parse s) (point : s'.point = s.point)
    (results : s'.procResult = s.procResult) (later : s'.unwritten <:+ s.unwritten) : Staged parse s' := by
  have still : s.unwritten = [] → s'.unwritten = [] := by
    intro none
    rw [none] at later
    exact List.suffix_nil.mp later
  rw [Staged] at stage ⊢
  rw [point, results]
  split at stage
  · exact stage
  · exact stage
  · exact fun drain => still (stage drain)
  · exact stage
  · exact still stage
  · exact still stage
  · trivial

/-- Every step keeps what is known where the main thread stands. -/
lemma step_staged {a : Action} (stage : Staged parse s) (st : s.step parse a = some s') :
    Staged parse s' := by
  cases a with
  | deal event =>
    rw [EventDealer.step] at st
    split at st
    · rename_i idle
      cases st
      cases event with
      | query event =>
        rw [EventDealer.dealEvent]
        cases drain : drains event.query with
        | true => trivial
        | false =>
          intro drain'
          rw [drain] at drain'
          cases drain'
      | rows event => trivial
      | other =>
        rw [Staged, EventDealer.dealEvent]
        dsimp only
        rw [idle]
        trivial
    · cases st
  | waitIt =>
    rw [EventDealer.step] at st
    split at st
    · cases st
      trivial
    · cases st
  | closeAll =>
    rw [EventDealer.step] at st
    split at st
    · rename_i waited
      cases st
      rw [Staged, waited] at stage
      exact stage
    · cases st
  | close key =>
    rw [EventDealer.step] at st
    split at st
    · rename_i event at_drop
      obtain ⟨writer, _, rfl⟩ := Option.map_eq_some_iff.mp st
      rw [Staged, at_drop] at stage ⊢
      exact stage
    · cases st
  | main => exact main_staged stage st
  | parse event =>
    rw [EventDealer.step] at st
    split at st
    · cases st
      exact stage
    · cases st
  | back =>
    obtain ⟨point, results, later⟩ := back_suffix st
    exact stage.later point results later

/-! ### Places of the rows events -/

/-- Every rows event under way or in a file has been dealt with before. -/
structure Bounded (s : EventDealer) : Prop where
  unwritten : ∀ fut ∈ s.unwritten, fut.event < s.dealt.length
  files : ∀ key state file chunk, s.dat (key, state) = some file → chunk ∈ file.chunks →
    chunk.event < s.dealt.length

/-- No step forgets a dealt event. -/
lemma Effect.length_le {a : Action} (ef : Effect parse s a s') : s.dealt.length ≤ s'.dealt.length := by
  rcases ef.appends with e | ⟨e, h⟩
  · rw [e]
  · rw [h]
    exact length_concat_le

/-- A step that takes no rows event up and writes none. -/
lemma Bounded.frame (bo : Bounded s) (unwritten : s'.unwritten <:+ s.unwritten) (dat : s'.dat = s.dat)
    (len : s.dealt.length ≤ s'.dealt.length) : Bounded s' where
  unwritten := fun fut mem => Nat.lt_of_lt_of_le (bo.unwritten fut (unwritten.subset mem)) len
  files := by
    rw [dat]
    exact fun key state file chunk at_file mem => Nat.lt_of_lt_of_le (bo.files key state file chunk at_file mem) len

/-- Opening a file keeps the event numbers below the number of events. -/
lemma Bounded.open {event : QueryLogEvent} {key : Key} {statement : SQLStatement} {state : Nat}
    (bo : Bounded s) : Bounded (s.openState event key statement state) where
  unwritten := fun fut mem => Nat.lt_of_lt_of_le (bo.unwritten fut mem) length_concat_le
  files := by
    intro key' state' file chunk at_file mem
    rcases file_updated at_file with ⟨_, rfl⟩ | ⟨_, old⟩
    · cases mem
    · exact Nat.lt_of_lt_of_le (bo.files key' state' file chunk old mem) length_concat_le

/-- What a write adds is the text of the event, in the file of the writer. -/
lemma endWrite_chunk {writer : BufferedWriter} {fut : Future} {str : Str} {key : Key} {state : Nat}
    {file : DatFile} {chunk : Chunk} (at_file : (s.endWrite writer fut str).dat (key, state) = some file)
    (mem : chunk ∈ file.chunks) :
    (∃ file', s.dat (key, state) = some file' ∧ file'.opened = file.opened ∧ chunk ∈ file'.chunks) ∨
      (writer.key = key ∧ writer.state = state ∧ writer.id ∉ s.closed ∧
        chunk = { event := fut.event, str } ∧
        ∃ file', s.dat (key, state) = some file' ∧ file'.opened = file.opened) := by
  rw [EventDealer.endWrite] at at_file
  split at at_file
  · exact Or.inl ⟨file, at_file, rfl, mem⟩
  · rename_i live
    by_cases e : (key, state) = (writer.key, writer.state)
    · cases e
      dsimp only at at_file
      rw [Function.update_self, Option.map_eq_some_iff] at at_file
      obtain ⟨file', at_file', rfl⟩ := at_file
      rcases List.mem_append.mp mem with old | new
      · exact Or.inl ⟨file', at_file', rfl, old⟩
      · exact Or.inr ⟨rfl, rfl, live, List.mem_singleton.mp new, file', at_file', rfl⟩
    · dsimp only at at_file
      rw [Function.update_of_ne e] at at_file
      exact Or.inl ⟨file, at_file, rfl, mem⟩

/-- A write opens no file. -/
lemma endWrite_file {writer : BufferedWriter} {fut : Future} {str : Str} {key : Key} {state : Nat} :
    ((s.endWrite writer fut str).dat (key, state)).map DatFile.opened =
      (s.dat (key, state)).map DatFile.opened := by
  rw [EventDealer.endWrite]
  split
  · rfl
  · by_cases e : (key, state) = (writer.key, writer.state)
    · cases e
      dsimp only
      rw [Function.update_self, Option.map_map]
      rfl
    · dsimp only
      rw [Function.update_of_ne e]

/-- A step keeps the event numbers below the number of events. -/
lemma Bounded.step {a : Action} (bo : Bounded s) (ef : Effect parse s a s') : Bounded s' := by
  have len := ef.length_le
  cases ef with
  | quiet q dealt => exact bo.frame (q.unwritten ▸ List.suffix_refl _) q.dat len
  | noted e q neutral dealt => exact bo.frame (q.unwritten ▸ List.suffix_refl _) q.dat len
  | submitted r =>
    refine ⟨?_, fun key state file chunk at_file mem =>
      Nat.lt_of_lt_of_le (bo.files key state file chunk at_file mem) len⟩
    intro fut mem
    rw [unwritten_submitted, List.mem_append, List.mem_singleton] at mem
    show fut.event < (s.dealt ++ [LogEvent.rows r]).length
    rcases mem with old | rfl
    · exact Nat.lt_of_lt_of_le (bo.unwritten fut old) length_concat_le
    · rw [List.length_append]
      exact Nat.lt_succ_self _
  | created event key statement at_query updates none => exact bo.open
  | advanced event key statement state writer at_query updates at_key mapped =>
    have closed := @Bounded.frame _ { s with closed := writer.id :: s.closed } bo (List.suffix_refl _) rfl le_rfl
    exact closed.open
  | closing event key writer at_drop mapped => exact bo.frame (List.suffix_refl _) rfl len
  | forgot event at_drop all => exact bo.frame (List.suffix_refl _) rfl len
  | written writer fut str writing =>
    have same : (s.endWrite writer fut str).dealt = s.dealt := by
      rw [EventDealer.endWrite]
      split <;> rfl
    refine ⟨?_, ?_⟩
    · intro fut' mem
      rw [same]
      apply bo.unwritten fut'
      rw [unwritten_written writing]
      exact List.mem_cons_of_mem _ mem
    · intro key state file chunk at_file mem
      rw [same]
      rcases endWrite_chunk at_file mem with ⟨file', at_file', _, old⟩ | ⟨_, _, _, rfl, _⟩
      · exact bo.files key state file' chunk at_file' old
      · exact bo.unwritten fut (mem_unwritten writing)
  | took writer fut str futs rest writing backlog parsed mapped =>
    exact bo.frame (unwritten_took writing backlog ▸ List.suffix_refl _) rfl len
  | skipped fut futs rest writing backlog parsed =>
    exact bo.frame (unwritten_skipped writing backlog ▸ List.suffix_cons _ _) rfl len
  | abandoned fut futs rest writing backlog none =>
    exact bo.frame (unwritten_abandoned writing backlog ▸ List.suffix_append _ _) rfl len
  | finished waited => exact bo.frame (List.suffix_refl _) rfl len

/-- In every reachable state the event numbers lie below the number of events. -/
theorem reachable_bounded (run : Reachable parse s) : Bounded s := by
  refine run.invariant (I := Bounded) ⟨?_, ?_⟩ fun s a s' bo _ st => bo.step (step_effect st)
  · intro fut mem
    cases mem
  · intro key state file chunk at_file
    cases at_file

end TdsqlMerge.Splitter
