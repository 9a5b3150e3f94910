import Mathlib.Data.List.Induction
import TdsqlMerge.Splitter.Registry

/-!
# Rows in the file of their state

A rows event belongs into the file of the state its table has at the place of the event. The write-back
thread files it under the state the table has when it writes. `settled_filed` says that these agree in
every run in which no statement advances a table with unwritten rows events; `dealEvent` sees to it by a
drain, except for query texts with the word `create`, and `late_row_misfiled` is a run in which that loses the
rows of an event to the next state.
-/

namespace TdsqlMerge.Splitter
open Lib

section
variable (parse : Str → Option SQLStatement)

/-- The number of CREATE TABLE and ALTER TABLE statements on a table. -/
def statements (key : Key) (dealt : List LogEvent) : Nat :=
  dealt.countP fun e => e.updates parse = some key

/-- A stream without DROP DATABASE in which each table is created before its first rows event. -/
structure Stream (dealt : List LogEvent) : Prop where
  kept : ∀ e ∈ dealt, e.drops parse = none
  created : ∀ i r, dealt[i]? = some (.rows r) → 0 < statements parse r.key (dealt.take i)

/-- The rows events of the stream as they were submitted. -/
def futures (dealt : List LogEvent) : List Future :=
  dealt.zipIdx.filterMap fun e => match e.1 with
    | .rows r => some { event := e.2, rows := r }
    | _ => none

/-- The texts of the rows events that belong into `state.dat` of a table. -/
def belonging (dealt : List LogEvent) (key : Key) (state : Nat) (futs : List Future) : List Chunk :=
  futs.filterMap fun fut =>
    if fut.rows.key = key ∧ statements parse key (dealt.take fut.event) = state + 1 then
      fut.rows.str.map fun str => { event := fut.event, str }
    else none

/-- The step does not advance a table that has unwritten rows events, on a query text for which `dealEvent`
    does not drain. -/
def settled (s : EventDealer) (a : Action) : Bool :=
  match a, s.point with
  | .main, .query event =>
    drains event.query ||
      match (LogEvent.query event).updates parse with
      | none => true
      | some key =>
        (s.tableAlterStateLookup.lookup key).isNone || s.unwritten.all fun fut => fut.rows.key ≠ key
  | _, _ => true

/-- The lines of each rows event are in the file of the state the table has at its place, and in no other
    file. -/
def FiledByState (s : EventDealer) : Prop :=
  ∀ i r str, s.dealt[i]? = some (.rows r) → r.str = some str →
    ∃ state, statements parse r.key (s.dealt.take i) = state + 1 ∧
      (∃ file, s.dat (r.key, state) = some file ∧ { event := i, str } ∈ file.chunks) ∧
      ∀ key state' file chunk, s.dat (key, state') = some file → chunk ∈ file.chunks →
        chunk.event = i → key = r.key ∧ state' = state ∧ chunk.str = str

end

variable {parse : Str → Option SQLStatement} {s s' : EventDealer} {dealt : List LogEvent}

/-! ### Streams -/

/-- One more event is counted if it updates the table. -/
lemma statements_concat {key : Key} {e : LogEvent} :
    statements parse key (dealt ++ [e]) =
      statements parse key dealt + if e.updates parse = some key then 1 else 0 := by
  simp [statements, List.countP_append, List.countP_cons]

/-- A part of the stream has no more statements. -/
lemma statements_take {key : Key} {i : Nat} :
    statements parse key (dealt.take i) ≤ statements parse key dealt :=
  (List.take_sublist i dealt).countP_le

/-- A stream without its last event is a stream. -/
lemma Stream.init {e : LogEvent} (stream : Stream parse (dealt ++ [e])) : Stream parse dealt where
  kept := fun e' mem => stream.kept e' (List.mem_append_left _ mem)
  created := by
    intro i r at_i
    have lt := (List.getElem?_eq_some_iff.mp at_i).1
    have pos := stream.created i r (by rw [List.getElem?_append_left lt, at_i])
    rwa [List.take_append_of_le_length (Nat.le_of_lt lt)] at pos

/-- Without DROP DATABASE, the state of a table counts its statements. -/
lemma registry_statements {key : Key} (kept : ∀ e ∈ dealt, e.drops parse = none) :
    ((registry parse dealt key).map Incarnation.state).elim 0 (· + 1) = statements parse key dealt := by
  induction dealt using List.reverseRecOn with
  | nil => rfl
  | append_singleton dealt e ih =>
    have ih := ih fun e' mem => kept e' (List.mem_append_left _ mem)
    rw [statements_concat, ← ih]
    cases updates : e.updates parse with
    | none =>
      rw [registry_neutral updates (kept e (List.mem_append_right _ (List.mem_singleton.mpr rfl))),
        if_neg (by simp), Nat.add_zero]
    | some key' =>
      rw [registry_updates updates]
      by_cases same : key' = key
      · rw [same, Function.update_self, if_pos rfl]
        cases registry parse dealt key <;> rfl
      · rw [Function.update_of_ne (Ne.symm same), if_neg (fun h => same (Option.some.inj h)), Nat.add_zero]

/-- The value of `tableAlterStateLookup` in terms of the stream. -/
lemma Coherent.state_statements {key : Key} (co : Coherent parse s) (stream : Stream parse s.dealt) :
    (s.tableAlterStateLookup.lookup key).elim 0 (· + 1) = statements parse key s.dealt := by
  rw [co.states, registry_statements stream.kept]

/-- One more event is a future if it has rows. -/
lemma futures_concat {e : LogEvent} :
    futures (dealt ++ [e]) =
      futures dealt ++ match e with
        | .rows r => [{ event := dealt.length, rows := r }]
        | _ => [] := by
  rw [futures, List.zipIdx_append, List.filterMap_append]
  cases e <;> simp [futures]

/-- The futures are the rows events in their places. -/
lemma mem_futures {fut : Future} : fut ∈ futures dealt ↔ dealt[fut.event]? = some (.rows fut.rows) := by
  rw [futures, List.mem_filterMap]
  constructor
  · rintro ⟨⟨e, i⟩, mem, h⟩
    rw [List.mem_zipIdx_iff_getElem?] at mem
    cases e with
    | query event => cases h
    | rows r =>
      cases h
      exact mem
    | other => cases h
  · intro at_i
    exact ⟨(.rows fut.rows, fut.event), List.mem_zipIdx_iff_getElem?.mpr at_i, rfl⟩

/-- The futures are in places of the stream. -/
lemma futures_lt {fut : Future} (mem : fut ∈ futures dealt) : fut.event < dealt.length :=
  (List.getElem?_eq_some_iff.mp (mem_futures.mp mem)).1

/-- A later event does not change what belongs where. -/
lemma belonging_concat {e : LogEvent} {key : Key} {state : Nat} {futs : List Future}
    (lt : ∀ fut ∈ futs, fut.event < dealt.length) :
    belonging parse (dealt ++ [e]) key state futs = belonging parse dealt key state futs := by
  apply List.filterMap_congr
  intro fut mem
  rw [List.take_append_of_le_length (Nat.le_of_lt (lt fut mem))]

/-- Nothing belongs into the file of a state the table has not had. -/
lemma belonging_future {key : Key} {state : Nat} {futs : List Future}
    (none_yet : statements parse key dealt ≤ state) : belonging parse dealt key state futs = [] := by
  rw [belonging, List.filterMap_eq_nil_iff]
  intro fut _
  apply if_neg
  rintro ⟨_, e⟩
  have le := @statements_take parse dealt key fut.event
  omega

/-! ### The invariant -/

/-- What a file holds. -/
def chunksAt (dat : Key × Nat → Option DatFile) (key : Key) (state : Nat) : List Chunk :=
  ((dat (key, state)).map DatFile.chunks).getD []

/-- Every rows event under way belongs into the current file of its table, whose writer is open, and the
    files hold what belongs there of the others. -/
structure Filed (parse : Str → Option SQLStatement) (s : EventDealer) : Prop where
  live : ∀ key writer, s.tableWriterLookup.lookup key = some writer → writer.id ∉ s.closed
  exists_file : ∀ key writer, s.tableWriterLookup.lookup key = some writer →
    ∃ file, s.dat (key, writer.state) = some file
  closed_lt : ∀ id ∈ s.closed, id < s.dealt.length
  current : ∀ fut ∈ s.unwritten, ∃ writer, s.tableWriterLookup.lookup fut.rows.key = some writer ∧
    statements parse fut.rows.key (s.dealt.take fut.event) = writer.state + 1
  writing : ∀ writer fut str, s.writing = some (writer, fut, str) →
    s.tableWriterLookup.lookup fut.rows.key = some writer ∧ fut.rows.str = some str
  files : ∃ done, done ++ s.unwritten = futures s.dealt ∧
    ∀ key state, chunksAt s.dat key state = belonging parse s.dealt key state done

/-- The rows events under way were dealt with. -/
lemma Filed.unwritten_lt {fut : Future} (fi : Filed parse s) (mem : fut ∈ s.unwritten) :
    fut.event < s.dealt.length := by
  obtain ⟨done, split, _⟩ := fi.files
  apply futures_lt
  rw [← split]
  exact List.mem_append_right _ mem

/-- A step that leaves the rows events under way and the files alone. -/
lemma Filed.frame (fi : Filed parse s) (q : Quiet s s')
    (dealt : s'.dealt = s.dealt ∨ ∃ e, s'.dealt = s.dealt ++ [e] ∧ ∀ r, e ≠ .rows r) :
    Filed parse s' := by
  have len : s.dealt.length ≤ s'.dealt.length := by
    rcases dealt with e | ⟨e, h, _⟩
    · rw [e]
    · rw [h]
      exact length_concat_le
  have taken : ∀ i ≤ s.dealt.length, s'.dealt.take i = s.dealt.take i := by
    intro i le
    rcases dealt with e | ⟨e, h, _⟩
    · rw [e]
    · rw [h, List.take_append_of_le_length le]
  have futs : futures s'.dealt = futures s.dealt := by
    rcases dealt with e | ⟨e, h, other⟩
    · rw [e]
    · rw [h, futures_concat]
      cases e with
      | rows r => exact absurd rfl (other r)
      | query event => exact List.append_nil _
      | other => exact List.append_nil _
  obtain ⟨done, split, files⟩ := fi.files
  refine ⟨?_, ?_, ?_, ?_, ?_, done, ?_, ?_⟩
  · rw [q.writers, q.closed]
    exact fi.live
  · rw [q.writers, q.dat]
    exact fi.exists_file
  · rw [q.closed]
    exact fun id mem => Nat.lt_of_lt_of_le (fi.closed_lt id mem) len
  · rw [q.unwritten, q.writers]
    intro fut mem
    rw [taken _ (Nat.le_of_lt (fi.unwritten_lt mem))]
    exact fi.current fut mem
  · rw [q.writing, q.writers]
    exact fi.writing
  · rw [q.unwritten, futs, split]
  · intro key state
    rw [q.dat, files]
    apply List.filterMap_congr
    intro fut mem
    rw [taken]
    apply Nat.le_of_lt
    apply futures_lt
    rw [← split]
    exact List.mem_append_left _ mem

/-- The texts of futures that follow others. -/
lemma belonging_append {key : Key} {state : Nat} {futs futs' : List Future} :
    belonging parse dealt key state (futs ++ futs') =
      belonging parse dealt key state futs ++ belonging parse dealt key state futs' :=
  List.filterMap_append

/-- A submitted rows event belongs into the current file. -/
lemma Filed.submit {r : RowsLogEvent} (co : Coherent parse s) (fi : Filed parse s)
    (stream : Stream parse (s.dealt ++ [.rows r])) : Filed parse (s.dealEvent (.rows r)) := by
  obtain ⟨done, split, files⟩ := fi.files
  refine ⟨fi.live, fi.exists_file, ?_, ?_, fi.writing, done, ?_, ?_⟩
  · exact fun id mem => Nat.lt_of_lt_of_le (fi.closed_lt id mem) length_concat_le
  · rw [unwritten_submitted]
    intro fut mem
    show ∃ writer, s.tableWriterLookup.lookup fut.rows.key = some writer ∧
      statements parse fut.rows.key ((s.dealt ++ [LogEvent.rows r]).take fut.event) = writer.state + 1
    rcases List.mem_append.mp mem with old | new
    · rw [List.take_append_of_le_length (Nat.le_of_lt (fi.unwritten_lt old))]
      exact fi.current fut old
    · rw [List.mem_singleton] at new
      subst new
      dsimp only
      rw [List.take_left]
      -- the table exists, so its writer is that of its last statement
      have pos := stream.created s.dealt.length r (List.getElem?_concat_length)
      rw [List.take_left] at pos
      have count := @Coherent.state_statements _ _ r.key co stream.init
      cases at_key : s.tableAlterStateLookup.lookup r.key with
      | none =>
        rw [at_key] at count
        simp only [Option.elim] at count
        omega
      | some state =>
        rw [at_key] at count
        obtain ⟨writer, mapped⟩ := co.mapped r.key state at_key
        refine ⟨writer, mapped, ?_⟩
        have same := (co.writer r.key writer mapped).2.1
        rw [at_key] at same
        cases same
        exact count.symm
  · rw [unwritten_submitted, ← List.append_assoc, split]
    show _ = futures (s.dealt ++ [LogEvent.rows r])
    rw [futures_concat]
  · intro key state
    show chunksAt s.dat key state = belonging parse (s.dealt ++ [.rows r]) key state done
    rw [files, belonging_concat]
    intro fut mem
    apply futures_lt
    rw [← split]
    exact List.mem_append_left _ mem

/-- A statement on a table without unwritten rows events opens an empty file, into which nothing belongs
    yet. -/
lemma Filed.open {event : QueryLogEvent} {key : Key} {statement : SQLStatement} {state : Nat}
    {closed : List Nat} (fi : Filed parse s) (free : ∀ fut ∈ s.unwritten, fut.rows.key ≠ key)
    (count : statements parse key s.dealt = state) (closed_lt : ∀ id ∈ closed, id < s.dealt.length)
    (live : ∀ key' writer, key' ≠ key → s.tableWriterLookup.lookup key' = some writer →
      writer.id ∉ closed) :
    Filed parse (EventDealer.openState { s with closed } event key statement state) := by
  -- the files of other tables are left alone
  have dat_ne : ∀ key' state', key' ≠ key → ∀ file : DatFile,
      Function.update s.dat (key, state) (some file) (key', state') = s.dat (key', state') := by
    intro key' state' ne file
    exact Function.update_of_ne (fun h => ne (congrArg Prod.fst h)) _ _
  obtain ⟨done, split, files⟩ := fi.files
  refine ⟨?_, ?_, ?_, ?_, ?_, done, ?_, ?_⟩
  · intro key' writer at_key
    show writer.id ∉ closed
    rcases lookup_inserted at_key with ⟨_, rfl⟩ | ⟨ne, at_key⟩
    · exact fun mem => absurd (closed_lt _ mem) (lt_irrefl _)
    · exact live key' writer ne at_key
  · intro key' writer at_key
    show ∃ file, Function.update s.dat (key, state) (some _) (key', writer.state) = some file
    rcases lookup_inserted at_key with ⟨rfl, rfl⟩ | ⟨ne, at_key⟩
    · exact ⟨_, Function.update_self _ _ _⟩
    · rw [dat_ne key' writer.state ne]
      exact fi.exists_file key' writer at_key
  · exact fun id mem => Nat.lt_of_lt_of_le (closed_lt id mem) length_concat_le
  · intro fut mem
    change fut ∈ s.unwritten at mem
    show ∃ writer, (s.tableWriterLookup.insert key _).lookup fut.rows.key = some writer ∧
      statements parse fut.rows.key ((s.dealt ++ [LogEvent.query event]).take fut.event) = writer.state + 1
    rw [AList.lookup_insert_ne (free fut mem),
      List.take_append_of_le_length (Nat.le_of_lt (fi.unwritten_lt mem))]
    exact fi.current fut mem
  · intro writer fut str writing
    change s.writing = some (writer, fut, str) at writing
    have mem := mem_unwritten writing
    show (s.tableWriterLookup.insert key _).lookup fut.rows.key = some writer ∧ _
    rw [AList.lookup_insert_ne (free fut mem)]
    exact fi.writing writer fut str writing
  · show done ++ s.unwritten = futures (s.dealt ++ [LogEvent.query event])
    rw [split, futures_concat, List.append_nil]
  · intro key' state'
    have lt : ∀ fut ∈ done, fut.event < s.dealt.length := by
      intro fut mem
      apply futures_lt
      rw [← split]
      exact List.mem_append_left _ mem
    show chunksAt (Function.update s.dat (key, state) (some _)) key' state' =
      belonging parse (s.dealt ++ [.query event]) key' state' done
    rw [belonging_concat lt]
    by_cases e : (key', state') = (key, state)
    · cases e
      rw [chunksAt, Function.update_self, belonging_future (Nat.le_of_eq count)]
      rfl
    · rw [chunksAt, Function.update_of_ne e]
      exact files key' state'

/-- The first rows event under way is done with, and the files have grown by what belongs there of it. -/
lemma Filed.advance_files {fut : Future} {rest : List Future} {dat : Key × Nat → Option DatFile}
    (fi : Filed parse s) (first : s.unwritten = fut :: rest)
    (grown : ∀ key state, chunksAt dat key state =
      chunksAt s.dat key state ++ belonging parse s.dealt key state [fut]) :
    ∃ done, done ++ rest = futures s.dealt ∧
      ∀ key state, chunksAt dat key state = belonging parse s.dealt key state done := by
  obtain ⟨done, split, files⟩ := fi.files
  refine ⟨done ++ [fut], ?_, ?_⟩
  · rw [← split, first, List.append_assoc]
    rfl
  · intro key state
    rw [grown, files, belonging_append]

/-- A written rows event goes where it belongs. -/
lemma Filed.write {writer : BufferedWriter} {fut : Future} {str : Str} (co : Coherent parse s)
    (fi : Filed parse s) (writing : s.writing = some (writer, fut, str)) :
    Filed parse (s.endWrite writer fut str) := by
  obtain ⟨mapped, parsed⟩ := fi.writing writer fut str writing
  obtain ⟨key, _, _⟩ := co.writer _ writer mapped
  have first := unwritten_written writing
  have count : statements parse fut.rows.key (s.dealt.take fut.event) = writer.state + 1 := by
    obtain ⟨writer', mapped', count⟩ := fi.current fut (by rw [first]; exact List.mem_cons_self)
    rw [mapped] at mapped'
    cases mapped'
    exact count
  obtain ⟨file, at_file⟩ := fi.exists_file _ writer mapped
  rw [EventDealer.endWrite, if_neg (fi.live _ writer mapped), key, at_file] at first ⊢
  refine ⟨fi.live, ?_, fi.closed_lt, ?_, ?_, ?_⟩
  · intro key' writer' at_key
    show ∃ file, Function.update s.dat _ (some _) (key', writer'.state) = some file
    by_cases e : (key', writer'.state) = (fut.rows.key, writer.state)
    · rw [e]
      exact ⟨_, Function.update_self _ _ _⟩
    · rw [Function.update_of_ne e]
      exact fi.exists_file key' writer' at_key
  · intro fut' mem
    apply fi.current fut'
    rw [first]
    exact List.mem_cons_of_mem _ mem
  · intro writer' fut' str' writing'
    cases writing'
  · apply fi.advance_files first
    intro key' state
    show chunksAt (Function.update s.dat (fut.rows.key, writer.state)
      (some { file with chunks := file.chunks ++ [{ event := fut.event, str }] })) key' state = _
    -- the writer is on the file of the state at which the event was submitted
    by_cases e : (key', state) = (fut.rows.key, writer.state)
    · cases e
      rw [belonging, List.filterMap_cons, if_pos ⟨rfl, count⟩, parsed, chunksAt, Function.update_self,
        chunksAt, at_file]
      rfl
    · have other : belonging parse s.dealt key' state [fut] = [] := by
        rw [belonging, List.filterMap_cons, if_neg]
        · rfl
        · rintro ⟨rfl, count'⟩
          rw [count] at count'
          exact e (by rw [Nat.succ.inj count'])
      rw [other, List.append_nil, chunksAt, Function.update_of_ne e, chunksAt]

/-- The main thread is in the loop of a DROP DATABASE or has closed everything. -/
def Closing (s : EventDealer) : Prop := (∃ event, s.point = .dropping event) ∨ s.point = .closed

/-- A DROP DATABASE statement is only left through its end, and `closeAll` is not left. -/
lemma Closing.step {a : Action} (stage : Staged parse s) (cl : Closing s)
    (st : s.step parse a = some s') : Closing s' ∨ ∃ e ∈ s'.dealt, e.drops parse ≠ none := by
  have point : s'.point = s.point → Closing s' := by
    intro e
    rw [Closing, e]
    exact cl
  cases a with
  | deal event => rcases cl with ⟨event, cl⟩ | cl <;> (rw [EventDealer.step, cl] at st; cases st)
  | waitIt => rcases cl with ⟨event, cl⟩ | cl <;> (rw [EventDealer.step, cl] at st; cases st)
  | closeAll => rcases cl with ⟨event, cl⟩ | cl <;> (rw [EventDealer.step, cl] at st; cases st)
  | close key =>
    rw [EventDealer.step] at st
    split at st
    · obtain ⟨writer, _, rfl⟩ := Option.map_eq_some_iff.mp st
      exact Or.inl (point rfl)
    · cases st
  | main =>
    rw [EventDealer.step, EventDealer.main] at st
    rcases cl with ⟨event, cl⟩ | cl
    · rw [cl] at st
      dsimp only at st
      split at st
      · cases st
        refine Or.inr ⟨.query event, List.mem_append_right _ (List.mem_singleton.mpr rfl), ?_⟩
        rw [stage.drops cl]
        exact Option.some_ne_none _
      · cases st
    · rw [cl] at st
      cases st
  | parse event =>
    rw [EventDealer.step] at st
    split at st
    · cases st
      exact Or.inl (point rfl)
    · cases st
  | back => exact Or.inl (point (back_suffix st).1)

/-- What the condition of a step says when a statement advances a table. -/
lemma settled_free {event : QueryLogEvent} {key : Key} {state : Nat} (stage : Staged parse s)
    (ok : settled parse s .main = true) (at_query : s.point = .query event)
    (updates : (LogEvent.query event).updates parse = some key)
    (at_key : s.tableAlterStateLookup.lookup key = some state) :
    ∀ fut ∈ s.unwritten, fut.rows.key ≠ key := by
  intro fut mem
  simp only [settled, at_query, updates, at_key] at ok
  cases drain : drains event.query with
  | true =>
    rw [Staged, at_query] at stage
    rw [stage drain] at mem
    cases mem
  | false =>
    rw [drain] at ok
    have free : ∀ fut ∈ s.unwritten, fut.rows.key ≠ key := by simpa using ok
    exact free fut mem

/-- A step that meets the condition keeps the invariant. -/
lemma Filed.step {a : Action} (stage : Staged parse s) (co : Coherent parse s) (fi : Filed parse s)
    (ok : settled parse s a = true) (stream : Stream parse s'.dealt) (ef : Effect parse s a s') :
    Closing s' ∨ Filed parse s' := by
  cases ef with
  | quiet q dealt => exact Or.inr (fi.frame q (Or.inl dealt))
  | noted e q neutral dealt => exact Or.inr (fi.frame q (Or.inr ⟨e, dealt, neutral.rows⟩))
  | submitted r => exact Or.inr (fi.submit co stream)
  | created event key statement at_query updates none =>
    have free : ∀ fut ∈ s.unwritten, fut.rows.key ≠ key := by
      rintro fut mem rfl
      -- a rows event under way has a writer, a new table has none
      obtain ⟨writer, mapped, _⟩ := fi.current fut mem
      have known := (co.writer _ writer mapped).2.1
      rw [none] at known
      cases known
    have count := @Coherent.state_statements _ _ key co (@Stream.init _ _ (.query event) stream)
    rw [none] at count
    exact Or.inr (fi.open free count.symm fi.closed_lt fun key' writer _ => fi.live key' writer)
  | advanced event key statement state writer at_query updates at_key mapped =>
    have count := @Coherent.state_statements _ _ key co (@Stream.init _ _ (.query event) stream)
    rw [at_key] at count
    obtain ⟨_, _, lt⟩ := co.writer key writer mapped
    refine Or.inr (fi.open (settled_free stage ok at_query updates at_key) count.symm ?_ ?_)
    · exact List.forall_mem_cons.mpr ⟨lt, fi.closed_lt⟩
    · intro key' writer' ne mapped' mem
      rcases List.mem_cons.mp mem with same | old
      · exact ne (co.apart key' key writer' writer mapped' mapped same)
      · exact fi.live key' writer' mapped' old
  | closing event key writer at_drop mapped => exact Or.inl (Or.inl ⟨event, at_drop⟩)
  | forgot event at_drop all =>
    -- no statement of the stream drops a database
    have kept := stream.kept (.query event) (List.mem_append_right _ (List.mem_singleton.mpr rfl))
    rw [stage.drops at_drop] at kept
    cases kept
  | written writer fut str writing => exact Or.inr (fi.write co writing)
  | took writer fut str futs rest writing backlog parsed mapped =>
    have same := @unwritten_took _ writer _ str _ _ writing backlog
    refine Or.inr ⟨fi.live, fi.exists_file, fi.closed_lt, ?_, ?_, ?_⟩
    · rw [same]
      exact fi.current
    · intro writer' fut' str' e
      cases e
      exact ⟨mapped, parsed⟩
    · rw [same]
      exact fi.files
  | skipped fut futs rest writing backlog parsed =>
    have first := unwritten_skipped writing backlog
    refine Or.inr ⟨fi.live, fi.exists_file, fi.closed_lt, ?_, fi.writing, ?_⟩
    · intro fut' mem
      apply fi.current fut'
      rw [first]
      exact List.mem_cons_of_mem _ mem
    · apply fi.advance_files first
      intro key state
      have nothing : belonging parse s.dealt key state [fut] = [] := by
        rw [belonging, List.filterMap_cons, parsed]
        split <;> simp_all
      rw [nothing, List.append_nil]
  | abandoned fut futs rest writing backlog none =>
    -- a rows event under way has a writer, so its batch is not given up
    have mem : fut ∈ s.unwritten := by
      rw [unwritten_abandoned writing backlog]
      exact List.mem_cons_self
    obtain ⟨writer, mapped, _⟩ := fi.current fut mem
    rw [none] at mapped
    cases mapped
  | finished waited => exact Or.inl (Or.inr rfl)

/-- In a new dealer nothing is under way. -/
lemma Filed.new : Filed parse .new where
  live := by
    intro key writer at_key
    cases at_key
  exists_file := by
    intro key writer at_key
    cases at_key
  closed_lt := by
    intro id mem
    cases mem
  current := by
    intro fut mem
    cases mem
  writing := by
    intro writer fut str writing
    cases writing
  files := ⟨[], rfl, fun key state => rfl⟩

/-- The invariant holds along every run that meets the condition, until writers are closed for good. -/
lemma run_filed (run : Steps (EventDealer.step parse) (fun s a => settled parse s a = true) .new s)
    (stream : Stream parse s.dealt) : Closing s ∨ Filed parse s := by
  revert stream
  refine run.invariant_along (I := fun s => Stream parse s.dealt → Closing s ∨ Filed parse s)
    (fun _ => Or.inr .new) ?_
  intro s1 a s2 run ih ok st stream
  obtain ⟨stage, co⟩ := reachable_coherent (run.imp fun _ _ _ => trivial)
  have ef := step_effect st
  have before : Stream parse s1.dealt := by
    rcases ef.appends with e | ⟨e, h⟩
    · rwa [← e]
    · rw [h] at stream
      exact stream.init
  rcases ih before with cl | fi
  · rcases cl.step stage st with cl | ⟨e, mem, drop⟩
    · exact Or.inl cl
    · exact absurd (stream.kept e mem) drop
  · exact fi.step stage co ok stream ef

/-- What belongs into a file came with a rows event of its table and state. -/
lemma mem_belonging {key : Key} {state : Nat} {chunk : Chunk}
    (mem : chunk ∈ belonging parse dealt key state (futures dealt)) :
    ∃ r, dealt[chunk.event]? = some (.rows r) ∧ r.key = key ∧ r.str = some chunk.str ∧
      statements parse key (dealt.take chunk.event) = state + 1 := by
  obtain ⟨fut, here, h⟩ := List.mem_filterMap.mp mem
  split at h
  · rename_i at_key
    obtain ⟨str, parsed, rfl⟩ := Option.map_eq_some_iff.mp h
    exact ⟨fut.rows, mem_futures.mp here, at_key.1, parsed, at_key.2⟩
  · cases h

/-- If no step advances a table that has unwritten rows events, then after `waitIt` the lines of each rows
    event are in the file of its state. -/
theorem settled_filed
    (run : Steps (EventDealer.step parse) (fun s a => settled parse s a = true) .new s)
    (waited : s.point = .waited) (stream : Stream parse s.dealt) : FiledByState parse s := by
  have fi : Filed parse s := by
    rcases run_filed run stream with (⟨event, cl⟩ | cl) | fi
    · rw [waited] at cl
      cases cl
    · rw [waited] at cl
      cases cl
    · exact fi
  have all : ∀ key state, chunksAt s.dat key state = belonging parse s.dealt key state (futures s.dealt) := by
    obtain ⟨done, split, files⟩ := fi.files
    have stage := (reachable_coherent (run.imp fun _ _ _ => trivial)).1
    rw [Staged, waited] at stage
    rw [stage, List.append_nil] at split
    rw [← split]
    exact files
  intro i r str at_i parsed
  have pos := stream.created i r at_i
  obtain ⟨state, count⟩ := Nat.exists_eq_succ_of_ne_zero (Nat.ne_of_gt pos)
  refine ⟨state, count, ?_, ?_⟩
  · have here : { event := i, str } ∈ chunksAt s.dat r.key state := by
      rw [all]
      refine List.mem_filterMap.mpr ⟨{ event := i, rows := r }, mem_futures.mpr at_i, ?_⟩
      rw [if_pos ⟨rfl, count⟩, parsed]
      rfl
    cases file : s.dat (r.key, state) with
    | none =>
      rw [chunksAt, file] at here
      cases here
    | some f =>
      rw [chunksAt, file] at here
      exact ⟨f, rfl, here⟩
  · rintro key state' file chunk at_file mem rfl
    have here : chunk ∈ chunksAt s.dat key state' := by
      rw [chunksAt, at_file]
      exact mem
    rw [all] at here
    obtain ⟨r', at_i', key', str', count'⟩ := mem_belonging here
    rw [at_i] at at_i'
    cases at_i'
    rw [parsed] at str'
    cases str'
    rw [← key', count] at count'
    exact ⟨key'.symm, (Nat.succ.inj count').symm, rfl⟩

/-! ### Runs -/

/-- The statements of the runs below. -/
def parseStatement (query : Str) : Option SQLStatement :=
  let t : SQLName := { name := "t".toList, quoted := false }
  let column (name : Str) : SQLColumnDefinition :=
    { columnName := { name, quoted := false }, dataType := "int".toList, constraints := [],
      defaultExpr := none }
  if query = "CREATE TABLE t (id int)".toList then some (.createTable t [column "id".toList] [])
  else if query = "ALTER TABLE t ADD COLUMN a int".toList then
    some (.alterTable t [.addColumn [column "a".toList] .none])
  else if query = "ALTER TABLE t ADD COLUMN create_time int".toList then
    some (.alterTable t [.addColumn [column "create_time".toList] .none])
  else none

/-- A CREATE TABLE, a row and an ALTER TABLE. -/
def alterStream (alter : Str) : List LogEvent :=
  [.query ⟨"d".toList, "CREATE TABLE t (id int)".toList⟩,
    .rows ⟨"d".toList, "t".toList, .write, [[(true, .string "1".toList)]]⟩,
    .query ⟨"d".toList, alter⟩]

/-- The row is written while the ALTER TABLE waits for it. -/
def drainedRun : List Action :=
  (alterStream "ALTER TABLE t ADD COLUMN a int".toList).flatMap (fun e => [.deal e, .main]) ++
    [.parse 1, .main, .back, .back, .back, .main, .main, .waitIt, .main, .main, .back, .main]

/-- The row is written after the ALTER TABLE, whose text has the word `create`. -/
def lateRun : List Action :=
  (alterStream "ALTER TABLE t ADD COLUMN create_time int".toList).flatMap (fun e => [.deal e, .main]) ++
    [.waitIt, .main, .parse 1, .main, .back, .back, .back, .main]

/-- The stream with the ALTER is a stream. -/
lemma alterStream_stream {alter : Str} (kept : (LogEvent.query ⟨"d".toList, alter⟩).drops parseStatement = none) :
    Stream parseStatement (alterStream alter) where
  kept := by
    simp only [alterStream, List.forall_mem_cons]
    exact ⟨by decide, by decide, kept, by simp⟩
  created := by
    intro i r at_i
    match i with
    | 1 =>
      cases at_i
      show 0 < statements parseStatement ("d".toList, "t".toList)
        [.query ⟨"d".toList, "CREATE TABLE t (id int)".toList⟩]
      decide +kernel
    | 0 => cases at_i
    | 2 => cases at_i
    | n + 3 => cases at_i

/-- With a drain before it the ALTER leaves the row in its file. -/
theorem drained_row_filed : ∃ s,
    Steps (EventDealer.step parseStatement) (fun s a => settled parseStatement s a = true) .new s ∧
      s.point = .waited ∧ s.dealt = alterStream "ALTER TABLE t ADD COLUMN a int".toList ∧
      FiledByState parseStatement s := by
  have run : (drainedRun.foldlM (fun s a => if settled parseStatement s a then
      EventDealer.step parseStatement s a else none) .new).any
        (fun s => s.point = .waited ∧ s.dealt = alterStream "ALTER TABLE t ADD COLUMN a int".toList) =
        true := by decide +kernel
  obtain ⟨s, steps, h⟩ := (Option.any_eq_true _ _).mp run
  obtain ⟨waited, dealt⟩ := of_decide_eq_true h
  have run := Steps.of_checked steps
  have stream : Stream parseStatement s.dealt := by
    rw [dealt]
    exact alterStream_stream (by decide +kernel)
  exact ⟨s, run, waited, dealt, settled_filed run waited stream⟩

/-- Without a drain the row may go to the file of the next state. -/
theorem late_row_misfiled : ¬ ∀ (parse : Str → Option SQLStatement) (s : EventDealer),
    Steps (EventDealer.step parse) (fun _ _ => True) .new s → s.point = .waited →
      Stream parse s.dealt → FiledByState parse s := by
  intro claim
  have run : (lateRun.foldlM (EventDealer.step parseStatement) .new).any
      (fun s => s.point = .waited ∧
        s.dealt = alterStream "ALTER TABLE t ADD COLUMN create_time int".toList ∧
        (s.dat (("d".toList, "t".toList), 0)).map DatFile.chunks = some []) = true := by decide +kernel
  obtain ⟨s, steps, h⟩ := (Option.any_eq_true _ _).mp run
  obtain ⟨waited, dealt, file⟩ := of_decide_eq_true h
  have stream : Stream parseStatement s.dealt := by
    rw [dealt]
    exact alterStream_stream (by decide +kernel)
  have row : s.dealt[1]? =
      some (.rows ⟨"d".toList, "t".toList, .write, [[(true, .string "1".toList)]]⟩) := by
    rw [dealt]
    rfl
  obtain ⟨state, count, ⟨f, at_file, mem⟩, _⟩ :=
    claim parseStatement s (Steps.of_foldlM steps) waited stream 1 _ "\"1\"\n".toList row (by decide)
  -- the row belongs into the file of state 0, which is empty
  have first : statements parseStatement ("d".toList, "t".toList) (s.dealt.take 1) = 1 := by
    rw [dealt]
    decide +kernel
  have zero : state = 0 := Nat.succ.inj (count.symm.trans first)
  rw [zero] at at_file
  have empty : some f.chunks = some [] := by
    rw [← file]
    exact (congrArg (Option.map DatFile.chunks) at_file).symm
  rw [Option.some.inj empty] at mem
  cases mem

end TdsqlMerge.Splitter
