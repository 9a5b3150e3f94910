import TdsqlMerge.Splitter.Filing

/-!
# What becomes of a rows event

The write-back thread is done with a rows event when its text is written, or when something went wrong: the
text did not parse, the table has no writer, `write` raised an `IOException`, or the event stood behind one
without a writer, whose `NullPointerException` ends the loop over the list. `outcomes` says it for a step.
A write may here also fail on an open writer, which is the step `writeFails`.

`run_account` says that every rows event has exactly one outcome or is still under way, in the order of
submission, and `run_files` that the files hold what the outcomes say was written.
-/

namespace TdsqlMerge.Splitter
open Lib

/-- What becomes of a rows event. -/
inductive Outcome where
  | written (writer : BufferedWriter) (str : Str)
  /-- `RowParser.parseRowsEvent` has thrown. -/
  | unparsed
  /-- `tableWriterLookup` has no writer for the table. -/
  | noWriter
  /-- `write` has raised an `IOException`. -/
  | unwritable
  /-- The loop ended at an event before this one. -/
  | abandoned

/-- A step of the machine, or an `IOException` of the write under way. -/
inductive Move where
  | act (a : Action)
  | writeFails

namespace EventDealer

def move (parse : Str → Option SQLStatement) (s : EventDealer) : Move → Option EventDealer
  | .act a => s.step parse a
  | .writeFails => s.writing.map fun _ => { s with writing := none }

/-- The outcome of an event that is left behind when the loop ends. -/
def leftBehind (s : EventDealer) (fut : Future) : Outcome :=
  if fut.rows.str = none then .unparsed
  else if s.tableWriterLookup.lookup fut.rows.key = none then .noWriter
  else .abandoned

/-- The rows events that a step is done with, in their order. -/
def outcomes (s : EventDealer) : Move → List (Future × Outcome)
  | .act .back =>
    match s.writing with
    | some (writer, fut, str) =>
      [(fut, if writer.id ∈ s.closed then .unwritable else .written writer str)]
    | none =>
      match s.backlog with
      | (fut :: futs) :: _ =>
        if fut.event ∈ s.running then []
        else if fut.rows.str = none then [(fut, .unparsed)]
        else if s.tableWriterLookup.lookup fut.rows.key = none then
          (fut, .noWriter) :: futs.map fun fut => (fut, s.leftBehind fut)
        else []
      | _ => []
  | .act _ => []
  | .writeFails => (s.writing.map fun w => (w.2.1, .unwritable)).toList

end EventDealer

variable {parse : Str → Option SQLStatement} {s s' s0 : EventDealer} {ok : EventDealer → Move → Prop}
  {os : List (Future × Outcome)}

/-- How the write-back thread goes on, with the outcomes. -/
inductive Progress (s : EventDealer) : List (Future × Outcome) → EventDealer → Prop where
  | idle {t : EventDealer} : Quiet s t → t.dealt = s.dealt → Progress s [] t
  | took (writer : BufferedWriter) (fut : Future) (str : Str) (futs : List Future)
    (rest : List (List Future)) :
    s.writing = none → s.backlog = (fut :: futs) :: rest → fut.rows.str = some str →
    s.tableWriterLookup.lookup fut.rows.key = some writer →
    Progress s [] { s with backlog := futs :: rest, writing := some (writer, fut, str) }
  | written (writer : BufferedWriter) (fut : Future) (str : Str) :
    s.writing = some (writer, fut, str) → writer.id ∉ s.closed →
    Progress s [(fut, .written writer str)] (s.endWrite writer fut str)
  | unwritable (writer : BufferedWriter) (fut : Future) (str : Str) :
    s.writing = some (writer, fut, str) → Progress s [(fut, .unwritable)] { s with writing := none }
  | unparsed (fut : Future) (futs : List Future) (rest : List (List Future)) :
    s.writing = none → s.backlog = (fut :: futs) :: rest → fut.rows.str = none →
    Progress s [(fut, .unparsed)] { s with backlog := futs :: rest }
  | noWriter (fut : Future) (futs : List Future) (rest : List (List Future)) :
    s.writing = none → s.backlog = (fut :: futs) :: rest → fut.rows.str ≠ none →
    s.tableWriterLookup.lookup fut.rows.key = none →
    Progress s ((fut, .noWriter) :: futs.map fun fut => (fut, s.leftBehind fut)) { s with backlog := rest }

/-- A step of the write-back thread makes progress, with the outcomes it settles. -/
lemma back_progress (st : s.back = some s') : Progress s (s.outcomes (.act .back)) s' := by
  rw [EventDealer.back] at st
  split at st
  · rename_i writer fut str writing
    cases st
    by_cases mem : writer.id ∈ s.closed
    · have out : s.outcomes (.act .back) = [(fut, .unwritable)] := by
        simp only [EventDealer.outcomes, writing, if_pos mem]
      rw [out, EventDealer.endWrite, if_pos mem]
      exact .unwritable writer fut str writing
    · have out : s.outcomes (.act .back) = [(fut, .written writer str)] := by
        simp only [EventDealer.outcomes, writing, if_neg mem]
      rw [out]
      exact .written writer fut str writing mem
  · rename_i writing
    split at st
    · cases st
    · rename_i rest backlog
      cases st
      have out : s.outcomes (.act .back) = [] := by simp only [EventDealer.outcomes, writing, backlog]
      rw [out]
      refine .idle ⟨rfl, rfl, rfl, rfl, ?_, rfl, rfl, rfl⟩ rfl
      simp [EventDealer.unwritten, backlog]
    · rename_i fut futs rest backlog
      split at st
      · cases st
      · rename_i ran
        split at st
        · rename_i none
          cases st
          have out : s.outcomes (.act .back) = [(fut, .unparsed)] := by
            simp only [EventDealer.outcomes, writing, backlog, if_neg ran, if_pos none]
          rw [out]
          exact .unparsed fut futs rest writing backlog none
        · rename_i str parsed
          have some : fut.rows.str ≠ none := by simp [parsed]
          split at st
          · rename_i none
            cases st
            have out : s.outcomes (.act .back) =
                (fut, .noWriter) :: futs.map fun fut => (fut, s.leftBehind fut) := by
              simp only [EventDealer.outcomes, writing, backlog, if_neg ran, if_neg some, if_pos none]
            rw [out]
            exact .noWriter fut futs rest writing backlog some none
          · rename_i writer mapped
            cases st
            have out : s.outcomes (.act .back) = [] := by
              simp [EventDealer.outcomes, writing, backlog, ran, parsed, mapped]
            rw [out]
            exact .took writer fut str futs rest writing backlog parsed mapped

/-- A step is one of the write-back thread with its outcomes, or one of another thread without any. -/
inductive MoveEffect (parse : Str → Option SQLStatement) (s : EventDealer) :
    Move → List (Future × Outcome) → EventDealer → Prop where
  | back {m : Move} {os : List (Future × Outcome)} {t : EventDealer} : Progress s os t →
    MoveEffect parse s m os t
  | other {a : Action} {t : EventDealer} : a ≠ .back → Effect parse s a t →
    MoveEffect parse s (.act a) [] t

/-- What a move does, with the outcomes it settles. -/
lemma move_effect {m : Move} (st : s.move parse m = some s') : MoveEffect parse s m (s.outcomes m) s' := by
  cases m with
  | writeFails =>
    obtain ⟨w, writing, rfl⟩ := Option.map_eq_some_iff.mp st
    obtain ⟨writer, fut, str⟩ := w
    rw [EventDealer.outcomes, writing]
    exact .back (.unwritable writer fut str writing)
  | act a =>
    by_cases e : a = .back
    · subst e
      exact .back (back_progress st)
    · have none : s.outcomes (.act a) = [] := by
        cases a <;> first | rfl | exact absurd rfl e
      rw [none]
      exact .other e (step_effect st)

/-! ### Accounting -/

/-- The rows events submitted between two states of a run. -/
def submitted (s0 s : EventDealer) : List Future := (futures s.dealt).drop (futures s0.dealt).length

/-- Write-back does not touch the list of dealt events. -/
lemma Progress.dealt (p : Progress s os s') : s'.dealt = s.dealt := by
  cases p with
  | idle q dealt => exact dealt
  | took => rfl
  | written writer fut str writing opened => rw [EventDealer.endWrite, if_neg opened]
  | unwritable => rfl
  | unparsed => rfl
  | noWriter => rfl

/-- The write-back thread is done with the rows events in their order. -/
lemma Progress.account (p : Progress s os s') : s.unwritten = os.map Prod.fst ++ s'.unwritten := by
  cases p with
  | idle q dealt => exact q.unwritten.symm
  | took writer fut str futs rest writing backlog => exact (unwritten_took writing backlog).symm
  | written writer fut str writing opened => exact unwritten_written writing
  | unwritable writer fut str writing => simp [EventDealer.unwritten, writing]
  | unparsed fut futs rest writing backlog => exact unwritten_skipped writing backlog
  | noWriter fut futs rest writing backlog =>
    have left : (fun fut => (fut, s.leftBehind fut).1) = id := rfl
    rw [List.map_cons, List.map_map]
    show _ = fut :: futs.map (fun fut => (fut, s.leftBehind fut).1) ++ _
    rw [left, List.map_id]
    exact unwritten_abandoned writing backlog

/-- The steps of the other threads only submit rows events. -/
lemma Effect.account {a : Action} (ef : Effect parse s a s') (ne : a ≠ .back) :
    ∃ new, futures s'.dealt = futures s.dealt ++ new ∧ s'.unwritten = s.unwritten ++ new ∧
      ∀ fut ∈ new, a = .deal (.rows fut.rows) := by
  have same : ∀ {e : LogEvent}, (∀ r, e ≠ .rows r) → futures (s.dealt ++ [e]) = futures s.dealt ++ [] := by
    intro e other
    rw [futures_concat]
    cases e with
    | rows r => exact absurd rfl (other r)
    | query event => rfl
    | other => rfl
  have nothing : (futures s'.dealt = futures s.dealt ++ []) → s'.unwritten = s.unwritten →
      ∃ new, futures s'.dealt = futures s.dealt ++ new ∧ s'.unwritten = s.unwritten ++ new ∧
        ∀ fut ∈ new, a = .deal (.rows fut.rows) := by
    intro dealt unwritten
    exact ⟨[], dealt, by rw [unwritten, List.append_nil], by simp⟩
  cases ef with
  | quiet q dealt => exact nothing (by rw [dealt, List.append_nil]) q.unwritten
  | noted e q neutral dealt =>
    apply nothing _ q.unwritten
    rw [dealt]
    exact same neutral.rows
  | submitted r =>
    refine ⟨_, futures_concat, unwritten_submitted, ?_⟩
    intro fut mem
    cases List.mem_singleton.mp mem
    rfl
  | created event key statement => exact nothing (same (by simp)) rfl
  | advanced event key statement state writer => exact nothing (same (by simp)) rfl
  | closing => exact nothing (List.append_nil _).symm rfl
  | forgot event => exact nothing (same (by simp)) rfl
  | finished => exact nothing (List.append_nil _).symm rfl
  | written => exact absurd rfl ne
  | took => exact absurd rfl ne
  | skipped => exact absurd rfl ne
  | abandoned => exact absurd rfl ne

/-- A move settles the first of the unwritten events and puts those it submits at their end. -/
lemma MoveEffect.account {m : Move} (ef : MoveEffect parse s m os s') :
    ∃ new, futures s'.dealt = futures s.dealt ++ new ∧ os.map Prod.fst ++ s'.unwritten = s.unwritten ++ new ∧
      ∀ fut ∈ new, m = .act (.deal (.rows fut.rows)) := by
  cases ef with
  | back p =>
    refine ⟨[], ?_, ?_, by simp⟩
    · rw [p.dealt, List.append_nil]
    · rw [p.account, List.append_nil]
  | other ne ef =>
    obtain ⟨new, dealt, unwritten, rows⟩ := ef.account ne
    exact ⟨new, dealt, unwritten, fun fut mem => congrArg Move.act (rows fut mem)⟩

/-- Every rows event submitted in a run has one outcome or is under way at the end, in the order of their
    submission. -/
theorem run_account (run : Emits (EventDealer.move parse) EventDealer.outcomes ok s0 os s) :
    os.map Prod.fst ++ s.unwritten = s0.unwritten ++ submitted s0 s := by
  have grown : ∃ new, futures s.dealt = futures s0.dealt ++ new ∧
      os.map Prod.fst ++ s.unwritten = s0.unwritten ++ new := by
    induction run with
    | refl => exact ⟨[], (List.append_nil _).symm, (List.append_nil _).symm⟩
    | tail run _ st ih =>
      obtain ⟨new, grown, account⟩ := ih
      obtain ⟨new', grown', account', _⟩ := (move_effect st).account
      refine ⟨new ++ new', ?_, ?_⟩
      · rw [grown', grown, List.append_assoc]
      · rw [List.map_append, List.append_assoc, account', ← List.append_assoc, account, List.append_assoc]
  obtain ⟨new, grown, account⟩ := grown
  rw [account, submitted, grown, List.drop_left]

/-! ### The files -/

/-- The texts that were written with a writer. -/
def appended (writer : BufferedWriter) (os : List (Future × Outcome)) : List Chunk :=
  os.filterMap fun o => match o.2 with
    | .written w str =>
      if w.id = writer.id ∧ w.key = writer.key ∧ w.state = writer.state then some { event := o.1.event, str }
      else none
    | _ => none

/-- What a file held before, if it has not been opened again. -/
def heldBefore (s0 : EventDealer) (key : Key) (state opened : Nat) : List Chunk :=
  match s0.dat (key, state) with
  | some file => if file.opened = opened then file.chunks else []
  | none => []

/-- The writer of a table is on the file it has opened, and the writer in use is closed or that of its
    table. -/
structure Attached (s : EventDealer) : Prop where
  file : ∀ key writer, s.tableWriterLookup.lookup key = some writer →
    ∃ file, s.dat (key, writer.state) = some file ∧ file.opened = writer.id
  writing : ∀ writer fut str, s.writing = some (writer, fut, str) →
    fut.rows.key = writer.key ∧ fut.rows.str = some str ∧ writer.id < s.dealt.length ∧
      (writer.id ∈ s.closed ∨ s.tableWriterLookup.lookup writer.key = some writer)
  opened_lt : ∀ place file, s.dat place = some file → file.opened < s.dealt.length

/-- Steps that leave the files alone keep them attached. -/
lemma Attached.frame (at_ : Attached s) (q : Quiet s s') (len : s.dealt.length ≤ s'.dealt.length) :
    Attached s' where
  file := by
    rw [q.writers, q.dat]
    exact at_.file
  writing := by
    rw [q.writing, q.writers, q.closed]
    intro writer fut str writing
    obtain ⟨h1, h2, h3, h4⟩ := at_.writing writer fut str writing
    exact ⟨h1, h2, Nat.lt_of_lt_of_le h3 len, h4⟩
  opened_lt := by
    rw [q.dat]
    exact fun place file at_place => Nat.lt_of_lt_of_le (at_.opened_lt place file at_place) len

/-- A statement opens the file of the next state of its table, after the writer before was closed. -/
lemma Attached.open {event : QueryLogEvent} {key : Key} {statement : SQLStatement} {state : Nat}
    {closed : List Nat} (at_ : Attached s) (closes : ∀ id ∈ s.closed, id ∈ closed)
    (before : ∀ writer, s.tableWriterLookup.lookup key = some writer → writer.id ∈ closed) :
    Attached (EventDealer.openState { s with closed } event key statement state) where
  file := by
    intro key' writer at_key
    show ∃ file, Function.update s.dat (key, state) (some _) (key', writer.state) = some file ∧ _
    rcases lookup_inserted at_key with ⟨rfl, rfl⟩ | ⟨ne, old⟩
    · exact ⟨_, Function.update_self _ _ _, rfl⟩
    · rw [Function.update_of_ne fun h => ne (congrArg Prod.fst h)]
      exact at_.file key' writer old
  writing := by
    intro writer fut str writing
    obtain ⟨h1, h2, h3, h4⟩ := at_.writing writer fut str writing
    refine ⟨h1, h2, Nat.lt_of_lt_of_le h3 length_concat_le, ?_⟩
    show writer.id ∈ closed ∨ (s.tableWriterLookup.insert key _).lookup writer.key = some writer
    rcases h4 with old | mapped
    · exact Or.inl (closes _ old)
    · by_cases e : writer.key = key
      · rw [e] at mapped
        exact Or.inl (before writer mapped)
      · rw [AList.lookup_insert_ne e]
        exact Or.inr mapped
  opened_lt := by
    intro place file at_place
    show file.opened < (s.dealt ++ [LogEvent.query event]).length
    rcases file_updated at_place with ⟨_, rfl⟩ | ⟨_, old⟩
    · rw [List.length_append]
      exact Nat.lt_succ_self _
    · exact Nat.lt_of_lt_of_le (at_.opened_lt place file old) length_concat_le

/-- Write-back keeps the files attached. -/
lemma Attached.progress (co : Coherent parse s) (at_ : Attached s) (p : Progress s os s') : Attached s' := by
  cases p with
  | idle q dealt => exact at_.frame q (Nat.le_of_eq (congrArg List.length dealt.symm))
  | took writer fut str futs rest writing backlog parsed mapped =>
    obtain ⟨key, _, lt⟩ := co.writer _ writer mapped
    refine ⟨at_.file, ?_, at_.opened_lt⟩
    intro writer' fut' str' e
    cases e
    rw [key]
    exact ⟨rfl, parsed, lt, Or.inr mapped⟩
  | written writer fut str writing opened =>
    rw [EventDealer.endWrite, if_neg opened]
    refine ⟨?_, ?_, ?_⟩
    · intro key' writer' at_key
      obtain ⟨file, at_file, same⟩ := at_.file key' writer' at_key
      show ∃ file, Function.update s.dat _ _ (key', writer'.state) = some file ∧ _
      by_cases e : (key', writer'.state) = (writer.key, writer.state)
      · rw [e] at at_file
        rw [e, Function.update_self, at_file]
        exact ⟨_, rfl, same⟩
      · rw [Function.update_of_ne e]
        exact ⟨file, at_file, same⟩
    · intro writer' fut' str' e
      cases e
    · intro place file at_place
      change Function.update s.dat _ _ place = some file at at_place
      by_cases e : place = (writer.key, writer.state)
      · rw [e, Function.update_self, Option.map_eq_some_iff] at at_place
        obtain ⟨file', at_file, rfl⟩ := at_place
        exact at_.opened_lt _ file' at_file
      · rw [Function.update_of_ne e] at at_place
        exact at_.opened_lt place file at_place
  | unwritable writer fut str writing =>
    refine ⟨at_.file, ?_, at_.opened_lt⟩
    intro writer' fut' str' e
    cases e
  | unparsed => exact ⟨at_.file, at_.writing, at_.opened_lt⟩
  | noWriter => exact ⟨at_.file, at_.writing, at_.opened_lt⟩

/-- A step of the main thread or the closing thread keeps the files attached. -/
lemma Attached.effect {a : Action} (co : Coherent parse s) (at_ : Attached s) (ef : Effect parse s a s')
    (ne : a ≠ .back) : Attached s' := by
  cases ef with
  | quiet q dealt => exact at_.frame q (Nat.le_of_eq (congrArg List.length dealt.symm))
  | noted e q neutral dealt =>
    apply at_.frame q
    rw [dealt]
    exact length_concat_le
  | submitted r =>
    refine ⟨at_.file, ?_, ?_⟩
    · intro writer fut str writing
      obtain ⟨h1, h2, h3, h4⟩ := at_.writing writer fut str writing
      exact ⟨h1, h2, Nat.lt_of_lt_of_le h3 length_concat_le, h4⟩
    · exact fun place file at_place => Nat.lt_of_lt_of_le (at_.opened_lt place file at_place) length_concat_le
  | created event key statement at_query updates none =>
    apply at_.open (fun id mem => mem)
    intro writer mapped
    have known := (co.writer key writer mapped).2.1
    rw [none] at known
    cases known
  | advanced event key statement state writer at_query updates at_key mapped =>
    apply at_.open (fun id mem => List.mem_cons_of_mem _ mem)
    intro writer' mapped'
    rw [mapped] at mapped'
    cases mapped'
    exact List.mem_cons_self
  | closing event key writer at_drop mapped =>
    refine ⟨at_.file, ?_, at_.opened_lt⟩
    intro writer' fut str writing
    obtain ⟨h1, h2, h3, h4⟩ := at_.writing writer' fut str writing
    exact ⟨h1, h2, h3, h4.imp_left (List.mem_cons_of_mem _)⟩
  | forgot event at_drop all =>
    refine ⟨?_, ?_, ?_⟩
    · intro key writer at_key
      change (removeIf _ s.tableWriterLookup).lookup key = some writer at at_key
      rw [lookup_removeIf] at at_key
      split at at_key
      · cases at_key
      · exact at_.file key writer at_key
    · intro writer fut str writing
      obtain ⟨h1, h2, h3, h4⟩ := at_.writing writer fut str writing
      refine ⟨h1, h2, Nat.lt_of_lt_of_le h3 length_concat_le, Or.inl ?_⟩
      rcases h4 with old | mapped
      · exact old
      · exact all _ (AList.mem_lookup_iff.mp mapped)
    · exact fun place file at_place => Nat.lt_of_lt_of_le (at_.opened_lt place file at_place) length_concat_le
  | finished waited =>
    refine ⟨at_.file, ?_, at_.opened_lt⟩
    intro writer fut str writing
    obtain ⟨h1, h2, h3, h4⟩ := at_.writing writer fut str writing
    exact ⟨h1, h2, h3, h4.imp_left (List.mem_append_right _)⟩
  | written => exact absurd rfl ne
  | took => exact absurd rfl ne
  | skipped => exact absurd rfl ne
  | abandoned => exact absurd rfl ne

/-! ### Runs -/

/-- What is known of every state reached, writes that fail included. -/
structure Known (parse : Str → Option SQLStatement) (s : EventDealer) : Prop where
  staged : Staged parse s
  coherent : Coherent parse s
  attached : Attached s

/-- Write-back keeps what is known of a state. -/
lemma Progress.known (k : Known parse s) (staged : Staged parse s') (p : Progress s os s') :
    Known parse s' := by
  refine ⟨staged, ?_, k.attached.progress k.coherent p⟩
  cases p with
  | idle q dealt => apply k.coherent.frame q.states q.writers <;> rw [dealt]
  | written writer fut str writing opened =>
    rw [EventDealer.endWrite, if_neg opened]
    exact k.coherent.frame rfl rfl rfl le_rfl
  | took => exact k.coherent.frame rfl rfl rfl le_rfl
  | unwritable => exact k.coherent.frame rfl rfl rfl le_rfl
  | unparsed => exact k.coherent.frame rfl rfl rfl le_rfl
  | noWriter => exact k.coherent.frame rfl rfl rfl le_rfl

/-- A move keeps what is known of a state. -/
lemma Known.move {m : Move} (k : Known parse s) (st : s.move parse m = some s') : Known parse s' := by
  have staged : Staged parse s' := by
    cases m with
    | act a => exact step_staged k.staged st
    | writeFails =>
      obtain ⟨w, writing, rfl⟩ := Option.map_eq_some_iff.mp st
      have later : EventDealer.unwritten { s with writing := none } <:+ s.unwritten := by
        simp [EventDealer.unwritten, writing]
      exact k.staged.later rfl rfl later
  have ef := move_effect st
  generalize s.outcomes m = os at ef
  cases ef with
  | back p => exact p.known k staged
  | other ne ef => exact ⟨staged, k.coherent.step k.staged ef, k.attached.effect k.coherent ef ne⟩

/-- What is known holds in every state reached. -/
theorem reached_known (run : Steps (EventDealer.move parse) (fun _ _ => True) .new s) : Known parse s := by
  apply run.invariant (I := Known parse)
  · obtain ⟨staged, coherent⟩ := @reachable_coherent parse _ .refl
    refine ⟨staged, coherent, ?_, ?_, ?_⟩
    · intro key writer at_key
      cases at_key
    · intro writer fut str writing
      cases writing
    · intro place file at_place
      cases at_place
  · exact fun s1 m s2 k _ st => k.move st

/-- Outcomes append to a writer in their order. -/
lemma appended_append {writer : BufferedWriter} {os' : List (Future × Outcome)} :
    appended writer (os ++ os') = appended writer os ++ appended writer os' :=
  List.filterMap_append

/-- Outcomes of other writers append nothing. -/
lemma appended_eq_nil {writer : BufferedWriter}
    (other : ∀ fut w str, (fut, Outcome.written w str) ∈ os → w.id ≠ writer.id) :
    appended writer os = [] := by
  rw [appended, List.filterMap_eq_nil_iff]
  rintro ⟨fut, o⟩ mem
  cases o with
  | written w str => exact if_neg fun h => other fut w str mem h.1
  | unparsed => rfl
  | noWriter => rfl
  | unwritable => rfl
  | abandoned => rfl

/-- What write-back leaves behind is not written. -/
lemma leftBehind_ne_written {fut : Future} {writer : BufferedWriter} {str : Str} :
    s.leftBehind fut ≠ .written writer str := by
  rw [EventDealer.leftBehind]
  split
  · simp
  · split <;> simp

/-- The texts written are those of the events, with the writers of their tables. -/
structure Genuine (s : EventDealer) (os : List (Future × Outcome)) : Prop where
  key : ∀ fut writer str, (fut, Outcome.written writer str) ∈ os → fut.rows.key = writer.key
  str : ∀ fut writer str, (fut, Outcome.written writer str) ∈ os → fut.rows.str = some str
  id_lt : ∀ fut writer str, (fut, Outcome.written writer str) ∈ os → writer.id < s.dealt.length

/-- The files of a state after outcomes from another. -/
def Holding (s0 : EventDealer) (os : List (Future × Outcome)) (s : EventDealer) : Prop :=
  ∀ key state file, s.dat (key, state) = some file →
    file.chunks = heldBefore s0 key state file.opened ++ appended { id := file.opened, key, state } os

/-- Outcomes stay genuine as more events are dealt with. -/
lemma Genuine.mono (ge : Genuine s os) (len : s.dealt.length ≤ s'.dealt.length) : Genuine s' os :=
  ⟨ge.key, ge.str, fun fut writer str mem => Nat.lt_of_lt_of_le (ge.id_lt fut writer str mem) len⟩

/-- Genuine outcomes follow genuine ones. -/
lemma Genuine.append {os' : List (Future × Outcome)} (ge : Genuine s os) (ge' : Genuine s os') :
    Genuine s (os ++ os') where
  key := by
    intro fut writer str mem
    rcases List.mem_append.mp mem with mem | mem
    · exact ge.key fut writer str mem
    · exact ge'.key fut writer str mem
  str := by
    intro fut writer str mem
    rcases List.mem_append.mp mem with mem | mem
    · exact ge.str fut writer str mem
    · exact ge'.str fut writer str mem
  id_lt := by
    intro fut writer str mem
    rcases List.mem_append.mp mem with mem | mem
    · exact ge.id_lt fut writer str mem
    · exact ge'.id_lt fut writer str mem

/-- Outcomes that write nothing are genuine. -/
lemma genuine_of_unwritten (other : ∀ fut writer str, (fut, Outcome.written writer str) ∉ os) :
    Genuine s os :=
  ⟨fun fut writer str mem => absurd mem (other fut writer str),
    fun fut writer str mem => absurd mem (other fut writer str),
    fun fut writer str mem => absurd mem (other fut writer str)⟩

/-- The step puts out texts only where a file grows by them. -/
lemma Progress.written_or (p : Progress s os s') :
    ((∀ fut writer str, (fut, Outcome.written writer str) ∉ os) ∧ s'.dat = s.dat) ∨
      ∃ writer fut str, s.writing = some (writer, fut, str) ∧ writer.id ∉ s.closed ∧
        os = [(fut, .written writer str)] ∧ s' = s.endWrite writer fut str := by
  cases p with
  | idle q dealt => exact Or.inl ⟨by simp, q.dat⟩
  | took => exact Or.inl ⟨by simp, rfl⟩
  | written writer fut str writing opened => exact Or.inr ⟨writer, fut, str, writing, opened, rfl, rfl⟩
  | unwritable => exact Or.inl ⟨by simp, rfl⟩
  | unparsed => exact Or.inl ⟨by simp, rfl⟩
  | noWriter =>
    refine Or.inl ⟨?_, rfl⟩
    intro fut writer str mem
    rcases List.mem_cons.mp mem with e | mem
    · cases e
    · obtain ⟨fut', _, e⟩ := List.mem_map.mp mem
      exact leftBehind_ne_written (congrArg Prod.snd e)

/-- The open writer in use is on the file it has opened. -/
lemma Known.file {writer : BufferedWriter} {fut : Future} {str : Str} (k : Known parse s)
    (writing : s.writing = some (writer, fut, str)) (opened : writer.id ∉ s.closed) :
    ∃ file, s.dat (writer.key, writer.state) = some file ∧ file.opened = writer.id := by
  rcases (k.attached.writing writer fut str writing).2.2.2 with old | mapped
  · exact absurd old opened
  · exact k.attached.file writer.key writer mapped

/-- Outcomes that write nothing leave the files holding what they hold. -/
lemma Holding.same (ho : Holding s0 os s) {os' : List (Future × Outcome)} (dat : s'.dat = s.dat)
    (other : ∀ fut writer str, (fut, Outcome.written writer str) ∉ os') : Holding s0 (os ++ os') s' := by
  intro key state file at_file
  rw [dat] at at_file
  rw [appended_append, @appended_eq_nil os' _ fun fut w str mem => absurd mem (other fut w str),
    List.append_nil]
  exact ho key state file at_file

/-- A written row stands at the end of the file of its writer. -/
lemma Holding.write {writer : BufferedWriter} {fut : Future} {str : Str} (ho : Holding s0 os s)
    (k : Known parse s) (writing : s.writing = some (writer, fut, str)) (opened : writer.id ∉ s.closed) :
    Holding s0 (os ++ [(fut, .written writer str)]) (s.endWrite writer fut str) := by
  obtain ⟨file, at_file, same⟩ := k.file writing opened
  rw [EventDealer.endWrite, if_neg opened]
  intro key state file' at_file'
  change Function.update s.dat _ _ (key, state) = some file' at at_file'
  rw [appended_append]
  by_cases e : (key, state) = (writer.key, writer.state)
  · cases e
    rw [Function.update_self, at_file] at at_file'
    cases at_file'
    show file.chunks ++ _ = _ ++ (_ ++ appended { id := file.opened, key := _, state := _ } _)
    rw [ho _ _ file at_file, List.append_assoc, appended, appended, same]
    simp
  · rw [Function.update_of_ne e] at at_file'
    have other : appended { id := file'.opened, key, state } [(fut, .written writer str)] = [] := by
      simp only [appended, List.filterMap_cons, List.filterMap_nil]
      rw [if_neg]
      rintro ⟨_, rfl, rfl⟩
      exact e rfl
    rw [other, List.append_nil]
    exact ho key state file' at_file'

/-- A file that is opened holds nothing. -/
lemma Holding.open {event : QueryLogEvent} {key : Key} {statement : SQLStatement} {state : Nat}
    {closed : List Nat} (ho : Holding s0 os s) (ge : Genuine s os)
    (opened_lt : ∀ place file, s0.dat place = some file → file.opened < s.dealt.length) :
    Holding s0 os (EventDealer.openState { s with closed } event key statement state) := by
  intro key' state' file at_file
  rcases file_updated at_file with ⟨e, rfl⟩ | ⟨_, old⟩
  · cases e
    have fresh : appended { id := s.dealt.length, key, state } os = [] := by
      apply appended_eq_nil
      intro fut w str mem
      exact Nat.ne_of_lt (ge.id_lt fut w str mem)
    show [] = heldBefore s0 key state s.dealt.length ++
      appended { id := s.dealt.length, key, state } os
    rw [fresh, heldBefore]
    split
    · rename_i file before
      rw [if_neg (Nat.ne_of_lt (opened_lt _ file before))]
      rfl
    · rfl
  · exact ho key' state' file old

/-- A step other than of write-back changes no data file but the one it opens. -/
lemma Effect.dat {a : Action} (ef : Effect parse s a s') (ne : a ≠ .back) :
    s'.dat = s.dat ∨ ∃ closed event key statement state,
      s' = EventDealer.openState { s with closed } event key statement state := by
  cases ef with
  | quiet q dealt => exact Or.inl q.dat
  | noted e q neutral dealt => exact Or.inl q.dat
  | submitted r => exact Or.inl rfl
  | created event key statement => exact Or.inr ⟨s.closed, event, key, statement, 0, rfl⟩
  | advanced event key statement state writer => exact Or.inr ⟨_, event, key, statement, state + 1, rfl⟩
  | closing => exact Or.inl rfl
  | forgot => exact Or.inl rfl
  | finished => exact Or.inl rfl
  | written => exact absurd rfl ne
  | took => exact absurd rfl ne
  | skipped => exact absurd rfl ne
  | abandoned => exact absurd rfl ne

/-- A move forgets no dealt event. -/
lemma MoveEffect.length_le {m : Move} {out : List (Future × Outcome)} (ef : MoveEffect parse s m out s') :
    s.dealt.length ≤ s'.dealt.length := by
  cases ef with
  | back p => exact Nat.le_of_eq (congrArg List.length p.dealt.symm)
  | other ne ef => exact ef.length_le

/-- A move keeps the files holding what the outcomes say, and its outcomes are genuine. -/
lemma Known.outcomes {m : Move} {out : List (Future × Outcome)} (k : Known parse s)
    (opened_lt : ∀ place file, s0.dat place = some file → file.opened < s.dealt.length)
    (ho : Holding s0 os s) (ge : Genuine s os) (ef : MoveEffect parse s m out s') :
    Holding s0 (os ++ out) s' ∧ Genuine s' (os ++ out) := by
  have len := ef.length_le
  cases ef with
  | back p =>
    rcases p.written_or with ⟨other, dat⟩ | ⟨writer, fut, str, writing, opened, rfl, rfl⟩
    · exact ⟨ho.same dat other, (ge.append (genuine_of_unwritten other)).mono len⟩
    · refine ⟨ho.write k writing opened, (ge.append ?_).mono len⟩
      obtain ⟨key, parsed, lt, _⟩ := k.attached.writing writer fut str writing
      refine ⟨?_, ?_, ?_⟩
      · intro fut' writer' str' mem
        cases List.mem_singleton.mp mem
        exact key
      · intro fut' writer' str' mem
        cases List.mem_singleton.mp mem
        exact parsed
      · intro fut' writer' str' mem
        cases List.mem_singleton.mp mem
        exact lt
  | other ne ef =>
    rw [List.append_nil]
    refine ⟨?_, ge.mono len⟩
    rcases ef.dat ne with dat | ⟨closed, event, key, statement, state, rfl⟩
    · rw [← List.append_nil os]
      exact ho.same dat (by simp)
    · exact ho.open ge opened_lt

/-- Along a run, the texts written are those of the events, and the files hold what they held before and
    what was written with their writers. -/
theorem run_files (k : Known parse s0) (run : Emits (EventDealer.move parse) EventDealer.outcomes ok s0 os s) :
    Holding s0 os s ∧ Genuine s os := by
  suffices h : (Known parse s ∧ s0.dealt.length ≤ s.dealt.length) ∧ Holding s0 os s ∧ Genuine s os from h.2
  induction run with
  | refl =>
    refine ⟨⟨k, le_rfl⟩, ?_, genuine_of_unwritten (by simp)⟩
    intro key state file at_file
    rw [heldBefore, at_file]
    simp [appended]
  | tail run _ st ih =>
    obtain ⟨⟨k1, le⟩, ho, ge⟩ := ih
    have ef := move_effect st
    refine ⟨⟨k1.move st, le.trans ef.length_le⟩, k1.outcomes ?_ ho ge ef⟩
    exact fun place file at_place => Nat.lt_of_lt_of_le (k.attached.opened_lt place file at_place) le

end TdsqlMerge.Splitter
