import TdsqlMerge.Splitter.Outcomes

/-!
# Draining the executors

`drain_writes_all`: between two drains every rows event is written once, in the order of submission, if the
rows parse, the tables have open writers when they are submitted, and the main thread closes no writer that is
still needed. The drain before a statement sees to the last, except for query texts with the word `create`;
`drain_loses_text` is a run in which that loses a row. A rows event that fails takes others along only if its
table has no writer: `bad_event_costs_itself` and `lost_behind_bad_event`.
-/

namespace TdsqlMerge.Splitter
open Lib

/-- The drain for a query, or that of `waitIt`, has run to its end. -/
def DrainEnd (s : EventDealer) : Prop :=
  s.point = .waited ∨ ∃ event, s.point = .query event ∧ drains event.query = true

/-- What a rows event means for the files of a table. -/
def textOn (key : Key) (fut : Future) : Option Chunk :=
  if fut.rows.key = key then fut.rows.str.map fun str => { event := fut.event, str } else none

/-- The texts that were written with writers of a table. -/
def appendedOn (key : Key) (os : List (Future × Outcome)) : List Chunk :=
  os.filterMap fun o => match o.2 with
    | .written writer str => if writer.key = key then some { event := o.1.event, str } else none
    | _ => none

/-- What a run to the end of a drain leaves: no result is pending, the texts written with the writers of a
    table are those of its rows events in the order in which they were submitted, and the files have grown by
    what was written. -/
structure Drained (s0 : EventDealer) (os : List (Future × Outcome)) (s : EventDealer) : Prop where
  results : s.procResult = []
  texts : ∀ key, appendedOn key os = (submitted s0 s).filterMap (textOn key)
  files : Holding s0 os s

/-- A rows event is submitted only if its rows parse and its table has an open writer, and no write fails of
    itself. -/
def submits (s : EventDealer) : Move → Bool
  | .act (.deal (.rows r)) =>
    r.str.isSome && (s.tableWriterLookup.lookup r.key).any fun writer => writer.id ∉ s.closed
  | .act _ => true
  | .writeFails => false

/-- The main thread closes no writer that is still needed: on a statement, the writer is not the one that the
    write-back thread has looked up; on DROP DATABASE, no rows event of its table is under way. -/
def undisturbed (parse : Str → Option SQLStatement) (s : EventDealer) : Move → Bool
  | .act .main =>
    match s.point with
    | .query event =>
      match (LogEvent.query event).updates parse with
      | some key =>
        (s.tableAlterStateLookup.lookup key).isNone || s.writing.all fun w => w.2.1.rows.key ≠ key
      | none => true
    | _ => true
  | .act (.close key) => s.unwritten.all fun fut => fut.rows.key ≠ key
  | _ => true

/-- The step does not submit rows that do not parse, and the writer that the write-back thread looks up or
    writes with is there and open. -/
def served (s : EventDealer) : Move → Bool
  | .act (.deal (.rows r)) => r.str.isSome
  | .act .back =>
    match s.writing, s.backlog with
    | some (writer, _), _ => writer.id ∉ s.closed
    | none, (fut :: _) :: _ => (s.tableWriterLookup.lookup fut.rows.key).isSome
    | none, _ => true
  | .act _ => true
  | .writeFails => false

/-- The write-back thread does not come to an event without a writer in front of one that parses and has a
    writer. -/
def spares (s : EventDealer) : Move → Bool
  | .act .back =>
    match s.writing, s.backlog with
    | none, (fut :: futs) :: _ =>
      fut.rows.str.isNone || (s.tableWriterLookup.lookup fut.rows.key).isSome ||
        futs.all fun fut => fut.rows.str.isNone || (s.tableWriterLookup.lookup fut.rows.key).isNone
    | _, _ => true
  | _ => true

/-- The event itself could not be written. -/
def Outcome.failed : Outcome → Bool
  | .unparsed | .noWriter | .unwritable => true
  | _ => false

variable {parse : Str → Option SQLStatement} {s s' s0 : EventDealer} {os : List (Future × Outcome)}

/-- Where a drain has ended nothing is unwritten. -/
lemma Known.unwritten (k : Known parse s) (ended : DrainEnd s) : s.unwritten = [] := by
  have stage := k.staged
  rcases ended with waited | ⟨event, at_query, drain⟩
  · rw [Staged, waited] at stage
    exact stage
  · rw [Staged, at_query] at stage
    exact stage drain

/-- Where nothing is unwritten the batch is empty. -/
lemma procResult_of_unwritten (none : s.unwritten = []) : s.procResult = [] :=
  (List.append_eq_nil_iff.mp none).2

/-- If no event was left behind, the texts of a table are those of its events that did not fail. -/
lemma Genuine.appendedOn (ge : Genuine s os) {key : Key} (kept : ∀ o ∈ os, o.2 ≠ .abandoned) :
    appendedOn key os = ((os.filter fun o => !o.2.failed).map Prod.fst).filterMap (textOn key) := by
  rw [Splitter.appendedOn, List.filterMap_map, List.filterMap_filter]
  apply List.filterMap_congr
  rintro ⟨fut, o⟩ mem
  cases o with
  | written writer str =>
    show _ = textOn key fut
    rw [textOn, ge.key fut writer str mem, ge.str fut writer str mem]
    rfl
  | unparsed => rfl
  | noWriter => rfl
  | unwritable => rfl
  | abandoned => exact absurd rfl (kept _ mem)

/-! ### A drain writes every pending rows event -/

/-- The rows events under way have rows that parse. -/
def Parsed (s : EventDealer) : Prop := ∀ fut ∈ s.unwritten, fut.rows.str ≠ none

/-- A served step leaves only rows that parse under way. -/
lemma Parsed.move {m : Move} (pa : Parsed s) (ok : served s m = true) (st : s.move parse m = some s') :
    Parsed s' := by
  obtain ⟨new, _, account, rows⟩ := (move_effect st).account
  intro fut mem
  have here : fut ∈ s.unwritten ++ new := by
    rw [← account]
    exact List.mem_append_right _ mem
  rcases List.mem_append.mp here with old | fresh
  · exact pa fut old
  · rw [rows fut fresh, served] at ok
    exact Option.isSome_iff_ne_none.mp ok

/-- A served step writes whatever it settles. -/
lemma served_outcomes {m : Move} (pa : Parsed s) (ok : served s m = true) :
    ∀ o ∈ s.outcomes m, ∃ writer str, o.2 = .written writer str := by
  intro o mem
  cases m with
  | writeFails => cases ok
  | act a =>
    cases a with
    | back =>
      rw [EventDealer.outcomes] at mem
      rw [served] at ok
      split at mem
      · rename_i writer fut str writing
        rw [writing] at ok
        cases List.mem_singleton.mp mem
        rw [if_neg (of_decide_eq_true ok)]
        exact ⟨writer, str, rfl⟩
      · rename_i writing
        split at mem
        · rename_i fut futs rest backlog
          rw [writing, backlog] at ok
          have parsed : fut.rows.str ≠ none := by
            apply pa
            simp [EventDealer.unwritten, backlog]
          rw [if_neg parsed, if_neg (Option.isSome_iff_ne_none.mp ok)] at mem
          split at mem <;> cases mem
        · cases mem
    | deal => cases mem
    | waitIt => cases mem
    | closeAll => cases mem
    | close => cases mem
    | main => cases mem
    | parse => cases mem

/-- In a served run every outcome is a text in a file. -/
lemma served_run (none : s0.unwritten = [])
    (run : Emits (EventDealer.move parse) EventDealer.outcomes (fun s m => served s m = true) s0 os s) :
    Parsed s ∧ ∀ o ∈ os, ∃ writer str, o.2 = .written writer str := by
  induction run with
  | refl =>
    refine ⟨?_, by simp⟩
    intro fut mem
    rw [none] at mem
    cases mem
  | tail run ok st ih =>
    obtain ⟨pa, done⟩ := ih
    exact ⟨pa.move ok st, List.forall_mem_append.mpr ⟨done, served_outcomes pa ok⟩⟩

/-- If the write-back thread finds the writers open, then a run from one drain to the end of a later one writes
    every rows event. -/
lemma served_writes_all (reached : Steps (EventDealer.move parse) (fun _ _ => True) .new s0)
    (start : s0.unwritten = [])
    (run : Emits (EventDealer.move parse) EventDealer.outcomes (fun s m => served s m = true) s0 os s)
    (ended : DrainEnd s) : Drained s0 os s := by
  have k0 := reached_known reached
  have k : Known parse s := reached_known (reached.trans (run.steps.imp fun _ _ _ => trivial))
  have none := k.unwritten ended
  obtain ⟨holding, genuine⟩ := run_files k0 run
  refine ⟨procResult_of_unwritten none, ?_, holding⟩
  intro key
  have account := run_account run
  rw [none, start, List.append_nil, List.nil_append] at account
  have done := (served_run start run).2
  have worked : (os.filter fun o => !o.2.failed) = os := by
    apply List.filter_eq_self.mpr
    intro o mem
    obtain ⟨writer, str, e⟩ := done o mem
    rw [e]
    rfl
  rw [← account, genuine.appendedOn, worked]
  intro o mem
  obtain ⟨writer, str, e⟩ := done o mem
  rw [e]
  simp

/-! ### The writers that are needed stay open -/

/-- Every rows event under way parses and its table has an open writer, which is the one in use. -/
structure Ready (s : EventDealer) : Prop where
  parsed : Parsed s
  opened : ∀ fut ∈ s.unwritten, ∃ writer, s.tableWriterLookup.lookup fut.rows.key = some writer ∧
    writer.id ∉ s.closed
  writing : ∀ writer fut str, s.writing = some (writer, fut, str) →
    s.tableWriterLookup.lookup fut.rows.key = some writer

/-- With nothing under way, nothing is needed. -/
lemma Ready.of_unwritten (none : s.unwritten = []) : Ready s where
  parsed := by
    rw [Parsed, none]
    simp
  opened := by
    rw [none]
    simp
  writing := by
    intro writer fut str writing
    have mem := mem_unwritten writing
    rw [none] at mem
    cases mem

/-- The write-back thread finds the writers open. -/
lemma Ready.served {m : Move} (re : Ready s) (ok : submits s m = true) : served s m = true := by
  cases m with
  | writeFails => cases ok
  | act a =>
    cases a with
    | deal e =>
      cases e with
      | rows r => exact (Bool.and_eq_true_iff.mp ok).1
      | query => rfl
      | other => rfl
    | back =>
      rw [Splitter.served]
      split
      · rename_i writer w writing
        obtain ⟨writer', mapped', opened⟩ := re.opened w.1 (mem_unwritten writing)
        rw [re.writing writer w.1 w.2 writing] at mapped'
        cases mapped'
        exact decide_eq_true opened
      · rename_i fut futs rest writing backlog
        obtain ⟨writer, mapped, _⟩ := re.opened fut (by simp [EventDealer.unwritten, backlog])
        rw [mapped]
        rfl
      · rfl
    | waitIt => rfl
    | closeAll => rfl
    | close => rfl
    | main => rfl
    | parse => rfl

/-- The write-back thread closes no writer. -/
lemma Progress.writers (p : Progress s os s') :
    s'.tableWriterLookup = s.tableWriterLookup ∧ s'.closed = s.closed := by
  cases p with
  | idle q dealt => exact ⟨q.writers, q.closed⟩
  | took => exact ⟨rfl, rfl⟩
  | written writer fut str writing opened =>
    rw [EventDealer.endWrite, if_neg opened]
    exact ⟨rfl, rfl⟩
  | unwritable => exact ⟨rfl, rfl⟩
  | unparsed => exact ⟨rfl, rfl⟩
  | noWriter => exact ⟨rfl, rfl⟩

/-- The write-back thread writes with the writer that its table has when it looks it up. -/
lemma Progress.writing (p : Progress s os s') {writer : BufferedWriter} {fut : Future} {str : Str}
    (writing : s'.writing = some (writer, fut, str)) :
    s.writing = some (writer, fut, str) ∨ s.tableWriterLookup.lookup fut.rows.key = some writer := by
  cases p with
  | idle q dealt => exact Or.inl (q.writing.symm.trans writing)
  | took writer' fut' str' futs rest none backlog parsed mapped =>
    cases writing
    exact Or.inr mapped
  | written writer' fut' str' writing' opened =>
    rw [EventDealer.endWrite, if_neg opened] at writing
    cases writing
  | unwritable => cases writing
  | unparsed => exact Or.inl writing
  | noWriter => exact Or.inl writing

/-- The write-back thread leaves what is still under way with its writers. -/
lemma Ready.progress (re : Ready s) (p : Progress s os s') : Ready s' := by
  obtain ⟨writers, closed⟩ := p.writers
  have old : ∀ fut ∈ s'.unwritten, fut ∈ s.unwritten := by
    intro fut mem
    rw [p.account]
    exact List.mem_append_right _ mem
  refine ⟨fun fut mem => re.parsed fut (old fut mem), ?_, ?_⟩
  · rw [writers, closed]
    exact fun fut mem => re.opened fut (old fut mem)
  · rw [writers]
    intro writer fut str writing
    rcases p.writing writing with old | mapped
    · exact re.writing writer fut str old
    · exact mapped

/-- A step that leaves the writers and the rows events under way alone. -/
lemma Ready.frame (re : Ready s) (q : Quiet s s') : Ready s' where
  parsed := by
    rw [Parsed, q.unwritten]
    exact re.parsed
  opened := by
    rw [q.unwritten, q.writers, q.closed]
    exact re.opened
  writing := by
    rw [q.writing, q.writers]
    exact re.writing

/-- A rows event that parses is submitted for a table with an open writer. -/
lemma Ready.submit {r : RowsLogEvent} (re : Ready s) (ok : submits s (.act (.deal (.rows r))) = true) :
    Ready (s.dealEvent (.rows r)) := by
  obtain ⟨parsed, opened⟩ := Bool.and_eq_true_iff.mp ok
  obtain ⟨writer, mapped, live⟩ := (Option.any_eq_true _ _).mp opened
  refine ⟨?_, ?_, re.writing⟩
  · rw [Parsed, unwritten_submitted]
    intro fut mem
    rcases List.mem_append.mp mem with old | new
    · exact re.parsed fut old
    · cases List.mem_singleton.mp new
      exact Option.isSome_iff_ne_none.mp parsed
  · rw [unwritten_submitted]
    intro fut mem
    rcases List.mem_append.mp mem with old | new
    · exact re.opened fut old
    · cases List.mem_singleton.mp new
      exact ⟨writer, mapped, of_decide_eq_true live⟩

/-- A statement on a table whose writer is not in use opens the next one. -/
lemma Ready.open {event : QueryLogEvent} {key : Key} {statement : SQLStatement} {state : Nat}
    {closed : List Nat} (re : Ready s)
    (free : ∀ writer fut str, s.writing = some (writer, fut, str) → fut.rows.key ≠ key)
    (closed_lt : ∀ id ∈ closed, id < s.dealt.length)
    (live : ∀ key' writer, key' ≠ key → s.tableWriterLookup.lookup key' = some writer →
      writer.id ∉ s.closed → writer.id ∉ closed) :
    Ready (EventDealer.openState { s with closed } event key statement state) where
  parsed := re.parsed
  opened := by
    intro fut mem
    show ∃ writer, (s.tableWriterLookup.insert key _).lookup fut.rows.key = some writer ∧ writer.id ∉ closed
    by_cases e : fut.rows.key = key
    · rw [e]
      exact ⟨_, AList.lookup_insert _, fun mem => absurd (closed_lt _ mem) (lt_irrefl _)⟩
    · obtain ⟨writer, mapped, opened⟩ := re.opened fut mem
      rw [AList.lookup_insert_ne e]
      exact ⟨writer, mapped, live fut.rows.key writer e mapped opened⟩
  writing := by
    intro writer fut str writing
    show (s.tableWriterLookup.insert key _).lookup fut.rows.key = some writer
    rw [AList.lookup_insert_ne (free writer fut str writing)]
    exact re.writing writer fut str writing

/-- Another table's writer is not closed with that of a table. -/
lemma Coherent.live {key key' : Key} {writer writer' : BufferedWriter} (co : Coherent parse s)
    (mapped : s.tableWriterLookup.lookup key = some writer)
    (mapped' : s.tableWriterLookup.lookup key' = some writer') (ne : key' ≠ key)
    (opened : writer'.id ∉ s.closed) : writer'.id ∉ writer.id :: s.closed := by
  intro mem
  rcases List.mem_cons.mp mem with same | old
  · exact ne (co.apart key' key writer' writer mapped' mapped same)
  · exact opened old

/-- What is needed is kept by the steps of the other threads that meet the conditions. -/
lemma Ready.effect {a : Action} (k : Known parse s) (closed_lt : ∀ id ∈ s.closed, id < s.dealt.length)
    (re : Ready s) (ef : Effect parse s a s') (ne : a ≠ .back) (ok : submits s (.act a) = true)
    (calm : undisturbed parse s (.act a) = true) : Ready s' := by
  cases ef with
  | quiet q dealt => exact re.frame q
  | noted e q neutral dealt => exact re.frame q
  | submitted r => exact re.submit ok
  | created event key statement at_query updates none =>
    apply re.open _ closed_lt fun _ _ _ _ opened => opened
    -- the table has no writer, and that in use is that of its table
    rintro writer fut str writing rfl
    have known := (k.coherent.writer _ writer (re.writing writer fut str writing)).2.1
    rw [none] at known
    cases known
  | advanced event key statement state writer at_query updates at_key mapped =>
    have lt := (k.coherent.writer key writer mapped).2.2
    apply re.open _ (List.forall_mem_cons.mpr ⟨lt, closed_lt⟩)
      fun key' writer' ne mapped' => k.coherent.live mapped mapped' ne
    intro writer' fut str writing
    simpa [undisturbed, at_query, updates, at_key, writing] using calm
  | closing event key writer at_drop mapped =>
    refine ⟨re.parsed, ?_, re.writing⟩
    intro fut mem
    obtain ⟨writer', mapped', opened⟩ := re.opened fut mem
    have other : fut.rows.key ≠ key := of_decide_eq_true (List.all_eq_true.mp calm fut mem)
    exact ⟨writer', mapped', k.coherent.live mapped mapped' other opened⟩
  | forgot event at_drop all =>
    -- every writer is closed, so nothing is under way
    apply Ready.of_unwritten
    apply List.eq_nil_iff_forall_not_mem.mpr
    intro fut mem
    obtain ⟨writer, mapped, opened⟩ := re.opened fut mem
    exact opened (all _ (AList.mem_lookup_iff.mp mapped))
  | finished waited => exact Ready.of_unwritten (k.unwritten (Or.inl waited))
  | written => exact absurd rfl ne
  | took => exact absurd rfl ne
  | skipped => exact absurd rfl ne
  | abandoned => exact absurd rfl ne

/-- A step that keeps to the conditions leaves every event under way with an open writer. -/
lemma Ready.move {m : Move} (k : Known parse s) (closed_lt : ∀ id ∈ s.closed, id < s.dealt.length)
    (re : Ready s) (ok : submits s m = true) (calm : undisturbed parse s m = true)
    (st : s.move parse m = some s') : Ready s' := by
  have ef := move_effect st
  generalize s.outcomes m = os at ef
  cases ef with
  | back p => exact re.progress p
  | other ne ef => exact re.effect k closed_lt ef ne ok calm

/-- The writers that are closed were opened for statements before. -/
lemma closed_lt_move {m : Move} (k : Known parse s) (closed_lt : ∀ id ∈ s.closed, id < s.dealt.length)
    (st : s.move parse m = some s') : ∀ id ∈ s'.closed, id < s'.dealt.length := by
  have ef := move_effect st
  generalize s.outcomes m = os at ef
  have len := ef.length_le
  have kept : ∀ id ∈ s.closed, id < s'.dealt.length := fun id mem => (closed_lt id mem).trans_le len
  have of_mapped : ∀ {key writer}, s.tableWriterLookup.lookup key = some writer →
      writer.id < s'.dealt.length := fun mapped => (k.coherent.writer _ _ mapped).2.2.trans_le len
  cases ef with
  | back p =>
    rw [p.writers.2]
    exact kept
  | other ne ef =>
    cases ef with
    | quiet q dealt =>
      rw [q.closed]
      exact kept
    | noted e q neutral dealt =>
      rw [q.closed]
      exact kept
    | submitted r => exact kept
    | created event key statement => exact kept
    | advanced event key statement state writer at_query updates at_key mapped =>
      exact List.forall_mem_cons.mpr ⟨of_mapped mapped, kept⟩
    | closing event key writer at_drop mapped => exact List.forall_mem_cons.mpr ⟨of_mapped mapped, kept⟩
    | forgot event => exact kept
    | finished waited =>
      refine List.forall_mem_append.mpr ⟨?_, kept⟩
      intro id mem
      obtain ⟨e, entry, rfl⟩ := List.mem_map.mp mem
      exact of_mapped (AList.mem_lookup_iff.mpr entry)
    | written => exact absurd rfl ne
    | took => exact absurd rfl ne
    | skipped => exact absurd rfl ne
    | abandoned => exact absurd rfl ne

/-- The closed writers were opened for dealt events. -/
lemma reached_closed_lt (run : Steps (EventDealer.move parse) (fun _ _ => True) .new s) :
    ∀ id ∈ s.closed, id < s.dealt.length := by
  apply run.invariant_along (I := fun s => ∀ id ∈ s.closed, id < s.dealt.length)
  · intro id mem
    cases mem
  · intro s1 m s2 run closed_lt _ st
    exact closed_lt_move (reached_known run) closed_lt st

/-- The writers stay open along a run that meets the conditions, so the write-back thread finds them open. -/
lemma undisturbed_served (reached : Steps (EventDealer.move parse) (fun _ _ => True) .new s0)
    (start : Ready s0)
    (run : Emits (EventDealer.move parse) EventDealer.outcomes
      (fun s m => submits s m = true ∧ undisturbed parse s m = true) s0 os s) :
    Ready s ∧ Emits (EventDealer.move parse) EventDealer.outcomes (fun s m => served s m = true) s0 os s := by
  induction run with
  | refl => exact ⟨start, .refl⟩
  | tail run ok st ih =>
    obtain ⟨re, run'⟩ := ih
    have before := reached.trans (run.steps.imp fun _ _ _ => trivial)
    exact ⟨re.move (reached_known before) (reached_closed_lt before) ok.1 ok.2 st,
      run'.tail (re.served ok.1) st⟩

/-- A drain leaves the main thread free to close any writer on a statement. -/
lemma drained_undisturbed {event : QueryLogEvent} (stage : Staged parse s) (at_query : s.point = .query event)
    (drain : drains event.query = true) : undisturbed parse s (.act .main) = true := by
  rw [Staged, at_query] at stage
  have idle : s.writing = none := by
    cases writing : s.writing with
    | none => rfl
    | some w =>
      have mem := mem_unwritten writing
      rw [stage drain] at mem
      cases mem
  simp only [undisturbed, at_query, idle]
  split <;> simp

/-- From one drain to the end of a later one, the texts written with the writers of a table are those of its
    rows events in the order in which they were submitted, if the main thread closes no writer that is still
    needed. -/
theorem drain_writes_all (reached : Steps (EventDealer.move parse) (fun _ _ => True) .new s0)
    (start : s0 = .new ∨ DrainEnd s0)
    (run : Emits (EventDealer.move parse) EventDealer.outcomes
      (fun s m => submits s m = true ∧ undisturbed parse s m = true) s0 os s)
    (ended : DrainEnd s) : Drained s0 os s := by
  have none : s0.unwritten = [] := by
    rcases start with rfl | start
    · rfl
    · exact (reached_known reached).unwritten start
  exact served_writes_all reached none (undisturbed_served reached (.of_unwritten none) run).2 ended

/-- A row of each of two tables, and one more of the first. -/
def twoTables : List LogEvent :=
  [.query ⟨"d".toList, "CREATE TABLE t (id int)".toList⟩, .query ⟨"e".toList, "CREATE TABLE t (id int)".toList⟩,
    .rows ⟨"d".toList, "t".toList, .write, [[(true, .string "1".toList)]]⟩,
    .rows ⟨"e".toList, "t".toList, .write, [[(true, .string "2".toList)]]⟩,
    .rows ⟨"d".toList, "t".toList, .write, [[(true, .string "3".toList)]]⟩]

/-- The threads parse the rows in another order than they were submitted in. -/
def twoTablesRun : List Action :=
  twoTables.flatMap (fun e => [.deal e, .main]) ++
    [.waitIt, .main, .parse 4, .parse 3, .parse 2, .main, .back, .back, .back, .back, .back, .back, .back,
      .main]

/-- The stream of two tables is drained into both files. -/
theorem two_tables_drained : ∃ s os,
    Emits (EventDealer.move parseStatement) EventDealer.outcomes
      (fun s m => submits s m = true ∧ undisturbed parseStatement s m = true) .new os s ∧
      DrainEnd s ∧ s.dealt = twoTables ∧ Drained .new os s ∧
      appendedOn ("d".toList, "t".toList) os = [⟨2, "\"1\"\n".toList⟩, ⟨4, "\"3\"\n".toList⟩] := by
  have run : ((twoTablesRun.map Move.act).foldlM
      (fun s m => if submits s m && undisturbed parseStatement s m then
        EventDealer.move parseStatement s m else none) .new).any
        (fun s => s.point = .waited ∧ s.dealt = twoTables) = true := by
    decide +kernel
  obtain ⟨s, steps, h⟩ := (Option.any_eq_true _ _).mp run
  obtain ⟨waited, dealt⟩ := of_decide_eq_true h
  have run := (Emits.of_checked EventDealer.outcomes (fun s m => submits s m && undisturbed parseStatement s m)
    steps).imp fun s m ok => Bool.and_eq_true_iff.mp ok
  have drained := drain_writes_all .refl (Or.inl rfl) run (Or.inl waited)
  refine ⟨s, _, run, Or.inl waited, dealt, drained, ?_⟩
  rw [drained.texts, submitted, dealt]
  decide +kernel

/-- A batch of rows of a table, and an ALTER TABLE whose text has the word `create`. -/
def batchStream : List LogEvent :=
  .query ⟨"d".toList, "CREATE TABLE t (id int)".toList⟩ ::
    List.replicate 40 (.rows ⟨"d".toList, "t".toList, .write, [[(true, .string "1".toList)]]⟩) ++
    [.query ⟨"d".toList, "ALTER TABLE t ADD COLUMN create_time int".toList⟩]

/-- The rows are parsed, and the writer for the first is looked up when the ALTER TABLE closes it. -/
def closingRun : List Action :=
  (batchStream.take 41).flatMap (fun e => [.deal e, .main]) ++
    (List.range 40).map (fun i => .parse (i + 1)) ++ [.back] ++
    (batchStream.drop 41).flatMap (fun e => [.deal e, .main]) ++ List.replicate 80 .back ++
    [.waitIt, .main, .main, .back, .main]

/-- The first row of the batch is written with the writer that was closed. -/
theorem drain_loses_text : ¬ ∀ (parse : Str → Option SQLStatement) (s : EventDealer)
    (os : List (Future × Outcome)),
    Emits (EventDealer.move parse) EventDealer.outcomes (fun s m => submits s m = true) .new os s →
      DrainEnd s → Drained .new os s := by
  intro claim
  have run : ((closingRun.map Move.act).foldlM (fun s m => if submits s m then
      EventDealer.move parseStatement s m else none) .new).any
        (fun s => s.point = .waited ∧ s.dealt = batchStream) = true := by
    decide +kernel
  obtain ⟨s, steps, h⟩ := (Option.any_eq_true _ _).mp run
  obtain ⟨waited, dealt⟩ := of_decide_eq_true h
  have run := Emits.of_checked EventDealer.outcomes submits steps
  have texts := (claim parseStatement s _ run (Or.inl waited)).texts ("d".toList, "t".toList)
  rw [submitted, dealt] at texts
  exact absurd (congrArg List.length texts) (by decide +kernel)

/-! ### Rows events that cannot be written -/

/-- Every rows event has its own outcome or is under way, none is under way after a drain, and the texts of a
    table are those of its events that did not fail themselves. -/
structure CostsItself (s : EventDealer) (os : List (Future × Outcome)) : Prop where
  account : os.map Prod.fst ++ s.unwritten = futures s.dealt
  drained : DrainEnd s → s.unwritten = []
  others : ∀ key, appendedOn key os =
    ((os.filter fun o => !o.2.failed).map Prod.fst).filterMap (textOn key)
  files : Holding .new os s

/-- An event that is abandoned parses and has a writer. -/
lemma leftBehind_abandoned {fut : Future} (left : s.leftBehind fut = .abandoned) :
    fut.rows.str ≠ none ∧ s.tableWriterLookup.lookup fut.rows.key ≠ none := by
  rw [EventDealer.leftBehind] at left
  split at left
  · cases left
  · rename_i parsed
    split at left
    · cases left
    · rename_i mapped
      exact ⟨parsed, mapped⟩

/-- A step that spares the others abandons none. -/
lemma spares_outcomes {m : Move} (ok : spares s m = true) : ∀ o ∈ s.outcomes m, o.2 ≠ .abandoned := by
  intro o mem
  cases m with
  | writeFails =>
    obtain ⟨w, _, rfl⟩ := Option.map_eq_some_iff.mp (Option.mem_toList.mp mem)
    simp
  | act a =>
    cases a with
    | back =>
      rw [EventDealer.outcomes] at mem
      rw [spares] at ok
      split at mem
      · cases List.mem_singleton.mp mem
        dsimp only
        split <;> simp
      · rename_i writing
        split at mem
        · rename_i fut futs rest backlog
          rw [writing, backlog] at ok
          split at mem
          · cases mem
          · split at mem
            · cases List.mem_singleton.mp mem
              simp
            · rename_i parsed
              split at mem
              · rename_i none
                -- the rest of the list is given up, but none of it could have been written
                rcases List.mem_cons.mp mem with e | mem
                · rw [e]
                  simp
                · obtain ⟨fut', behind, rfl⟩ := List.mem_map.mp mem
                  intro left
                  obtain ⟨parsed', mapped'⟩ := leftBehind_abandoned left
                  have all := ok
                  simp only [none, Option.isSome_none, Option.isNone_eq_false_iff.mpr
                    (Option.isSome_iff_ne_none.mpr parsed), Bool.false_or, List.all_eq_true, Bool.or_eq_true,
                    Option.isNone_iff_eq_none] at all
                  rcases all fut' behind with h | h
                  · exact parsed' h
                  · exact mapped' h
              · cases mem
        · cases mem
    | deal => cases mem
    | waitIt => cases mem
    | closeAll => cases mem
    | close => cases mem
    | main => cases mem
    | parse => cases mem

/-- If the write-back thread never comes to an event without a writer in front of one that could be written,
    then each event that fails costs only itself. -/
theorem bad_event_costs_itself
    (run : Emits (EventDealer.move parse) EventDealer.outcomes (fun s m => spares s m = true) .new os s) :
    CostsItself s os := by
  have k0 : Known parse EventDealer.new := reached_known .refl
  have k : Known parse s := reached_known (run.steps.imp fun _ _ _ => trivial)
  obtain ⟨holding, genuine⟩ := run_files k0 run
  have kept : ∀ o ∈ os, o.2 ≠ .abandoned := by
    clear holding genuine k
    induction run with
    | refl => simp
    | tail run ok st ih => exact List.forall_mem_append.mpr ⟨ih, spares_outcomes ok⟩
  exact ⟨run_account run, k.unwritten, fun key => genuine.appendedOn kept, holding⟩

/-- A row of a table that exists and one of a table that was never created, in one list. -/
def strayStream (first second : Str) : List LogEvent :=
  [.query ⟨"d".toList, "CREATE TABLE t (id int)".toList⟩,
    .rows ⟨"d".toList, first, .write, [[(true, .string "1".toList)]]⟩,
    .rows ⟨"d".toList, second, .write, [[(true, .string "2".toList)]]⟩]

def strayRun (stream : List LogEvent) (backs : Nat) : List Action :=
  stream.flatMap (fun e => [.deal e, .main]) ++ [.waitIt, .main, .parse 1, .parse 2, .main] ++
    List.replicate backs .back ++ [.main]

/-- A rows event without a table costs itself where it stands last. -/
theorem stray_row_spared : ∃ s os,
    Emits (EventDealer.move parseStatement) EventDealer.outcomes (fun s m => spares s m = true) .new os s ∧
      s.dealt = strayStream "t".toList "u".toList ∧ s.point = .waited ∧ CostsItself s os := by
  have run : (((strayRun (strayStream "t".toList "u".toList) 3).map Move.act).foldlM (fun s m =>
      if spares s m then EventDealer.move parseStatement s m else none) .new).any
        (fun s => s.dealt = strayStream "t".toList "u".toList ∧ s.point = .waited) = true := by
    decide +kernel
  obtain ⟨s, steps, h⟩ := (Option.any_eq_true _ _).mp run
  obtain ⟨dealt, waited⟩ := of_decide_eq_true h
  have run := Emits.of_checked EventDealer.outcomes spares steps
  exact ⟨s, _, run, dealt, waited, bad_event_costs_itself run⟩

/-- The row of the table that exists is lost behind the other. -/
theorem lost_behind_bad_event : ¬ ∀ (parse : Str → Option SQLStatement) (s : EventDealer)
    (os : List (Future × Outcome)),
    Emits (EventDealer.move parse) EventDealer.outcomes (fun _ _ => True) .new os s → CostsItself s os := by
  intro claim
  have run : (((strayRun (strayStream "u".toList "t".toList) 1).map Move.act).foldlM
      (EventDealer.move parseStatement) .new).isSome = true := by decide +kernel
  obtain ⟨s, steps⟩ := Option.isSome_iff_exists.mp run
  have run := Emits.of_foldlM EventDealer.outcomes steps
  have others := (claim parseStatement s _ run).others ("d".toList, "t".toList)
  exact absurd others (by decide +kernel)

end TdsqlMerge.Splitter
