import Mathlib.Data.List.Induction
import TdsqlMerge.Splitter.DropDatabase

/-!
# The directory tree for the loader

`WorkLoader::loadWorks` visits every table directory, trusts its `0/cnt.txt` and replays as many states.
`TreeComplete` is what it relies on. `tree_complete_iff` says when `closeAll` leaves such a tree: when every
table with a directory still exists, in a run that creates no table while rows of its name are unwritten.
A table that was dropped and not created again keeps its directory and gets no `cnt.txt`.
-/

namespace TdsqlMerge.Splitter
open Lib

section
variable (parse : Str → Option SQLStatement)

/-- The event at place `i` creates the table: it does not exist and has a statement. -/
def CreatedAt (dealt : List LogEvent) (key : Key) (i : Nat) : Prop :=
  registry parse (dealt.take i) key = none ∧ ∃ e, dealt[i]? = some e ∧ e.updates parse = some key

/-- The place of the latest creation of a table. -/
structure LatestCreation (dealt : List LogEvent) (key : Key) (i : Nat) : Prop where
  created : CreatedAt parse dealt key i
  latest : ∀ j, CreatedAt parse dealt key j → j ≤ i

/-- The table has a directory. -/
def EventDealer.HasDirectory (s : EventDealer) (key : Key) : Prop :=
  ∃ state file, s.dat (key, state) = some file

/-- Every table directory has a count, and that many states whose files were written since the table was
    last created. -/
def TreeComplete (s : EventDealer) : Prop :=
  ∀ key, s.HasDirectory key → ∃ n birth, s.cnt key = some n ∧ 1 ≤ n ∧
    LatestCreation parse s.dealt key birth ∧
    ∀ k < n, (∃ ddl, s.ddl (key, k) = some ddl ∧ birth ≤ ddl.opened) ∧
      ∃ dat, s.dat (key, k) = some dat ∧ birth ≤ dat.opened ∧ ∀ chunk ∈ dat.chunks, birth < chunk.event

/-- The step does not create a table while rows events of its name are unwritten. -/
def newborn (s : EventDealer) (a : Action) : Bool :=
  match a, s.point with
  | .main, .query event =>
    match (LogEvent.query event).updates parse with
    | none => true
    | some key =>
      (s.tableAlterStateLookup.lookup key).isSome || s.unwritten.all fun fut => fut.rows.key ≠ key
  | _, _ => true

end

variable {parse : Str → Option SQLStatement} {s s' : EventDealer} {dealt : List LogEvent}

/-! ### Creations -/

/-- The last event creates the table if it is its first statement. -/
lemma createdAt_concat {key : Key} {e : LogEvent} {i : Nat} :
    CreatedAt parse (dealt ++ [e]) key i ↔
      CreatedAt parse dealt key i ∨
        i = dealt.length ∧ registry parse dealt key = none ∧ e.updates parse = some key := by
  rcases lt_trichotomy i dealt.length with lt | rfl | gt
  · rw [CreatedAt, CreatedAt, List.take_append_of_le_length (Nat.le_of_lt lt),
      List.getElem?_append_left lt]
    constructor
    · exact Or.inl
    · rintro (h | ⟨h, _⟩)
      · exact h
      · omega
  · rw [CreatedAt, CreatedAt, List.take_left, List.getElem?_concat_length]
    constructor
    · rintro ⟨none, e', h, updates⟩
      cases h
      exact Or.inr ⟨rfl, none, updates⟩
    · rintro (⟨_, e', h, _⟩ | ⟨_, none, updates⟩)
      · exact absurd (List.getElem?_eq_some_iff.mp h).1 (lt_irrefl _)
      · exact ⟨none, e, rfl, updates⟩
  · constructor
    · rintro ⟨_, e', h, _⟩
      have lt := (List.getElem?_eq_some_iff.mp h).1
      rw [List.length_append, List.length_singleton] at lt
      omega
    · rintro (⟨_, e', h, _⟩ | ⟨h, _⟩)
      · have lt := (List.getElem?_eq_some_iff.mp h).1
        omega
      · omega

/-- The birth of a table that exists is its latest creation. -/
lemma registry_latest {key : Key} {inc : Incarnation} (known : registry parse dealt key = some inc) :
    LatestCreation parse dealt key inc.birth := by
  induction dealt using List.reverseRecOn generalizing inc with
  | nil => cases known
  | append_singleton dealt e ih =>
    -- the event leaves the table alone, or it existed, or the event creates it
    have old : ∀ {inc' : Incarnation}, registry parse dealt key = some inc' → inc'.birth = inc.birth →
        LatestCreation parse (dealt ++ [e]) key inc.birth := by
      intro inc' known' same
      have lc := ih known'
      rw [same] at lc
      refine ⟨createdAt_concat.mpr (Or.inl lc.created), ?_⟩
      intro j cj
      rcases createdAt_concat.mp cj with cj | ⟨_, none, _⟩
      · exact lc.latest j cj
      · rw [known'] at none
        cases none
    cases updates : e.updates parse with
    | none =>
      rw [registry_concat, register, updates] at known
      cases drops : e.drops parse with
      | none =>
        rw [drops] at known
        exact old known rfl
      | some db =>
        rw [drops] at known
        dsimp only at known
        split at known
        · cases known
        · exact old known rfl
    | some key' =>
      rw [registry_updates updates] at known
      by_cases same : key = key'
      · subst same
        rw [Function.update_self] at known
        cases known
        cases before : registry parse dealt key with
        | none =>
          refine ⟨createdAt_concat.mpr (Or.inr ⟨rfl, before, updates⟩), ?_⟩
          rintro j ⟨_, e', h, _⟩
          have lt := (List.getElem?_eq_some_iff.mp h).1
          rw [List.length_append, List.length_singleton] at lt
          exact Nat.lt_succ_iff.mp lt
        | some inc' =>
          rw [before] at old
          exact old rfl rfl
      · rw [Function.update_of_ne same] at known
        exact old known rfl

/-- A table was born at a place of the stream. -/
lemma registry_birth_lt {key : Key} {inc : Incarnation} (known : registry parse dealt key = some inc) :
    inc.birth < dealt.length := by
  obtain ⟨⟨_, e, h, _⟩, _⟩ := registry_latest known
  exact (List.getElem?_eq_some_iff.mp h).1

/-- The next state is born no later than now. -/
lemma advance_birth_le {key : Key} :
    (advance dealt.length (registry parse dealt key)).birth ≤ dealt.length := by
  cases known : registry parse dealt key with
  | none => exact le_rfl
  | some inc =>
    show inc.birth ≤ dealt.length
    exact Nat.le_of_lt (registry_birth_lt known)

/-! ### The invariant -/

/-- The files of a state of a table born at place `birth` are there and were written since. -/
def StateFiles (s : EventDealer) (key : Key) (birth k : Nat) : Prop :=
  (∃ ddl, s.ddl (key, k) = some ddl ∧ birth ≤ ddl.opened) ∧
    ∃ dat, s.dat (key, k) = some dat ∧ birth ≤ dat.opened ∧ ∀ chunk ∈ dat.chunks, birth < chunk.event

/-- The files of all states of the tables that exist were written since their births, and so will be what
    is under way. -/
structure Tree (parse : Str → Option SQLStatement) (s : EventDealer) : Prop where
  directory : ∀ key, s.HasDirectory key ↔ ∃ e ∈ s.dealt, e.updates parse = some key
  states : ∀ key inc, registry parse s.dealt key = some inc → ∀ k ≤ inc.state, StateFiles s key inc.birth k
  unwritten : ∀ fut ∈ s.unwritten, ∀ inc, registry parse s.dealt fut.rows.key = some inc →
    inc.birth < fut.event
  writing : ∀ writer fut str, s.writing = some (writer, fut, str) → writer.key = fut.rows.key

/-- A step that leaves the files and the tables alone and takes up no rows event. -/
lemma Tree.frame (tr : Tree parse s) (dat : s'.dat = s.dat) (ddl : s'.ddl = s.ddl)
    (dealt : s'.dealt = s.dealt ∨ ∃ e, s'.dealt = s.dealt ++ [e] ∧ e.updates parse = none ∧
      registry parse s'.dealt = registry parse s.dealt)
    (unwritten : s'.unwritten <:+ s.unwritten)
    (writing : ∀ writer fut str, s'.writing = some (writer, fut, str) → writer.key = fut.rows.key) :
    Tree parse s' := by
  have reg : registry parse s'.dealt = registry parse s.dealt := by
    rcases dealt with e | ⟨_, _, _, h⟩
    · rw [e]
    · exact h
  refine { directory := ?_, states := ?_, unwritten := ?_, writing := writing }
  · intro key
    rw [EventDealer.HasDirectory, dat]
    apply (tr.directory key).trans
    rcases dealt with e | ⟨e, h, updates, _⟩
    · rw [e]
    · rw [h]
      constructor
      · rintro ⟨e', mem, h'⟩
        exact ⟨e', List.mem_append_left _ mem, h'⟩
      · rintro ⟨e', mem, h'⟩
        rcases List.mem_append.mp mem with mem | mem
        · exact ⟨e', mem, h'⟩
        · rw [List.mem_singleton.mp mem, updates] at h'
          cases h'
  · rw [reg]
    intro key inc known k le
    rw [StateFiles, dat, ddl]
    exact tr.states key inc known k le
  · rw [reg]
    exact fun fut mem => tr.unwritten fut (unwritten.subset mem)

/-! ### The files of a statement -/

section
variable {event : QueryLogEvent} {key key' : Key} {statement : SQLStatement} {state : Nat} {closed : List Nat}

/-- Opening a state makes the directory of its table. -/
lemma openState_directory :
    (EventDealer.openState { s with closed } event key statement state).HasDirectory key' ↔
      key' = key ∨ s.HasDirectory key' := by
  show (∃ state' file, Function.update s.dat (key, state) (some _) (key', state') = some file) ↔ _
  by_cases e : key' = key
  · subst e
    exact ⟨fun _ => .inl rfl, fun _ => ⟨state, _, Function.update_self _ _ _⟩⟩
  · have ne : ∀ state', (key', state') ≠ (key, state) := fun state' h => e (congrArg Prod.fst h)
    simp only [Function.update_of_ne (ne _), EventDealer.HasDirectory, e, false_or]

/-- The files of the state are new. -/
lemma openState_here {birth : Nat} (le : birth ≤ s.dealt.length) :
    StateFiles (EventDealer.openState { s with closed } event key statement state) key birth state := by
  show (∃ ddl, Function.update s.ddl (key, state) (some _) (key, state) = some ddl ∧ _) ∧
    ∃ dat, Function.update s.dat (key, state) (some _) (key, state) = some dat ∧ _
  rw [Function.update_self, Function.update_self]
  exact ⟨⟨_, rfl, le⟩, _, rfl, le, by simp⟩

/-- The files of other states are left alone. -/
lemma openState_other {birth k : Nat} (ne : (key', k) ≠ (key, state)) (files : StateFiles s key' birth k) :
    StateFiles (EventDealer.openState { s with closed } event key statement state) key' birth k := by
  show (∃ ddl, Function.update s.ddl (key, state) (some _) (key', k) = some ddl ∧ _) ∧
    ∃ dat, Function.update s.dat (key, state) (some _) (key', k) = some dat ∧ _
  rw [Function.update_of_ne ne, Function.update_of_ne ne]
  exact files

/-- One more query updates its own table. -/
lemma updates_concat (updates : (LogEvent.query event).updates parse = some key) :
    (∃ e ∈ dealt ++ [.query event], e.updates parse = some key') ↔
      key' = key ∨ ∃ e ∈ dealt, e.updates parse = some key' := by
  simp only [List.mem_append, List.mem_singleton, or_and_right, exists_or, exists_eq_left, updates,
    Option.some.injEq]
  rw [or_comm, eq_comm]

/-- A statement writes the files of the next state of its table. -/
lemma Tree.open (tr : Tree parse s) (updates : (LogEvent.query event).updates parse = some key)
    (next : (advance s.dealt.length (registry parse s.dealt key)).state = state)
    (born : registry parse s.dealt key = none → ∀ fut ∈ s.unwritten, fut.rows.key ≠ key) :
    Tree parse (EventDealer.openState { s with closed } event key statement state) where
  directory := by
    intro key'
    rw [openState_directory, tr.directory]
    exact (updates_concat updates).symm
  states := by
    intro key' inc known k le
    change registry parse (s.dealt ++ [.query event]) key' = some inc at known
    rw [registry_updates updates] at known
    by_cases e : key' = key
    · subst e
      rw [Function.update_self] at known
      cases known
      by_cases last : k = state
      · subst last
        exact openState_here advance_birth_le
      · apply openState_other fun h => last (congrArg Prod.snd h)
        rw [next] at le
        cases before : registry parse s.dealt key' with
        | none =>
          rw [before] at next
          subst next
          exact absurd (Nat.le_zero.mp le) last
        | some inc =>
          rw [before] at next
          subst next
          exact tr.states key' inc before k (Nat.le_of_lt_succ (Nat.lt_of_le_of_ne le last))
    · rw [Function.update_of_ne e] at known
      exact openState_other (fun h => e (congrArg Prod.fst h)) (tr.states key' inc known k le)
  unwritten := by
    intro fut mem inc known
    change fut ∈ s.unwritten at mem
    change registry parse (s.dealt ++ [.query event]) fut.rows.key = some inc at known
    rw [registry_updates updates] at known
    by_cases e : fut.rows.key = key
    · cases before : registry parse s.dealt key with
      | none => exact absurd e (born before fut mem)
      | some inc' =>
        rw [e, Function.update_self, before] at known
        cases known
        exact tr.unwritten fut mem inc' (by rw [e, before])
    · rw [Function.update_of_ne e] at known
      exact tr.unwritten fut mem inc known
  writing := tr.writing

end

/-! ### The steps -/

/-- Where a table is newborn no rows event for it is under way. -/
lemma newborn_free {event : QueryLogEvent} {key : Key} (ok : newborn parse s .main = true)
    (at_query : s.point = .query event) (updates : (LogEvent.query event).updates parse = some key)
    (none : s.tableAlterStateLookup.lookup key = none) : ∀ fut ∈ s.unwritten, fut.rows.key ≠ key := by
  simp only [newborn, at_query, updates, none] at ok
  simpa using ok

/-- A database that is dropped takes its tables out of the registry. -/
lemma Tree.forget {event : QueryLogEvent} (tr : Tree parse s)
    (drops : (LogEvent.query event).drops parse = some event.dbName) : Tree parse (s.forgetDatabase event) := by
  have fewer : ∀ key inc, registry parse (s.dealt ++ [.query event]) key = some inc →
      registry parse s.dealt key = some inc := by
    intro key inc known
    rw [registry_drops (drops_updates drops) drops] at known
    dsimp only at known
    split at known
    · cases known
    · exact known
  refine ⟨?_, ?_, ?_, tr.writing⟩
  · intro key
    apply (tr.directory key).trans
    show _ ↔ ∃ e ∈ s.dealt ++ [LogEvent.query event], e.updates parse = some key
    constructor
    · rintro ⟨e, mem, h⟩
      exact ⟨e, List.mem_append_left _ mem, h⟩
    · rintro ⟨e, mem, h⟩
      rcases List.mem_append.mp mem with mem | mem
      · exact ⟨e, mem, h⟩
      · rw [List.mem_singleton.mp mem, drops_updates drops] at h
        cases h
  · exact fun key inc known => tr.states key inc (fewer key inc known)
  · exact fun fut mem inc known => tr.unwritten fut mem inc (fewer _ inc known)

/-- A text that is written goes to a file of the table. -/
lemma Tree.write {writer : BufferedWriter} {fut : Future} {str : Str} (tr : Tree parse s)
    (writing : s.writing = some (writer, fut, str)) : Tree parse (s.endWrite writer fut str) := by
  have dealt : (s.endWrite writer fut str).dealt = s.dealt := by
    rw [EventDealer.endWrite]
    split <;> rfl
  have ddl : (s.endWrite writer fut str).ddl = s.ddl := by
    rw [EventDealer.endWrite]
    split <;> rfl
  refine ⟨?_, ?_, ?_, ?_⟩
  · intro key
    rw [dealt, ← tr.directory]
    have same : ∀ state, (∃ file, (s.endWrite writer fut str).dat (key, state) = some file) ↔
        ∃ file, s.dat (key, state) = some file := by
      intro state
      rw [← Option.isSome_iff_exists, ← Option.isSome_iff_exists, ← Option.isSome_map, endWrite_file,
        Option.isSome_map]
    simp only [EventDealer.HasDirectory, same]
  · rw [dealt]
    intro key inc known k le
    obtain ⟨files, file, at_file, opened, later⟩ := tr.states key inc known k le
    have here := @endWrite_file s writer fut str key k
    rw [at_file, Option.map_some, Option.map_eq_some_iff] at here
    obtain ⟨file', at_file', same⟩ := here
    refine ⟨by rwa [ddl], file', at_file', same ▸ opened, ?_⟩
    intro chunk mem
    rcases endWrite_chunk at_file' mem with ⟨file'', at_file'', _, old⟩ | ⟨rfl, _, _, rfl, _⟩
    · rw [at_file] at at_file''
      cases at_file''
      exact later chunk old
    · apply tr.unwritten fut (mem_unwritten writing)
      rw [← tr.writing writer fut str writing]
      exact known
  · rw [dealt]
    intro fut' mem
    apply tr.unwritten fut'
    rw [unwritten_written writing]
    exact List.mem_cons_of_mem _ mem
  · rw [EventDealer.endWrite]
    intro writer' fut' str' writing'
    split at writing' <;> cases writing'

/-- A step that keeps to the condition keeps the tree. -/
lemma Tree.step {a : Action} (stage : Staged parse s) (co : Coherent parse s) (tr : Tree parse s)
    (ok : newborn parse s a = true) (ef : Effect parse s a s') : Tree parse s' := by
  cases ef with
  | quiet q dealt =>
    exact tr.frame q.dat q.ddl (Or.inl dealt) (q.unwritten ▸ List.suffix_refl _) (q.writing ▸ tr.writing)
  | noted e q neutral dealt =>
    refine tr.frame q.dat q.ddl (Or.inr ⟨e, dealt, neutral.updates, ?_⟩)
      (q.unwritten ▸ List.suffix_refl _) (q.writing ▸ tr.writing)
    rw [dealt, registry_neutral neutral.updates neutral.drops]
  | submitted r =>
    -- the event is newer than the table it writes to, if that exists
    have reg : registry parse (s.dealt ++ [.rows r]) = registry parse s.dealt := registry_neutral rfl rfl
    have tr' : Tree parse { s with dealt := s.dealt ++ [.rows r] } :=
      tr.frame rfl rfl (Or.inr ⟨.rows r, rfl, rfl, reg⟩) (List.suffix_refl _) tr.writing
    refine ⟨tr'.directory, tr'.states, ?_, tr.writing⟩
    intro fut mem inc known
    rw [unwritten_submitted, List.mem_append, List.mem_singleton] at mem
    rcases mem with old | rfl
    · exact tr'.unwritten fut old inc known
    · change registry parse (s.dealt ++ [.rows r]) r.key = some inc at known
      rw [reg] at known
      exact registry_birth_lt known
  | created event key statement at_query updates none =>
    -- the condition of the step: no rows event is under way for a table that is born here
    have unborn : registry parse s.dealt key = Option.none := by
      rw [co.states, Option.map_eq_none_iff] at none
      exact none
    refine tr.open updates ?_ fun _ => newborn_free ok at_query updates none
    rw [unborn]
    rfl
  | advanced event key statement state writer at_query updates at_key mapped =>
    rw [co.states, Option.map_eq_some_iff] at at_key
    obtain ⟨inc, known, rfl⟩ := at_key
    refine tr.open updates ?_ ?_
    · rw [known]
      rfl
    · rw [known]
      rintro ⟨⟩
  | closing event key writer at_drop mapped =>
    exact tr.frame rfl rfl (Or.inl rfl) (List.suffix_refl _) tr.writing
  | forgot event at_drop all => exact tr.forget (stage.drops at_drop)
  | written writer fut str writing => exact tr.write writing
  | took writer fut str futs rest writing backlog parsed mapped =>
    refine tr.frame rfl rfl (Or.inl rfl) (unwritten_took writing backlog ▸ List.suffix_refl _) ?_
    intro writer' fut' str' writing'
    cases writing'
    exact (co.writer _ writer mapped).1
  | skipped fut futs rest writing backlog parsed =>
    exact tr.frame rfl rfl (Or.inl rfl) (unwritten_skipped writing backlog ▸ List.suffix_cons _ _) tr.writing
  | abandoned fut futs rest writing backlog none =>
    exact tr.frame rfl rfl (Or.inl rfl) (unwritten_abandoned writing backlog ▸ List.suffix_append _ _)
      tr.writing
  | finished waited => exact tr.frame rfl rfl (Or.inl rfl) (List.suffix_refl _) tr.writing

/-- In a new dealer the tree is empty. -/
lemma Tree.new : Tree parse .new where
  directory := by
    intro key
    constructor
    · rintro ⟨state, file, at_file⟩
      cases at_file
    · rintro ⟨e, mem, _⟩
      cases mem
  states := by
    intro key inc known
    cases known
  unwritten := by
    intro fut mem
    cases mem
  writing := by
    intro writer fut str writing
    cases writing

/-- In every run whose steps keep to the condition the tree is kept. -/
lemma run_tree (run : Steps (EventDealer.step parse) (fun s a => newborn parse s a = true) .new s) :
    Tree parse s := by
  refine run.invariant_along (I := Tree parse) .new ?_
  intro s1 a s2 run tr ok st
  obtain ⟨stage, co⟩ := reachable_coherent (run.imp fun _ _ _ => trivial)
  exact tr.step stage co ok (step_effect st)

/-! ### The counts -/

/-- Once all is closed it stays closed. -/
lemma closed_step {a : Action} (closed : s.point = .closed) (st : s.step parse a = some s') :
    s'.point = .closed := by
  cases a with
  | deal event => rw [EventDealer.step, closed] at st; cases st
  | waitIt => rw [EventDealer.step, closed] at st; cases st
  | closeAll => rw [EventDealer.step, closed] at st; cases st
  | close key => rw [EventDealer.step, closed] at st; cases st
  | main => rw [EventDealer.step, EventDealer.main, closed] at st; cases st
  | parse event =>
    rw [EventDealer.step] at st
    split at st
    · cases st
      exact closed
    · cases st
  | back => rw [(back_suffix st).1, closed]

/-- There are no counts before `closeAll`. -/
lemma run_uncounted (run : Reachable parse s) : s.point = .closed ∨ s.cnt = fun _ => none := by
  refine run.invariant (I := fun s => s.point = .closed ∨ s.cnt = fun _ => none) (Or.inr rfl) ?_
  rintro s1 a s2 (closed | none) _ st
  · exact Or.inl (closed_step closed st)
  · cases step_effect st with
    | quiet q dealt => exact Or.inr (q.cnt.trans none)
    | noted e q neutral dealt => exact Or.inr (q.cnt.trans none)
    | submitted r => exact Or.inr none
    | created => exact Or.inr none
    | advanced => exact Or.inr none
    | closing => exact Or.inr none
    | forgot => exact Or.inr none
    | written writer fut str writing =>
      rw [EventDealer.endWrite]
      split <;> exact Or.inr none
    | took => exact Or.inr none
    | skipped => exact Or.inr none
    | abandoned => exact Or.inr none
    | finished => exact Or.inl rfl

/-- The loop of `closeAll` over the entries of `tableAlterStateLookup`. -/
lemma foldl_counts {entries : List (Σ _ : Key, Nat)} {cnt : Key → Option Nat} {key : Key}
    (nodup : entries.NodupKeys) :
    entries.foldl (fun (cnt : Key → Option Nat) e => Function.update cnt e.1 (some (e.2 + 1))) cnt key =
      match entries.dlookup key with
      | some state => some (state + 1)
      | none => cnt key := by
  induction entries generalizing cnt with
  | nil => rfl
  | cons e entries ih =>
    obtain ⟨key', state⟩ := e
    rw [List.nodupKeys_cons] at nodup
    rw [List.foldl_cons, ih nodup.2]
    by_cases same : key = key'
    · subst same
      rw [List.dlookup_cons_eq, List.dlookup_eq_none.mpr nodup.1]
      exact Function.update_self _ _ _
    · have skip : List.dlookup key ((⟨key', state⟩ : Σ _ : Key, Nat) :: entries) = entries.dlookup key :=
        List.dlookup_cons_ne _ _ same
      rw [skip]
      cases entries.dlookup key with
      | some state => rfl
      | none => exact Function.update_of_ne same _ _

/-- `closeAll` writes the counts of the tables. -/
lemma closeAll_cnt {key : Key} (none : s.cnt = fun _ => none) :
    s.closeAll.cnt key = (s.tableAlterStateLookup.lookup key).map (· + 1) := by
  rw [EventDealer.closeAll]
  dsimp only
  rw [foldl_counts s.tableAlterStateLookup.nodupKeys, none, AList.lookup]
  cases s.tableAlterStateLookup.entries.dlookup key <;> rfl

/-- In a run that creates no table while rows of its name are unwritten, `closeAll` leaves a complete tree
    if and only if every table the stream has a statement of still exists. -/
theorem tree_complete_iff
    (run : Steps (EventDealer.step parse) (fun s a => newborn parse s a = true) .new s)
    (waited : s.point = .waited) :
    TreeComplete parse s.closeAll ↔
      ∀ e ∈ s.dealt, ∀ key, e.updates parse = some key → (s.tableAlterStateLookup.lookup key).isSome := by
  have tr := run_tree run
  have reached : Reachable parse s := run.imp fun _ _ _ => trivial
  obtain ⟨_, co⟩ := reachable_coherent reached
  have none : s.cnt = fun _ => none := by
    rcases run_uncounted reached with closed | none
    · rw [waited] at closed
      cases closed
    · exact none
  constructor
  · intro complete e mem key updates
    obtain ⟨n, birth, counted, _⟩ := complete key ((tr.directory key).mpr ⟨e, mem, updates⟩)
    rw [closeAll_cnt none, Option.map_eq_some_iff] at counted
    obtain ⟨state, at_key, _⟩ := counted
    rw [at_key]
    rfl
  · intro known key directory
    obtain ⟨e, mem, updates⟩ := (tr.directory key).mp directory
    obtain ⟨state, at_key⟩ := Option.isSome_iff_exists.mp (known e mem key updates)
    have reg := at_key
    rw [co.states, Option.map_eq_some_iff] at reg
    obtain ⟨inc, reg, rfl⟩ := reg
    refine ⟨inc.state + 1, inc.birth, ?_, Nat.le_add_left 1 inc.state, registry_latest reg, ?_⟩
    · rw [closeAll_cnt none, at_key]
      rfl
    · intro k lt
      exact tr.states key inc reg k (Nat.le_of_lt_succ lt)

/-! ### Runs -/

/-- A table is created in database `d`, and the database is dropped. -/
def dropRun : List Action :=
  [.deal (.query ⟨"d".toList, "CREATE TABLE t (id int)".toList⟩), .main,
    .deal (.query ⟨"d".toList, "DROP DATABASE d".toList⟩), .main, .main, .back, .main, .main,
    .close ("d".toList, "t".toList), .main]

/-- The table is created again. -/
def recreateRun : List Action :=
  dropRun ++ [.deal (.query ⟨"d".toList, "CREATE TABLE t (id int)".toList⟩), .main]

/-- The end of a run. -/
def waitRun : List Action := [.waitIt, .main, .main, .back, .main]

/-- A table that is created again after its drop has a complete tree. -/
theorem recreated_complete : ∃ s,
    Steps (EventDealer.step parseTables) (fun s a => newborn parseTables s a = true) .new s ∧
      s.dealt.length = 3 ∧ TreeComplete parseTables s.closeAll := by
  have run : ((recreateRun ++ waitRun).foldlM (fun s a => if newborn parseTables s a then
      EventDealer.step parseTables s a else none) .new).any
        (fun s => s.point = .waited ∧ s.dealt.length = 3 ∧ s.dealt.all fun e =>
          match e.updates parseTables with
          | none => true
          | some key => (s.tableAlterStateLookup.lookup key).isSome) = true := by decide +kernel
  obtain ⟨s, steps, h⟩ := (Option.any_eq_true _ _).mp run
  obtain ⟨waited, length, known⟩ := of_decide_eq_true h
  have run := Steps.of_checked steps
  refine ⟨s, run, length, (tree_complete_iff run waited).mpr ?_⟩
  intro e mem key updates
  have here := List.all_eq_true.mp known e mem
  rw [updates] at here
  exact here

/-- A table that is dropped with its database has no count. -/
theorem dropped_without_count : ¬ ∀ (parse : Str → Option SQLStatement) (s : EventDealer),
    Reachable parse s → s.point = .waited → TreeComplete parse s.closeAll := by
  intro claim
  have run : ((dropRun ++ waitRun).foldlM (EventDealer.step parseTables) .new).any
      (fun s => s.point = .waited ∧ (s.dat (("d".toList, "t".toList), 0)).isSome ∧
        s.closeAll.cnt ("d".toList, "t".toList) = none) = true := by decide +kernel
  obtain ⟨s, steps, h⟩ := (Option.any_eq_true _ _).mp run
  obtain ⟨waited, file, none⟩ := of_decide_eq_true h
  obtain ⟨n, birth, counted, _⟩ := claim _ s (Steps.of_foldlM steps) waited ("d".toList, "t".toList)
    ⟨0, Option.isSome_iff_exists.mp file⟩
  rw [none] at counted
  cases counted

end TdsqlMerge.Splitter
