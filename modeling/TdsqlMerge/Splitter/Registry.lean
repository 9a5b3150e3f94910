import TdsqlMerge.Splitter.Effects

/-!
# The tables of a stream

`registry` says what the stream dealt so far means for each table: whether it exists, the statement it was
created by and the number of its state. `reachable_coherent` connects the maps of `EventDealer` to it.
-/

namespace TdsqlMerge.Splitter
open Lib

section
variable (parse : Str → Option SQLStatement)

/-- A table that exists: the place of the statement that created it, and the number of its state. -/
structure Incarnation where
  birth : Nat
  state : Nat

/-- The next state of a table whose statement is at place `i`. -/
def advance (i : Nat) : Option Incarnation → Incarnation
  | none => { birth := i, state := 0 }
  | some inc => { inc with state := inc.state + 1 }

/-- What an event at place `i` means for the tables. -/
def register (reg : Key → Option Incarnation) (e : LogEvent) (i : Nat) : Key → Option Incarnation :=
  match e.updates parse with
  | some key => Function.update reg key (some (advance i (reg key)))
  | none =>
    match e.drops parse with
    | some db => fun key => if key.1 = db then none else reg key
    | none => reg

/-- The tables that exist after a stream. -/
def registry (dealt : List LogEvent) : Key → Option Incarnation :=
  dealt.zipIdx.foldl (fun reg e => register parse reg e.1 e.2) fun _ => none

/-- One more event is registered last. -/
lemma registry_concat {dealt : List LogEvent} {e : LogEvent} :
    registry parse (dealt ++ [e]) = register parse (registry parse dealt) e dealt.length := by
  rw [registry, List.zipIdx_append, List.foldl_append]
  simp [registry]

end

variable {parse : Str → Option SQLStatement} {s s' : EventDealer}

/-- An event that neither updates nor drops registers nothing. -/
lemma registry_neutral {dealt : List LogEvent} {e : LogEvent} (updates : e.updates parse = none)
    (drops : e.drops parse = none) : registry parse (dealt ++ [e]) = registry parse dealt := by
  rw [registry_concat, register, updates, drops]

/-- A statement advances the state of its table. -/
lemma registry_updates {dealt : List LogEvent} {e : LogEvent} {key : Key}
    (updates : e.updates parse = some key) :
    registry parse (dealt ++ [e]) =
      Function.update (registry parse dealt) key
        (some (advance dealt.length (registry parse dealt key))) := by
  rw [registry_concat, register, updates]

/-- A DROP DATABASE takes out its tables. -/
lemma registry_drops {dealt : List LogEvent} {e : LogEvent} {db : Str}
    (updates : e.updates parse = none) (drops : e.drops parse = some db) :
    registry parse (dealt ++ [e]) = fun key => if key.1 = db then none else registry parse dealt key := by
  rw [registry_concat, register, updates, drops]

/-- What is looked up after entries were removed. -/
lemma lookup_removeIf {β : Type} {p : Key → Bool} {m : AList fun _ : Key => β} {key : Key} :
    (removeIf p m).lookup key = if p key then none else m.lookup key := by
  apply Option.ext
  intro b
  show b ∈ (removeIf p m).lookup key ↔ _
  rw [AList.mem_lookup_iff, removeIf, List.mem_filter, ← AList.mem_lookup_iff]
  cases p key <;> simp

/-- The maps of the dealer say what the registry of the stream says, and every table that exists has a
    writer on its current file. -/
structure Coherent (parse : Str → Option SQLStatement) (s : EventDealer) : Prop where
  states : ∀ key, s.tableAlterStateLookup.lookup key = (registry parse s.dealt key).map Incarnation.state
  mapped : ∀ key state, s.tableAlterStateLookup.lookup key = some state →
    ∃ writer, s.tableWriterLookup.lookup key = some writer
  writer : ∀ key writer, s.tableWriterLookup.lookup key = some writer →
    writer.key = key ∧ s.tableAlterStateLookup.lookup key = some writer.state ∧
      writer.id < s.dealt.length
  apart : ∀ key key' writer writer', s.tableWriterLookup.lookup key = some writer →
    s.tableWriterLookup.lookup key' = some writer' → writer.id = writer'.id → key = key'

/-- A step that leaves the maps alone. -/
lemma Coherent.frame (co : Coherent parse s) (states : s'.tableAlterStateLookup = s.tableAlterStateLookup)
    (writers : s'.tableWriterLookup = s.tableWriterLookup)
    (dealt : registry parse s'.dealt = registry parse s.dealt)
    (len : s.dealt.length ≤ s'.dealt.length) : Coherent parse s' where
  states := by
    rw [states, dealt]
    exact co.states
  mapped := by
    rw [states, writers]
    exact co.mapped
  writer := by
    intro key writer
    rw [states, writers]
    intro at_key
    obtain ⟨h1, h2, h3⟩ := co.writer key writer at_key
    exact ⟨h1, h2, Nat.lt_of_lt_of_le h3 len⟩
  apart := by
    rw [writers]
    exact co.apart

/-- The statement of a table takes it to the state the registry says. -/
lemma Coherent.open {event : QueryLogEvent} {key : Key} {statement : SQLStatement} {state : Nat}
    (co : Coherent parse s) (updates : (LogEvent.query event).updates parse = some key)
    (next : (advance s.dealt.length (registry parse s.dealt key)).state = state) :
    Coherent parse (s.openState event key statement state) where
  states := by
    intro key'
    show (s.tableAlterStateLookup.insert key state).lookup key' =
      (registry parse (s.dealt ++ [.query event]) key').map Incarnation.state
    rw [registry_updates updates]
    by_cases e : key' = key
    · rw [e, AList.lookup_insert, Function.update_self, Option.map_some, next]
    · rw [AList.lookup_insert_ne e, Function.update_of_ne e]
      exact co.states key'
  mapped := by
    intro key' state' at_key
    show ∃ writer, (s.tableWriterLookup.insert key _).lookup key' = some writer
    by_cases e : key' = key
    · rw [e]
      exact ⟨_, AList.lookup_insert _⟩
    · rw [AList.lookup_insert_ne e]
      apply co.mapped key' state'
      rw [← at_key]
      exact (AList.lookup_insert_ne e).symm
  writer := by
    intro key' writer at_key
    show writer.key = key' ∧ (s.tableAlterStateLookup.insert key state).lookup key' = some writer.state ∧
      writer.id < (s.dealt ++ [LogEvent.query event]).length
    rw [List.length_append]
    rcases lookup_inserted at_key with ⟨rfl, rfl⟩ | ⟨ne, old⟩
    · rw [AList.lookup_insert]
      exact ⟨rfl, rfl, Nat.lt_succ_self _⟩
    · rw [AList.lookup_insert_ne ne]
      obtain ⟨h1, h2, h3⟩ := co.writer key' writer old
      exact ⟨h1, h2, Nat.lt_succ_of_lt h3⟩
  apart := by
    intro key1 key2 writer1 writer2 at_key1 at_key2 same
    -- the new writer has the place of the statement as its name, the old ones have smaller names
    rcases lookup_inserted at_key1 with ⟨rfl, rfl⟩ | ⟨_, old1⟩ <;>
      rcases lookup_inserted at_key2 with ⟨rfl, rfl⟩ | ⟨_, old2⟩
    · rfl
    · exact absurd same.symm (Nat.ne_of_lt (co.writer key2 writer2 old2).2.2)
    · exact absurd same (Nat.ne_of_lt (co.writer key1 writer1 old1).2.2)
    · exact co.apart key1 key2 writer1 writer2 old1 old2 same

/-- Forgetting a database keeps the maps coherent. -/
lemma Coherent.forget {event : QueryLogEvent} (co : Coherent parse s)
    (drops : (LogEvent.query event).drops parse = some event.dbName) :
    Coherent parse (s.forgetDatabase event) where
  states := by
    intro key
    show (removeIf _ s.tableAlterStateLookup).lookup key =
      (registry parse (s.dealt ++ [.query event]) key).map Incarnation.state
    rw [registry_drops (drops_updates drops) drops, lookup_removeIf, co.states]
    by_cases e : key.1 = event.dbName <;> simp [e]
  mapped := by
    intro key state at_key
    change (removeIf _ s.tableAlterStateLookup).lookup key = some state at at_key
    show ∃ writer, (removeIf _ s.tableWriterLookup).lookup key = some writer
    rw [lookup_removeIf] at at_key ⊢
    split at at_key
    · cases at_key
    · rename_i other
      rw [if_neg other]
      exact co.mapped key state at_key
  writer := by
    intro key writer at_key
    change (removeIf _ s.tableWriterLookup).lookup key = some writer at at_key
    show writer.key = key ∧ (removeIf _ s.tableAlterStateLookup).lookup key = some writer.state ∧
      writer.id < (s.dealt ++ [LogEvent.query event]).length
    rw [lookup_removeIf] at at_key ⊢
    rw [List.length_append]
    split at at_key
    · cases at_key
    · rename_i other
      rw [if_neg other]
      obtain ⟨h1, h2, h3⟩ := co.writer key writer at_key
      exact ⟨h1, h2, Nat.lt_succ_of_lt h3⟩
  apart := by
    intro key1 key2 writer1 writer2 at_key1 at_key2
    change (removeIf _ s.tableWriterLookup).lookup key1 = some writer1 at at_key1
    change (removeIf _ s.tableWriterLookup).lookup key2 = some writer2 at at_key2
    rw [lookup_removeIf] at at_key1 at_key2
    split at at_key1
    · cases at_key1
    · split at at_key2
      · cases at_key2
      · exact co.apart key1 key2 writer1 writer2 at_key1 at_key2

/-- A step keeps the maps coherent. -/
lemma Coherent.step {a : Action} (stage : Staged parse s) (co : Coherent parse s)
    (ef : Effect parse s a s') : Coherent parse s' := by
  cases ef with
  | quiet q dealt =>
    apply co.frame q.states q.writers <;> rw [dealt]
  | noted e q neutral dealt =>
    apply co.frame q.states q.writers <;> rw [dealt]
    · exact registry_neutral neutral.updates neutral.drops
    · exact length_concat_le
  | submitted r => exact co.frame rfl rfl (registry_neutral rfl rfl) length_concat_le
  | created event key statement at_query updates none =>
    apply co.open updates
    rw [co.states, Option.map_eq_none_iff] at none
    rw [none]
    rfl
  | advanced event key statement state writer at_query updates at_key mapped =>
    have closed := @Coherent.frame _ _ { s with closed := writer.id :: s.closed } co rfl rfl rfl le_rfl
    apply closed.open updates
    rw [co.states, Option.map_eq_some_iff] at at_key
    obtain ⟨inc, reg, rfl⟩ := at_key
    show (advance s.dealt.length (registry parse s.dealt key)).state = _
    rw [reg]
    rfl
  | closing event key writer at_drop mapped => exact co.frame rfl rfl rfl le_rfl
  | forgot event at_drop all => exact co.forget (stage.drops at_drop)
  | written writer fut str writing =>
    rw [EventDealer.endWrite]
    split <;> exact co.frame rfl rfl rfl le_rfl
  | took => exact co.frame rfl rfl rfl le_rfl
  | skipped => exact co.frame rfl rfl rfl le_rfl
  | abandoned => exact co.frame rfl rfl rfl le_rfl
  | finished waited => exact co.frame rfl rfl rfl le_rfl

/-- What is known of every reachable state. -/
theorem reachable_coherent (run : Reachable parse s) : Staged parse s ∧ Coherent parse s := by
  refine run.invariant (I := fun s => Staged parse s ∧ Coherent parse s) ?_ ?_
  · refine ⟨trivial, fun key => rfl, ?_, ?_, ?_⟩
    · intro key state at_key
      cases at_key
    · intro key writer at_key
      cases at_key
    · intro key key' writer writer' at_key
      cases at_key
  · rintro s1 a s2 ⟨stage, co⟩ _ st
    exact ⟨step_staged stage st, co.step stage (step_effect st)⟩

end TdsqlMerge.Splitter
