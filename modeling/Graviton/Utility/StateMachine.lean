import Graviton.Lib.Multimap

/-!
# `StateMachine`: the table-driven state machine

The template of `libs/utility/statemachine.h`, generic in its states, events and handlers. The
table is a multimap from the current state to its entries; a handler is a value the machine
calls, and a run records the handlers called (a handler does not re-enter the machine).
`m_stateTable.count()` is read as the number of entries.

* `range_stateTable`: the entries `processEvent` scans for a state are the ones added for it, in
  the order of the `addState` calls.
* `processEvent_spec`: what one event does.
* `run_eq_tableRun_iff`: exactly when a run follows the table.
-/

open Lib

variable {σ ε η : Type} [LinearOrder σ]

structure StateEntry (σ ε η : Type) where
  event : ε
  handler : η
  next : σ
  deriving DecidableEq, Repr

/-- `StateMachine`'s members. -/
structure StateMachine (σ ε η : Type) [LinearOrder σ] where
  stateTable : Multimap σ (StateEntry σ ε η)
  currentState : σ
  defaultHandler : η

structure AddStateCall (σ ε η : Type) where
  current : σ
  event : ε
  handler : η
  next : σ
  deriving DecidableEq, Repr

/-- What `ProcessEvent` changes while it runs. -/
structure ProcessState (σ η : Type) where
  currentState : σ
  eventFound : Bool
  called : List η
  deriving DecidableEq, Repr

namespace StateMachine

/-- `StateMachine(owner, defaultHandler)`: the constructor leaves `m_currentState` as it finds
it. -/
def new (garbage : σ) (defaultHandler : η) : StateMachine σ ε η :=
  ⟨Multimap.empty, garbage, defaultHandler⟩

def addState (m : StateMachine σ ε η) (c : AddStateCall σ ε η) : StateMachine σ ε η :=
  let stateTable := m.stateTable.insert c.current ⟨c.event, c.handler, c.next⟩
  { m with
    stateTable
    currentState := if stateTable.size = 1 then c.current else m.currentState }

def build (garbage : σ) (defaultHandler : η) (cs : List (AddStateCall σ ε η)) :
    StateMachine σ ε η :=
  cs.foldl addState (new garbage defaultHandler)

/-- The state a machine starts in: the first added entry's, or whatever was there. -/
def startState (garbage : σ) : List (AddStateCall σ ε η) → σ
  | [] => garbage
  | c :: _ => c.current

/-! ## The table -/

def entryOf (c : AddStateCall σ ε η) : σ × StateEntry σ ε η :=
  (c.current, ⟨c.event, c.handler, c.next⟩)

theorem addState_build (g : σ) (d : η) (cs : List (AddStateCall σ ε η))
    (c : AddStateCall σ ε η) : build g d (cs ++ [c]) = (build g d cs).addState c := by
  simp [build, List.foldl_append]

theorem defaultHandler_build (g : σ) (d : η) (cs : List (AddStateCall σ ε η)) :
    (build g d cs).defaultHandler = d := by
  induction cs using List.reverseRecOn with
  | nil => rfl
  | append_singleton cs c ih => rw [addState_build]; exact ih

theorem stateTable_build (g : σ) (d : η) (cs : List (AddStateCall σ ε η)) :
    (build g d cs).stateTable = Multimap.ofList (cs.map entryOf) := by
  induction cs using List.reverseRecOn with
  | nil => rfl
  | append_singleton cs c ih =>
    rw [addState_build, List.map_append, List.map_singleton, Multimap.ofList_append_singleton, ← ih]
    rfl

/-- The current state is set by the first `addState` and by no later one. -/
theorem currentState_build (g : σ) (d : η) (cs : List (AddStateCall σ ε η)) :
    (build g d cs).currentState = startState g cs := by
  induction cs using List.reverseRecOn with
  | nil => rfl
  | append_singleton cs c ih =>
    rw [addState_build]
    simp only [addState, Multimap.size_insert, stateTable_build, Multimap.size_ofList,
      List.length_map, ih]
    cases cs <;> simp [startState]

/-- The entries scanned for a state: the ones added for it, in order. -/
theorem range_stateTable {m : StateMachine σ ε η} {cs : List (AddStateCall σ ε η)}
    (ht : m.stateTable = Multimap.ofList (cs.map entryOf)) (s : σ) :
    m.stateTable.range s = (cs.filter fun c => c.current = s).map entryOf := by
  rw [ht, Multimap.range_ofList, List.filter_map]
  rfl

/-! ## Events -/

variable [DecidableEq ε]

/-- The loop of `ProcessEvent` over the entries of the current state. -/
def processEntries (event : ε) :
    List (σ × StateEntry σ ε η) → ProcessState σ η → ProcessState σ η
  | [], p => p
  | (first, second) :: it, p =>
    if p.eventFound then p
    else if second.event = event then
      -- the assignment takes the entry's key, not its `next`
      processEntries event it ⟨first, true, p.called ++ [second.handler]⟩
    else processEntries event it p

/-- `ProcessEvent`: the machine afterwards and the handlers called. -/
def processEvent (m : StateMachine σ ε η) (event : ε) : StateMachine σ ε η × List η :=
  let p := processEntries event (m.stateTable.range m.currentState) ⟨m.currentState, false, []⟩
  ({ m with currentState := p.currentState },
    if p.eventFound then p.called else p.called ++ [m.defaultHandler])

/-- A run of `ProcessEvent` calls: the handlers each event called and the state after it. -/
def run (m : StateMachine σ ε η) : List ε → List (List η × σ)
  | [] => []
  | e :: es =>
    let (m', called) := m.processEvent e
    (called, m'.currentState) :: run m' es

/-! ## The reference transition function -/

/-- The earliest-added entry for a state and an event. -/
def tableEntry (cs : List (AddStateCall σ ε η)) (s : σ) (e : ε) : Option (AddStateCall σ ε η) :=
  cs.find? fun c => c.current = s ∧ c.event = e

/-- The transition the table prescribes: the entry's handler and next state, or the default
handler and the state unchanged. -/
def transition (cs : List (AddStateCall σ ε η)) (d : η) (s : σ) (e : ε) : η × σ :=
  match tableEntry cs s e with
  | some c => (c.handler, c.next)
  | none => (d, s)

/-- The run the table prescribes: one handler for each event. -/
def tableRun (cs : List (AddStateCall σ ε η)) (d : η) : σ → List ε → List (List η × σ)
  | _, [] => []
  | s, e :: es => ([(transition cs d s e).1], (transition cs d s e).2) ::
      tableRun cs d (transition cs d s e).2 es

/-! ## One event -/

omit [LinearOrder σ] in
theorem processEntries_found (e : ε) (it : List (σ × StateEntry σ ε η)) (s : σ)
    (called : List η) : processEntries e it ⟨s, true, called⟩ = ⟨s, true, called⟩ := by
  cases it <;> simp [processEntries]

/-- Over the entries of the state itself the loop calls the first matching handler and stores
that same state back. -/
theorem processEntries_filter (e : ε) (s : σ) : ∀ cs : List (AddStateCall σ ε η),
    processEntries e ((cs.filter fun c => c.current = s).map entryOf) ⟨s, false, []⟩ =
      ⟨s, (tableEntry cs s e).isSome, ((tableEntry cs s e).map (·.handler)).toList⟩
  | [] => rfl
  | c :: cs => by
    by_cases hs : c.current = s
    · rw [List.filter_cons_of_pos (by simpa using hs), List.map_cons, entryOf]
      by_cases he : c.event = e
      · simp [processEntries, tableEntry, hs, he, processEntries_found]
      · have ih := processEntries_filter e s cs
        simp only [processEntries, he, Bool.false_eq_true, if_false, ih]
        simp [tableEntry, he]
    · have ih := processEntries_filter e s cs
      rw [List.filter_cons_of_neg (by simpa using hs), ih]
      simp [tableEntry, hs]

/-- **One event**: exactly one handler is called, the one the table prescribes for the current
state, and the machine is left in the state it was in. -/
theorem processEvent_spec {m : StateMachine σ ε η} {cs : List (AddStateCall σ ε η)}
    (ht : m.stateTable = Multimap.ofList (cs.map entryOf)) (e : ε) :
    m.processEvent e = (m, [(transition cs m.defaultHandler m.currentState e).1]) := by
  simp only [processEvent, range_stateTable ht, processEntries_filter, transition]
  cases tableEntry cs m.currentState e <;> simp

theorem run_eq {m : StateMachine σ ε η} {cs : List (AddStateCall σ ε η)}
    (ht : m.stateTable = Multimap.ofList (cs.map entryOf)) (es : List ε) :
    m.run es = es.map fun e =>
      ([(transition cs m.defaultHandler m.currentState e).1], m.currentState) := by
  induction es with
  | nil => rfl
  | cons e es ih => simp only [run, processEvent_spec ht, List.map_cons, ih]

/-- A run the table prescribes stays in `s` exactly when each of its events leads from `s` back
to `s`. -/
theorem tableRun_const_iff (cs : List (AddStateCall σ ε η)) (d : η) (s : σ) (es : List ε) :
    (es.map fun e => ([(transition cs d s e).1], s)) = tableRun cs d s es ↔
      ∀ e ∈ es, (transition cs d s e).2 = s := by
  induction es with
  | nil => simp [tableRun]
  | cons e es ih =>
    simp only [List.map_cons, tableRun, List.cons.injEq, Prod.mk.injEq, true_and,
      List.forall_mem_cons]
    constructor
    · rintro ⟨h, ht⟩
      rw [← h] at ht
      exact ⟨h.symm, ih.1 ht⟩
    · rintro ⟨h, ht⟩
      rw [h]
      exact ⟨rfl, ih.2 ht⟩

theorem transition_snd_eq_iff (cs : List (AddStateCall σ ε η)) (d : η) (s : σ) (e : ε) :
    (transition cs d s e).2 = s ↔ ∀ c, tableEntry cs s e = some c → c.next = s := by
  unfold transition
  cases tableEntry cs s e <;> simp

/-- **When the machine follows its table**: every run is the prescribed one exactly if each of
its events that has an entry for the start state has, as the earliest such entry, one that
leads back to the start state. -/
theorem run_eq_tableRun_iff (garbage : σ) (d : η) (cs : List (AddStateCall σ ε η))
    (es : List ε) :
    (build garbage d cs).run es = tableRun cs d (startState garbage cs) es ↔
      ∀ e ∈ es, ∀ c, tableEntry cs (startState garbage cs) e = some c →
        c.next = startState garbage cs := by
  rw [run_eq (stateTable_build garbage d cs), defaultHandler_build, currentState_build,
    tableRun_const_iff]
  simp only [transition_snd_eq_iff]

/-- Two states that lead to each other on the event 0. -/
def toggle : List (AddStateCall Nat Nat Nat) := [⟨0, 0, 10, 1⟩, ⟨1, 0, 11, 0⟩]

/-- The second event is still handled in the first state. -/
theorem run_ne_tableRun : (build 0 99 toggle).run [0, 0] ≠ tableRun toggle 99 0 [0, 0] := by
  decide

end StateMachine
