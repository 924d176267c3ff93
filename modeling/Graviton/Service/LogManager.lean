import Graviton.Lib.Registry
import Graviton.Lib.Run
import Graviton.Lib.Text

/-!
# `LogManager`: the registered `Log` objects

`libs/service/logmanager.cpp` and the constructor and destructor of `Log` in `logmanager.h`. A
`Log` registers itself under its component's name; the map has one pointer for each name.

* `pointers_live`: whatever is constructed and destroyed, the map points to live objects only.
* `registry_exact_iff`: exactly when every live object is registered all along a run.
-/

open Lib

structure Log where
  component : Str
  deriving DecidableEq, Repr

/-- The live `Log` objects and `m_logMap`. -/
abbrev LogManager := Registry Str Nat Log

/-- A `Log` object constructed at an address, or destroyed. -/
inductive LogAct
  | construct (this : Nat) (component : Str)
  | destroy (this : Nat)
  deriving DecidableEq, Repr

namespace LogManager

/-- `Register` for the object at `this`. -/
def register (m : LogManager) (this : Nat) (log : Log) : LogManager :=
  { m with map := m.map.insert log.component this }

def unregister (m : LogManager) (log : Log) : LogManager :=
  { m with map := m.map.erase log.component }

/-- `Log::Log` and `Log::~Log`. An address is free for a new object once the old one is gone. -/
def step (m : LogManager) : LogAct → Option LogManager
  | .construct this component =>
    match m.live.lookup this with
    | some _ => none
    | none =>
      let log : Log := ⟨component⟩
      some (register { m with live := m.live.insert this log } this log)
  | .destroy this =>
    (m.live.lookup this).map fun log => { m.unregister log with live := m.live.erase this }

/-- The registry is exact. -/
structure Exact (m : LogManager) : Prop where
  registered : ∀ this log, m.live.lookup this = some log → m.map.lookup log.component = some this
  pointers : ∀ component this, m.map.lookup component = some this →
    (m.live.lookup this).isSome = true

/-- A `Log` is constructed only with a name no live `Log` has. -/
def FreshName (m : LogManager) (a : LogAct) : Prop :=
  ∀ this component, a = .construct this component → m.Unused Log.component component

/-- What a step can do. -/
theorem step_cases {m m' : LogManager} {a : LogAct} (h : m.step a = some m') :
    (∃ this log, a = .construct this log.component ∧ m.live.lookup this = none ∧
      m' = m.add log.component this log) ∨
    ∃ this log, a = .destroy this ∧ m.live.lookup this = some log ∧
      m' = m.remove log.component this := by
  cases a with
  | construct this component =>
    cases hl : m.live.lookup this with
    | some log => simp [step, hl] at h
    | none =>
      simp only [step, hl, Option.some.injEq] at h
      exact .inl ⟨this, ⟨component⟩, rfl, hl, h.symm⟩
  | destroy this =>
    obtain ⟨log, hl, rfl⟩ := Option.map_eq_some_iff.1 h
    exact .inr ⟨this, log, rfl, hl, rfl⟩

theorem alive_step {m m' : LogManager} {a : LogAct} (hi : m.Alive Log.component)
    (h : m.step a = some m') : m'.Alive Log.component := by
  rcases step_cases h with ⟨this, log, -, hl, rfl⟩ | ⟨this, log, -, hl, rfl⟩
  · exact Registry.alive_add hi hl
  · exact Registry.alive_remove hi hl

/-- **No dangling pointer**: in every run the map points to live objects only. -/
theorem pointers_live {m : LogManager} {as : List LogAct}
    (h : Run step anyStep Registry.empty as m) (component : Str) (this : Nat)
    (hm : m.map.lookup component = some this) :
    ∃ log, m.live.lookup this = some log ∧ log.component = component :=
  h.inv (P := fun m => m.Alive Log.component) (fun _ _ _ hi _ hs => alive_step hi hs)
    Registry.alive_empty component this hm

/-- One step keeps the registry exact, unless it constructs an object under a name in use. -/
theorem exact_step {m m' : LogManager} {a : LogAct} (hi : m.Alive Log.component) (he : m.Exact)
    (h : m.step a = some m') : m'.Exact ↔ m.FreshName a := by
  have hi' := alive_step hi h
  have hiff : m'.Exact ↔ m'.Registered Log.component := by
    refine ⟨Exact.registered, fun hr => ⟨hr, fun component this hm => ?_⟩⟩
    obtain ⟨log, hl, -⟩ := hi' component this hm
    simp [hl]
  rw [hiff]
  rcases step_cases h with ⟨this, log, rfl, hl, rfl⟩ | ⟨this, log, rfl, hl, rfl⟩
  · rw [Registry.registered_add_iff he.registered hl]
    constructor
    · rintro hu _ _ ⟨⟩
      exact hu
    · exact fun hf => hf this log.component rfl
  · exact ⟨fun _ _ _ ha => (nomatch ha), fun _ => Registry.registered_remove he.registered hl⟩

/-- **When the log registry is exact all along a run**: no `Log` is constructed with the name of
a live one. -/
theorem registry_exact_iff {m : LogManager} {as : List LogAct}
    (h : Run step anyStep Registry.empty as m) :
    Always step Exact Registry.empty as ↔ Run step FreshName Registry.empty as m :=
  h.always_iff (fun _ _ _ hi hs => alive_step hi hs) (fun _ _ _ hi he hs => exact_step hi he hs)
    Registry.alive_empty ⟨Registry.registered_empty, fun _ _ h => nomatch h⟩

/-- Two objects with different names: the second stays registered when the first goes. -/
theorem exact_distinct : Always step Exact Registry.empty
    [.construct 0 "Common".toList, .construct 1 "Discovery".toList, .destroy 0] := by
  have h0 : FreshName Registry.empty (.construct 0 "Common".toList) := by
    rintro _ _ ⟨⟩
    exact Registry.unused_empty _
  have h1 : FreshName (Registry.empty.add "Common".toList 0 ⟨"Common".toList⟩)
      (.construct 1 "Discovery".toList) := by
    rintro _ _ ⟨⟩
    exact (Registry.unused_empty _).add (by decide)
  exact (registry_exact_iff (.of_steps rfl)).2
    (.cons h0 rfl (.cons h1 rfl (.cons (fun _ _ h => nomatch h) rfl (.nil _))))

/-- Two `IpMulticast` objects at a time: the first is no longer registered. -/
theorem not_exact_multicast : ¬ Always step Exact Registry.empty
    [.construct 0 "IpMulticast".toList, .construct 1 "IpMulticast".toList] := by
  intro h
  have h2 := ((h.2 _ rfl).2 _ rfl).registered 0 ⟨"IpMulticast".toList⟩ (by decide)
  exact absurd h2 (by decide)

end LogManager
