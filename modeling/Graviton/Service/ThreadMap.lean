import Graviton.Lib.OrderedMap
import Graviton.Lib.Run
import Mathlib.Data.List.AList

/-!
# The map of `ThreadMonitor`

`RegisterThread` and `UnregisterThread` of `libs/service/threadmonitor.cpp`, as the constructor and
the destructor of `Thread` call them. Every registration has a handle of its own, until the `int`
that counts them overflows, so the map is exact; the methods of the monitor go through it in the
order of the handles.

* `threads_in_order`: in every run the map has the threads alive, each under its handle, in the
  order of their construction; and which constructions are possible after it.
-/

open Lib

/-- The `Thread` objects alive, by address, with their `m_handle`, and the members of the
monitor. -/
structure ThreadRegistry where
  live : AList fun _ : Nat => Int
  threadMap : OrderedMap Int Nat
  handleCounter : Int

/-- A `Thread` constructed at an address, or destroyed. -/
inductive RegistryAct
  | construct (this : Nat)
  | destroy (this : Nat)
  deriving DecidableEq, Repr

namespace ThreadRegistry

/-- `INT_MAX`. -/
def intMax : Int := 2147483647

def empty : ThreadRegistry := ⟨∅, .empty, 0⟩

/-- `RegisterThread`: the handle it returns, and the monitor after it; `none` where the counter
overflows. -/
def registerThread (r : ThreadRegistry) (thread : Nat) : Option (Int × ThreadRegistry) :=
  if r.handleCounter < intMax then
    let returnHandle := r.handleCounter + 1
    some (returnHandle, { r with
      threadMap := r.threadMap.set returnHandle thread, handleCounter := returnHandle })
  else none

def unregisterThread (r : ThreadRegistry) (handle : Int) : ThreadRegistry :=
  { r with threadMap := r.threadMap.erase handle }

/-- `Thread::Thread` and `Thread::~Thread`. An address is free for a new object once the old one
is gone. -/
def step (r : ThreadRegistry) : RegistryAct → Option ThreadRegistry
  | .construct this =>
    match r.live.lookup this with
    | some _ => none
    | none => (r.registerThread this).map fun (handle, r) =>
      { r with live := r.live.insert this handle }
  | .destroy this =>
    (r.live.lookup this).map fun handle =>
      { r.unregisterThread handle with live := r.live.erase this }

/-- The threads the monitor's methods go through. -/
def threads (r : ThreadRegistry) : List Nat := r.threadMap.entries.map Prod.snd

def aliveAfter (l : List Nat) : RegistryAct → List Nat
  | .construct this => l ++ [this]
  | .destroy this => l.erase this

/-- The objects alive after these constructions and destructions, in the order of their
construction. -/
def alive (as : List RegistryAct) : List Nat := as.foldl aliveAfter []

def isConstruct : RegistryAct → Bool
  | .construct _ => true
  | .destroy _ => false

/-- How many objects were constructed. -/
def constructed (as : List RegistryAct) : Nat := as.countP isConstruct

/-- The map is exact, and in the order of `l`; `n` objects were constructed. -/
structure Inv (l : List Nat) (n : Nat) (r : ThreadRegistry) : Prop where
  threads : r.threads = l
  counter : r.handleCounter = n
  bound : ∀ e ∈ r.threadMap.entries, e.1 ≤ r.handleCounter
  handles : ∀ this handle, r.live.lookup this = some handle ↔ (handle, this) ∈ r.threadMap.entries

theorem inv_empty : Inv [] 0 empty :=
  ⟨rfl, rfl, nofun, fun _ _ => ⟨nofun, nofun⟩⟩

section
variable {l : List Nat} {n : Nat} {r r' : ThreadRegistry} {this : Nat}

/-- A thread is in the map once. -/
theorem Inv.nodup (h : Inv l n r) : l.Nodup := by
  rw [← h.threads, ThreadRegistry.threads, List.Nodup, List.pairwise_map]
  refine r.threadMap.sorted.imp_of_mem fun {a b} ha hb hlt heq => ?_
  have ha := (h.handles a.2 a.1).2 ha
  have hb := (h.handles b.2 b.1).2 hb
  rw [heq, hb] at ha
  exact absurd (Option.some.inj ha) (ne_of_gt hlt)

/-- An object has a handle while it is alive. -/
theorem Inv.isSome_lookup_iff (h : Inv l n r) : (r.live.lookup this).isSome ↔ this ∈ l := by
  rw [Option.isSome_iff_exists, ← h.threads, ThreadRegistry.threads, List.mem_map]
  constructor
  · rintro ⟨handle, hl⟩
    exact ⟨(handle, this), (h.handles this handle).1 hl, rfl⟩
  · rintro ⟨e, he, rfl⟩
    exact ⟨e.1, (h.handles e.2 e.1).2 he⟩

/-- A construction takes a free address, and the next number. -/
theorem step_construct_iff : r.step (.construct this) = some r' ↔
    r.live.lookup this = none ∧ r.handleCounter < intMax ∧
      r' = ⟨r.live.insert this (r.handleCounter + 1),
        r.threadMap.set (r.handleCounter + 1) this, r.handleCounter + 1⟩ := by
  rw [step]
  cases hl : r.live.lookup this with
  | some handle => simp
  | none =>
    by_cases hmax : r.handleCounter < intMax
    · rw [and_iff_right rfl, and_iff_right hmax]
      simp only [registerThread, if_pos hmax, Option.map_some, Option.some.injEq]
      exact eq_comm
    · simp [registerThread, hmax]

theorem inv_construct (h : Inv l n r) (hs : r.step (.construct this) = some r') :
    Inv (l ++ [this]) (n + 1) r' := by
  obtain ⟨hl, -, rfl⟩ := step_construct_iff.1 hs
  have hbelow : ∀ e ∈ r.threadMap.entries, e.1 < r.handleCounter + 1 := fun e he =>
    Int.lt_add_one_of_le (h.bound e he)
  have hentries := OrderedMap.entries_set_of_above hbelow this
  refine ⟨?_, congrArg (· + 1) h.counter, ?_, ?_⟩
  · rw [ThreadRegistry.threads, hentries, List.map_append, ← ThreadRegistry.threads, h.threads]
    rfl
  · intro e he
    rw [hentries] at he
    rcases List.mem_append.1 he with he | he
    · exact (hbelow e he).le
    · rw [List.mem_singleton.1 he]
  · intro p handle
    rw [hentries, List.mem_append, List.mem_singleton, Prod.mk.injEq]
    by_cases hp : p = this
    · subst hp
      rw [AList.lookup_insert, Option.some.injEq, ← h.handles, hl]
      simp only [reduceCtorEq, false_or, and_true]
      exact eq_comm
    · rw [AList.lookup_insert_ne hp, h.handles]
      exact ⟨.inl, fun hm => hm.resolve_right fun hm => hp hm.2⟩

theorem inv_destroy (h : Inv l n r) (hs : r.step (.destroy this) = some r') :
    Inv (l.erase this) n r' := by
  obtain ⟨handle, hl, rfl⟩ := Option.map_eq_some_iff.1 hs
  have hmem := (h.handles this handle).1 hl
  -- the entry of the handle is that of the thread
  have hsame : ∀ e ∈ r.threadMap.entries, e.1 = handle ↔ e.2 = this := by
    intro e he
    constructor
    · rintro rfl
      exact OrderedMap.value_eq_of_mem he hmem
    · rintro rfl
      have hlookup := (h.handles e.2 e.1).2 he
      rw [hl] at hlookup
      exact (Option.some.inj hlookup).symm
  refine ⟨?_, h.counter, ?_, ?_⟩
  · have hfilter : r.threadMap.entries.filter (fun e => decide (e.1 ≠ handle)) =
        r.threadMap.entries.filter fun e => decide (e.2 ≠ this) :=
      List.filter_congr fun e he => by simp only [ne_eq, hsame e he]
    show (r.threadMap.entries.filter fun e => decide (e.1 ≠ handle)).map Prod.snd = _
    rw [h.nodup.erase_eq_filter, ← h.threads, ThreadRegistry.threads, hfilter, List.filter_map]
    refine congrArg _ (List.filter_congr fun e _ => ?_)
    by_cases heq : e.2 = this <;> simp [heq]
  · exact fun e he => h.bound e (OrderedMap.mem_erase.1 he).1
  · intro p handle'
    show (r.live.erase this).lookup p = _ ↔ (handle', p) ∈ (r.threadMap.erase handle).entries
    rw [OrderedMap.mem_erase]
    by_cases hp : p = this
    · subst hp
      rw [AList.lookup_erase]
      exact iff_of_false nofun fun hm => hm.2 ((hsame _ hm.1).2 rfl)
    · rw [AList.lookup_erase_ne hp, h.handles]
      exact ⟨fun hm => ⟨hm, fun heq => hp ((hsame _ hm).1 heq)⟩, And.left⟩

end

theorem inv_run {as : List RegistryAct} {r r' : ThreadRegistry} (h : Run step anyStep r as r') :
    ∀ {l : List Nat} {n : Nat}, Inv l n r →
      Inv (as.foldl aliveAfter l) (n + constructed as) r' := by
  induction h with
  | nil => exact fun h => h
  | @cons r s t a as _ hs _ ih =>
    intro l n hi
    rw [constructed, List.countP_cons, ← constructed]
    cases a with
    | construct this =>
      have hrest := ih (inv_construct hi hs)
      rwa [Nat.add_right_comm, Nat.add_assoc] at hrest
    | destroy this => exact ih (inv_destroy hi hs)

/-- **The map of the monitor is exact**: it has the threads alive, in the order of their
construction, each under the handle it keeps. An object can be constructed at a free address until
there were 2^31 - 1 of them, and destroyed while it is alive. -/
theorem threads_in_order {as : List RegistryAct} {r : ThreadRegistry}
    (h : Run step anyStep empty as r) : r.threads = alive as ∧
      (∀ this handle, r.live.lookup this = some handle ↔
        (handle, this) ∈ r.threadMap.entries) ∧
      (∀ this, (r.step (.construct this)).isSome ↔
        this ∉ alive as ∧ constructed as < 2 ^ 31 - 1) ∧
      ∀ this, (r.step (.destroy this)).isSome ↔ this ∈ alive as := by
  have hi := inv_run h inv_empty
  rw [Nat.zero_add] at hi
  have hmax : r.handleCounter < intMax ↔ constructed as < 2 ^ 31 - 1 := by
    rw [hi.counter, intMax]
    omega
  refine ⟨hi.threads, hi.handles, fun this => ?_, fun this => ?_⟩
  · rw [Option.isSome_iff_exists, alive, ← hi.isSome_lookup_iff, Option.not_isSome_iff_eq_none,
      ← hmax]
    simp only [step_construct_iff]
    exact ⟨fun ⟨_, h1, h2, _⟩ => ⟨h1, h2⟩, fun ⟨h1, h2⟩ => ⟨_, h1, h2, rfl⟩⟩
  · rw [step, Option.isSome_map]
    exact hi.isSome_lookup_iff

/-- An address used twice: its second thread comes last. -/
theorem threads_reused : ∃ r, Run step anyStep empty
    [.construct 1, .construct 2, .destroy 1, .construct 1] r ∧ r.threads = [2, 1] := by
  have h : Run step anyStep empty
      [.construct 1, .construct 2, .destroy 1, .construct 1] _ := .of_steps rfl
  exact ⟨_, h, (threads_in_order h).1⟩

end ThreadRegistry
