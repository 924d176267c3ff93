import Graviton.Lib.Run
import Graviton.Protocol.Heartbeat
import Graviton.Protocol.Tick

/-!
# `DiscoveryThread`: what it owns

`Initialize`, `Start`, the ticks and `Stop` of `libs/protocol/discovery.cpp`, in any order and
any number of times, with the objects they allocate and delete: the `Address` objects that
`EnumerateInterfaces` puts in `m_ipIntfMap`, and `m_mc`. `ClearMcGroups` deletes the addresses
and leaves the pointers in the map; `m_usableIntfList` stays as well.

* `sound_iff`: in exactly which runs no address is deleted twice and no tick sends through a
  null `m_mc`.
-/

open Lib Protocol

/-- The discovery thread with the objects it owns: `pointers` is `m_ipIntfMap` as it is, an
`Address` object named by the order of allocation, `allocated` of them so far; `deleted` are the
pointers passed to `delete`, in order. `started` holds between `Start` and `Stop`, `cleared` from a
`Stop` to the next `Initialize`, `nullSend` once a tick has called `Send` on a null `m_mc`. -/
structure Lifecycle where
  ticker : Ticker
  pointers : Multimap Str Nat
  allocated : Nat
  deleted : List Nat
  started : Bool
  cleared : Bool
  nullSend : Bool

/-- `found` are the addresses of the host in the order `getifaddrs` lists them, none if it fails;
`garbage` is what the stack holds for the local `intf`; `publicIp` is the address `GetPublicIp`
stores, if it stores one. -/
inductive LifecycleAct
  | initializeThread (driveList : List Str) (found : List (Str × Address)) (garbage : Interface)
  | start
  | tick (publicIp : Option Ip)
  | stop

namespace Lifecycle

/-- A constructed thread: the members `d` has that the constructor does not set may be anything. -/
def init (p : Protocol) (d : DiscoveryThread) : Lifecycle where
  ticker := ⟨p, { d with ipIntfMap := Multimap.empty, mc := none, usableIntfList := [] }, 0⟩
  pointers := Multimap.empty
  allocated := 0
  deleted := []
  started := false
  cleared := false
  nullSend := false

/-- The entries of `EnumerateInterfaces`, one new object each. -/
def newPointers (allocated : Nat) (found : List (Str × Address)) : List (Str × Nat) :=
  (found.map Prod.fst).zip (List.range' allocated found.length)

/-- `InitializeStorage` counts the drives. -/
def initializeStorage (driveList : List Str) (d : DiscoveryThread) : DiscoveryThread :=
  { d with storageSize := driveList.foldl (fun n _ => n + 1) 0 }

/-- `Initialize`. -/
def initializeThread (driveList : List Str) (found : List (Str × Address)) (garbage : Interface)
    (s : Lifecycle) : Lifecycle :=
  let d := initializeStorage driveList { s.ticker.thread with usableIntfList := [] }
  let (p, d) := DiscoveryThread.initializeMcGroups (Multimap.ofList found) garbage
    s.ticker.protocol d
  { s with
    ticker := { s.ticker with protocol := p, thread := d }
    pointers := Multimap.ofList (newPointers s.allocated found)
    allocated := s.allocated + found.length
    cleared := false }

def addresses (s : Lifecycle) : List Nat := s.pointers.entries.map Prod.snd

/-- `ClearMcGroups`. -/
def clearMcGroups (s : Lifecycle) : Lifecycle :=
  { s with
    ticker := { s.ticker with thread := { s.ticker.thread with mc := none } }
    deleted := s.deleted ++ s.addresses }

/-- `Stop`, from the return of `Thread::Stop` on. -/
def stop (s : Lifecycle) : Lifecycle := { s.clearMcGroups with started := false, cleared := true }

/-- A tick, with what it sends. -/
def tick (o : Order) (publicIp : Option Ip) (s : Lifecycle) : Lifecycle :=
  let (t, send) := s.ticker.processSecondTick o publicIp
  { s with ticker := t, nullSend := s.nullSend || send.any fun x => x.mc.isNone }

def step (o : Order) (s : Lifecycle) : LifecycleAct → Option Lifecycle
  | .initializeThread driveList found garbage =>
    some (s.initializeThread driveList found garbage)
  | .start => some { s with started := true }
  | .tick publicIp => if s.started then some (s.tick o publicIp) else none
  | .stop => some s.stop

/-- No address was deleted twice, and no tick sent through a null pointer. -/
structure Sound (s : Lifecycle) : Prop where
  once : s.deleted.Nodup
  notNull : s.nullSend = false

/-- After a `Stop`, the thread is initialized again before the next `Stop`, if the map has an
address, and before the next heartbeat is due, if the list has an interface. -/
def Renewed (s : Lifecycle) : LifecycleAct → Prop
  | .stop => s.cleared → s.addresses = []
  | .tick _ => s.cleared → s.ticker.thread.usableIntfList = [] ∨ s.ticker.secondCounter % 10 ≠ 0
  | _ => True

/-! ## What each operation does -/

/-- What a step can do. -/
theorem step_cases {o : Order} {s s' : Lifecycle} {a : LifecycleAct} (h : step o s a = some s') :
    (∃ driveList found garbage, a = .initializeThread driveList found garbage ∧
      s' = s.initializeThread driveList found garbage) ∨
    (a = .start ∧ s' = { s with started := true }) ∨
    (∃ publicIp, a = .tick publicIp ∧ s.started = true ∧ s' = s.tick o publicIp) ∨
    (a = .stop ∧ s' = s.stop) := by
  cases a with
  | initializeThread driveList found garbage =>
    exact .inl ⟨driveList, found, garbage, rfl, (Option.some.inj h).symm⟩
  | start => exact .inr (.inl ⟨rfl, (Option.some.inj h).symm⟩)
  | tick publicIp =>
    obtain ⟨hs, h⟩ := Option.ite_none_right_eq_some.1 h
    exact .inr (.inr (.inl ⟨publicIp, rfl, hs, (Option.some.inj h).symm⟩))
  | stop => exact .inr (.inr (.inr ⟨rfl, (Option.some.inj h).symm⟩))

theorem addresses_initializeThread (driveList : List Str) (found : List (Str × Address))
    (garbage : Interface) (s : Lifecycle) :
    (s.initializeThread driveList found garbage).addresses.Perm
      (List.range' s.allocated found.length) := by
  refine ((Multimap.perm_ofList (newPointers s.allocated found)).map Prod.snd).trans ?_
  rw [newPointers, List.map_snd_zip (by simp)]

/-- After `Initialize` an interface in the list has its multicast group. -/
theorem mc_initializeThread (driveList : List Str) (found : List (Str × Address))
    (garbage : Interface) (s : Lifecycle) :
    (s.initializeThread driveList found garbage).ticker.thread.usableIntfList ≠ [] →
      (s.initializeThread driveList found garbage).ticker.thread.mc ≠ none := by
  intro hne
  simp only [initializeThread, DiscoveryThread.initializeMcGroups] at *
  split at hne
  · exact absurd rfl hne
  · rename_i hf
    simp

theorem thread_tick (o : Order) (publicIp : Option Ip) (s : Lifecycle) :
    (s.tick o publicIp).ticker.thread.usableIntfList = s.ticker.thread.usableIntfList ∧
      (s.tick o publicIp).ticker.thread.mc = s.ticker.thread.mc :=
  ⟨(Ticker.processSecondTick_frame o publicIp s.ticker).usableIntfList,
    (Ticker.processSecondTick_frame o publicIp s.ticker).mc⟩

/-- A tick sends through a null pointer if a heartbeat is due and there is no group. -/
theorem nullSend_tick (o : Order) (publicIp : Option Ip) (s : Lifecycle) :
    (s.tick o publicIp).nullSend = true ↔ s.nullSend = true ∨
      s.ticker.secondCounter % 10 = 0 ∧ s.ticker.thread.usableIntfList ≠ [] ∧
        s.ticker.thread.mc = none := by
  rw [tick, Bool.or_eq_true, Ticker.processSecondTick_send]
  refine or_congr_right ?_
  by_cases hdue : s.ticker.secondCounter % 10 = 0
  · by_cases hne : s.ticker.thread.usableIntfList = []
    · simp [hne, DiscoveryThread.sendHeartbeatToMcGroup]
    · rw [if_pos hdue, DiscoveryThread.sent_eq o _ hne]
      simp only [hdue, hne, ne_eq, not_false_eq_true, true_and]
      exact Option.isNone_iff_eq_none
  · rw [if_neg hdue]
    exact ⟨fun h => absurd h Bool.false_ne_true, fun h => absurd h.1 hdue⟩

/-! ## The invariant -/

/-- What holds in every state a run passes through, sound or not. -/
structure Inv (s : Lifecycle) : Prop where
  lt_allocated : ∀ i, i ∈ s.addresses ∨ i ∈ s.deleted → i < s.allocated
  nodup : s.addresses.Nodup
  owned : s.cleared = false → ∀ i ∈ s.addresses, i ∉ s.deleted
  joined : s.cleared = false → s.ticker.thread.usableIntfList ≠ [] → s.ticker.thread.mc ≠ none
  dangling : s.cleared = true → s.addresses ⊆ s.deleted
  left : s.cleared = true → s.ticker.thread.mc = none

theorem inv_init (p : Protocol) (d : DiscoveryThread) : Inv (init p d) where
  lt_allocated := by simp [init, addresses, Multimap.empty]
  nodup := by simp [init, addresses, Multimap.empty]
  owned := by simp [init, addresses, Multimap.empty]
  joined := fun _ h => absurd rfl h
  dangling := nofun
  left := nofun

theorem inv_initializeThread {s : Lifecycle} (hi : Inv s) (driveList : List Str)
    (found : List (Str × Address)) (garbage : Interface) :
    Inv (s.initializeThread driveList found garbage) := by
  have hp := addresses_initializeThread driveList found garbage s
  have hmem : ∀ i, i ∈ (s.initializeThread driveList found garbage).addresses →
      s.allocated ≤ i ∧ i < s.allocated + found.length := fun i h =>
    List.mem_range'_1.1 (hp.mem_iff.1 h)
  refine ⟨?_, hp.nodup_iff.2 List.nodup_range', ?_,
    fun _ => mc_initializeThread driveList found garbage s, nofun, nofun⟩
  · rintro i (h | h)
    · exact (hmem i h).2
    · exact Nat.lt_add_right _ (hi.lt_allocated i (.inr h))
  · intro _ i h hd
    exact absurd (hi.lt_allocated i (.inr hd)) (Nat.not_lt.2 (hmem i h).1)

theorem inv_tick {s : Lifecycle} (hi : Inv s) (o : Order) (publicIp : Option Ip) :
    Inv (s.tick o publicIp) := by
  obtain ⟨hlist, hmc⟩ := thread_tick o publicIp s
  refine ⟨hi.lt_allocated, hi.nodup, hi.owned, ?_, hi.dangling, ?_⟩
  · rw [hlist, hmc]
    exact hi.joined
  · rw [hmc]
    exact hi.left

theorem inv_stop {s : Lifecycle} (hi : Inv s) : Inv s.stop where
  lt_allocated := by
    rintro i (h | h)
    · exact hi.lt_allocated i (.inl h)
    · exact hi.lt_allocated i (List.mem_append.1 h).symm
  nodup := hi.nodup
  owned := nofun
  joined := nofun
  dangling := fun _ => List.subset_append_right _ _
  left := fun _ => rfl

theorem inv_step {o : Order} {s s' : Lifecycle} {a : LifecycleAct} (hi : Inv s)
    (h : step o s a = some s') : Inv s' := by
  obtain ⟨driveList, found, garbage, rfl, rfl⟩ | ⟨rfl, rfl⟩ | ⟨publicIp, rfl, -, rfl⟩ |
    ⟨rfl, rfl⟩ := step_cases h
  · exact inv_initializeThread hi driveList found garbage
  · exact ⟨hi.lt_allocated, hi.nodup, hi.owned, hi.joined, hi.dangling, hi.left⟩
  · exact inv_tick hi o publicIp
  · exact inv_stop hi

/-! ## Which runs are sound -/

/-- A double delete, or a call through a null pointer, stays in the history. -/
theorem sound_of_step {o : Order} {s s' : Lifecycle} {a : LifecycleAct}
    (h : step o s a = some s') (hs : Sound s') : Sound s := by
  obtain ⟨driveList, found, garbage, rfl, rfl⟩ | ⟨rfl, rfl⟩ | ⟨publicIp, rfl, -, rfl⟩ |
    ⟨rfl, rfl⟩ := step_cases h
  · exact ⟨hs.once, hs.notNull⟩
  · exact ⟨hs.once, hs.notNull⟩
  · exact ⟨hs.once, (Bool.or_eq_false_iff.1 hs.notNull).1⟩
  · exact ⟨(List.nodup_append.1 hs.once).1, hs.notNull⟩

/-- `Stop` is sound if nothing in the map was deleted before. -/
theorem sound_stop_iff {s : Lifecycle} (hi : Inv s) (hs : Sound s) :
    Sound s.stop ↔ (s.cleared → s.addresses = []) := by
  constructor
  · intro h hc
    have hdisjoint := (List.nodup_append.1 h.once).2.2
    refine List.eq_nil_iff_forall_not_mem.2 fun i hmem => ?_
    exact hdisjoint i (hi.dangling hc hmem) i hmem rfl
  · intro h
    refine ⟨List.nodup_append.2 ⟨hs.once, hi.nodup, ?_⟩, hs.notNull⟩
    rintro i hd j hmem rfl
    cases hc : s.cleared with
    | false => exact hi.owned hc i hmem hd
    | true =>
      rw [h hc] at hmem
      exact absurd hmem List.not_mem_nil

/-- A tick is sound if no heartbeat is due, or there is a group to send it to. -/
theorem sound_tick_iff {s : Lifecycle} (hi : Inv s) (hs : Sound s) (o : Order)
    (publicIp : Option Ip) : Sound (s.tick o publicIp) ↔
      (s.cleared → s.ticker.thread.usableIntfList = [] ∨ s.ticker.secondCounter % 10 ≠ 0) := by
  have hsend := nullSend_tick o publicIp s
  constructor
  · intro h hc
    by_contra hno
    obtain ⟨hne, hdue⟩ := not_or.1 hno
    have hnull := hsend.2 (.inr ⟨Decidable.not_not.1 hdue, hne, hi.left hc⟩)
    exact absurd (hnull.symm.trans h.notNull) nofun
  · intro h
    refine ⟨hs.once, Bool.eq_false_iff.2 fun hnull => ?_⟩
    rcases hsend.1 hnull with hold | ⟨hdue, hne, hmc⟩
    · exact absurd (hold.symm.trans hs.notNull) nofun
    · cases hc : s.cleared with
      | false => exact hi.joined hc hne hmc
      | true => exact (h hc).elim hne fun hnot => hnot hdue

theorem sound_step_iff {o : Order} {s s' : Lifecycle} {a : LifecycleAct} (hi : Inv s)
    (hs : Sound s) (h : step o s a = some s') : Sound s' ↔ Renewed s a := by
  obtain ⟨driveList, found, garbage, rfl, rfl⟩ | ⟨rfl, rfl⟩ | ⟨publicIp, rfl, -, rfl⟩ |
    ⟨rfl, rfl⟩ := step_cases h
  · exact ⟨fun _ => trivial, fun _ => ⟨hs.once, hs.notNull⟩⟩
  · exact ⟨fun _ => trivial, fun _ => ⟨hs.once, hs.notNull⟩⟩
  · exact sound_tick_iff hi hs o publicIp
  · exact sound_stop_iff hi hs

/-- **Which runs are sound**: those in which the thread is initialized again after a `Stop`, before
it is stopped once more or sends a heartbeat. -/
theorem sound_iff {o : Order} {p : Protocol} {d : DiscoveryThread} {as : List LifecycleAct}
    {s : Lifecycle} (h : Run (step o) anyStep (init p d) as s) :
    Sound s ↔ Run (step o) Renewed (init p d) as s :=
  h.end_iff (fun _ _ _ hi hs => inv_step hi hs) (fun _ _ _ hs => sound_of_step hs)
    (fun _ _ _ hi hs ht => sound_step_iff hi hs ht) (inv_init p d) ⟨.nil, rfl⟩

/-- `Initialize` on a host with one active interface at 10.0.0.1. -/
def initializeOne : LifecycleAct :=
  .initializeThread [] DiscoveryThread.oneInterfaceMap.entries (DiscoveryThread.filled 0)

def initSample : Lifecycle := init Protocol.new (DiscoveryThread.withInterfaces [])

/-- A thread that is used twice, and initialized each time. -/
def twiceRun : List LifecycleAct :=
  [initializeOne, .start, .tick none, .stop, initializeOne, .start, .tick none, .stop]

theorem sound_iff_twice : ∃ s, Run (step .little) anyStep initSample twiceRun s ∧
    (Sound s ↔ Run (step .little) Renewed initSample twiceRun s) := by
  have h : ∃ s, Run (step .little) anyStep initSample twiceRun s :=
    ⟨_, .cons trivial rfl (.cons trivial rfl (.cons trivial rfl (.cons trivial rfl
      (.cons trivial rfl (.cons trivial rfl (.cons trivial rfl (.cons trivial rfl (.nil _))))))))⟩
  obtain ⟨s, hr⟩ := h
  exact ⟨s, hr, sound_iff hr⟩

/-- A second `Stop` deletes the address again; a second `Start` without `Initialize` leads the
first tick to the null pointer. -/
theorem not_sound :
    (∃ s, Run (step .little) anyStep initSample [initializeOne, .stop, .stop] s ∧
      s.deleted = [0, 0]) ∧
    ∃ s, Run (step .little) anyStep initSample
      [initializeOne, .start, .stop, .start, .tick none] s ∧ s.nullSend = true := by
  refine ⟨⟨_, .cons trivial rfl (.cons trivial rfl (.cons trivial rfl (.nil _))), rfl⟩, ?_⟩
  exact ⟨_, .cons trivial rfl (.cons trivial rfl (.cons trivial rfl (.cons trivial rfl
    (.cons trivial rfl (.nil _))))),
    (nullSend_tick _ _ _).2 (.inr ⟨rfl, List.cons_ne_nil _ _, rfl⟩)⟩

end Lifecycle
