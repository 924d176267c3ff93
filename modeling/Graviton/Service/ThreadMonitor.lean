import Graviton.Base.ThreadProof
import Mathlib.Logic.Function.Basic

/-!
# `ThreadMonitor`: the registered threads

`libs/service/threadmonitor.cpp` over the two thread singletons, each of them a `ThreadObj`. A
call of the monitor is a series of calls of the objects, made one after the other by the
controlling thread; the started threads of both objects go on in between.

* `component_run`: what one object does in a run of the monitor is a run of that object.
* `exists_run_stop`: `StopThreads` can return after any other calls.
* `stopThreads_not_allStopped`: whenever it does, a registered thread is not `Stopped`.
-/

open Lib

/-- The singletons `Discovery` and `Configuration`. -/
inductive ThreadName
  | discovery
  | configuration
  deriving DecidableEq, Repr

namespace ThreadName

def kind : ThreadName → ThreadKind
  | discovery => .discovery
  | configuration => .configuration

def other : ThreadName → ThreadName
  | discovery => configuration
  | configuration => discovery

end ThreadName

inductive MonitorCall
  | initializeThreads
  | startThreads
  | pauseThreads
  | resumeThreads
  | stopThreads
  deriving DecidableEq, Repr

/-- A call, the controlling thread going on inside one, or the next step of a thread that the
object `t` started. -/
inductive MonitorAct
  | call (c : MonitorCall)
  | ctl
  | run (t : ThreadName) (i : Nat) (elapsed : Bool)
  deriving DecidableEq, Repr

/-- The thread objects and the monitor's members, the map in the order of the handles; `pending`
are the calls of the objects that the running call of the monitor has still to make. -/
structure ThreadMonitor where
  objects : ThreadName → ThreadObj
  threadMap : List (Nat × ThreadName)
  handleCounter : Nat
  pending : List (ThreadName × ThreadAct)

namespace ThreadMonitor

/-- `RegisterThread`: the new handle is the largest so far. -/
def registerThread (s : ThreadMonitor) (t : ThreadName) : ThreadMonitor :=
  { s with
    threadMap := s.threadMap ++ [(s.handleCounter + 1, t)]
    handleCounter := s.handleCounter + 1 }

/-- The singletons are constructed, and register themselves, in the order of their first use. -/
def init (first : ThreadName) : ThreadMonitor :=
  let s : ThreadMonitor := ⟨fun t => ThreadObj.init t.kind, [], 0, []⟩
  (s.registerThread first).registerThread first.other

def forEach (s : ThreadMonitor) (a : ThreadAct) : List (ThreadName × ThreadAct) :=
  s.threadMap.map fun e => (e.2, a)

/-- The calls a method of the monitor makes. -/
def calls (s : ThreadMonitor) : MonitorCall → List (ThreadName × ThreadAct)
  | .initializeThreads =>
    [(.discovery, .initializeThread), (.configuration, .initializeThread)]
  | .startThreads => s.forEach .start
  | .pauseThreads => s.forEach .pause
  | .resumeThreads => s.forEach .resume
  | .stopThreads => s.forEach .stop

/-- The object the controlling thread is inside a call of. -/
def current (s : ThreadMonitor) : Option ThreadName :=
  [ThreadName.discovery, ThreadName.configuration].find? fun t => (s.objects t).ctl ≠ .idle

def set (s : ThreadMonitor) (t : ThreadName) (x : ThreadObj) : ThreadMonitor :=
  { s with objects := Function.update s.objects t x }

theorem objects_set (s : ThreadMonitor) (t : ThreadName) (x : ThreadObj) :
    (s.set t x).objects = Function.update s.objects t x := rfl

@[simp] theorem objects_set_self (s : ThreadMonitor) (t : ThreadName) (x : ThreadObj) :
    (s.set t x).objects t = x := by
  rw [objects_set, Function.update_self]

theorem objects_set_ne (s : ThreadMonitor) {t u : ThreadName} (x : ThreadObj) (h : u ≠ t) :
    (s.set t x).objects u = s.objects u := by
  rw [objects_set, Function.update_of_ne h]

/-- One step of an object. -/
def on (s : ThreadMonitor) (t : ThreadName) (a : ThreadAct) : Option ThreadMonitor :=
  ((s.objects t).step a).map (s.set t)

/-- The call that was made has returned. -/
def Returned (s : ThreadMonitor) : Prop := s.pending = [] ∧ s.current = none

instance (s : ThreadMonitor) : Decidable s.Returned := inferInstanceAs (Decidable (_ ∧ _))

def step (s : ThreadMonitor) : MonitorAct → Option ThreadMonitor
  | .call c => if s.Returned then some { s with pending := s.calls c } else none
  | .ctl =>
    match s.current, s.pending with
    | some t, _ => s.on t .ctl
    | none, [] => none
    | none, (t, a) :: rest => { s with pending := rest }.on t a
  | .run t i elapsed => s.on t (.run i elapsed)

/-- The calls of the monitor in a run. -/
def callsOf (as : List MonitorAct) : List MonitorCall :=
  as.filterMap fun
    | .call c => some c
    | _ => none

/-- `GetState` of every registered thread is `Stopped`. -/
def AllStopped (s : ThreadMonitor) : Prop :=
  ∀ e ∈ s.threadMap, (s.objects e.2).state = .stopped

end ThreadMonitor

/-! ## One object of the monitor -/

namespace ThreadObj

/-- An object that is not destroyed. -/
def NoDestroy (_ : ThreadObj) (a : ThreadAct) : Prop := a ≠ .destroy

/-- A configuration thread whose methods, all of them empty, were called. -/
structure Untouched (x : ThreadObj) : Prop where
  kind : x.kind = .configuration
  inDtor : x.inDtor = false
  ctl : x.ctl = .idle
  state : x.state = .created
  runs : ∀ pc ∈ x.runs, pc = .spawned ∨ pc = .returned

theorem untouched_step {x x' : ThreadObj} {a : ThreadAct} (hu : Untouched x) (ha : a ≠ .destroy)
    (h : x.step a = some x') : Untouched x' := by
  cases a with
  | initializeThread =>
    obtain ⟨-, rfl⟩ := call_some h
    rwa [initializeThread, hu.kind]
  | start =>
    obtain ⟨-, rfl⟩ := call_some h
    exact ⟨hu.kind, hu.inDtor, hu.ctl, hu.state, List.forall_mem_cons.2 ⟨.inl rfl, hu.runs⟩⟩
  | pause =>
    obtain ⟨-, rfl⟩ := call_some h
    rwa [pause, hu.kind]
  | resume =>
    obtain ⟨-, rfl⟩ := call_some h
    rwa [resume, hu.kind]
  | stop =>
    obtain ⟨-, rfl⟩ := call_some h
    rwa [stop, hu.kind]
  | destroy => exact absurd rfl ha
  | ctl =>
    rw [step, ctlStep, hu.ctl] at h
    cases h
  | run i e =>
    obtain ⟨pc, hpc, hs⟩ := Option.bind_eq_some_iff.1 h
    rcases hu.runs pc (List.mem_of_getElem? hpc) with rfl | rfl
    · obtain rfl := Option.some.inj hs
      have hk : x.dynamicKind = .configuration := by rw [dynamicKind, hu.inDtor]; exact hu.kind
      refine ⟨hu.kind, hu.inDtor, hu.ctl, hu.state, fun pc hmem => ?_⟩
      rcases List.mem_or_eq_of_mem_set hmem with hmem | rfl
      · exact hu.runs pc hmem
      · rw [hk]
        exact .inr rfl
    · cases hs

/-- **The configuration thread stays `Created`**, whatever is called. -/
theorem state_configuration {as : List ThreadAct} {x : ThreadObj}
    (h : Run step NoDestroy (init .configuration) as x) : x.state = .created :=
  (h.inv (fun _ _ _ hu ha hs => untouched_step hu ha hs)
    ⟨rfl, rfl, rfl, rfl, fun _ hmem => absurd hmem List.not_mem_nil⟩ : Untouched x).state

theorem kind_step {x x' : ThreadObj} {a : ThreadAct} (h : x.step a = some x') :
    x'.kind = x.kind := by
  rcases step_cases h with ⟨-, he⟩ | ⟨-, hs⟩ | ⟨i, e, pc, -, hs⟩
  · cases he <;> rfl
  · exact (ctlStep_frame hs).1
  · exact (runStep_frame hs).2.1

/-- Between two calls, with no started thread on its way and no `Stop` so far. -/
structure Quiet (x : ThreadObj) : Prop where
  inDtor : x.inDtor = false
  ctl : x.ctl = .idle
  notStopped : x.state ≠ .stopped
  notStopping : x.state ≠ .stopping
  runs : ∀ pc ∈ x.runs, pc = .spawned

theorem Quiet.store {x : ThreadObj} (h : Quiet x) {v : ThreadState} (h1 : v ≠ .stopped)
    (h2 : v ≠ .stopping) : Quiet (x.store v) :=
  ⟨h.inDtor, h.ctl, h1, h2, h.runs⟩

theorem Quiet.step_eq {x : ThreadObj} (h : Quiet x) (f : ThreadObj → ThreadObj) :
    x.call f = some (f x) := if_pos h.ctl

theorem Quiet.stored {x : ThreadObj} (h : Quiet x) {v : ThreadState} (h1 : v ≠ .stopped)
    (h2 : v ≠ .stopping) : Quiet (match x.kind with
      | .thread | .discovery => x.store v
      | .configuration => x) := by
  split
  · exact h.store h1 h2
  · exact h.store h1 h2
  · exact h

/-- A call other than `Stop` is made at once. -/
theorem quiet_call {x : ThreadObj} (h : Quiet x) {a : ThreadAct}
    (ha : a ∈ [ThreadAct.initializeThread, .start, .pause, .resume]) :
    ∃ x', x.step a = some x' ∧ Quiet x' := by
  simp only [List.mem_cons, List.not_mem_nil, or_false] at ha
  obtain rfl | rfl | rfl | rfl := ha
  · exact ⟨_, h.step_eq _, h.stored nofun nofun⟩
  · exact ⟨_, h.step_eq _, h.inDtor, h.ctl, h.notStopped, h.notStopping,
      List.forall_mem_cons.2 ⟨rfl, h.runs⟩⟩
  · exact ⟨_, h.step_eq _, h.stored nofun nofun⟩
  · exact ⟨_, h.step_eq _, h.stored nofun nofun⟩

/-- A step inside a call, or of a started thread. -/
def InCall (_ : ThreadObj) (a : ThreadAct) : Prop := a = .ctl ∨ ∃ i e, a = .run i e

theorem inCall_ctl (x : ThreadObj) : InCall x .ctl := .inl rfl

theorem inCall_run (x : ThreadObj) (i : Nat) (e : Bool) : InCall x (.run i e) := .inr ⟨i, e, rfl⟩

/-- `Thread::Stop` passes its two tests. -/
theorem Quiet.run_storeStopping {x : ThreadObj} (h : Quiet x) :
    Run step InCall { x with ctl := .testStopped } [.ctl, .ctl]
      { x with ctl := .storeStopping } := by
  have h1 : ({ x with ctl := .testStopped } : ThreadObj).step .ctl =
      some { x with ctl := .testStopping } := by
    simp [step, ctlStep, h.notStopped]
  have h2 : ({ x with ctl := .testStopping } : ThreadObj).step .ctl =
      some { x with ctl := .storeStopping } := by
    simp [step, ctlStep, h.notStopping]
  exact .cons (inCall_ctl _) h1 (.cons (inCall_ctl _) h2 (.nil _))

/-- With nothing started, `Thread::Stop` does not wait. -/
theorem run_stop_nil {x : ThreadObj} (hc : x.ctl = .storeStopping) (hd : x.inDtor = false)
    (hr : x.runs = []) : ∃ bs x', Run step InCall x bs x' ∧ x'.ctl = .idle := by
  have hw : x.request.ctl = .storeStopped := by rw [request, hr]; rfl
  have hlast : x.request.step .ctl = some (x.request.store .stopped).stopReturn := by
    simp [step, ctlStep, hw]
  refine ⟨[.ctl, .ctl], _, .cons (inCall_ctl _) (step_request hc)
    (.cons (inCall_ctl _) hlast (.nil _)), ?_⟩
  show (if x.inDtor then CtlPc.storeDestroyed else .idle) = .idle
  rw [hd]
  rfl

/-- The newest `Run` begins, sees `Stopping` at its next test and answers. -/
theorem run_stop_cons {x : ThreadObj} {pcs : List RunPc} (hc : x.ctl = .storeStopping)
    (hd : x.inDtor = false) (hk : x.kind = .discovery) (hr : x.runs = .spawned :: pcs) :
    ∃ bs x', Run step InCall x bs x' ∧ x'.ctl = .idle := by
  obtain ⟨kind, state, runs, ctl, inDtor, ticks, stores⟩ := x
  simp only at hc hd hk hr
  subst hc hd hk hr
  exact ⟨[.run 0 false, .run 0 false, .ctl, .run 0 false, .run 0 false, .ctl, .ctl], _,
    .cons (inCall_run _ _ _) rfl (.cons (inCall_run _ _ _) rfl (.cons (inCall_ctl _) rfl
    (.cons (inCall_run _ _ _) rfl (.cons (inCall_run _ _ _) rfl (.cons (inCall_ctl _) rfl
    (.cons (inCall_ctl _) rfl (.nil _))))))), rfl⟩

/-- **`Stop` can return.** -/
theorem quiet_stop {x : ThreadObj} (h : Quiet x) (hk : x.kind ≠ .thread) :
    ∃ y bs x', x.step .stop = some y ∧ Run step InCall y bs x' ∧ x'.ctl = .idle := by
  refine ⟨x.stop, ?_⟩
  cases hx : x.kind with
  | thread => exact absurd hx hk
  | configuration =>
    refine ⟨[], x, h.step_eq _, ?_, h.ctl⟩
    rw [stop, hx]
    exact .nil x
  | discovery =>
    have hs : x.stop = { x with ctl := .testStopped } := by rw [stop, hx]
    have hend : ∃ bs x', Run step InCall { x with ctl := .storeStopping } bs x' ∧
        x'.ctl = .idle := by
      by_cases hr : x.runs = []
      · exact run_stop_nil rfl h.inDtor hr
      · obtain ⟨pc, pcs, hr⟩ := List.exists_cons_of_ne_nil hr
        obtain rfl : pc = .spawned := h.runs pc (hr ▸ List.mem_cons_self)
        exact run_stop_cons rfl h.inDtor hx hr
    obtain ⟨bs, x', hrun, hidle⟩ := hend
    rw [hs]
    exact ⟨_, x', (h.step_eq _).trans (congrArg some hs), h.run_storeStopping.append hrun, hidle⟩

end ThreadObj

namespace ThreadMonitor

/-! ## Every object of a run makes a run of its own -/

theorem on_some {s s' : ThreadMonitor} {t : ThreadName} {a : ThreadAct} (h : s.on t a = some s') :
    ∃ x, (s.objects t).step a = some x ∧ s' = s.set t x := by
  obtain ⟨x, hx, rfl⟩ := Option.map_eq_some_iff.1 h
  exact ⟨x, hx, rfl⟩

/-- What a step can do: begin a call, or one step of one object. -/
theorem step_cases {s s' : ThreadMonitor} {a : MonitorAct} (h : s.step a = some s') :
    (∃ c, a = .call c ∧ s.Returned ∧ s' = { s with pending := s.calls c }) ∨
    (∃ t x, a = .ctl ∧ s.current = some t ∧ (s.objects t).step .ctl = some x ∧ s' = s.set t x) ∨
    (∃ t b rest x, a = .ctl ∧ s.current = none ∧ s.pending = (t, b) :: rest ∧
      (s.objects t).step b = some x ∧ s' = { s with pending := rest }.set t x) ∨
    ∃ t i e x, a = .run t i e ∧ (s.objects t).step (.run i e) = some x ∧ s' = s.set t x := by
  cases a with
  | call c =>
    obtain ⟨hr, h⟩ := Option.ite_none_right_eq_some.1 h
    exact .inl ⟨c, rfl, hr, (Option.some.inj h).symm⟩
  | ctl =>
    rw [step] at h
    split at h
    · rename_i t hc
      obtain ⟨x, hx, rfl⟩ := on_some h
      exact .inr (.inl ⟨t, x, rfl, hc, hx, rfl⟩)
    · cases h
    · rename_i t b rest hc hp
      obtain ⟨x, hx, rfl⟩ := on_some h
      exact .inr (.inr (.inl ⟨t, b, rest, x, rfl, hc, hp, hx, rfl⟩))
  | run t i e =>
    obtain ⟨x, hx, rfl⟩ := on_some h
    exact .inr (.inr (.inr ⟨t, i, e, x, rfl, hx, rfl⟩))

/-- No method of the monitor destroys an object. -/
theorem noDestroy_calls {s : ThreadMonitor} {c : MonitorCall} {p : ThreadName × ThreadAct}
    (h : p ∈ s.calls c) : p.2 ≠ .destroy := by
  cases c with
  | initializeThreads =>
    simp only [calls, List.mem_cons, List.not_mem_nil, or_false] at h
    rcases h with rfl | rfl <;> nofun
  | startThreads => obtain ⟨_, _, rfl⟩ := List.mem_map.1 h; nofun
  | pauseThreads => obtain ⟨_, _, rfl⟩ := List.mem_map.1 h; nofun
  | resumeThreads => obtain ⟨_, _, rfl⟩ := List.mem_map.1 h; nofun
  | stopThreads => obtain ⟨_, _, rfl⟩ := List.mem_map.1 h; nofun

/-- The objects behind a state of the monitor. -/
structure Components (s : ThreadMonitor) : Prop where
  run : ∀ t, ∃ bs, Run ThreadObj.step ThreadObj.NoDestroy (ThreadObj.init t.kind) bs (s.objects t)
  pending : ∀ p ∈ s.pending, p.2 ≠ .destroy

theorem Components.set {s : ThreadMonitor} (h : Components s) {t : ThreadName} {a : ThreadAct}
    {x : ThreadObj} (hx : (s.objects t).step a = some x) (ha : a ≠ .destroy) :
    Components (s.set t x) := by
  refine ⟨fun u => ?_, h.pending⟩
  obtain ⟨bs, hbs⟩ := h.run u
  by_cases hu : u = t
  · subst hu
    refine ⟨bs ++ [a], ?_⟩
    rw [objects_set_self]
    exact hbs.append (.cons ha hx (.nil x))
  · refine ⟨bs, ?_⟩
    rwa [objects_set_ne s x hu]

theorem components_step {s s' : ThreadMonitor} {a : MonitorAct} (h : Components s)
    (hs : s.step a = some s') : Components s' := by
  obtain ⟨c, -, -, rfl⟩ | ⟨t, x, -, -, hx, rfl⟩ | ⟨t, b, rest, x, -, -, hp, hx, rfl⟩ |
    ⟨t, i, e, x, -, hx, rfl⟩ := step_cases hs
  · exact ⟨h.run, fun _ hp => noDestroy_calls hp⟩
  · exact h.set hx nofun
  · have hb := List.forall_mem_cons.1 (hp ▸ h.pending)
    exact Components.set (s := { s with pending := rest }) ⟨h.run, hb.2⟩ hx hb.1
  · exact h.set hx nofun

/-- **What one object does in a run of the monitor** is a run of that object. -/
theorem component_run {first : ThreadName} {as : List MonitorAct} {s : ThreadMonitor}
    (h : Run step anyStep (init first) as s) (t : ThreadName) :
    ∃ bs, Run ThreadObj.step ThreadObj.NoDestroy (ThreadObj.init t.kind) bs (s.objects t) :=
  (h.inv (P := Components) (fun _ _ _ hc _ hs => components_step hc hs)
    ⟨fun _ => ⟨[], .nil _⟩, fun _ hp => absurd hp List.not_mem_nil⟩).run t

theorem threadMap_of_run {first : ThreadName} {as : List MonitorAct} {s : ThreadMonitor}
    (h : Run step anyStep (init first) as s) :
    s.threadMap = [(1, first), (2, first.other)] := by
  refine h.inv (P := fun s => s.threadMap = [(1, first), (2, first.other)]) ?_ rfl
  intro s a s' hm _ hs
  obtain ⟨c, -, -, rfl⟩ | ⟨t, x, -, -, hx, rfl⟩ | ⟨t, b, rest, x, -, -, hp, hx, rfl⟩ |
    ⟨t, i, e, x, -, hx, rfl⟩ := step_cases hs <;> exact hm

/-- In no state of any run all registered threads are `Stopped`. -/
theorem not_allStopped {first : ThreadName} {as : List MonitorAct} {s : ThreadMonitor}
    (h : Run step anyStep (init first) as s) : ¬ s.AllStopped := by
  intro hall
  obtain ⟨bs, hbs⟩ := component_run h .configuration
  have hmem : ∃ e ∈ s.threadMap, e.2 = .configuration := by
    rw [threadMap_of_run h]
    cases first
    · exact ⟨_, List.mem_cons_of_mem _ List.mem_cons_self, rfl⟩
    · exact ⟨_, List.mem_cons_self, rfl⟩
  obtain ⟨e, he, hc⟩ := hmem
  have hstate := hall e he
  rw [hc, ThreadObj.state_configuration hbs] at hstate
  cases hstate

/-! ## `StopThreads` can return -/

theorem current_eq_none {s : ThreadMonitor} (h : ∀ t, (s.objects t).ctl = .idle) :
    s.current = none := by
  simp [current, h]

theorem current_eq_some {s : ThreadMonitor} {t : ThreadName} (ht : (s.objects t).ctl ≠ .idle)
    (h : ∀ u, u ≠ t → (s.objects u).ctl = .idle) : s.current = some t := by
  cases t with
  | discovery => simp [current, ht]
  | configuration => simp [current, ht, h .discovery nofun]

theorem callsOf_append (as bs : List MonitorAct) : callsOf (as ++ bs) = callsOf as ++ callsOf bs :=
  List.filterMap_append

/-- What an object does inside a call, the monitor does. -/
theorem run_inCall {t : ThreadName} {y x : ThreadObj} {bs : List ThreadAct}
    (h : Run ThreadObj.step ThreadObj.InCall y bs x) : ∀ {s : ThreadMonitor},
    (∀ u, u ≠ t → (s.objects u).ctl = .idle) →
      ∃ as, Run step anyStep (s.set t y) as (s.set t x) ∧ callsOf as = [] := by
  induction h with
  | nil y => exact fun _ => ⟨[], .nil _, rfl⟩
  | @cons y z x b bs hb hz _ ih =>
    intro s hidle
    obtain ⟨as, has, hcalls⟩ := ih hidle
    have hon : (s.set t y).on t b = some (s.set t z) := by
      rw [on, objects_set_self, hz]
      simp [set]
    rcases hb with rfl | ⟨i, e, rfl⟩
    · have hc : (s.set t y).current = some t := by
        refine current_eq_some ?_ fun u hu => by rw [objects_set_ne s y hu]; exact hidle u hu
        rw [objects_set_self]
        intro hy
        rw [ThreadObj.step, ThreadObj.ctlStep, hy] at hz
        cases hz
      have hs : (s.set t y).step .ctl = some (s.set t z) := by
        simp only [step, hc]
        exact hon
      exact ⟨.ctl :: as, .cons trivial hs has, hcalls⟩
    · exact ⟨.run t i e :: as, .cons trivial hon has, hcalls⟩

/-- The controlling thread makes the next call of an object, and it returns. -/
theorem run_pending {s : ThreadMonitor} {t : ThreadName} {a : ThreadAct}
    {rest : List (ThreadName × ThreadAct)} {y x : ThreadObj} {bs : List ThreadAct}
    (hidle : ∀ u, (s.objects u).ctl = .idle) (hp : s.pending = (t, a) :: rest)
    (hy : (s.objects t).step a = some y) (h : Run ThreadObj.step ThreadObj.InCall y bs x) :
    ∃ as, Run step anyStep s as ({ s with pending := rest }.set t x) ∧ callsOf as = [] := by
  obtain ⟨as, has, hcalls⟩ := run_inCall (s := { s with pending := rest }) h fun u _ => hidle u
  have hs : s.step .ctl = some ({ s with pending := rest }.set t y) := by
    simp only [step, current_eq_none hidle, hp, on, hy]
    rfl
  exact ⟨.ctl :: as, .cons trivial hs has, hcalls⟩

/-- Between two calls, with no started thread on its way and no `StopThreads` so far. -/
structure AllQuiet (s : ThreadMonitor) : Prop where
  pending : s.pending = []
  objects : ∀ t, (s.objects t).Quiet

theorem AllQuiet.returned {s : ThreadMonitor} (h : AllQuiet s) : s.Returned :=
  ⟨h.pending, current_eq_none fun t => (h.objects t).ctl⟩

/-- The calls a method of the monitor makes, if none is a `Stop`, are made one by one. -/
theorem run_quiet_pending {l : List (ThreadName × ThreadAct)} : ∀ {s : ThreadMonitor},
    s.pending = l → (∀ t, (s.objects t).Quiet) →
    (∀ p ∈ l, p.2 ∈ [ThreadAct.initializeThread, .start, .pause, .resume]) →
      ∃ as s', Run step anyStep s as s' ∧ callsOf as = [] ∧ AllQuiet s' := by
  induction l with
  | nil => exact fun {s} hp hq _ => ⟨[], s, .nil s, rfl, hp, hq⟩
  | cons p l ih =>
    obtain ⟨t, a⟩ := p
    intro s hp hq hl
    obtain ⟨ha, hl⟩ := List.forall_mem_cons.1 hl
    obtain ⟨y, hy, hquiet⟩ := ThreadObj.quiet_call (hq t) ha
    obtain ⟨as, has, hcalls⟩ := run_pending (fun u => (hq u).ctl) hp hy (.nil y)
    have hq' : ∀ u, (({ s with pending := l }.set t y).objects u).Quiet := by
      intro u
      by_cases hu : u = t
      · rw [hu, objects_set_self]
        exact hquiet
      · rw [objects_set_ne _ y hu]
        exact hq u
    obtain ⟨as', s', hr, hc, hall⟩ := ih rfl hq' hl
    exact ⟨as ++ as', s', has.append hr, by rw [callsOf_append, hcalls, hc]; rfl, hall⟩

theorem calls_mem {s : ThreadMonitor} {c : MonitorCall} (hc : c ≠ .stopThreads) :
    ∀ p ∈ s.calls c, p.2 ∈ [ThreadAct.initializeThread, .start, .pause, .resume] := by
  intro p hp
  cases c with
  | initializeThreads =>
    simp only [calls, List.mem_cons, List.not_mem_nil, or_false] at hp
    rcases hp with rfl | rfl <;> simp
  | startThreads => obtain ⟨_, _, rfl⟩ := List.mem_map.1 hp; simp
  | pauseThreads => obtain ⟨_, _, rfl⟩ := List.mem_map.1 hp; simp
  | resumeThreads => obtain ⟨_, _, rfl⟩ := List.mem_map.1 hp; simp
  | stopThreads => exact absurd rfl hc

/-- Any calls but `StopThreads` can be made while no started thread takes a step. -/
theorem exists_run_calls : ∀ {cs : List MonitorCall} {s : ThreadMonitor}, .stopThreads ∉ cs →
    AllQuiet s → ∃ as s', Run step anyStep s as s' ∧ callsOf as = cs ∧ AllQuiet s'
  | [], s, _, hq => ⟨[], s, .nil s, rfl, hq⟩
  | c :: cs, s, hcs, hq => by
    obtain ⟨hc, hcs⟩ := not_or.1 (mt List.mem_cons.2 hcs)
    obtain ⟨as, s', has, hcalls, hq'⟩ :=
      run_quiet_pending (s := { s with pending := s.calls c }) rfl hq.objects
        (calls_mem (Ne.symm hc))
    obtain ⟨as', s'', has', hcalls', hq''⟩ := exists_run_calls hcs hq'
    refine ⟨.call c :: (as ++ as'), s'', .cons trivial (if_pos hq.returned) (has.append has'),
      ?_, hq''⟩
    show c :: callsOf (as ++ as') = c :: cs
    rw [callsOf_append, hcalls, hcalls']
    rfl

/-- `StopThreads` stops the two objects one after the other. -/
theorem exists_run_stop {first : ThreadName} {as : List MonitorAct} {s : ThreadMonitor}
    (h : Run step anyStep (init first) as s) (hq : AllQuiet s) :
    ∃ as s', Run step anyStep s as s' ∧ callsOf as = [.stopThreads] ∧ s'.Returned := by
  have hkind : ∀ t, (s.objects t).kind ≠ .thread := by
    intro t
    obtain ⟨bs, hbs⟩ := component_run h t
    have hk : (s.objects t).kind = t.kind :=
      hbs.inv (P := fun x => x.kind = t.kind)
        (fun _ _ _ hk _ hs => (ThreadObj.kind_step hs).trans hk) rfl
    rw [hk]
    cases t <;> nofun
  have hne : first.other ≠ first := by cases first <;> nofun
  have hp : s.calls .stopThreads = [(first, .stop), (first.other, .stop)] := by
    rw [calls, forEach, threadMap_of_run h]
    rfl
  obtain ⟨y, bs, x, hy, hb, hx⟩ := ThreadObj.quiet_stop (hq.objects first) (hkind first)
  obtain ⟨as, has, hcalls⟩ := run_pending (s := { s with pending := s.calls .stopThreads })
    (fun u => (hq.objects u).ctl) hp hy hb
  obtain ⟨z, bs', w, hz, hb', hw⟩ :=
    ThreadObj.quiet_stop (hq.objects first.other) (hkind first.other)
  have hidle : ∀ u, (({ s with pending := [(first.other, .stop)] }.set first x).objects u).ctl =
      .idle := by
    intro u
    by_cases hu : u = first
    · rw [hu, objects_set_self]
      exact hx
    · rw [objects_set_ne _ x hu]
      exact (hq.objects u).ctl
  obtain ⟨as', has', hcalls'⟩ := run_pending hidle rfl
    (by rw [objects_set_ne _ x hne]; exact hz) hb'
  refine ⟨.call .stopThreads :: (as ++ as'), _,
    .cons trivial (if_pos hq.returned) (has.append has'), ?_, rfl, current_eq_none fun u => ?_⟩
  · show MonitorCall.stopThreads :: callsOf (as ++ as') = [.stopThreads]
    rw [callsOf_append, hcalls, hcalls']
    rfl
  · by_cases hu : u = first.other
    · rw [hu, objects_set_self]
      exact hw
    · rw [objects_set_ne _ w hu]
      exact hidle u

theorem allQuiet_init (first : ThreadName) : AllQuiet (init first) :=
  ⟨rfl, fun _ => ⟨rfl, rfl, nofun, nofun, fun _ hmem => absurd hmem List.not_mem_nil⟩⟩

/-- **`StopThreads` never stops everything**: whatever was called before, it can return, and
whenever it does a registered thread is not `Stopped`. -/
theorem stopThreads_not_allStopped (first : ThreadName) {cs : List MonitorCall}
    (hcs : .stopThreads ∉ cs) :
    (∃ as s, Run step anyStep (init first) as s ∧ callsOf as = cs ++ [.stopThreads] ∧
      s.Returned) ∧
    ∀ as s, Run step anyStep (init first) as s → callsOf as = cs ++ [.stopThreads] →
      s.Returned → ¬ s.AllStopped := by
  refine ⟨?_, fun _ _ hr _ _ => not_allStopped hr⟩
  obtain ⟨as, s, has, hcalls, hq⟩ := exists_run_calls hcs (allQuiet_init first)
  obtain ⟨as', s', has', hcalls', hret⟩ := exists_run_stop has hq
  exact ⟨as ++ as', s', has.append has', by rw [callsOf_append, hcalls, hcalls'], hret⟩

theorem stopThreads_not_allStopped_started :
    (∃ as s, Run step anyStep (init .discovery) as s ∧
      callsOf as = [.initializeThreads, .startThreads] ++ [.stopThreads] ∧ s.Returned) ∧
    ∀ as s, Run step anyStep (init .discovery) as s →
      callsOf as = [.initializeThreads, .startThreads] ++ [.stopThreads] →
        s.Returned → ¬ s.AllStopped :=
  stopThreads_not_allStopped .discovery (by decide)

/-- Both threads initialized and started, then stopped. -/
def startedRun : List MonitorAct :=
  [.call .initializeThreads, .ctl, .ctl, .call .startThreads, .ctl, .ctl,
    .run .configuration 0 false, .run .discovery 0 false, .run .discovery 0 false,
    .call .stopThreads, .ctl, .ctl, .ctl, .ctl, .run .discovery 0 false,
    .run .discovery 0 false, .ctl, .ctl, .ctl]

/-- `StopThreads` returns with the configuration thread `Created`. -/
theorem stopThreads_leaves_created : ∃ s, Run step anyStep (init .discovery) startedRun s ∧
    callsOf startedRun = [.initializeThreads, .startThreads] ++ [.stopThreads] ∧ s.Returned ∧
    (s.objects .discovery).state = .stopped ∧ (s.objects .configuration).state = .created ∧
    ¬ s.AllStopped := by
  have h : ∃ s, steps step anyStep (init .discovery) startedRun = some s ∧ s.Returned ∧
      (s.objects .discovery).state = .stopped ∧ (s.objects .configuration).state = .created :=
    ⟨_, rfl, ⟨rfl, rfl⟩, rfl, rfl⟩
  obtain ⟨s, hs, hret, hd, hc⟩ := h
  have hr := Run.of_steps hs
  refine ⟨s, hr, rfl, hret, hd, hc, fun hall => ?_⟩
  have hstate := hall (2, .configuration) (by rw [threadMap_of_run hr]; decide)
  rw [hc] at hstate
  cases hstate

end ThreadMonitor
