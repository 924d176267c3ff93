import Graviton.Base.ThreadStop
import Graviton.Service.ThreadMonitor

/-!
# When `StopThreads` returns

The first call of `ThreadMonitor::StopThreads`, in an execution that goes on with the controlling
thread and with every started thread. It comes to the store of `Stopping` in the discovery thread;
what it finds there decides.

* `object`: what one thread object does in an execution of the monitor.
* `stopThreads_returns`: `StopThreads` returns if every started `Run` has made its first store by
  then, and never does if none has.
-/

open Lib Execution

namespace ThreadMonitor

/-! ## One object in an execution of the monitor -/

/-- The step that an object takes in a step of the monitor. -/
def actOf (t : ThreadName) (s : ThreadMonitor) : MonitorAct → Option ThreadAct
  | .call _ => none
  | .ctl =>
    match s.current, s.pending with
    | some u, _ => if u = t then some .ctl else none
    | none, [] => none
    | none, (u, a) :: _ => if u = t then some a else none
  | .run u i elapsed => if u = t then some (.run i elapsed) else none

/-- A step of the object `u` is one of the object `t`, or nothing to it. -/
theorem set_cases {s : ThreadMonitor} {t u : ThreadName} {b : ThreadAct} {x : ThreadObj}
    (hx : (s.objects u).step b = some x) :
    ((if u = t then some b else none) = none ∧ (s.set u x).objects t = s.objects t) ∨
      ∃ b', (if u = t then some b else none) = some b' ∧
        (s.objects t).step b' = some ((s.set u x).objects t) := by
  by_cases hu : u = t
  · subst hu
    rw [if_pos rfl, objects_set_self]
    exact .inr ⟨b, rfl, hx⟩
  · rw [if_neg hu, objects_set_ne s x (Ne.symm hu)]
    exact .inl ⟨rfl, rfl⟩

theorem actOf_cases {s s' : ThreadMonitor} {a : MonitorAct} (t : ThreadName)
    (h : s.step a = some s') :
    (actOf t s a = none ∧ s'.objects t = s.objects t) ∨
      ∃ b, actOf t s a = some b ∧ (s.objects t).step b = some (s'.objects t) := by
  obtain ⟨c, rfl, -, rfl⟩ | ⟨u, x, rfl, hc, hx, rfl⟩ | ⟨u, b, rest, x, rfl, hc, hp, hx, rfl⟩ |
    ⟨u, i, el, x, rfl, hx, rfl⟩ := step_cases h
  · exact .inl ⟨rfl, rfl⟩
  · simp only [actOf, hc]
    exact set_cases hx
  · simp only [actOf, hc, hp]
    exact set_cases (s := { s with pending := rest }) hx
  · exact set_cases hx

/-- **What one thread object does** in an execution of the monitor. -/
def object (t : ThreadName) : View step ThreadObj.step where
  part s := s.objects t
  act := actOf t
  rest s a s' h hn := by
    obtain ⟨-, hx⟩ | ⟨b, hb, -⟩ := actOf_cases t h
    · exact hx
    · rw [hn] at hb; cases hb
  move s a s' b h hb := by
    obtain ⟨hn, -⟩ | ⟨b', hb', hx⟩ := actOf_cases t h
    · rw [hn] at hb; cases hb
    · obtain rfl := Option.some.inj (hb.symm.trans hb')
      exact hx

theorem components_init (first : ThreadName) : Components (init first) :=
  ⟨fun _ => ⟨[], .nil _⟩, fun _ hp => absurd hp List.not_mem_nil⟩

theorem Components.untouched {s : ThreadMonitor} (h : Components s) :
    (s.objects .configuration).Untouched := by
  obtain ⟨bs, hbs⟩ := h.run .configuration
  exact hbs.inv (fun _ _ _ hu ha hs => ThreadObj.untouched_step hu ha hs)
    ⟨rfl, rfl, rfl, rfl, fun _ hmem => absurd hmem List.not_mem_nil⟩

/-- The controlling thread is never inside a call of the configuration thread. -/
theorem Components.current_some {s : ThreadMonitor} (h : Components s)
    (hd : (s.objects .discovery).ctl ≠ .idle) : s.current = some .discovery :=
  current_eq_some hd fun u hu => by
    cases u with
    | discovery => exact absurd rfl hu
    | configuration => exact h.untouched.ctl

theorem Components.current_none_iff {s : ThreadMonitor} (h : Components s) :
    s.current = none ↔ (s.objects .discovery).ctl = .idle := by
  refine ⟨fun hc => ?_, fun hd => current_eq_none fun t => ?_⟩
  · by_contra hd
    rw [h.current_some hd] at hc
    cases hc
  · cases t with
    | discovery => exact hd
    | configuration => exact h.untouched.ctl

/-- What a step does to the discovery thread, and to the calls still to make. -/
inductive StepEffect (s s' : ThreadMonitor) : MonitorAct → Prop
  | call (c : MonitorCall) : s.Returned → s' = { s with pending := s.calls c } →
      StepEffect s s' (.call c)
  -- inside `Thread::Stop`
  | inside : (s.objects .discovery).ctl ≠ .idle →
      (s.objects .discovery).ctlStep = some (s'.objects .discovery) → s'.pending = s.pending →
      StepEffect s s' .ctl
  -- the next call, of the discovery thread
  | made (b : ThreadAct) : (s.objects .discovery).ctl = .idle →
      (s.objects .discovery).step b = some (s'.objects .discovery) →
      s.pending = (.discovery, b) :: s'.pending → StepEffect s s' .ctl
  -- the next call, of the configuration thread
  | passed (b : ThreadAct) : (s.objects .discovery).ctl = .idle →
      s'.objects .discovery = s.objects .discovery →
      s.pending = (.configuration, b) :: s'.pending → StepEffect s s' .ctl
  | run (i : Nat) (elapsed : Bool) (pc : RunPc) : (s.objects .discovery).runs[i]? = some pc →
      (s.objects .discovery).runStep i elapsed pc = some (s'.objects .discovery) →
      s'.pending = s.pending → StepEffect s s' (.run .discovery i elapsed)
  | other (i : Nat) (elapsed : Bool) : s'.objects .discovery = s.objects .discovery →
      s'.pending = s.pending → StepEffect s s' (.run .configuration i elapsed)

theorem Components.step_effect {s s' : ThreadMonitor} {a : MonitorAct} (h : Components s)
    (hs : s.step a = some s') : StepEffect s s' a := by
  obtain ⟨c, rfl, hr, rfl⟩ | ⟨t, x, rfl, hc, hx, rfl⟩ | ⟨t, b, rest, x, rfl, hc, hp, hx, rfl⟩ |
    ⟨t, i, el, x, rfl, hx, rfl⟩ := step_cases hs
  · exact .call c hr rfl
  · have hd : (s.objects .discovery).ctl ≠ .idle := fun hd => by
      rw [h.current_none_iff.2 hd] at hc
      cases hc
    rw [h.current_some hd] at hc
    obtain rfl := Option.some.inj hc
    exact .inside hd (by rw [objects_set_self]; exact hx) rfl
  · have hd := h.current_none_iff.1 hc
    cases t with
    | discovery => exact .made b hd (by rw [objects_set_self]; exact hx) hp
    | configuration => exact .passed b hd rfl hp
  · cases t with
    | discovery =>
      obtain ⟨pc, hpc, hx⟩ := Option.bind_eq_some_iff.1 hx
      exact .run i el pc hpc (by rw [objects_set_self]; exact hx) rfl
    | configuration => exact .other i el rfl rfl

/-! ## Up to the store of `Stopping` -/

/-- The call of an object that does nothing. -/
def IsSkip (p : ThreadName × ThreadAct) : Prop := p = (.configuration, .stop)

/-- Before the first call of `StopThreads`. -/
structure Fresh (s : ThreadMonitor) : Prop where
  components : Components s
  unstopped : (s.objects .discovery).Unstopped
  idle : (s.objects .discovery).ctl = .idle
  pending : ∀ p ∈ s.pending, p.2 ∈ [ThreadAct.initializeThread, .start, .pause, .resume]

/-- In that call, before the store. -/
structure Underway (s : ThreadMonitor) : Prop where
  components : Components s
  unstopped : (s.objects .discovery).Unstopped
  before : (s.objects .discovery).ctl = .idle → ∃ pre post,
    s.pending = pre ++ (.discovery, .stop) :: post ∧ ∀ p ∈ pre ++ post, IsSkip p
  inside : (s.objects .discovery).ctl ≠ .idle → ∀ p ∈ s.pending, IsSkip p

/-- The steps of the controlling thread up to the store, at most. -/
def stepsLeft (s : ThreadMonitor) : Nat := 4 * s.pending.length + (s.objects .discovery).ctlRank

/-- The controlling thread stores `Stopping`. -/
def Stores (s : ThreadMonitor) (a : MonitorAct) : Prop :=
  a = .ctl ∧ (s.objects .discovery).ctl = .storeStopping

theorem fresh_init (first : ThreadName) : Fresh (init first) :=
  ⟨components_init first, .init, rfl, fun _ hp => absurd hp List.not_mem_nil⟩

theorem Fresh.step {s s' : ThreadMonitor} {a : MonitorAct} (h : Fresh s)
    (ha : a ≠ .call .stopThreads) (hs : s.step a = some s') : Fresh s' := by
  have hcomp := components_step h.components hs
  cases h.components.step_effect hs with
  | call c _ hs' =>
    subst hs'
    exact ⟨hcomp, h.unstopped, h.idle, calls_mem fun hc => ha (congrArg _ hc)⟩
  | inside hd _ _ => exact absurd h.idle hd
  | made b _ hx hp =>
    have hpend := h.pending
    rw [hp] at hpend
    obtain ⟨hb, hrest⟩ := List.forall_mem_cons.1 hpend
    refine ⟨hcomp, h.unstopped.call ?_ hx, ?_, hrest⟩
    · simp only [List.mem_cons, List.not_mem_nil, or_false] at hb ⊢
      tauto
    · exact (ThreadObj.ctl_of_call hb hx).trans h.idle
  | passed b _ hd hp =>
    have hpend := h.pending
    rw [hp] at hpend
    exact ⟨hcomp, hd ▸ h.unstopped, hd ▸ h.idle, (List.forall_mem_cons.1 hpend).2⟩
  | run i el pc hpc hx hp =>
    exact ⟨hcomp, h.unstopped.runStep hpc hx, (ThreadObj.runStep_frame hx).1.trans h.idle,
      hp ▸ h.pending⟩
  | other i el hd hp => exact ⟨hcomp, hd ▸ h.unstopped, hd ▸ h.idle, hp ▸ h.pending⟩

/-- The first call of `StopThreads` is under way. -/
theorem Fresh.underway {s s' : ThreadMonitor} (h : Fresh s) {first : ThreadName}
    (hmap : s.threadMap = [(1, first), (2, first.other)])
    (hs : s.step (.call .stopThreads) = some s') : Underway s' := by
  have hcomp := components_step h.components hs
  cases h.components.step_effect hs with
  | call c _ hs' =>
    subst hs'
    refine ⟨hcomp, h.unstopped, fun _ => ?_, fun hd => absurd h.idle hd⟩
    show ∃ pre post, s.forEach .stop = _ ∧ _
    rw [forEach, hmap]
    cases first with
    | discovery => exact ⟨[], [(.configuration, .stop)], rfl, by simp [IsSkip]⟩
    | configuration => exact ⟨[(.configuration, .stop)], [], rfl, by simp [IsSkip]⟩

theorem Underway.not_returned {s : ThreadMonitor} (h : Underway s) : ¬ s.Returned := by
  rintro ⟨hp, hc⟩
  obtain ⟨pre, post, hpend, -⟩ := h.before (h.components.current_none_iff.1 hc)
  rw [hp] at hpend
  simp at hpend

/-- A step of the discovery thread, or of the other, that leaves the calls to make. -/
theorem Underway.of_frame {s s' : ThreadMonitor} (h : Underway s) (hcomp : Components s')
    (hu : (s'.objects .discovery).Unstopped)
    (hctl : (s'.objects .discovery).ctl = (s.objects .discovery).ctl)
    (hp : s'.pending = s.pending) : Underway s' :=
  ⟨hcomp, hu, fun hd => hp ▸ h.before (hctl ▸ hd), fun hd => hp ▸ h.inside (hctl ▸ hd)⟩

theorem stepsLeft_of_frame {s s' : ThreadMonitor}
    (hctl : (s'.objects .discovery).ctl = (s.objects .discovery).ctl)
    (hp : s'.pending = s.pending) : s'.stepsLeft = s.stepsLeft := by
  rw [stepsLeft, stepsLeft, ThreadObj.ctlRank, ThreadObj.ctlRank, hctl, hp]

/-- **Up to the store** every step of the controlling thread brings it nearer, and no other step
puts it off. -/
theorem Underway.step {s s' : ThreadMonitor} {a : MonitorAct} (h : Underway s)
    (hT : ¬ s.Stores a) (hs : s.step a = some s') : Underway s' ∧ s'.stepsLeft ≤ s.stepsLeft ∧
      (a = .ctl → s'.stepsLeft < s.stepsLeft) := by
  have hcomp := components_step h.components hs
  suffices hkey : Underway s' ∧ (s'.stepsLeft < s.stepsLeft ∨
      a ≠ .ctl ∧ s'.stepsLeft = s.stepsLeft) by
    obtain ⟨hu, hlt | ⟨hne, heq⟩⟩ := hkey
    · exact ⟨hu, Nat.le_of_lt hlt, fun _ => hlt⟩
    · exact ⟨hu, Nat.le_of_eq heq, fun hc => absurd hc hne⟩
  cases h.components.step_effect hs with
  | call c hr _ => exact absurd hr h.not_returned
  | inside hd hx hp =>
    obtain ⟨hu, hidle, hlt⟩ := h.unstopped.ctlStep (fun hat => hT ⟨rfl, hat⟩) hx
    refine ⟨⟨hcomp, hu, fun hd' => absurd hd' hidle, fun _ => hp ▸ h.inside hd⟩, .inl ?_⟩
    rw [stepsLeft, stepsLeft, hp]
    omega
  | made b hd hx hp =>
    obtain ⟨pre, post, hpend, hskip⟩ := h.before hd
    rw [hp] at hpend
    cases pre with
    | cons p pre =>
      -- the configuration thread would be first
      obtain ⟨rfl, -⟩ := List.cons.inj hpend
      have hfirst := hskip _ List.mem_cons_self
      cases hfirst
    | nil =>
      obtain ⟨hb, rfl⟩ := List.cons.inj hpend
      obtain rfl : b = .stop := congrArg Prod.snd hb
      have hctl := ThreadObj.ctl_of_stop h.unstopped hx
      refine ⟨⟨hcomp, h.unstopped.call (by simp) hx, fun hd' => ?_, fun _ => hskip⟩, .inl ?_⟩
      · rw [hctl] at hd'
        cases hd'
      · rw [stepsLeft, stepsLeft, hp, ThreadObj.ctlRank, hctl, List.length_cons]
        show 4 * s'.pending.length + 3 < _
        omega
  | passed b hd hdisc hp =>
    obtain ⟨pre, post, hpend, hskip⟩ := h.before hd
    rw [hp] at hpend
    cases pre with
    | nil =>
      have hb := (List.cons.inj hpend).1
      cases hb
    | cons p pre =>
      obtain ⟨-, hrest⟩ := List.cons.inj hpend
      refine ⟨⟨hcomp, hdisc ▸ h.unstopped, fun _ => ⟨pre, post, hrest, ?_⟩, fun hd' => ?_⟩, .inl ?_⟩
      · exact fun p hp => hskip p (List.mem_cons_of_mem _ hp)
      · exact absurd (hdisc ▸ hd) hd'
      · rw [stepsLeft, stepsLeft, hdisc, hp, List.length_cons]
        omega
  | run i el pc hpc hx hp =>
    have hctl := (ThreadObj.runStep_frame hx).1
    exact ⟨h.of_frame hcomp (h.unstopped.runStep hpc hx) hctl hp,
      .inr ⟨by simp, stepsLeft_of_frame hctl hp⟩⟩
  | other i el hdisc hp =>
    have hctl : (s'.objects .discovery).ctl = (s.objects .discovery).ctl := by rw [hdisc]
    exact ⟨h.of_frame hcomp (hdisc ▸ h.unstopped) hctl hp,
      .inr ⟨by simp, stepsLeft_of_frame hctl hp⟩⟩

/-- The controlling thread goes on, inside a call or with the next one. -/
theorem Components.enabled {s : ThreadMonitor} (h : Components s)
    (hgone : (s.objects .discovery).ctl ≠ .gone)
    (hstop : ∀ p ∈ s.pending, p.2 = .stop) (hopen : ¬ s.Returned) :
    Enabled ThreadMonitor.step (· = .ctl) s := by
  refine ⟨.ctl, rfl, ?_⟩
  by_cases hd : (s.objects .discovery).ctl = .idle
  · have hcurrent := h.current_none_iff.2 hd
    cases hp : s.pending with
    | nil => exact absurd ⟨hp, hcurrent⟩ hopen
    | cons p rest =>
      obtain ⟨t, b⟩ := p
      obtain rfl : b = .stop := hstop (t, b) (hp ▸ List.mem_cons_self)
      have hidle : (s.objects t).ctl = .idle := by
        cases t with
        | discovery => exact hd
        | configuration => exact h.untouched.ctl
      simp [ThreadMonitor.step, hcurrent, hp, on, ThreadObj.step, ThreadObj.call, hidle]
  · simp only [ThreadMonitor.step, h.current_some hd, on, ThreadObj.step, Option.isSome_map]
    rw [ThreadObj.ctlStep]
    cases hc : (s.objects .discovery).ctl with
    | idle => exact absurd hc hd
    | gone => exact absurd hc hgone
    | _ => rfl

theorem Underway.enabled {s : ThreadMonitor} (h : Underway s) :
    Enabled ThreadMonitor.step (· = .ctl) s := by
  refine h.components.enabled (fun hg => ?_) (fun p hp => ?_) h.not_returned
  · have hctl := h.unstopped.ctl
    rw [hg] at hctl
    cases hctl
  · by_cases hd : (s.objects .discovery).ctl = .idle
    · obtain ⟨pre, post, hpend, hskip⟩ := h.before hd
      rw [hpend] at hp
      rcases List.mem_append.1 hp with hp | hp
      · rw [hskip p (List.mem_append_left _ hp)]
      rcases List.mem_cons.1 hp with rfl | hp
      · rfl
      · rw [hskip p (List.mem_append_right _ hp)]
    · rw [h.inside hd p hp]

/-! ## After the store -/

/-- In `StopThreads` after the store, or back from it. -/
structure Finishing (s : ThreadMonitor) : Prop where
  components : Components s
  ending : (s.objects .discovery).Ending
  pending : ∀ p ∈ s.pending, IsSkip p

/-- `StopThreads` has returned, and the discovery thread is `Stopped`. -/
def Finished (s : ThreadMonitor) : Prop :=
  s.Returned ∧ (s.objects .discovery).state = .stopped

/-- In `StopThreads`, with nothing that will ever end its wait. -/
structure Hung (s : ThreadMonitor) : Prop where
  components : Components s
  lost : (s.objects .discovery).Lost

theorem Finishing.finished {s : ThreadMonitor} (h : Finishing s) (hr : s.Returned) :
    Finished s := by
  refine ⟨hr, ?_⟩
  have hd := h.components.current_none_iff.1 hr.2
  rcases h.ending.ctl with hc | hc | ⟨-, hst⟩
  · rw [hd] at hc
    cases hc
  · rw [hd] at hc
    cases hc
  · exact hst

theorem Finishing.step {s s' : ThreadMonitor} {a : MonitorAct} (h : Finishing s)
    (hopen : ¬ s.Returned) (hs : s.step a = some s') : Finishing s' ∧
      ((s.objects .discovery).ctl = .idle → (s'.objects .discovery).ctl = .idle ∧
        s'.pending.length ≤ s.pending.length ∧
        (a = .ctl → s'.pending.length < s.pending.length)) := by
  have hcomp := components_step h.components hs
  cases h.components.step_effect hs with
  | call c hr _ => exact absurd hr hopen
  | inside hd hx hp =>
    exact ⟨⟨hcomp, h.ending.ctlStep hx, hp ▸ h.pending⟩, fun hd' => absurd hd' hd⟩
  | made b _ _ hp =>
    have hb := h.pending (.discovery, b) (hp ▸ List.mem_cons_self)
    cases hb
  | passed b hd hdisc hp =>
    have hpend := h.pending
    rw [hp] at hpend
    refine ⟨⟨hcomp, hdisc ▸ h.ending, (List.forall_mem_cons.1 hpend).2⟩, fun hd => ?_⟩
    have hlt : s'.pending.length < s.pending.length := by
      rw [hp]
      exact Nat.lt_succ_self _
    exact ⟨hdisc ▸ hd, Nat.le_of_lt hlt, fun _ => hlt⟩
  | run i el pc hpc hx hp =>
    refine ⟨⟨hcomp, h.ending.runStep hpc hx, hp ▸ h.pending⟩, fun hd => ?_⟩
    exact ⟨(ThreadObj.runStep_frame hx).1.trans hd, by rw [hp], by simp⟩
  | other i el hdisc hp =>
    exact ⟨⟨hcomp, hdisc ▸ h.ending, hp ▸ h.pending⟩, fun hd => ⟨hdisc ▸ hd, by rw [hp], by simp⟩⟩

theorem Finishing.enabled {s : ThreadMonitor} (h : Finishing s) (hopen : ¬ s.Returned) :
    Enabled ThreadMonitor.step (· = .ctl) s := by
  refine h.components.enabled (fun hg => ?_) (fun p hp => by rw [h.pending p hp]) hopen
  rcases h.ending.ctl with hc | hc | ⟨hc, -⟩ <;> rw [hg] at hc <;> cases hc

theorem Hung.not_returned {s : ThreadMonitor} (h : Hung s) : ¬ s.Returned := by
  intro hr
  have hd := h.components.current_none_iff.1 hr.2
  rw [h.lost.ctl] at hd
  cases hd

theorem Hung.step {s s' : ThreadMonitor} {a : MonitorAct} (h : Hung s)
    (hs : s.step a = some s') : Hung s' := by
  have hcomp := components_step h.components hs
  have hwait : (s.objects .discovery).ctl ≠ .idle := by rw [h.lost.ctl]; decide
  cases h.components.step_effect hs with
  | call c hr _ => exact absurd hr h.not_returned
  | inside _ hx _ => exact ⟨hcomp, by rw [h.lost.ctlStep hx]; exact h.lost⟩
  | made b hd _ _ => exact absurd hd hwait
  | passed b hd _ _ => exact absurd hd hwait
  | run i el pc hpc hx _ => exact ⟨hcomp, h.lost.runStep hpc hx⟩
  | other i el hdisc _ => exact ⟨hcomp, hdisc ▸ h.lost⟩

/-- The state after the store. -/
theorem step_store {s s' : ThreadMonitor} (h : Components s)
    (hat : (s.objects .discovery).ctl = .storeStopping) (hs : s.step .ctl = some s') :
    s'.objects .discovery = (s.objects .discovery).request ∧ s'.pending = s.pending := by
  have hd : (s.objects .discovery).ctl ≠ .idle := by rw [hat]; decide
  cases h.step_effect hs with
  | inside _ hx hp =>
    rw [ThreadObj.ctlStep, hat] at hx
    exact ⟨(Option.some.inj hx).symm, hp⟩
  | made b hd' _ _ => exact absurd hd' hd
  | passed b hd' _ _ => exact absurd hd' hd

/-! ## Fair executions -/

/-- A step of the thread `i` that the object `t` started. -/
def IsRun (t : ThreadName) (i : Nat) (a : MonitorAct) : Prop := ∃ elapsed, a = .run t i elapsed

section
variable {e : Execution ThreadMonitor.step}

theorem components_at {first : ThreadName} (h0 : e.state 0 = init first) (n : Nat) :
    Components (e.state n) :=
  always_of_step (fun _ _ _ h hs => components_step h hs) (h0 ▸ components_init first) n
    (Nat.zero_le n)

/-- The discovery thread has the fairness of the monitor. -/
theorem fair_ctl (hcomp : ∀ n, Components (e.state n)) (hctl : e.Fair (· = .ctl)) :
    (e.view (object .discovery)).Fair (· = .ctl) := by
  have hcurrent : ∀ n, Enabled ThreadObj.step (· = .ctl) ((e.state n).objects .discovery) →
      (e.state n).current = some .discovery := by
    rintro n ⟨_, rfl, hs⟩
    refine (hcomp n).current_some fun hd => ?_
    rw [ThreadObj.step, ThreadObj.ctlStep, hd] at hs
    cases hs
  refine hctl.view (object .discovery) (fun n hen => ?_) fun n a hen ha _ => ?_
  · refine ⟨.ctl, rfl, ?_⟩
    simp only [step, hcurrent n hen, on, Option.isSome_map]
    obtain ⟨_, rfl, hs⟩ := hen
    exact hs
  · subst ha
    refine ⟨.ctl, ?_, rfl⟩
    simp only [object, actOf, hcurrent n hen, if_pos]

theorem fair_run {i : Nat} (hrun : e.Fair (IsRun .discovery i)) :
    (e.view (object .discovery)).Fair (ThreadObj.IsRun i) := by
  refine hrun.view (object .discovery) ?_ ?_
  · rintro n ⟨_, ⟨elapsed, rfl⟩, hs⟩
    exact ⟨.run .discovery i elapsed, ⟨elapsed, rfl⟩, by rw [step, on, Option.isSome_map]; exact hs⟩
  · rintro n _ - ⟨elapsed, rfl⟩ -
    exact ⟨.run i elapsed, by simp only [object, actOf, if_pos], elapsed, rfl⟩

/-- The calls that are left are made. -/
theorem pending_leadsTo (hctl : e.Fair (· = .ctl)) :
    e.LeadsTo (fun s => (Finishing s ∧ ¬ s.Returned) ∧ (s.objects .discovery).ctl = .idle)
      Finished := by
  have hstep : ∀ s a s', (Finishing s ∧ ¬ s.Returned) ∧ (s.objects .discovery).ctl = .idle →
      step s a = some s' → ((((Finishing s' ∧ ¬ s'.Returned) ∧
        (s'.objects .discovery).ctl = .idle) ∧ s'.pending.length ≤ s.pending.length ∧
        (a = .ctl → s'.pending.length < s.pending.length)) ∨ Finished s') := by
    rintro s a s' ⟨⟨h, hopen⟩, hd⟩ hs
    obtain ⟨h', hframe⟩ := h.step hopen hs
    obtain ⟨hd', hle⟩ := hframe hd
    by_cases hr : s'.Returned
    · exact .inr (h'.finished hr)
    · exact .inl ⟨⟨⟨h', hr⟩, hd'⟩, hle⟩
  refine leadsTo_of_rank (fun s => s.pending.length) hctl (fun s h => h.1.1.enabled h.1.2) ?_ ?_
  · exact fun s a s' h hs => (hstep s a s' h hs).imp_left fun ⟨h', hle, _⟩ => ⟨h', hle⟩
  · exact fun s a s' h ha hs => (hstep s a s' h hs).imp_left fun ⟨h', _, hlt⟩ => ⟨h', hlt ha⟩

/-- When `Stop` of the discovery thread returns, `StopThreads` does. -/
theorem exists_finished (hctl : e.Fair (· = .ctl)) {k : Nat} (hfin : Finishing (e.state k))
    (hret : ∃ m, k ≤ m ∧ ((e.state m).objects .discovery).StopReturned) :
    ∃ m, k ≤ m ∧ (e.state m).Finished := by
  by_contra hno
  have hno : ∀ m, k ≤ m → ¬ (e.state m).Finished := fun m hm hf => hno ⟨m, hm, hf⟩
  have hopen : ∀ m, k ≤ m → Finishing (e.state m) ∧ ¬ (e.state m).Returned := by
    refine until_of_step (P := fun s => Finishing s ∧ ¬ s.Returned) ?_
      ⟨hfin, fun hr => hno k (Nat.le_refl k) (hfin.finished hr)⟩ hno
    rintro s a s' ⟨h, hopen⟩ hs
    have h' := (h.step hopen hs).1
    by_cases hr : s'.Returned
    · exact .inr (h'.finished hr)
    · exact .inl ⟨h', hr⟩
  obtain ⟨m, hm, hctlm, -⟩ := hret
  have hidle : ((e.state m).objects .discovery).ctl = .idle := by
    refine hctlm.resolve_right fun hc => ?_
    rcases (hopen m hm).1.ending.ctl with h | h | ⟨h, -⟩ <;> rw [hc] at h <;> cases h
  obtain ⟨m', hm', hf⟩ := pending_leadsTo hctl m ⟨hopen m hm, hidle⟩
  exact hno m' (hm.trans hm') hf

/-- **When `StopThreads` returns**: its first call comes to store `Stopping` in the discovery
thread. If every started `Run` has made its first store by then, the call returns with the thread
`Stopped`; if none of those started has, it never returns. -/
theorem stopThreads_returns {first : ThreadName} (h0 : e.state 0 = init first)
    (hctl : e.Fair (· = .ctl)) (hrun : ∀ i, e.Fair (IsRun .discovery i)) {n : Nat}
    (hcall : e.event n = some (.call .stopThreads))
    (hfirst : ∀ k < n, e.event k ≠ some (.call .stopThreads)) :
    ∃ k, n < k ∧ e.event k = some .ctl ∧ ((e.state k).objects .discovery).ctl = .storeStopping ∧
      (∀ j, n < j → j ≤ k → ¬ (e.state j).Returned) ∧
      ((∀ pc ∈ ((e.state k).objects .discovery).runs, pc.begun = true) →
        ∃ m, k < m ∧ (e.state m).Finished) ∧
      (((e.state k).objects .discovery).runs ≠ [] →
        (∀ pc ∈ ((e.state k).objects .discovery).runs, pc.begun = false) →
          ∀ m, n < m → ¬ (e.state m).Returned) := by
  have hcomp := components_at h0
  obtain ⟨as, has⟩ : ∃ as, Run step anyStep (e.state 0) as (e.state n) :=
    exists_run n fun _ _ _ _ => trivial
  obtain ⟨bs, hbs⟩ : ∃ bs, Run step (fun _ a => a ≠ .call .stopThreads) (e.state 0) bs (e.state n) :=
    exists_run n fun k hk a hev hc => hfirst k hk (hc ▸ hev)
  rw [h0] at has hbs
  have hfresh : Fresh (e.state n) :=
    hbs.inv (fun _ _ _ h ha hs => h.step ha hs) (fresh_init first)
  have hunder := hfresh.underway (threadMap_of_run has) (e.next n _ hcall)
  -- the steps up to the store
  obtain ⟨k, a, hk, hev, ⟨rfl, hat⟩, hbefore⟩ :=
    exists_event_of_rank (T := Stores) stepsLeft hctl (fun _ h => h.enabled)
      (fun _ _ _ h hT hs => ⟨(h.step hT hs).1, (h.step hT hs).2.1⟩)
      (fun _ _ _ h hT ha hs => (h.step hT hs).2.2 ha) hunder
  have huk := hbefore k hk (Nat.le_refl k)
  obtain ⟨hdisc, hp⟩ := step_store huk.components hat (e.next k .ctl hev)
  have hinside : ((e.state k).objects .discovery).ctl ≠ .idle := by
    rw [hat]
    decide
  refine ⟨k, hk, hev, hat, fun j hj hj' => (hbefore j hj hj').not_returned, fun hb => ?_,
    fun hne hb m hm => ?_⟩
  · have hfin : Finishing (e.state (k + 1)) :=
      ⟨hcomp (k + 1), hdisc ▸ huk.unstopped.ending_request hb, hp ▸ huk.inside hinside⟩
    have hevent : (e.view (object .discovery)).event k = some .ctl := by
      show (e.event k).bind _ = _
      rw [hev]
      show actOf .discovery (e.state k) .ctl = _
      simp only [actOf, huk.components.current_some hinside, if_pos]
    exact exists_finished hctl hfin (ThreadObj.exists_stopReturned (fair_ctl hcomp hctl)
      (fun i => fair_run (hrun i)) hevent hat hb (huk.unstopped.inLoop hb))
  · by_cases hmk : m ≤ k
    · exact (hbefore m hm hmk).not_returned
    · have hhung : Hung (e.state (k + 1)) :=
        ⟨hcomp (k + 1), hdisc ▸ huk.unstopped.lost_request hne hb⟩
      exact (always_of_step (fun _ _ _ h hs => Hung.step h hs) hhung m
        (Nat.lt_of_not_le hmk)).not_returned

end

/-- Both threads started, and the discovery thread in its loop. -/
theorem stopThreads_returns_started : ∃ (e : Execution step) (m : Nat),
    e.state 0 = init .discovery ∧ e.event 9 = some (.call .stopThreads) ∧ 9 < m ∧
      (e.state m).Finished := by
  have hrun : Run step anyStep (init .discovery) startedRun _ := .of_steps rfl
  have hctl : (ofRun hrun).Fair (· = .ctl) := by
    refine fair_ofRun hrun ?_
    rintro ⟨_, rfl, hs⟩
    cases hs
  have hruns : ∀ i, (ofRun hrun).Fair (IsRun .discovery i) := by
    intro i
    refine fair_ofRun hrun ?_
    rintro ⟨_, ⟨elapsed, rfl⟩, hs⟩
    cases i <;> cases hs
  have hbegun : ∀ k < startedRun.length, 9 < k →
      ((statesOf step (init .discovery) startedRun k).objects .discovery).runs.all RunPc.begun =
        true := by decide
  have hfirst : ∀ k < 9, startedRun[k]? ≠ some (.call .stopThreads) := by decide
  have h0 : (ofRun hrun).state 0 = init .discovery := rfl
  obtain ⟨k, hk, hev, -, -, hret, -⟩ :=
    stopThreads_returns h0 hctl hruns (n := 9) rfl hfirst
  obtain ⟨m, hm, hf⟩ := hret
    (List.all_eq_true.1 (hbegun k (List.getElem?_eq_some_iff.1 hev).1 hk))
  exact ⟨ofRun hrun, m, rfl, rfl, hk.trans hm, hf⟩

end ThreadMonitor
