import Graviton.Base.Thread

/-!
# Stopping a thread

What a stop request is worth, over every run of a thread object (`ThreadObj.step`):

* `stop_kept`: no store of `Running` or `Paused` comes between the store of `Stopping` and the
  next store of `Stopped`, in every run where `Thread::Stop` stores `Stopping` only after every
  started `Run` has made its first store (`BegunAtStop`).
* `stop_answered`: `Thread::Stop` never waits for a thread whose `Run` has returned, in every
  run where it stores `Stopping` on a started thread only while the newest `Run` is one that
  will store `Stopped` (`AnsweredAtStop`).

Both conditions are about the state `Thread::Stop` finds. A run that comes to a state where one
of them fails can go wrong from there: `stop_lost_of_not_begunAtStop`,
`hung_of_not_answeredAtStop`.
-/

open Lib

/-! ## The history of stores -/

/-- Every `Stopping` is followed by a `Stopped` before the next `Running` or `Paused`. -/
def StopKept (l : List ThreadState) : Prop :=
  ∀ pre mid post v, l = pre ++ .stopping :: (mid ++ v :: post) → v = .running ∨ v = .paused →
    .stopped ∈ mid

def pendingStep (p : Bool) (v : ThreadState) : Bool :=
  if v = .stopping then true else if v = .stopped then false else p

/-- A stop request is open: `Stopping` was stored and `Stopped` was not stored since. -/
def stopPending (l : List ThreadState) : Bool := l.foldl pendingStep false

@[simp] theorem stopPending_append (l : List ThreadState) (v : ThreadState) :
    stopPending (l ++ [v]) = pendingStep (stopPending l) v := by
  simp [stopPending, List.foldl_append]

theorem pending_foldl {mid : List ThreadState} (h : .stopped ∉ mid) :
    mid.foldl pendingStep true = true := by
  induction mid with
  | nil => rfl
  | cons v mid ih =>
    simp only [List.mem_cons, not_or] at h
    rw [List.foldl_cons, show pendingStep true v = true by
      rw [pendingStep, if_neg (Ne.symm h.1)]; simp]
    exact ih h.2

theorem stopPending_of_not_mem {pre mid : List ThreadState} (h : .stopped ∉ mid) :
    stopPending (pre ++ .stopping :: mid) = true := by
  rw [stopPending, List.foldl_append, List.foldl_cons]
  exact pending_foldl h

theorem stopKept_nil : StopKept [] := by
  intro pre mid post v h
  simp at h

/-- A further store keeps the property, unless it is a `Running` or `Paused` while a request is
open. -/
theorem StopKept.append {l : List ThreadState} {v : ThreadState} (h : StopKept l)
    (hv : stopPending l = true → v ≠ .running ∧ v ≠ .paused) : StopKept (l ++ [v]) := by
  intro pre mid post w hl hw
  rcases post.eq_nil_or_concat with rfl | ⟨post, x, rfl⟩
  · rw [← List.cons_append, ← List.append_assoc] at hl
    obtain ⟨rfl, hx⟩ := List.append_inj' hl rfl
    obtain rfl : v = w := by simpa using hx
    by_contra hn
    have := hv (stopPending_of_not_mem hn)
    rcases hw with hw | hw
    · exact this.1 hw
    · exact this.2 hw
  · have hl' : l ++ [v] = (pre ++ .stopping :: (mid ++ w :: post)) ++ [x] := by simp [hl]
    exact h pre mid post w (List.append_inj' hl' rfl).1 hw

/-! ## What a step can do -/

namespace ThreadObj

/-- What a call does at once: nothing, a store of `Initialized`, `Paused` or `Running`, a new
thread, or the entry of `Thread::Stop`. -/
inductive CallEffect (s : ThreadObj) : ThreadObj → Prop
  | skip : CallEffect s s
  | store (v : ThreadState) : v = .initialized ∨ v = .paused ∨ v = .running →
      CallEffect s (s.store v)
  | start : CallEffect s s.start
  | stop (d : Bool) : (if d then ThreadKind.thread else s.kind) ≠ .configuration →
      CallEffect s { s with ctl := .testStopped, inDtor := d }

theorem initializeThread_effect (s : ThreadObj) : CallEffect s s.initializeThread := by
  unfold initializeThread
  split
  · exact .store _ (.inl rfl)
  · exact .store _ (.inl rfl)
  · exact .skip

theorem pause_effect (s : ThreadObj) : CallEffect s s.pause := by
  unfold pause
  split
  · exact .store _ (.inr (.inl rfl))
  · exact .store _ (.inr (.inl rfl))
  · exact .skip

theorem resume_effect (s : ThreadObj) : CallEffect s s.resume := by
  unfold resume
  split
  · exact .store _ (.inr (.inr rfl))
  · exact .store _ (.inr (.inr rfl))
  · exact .skip

theorem stop_effect (s : ThreadObj) : CallEffect s s.stop := by
  unfold stop
  split
  · rename_i hk
    exact .stop s.inDtor (by rw [hk]; split <;> decide)
  · rename_i hk
    exact .stop s.inDtor (by rw [hk]; split <;> decide)
  · exact .skip

theorem call_some {s s' : ThreadObj} {f : ThreadObj → ThreadObj} (h : s.call f = some s') :
    s.ctl = .idle ∧ s' = f s := by
  unfold call at h
  split at h
  · exact ⟨‹_›, (Option.some.inj h).symm⟩
  · cases h

/-- **What a step can do**: a call between two calls, a step inside `Thread::Stop` or
`~Thread`, or a step of a started thread. -/
theorem step_cases {s s' : ThreadObj} {a : ThreadAct} (h : s.step a = some s') :
    (s.ctl = .idle ∧ CallEffect s s') ∨ (a = .ctl ∧ s.ctlStep = some s') ∨
      ∃ i e pc, s.runs[i]? = some pc ∧ s.runStep i e pc = some s' := by
  cases a with
  | initializeThread =>
    obtain ⟨hi, rfl⟩ := call_some h
    exact .inl ⟨hi, initializeThread_effect s⟩
  | start => obtain ⟨hi, rfl⟩ := call_some h; exact .inl ⟨hi, .start⟩
  | pause => obtain ⟨hi, rfl⟩ := call_some h; exact .inl ⟨hi, pause_effect s⟩
  | resume => obtain ⟨hi, rfl⟩ := call_some h; exact .inl ⟨hi, resume_effect s⟩
  | stop => obtain ⟨hi, rfl⟩ := call_some h; exact .inl ⟨hi, stop_effect s⟩
  | destroy => obtain ⟨hi, rfl⟩ := call_some h; exact .inl ⟨hi, .stop true nofun⟩
  | ctl => exact .inr (.inl ⟨rfl, h⟩)
  | run i e =>
    obtain ⟨pc, hpc, hs⟩ := Option.bind_eq_some_iff.1 h
    exact .inr (.inr ⟨i, e, pc, hpc, hs⟩)

theorem step_request {s : ThreadObj} (hc : s.ctl = .storeStopping) :
    s.step .ctl = some s.request := by
  simp [step, ctlStep, hc]

theorem step_run {s : ThreadObj} {i : Nat} {pc : RunPc} (e : Bool) (h : s.runs[i]? = some pc) :
    s.step (.run i e) = s.runStep i e pc := by
  simp [step, h]

theorem runs_goto {s : ThreadObj} {i : Nat} {pc : RunPc} (h : s.runs[i]? = some pc)
    (pc' : RunPc) : (s.goto i pc').runs[i]? = some pc' := by
  have hi := (List.getElem?_eq_some_iff.1 h).1
  simp [goto, hi]

/-- Within a call, the class of the object is not changed. -/
theorem ctlStep_frame {s s' : ThreadObj} (h : s.ctlStep = some s') :
    s'.kind = s.kind ∧ s'.dynamicKind = s.dynamicKind := by
  unfold ctlStep at h
  cases hc : s.ctl <;> simp only [hc, Option.some.injEq, reduceCtorEq] at h <;> subst h
  case testStopped => split <;> exact ⟨rfl, rfl⟩
  case testStopping => split <;> exact ⟨rfl, rfl⟩
  case waitStopped => split <;> exact ⟨rfl, rfl⟩
  all_goals exact ⟨rfl, rfl⟩

/-- Nor does a started thread change it, or the call. -/
theorem runStep_frame {s s' : ThreadObj} {i : Nat} {e : Bool} {pc : RunPc}
    (h : s.runStep i e pc = some s') :
    s'.ctl = s.ctl ∧ s'.kind = s.kind ∧ s'.dynamicKind = s.dynamicKind := by
  cases pc <;> simp only [runStep, Option.some.injEq, reduceCtorEq] at h <;> subst h <;>
    exact ⟨rfl, rfl, rfl⟩

/-- Inside `Thread::Stop` the object is of a class that has it, or is one in `~Thread`. -/
theorem dynamicKind_of_run {k : ThreadKind} {as : List ThreadAct} {s : ThreadObj}
    (h : Run step anyStep (init k) as s) (hc : s.ctl ≠ .idle) :
    s.dynamicKind ≠ .configuration := by
  have hinv : s.ctl = .idle ∨ s.dynamicKind ≠ .configuration := by
    refine h.inv (P := fun s => s.ctl = .idle ∨ s.dynamicKind ≠ .configuration) ?_ (.inl rfl)
    intro s a s' hi _ hs
    rcases step_cases hs with ⟨hidle, he⟩ | ⟨-, hs⟩ | ⟨i, e, pc, -, hs⟩
    · cases he with
      | skip => exact .inl hidle
      | store v _ => exact .inl hidle
      | start => exact .inl hidle
      | stop d hd => exact .inr hd
    · rw [(ctlStep_frame hs).2]
      refine .inr (hi.resolve_left fun hidle => ?_)
      rw [ctlStep, hidle] at hs
      cases hs
    · obtain ⟨hctl, -, hkind⟩ := runStep_frame hs
      rw [hctl, hkind]
      exact hi
  exact hinv.resolve_left hc

end ThreadObj

/-- The thread has made the first store of its `Run`. -/
def RunPc.begun : RunPc → Bool
  | .spawned | .threadRun | .runBegin => false
  | .loopTest | .loopBody | .runEnd | .returned => true

namespace ThreadObj

/-- A started thread that has not made its first store can make it: it stores `Running`,
whatever `m_state` is. -/
theorem reach_firstStore {s : ThreadObj} {i : Nat} {pc : RunPc} (hi : s.runs[i]? = some pc)
    (hb : pc.begun = false) (hk : s.dynamicKind ≠ .configuration) :
    ∃ pc', Reach step (· = (s.store .running).goto i pc') s := by
  cases pc with
  | threadRun => exact ⟨.returned, .next (step_run false hi) (.here rfl)⟩
  | runBegin => exact ⟨.loopTest, .next (step_run false hi) (.here rfl)⟩
  | spawned =>
    have hcall : s.step (.run i false) = some (s.goto i (runEntry s.dynamicKind)) :=
      step_run false hi
    cases hd : s.dynamicKind with
    | thread =>
      rw [hd] at hcall
      exact ⟨.returned, .next hcall (.next (step_run false (runs_goto hi _))
        (.here (by simp [goto, store])))⟩
    | discovery =>
      rw [hd] at hcall
      exact ⟨.loopTest, .next hcall (.next (step_run false (runs_goto hi _))
        (.here (by simp [goto, store])))⟩
    | configuration => exact absurd hd hk
  | loopTest => cases hb
  | loopBody => cases hb
  | runEnd => cases hb
  | returned => cases hb

/-! ## A stop request is kept -/

/-- `Thread::Stop` stores `Stopping` only when every started `Run` has made its first store. -/
def BegunAtStop (s : ThreadObj) (a : ThreadAct) : Prop :=
  a = .ctl → s.ctl = .storeStopping → ∀ pc ∈ s.runs, pc.begun = true

instance (s : ThreadObj) (a : ThreadAct) : Decidable (s.BegunAtStop a) := by
  unfold BegunAtStop; infer_instance

/-- While a request is open the controlling thread is waiting for it, and no started thread
has its first store still before it. -/
structure StopInv (s : ThreadObj) : Prop where
  kept : StopKept s.stores
  waits : stopPending s.stores = true → s.ctl = .waitStopped ∨ s.ctl = .storeStopped
  begun : stopPending s.stores = true → ∀ pc ∈ s.runs, pc.begun = true

theorem StopInv.init (k : ThreadKind) : StopInv (init k) :=
  ⟨stopKept_nil, nofun, nofun⟩

/-- No request is open between two calls, inside the tests of `Stop` or at the end of
`~Thread`. -/
theorem StopInv.not_pending {s : ThreadObj} (h : StopInv s) (h1 : s.ctl ≠ .waitStopped)
    (h2 : s.ctl ≠ .storeStopped) : stopPending s.stores = false := by
  rw [← Bool.not_eq_true]
  intro hp
  rcases h.waits hp with h' | h'
  · exact h1 h'
  · exact h2 h'

theorem StopInv.store_of_not_pending {s t : ThreadObj} {v : ThreadState} (h : StopInv s)
    (hp : stopPending s.stores = false) (hv : v ≠ .stopping) (ht : t.stores = s.stores ++ [v]) :
    StopInv t := by
  have hn : stopPending t.stores = false := by
    rw [ht, stopPending_append, pendingStep, hp]
    simp [hv]
  refine ⟨?_, fun h => by simp [hn] at h, fun h => by simp [hn] at h⟩
  rw [ht]
  exact h.kept.append fun h => by simp [hp] at h

theorem StopInv.store_stopped {s t : ThreadObj} (h : StopInv s)
    (ht : t.stores = s.stores ++ [.stopped]) : StopInv t := by
  have hn : stopPending t.stores = false := by rw [ht, stopPending_append]; rfl
  refine ⟨?_, fun h => by simp [hn] at h, fun h => by simp [hn] at h⟩
  rw [ht]
  exact h.kept.append fun _ => by decide

theorem StopInv.of_not_pending {s t : ThreadObj} (h : StopInv s)
    (hp : stopPending s.stores = false) (ht : t.stores = s.stores) : StopInv t := by
  have hn : stopPending t.stores = false := ht ▸ hp
  exact ⟨ht ▸ h.kept, fun h => by simp [hn] at h, fun h => by simp [hn] at h⟩

theorem stopInv_ctl {s s' : ThreadObj} (h : StopInv s) (hok : s.BegunAtStop .ctl)
    (hs : s.ctlStep = some s') : StopInv s' := by
  unfold ctlStep at hs
  cases hc : s.ctl <;> simp only [hc, Option.some.injEq, reduceCtorEq] at hs
  case testStopped =>
    refine h.of_not_pending (h.not_pending (by simp [hc]) (by simp [hc])) ?_
    subst hs; split <;> rfl
  case testStopping =>
    refine h.of_not_pending (h.not_pending (by simp [hc]) (by simp [hc])) ?_
    subst hs; split <;> rfl
  case storeStopping =>
    subst hs
    refine ⟨h.kept.append fun _ => by decide, fun _ => ?_, fun _ => hok rfl hc⟩
    simp only [request]
    split <;> simp
  case waitStopped =>
    subst hs
    split
    · exact h
    · exact ⟨h.kept, fun _ => .inr rfl, h.begun⟩
  case storeStopped =>
    subst hs
    exact h.store_stopped rfl
  case storeDestroyed =>
    subst hs
    exact h.store_of_not_pending (h.not_pending (by simp [hc]) (by simp [hc])) (by decide) rfl

theorem stopInv_run {s s' : ThreadObj} {i : Nat} {e : Bool} {pc : RunPc} (h : StopInv s)
    (hpc : s.runs[i]? = some pc) (hs : s.runStep i e pc = some s') : StopInv s' := by
  have hmem : pc ∈ s.runs := List.mem_of_getElem? hpc
  -- a thread that has not made its first store runs only while no request is open
  have hnp : pc.begun = false → stopPending s.stores = false := by
    intro hb
    rw [← Bool.not_eq_true]
    intro hp
    rw [h.begun hp pc hmem] at hb
    cases hb
  have hset : ∀ pc', pc'.begun = true → stopPending s.stores = true →
      ∀ q ∈ s.runs.set i pc', q.begun = true := by
    intro pc' hb hp q hq
    rcases List.mem_or_eq_of_mem_set hq with hq | rfl
    · exact h.begun hp q hq
    · exact hb
  cases pc <;> simp only [runStep, Option.some.injEq, reduceCtorEq] at hs <;> subst hs
  case spawned => exact h.of_not_pending (hnp rfl) rfl
  case threadRun => exact h.store_of_not_pending (hnp rfl) (by decide) rfl
  case runBegin => exact h.store_of_not_pending (hnp rfl) (by decide) rfl
  case loopTest =>
    refine ⟨h.kept, h.waits, fun hp => hset _ ?_ hp⟩
    split <;> rfl
  case loopBody => exact ⟨h.kept, h.waits, hset _ rfl⟩
  case runEnd => exact h.store_stopped rfl

theorem stopInv_step (s : ThreadObj) (a : ThreadAct) (s' : ThreadObj) (h : StopInv s)
    (hok : s.BegunAtStop a) (hs : s.step a = some s') : StopInv s' := by
  rcases step_cases hs with ⟨hi, he⟩ | ⟨rfl, hs⟩ | ⟨i, e, pc, hpc, hs⟩
  · have hp := h.not_pending (by simp [hi]) (by simp [hi])
    cases he with
    | skip => exact h
    | store v hv =>
      exact h.store_of_not_pending hp (by rcases hv with rfl | rfl | rfl <;> decide) rfl
    | start => exact h.of_not_pending hp rfl
    | stop d _ => exact h.of_not_pending hp rfl
  · exact stopInv_ctl h hok hs
  · exact stopInv_run h hpc hs

/-- **A stop request is kept**, in every run where `Thread::Stop` stores `Stopping` only after
every started `Run` has made its first store. -/
theorem stop_kept {k : ThreadKind} {as : List ThreadAct} {s : ThreadObj}
    (h : Run step BegunAtStop (init k) as s) : StopKept s.stores :=
  (h.inv stopInv_step (StopInv.init k)).kept

/-- A discovery thread stopped after `RunBegin`, answered by `RunEnd` and resumed later. -/
def stoppedRun : List ThreadAct :=
  [.start, .run 0 false, .run 0 false, .stop, .ctl, .ctl, .ctl, .run 0 false, .run 0 false, .ctl,
    .ctl, .resume]

theorem stop_kept_stoppedRun : ∃ s, Run step BegunAtStop (init .discovery) stoppedRun s ∧
    StopKept s.stores :=
  have h : Run step BegunAtStop (init .discovery) stoppedRun _ := .of_steps rfl
  ⟨_, h, stop_kept h⟩

/-- `Stop` between `Start` and `RunBegin`: `RunBegin` stores `Running` over the request. -/
theorem stop_not_kept : ∃ s, Run step anyStep (init .discovery)
      [.start, .stop, .ctl, .ctl, .ctl, .run 0 false, .run 0 false] s ∧
    ¬ StopKept s.stores := by
  refine ⟨_, .of_steps rfl, fun h => ?_⟩
  exact absurd (h [] [] [] .running rfl (.inl rfl)) List.not_mem_nil

/-- A run that comes to a store of `Stopping` with a started `Run` before its first store can
go on to lose the request. -/
theorem stop_lost_of_not_begunAtStop {k : ThreadKind} {as : List ThreadAct} {s : ThreadObj}
    {a : ThreadAct} (h : Run step anyStep (init k) as s) (hn : ¬ s.BegunAtStop a) :
    Reach step (fun t => ¬ StopKept t.stores) s := by
  simp only [BegunAtStop, Classical.not_imp, not_forall, Bool.not_eq_true] at hn
  obtain ⟨-, hc, pc, hpc, hb⟩ := hn
  obtain ⟨i, hi⟩ := List.getElem?_of_mem hpc
  have hk := dynamicKind_of_run h (by simp [hc])
  obtain ⟨pc', hr⟩ := reach_firstStore (s := s.request) hi hb hk
  refine .next (step_request hc) (hr.bind fun t ht => .here fun hkept => ?_)
  exact absurd (hkept s.stores [] [] .running (by simp [ht, goto, store, request]) (.inl rfl))
    List.not_mem_nil

/-! ## A stop request is answered -/

/-- The started thread will store `Stopped`: it is in `DiscoveryThread::Run`, or will call it. -/
def answers (k : ThreadKind) : RunPc → Bool
  | .runBegin | .loopTest | .loopBody | .runEnd => true
  | .spawned => k = .discovery
  | .threadRun | .returned => false

/-- `Thread::Stop` stores `Stopping` on a started thread only when the newest `Run` will store
`Stopped` and the earlier ones have made their first store. -/
def AnsweredAtStop (s : ThreadObj) (a : ThreadAct) : Prop :=
  a = .ctl → s.ctl = .storeStopping →
    (∀ pc ∈ s.runs.head?, answers s.dynamicKind pc = true) ∧ ∀ pc ∈ s.runs.tail, pc.begun = true

instance (s : ThreadObj) (a : ThreadAct) : Decidable (s.AnsweredAtStop a) := by
  unfold AnsweredAtStop; infer_instance

/-- `Thread::Stop` waits for `Stopped`, and the `Run` of `m_thread` has returned. -/
structure Hung (s : ThreadObj) : Prop where
  waits : s.ctl = .waitStopped
  unanswered : s.state ≠ .stopped
  returned : s.runs.head? = some .returned

/-- While `Thread::Stop` waits, the newest `Run` will store `Stopped`, or it has and nothing
was stored over it. -/
def WaitInv (s : ThreadObj) : Prop :=
  s.ctl = .waitStopped → ∃ pc pcs, s.runs = pc :: pcs ∧ (∀ q ∈ pcs, q.begun = true) ∧
    (answers s.dynamicKind pc = true ∨ pc = .returned ∧ s.state = .stopped)

theorem WaitInv.not_hung {s : ThreadObj} (h : WaitInv s) : ¬ s.Hung := by
  rintro ⟨hc, hne, hr⟩
  obtain ⟨pc, pcs, hruns, -, ha⟩ := h hc
  obtain rfl : pc = .returned := by simpa [hruns] using hr
  rcases ha with ha | ⟨-, hs⟩
  · cases ha
  · exact hne hs

theorem WaitInv.of_ctl_ne {s : ThreadObj} (h : s.ctl ≠ .waitStopped) : WaitInv s :=
  fun hw => absurd hw h

theorem stopReturn_ctl_ne (s : ThreadObj) : s.stopReturn.ctl ≠ .waitStopped := by
  simp only [stopReturn]
  split <;> decide

theorem waitInv_ctl {s s' : ThreadObj} (h : WaitInv s) (hok : s.AnsweredAtStop .ctl)
    (hs : s.ctlStep = some s') : WaitInv s' := by
  unfold ctlStep at hs
  cases hc : s.ctl <;> simp only [hc, Option.some.injEq, reduceCtorEq] at hs <;> subst hs
  case testStopped =>
    split
    · exact .of_ctl_ne (by simp)
    · exact .of_ctl_ne (stopReturn_ctl_ne s)
  case testStopping =>
    split
    · exact .of_ctl_ne (by simp)
    · exact .of_ctl_ne (stopReturn_ctl_ne s)
  case storeStopping =>
    intro hw
    obtain ⟨hhead, htail⟩ := hok rfl hc
    cases hr : s.runs with
    | nil => simp [request, hr] at hw
    | cons pc pcs =>
      rw [hr] at hhead htail
      exact ⟨pc, pcs, hr, htail, .inl (hhead pc rfl)⟩
  case waitStopped =>
    split
    · exact h
    · exact .of_ctl_ne (by simp)
  case storeStopped => exact .of_ctl_ne (stopReturn_ctl_ne _)
  case storeDestroyed => exact .of_ctl_ne (by simp)

/-- The newest `Run` moves on: it still answers, or it has stored `Stopped`. -/
theorem answers_runStep {s s' : ThreadObj} {e : Bool} {pc : RunPc} {pcs : List RunPc}
    (hr : s.runs = pc :: pcs) (ha : answers s.dynamicKind pc = true)
    (hs : s.runStep 0 e pc = some s') :
    s'.dynamicKind = s.dynamicKind ∧ ∃ pc', s'.runs = pc' :: pcs ∧
      (answers s.dynamicKind pc' = true ∨ pc' = .returned ∧ s'.state = .stopped) := by
  cases pc <;> simp only [runStep, Option.some.injEq, reduceCtorEq] at hs
  case threadRun => cases ha
  all_goals subst hs
  case spawned =>
    have hk : s.dynamicKind = .discovery := by simpa [answers] using ha
    exact ⟨rfl, .runBegin, by simp [goto, hr, hk, runEntry], .inl rfl⟩
  case runBegin => exact ⟨rfl, .loopTest, by simp [goto, store, hr], .inl rfl⟩
  case loopTest =>
    refine ⟨rfl, _, by simp only [goto, hr, List.set_cons_zero]; rfl, .inl ?_⟩
    split <;> rfl
  case loopBody => exact ⟨rfl, .loopTest, by simp [goto, hr], .inl rfl⟩
  case runEnd => exact ⟨rfl, .returned, by simp [goto, store, hr], .inr ⟨rfl, rfl⟩⟩

/-- An earlier `Run` past its first store moves on: all it may store is `Stopped`. -/
theorem begun_runStep {s s' : ThreadObj} {i : Nat} {e : Bool} {pc : RunPc}
    (hb : pc.begun = true) (hs : s.runStep i e pc = some s') :
    s'.dynamicKind = s.dynamicKind ∧ (s'.state = s.state ∨ s'.state = .stopped) ∧
      ∃ pc', s'.runs = s.runs.set i pc' ∧ pc'.begun = true := by
  cases pc <;> simp only [runStep, Option.some.injEq, reduceCtorEq] at hs
  case spawned => cases hb
  case threadRun => cases hb
  case runBegin => cases hb
  all_goals subst hs
  case loopTest =>
    refine ⟨rfl, .inl rfl, _, rfl, ?_⟩
    split <;> rfl
  case loopBody => exact ⟨rfl, .inl rfl, _, rfl, rfl⟩
  case runEnd => exact ⟨rfl, .inr rfl, _, rfl, rfl⟩

theorem waitInv_run {s s' : ThreadObj} {i : Nat} {e : Bool} {pc : RunPc} (h : WaitInv s)
    (hpc : s.runs[i]? = some pc) (hs : s.runStep i e pc = some s') : WaitInv s' := by
  intro hw
  rw [(runStep_frame hs).1] at hw
  obtain ⟨pc0, pcs, hr, hb, ha⟩ := h hw
  cases i with
  | zero =>
    obtain rfl : pc0 = pc := by simpa [hr] using hpc
    rcases ha with ha | ⟨rfl, -⟩
    · obtain ⟨hk, pc', hr', ha'⟩ := answers_runStep hr ha hs
      exact ⟨pc', pcs, hr', hb, hk ▸ ha'⟩
    · cases hs
  | succ j =>
    have hj : pcs[j]? = some pc := by simpa [hr] using hpc
    obtain ⟨hk, hst, pc', hr', hb'⟩ := begun_runStep (hb pc (List.mem_of_getElem? hj)) hs
    refine ⟨pc0, pcs.set j pc', by rw [hr', hr]; rfl, fun q hq => ?_, ?_⟩
    · rcases List.mem_or_eq_of_mem_set hq with hq | rfl
      · exact hb q hq
      · exact hb'
    · rw [hk]
      refine ha.imp_right fun ⟨hret, hs0⟩ => ⟨hret, ?_⟩
      rcases hst with hst | hst
      · rw [hst, hs0]
      · exact hst

theorem waitInv_step (s : ThreadObj) (a : ThreadAct) (s' : ThreadObj) (h : WaitInv s)
    (hok : s.AnsweredAtStop a) (hs : s.step a = some s') : WaitInv s' := by
  rcases step_cases hs with ⟨hi, he⟩ | ⟨rfl, hs⟩ | ⟨i, e, pc, hpc, hs⟩
  · refine .of_ctl_ne ?_
    cases he with
    | skip => simp [hi]
    | store v hv => simp [store, hi]
    | start => simp [start, hi]
    | stop d _ => simp
  · exact waitInv_ctl h hok hs
  · exact waitInv_run h hpc hs

/-- **A waiting stop is answered**, in every run where `Thread::Stop` stores `Stopping` on a
started thread only while the newest `Run` will store `Stopped`. -/
theorem stop_answered {k : ThreadKind} {as : List ThreadAct} {s : ThreadObj}
    (h : Run step AnsweredAtStop (init k) as s) : ¬ s.Hung :=
  WaitInv.not_hung (h.inv waitInv_step (.of_ctl_ne (s := init k) (by simp [init])))

/-- A discovery thread stopped while it runs: `Stop` is at its loop, `Run` before `RunEnd`. -/
def stoppingRun : List ThreadAct :=
  [.initializeThread, .start, .run 0 false, .run 0 false, .stop, .ctl, .ctl, .ctl, .run 0 false]

theorem stop_answered_stoppingRun : ∃ s,
    Run step AnsweredAtStop (init .discovery) stoppingRun s ∧ ¬ s.Hung :=
  have h : Run step AnsweredAtStop (init .discovery) stoppingRun _ := .of_steps rfl
  ⟨_, h, stop_answered h⟩

/-- The destructor of a started `ConfigurationThread`: its `Run` stored nothing. -/
theorem stop_not_answered : ∃ s, Run step anyStep (init .configuration)
      [.initializeThread, .start, .run 0 false, .destroy, .ctl, .ctl, .ctl] s ∧ s.Hung :=
  ⟨_, .of_steps rfl, ⟨by decide, by decide, by decide⟩⟩

/-! ## When the newest `Run` or an earlier one cannot be relied on -/

theorem request_ctl {s : ThreadObj} {pc : RunPc} {pcs : List RunPc} (hr : s.runs = pc :: pcs) :
    s.request.ctl = .waitStopped := by
  simp [request, hr]

/-- `Thread::Run`, started and waited for, returns without an answer. -/
theorem hung_of_threadRun {s : ThreadObj} {pcs : List RunPc} (hc : s.ctl = .waitStopped)
    (hr : s.runs = .threadRun :: pcs) : Reach step Hung s := by
  have hi : s.runs[0]? = some .threadRun := by simp [hr]
  exact .next (step_run false hi) (.here ⟨hc, by simp [goto, store], by simp [goto, store, hr]⟩)

/-- A newest `Run` that will not store `Stopped` can leave `Thread::Stop` waiting for good. -/
theorem hung_of_not_answers {s : ThreadObj} {pc : RunPc} {pcs : List RunPc}
    (hc : s.ctl = .storeStopping) (hr : s.runs = pc :: pcs)
    (ha : answers s.dynamicKind pc = false) : Reach step Hung s := by
  have hw := request_ctl hr
  refine .next (step_request hc) ?_
  cases pc with
  | returned => exact .here ⟨hw, by simp [request, store], by simp [request, store, hr]⟩
  | threadRun => exact hung_of_threadRun hw hr
  | spawned =>
    have hi : s.request.runs[0]? = some .spawned := by simp [request, store, hr]
    have hcall : s.request.step (.run 0 false) =
        some (s.request.goto 0 (runEntry s.dynamicKind)) := step_run false hi
    refine .next hcall ?_
    cases hk : s.dynamicKind with
    | discovery => simp [answers, hk] at ha
    | thread => exact @hung_of_threadRun _ pcs hw (by simp [goto, request, store, hr, runEntry])
    | configuration =>
      exact .here ⟨hw, by simp [goto, request, store], by simp [goto, request, store, hr, runEntry]⟩
  | runBegin => cases ha
  | loopTest => cases ha
  | loopBody => cases ha
  | runEnd => cases ha

/-- The newest `Run` can come to the test of its loop, or is past it. -/
theorem reach_loopTest {s : ThreadObj} {pc : RunPc} {pcs : List RunPc} (hr : s.runs = pc :: pcs)
    (ha : answers s.dynamicKind pc = true) :
    Reach step (fun t => t.ctl = s.ctl ∧ t.dynamicKind = s.dynamicKind ∧
      (t.runs = .loopTest :: pcs ∨ t.runs = .runEnd :: pcs)) s := by
  have hi : s.runs[0]? = some pc := by simp [hr]
  cases pc with
  | spawned =>
    have hk : s.dynamicKind = .discovery := by simpa [answers] using ha
    have hcall : s.step (.run 0 false) = some (s.goto 0 .runBegin) := by
      rw [step_run false hi, runStep, hk]
      rfl
    exact .next hcall (.next (step_run false (runs_goto hi _))
      (.here ⟨rfl, rfl, .inl (by simp [goto, store, hr])⟩))
  | runBegin =>
    exact .next (step_run false hi) (.here ⟨rfl, rfl, .inl (by simp [goto, store, hr])⟩)
  | loopTest => exact .here ⟨rfl, rfl, .inl hr⟩
  | loopBody => exact .next (step_run false hi) (.here ⟨rfl, rfl, .inl (by simp [goto, hr])⟩)
  | runEnd => exact .here ⟨rfl, rfl, .inr hr⟩
  | threadRun => cases ha
  | returned => cases ha

/-- Once it sees `Stopping`, it can store `Stopped` and return. -/
theorem reach_returned {s : ThreadObj} {pcs : List RunPc} (hs : s.state = .stopping)
    (hr : s.runs = .loopTest :: pcs ∨ s.runs = .runEnd :: pcs) :
    Reach step (fun t => t.ctl = s.ctl ∧ t.dynamicKind = s.dynamicKind ∧
      t.runs = .returned :: pcs) s := by
  rcases hr with hr | hr
  · have hi : s.runs[0]? = some .loopTest := by simp [hr]
    have htest : s.step (.run 0 false) = some (s.goto 0 .runEnd) := by
      rw [step_run false hi]
      simp [runStep, hs]
    exact .next htest (.next (step_run false (runs_goto hi _))
      (.here ⟨rfl, rfl, by simp [goto, store, hr]⟩))
  · have hi : s.runs[0]? = some .runEnd := by simp [hr]
    exact .next (step_run false hi) (.here ⟨rfl, rfl, by simp [goto, store, hr]⟩)

/-- An earlier `Run` before its first store can store `Running` over the answer of the newest
one. -/
theorem hung_of_not_begun {s : ThreadObj} {pc q : RunPc} {pcs : List RunPc}
    (hc : s.ctl = .storeStopping) (hr : s.runs = pc :: pcs)
    (ha : answers s.dynamicKind pc = true) (hq : q ∈ pcs) (hb : q.begun = false)
    (hk : s.dynamicKind ≠ .configuration) : Reach step Hung s := by
  refine (reach_loopTest hr ha).bind fun t ⟨htc, htk, htr⟩ => ?_
  have htw : t.request.ctl = .waitStopped := by
    rcases htr with htr | htr <;> exact request_ctl htr
  refine .next (step_request (htc.trans hc)) ?_
  refine (reach_returned (s := t.request) rfl htr).bind fun u ⟨huc, huk, hur⟩ => ?_
  obtain ⟨j, hj⟩ := List.getElem?_of_mem hq
  have hj' : u.runs[j + 1]? = some q := by rw [hur]; exact hj
  have hku : u.dynamicKind ≠ .configuration := by
    rw [huk, show t.request.dynamicKind = t.dynamicKind from rfl, htk]
    exact hk
  obtain ⟨pc', h⟩ := reach_firstStore hj' hb hku
  refine h.bind fun v hv => .here ⟨?_, ?_, ?_⟩
  · rw [hv]
    exact huc.trans htw
  · simp [hv, goto, store]
  · simp [hv, goto, store, hur]

/-- A run that comes to a store of `Stopping` with a newest `Run` that will not store `Stopped`,
or an earlier one before its first store, can go on to hang. -/
theorem hung_of_not_answeredAtStop {k : ThreadKind} {as : List ThreadAct} {s : ThreadObj}
    {a : ThreadAct} (h : Run step anyStep (init k) as s) (hn : ¬ s.AnsweredAtStop a) :
    Reach step Hung s := by
  simp only [AnsweredAtStop, Classical.not_imp] at hn
  obtain ⟨-, hc, hn⟩ := hn
  cases hr : s.runs with
  | nil => simp [hr] at hn
  | cons pc pcs =>
    simp only [hr, List.head?_cons, Option.mem_def, Option.some.injEq, forall_eq',
      List.tail_cons] at hn
    cases ha : answers s.dynamicKind pc with
    | false => exact hung_of_not_answers hc hr ha
    | true =>
      simp only [ha, true_and, not_forall, Bool.not_eq_true] at hn
      obtain ⟨q, hq, hb⟩ := hn
      exact hung_of_not_begun hc hr ha hq hb (dynamicKind_of_run h (by simp [hc]))

end ThreadObj
