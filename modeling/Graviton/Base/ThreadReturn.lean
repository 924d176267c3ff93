import Graviton.Base.ThreadLive

/-!
# What `Thread::Stop` leaves running

When `Thread::Stop` returns, `DiscoveryThread::Stop` deletes what the loop of its `Run` uses. The
wait in between is for one store of `Stopped`, whichever started thread makes it.

* `stop_leaves_none_iff`: in every interleaving all started threads have returned by then, exactly
  if at most one of them was inside its loop when `Stopping` was stored.
-/

open Lib

namespace ThreadObj

/-- The started thread `i` is inside its loop, or has just left it. -/
def InLoop (s : ThreadObj) (i : Nat) : Prop := ∃ pc, s.runs[i]? = some pc ∧ pc.inLoop = true

/-- No thread is started. -/
def NoStart (_ : ThreadObj) (a : ThreadAct) : Prop := a ≠ .start

def AllReturned (s : ThreadObj) : Prop := ∀ pc ∈ s.runs, pc = .returned

/-- `Thread::Stop` waits, and at most one thread can end its wait. -/
structure Alone (s : ThreadObj) : Prop where
  ctl : s.ctl = .waitStopped
  state : s.state = .stopping
  begun : ∀ pc ∈ s.runs, pc.begun = true
  unique : ∀ i j, s.InLoop i → s.InLoop j → i = j

/-! ## While it waits -/

theorem allReturned_of_begun {s : ThreadObj} (hb : ∀ pc ∈ s.runs, pc.begun = true)
    (h : ∀ i, ¬ s.InLoop i) : s.AllReturned := by
  intro pc hpc
  obtain ⟨i, hi⟩ := List.getElem?_of_mem hpc
  have hbegun := hb pc hpc
  have hout : ¬ pc.inLoop = true := fun hl => h i ⟨pc, hi, hl⟩
  cases pc with
  | returned => rfl
  | loopTest | loopBody | runEnd => exact absurd rfl hout
  | spawned | threadRun | runBegin => cases hbegun

/-- A thread that moves on inside its loop changes none of this. -/
theorem Alone.goto {j : Nat} {s : ThreadObj} (h : Alone s) {pc pc' : RunPc}
    (hpc : s.runs[j]? = some pc) (hl : pc.inLoop = true) (hb : pc'.begun = true) :
    Alone (s.goto j pc') := by
  refine ⟨h.ctl, h.state, forall_mem_goto h.begun hb j, ?_⟩
  have hback : ∀ i, (s.goto j pc').InLoop i → s.InLoop i := by
    rintro i ⟨q, hq, hql⟩
    by_cases hij : j = i
    · exact ⟨pc, hij ▸ hpc, hl⟩
    · exact ⟨q, (List.getElem?_set_ne hij).symm.trans hq, hql⟩
  exact fun i k hi hk => h.unique i k (hback i hi) (hback k hk)

theorem Alone.step {s s' : ThreadObj} {a : ThreadAct} (h : Alone s) (hs : s.step a = some s') :
    Alone s' ∨ s'.AllReturned := by
  rcases step_of_waits h.ctl (by rw [h.state]; decide) hs with rfl | ⟨j, elapsed, pc, hpc, hs⟩
  · exact .inl h
  have hbegun := h.begun pc (List.mem_of_getElem? hpc)
  cases pc <;> simp only [runStep, Option.some.injEq, reduceCtorEq] at hs
  case spawned => cases hbegun
  case threadRun => cases hbegun
  case runBegin => cases hbegun
  case loopTest =>
    subst hs
    rw [if_neg (fun hne => hne h.state)]
    exact .inl (h.goto hpc rfl rfl)
  case loopBody =>
    subst hs
    have hticks : Alone { s with ticks := if elapsed then s.ticks + 1 else s.ticks } :=
      ⟨h.ctl, h.state, h.begun, h.unique⟩
    exact .inl (hticks.goto hpc rfl rfl)
  case runEnd =>
    -- the one that was inside its loop
    subst hs
    refine .inr (allReturned_of_begun (forall_mem_goto h.begun rfl j) ?_)
    rintro i ⟨q, hq, hql⟩
    have hj := (List.getElem?_eq_some_iff.1 hpc).1
    by_cases hij : j = i
    · subst hij
      obtain rfl : RunPc.returned = q := by
        rw [← Option.some.injEq, ← hq]
        exact (List.getElem?_set_self hj).symm
      cases hql
    · exact hij (h.unique j i ⟨_, hpc, rfl⟩ ⟨q, (List.getElem?_set_ne hij).symm.trans hq, hql⟩)

/-! ## After it -/

theorem runs_ctlStep {s s' : ThreadObj} (hs : s.ctlStep = some s') : s'.runs = s.runs := by
  unfold ctlStep at hs
  cases hc : s.ctl <;> simp only [hc, Option.some.injEq, reduceCtorEq] at hs <;> subst hs
  case testStopped => split <;> rfl
  case testStopping => split <;> rfl
  case waitStopped => split <;> rfl
  all_goals rfl

/-- Only `Start` adds to the started threads, and only they move on. -/
theorem runs_of_step {s s' : ThreadObj} {a : ThreadAct} (ha : a ≠ .start)
    (hs : s.step a = some s') : s'.runs = s.runs ∨
      ∃ i elapsed pc, s.runs[i]? = some pc ∧ s.runStep i elapsed pc = some s' := by
  cases a with
  | start => exact absurd rfl ha
  | initializeThread =>
    obtain ⟨-, rfl⟩ := call_some hs
    exact .inl (by unfold initializeThread; split <;> rfl)
  | pause =>
    obtain ⟨-, rfl⟩ := call_some hs
    exact .inl (by unfold pause; split <;> rfl)
  | resume =>
    obtain ⟨-, rfl⟩ := call_some hs
    exact .inl (by unfold resume; split <;> rfl)
  | stop =>
    obtain ⟨-, rfl⟩ := call_some hs
    exact .inl (by unfold stop; split <;> rfl)
  | destroy =>
    obtain ⟨-, rfl⟩ := call_some hs
    exact .inl rfl
  | ctl => exact .inl (runs_ctlStep hs)
  | run i elapsed =>
    obtain ⟨pc, hpc, hs⟩ := Option.bind_eq_some_iff.1 hs
    exact .inr ⟨i, elapsed, pc, hpc, hs⟩

theorem AllReturned.step {s s' : ThreadObj} {a : ThreadAct} (h : s.AllReturned)
    (ha : a ≠ .start) (hs : s.step a = some s') : s'.AllReturned := by
  rcases runs_of_step ha hs with hruns | ⟨i, elapsed, pc, hpc, hs⟩
  · intro pc hpc
    exact h pc (hruns ▸ hpc)
  · rw [h pc (List.mem_of_getElem? hpc)] at hs
    cases hs

/-! ## Another one is left -/

/-- A thread inside its loop leaves it, with the others where they are. -/
theorem exists_run_runEnd {s : ThreadObj} {i : Nat} (hst : s.state = .stopping) (hi : s.InLoop i) :
    ∃ as s', Run step NoStart s as s' ∧ s'.runs[i]? = some .runEnd ∧ s'.ctl = s.ctl ∧
      s'.runs.set i .returned = s.runs.set i .returned := by
  have htest : ∀ x : ThreadObj, x.state = .stopping → x.runs[i]? = some .loopTest →
      x.step (.run i false) = some (x.goto i .runEnd) := by
    intro x hx hpc
    rw [step_run false hpc, runStep, if_neg (fun hne => hne hx)]
  obtain ⟨pc, hpc, hl⟩ := hi
  cases pc with
  | runEnd => exact ⟨[], s, .nil s, hpc, rfl, rfl⟩
  | loopTest =>
    exact ⟨[.run i false], _, .cons (by simp [NoStart]) (htest s hst hpc) (.nil _),
      runs_goto hpc _, rfl, List.set_set ..⟩
  | loopBody =>
    have hbody : s.step (.run i false) = some (s.goto i .loopTest) := step_run false hpc
    have hnext := htest (s.goto i .loopTest) hst (runs_goto hpc _)
    refine ⟨[.run i false, .run i false], _, .cons (by simp [NoStart]) hbody
      (.cons (by simp [NoStart]) hnext (.nil _)), runs_goto (runs_goto hpc _) _, rfl, ?_⟩
    simp only [ThreadObj.goto, List.set_set]
  | spawned | threadRun | runBegin | returned => cases hl

/-- The wait is over once one thread has answered. -/
theorem exists_run_stopReturned {s : ThreadObj} {i : Nat} (hc : s.ctl = .waitStopped)
    (hst : s.state = .stopping) (hi : s.InLoop i) :
    ∃ as s', Run step NoStart s as s' ∧ s'.StopReturned ∧
      s'.runs = s.runs.set i .returned := by
  obtain ⟨as, x, hrun, hpc, hctl, hruns⟩ := exists_run_runEnd hst hi
  have hwait : x.ctl = .waitStopped := hctl.trans hc
  have h1 : x.step (.run i false) = some ((x.store .stopped).goto i .returned) :=
    step_run false hpc
  have h2 : ((x.store .stopped).goto i .returned).step .ctl =
      some { (x.store .stopped).goto i .returned with ctl := .storeStopped } := by
    simp [step, ctlStep, ThreadObj.goto, store, hwait]
  refine ⟨as ++ [.run i false, .ctl, .ctl], _, hrun.append (.cons (by simp [NoStart]) h1
    (.cons (by simp [NoStart]) h2 (.cons (by simp [NoStart]) rfl (.nil _)))), ⟨?_, rfl⟩, hruns⟩
  simp only [stopReturn]
  split
  · exact .inr rfl
  · exact .inl rfl

/-- **What `Thread::Stop` leaves running**: from the store of `Stopping` on, whatever happens but
for another `Start`, all started threads have returned when it returns, exactly if at most one of
them was inside its loop at the store. -/
theorem stop_leaves_none_iff {s : ThreadObj} (hc : s.ctl = .storeStopping)
    (hb : ∀ pc ∈ s.runs, pc.begun = true) :
    (∀ as s', Run step NoStart s (.ctl :: as) s' → s'.StopReturned → s'.AllReturned) ↔
      ∀ i j, s.InLoop i → s.InLoop j → i = j := by
  have hstore := step_request hc
  constructor
  · intro h i j hi hj
    by_contra hij
    have hne : s.runs ≠ [] := by
      rintro hnil
      obtain ⟨pc, hpc, -⟩ := hi
      rw [hnil] at hpc
      cases hpc
    have hwait : s.request.ctl = .waitStopped := by rw [request, if_neg hne]
    obtain ⟨as, s', hrun, hret, hruns⟩ := exists_run_stopReturned (i := i) hwait rfl hi
    have hall := h as s' (.cons (by simp [NoStart]) hstore hrun) hret
    obtain ⟨pc, hpc, hl⟩ := hj
    have hleft : s'.runs[j]? = some pc := by
      rw [hruns]
      exact (List.getElem?_set_ne hij).trans hpc
    rw [hall pc (List.mem_of_getElem? hleft)] at hl
    cases hl
  · intro hunique as s' hrun hret
    cases hrun with
    | cons _ hs hrun =>
      obtain rfl := Option.some.inj (hstore.symm.trans hs)
      have hstart : Alone s.request ∨ s.request.AllReturned := by
        by_cases hnil : s.runs = []
        · refine .inr fun pc hpc => ?_
          have hpc : pc ∈ s.runs := hpc
          rw [hnil] at hpc
          cases hpc
        · exact .inl ⟨by rw [request, if_neg hnil], rfl, hb, hunique⟩
      have hend : Alone s' ∨ s'.AllReturned := by
        refine hrun.inv (P := fun x => Alone x ∨ x.AllReturned) ?_ hstart
        rintro x a x' (h | h) ha hx
        · exact h.step hx
        · exact .inr (h.step ha hx)
      refine hend.resolve_left fun h => ?_
      have hidle := hret.1
      rw [h.ctl] at hidle
      rcases hidle with hidle | hidle <;> cases hidle

/-- Two started threads in their loops: one of them goes on after `Thread::Stop` has returned. -/
theorem stop_leaves_two : ¬ ∀ as s',
    Run step NoStart { init .discovery with
      state := .running, runs := [.loopBody, .loopTest], ctl := .storeStopping } (.ctl :: as) s' →
        s'.StopReturned → s'.AllReturned := by
  refine fun h => absurd ((stop_leaves_none_iff rfl ?_).1 h 0 1 ⟨_, rfl, rfl⟩ ⟨_, rfl, rfl⟩)
    (by decide)
  simp [RunPc.begun]

end ThreadObj
