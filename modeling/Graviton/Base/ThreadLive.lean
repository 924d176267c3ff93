import Graviton.Base.ThreadProof
import Graviton.Lib.Fair

/-!
# When `Thread::Stop` returns

The safety of a stop request is in `ThreadProof`; here is what comes of it. In an execution that
goes on with the controlling thread and with every started thread, a started `Run` inside its loop
sees `Stopping`, leaves the loop and stores `Stopped`, and the wait of `Thread::Stop` ends.

* `awaits_leadsTo`: a `Run` inside its loop stores `Stopped`.
* `stop_returns_iff`: `Thread::Stop` returns exactly if there is such a `Run`, or nothing was
  started.
-/

open Lib Execution

/-- The thread is inside its loop, or has just left it. -/
def RunPc.inLoop : RunPc → Bool
  | .loopTest | .loopBody | .runEnd => true
  | .spawned | .threadRun | .runBegin | .returned => false

/-- The steps until it stores `Stopped`, less one. -/
def RunPc.rank : RunPc → Nat
  | .loopBody => 2
  | .loopTest => 1
  | .spawned | .threadRun | .runBegin | .runEnd | .returned => 0

namespace ThreadObj

/-- A step of the started thread `i`. -/
def IsRun (i : Nat) (a : ThreadAct) : Prop := ∃ elapsed, a = .run i elapsed

/-- `Thread::Stop` waits, and the started thread `i` is inside its loop. -/
structure Awaits (i : Nat) (s : ThreadObj) : Prop where
  ctl : s.ctl = .waitStopped
  state : s.state = .stopping
  begun : ∀ pc ∈ s.runs, pc.begun = true
  loop : ∃ pc, s.runs[i]? = some pc ∧ pc.inLoop = true

/-- `Thread::Stop` waits, and a started thread has stored `Stopped`. -/
structure Answered (s : ThreadObj) : Prop where
  ctl : s.ctl = .waitStopped
  state : s.state = .stopped
  begun : ∀ pc ∈ s.runs, pc.begun = true

/-- `Thread::Stop` waits, and every started thread has returned. -/
structure Deserted (s : ThreadObj) : Prop where
  ctl : s.ctl = .waitStopped
  state : s.state = .stopping
  returned : ∀ pc ∈ s.runs, pc = .returned

/-- `Thread::Stop` has stored `Stopped` and returned, to its caller or to `~Thread`. -/
def StopReturned (s : ThreadObj) : Prop :=
  (s.ctl = .idle ∨ s.ctl = .storeDestroyed) ∧ s.state = .stopped

/-- How far the started thread `i` is from its store. -/
def runRank (i : Nat) (s : ThreadObj) : Nat := (s.runs[i]?.map RunPc.rank).getD 0

/-! ## Steps while `Thread::Stop` waits -/

theorem ctlStep_of_waits {s : ThreadObj} (h : s.ctl = .waitStopped) (hs : s.state ≠ .stopped) :
    s.ctlStep = some s := by
  simp only [ctlStep, h, if_pos hs]

/-- While `Thread::Stop` waits, only the started threads change anything. -/
theorem step_of_waits {s s' : ThreadObj} {a : ThreadAct} (h : s.ctl = .waitStopped)
    (hst : s.state ≠ .stopped) (hs : s.step a = some s') :
    s' = s ∨ ∃ j elapsed pc, s.runs[j]? = some pc ∧ s.runStep j elapsed pc = some s' := by
  rcases step_cases hs with ⟨hidle, -⟩ | ⟨-, hs⟩ | hrun
  · rw [h] at hidle
    cases hidle
  · rw [ctlStep_of_waits h hst] at hs
    exact .inl (Option.some.inj hs).symm
  · exact .inr hrun

/-- What holds of every started thread still does when one of them moves on. -/
theorem forall_mem_goto {P : RunPc → Prop} {s : ThreadObj} (h : ∀ pc ∈ s.runs, P pc) {pc : RunPc}
    (hpc : P pc) (j : Nat) : ∀ q ∈ s.runs.set j pc, P q := by
  intro q hq
  rcases List.mem_or_eq_of_mem_set hq with hq | rfl
  · exact h q hq
  · exact hpc

/-- A started thread inside its loop moves on, and nothing else changes. -/
theorem Awaits.goto {i j : Nat} {s : ThreadObj} (h : Awaits i s) {pc pc' : RunPc}
    (hpc : s.runs[j]? = some pc) (hlt : pc'.rank < pc.rank) (hb : pc'.begun = true)
    (hl : pc'.inLoop = true) : Awaits i (s.goto j pc') ∧
      runRank i (s.goto j pc') ≤ runRank i s ∧ (j = i → runRank i (s.goto j pc') < runRank i s) := by
  have hj := (List.getElem?_eq_some_iff.1 hpc).1
  by_cases hji : j = i
  · subst hji
    have hget : (s.goto j pc').runs[j]? = some pc' := runs_goto hpc pc'
    have hrank : runRank j (s.goto j pc') < runRank j s := by
      rw [runRank, runRank, hget, hpc]
      exact hlt
    exact ⟨⟨h.ctl, h.state, forall_mem_goto h.begun hb j, pc', hget, hl⟩, Nat.le_of_lt hrank,
      fun _ => hrank⟩
  · have hget : (s.goto j pc').runs[i]? = s.runs[i]? := List.getElem?_set_ne hji
    have hrank : runRank i (s.goto j pc') = runRank i s := by rw [runRank, hget, runRank]
    refine ⟨⟨h.ctl, h.state, forall_mem_goto h.begun hb j, ?_⟩, Nat.le_of_eq hrank,
      fun hji' => absurd hji' hji⟩
    rw [hget]
    exact h.loop

/-- **A step of a started thread** while another is awaited, or that one's own. -/
theorem Awaits.runStep {i j : Nat} {s s' : ThreadObj} {elapsed : Bool} {pc : RunPc}
    (h : Awaits i s) (hpc : s.runs[j]? = some pc) (hs : s.runStep j elapsed pc = some s') :
    (Awaits i s' ∧ runRank i s' ≤ runRank i s ∧ (j = i → runRank i s' < runRank i s)) ∨
      Answered s' := by
  have hb := h.begun pc (List.mem_of_getElem? hpc)
  cases pc <;> simp only [ThreadObj.runStep, Option.some.injEq, reduceCtorEq] at hs
  case spawned => cases hb
  case threadRun => cases hb
  case runBegin => cases hb
  case loopTest =>
    subst hs
    rw [if_neg (fun hne => hne h.state)]
    exact .inl (h.goto hpc (by decide) rfl rfl)
  case loopBody =>
    subst hs
    have hticks : Awaits i { s with ticks := if elapsed then s.ticks + 1 else s.ticks } :=
      ⟨h.ctl, h.state, h.begun, h.loop⟩
    exact .inl (hticks.goto hpc (by decide) rfl rfl)
  case runEnd =>
    subst hs
    exact .inr ⟨h.ctl, rfl, forall_mem_goto h.begun rfl j⟩

theorem Awaits.step {i : Nat} {s s' : ThreadObj} {a : ThreadAct} (h : Awaits i s)
    (hs : s.step a = some s') : (Awaits i s' ∧ runRank i s' ≤ runRank i s) ∨ Answered s' := by
  rcases step_of_waits h.ctl (by rw [h.state]; decide) hs with rfl | ⟨j, elapsed, pc, hpc, hs⟩
  · exact .inl ⟨h, Nat.le_refl _⟩
  · exact (h.runStep hpc hs).imp_left fun ⟨h', hle, _⟩ => ⟨h', hle⟩

theorem Awaits.enabled {i : Nat} {s : ThreadObj} (h : Awaits i s) :
    Enabled ThreadObj.step (IsRun i) s := by
  obtain ⟨pc, hpc, hl⟩ := h.loop
  refine ⟨.run i false, ⟨false, rfl⟩, ?_⟩
  rw [step_run false hpc]
  cases pc <;> first | rfl | cases hl

theorem Answered.step {s s' : ThreadObj} {a : ThreadAct} (h : Answered s)
    (hs : s.step a = some s') : Answered s' ∨ s'.ctl = .storeStopped := by
  rcases step_cases hs with ⟨hidle, -⟩ | ⟨-, hs⟩ | ⟨j, elapsed, pc, hpc, hs⟩
  · rw [h.ctl] at hidle
    cases hidle
  · simp only [ctlStep, h.ctl, h.state, ne_eq, not_true_eq_false, if_false, Option.some.injEq]
      at hs
    exact .inr (by rw [← hs])
  · obtain ⟨-, hst, pc', hruns, hb⟩ := begun_runStep (h.begun pc (List.mem_of_getElem? hpc)) hs
    refine .inl ⟨(runStep_frame hs).1.trans h.ctl, ?_, ?_⟩
    · rcases hst with hst | hst
      · rw [hst, h.state]
      · exact hst
    · rw [hruns]
      exact forall_mem_goto h.begun hb j

theorem Deserted.step {s s' : ThreadObj} {a : ThreadAct} (h : Deserted s)
    (hs : s.step a = some s') : Deserted s' := by
  rcases step_of_waits h.ctl (by rw [h.state]; decide) hs with rfl | ⟨j, elapsed, pc, hpc, hs⟩
  · exact h
  · rw [h.returned pc (List.mem_of_getElem? hpc)] at hs
    cases hs

/-! ## Fair executions -/

section
variable {e : Execution step}

/-- **A `Run` inside its loop** answers the request, or another does before it. -/
theorem awaits_leadsTo {i : Nat} (hrun : e.Fair (IsRun i)) :
    e.LeadsTo (Awaits i) Answered := by
  refine leadsTo_of_rank (runRank i) hrun (fun s hs => hs.enabled)
    (fun s a s' h hs => h.step hs) ?_
  rintro s _ s' h ⟨elapsed, rfl⟩ hs
  obtain ⟨pc, hpc, -⟩ := h.loop
  rw [step_run elapsed hpc] at hs
  exact (h.runStep hpc hs).imp_left fun ⟨h', _, hlt⟩ => ⟨h', hlt rfl⟩

theorem answered_leadsTo (hctl : e.Fair (· = .ctl)) :
    e.LeadsTo Answered (fun s => s.ctl = .storeStopped) := by
  refine leadsTo_of_fair hctl (fun s h => ⟨.ctl, rfl, ?_⟩) (fun s a s' h hs => h.step hs) ?_
  · simp [step, ctlStep, h.ctl]
  · rintro s _ s' h rfl hs
    refine (h.step hs).resolve_left fun h' => ?_
    simp only [step, ctlStep, h.ctl, h.state, ne_eq, not_true_eq_false, if_false,
      Option.some.injEq] at hs
    have hc := h'.ctl
    rw [← hs] at hc
    cases hc

theorem lastStore_leadsTo (hctl : e.Fair (· = .ctl)) :
    e.LeadsTo (fun s => s.ctl = .storeStopped) StopReturned := by
  have hret : ∀ s s' : ThreadObj, s.ctl = .storeStopped → s.ctlStep = some s' →
      StopReturned s' := by
    intro s s' h hs
    simp only [ctlStep, h, Option.some.injEq] at hs
    subst hs
    refine ⟨?_, rfl⟩
    simp only [stopReturn]
    split
    · exact .inr rfl
    · exact .inl rfl
  refine leadsTo_of_fair hctl (fun s h => ⟨.ctl, rfl, ?_⟩) (fun s a s' h hs => ?_) ?_
  · simp [step, ctlStep, h]
  · rcases step_cases hs with ⟨hidle, -⟩ | ⟨-, hs⟩ | ⟨j, elapsed, pc, -, hs⟩
    · rw [h] at hidle
      cases hidle
    · exact .inr (hret s s' h hs)
    · exact .inl ((runStep_frame hs).1.trans h)
  · rintro s _ s' h rfl hs
    exact hret s s' h hs

/-- The first state after the store of `Stopping`. -/
theorem state_request {n : Nat} (hev : e.event n = some .ctl)
    (hc : (e.state n).ctl = .storeStopping) : e.state (n + 1) = (e.state n).request := by
  have hnext := e.next n .ctl hev
  rw [step_request hc] at hnext
  exact (Option.some.inj hnext).symm

/-- With a `Run` inside its loop, or none, `Thread::Stop` returns. -/
theorem exists_stopReturned (hctl : e.Fair (· = .ctl)) (hrun : ∀ i, e.Fair (IsRun i)) {n : Nat}
    (hev : e.event n = some .ctl) (hc : (e.state n).ctl = .storeStopping)
    (hb : ∀ pc ∈ (e.state n).runs, pc.begun = true)
    (hloop : (e.state n).runs = [] ∨ ∃ pc ∈ (e.state n).runs, pc.inLoop = true) :
    ∃ m, n < m ∧ (e.state m).StopReturned := by
  have hreq := state_request hev hc
  have hend := lastStore_leadsTo hctl
  by_cases hnil : (e.state n).runs = []
  · -- nothing to wait for
    have hlast : (e.state (n + 1)).ctl = .storeStopped := by rw [hreq, request, if_pos hnil]
    obtain ⟨m, hm, hret⟩ := hend (n + 1) hlast
    exact ⟨m, hm, hret⟩
  · obtain ⟨pc, hpc, hl⟩ := hloop.resolve_left hnil
    obtain ⟨i, hi⟩ := List.getElem?_of_mem hpc
    have hruns : (e.state (n + 1)).runs = (e.state n).runs := by rw [hreq]; rfl
    have haw : Awaits i (e.state (n + 1)) := by
      refine ⟨?_, ?_, ?_, pc, ?_, hl⟩
      · rw [hreq, request, if_neg hnil]
      · rw [hreq]; rfl
      · rwa [hruns]
      · rwa [hruns]
    have hlead := ((awaits_leadsTo (hrun i)).trans (answered_leadsTo hctl)).trans hend
    obtain ⟨m, hm, hret⟩ := hlead (n + 1) haw
    exact ⟨m, hm, hret⟩

/-- With started threads that have all returned, it waits on. -/
theorem deserted_of_store {n : Nat} (hev : e.event n = some .ctl)
    (hc : (e.state n).ctl = .storeStopping) (hb : ∀ pc ∈ (e.state n).runs, pc.begun = true)
    (hnil : (e.state n).runs ≠ []) (hloop : ¬ ∃ pc ∈ (e.state n).runs, pc.inLoop = true) :
    Deserted (e.state (n + 1)) := by
  have hreq := state_request hev hc
  refine ⟨?_, ?_, fun pc hpc => ?_⟩
  · rw [hreq, request, if_neg hnil]
  · rw [hreq]; rfl
  · have hpc : pc ∈ (e.state n).runs := by rw [hreq] at hpc; exact hpc
    have hbegun := hb pc hpc
    have hout : ¬ pc.inLoop = true := fun hl => hloop ⟨pc, hpc, hl⟩
    cases pc <;> first | rfl | exact absurd rfl hout | cases hbegun

/-- **When `Thread::Stop` returns**: it stores `Stopping` when every started `Run` has made its
first store; then it returns exactly if one of them is inside its loop, or there is none. -/
theorem stop_returns_iff (hctl : e.Fair (· = .ctl)) (hrun : ∀ i, e.Fair (IsRun i)) {n : Nat}
    (hev : e.event n = some .ctl) (hc : (e.state n).ctl = .storeStopping)
    (hb : ∀ pc ∈ (e.state n).runs, pc.begun = true) :
    (∃ m, n < m ∧ (e.state m).StopReturned) ↔
      (e.state n).runs = [] ∨ ∃ pc ∈ (e.state n).runs, pc.inLoop = true := by
  refine ⟨?_, exists_stopReturned hctl hrun hev hc hb⟩
  rintro ⟨m, hm, hret, -⟩
  by_contra hno
  obtain ⟨hnil, hloop⟩ := not_or.1 hno
  have hgone := deserted_of_store hev hc hb hnil hloop
  have hm := always_of_step (fun s a s' h hs => Deserted.step h hs) hgone m hm
  rw [hm.ctl] at hret
  rcases hret with h | h <;> cases h

end

/-- A discovery thread that is inside its loop when it is told to stop. -/
def waitedFor : ThreadObj :=
  { init .discovery with state := .running, runs := [.loopBody], ctl := .storeStopping }

theorem stop_returns_waitedFor : ∃ (e : Execution step) (n : Nat),
    (e.state 0).runs = [.loopBody] ∧ (e.state n).StopReturned := by
  have hrun : Run step anyStep waitedFor
      [.ctl, .run 0 true, .run 0 false, .run 0 false, .ctl, .ctl] _ := .of_steps rfl
  have hctl : (ofRun hrun).Fair (· = .ctl) := by
    refine fair_ofRun hrun ?_
    rintro ⟨_, rfl, hs⟩
    cases hs
  have hruns : ∀ i, (ofRun hrun).Fair (IsRun i) := by
    intro i
    refine fair_ofRun hrun ?_
    rintro ⟨_, ⟨elapsed, rfl⟩, hs⟩
    cases i <;> cases hs
  obtain ⟨m, -, hret⟩ := (stop_returns_iff hctl hruns (n := 0) rfl rfl
    (fun pc hpc => by rw [List.mem_singleton.1 hpc]; rfl)).2 (.inr ⟨_, .head _, rfl⟩)
  exact ⟨ofRun hrun, m, rfl, hret⟩

end ThreadObj
