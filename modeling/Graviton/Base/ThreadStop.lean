import Graviton.Base.ThreadLive

/-!
# The first `Stop` of a discovery thread

A discovery thread up to its first store of `Stopping` (`Unstopped`), and what the store leaves
behind: if every started `Run` has begun by then `Thread::Stop` is on its way to its end (`Ending`),
and if none has, nothing ends its wait (`Lost`).
-/

/-- Where a started thread can be while `Stopping` was never stored. -/
def RunPc.unstopped : RunPc → Bool
  | .spawned | .runBegin | .loopTest | .loopBody => true
  | .threadRun | .runEnd | .returned => false

/-- Where the controlling thread can be before it stores `Stopping`. -/
def CtlPc.unstopped : CtlPc → Bool
  | .idle | .testStopped | .testStopping | .storeStopping => true
  | .waitStopped | .storeStopped | .storeDestroyed | .gone => false

namespace ThreadObj

/-- A discovery thread in which `Stopping` was never stored. -/
structure Unstopped (x : ThreadObj) : Prop where
  kind : x.kind = .discovery
  inDtor : x.inDtor = false
  notStopped : x.state ≠ .stopped
  notStopping : x.state ≠ .stopping
  ctl : x.ctl.unstopped = true
  runs : ∀ pc ∈ x.runs, pc.unstopped = true

/-- The steps of the controlling thread up to that store. -/
def ctlRank (x : ThreadObj) : Nat :=
  match x.ctl with
  | .testStopped => 3
  | .testStopping => 2
  | .storeStopping => 1
  | _ => 0

/-! ## Before `Stopping` is stored -/

theorem Unstopped.init : Unstopped (init .discovery) :=
  ⟨rfl, rfl, by decide, by decide, rfl, fun _ h => absurd h List.not_mem_nil⟩

theorem Unstopped.store {x : ThreadObj} (h : Unstopped x) {v : ThreadState} (h1 : v ≠ .stopped)
    (h2 : v ≠ .stopping) : Unstopped (x.store v) :=
  ⟨h.kind, h.inDtor, h1, h2, h.ctl, h.runs⟩

theorem Unstopped.goto {x : ThreadObj} (h : Unstopped x) (i : Nat) {pc : RunPc}
    (hpc : pc.unstopped = true) : Unstopped (x.goto i pc) :=
  ⟨h.kind, h.inDtor, h.notStopped, h.notStopping, h.ctl, forall_mem_goto h.runs hpc i⟩

theorem Unstopped.runStep {x x' : ThreadObj} {i : Nat} {elapsed : Bool} {pc : RunPc}
    (h : Unstopped x) (hpc : x.runs[i]? = some pc) (hs : x.runStep i elapsed pc = some x') :
    Unstopped x' := by
  have hu := h.runs pc (List.mem_of_getElem? hpc)
  have hk : x.dynamicKind = .discovery := by rw [dynamicKind, h.inDtor]; exact h.kind
  cases pc <;> simp only [ThreadObj.runStep, Option.some.injEq, reduceCtorEq] at hs
  case spawned => subst hs; exact h.goto i (by rw [hk]; rfl)
  case threadRun => cases hu
  case runBegin =>
    subst hs
    have hrunning : Unstopped (x.store .running) := h.store (by decide) (by decide)
    exact hrunning.goto i rfl
  case loopTest => subst hs; exact h.goto i (by rw [if_pos h.notStopping]; rfl)
  case loopBody =>
    subst hs
    have hticks : Unstopped { x with ticks := if elapsed then x.ticks + 1 else x.ticks } :=
      ⟨h.kind, h.inDtor, h.notStopped, h.notStopping, h.ctl, h.runs⟩
    exact hticks.goto i rfl
  case runEnd => cases hu

/-- A step inside `Thread::Stop` before the store. -/
theorem Unstopped.ctlStep {x x' : ThreadObj} (h : Unstopped x) (hn : x.ctl ≠ .storeStopping)
    (hs : x.ctlStep = some x') : Unstopped x' ∧ x'.ctl ≠ .idle ∧ x'.ctlRank < x.ctlRank := by
  have hu := h.ctl
  cases hc : x.ctl <;> rw [hc] at hu <;>
    simp only [ThreadObj.ctlStep, hc, Option.some.injEq, reduceCtorEq] at hs
  case testStopped =>
    rw [if_pos h.notStopped] at hs
    subst hs
    refine ⟨⟨h.kind, h.inDtor, h.notStopped, h.notStopping, rfl, h.runs⟩, by simp, ?_⟩
    simp [ctlRank, hc]
  case testStopping =>
    rw [if_pos h.notStopping] at hs
    subst hs
    refine ⟨⟨h.kind, h.inDtor, h.notStopped, h.notStopping, rfl, h.runs⟩, by simp, ?_⟩
    simp [ctlRank, hc]
  case storeStopping => exact absurd hc hn
  all_goals cases hu

/-- A call but for `~Thread`. -/
theorem Unstopped.call {x x' : ThreadObj} (h : Unstopped x) {a : ThreadAct}
    (ha : a ∈ [ThreadAct.initializeThread, .start, .pause, .resume, .stop])
    (hs : x.step a = some x') : Unstopped x' := by
  have hk := h.kind
  simp only [List.mem_cons, List.not_mem_nil, or_false] at ha
  obtain rfl | rfl | rfl | rfl | rfl := ha <;> obtain ⟨-, rfl⟩ := call_some hs
  · rw [initializeThread, hk]
    exact h.store (by decide) (by decide)
  · exact ⟨hk, h.inDtor, h.notStopped, h.notStopping, h.ctl, List.forall_mem_cons.2 ⟨rfl, h.runs⟩⟩
  · rw [pause, hk]
    exact h.store (by decide) (by decide)
  · rw [resume, hk]
    exact h.store (by decide) (by decide)
  · have hstop : x.stop = { x with ctl := .testStopped } := by unfold stop; rw [hk]
    rw [hstop]
    exact ⟨hk, h.inDtor, h.notStopped, h.notStopping, rfl, h.runs⟩

/-- Only `Stop` and the destructor are entered. -/
theorem ctl_of_call {x x' : ThreadObj} {a : ThreadAct}
    (ha : a ∈ [ThreadAct.initializeThread, .start, .pause, .resume]) (hs : x.step a = some x') :
    x'.ctl = x.ctl := by
  simp only [List.mem_cons, List.not_mem_nil, or_false] at ha
  obtain rfl | rfl | rfl | rfl := ha <;> obtain ⟨-, rfl⟩ := call_some hs
  · unfold initializeThread
    split <;> rfl
  · rfl
  · unfold pause
    split <;> rfl
  · unfold resume
    split <;> rfl

theorem ctl_of_stop {x x' : ThreadObj} (h : Unstopped x) (hs : x.step .stop = some x') :
    x'.ctl = .testStopped := by
  obtain ⟨-, rfl⟩ := call_some hs
  rw [stop, h.kind]

/-! ## After `Stopping` is stored -/

/-- In `Thread::Stop` after the store, or back from it, with every started `Run` in its loop or
past it. -/
structure Ending (x : ThreadObj) : Prop where
  inDtor : x.inDtor = false
  begun : ∀ pc ∈ x.runs, pc.begun = true
  ctl : x.ctl = .waitStopped ∨ x.ctl = .storeStopped ∨ x.ctl = .idle ∧ x.state = .stopped

/-- In the wait of `Thread::Stop`, with no `Run` that will ever see `Stopping`. -/
structure Lost (x : ThreadObj) : Prop where
  kind : x.dynamicKind = .discovery
  ctl : x.ctl = .waitStopped
  runs : ∀ pc ∈ x.runs, pc.unstopped = true
  state : x.state = .running ∨ x.state = .stopping ∧ ∀ pc ∈ x.runs, pc.begun = false

theorem inDtor_runStep {x x' : ThreadObj} {i : Nat} {elapsed : Bool} {pc : RunPc}
    (hs : x.runStep i elapsed pc = some x') : x'.inDtor = x.inDtor := by
  cases pc <;> simp only [ThreadObj.runStep, Option.some.injEq, reduceCtorEq] at hs <;> subst hs <;>
    rfl

theorem Ending.ctlStep {x x' : ThreadObj} (h : Ending x) (hs : x.ctlStep = some x') :
    Ending x' := by
  rcases h.ctl with hc | hc | ⟨hc, -⟩ <;>
    simp only [ThreadObj.ctlStep, hc, Option.some.injEq, reduceCtorEq] at hs
  · subst hs
    split
    · exact h
    · exact ⟨h.inDtor, h.begun, .inr (.inl rfl)⟩
  · subst hs
    have hret : (x.store .stopped).stopReturn.ctl = .idle := by
      show (if x.inDtor then CtlPc.storeDestroyed else .idle) = .idle
      rw [h.inDtor]
      rfl
    exact ⟨h.inDtor, h.begun, .inr (.inr ⟨hret, rfl⟩)⟩

theorem Ending.runStep {x x' : ThreadObj} {i : Nat} {elapsed : Bool} {pc : RunPc} (h : Ending x)
    (hpc : x.runs[i]? = some pc) (hs : x.runStep i elapsed pc = some x') : Ending x' := by
  obtain ⟨-, hst, pc', hruns, hb⟩ := begun_runStep (h.begun pc (List.mem_of_getElem? hpc)) hs
  refine ⟨(inDtor_runStep hs).trans h.inDtor, ?_, ?_⟩
  · rw [hruns]
    exact forall_mem_goto h.begun hb i
  · rw [(runStep_frame hs).1]
    refine h.ctl.imp_right (Or.imp_right fun ⟨hc, hx⟩ => ⟨hc, ?_⟩)
    rcases hst with hst | hst
    · rw [hst, hx]
    · exact hst

theorem Lost.goto {x : ThreadObj} (h : Lost x) (i : Nat) {pc : RunPc} (hu : pc.unstopped = true)
    (hst : x.state = .running ∨ pc.begun = false) : Lost (x.goto i pc) := by
  refine ⟨h.kind, h.ctl, forall_mem_goto h.runs hu i, ?_⟩
  rcases h.state with hrun | ⟨hstop, hb⟩
  · exact .inl hrun
  · have hbegun : pc.begun = false := hst.resolve_left fun hrun => by
      rw [hstop] at hrun
      cases hrun
    exact .inr ⟨hstop, forall_mem_goto hb hbegun i⟩

theorem Lost.runStep {x x' : ThreadObj} {i : Nat} {elapsed : Bool} {pc : RunPc} (h : Lost x)
    (hpc : x.runs[i]? = some pc) (hs : x.runStep i elapsed pc = some x') : Lost x' := by
  have hmem := List.mem_of_getElem? hpc
  have hu := h.runs pc hmem
  -- a `Run` that has begun has stored `Running`
  have hrunning : pc.begun = true → x.state = .running := fun hb => by
    refine h.state.resolve_right fun hst => ?_
    rw [hst.2 pc hmem] at hb
    cases hb
  cases pc <;> simp only [ThreadObj.runStep, Option.some.injEq, reduceCtorEq] at hs
  case spawned =>
    subst hs
    rw [h.kind]
    exact h.goto i rfl (.inr rfl)
  case threadRun => cases hu
  case runBegin =>
    subst hs
    have hstored : Lost (x.store .running) := ⟨h.kind, h.ctl, h.runs, .inl rfl⟩
    exact hstored.goto i rfl (.inl rfl)
  case loopTest =>
    have hst := hrunning rfl
    subst hs
    rw [if_pos (by rw [hst]; decide)]
    exact h.goto i rfl (.inl hst)
  case loopBody =>
    subst hs
    have hticks : Lost { x with ticks := if elapsed then x.ticks + 1 else x.ticks } :=
      ⟨h.kind, h.ctl, h.runs, h.state⟩
    exact hticks.goto i rfl (.inl (hrunning rfl))
  case runEnd => cases hu

theorem Lost.ctlStep {x x' : ThreadObj} (h : Lost x) (hs : x.ctlStep = some x') : x' = x := by
  have hst : x.state ≠ .stopped := by
    rcases h.state with hst | ⟨hst, -⟩ <;> rw [hst] <;> decide
  rw [ctlStep_of_waits h.ctl hst] at hs
  exact (Option.some.inj hs).symm

/-- The store, when every started `Run` has begun. -/
theorem Unstopped.ending_request {x : ThreadObj} (h : Unstopped x)
    (hb : ∀ pc ∈ x.runs, pc.begun = true) : Ending x.request := by
  refine ⟨h.inDtor, hb, ?_⟩
  rw [request]
  split
  · exact .inr (.inl rfl)
  · exact .inl rfl

/-- The store, when some were started and none has begun. -/
theorem Unstopped.lost_request {x : ThreadObj} (h : Unstopped x) (hne : x.runs ≠ [])
    (hb : ∀ pc ∈ x.runs, pc.begun = false) : Lost x.request := by
  refine ⟨?_, ?_, h.runs, .inr ⟨rfl, hb⟩⟩
  · show (if x.inDtor then ThreadKind.thread else x.kind) = .discovery
    rw [h.inDtor]
    exact h.kind
  · rw [request, if_neg hne]

/-- A `Run` that has begun is inside its loop. -/
theorem Unstopped.inLoop {x : ThreadObj} (h : Unstopped x) (hb : ∀ pc ∈ x.runs, pc.begun = true) :
    x.runs = [] ∨ ∃ pc ∈ x.runs, pc.inLoop = true := by
  cases hr : x.runs with
  | nil => exact .inl rfl
  | cons pc pcs =>
    have hmem : pc ∈ x.runs := hr ▸ List.mem_cons_self
    have hu := h.runs pc hmem
    have hbegun := hb pc hmem
    refine .inr ⟨pc, List.mem_cons_self, ?_⟩
    cases pc with
    | loopTest | loopBody => rfl
    | spawned | runBegin => cases hbegun
    | threadRun | runEnd | returned => cases hu

end ThreadObj
