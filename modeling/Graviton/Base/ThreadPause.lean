import Graviton.Base.Thread

/-!
# `DiscoveryThread`: ticks of a paused thread

The loop of `DiscoveryThread::Run` tests `m_state` against `Stopping` only, so `Paused` does not
keep it from its timer. A run is watched with two histories: which started thread is in an
iteration that began while `m_state` was `Paused`, and the calls of `ProcessSecondTick` made in
such iterations.

* `quiet_iff`: in exactly which runs there is no such call.
-/

open Lib

/-- A `ThreadAct`, with what `DurationNs` measures where a started thread looks at it. -/
inductive PauseAct
  | initializeThread
  | start
  | pause
  | resume
  | stop
  | destroy
  | ctl
  | run (i : Nat) (durationNs : BitVec 64)
  deriving DecidableEq, Repr

/-- A thread object, watched: for every started thread, whether its iteration began while `m_state`
was `Paused`, and the calls of `ProcessSecondTick` in such iterations. -/
structure PauseWatch where
  thread : ThreadObj
  beganPaused : List Bool
  pausedTicks : Nat
  deriving DecidableEq, Repr

/-- `TIME_1S_NS`. -/
def time1sNs : BitVec 64 := 1000000000

def PauseAct.threadAct : PauseAct → ThreadAct
  | initializeThread => .initializeThread
  | start => .start
  | pause => .pause
  | resume => .resume
  | stop => .stop
  | destroy => .destroy
  | ctl => .ctl
  | run i durationNs => .run i (time1sNs ≤ durationNs)

namespace PauseWatch

def init : PauseWatch := ⟨ThreadObj.init .discovery, [], 0⟩

/-- A started thread is in the body of its loop, and `m_state` was `Paused` when it entered it. -/
def InPausedBody (w : PauseWatch) (i : Nat) : Prop :=
  w.thread.runs[i]? = some .loopBody ∧ w.beganPaused[i]? = some true

instance (w : PauseWatch) (i : Nat) : Decidable (w.InPausedBody i) :=
  inferInstanceAs (Decidable (_ ∧ _))

/-- An iteration begins at the test of the loop. -/
def watchBegin (w : PauseWatch) : PauseAct → List Bool
  | .start => false :: w.beganPaused
  | .run i _ =>
    if w.thread.runs[i]? = some .loopTest then w.beganPaused.set i (w.thread.state = .paused)
    else w.beganPaused
  | _ => w.beganPaused

/-- The calls of `ProcessSecondTick` that the step to `thread` makes, if it is one of an iteration
that began while `m_state` was `Paused`. -/
def watchTick (w : PauseWatch) (thread : ThreadObj) : PauseAct → Nat
  | .run i _ =>
    if w.InPausedBody i then w.pausedTicks + (thread.ticks - w.thread.ticks) else w.pausedTicks
  | _ => w.pausedTicks

def step (w : PauseWatch) (a : PauseAct) : Option PauseWatch :=
  (w.thread.step a.threadAct).map fun thread => ⟨thread, w.watchBegin a, w.watchTick thread a⟩

/-- No iteration that began while `m_state` was `Paused` called `ProcessSecondTick`. -/
def Quiet (w : PauseWatch) : Prop := w.pausedTicks = 0

/-- What an iteration that began while `m_state` was `Paused` measures is below a second. -/
def BelowSecond (w : PauseWatch) : PauseAct → Prop
  | .run i durationNs => w.InPausedBody i → durationNs < time1sNs
  | _ => True

/-! ## What a step counts -/

/-- The body of the loop calls `ProcessSecondTick` if a second has elapsed. -/
theorem ticks_of_loopBody {s s' : ThreadObj} {i : Nat} {elapsed : Bool}
    (hpc : s.runs[i]? = some .loopBody) (h : s.step (.run i elapsed) = some s') :
    s'.ticks = if elapsed then s.ticks + 1 else s.ticks := by
  rw [ThreadObj.step, hpc, Option.bind_some, ThreadObj.runStep, Option.some.injEq] at h
  rw [← h]
  rfl

theorem step_some {w w' : PauseWatch} {a : PauseAct} (h : w.step a = some w') :
    w.thread.step a.threadAct = some w'.thread ∧ w'.pausedTicks = w.watchTick w'.thread a := by
  obtain ⟨thread, ht, rfl⟩ := Option.map_eq_some_iff.1 h
  exact ⟨ht, rfl⟩

theorem pausedTicks_of_below {w w' : PauseWatch} {a : PauseAct} (h : w.step a = some w')
    (hb : w.BelowSecond a) : w'.pausedTicks = w.pausedTicks := by
  obtain ⟨ht, hw⟩ := step_some h
  rw [hw]
  cases a with
  | run i durationNs =>
    rw [watchTick]
    split
    · rename_i hp
      have hd : ¬ time1sNs ≤ durationNs := BitVec.not_le.2 (hb hp)
      have htick := ticks_of_loopBody hp.1 ht
      rw [decide_eq_false hd, if_neg Bool.false_ne_true] at htick
      rw [htick, Nat.sub_self, Nat.add_zero]
    · rfl
  | _ => rfl

theorem pausedTicks_of_not_below {w w' : PauseWatch} {a : PauseAct} (h : w.step a = some w')
    (hb : ¬ w.BelowSecond a) : w'.pausedTicks = w.pausedTicks + 1 := by
  obtain ⟨ht, hw⟩ := step_some h
  rw [hw]
  cases a with
  | run i durationNs =>
    obtain ⟨hp, hd⟩ := Classical.not_imp.1 hb
    have htick := ticks_of_loopBody hp.1 ht
    rw [decide_eq_true (BitVec.not_lt.1 hd), if_pos rfl] at htick
    rw [watchTick, if_pos hp, htick, Nat.add_sub_cancel_left]
  | _ => exact absurd trivial hb

theorem quiet_step_iff {w w' : PauseWatch} {a : PauseAct} (h : w.step a = some w') :
    w'.Quiet ↔ w.Quiet ∧ w.BelowSecond a := by
  rw [Quiet]
  by_cases hb : w.BelowSecond a
  · rw [pausedTicks_of_below h hb, and_iff_left hb]
    rfl
  · rw [pausedTicks_of_not_below h hb]
    exact iff_of_false (Nat.succ_ne_zero _) fun hn => hb hn.2

/-- **A paused thread is quiet** exactly in the runs in which every iteration that began while
`m_state` was `Paused` measures less than a second. -/
theorem quiet_iff {as : List PauseAct} {w : PauseWatch} (h : Run step anyStep init as w) :
    w.Quiet ↔ Run step BelowSecond init as w := by
  refine @Run.end_iff _ _ step BelowSecond (fun _ => True) Quiet (fun _ _ _ _ _ => trivial) ?back
    ?exact _ _ _ h trivial rfl
  case back => exact fun _ _ _ hs hq => ((quiet_step_iff hs).1 hq).1
  case exact => exact fun _ _ _ _ hq hs => (quiet_step_iff hs).trans (and_iff_right hq)

/-- A thread that is paused, and resumed before a second has elapsed. -/
def pausedRun : List PauseAct :=
  [.start, .run 0 0, .run 0 0, .pause, .run 0 0, .run 0 900000000, .resume, .run 0 0,
    .run 0 1000000000]

theorem quiet_iff_pausedRun : ∃ w, Run step anyStep init pausedRun w ∧
    (w.Quiet ↔ Run step BelowSecond init pausedRun w) := by
  obtain ⟨w, hw⟩ := Option.isSome_iff_exists.1
    (show (steps step anyStep init pausedRun).isSome by decide)
  exact ⟨w, Run.of_steps hw, quiet_iff (Run.of_steps hw)⟩

/-- A thread in its loop is paused; its next iteration finds a second elapsed. -/
theorem not_quiet : ∃ w, Run step anyStep init
    [.start, .run 0 0, .run 0 0, .pause, .run 0 0, .run 0 1000000000] w ∧ ¬ w.Quiet :=
  ⟨_, Run.of_steps rfl, Nat.one_ne_zero⟩

end PauseWatch
