import Graviton.Lib.Run

/-!
# `Thread`: the life cycle of a thread object

One thread object of any class of the program (`libs/base/thread.cpp`, the overrides of
`DiscoveryThread` and `ConfigurationThread`), driven by a controlling thread that calls its
methods one after the other, and by the threads it started. Every store to `m_state` and
every test of it is one step, taken by either side in any order (`step`).

Of an overriding method only what touches `m_state` is here: the storage, the interfaces and
the packets of `DiscoveryThread` have models of their own. `DiscoveryThread::Stop` is
`Thread::Stop` followed by `ClearMcGroups`, which does not touch `m_state`.
-/

inductive ThreadState
  | unknown
  | created
  | initialized
  | running
  | paused
  | stopping
  | stopped
  | destroyed
  deriving DecidableEq, Repr

/-- The classes with a `Run` method. -/
inductive ThreadKind
  | thread
  | discovery
  | configuration
  deriving DecidableEq, Repr

/-- Where a started `std::thread` is. -/
inductive RunPc
  -- the lambda has not called `Run` yet
  | spawned
  -- in `Thread::Run`, before its store
  | threadRun
  -- in `DiscoveryThread::Run`, before the store of `RunBegin`
  | runBegin
  -- at the test of the `while` loop
  | loopTest
  -- in the body of the loop
  | loopBody
  -- before the store of `RunEnd`
  | runEnd
  | returned
  deriving DecidableEq, Repr

/-- Where the controlling thread is. -/
inductive CtlPc
  -- between two calls
  | idle
  -- in `Thread::Stop`, at `m_state != Stopped`
  | testStopped
  -- at `m_state != Stopping`
  | testStopping
  -- at `m_state = Stopping`
  | storeStopping
  -- in the loop `while (m_state != Stopped)`
  | waitStopped
  -- at the last store, `m_state = Stopped`
  | storeStopped
  -- in `~Thread`, after `Stop`
  | storeDestroyed
  -- the object is gone
  | gone
  deriving DecidableEq, Repr

inductive ThreadAct
  | initializeThread
  | start
  | pause
  | resume
  | stop
  | destroy
  -- the controlling thread goes on inside `Thread::Stop` or `~Thread`
  | ctl
  -- a started thread takes its next step; `elapsed` is the test of `m_elapsedTime`
  | run (i : Nat) (elapsed : Bool)
  deriving DecidableEq, Repr

/-- A thread object, its controlling thread and the threads it started. -/
structure ThreadObj where
  -- the class it was constructed as
  kind : ThreadKind
  -- `m_state`
  state : ThreadState
  -- the threads started, the one `m_thread` points to first
  runs : List RunPc
  ctl : CtlPc
  -- `~Thread` has begun
  inDtor : Bool
  -- the calls of `ProcessSecondTick`
  ticks : Nat
  -- every store to `m_state` so far, in order (a history, not a member)
  stores : List ThreadState
  deriving DecidableEq, Repr

namespace ThreadObj

def init (kind : ThreadKind) : ThreadObj where
  kind := kind
  state := .created
  runs := []
  ctl := .idle
  inDtor := false
  ticks := 0
  stores := []

def store (s : ThreadObj) (v : ThreadState) : ThreadObj :=
  { s with state := v, stores := s.stores ++ [v] }

/-- The class virtual calls resolve to: in `~Thread` the derived part is gone. -/
def dynamicKind (s : ThreadObj) : ThreadKind := if s.inDtor then .thread else s.kind

/-! ## The controlling thread -/

/-- `Initialize`: `ConfigurationThread`'s reads its file only. -/
def initializeThread (s : ThreadObj) : ThreadObj :=
  match s.kind with
  | .thread | .discovery => s.store .initialized
  | .configuration => s

/-- `Start`: a detached thread that calls `Run`. -/
def start (s : ThreadObj) : ThreadObj := { s with runs := .spawned :: s.runs }

def pause (s : ThreadObj) : ThreadObj :=
  match s.kind with
  | .thread | .discovery => s.store .paused
  | .configuration => s

def resume (s : ThreadObj) : ThreadObj :=
  match s.kind with
  | .thread | .discovery => s.store .running
  | .configuration => s

def stop (s : ThreadObj) : ThreadObj :=
  match s.kind with
  | .thread | .discovery => { s with ctl := .testStopped }
  | .configuration => s

/-- The destructor: `~Thread` calls `Thread::Stop`, whatever the class. -/
def destroy (s : ThreadObj) : ThreadObj := { s with ctl := .testStopped, inDtor := true }

/-- `Thread::Stop` returns, to the caller or to `~Thread`. -/
def stopReturn (s : ThreadObj) : ThreadObj :=
  { s with ctl := if s.inDtor then .storeDestroyed else .idle }

/-- `Thread::Stop` stores `Stopping`, and waits if there is a thread to wait for. -/
def request (s : ThreadObj) : ThreadObj :=
  { s.store .stopping with ctl := if s.runs = [] then .storeStopped else .waitStopped }

/-- One step inside `Thread::Stop` or `~Thread`. The detached thread is not joinable, so there
is no step for `join`. -/
def ctlStep (s : ThreadObj) : Option ThreadObj :=
  match s.ctl with
  | .idle | .gone => none
  | .testStopped =>
    some (if s.state ≠ .stopped then { s with ctl := .testStopping } else s.stopReturn)
  | .testStopping =>
    some (if s.state ≠ .stopping then { s with ctl := .storeStopping } else s.stopReturn)
  | .storeStopping => some s.request
  | .waitStopped =>
    some (if s.state ≠ .stopped then s else { s with ctl := .storeStopped })
  | .storeStopped => some (s.store .stopped).stopReturn
  | .storeDestroyed => some { s.store .destroyed with ctl := .gone }

/-! ## A started thread -/

/-- The first statement of the `Run` a started thread calls. -/
def runEntry : ThreadKind → RunPc
  | .thread => .threadRun
  | .discovery => .runBegin
  | .configuration => .returned

def goto (s : ThreadObj) (i : Nat) (pc : RunPc) : ThreadObj := { s with runs := s.runs.set i pc }

def runStep (s : ThreadObj) (i : Nat) (elapsed : Bool) : RunPc → Option ThreadObj
  | .spawned => some (s.goto i (runEntry s.dynamicKind))
  | .threadRun => some ((s.store .running).goto i .returned)
  | .runBegin => some ((s.store .running).goto i .loopTest)
  | .loopTest => some (s.goto i (if s.state ≠ .stopping then .loopBody else .runEnd))
  | .loopBody =>
    some ({ s with ticks := if elapsed then s.ticks + 1 else s.ticks }.goto i .loopTest)
  | .runEnd => some ((s.store .stopped).goto i .returned)
  | .returned => none

/-- A call by the controlling thread, possible between two calls. -/
def call (s : ThreadObj) (f : ThreadObj → ThreadObj) : Option ThreadObj :=
  if s.ctl = .idle then some (f s) else none

def step (s : ThreadObj) : ThreadAct → Option ThreadObj
  | .initializeThread => s.call initializeThread
  | .start => s.call start
  | .pause => s.call pause
  | .resume => s.call resume
  | .stop => s.call stop
  | .destroy => s.call destroy
  | .ctl => s.ctlStep
  | .run i elapsed => s.runs[i]?.bind (s.runStep i elapsed)

end ThreadObj
