import Mdgate.Base.MessageLoop
import Mdgate.Lib.Machine

/-!
# The Qt message pump

`MessagePumpForUIQt` drives the UI thread's `MessageLoop` from Qt events: a
`QEvent::User` calls `handleScheduledWork`, a timer calls `DoDelayedWork`, and
`aboutToBlock` calls `DoIdleWork`. The state is the loop, the pump, Qt's view of
the pump (pending events, live timers) and the UI thread's call stack.

A task body is arbitrary code: while a task is on top of the stack it may post
tasks, call `SetNestableTasksAllowed`, ask the loop to quit and run a nested Qt
event loop, in which Qt delivers the pump's events again. Posts come from any
thread at any time, so `post` is possible in every state.
-/

namespace Mdgate.Ui

open Mdgate.Base Mdgate.Lib

/-! ## Qt -/

structure QtTimer where
  id : Nat
  interval : Int
  deriving DecidableEq, Repr

/-- Qt's side of the pump object. -/
structure Qt where
  userEvents : Nat
  timers : List QtTimer
  freshTimerId : Nat
  quit : Bool
  deriving DecidableEq, Repr

namespace Qt

/-- `QCoreApplication::postEvent(pump, new QEvent(QEvent::User))`. -/
@[simp] def postEvent (q : Qt) : Qt := { q with userEvents := q.userEvents + 1 }

/-- `QObject::killTimer`; timer ids are positive, so `killTimer(0)` does nothing. -/
def killTimer (q : Qt) (id : Nat) : Qt := { q with timers := q.timers.filter (·.id ≠ id) }

def startTimer (q : Qt) (interval : Int) : Qt × Nat :=
  ({ q with
      timers := q.timers ++ [⟨q.freshTimerId, interval⟩]
      freshTimerId := q.freshTimerId + 1 }, q.freshTimerId)

def Live (q : Qt) (id : Nat) : Prop := ∃ t ∈ q.timers, t.id = id

instance (q : Qt) (id : Nat) : Decidable (q.Live id) :=
  inferInstanceAs (Decidable (∃ t ∈ q.timers, t.id = id))

end Qt

/-! ## The pump -/

structure MessagePumpForUIQt where
  timerId : Nat
  timerScheduledTime : Int
  deriving DecidableEq, Repr

/-- A double converted to a 32-bit `int`: out of range gives `INT_MIN`. -/
def toInt32 (x : Int) : Int := if -2 ^ 31 ≤ x ∧ x < 2 ^ 31 then x else -2 ^ 31

def getTimeIntervalMilliseconds (now «from» : Int) : Int :=
  if TimeTicks.isNull «from» then -1
  else
    let delay := toInt32 (-((-(«from» - now)) / 1000))
    if delay < 0 then 0 else delay

/-! ## The UI thread's stack -/

/-- Where `handleScheduledWork` is. -/
inductive WorkPc where
  /-- In `DoWork`, before `ReloadWorkQueue`. -/
  | doWork
  | popWork
  | workTask
  /-- Before `DoDelayedWork`, with `more_work_is_plausible`. -/
  | doDelayedWork (more : Bool)
  | delayedTask
  /-- Before `DoIdleWork`, with `delayed_work_time`. -/
  | doIdleWork (delayedWorkTime : Int)
  | idleTask
  deriving DecidableEq, Repr

inductive Frame where
  | customEvent (pc : WorkPc)
  /-- `timerEvent`, its `DoDelayedWork` running a task, with `next_delayed_work_time`. -/
  | timerEvent (next : Int)
  | onIdle
  | eventLoop
  deriving DecidableEq, Repr

def Frame.running : Frame → Bool
  | .customEvent .workTask | .customEvent .delayedTask | .customEvent .idleTask => true
  | .timerEvent _ | .onIdle => true
  | _ => false

structure State where
  loop : MessageLoop
  pump : MessagePumpForUIQt
  qt : Qt
  now : Int
  stack : List Frame

namespace State

/-- The UI thread in the Qt event loop `Run` entered, nothing posted yet. -/
def start (now : Int) : State := ⟨.new, ⟨0, 0⟩, ⟨0, [], 1, false⟩, now, []⟩

def Idle (s : State) : Prop := s.stack = []

instance (s : State) : Decidable s.Idle := inferInstanceAs (Decidable (s.stack = []))

def Quitting (s : State) : Prop := s.loop.quitWhenIdleReceived = true ∨ s.qt.quit = true

instance (s : State) : Decidable s.Quitting := inferInstanceAs (Decidable (_ ∨ _))

/-- A Qt event loop is on top of the stack, the one of `Run` or a nested one. -/
def inEventLoop (s : State) : Bool :=
  match s.stack with
  | [] | .eventLoop :: _ => true
  | _ => false

theorem inEventLoop_congr {s s' : State} (h : s'.stack = s.stack) :
    s'.inEventLoop = s.inEventLoop := by
  simp only [inEventLoop, h]

def inTask (s : State) : Bool := s.stack.head?.any Frame.running

@[simp] def push (s : State) (f : Frame) : State := { s with stack := f :: s.stack }

@[simp] def goto (s : State) (f : Frame) : State := { s with stack := f :: s.stack.tail }

@[simp] def ret (s : State) : State := { s with stack := s.stack.tail }

@[simp] def setLoop (s : State) (l : MessageLoop) : State := { s with loop := l }

@[simp] def scheduleWork (s : State) : State := { s with qt := s.qt.postEvent }

@[simp] def quit (s : State) : State := { s with qt := { s.qt with quit := true } }

def disarm (s : State) : State := { s with qt := s.qt.killTimer s.pump.timerId, pump := ⟨0, 0⟩ }

/-- Replace the pump's timer by one for `delayedWorkTime`. -/
def arm (s : State) (delayedWorkTime : Int) : State :=
  let r := (s.qt.killTimer s.pump.timerId).startTimer
    (getTimeIntervalMilliseconds s.now delayedWorkTime)
  { s with qt := r.1, pump := ⟨r.2, delayedWorkTime⟩ }

def scheduleDelayedWork (s : State) (delayedWorkTime : Int) : State :=
  if TimeTicks.isNull delayedWorkTime then s.disarm
  else if s.pump.timerId = 0 ∨ delayedWorkTime < s.pump.timerScheduledTime then
    s.arm delayedWorkTime
  else s

/-- `MessageLoop::PostDelayedTask` or `PostNonNestableDelayedTask`. -/
def post (s : State) (task : Nat) (delay : Int) (nestable : Bool) : State :=
  let r := s.loop.incomingTaskQueue.addToIncomingQueue s.now task delay nestable
  let s := s.setLoop { s.loop with incomingTaskQueue := r.queue }
  if r.scheduleWork then s.scheduleWork else s

def setNestableTasksAllowed (s : State) (allowed : Bool) : State :=
  let s := if allowed then s.scheduleWork else s
  s.setLoop { s.loop with nestableTasksAllowed := allowed }

/-- Qt takes a pending `QEvent::User` from its queue. -/
@[simp] def takeEvent (s : State) : State :=
  { s with qt := { s.qt with userEvents := s.qt.userEvents - 1 } }

/-- Qt delivers a `QEvent::User`: `customEvent` enters `handleScheduledWork`,
where `DoWork` returns at once when nestable tasks are not allowed. -/
@[simp] def customEvent (s : State) : State :=
  s.takeEvent.push
    (.customEvent (if s.loop.nestableTasksAllowed then .doWork else .doDelayedWork false))

/-- Qt delivers a timer event: `timerEvent`, up to the task it runs, if any. -/
def timerEvent (s : State) : State :=
  let s := s.disarm
  let r := s.loop.doDelayedWork s.now 0
  let s := s.setLoop r.loop
  match r.run with
  | some _ => s.push (.timerEvent r.next)
  | none => s.scheduleDelayedWork r.next

/-- Qt emits `aboutToBlock`: `OnIdle`, up to the task it runs, if any. -/
def onIdle (s : State) : State :=
  let r := s.loop.doIdleWork
  let s := s.setLoop r.loop
  match r.run with
  | some _ => s.push .onIdle
  | none => if r.quit then s.quit else s

/-- `customEvent` after `handleScheduledWork` has returned `true`. -/
@[simp] def repost (s : State) : State := s.ret.scheduleWork

/-- The next piece of `handleScheduledWork` at `pc`; none where a task is running. -/
def advance (s : State) : WorkPc → Option State
  | .doWork =>
    let s := s.setLoop s.loop.reloadWorkQueue
    some (s.goto (.customEvent (if s.loop.workQueue.isEmpty then .doDelayedWork false
      else .popWork)))
  | .popWork =>
    let r := s.loop.popWork
    let s := s.setLoop r.1
    match r.2 with
    | .none => some (s.goto (.customEvent .doWork))
    | .delayed p schedule => some (if schedule then s.scheduleDelayedWork p.delayedRunTime else s)
    | .deferred => some s
    | .run _ => some (s.goto (.customEvent .workTask))
  | .doDelayedWork more =>
    let r := s.loop.doDelayedWork s.now 0
    let s := s.setLoop r.loop
    match r.run with
    | some _ => some (s.goto (.customEvent .delayedTask))
    | none => some (if more then s.repost else s.goto (.customEvent (.doIdleWork r.next)))
  | .doIdleWork delayedWorkTime =>
    let r := s.loop.doIdleWork
    let s := s.setLoop r.loop
    match r.run with
    | some _ => some (s.goto (.customEvent .idleTask))
    | none => some ((if r.quit then s.quit else s).scheduleDelayedWork delayedWorkTime).ret
  | .workTask | .delayedTask | .idleTask => none

/-- The handler on top of the stack after the task it ran has returned. -/
def resume (s : State) : Frame → Option State
  | .customEvent .workTask => some (s.goto (.customEvent (.doDelayedWork true)))
  | .customEvent .delayedTask | .customEvent .idleTask => some s.repost
  | .timerEvent next => some (s.ret.scheduleDelayedWork next)
  | .onIdle => some s.ret
  | _ => none

end State

/-! ## The machine -/

inductive Action where
  | post (task : Nat) (delay : Int) (nestable : Bool)
  | tick (d : Nat)
  | userEvent
  | timer (id : Nat)
  | aboutToBlock
  /-- The handler on top of the stack takes its next piece. -/
  | advance
  | setNestableTasksAllowed (allowed : Bool)
  | quitWhenIdle
  | quitNow
  | enterEventLoop
  | exitEventLoop
  | taskReturns
  deriving DecidableEq, Repr

def step (s : State) : Action → Option State
  | .post task delay nestable => some (s.post task delay nestable)
  | .tick d => some { s with now := s.now + d }
  | .userEvent => if s.inEventLoop ∧ 0 < s.qt.userEvents then some s.customEvent else none
  | .timer id => if s.inEventLoop ∧ s.qt.Live id then some s.timerEvent else none
  | .aboutToBlock => if s.inEventLoop then some s.onIdle else none
  | .advance =>
    match s.stack with
    | .customEvent pc :: _ => s.advance pc
    | _ => none
  | .setNestableTasksAllowed allowed =>
    if s.inTask then some (s.setNestableTasksAllowed allowed) else none
  | .quitWhenIdle =>
    if s.inTask then some (s.setLoop { s.loop with quitWhenIdleReceived := true }) else none
  | .quitNow => if s.inTask then some s.quit else none
  | .enterEventLoop => if s.inTask then some (s.push .eventLoop) else none
  | .exitEventLoop => if s.stack.head? = some .eventLoop then some s.ret else none
  | .taskReturns =>
    match s.stack with
    | f :: _ => (s.setLoop s.loop.didRunTask).resume f
    | [] => none

/-- The UI thread and its message loop, over every order of posts, events and
task behaviour. -/
def pumpMachine : Machine State Action where
  init s := ∃ now, s = .start now
  step := step

end Mdgate.Ui
