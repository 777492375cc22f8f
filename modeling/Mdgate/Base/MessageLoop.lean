import Mdgate.Base.PendingTask

/-!
# `MessageLoop` and `IncomingTaskQueue`

The queues of one message loop and the pieces of its delegate functions
(`DoWork`, `DoDelayedWork`, `DoIdleWork`) that run without leaving the loop. A
task body is foreign code, so a function that reaches `RunTask` stops there and
returns the task: its caller, a pump, runs the body between `runTask` and
`didRunTask`. A call of the pump (`ScheduleWork`, `ScheduleDelayedWork`, `Quit`)
is returned the same way.

`runDepth` and `quitWhenIdleReceived` are the fields of the innermost `RunLoop`
that the loop reads. The Windows branches are the ones modelled.
-/

namespace Mdgate.Base

/-! ## The inter-thread queue -/

structure IncomingTaskQueue where
  incomingQueue : List PendingTask
  highResTaskCount : Int
  /-- `message_loop_` is still set. -/
  messageLoop : Bool
  nextSequenceNum : Int32
  messageLoopScheduled : Bool
  alwaysScheduleWork : Bool
  /-- Ghost: the number of tasks accepted so far. -/
  accepted : Nat
  deriving DecidableEq, Repr

namespace IncomingTaskQueue

/-- `AlwaysNotifyPump` is false off Android. -/
def new : IncomingTaskQueue := ⟨[], 0, true, 0, false, false, 0⟩

def calculateDelayedRuntime (now delay : Int) : Int :=
  if delay > 0 then TimeDelta.saturatedAdd delay now else 0

/-- What a post did: the queue, the result, and whether `ScheduleWork` was called. -/
structure Posted where
  queue : IncomingTaskQueue
  result : Bool
  scheduleWork : Bool

def postPendingTask (q : IncomingTaskQueue) (p : PendingTask) : Posted :=
  if !q.messageLoop then ⟨q, false, false⟩
  else
    let wasEmpty := q.incomingQueue.isEmpty
    let schedule := q.alwaysScheduleWork || (!q.messageLoopScheduled && wasEmpty)
    ⟨{ q with
        nextSequenceNum := q.nextSequenceNum + 1
        incomingQueue := q.incomingQueue ++
          [{ p with sequenceNum := q.nextSequenceNum, serial := q.accepted }]
        messageLoopScheduled := q.messageLoopScheduled || schedule
        accepted := q.accepted + 1 }, true, schedule⟩

def addToIncomingQueue (q : IncomingTaskQueue) (now : Int) (task : Nat) (delay : Int)
    (nestable : Bool) : Posted :=
  let highRes := decide (delay > 0) &&
    decide (TimeDelta.inMilliseconds delay < 2 * minLowResolutionThresholdMs)
  let q := if highRes then { q with highResTaskCount := q.highResTaskCount + 1 } else q
  q.postPendingTask ⟨task, calculateDelayedRuntime now delay, 0, nestable, highRes, 0⟩

/-- `IncomingTaskQueue::ReloadWorkQueue` on an empty work queue: the queue, the
new work queue and the count of high resolution tasks. -/
def reloadWorkQueue (q : IncomingTaskQueue) : IncomingTaskQueue × List PendingTask × Int :=
  let q' := { q with highResTaskCount := 0 }
  if q.incomingQueue.isEmpty then
    ({ q' with messageLoopScheduled := false }, [], q.highResTaskCount)
  else ({ q' with incomingQueue := [] }, q.incomingQueue, q.highResTaskCount)

/-- A post schedules the loop, or finds it scheduled or the queue not empty; a
post after `WillDestroyCurrentMessageLoop` does nothing. -/
theorem postPendingTask_cases (q : IncomingTaskQueue) (p : PendingTask) :
    ((q.postPendingTask p).queue = q ∧ (q.postPendingTask p).scheduleWork = false) ∨
    ((q.postPendingTask p).queue.messageLoopScheduled =
        (q.messageLoopScheduled || (q.postPendingTask p).scheduleWork) ∧
      ((q.postPendingTask p).scheduleWork = true ∨ q.messageLoopScheduled = true ∨
        q.incomingQueue ≠ [])) := by
  unfold postPendingTask
  by_cases hm : q.messageLoop = true
  · apply Or.inr
    by_cases hs : q.messageLoopScheduled = true <;> by_cases hi : q.incomingQueue = [] <;>
      simp [hm, hs, hi]
  · exact .inl (by simp [hm])

theorem addToIncomingQueue_eq (q : IncomingTaskQueue) (now : Int) (task : Nat) (delay : Int)
    (nestable : Bool) : ∃ (n : Int) (p : PendingTask),
      q.addToIncomingQueue now task delay nestable =
        { q with highResTaskCount := n }.postPendingTask p := by
  simp only [addToIncomingQueue]
  split
  · exact ⟨_, _, rfl⟩
  · exact ⟨q.highResTaskCount, _, rfl⟩

/-- A post adds its task, unless the loop is being destroyed. -/
theorem addToIncomingQueue_spec (q : IncomingTaskQueue) (now : Int) (task : Nat) (delay : Int)
    (nestable : Bool) : ∃ p : PendingTask, p.task = task ∧
      p.delayedRunTime = calculateDelayedRuntime now delay ∧
      (q.addToIncomingQueue now task delay nestable).queue.incomingQueue =
        q.incomingQueue ++ (if q.messageLoop then [p] else []) := by
  refine ⟨⟨task, calculateDelayedRuntime now delay, q.nextSequenceNum, nestable,
    decide (delay > 0) &&
      decide (TimeDelta.inMilliseconds delay < 2 * minLowResolutionThresholdMs), q.accepted⟩,
    rfl, rfl, ?_⟩
  simp only [addToIncomingQueue, postPendingTask]
  split <;> split <;> simp_all

@[simp] theorem postPendingTask_messageLoop (q : IncomingTaskQueue) (p : PendingTask) :
    (q.postPendingTask p).queue.messageLoop = q.messageLoop := by
  simp only [postPendingTask]; split <;> rfl

@[simp] theorem postPendingTask_alwaysScheduleWork (q : IncomingTaskQueue) (p : PendingTask) :
    (q.postPendingTask p).queue.alwaysScheduleWork = q.alwaysScheduleWork := by
  simp only [postPendingTask]; split <;> rfl

/-- A post to a live queue is accepted; it calls `ScheduleWork` only when the
loop is not scheduled. -/
theorem postPendingTask_live {q : IncomingTaskQueue} (h : q.messageLoop = true)
    (p : PendingTask) : (q.postPendingTask p).queue.incomingQueue ≠ [] ∧
      (q.alwaysScheduleWork = false → q.messageLoopScheduled = true →
        (q.postPendingTask p).scheduleWork = false) := by
  simp only [postPendingTask, h]
  exact ⟨by simp, fun ha hs => by simp [ha, hs]⟩

theorem addToIncomingQueue_live {q : IncomingTaskQueue} (h : q.messageLoop = true) (now : Int)
    (task : Nat) (delay : Int) (nestable : Bool) :
    (q.addToIncomingQueue now task delay nestable).queue.incomingQueue ≠ [] ∧
      (q.alwaysScheduleWork = false → q.messageLoopScheduled = true →
        (q.addToIncomingQueue now task delay nestable).scheduleWork = false) := by
  obtain ⟨n, p, he⟩ := q.addToIncomingQueue_eq now task delay nestable
  rw [he]
  exact postPendingTask_live (q := { q with highResTaskCount := n }) h p

end IncomingTaskQueue

/-! ## The loop -/

structure MessageLoop where
  workQueue : List PendingTask
  pendingHighResTasks : Int
  inHighResMode : Bool
  delayedWorkQueue : DelayedTaskQueue
  recentTime : Int
  deferredNonNestableWorkQueue : List PendingTask
  nestableTasksAllowed : Bool
  incomingTaskQueue : IncomingTaskQueue
  runDepth : Nat
  quitWhenIdleReceived : Bool

namespace MessageLoop

/-- A new loop inside its first `RunLoop::Run`. -/
def new : MessageLoop :=
  ⟨[], 0, false, .empty, 0, [], true, .new, 1, false⟩

def reloadWorkQueue (l : MessageLoop) : MessageLoop :=
  if l.workQueue.isEmpty then
    let r := l.incomingTaskQueue.reloadWorkQueue
    { l with
      incomingTaskQueue := r.1
      workQueue := r.2.1
      pendingHighResTasks := l.pendingHighResTasks + r.2.2 }
  else l

/-- `RunTask` up to the call of the task. -/
def runTask (l : MessageLoop) (p : PendingTask) : MessageLoop :=
  { l with
    pendingHighResTasks := if p.isHighRes then l.pendingHighResTasks - 1
      else l.pendingHighResTasks
    nestableTasksAllowed := false }

/-- `RunTask` after the task has returned. -/
@[simp] def didRunTask (l : MessageLoop) : MessageLoop := { l with nestableTasksAllowed := true }

/-- `DeferOrRunPendingTask`: the loop, and whether the task is to be run now. -/
def deferOrRunPendingTask (l : MessageLoop) (p : PendingTask) : MessageLoop × Bool :=
  if p.nestable || l.runDepth == 1 then (l.runTask p, true)
  else ({ l with deferredNonNestableWorkQueue := l.deferredNonNestableWorkQueue ++ [p] }, false)

/-- What one round of `DoWork`'s inner loop comes to. -/
inductive WorkItem where
  | none
  /-- The task was moved to the delayed queue; `ScheduleDelayedWork` is called
  when its closure equals the top's. -/
  | delayed (p : PendingTask) (schedule : Bool)
  | deferred
  | run (p : PendingTask)

/-- One round of `DoWork`'s inner loop. -/
def popWork (l : MessageLoop) : MessageLoop × WorkItem :=
  match l.workQueue with
  | [] => (l, .none)
  | p :: rest =>
    let l := { l with workQueue := rest }
    if !TimeTicks.isNull p.delayedRunTime then
      let q := l.delayedWorkQueue.push p
      ({ l with delayedWorkQueue := q },
        .delayed p ((q.top?.map (·.task)) == some p.task))
    else
      let r := l.deferOrRunPendingTask p
      (r.1, if r.2 then .run p else .deferred)

/-- What `DoDelayedWork` comes to: the loop, `*next_delayed_work_time`, and the
task it runs, if any. -/
structure DelayedWork where
  loop : MessageLoop
  next : Int
  run : Option PendingTask

/-- `DoDelayedWork`, with `next` the value the out parameter has at the call. -/
def doDelayedWork (l : MessageLoop) (now next : Int) : DelayedWork :=
  match l.nestableTasksAllowed, l.delayedWorkQueue.top? with
  | true, some p =>
    let ahead := p.delayedRunTime > l.recentTime
    let l := if ahead then { l with recentTime := now } else l
    if ahead ∧ p.delayedRunTime > l.recentTime then ⟨l, p.delayedRunTime, none⟩
    else
      let q := l.delayedWorkQueue.pop
      let r := { l with delayedWorkQueue := q }.deferOrRunPendingTask p
      ⟨r.1, if q.tasks.isEmpty then next else q.nextRunTime, if r.2 then some p else none⟩
  | _, _ => ⟨{ l with recentTime := 0 }, 0, none⟩

/-- What `DoIdleWork` comes to: the loop, the task it runs, if any, and whether
`Quit` is called on the pump. -/
structure IdleWork where
  loop : MessageLoop
  run : Option PendingTask
  quit : Bool

/-- `DoIdleWork`, with `ProcessNextDelayedNonNestableTask` inlined. -/
def doIdleWork (l : MessageLoop) : IdleWork :=
  match l.runDepth == 1, l.deferredNonNestableWorkQueue with
  | true, p :: rest => ⟨{ l with deferredNonNestableWorkQueue := rest }.runTask p, some p, false⟩
  | _, _ =>
    ⟨{ l with inHighResMode := decide (l.pendingHighResTasks > 0) }, none, l.quitWhenIdleReceived⟩

/-! ## What each piece can do

Outside nested `RunLoop`s (`runDepth = 1`) every task that is reached is run. -/

@[simp] theorem runTask_workQueue (l : MessageLoop) (p : PendingTask) :
    (l.runTask p).workQueue = l.workQueue := rfl
@[simp] theorem runTask_delayedWorkQueue (l : MessageLoop) (p : PendingTask) :
    (l.runTask p).delayedWorkQueue = l.delayedWorkQueue := rfl
@[simp] theorem runTask_incomingTaskQueue (l : MessageLoop) (p : PendingTask) :
    (l.runTask p).incomingTaskQueue = l.incomingTaskQueue := rfl
@[simp] theorem runTask_deferred (l : MessageLoop) (p : PendingTask) :
    (l.runTask p).deferredNonNestableWorkQueue = l.deferredNonNestableWorkQueue := rfl
@[simp] theorem runTask_runDepth (l : MessageLoop) (p : PendingTask) :
    (l.runTask p).runDepth = l.runDepth := rfl
@[simp] theorem runTask_quitWhenIdleReceived (l : MessageLoop) (p : PendingTask) :
    (l.runTask p).quitWhenIdleReceived = l.quitWhenIdleReceived := rfl
@[simp] theorem runTask_nestableTasksAllowed (l : MessageLoop) (p : PendingTask) :
    (l.runTask p).nestableTasksAllowed = false := rfl

theorem deferOrRunPendingTask_eq {l : MessageLoop} (h : l.runDepth = 1) (p : PendingTask) :
    l.deferOrRunPendingTask p = (l.runTask p, true) := by
  simp [deferOrRunPendingTask, h]

/-- After `ReloadWorkQueue` the work queue is empty only when both queues were,
and then the next post schedules the loop. -/
theorem reloadWorkQueue_cases (l : MessageLoop) :
    (l.workQueue = [] ∧ l.incomingTaskQueue.incomingQueue = [] ∧
      ∃ n, l.reloadWorkQueue = { l with
        incomingTaskQueue := { l.incomingTaskQueue with
          highResTaskCount := 0, messageLoopScheduled := false }
        pendingHighResTasks := n }) ∨
    (l.workQueue = [] ∧ l.incomingTaskQueue.incomingQueue ≠ [] ∧
      ∃ n, l.reloadWorkQueue = { l with
        incomingTaskQueue := { l.incomingTaskQueue with highResTaskCount := 0, incomingQueue := [] }
        workQueue := l.incomingTaskQueue.incomingQueue
        pendingHighResTasks := n }) ∨
    (l.workQueue ≠ [] ∧ l.reloadWorkQueue = l) := by
  unfold reloadWorkQueue IncomingTaskQueue.reloadWorkQueue
  by_cases hw : l.workQueue = []
  · by_cases hi : l.incomingTaskQueue.incomingQueue = []
    · exact .inl ⟨hw, hi, l.pendingHighResTasks + l.incomingTaskQueue.highResTaskCount,
        by simp [hw, hi]⟩
    · exact .inr (.inl ⟨hw, hi, l.pendingHighResTasks + l.incomingTaskQueue.highResTaskCount,
        by simp [hw, hi]⟩)
  · exact .inr (.inr ⟨hw, by simp [hw]⟩)

theorem popWork_cases {l : MessageLoop} (h : l.runDepth = 1) :
    (l.workQueue = [] ∧ l.popWork = (l, .none)) ∨
    (∃ p rest b, l.workQueue = p :: rest ∧ p.delayedRunTime ≠ 0 ∧
      l.popWork = ({ l with workQueue := rest, delayedWorkQueue := l.delayedWorkQueue.push p },
        .delayed p b)) ∨
    (∃ p rest, l.workQueue = p :: rest ∧ p.delayedRunTime = 0 ∧
      l.popWork = ({ l with workQueue := rest }.runTask p, .run p)) := by
  unfold popWork
  cases hw : l.workQueue with
  | nil => exact .inl ⟨rfl, rfl⟩
  | cons p rest =>
    by_cases hp : p.delayedRunTime = 0
    · refine .inr (.inr ⟨p, rest, rfl, hp, ?_⟩)
      simp [hp, deferOrRunPendingTask_eq (l := { l with workQueue := rest }) h]
    · refine .inr (.inl
        ⟨p, rest, ((l.delayedWorkQueue.push p).top?.map (·.task)) == some p.task, rfl, hp, ?_⟩)
      simp [TimeTicks.isNull_eq_false.mpr hp]

/-- `DoDelayedWork` finds nothing to run, or only work that is not due yet, or
it pops the earliest task and runs it, the next time read before that. -/
theorem doDelayedWork_cases {l : MessageLoop} (h : l.runDepth = 1) (now next : Int) :
    ((l.nestableTasksAllowed = false ∨ l.delayedWorkQueue.tasks = []) ∧
      l.doDelayedWork now next = ⟨{ l with recentTime := 0 }, 0, none⟩) ∨
    (∃ p, l.nestableTasksAllowed = true ∧ l.delayedWorkQueue.top? = some p ∧
      l.doDelayedWork now next = ⟨{ l with recentTime := now }, p.delayedRunTime, none⟩) ∨
    (∃ p t, l.nestableTasksAllowed = true ∧ l.delayedWorkQueue.top? = some p ∧
      l.doDelayedWork now next =
        ⟨{ l with recentTime := t, delayedWorkQueue := l.delayedWorkQueue.pop }.runTask p,
          if l.delayedWorkQueue.pop.tasks.isEmpty then next
          else l.delayedWorkQueue.pop.nextRunTime, some p⟩) := by
  cases hn : l.nestableTasksAllowed with
  | false => exact .inl ⟨.inl rfl, by simp [doDelayedWork, hn]⟩
  | true =>
    cases ht : l.delayedWorkQueue.top? with
    | none =>
      refine .inl ⟨.inr ?_, by simp [doDelayedWork, hn, ht]⟩
      simpa [DelayedTaskQueue.top?] using ht
    | some p =>
      by_cases h1 : p.delayedRunTime > l.recentTime
      · by_cases h2 : p.delayedRunTime > now
        · exact .inr (.inl ⟨p, rfl, rfl, by simp [doDelayedWork, hn, ht, h1, h2]⟩)
        · refine .inr (.inr ⟨p, now, rfl, rfl, ?_⟩)
          simp [doDelayedWork, hn, ht, h1, h2, deferOrRunPendingTask_eq, h]
      · refine .inr (.inr ⟨p, l.recentTime, rfl, rfl, ?_⟩)
        simp [doDelayedWork, hn, ht, h1, deferOrRunPendingTask_eq, h]

/-- The earliest delayed task may run, and its time has come. -/
def DelayedDue (l : MessageLoop) (now : Int) : Prop :=
  l.nestableTasksAllowed = true ∧ ∃ p, l.delayedWorkQueue.top? = some p ∧
    (p.delayedRunTime ≤ l.recentTime ∨ p.delayedRunTime ≤ now)

instance (l : MessageLoop) (now : Int) : Decidable (l.DelayedDue now) :=
  inferInstanceAs (Decidable (_ ∧ ∃ p ∈ l.delayedWorkQueue.top?, _))

theorem doDelayedWork_run_of_due {l : MessageLoop} {p : PendingTask} {now next : Int}
    (hd : l.runDepth = 1) (hn : l.nestableTasksAllowed = true)
    (hp : l.delayedWorkQueue.top? = some p)
    (h : p.delayedRunTime ≤ l.recentTime ∨ p.delayedRunTime ≤ now) :
    (l.doDelayedWork now next).run = some p := by
  by_cases hahead : l.recentTime < p.delayedRunTime
  · have hnot : ¬ now < p.delayedRunTime := by omega
    simp [doDelayedWork, hn, hp, hahead, hnot, deferOrRunPendingTask, hd]
  · simp [doDelayedWork, hn, hp, hahead, deferOrRunPendingTask, hd]

theorem doDelayedWork_run_eq_none {l : MessageLoop} {now next : Int} (h : ¬ l.DelayedDue now) :
    (l.doDelayedWork now next).run = none := by
  unfold doDelayedWork
  split
  · next p hn hp =>
    have hlate : ¬ (p.delayedRunTime ≤ l.recentTime ∨ p.delayedRunTime ≤ now) :=
      fun hdue => h ⟨hn, p, hp, hdue⟩
    have hahead : l.recentTime < p.delayedRunTime := by omega
    have hnot : now < p.delayedRunTime := by omega
    simp [hahead, hnot]
  · rfl

theorem doIdleWork_eq {l : MessageLoop} (h : l.deferredNonNestableWorkQueue = []) :
    l.doIdleWork = ⟨{ l with inHighResMode := decide (l.pendingHighResTasks > 0) }, none,
      l.quitWhenIdleReceived⟩ := by
  unfold doIdleWork
  rw [h]
  split <;> first | rfl | simp_all

end MessageLoop

end Mdgate.Base
