import Mathlib.Data.List.Perm.Basic
import Mdgate.Base.MessageLoop

/-!
# The default message pump

`MessagePumpDefault::Run` and the `MessageLoop` it serves. A task that the pump
runs may run a nested `RunLoop`, which calls `Run` again: `runs` is the stack of
the calls that have not returned. `MessagePumpForIO` calls the functions of its
delegate in the same order.

A wait may end at any time. Where `AfterRun` carries out a deferred `QuitNow`, it
is the code that ran the nested `RunLoop` that calls `quit`.
-/

namespace Mdgate.Base

/-- Where a `MessagePumpDefault::Run` is. -/
inductive RunPc where
  /-- In `DoWork`, before `ReloadWorkQueue`. -/
  | doWork
  | popWork
  | workTask (task : Nat)
  /-- Before `DoDelayedWork`, with `did_work`. -/
  | doDelayedWork (didWork : Bool)
  | delayedTask (task : Nat)
  | doIdleWork
  | idleTask (task : Nat)
  | wait
  deriving DecidableEq, Repr

def RunPc.task? : RunPc → Option Nat
  | workTask t | delayedTask t | idleTask t => some t
  | _ => none

/-- A call of `MessagePumpDefault::Run`. -/
structure Run where
  pc : RunPc
  /-- `quit_when_idle_received_` of the `RunLoop` around this one. -/
  outerQuitWhenIdle : Bool
  deriving DecidableEq, Repr

structure MessagePumpDefault where
  loop : MessageLoop
  keepRunning : Bool
  delayedWorkTime : Int
  /-- The calls of `Run` that have not returned, the innermost first. -/
  runs : List Run

def MessageLoop.queued (l : MessageLoop) : List PendingTask :=
  l.workQueue ++ l.incomingTaskQueue.incomingQueue ++ l.deferredNonNestableWorkQueue ++
    l.delayedWorkQueue.tasks

namespace MessagePumpDefault

def new : MessagePumpDefault := ⟨.new, true, 0, []⟩

@[simp] def setLoop (m : MessagePumpDefault) (l : MessageLoop) : MessagePumpDefault :=
  { m with loop := l }

@[simp] def goto (m : MessagePumpDefault) (pc : RunPc) : MessagePumpDefault :=
  { m with runs := m.runs.modifyHead fun r => { r with pc } }

/-- `RunLoop::Run`, up to the first call of the delegate. -/
def run (m : MessagePumpDefault) : MessagePumpDefault :=
  { m with
    loop := { m.loop with runDepth := m.runs.length + 1, quitWhenIdleReceived := false }
    runs := ⟨.doWork, m.loop.quitWhenIdleReceived⟩ :: m.runs }

/-- `Run` returns, and `RunLoop::Run` with it. -/
def returned (m : MessagePumpDefault) : MessagePumpDefault :=
  match m.runs with
  | [] => m
  | r :: rest =>
    { m with
      loop := { m.loop with runDepth := rest.length, quitWhenIdleReceived := r.outerQuitWhenIdle }
      keepRunning := true
      runs := rest }

/-- `if (!keep_running_) break`, and otherwise on to `pc`. -/
def unlessQuit (m : MessagePumpDefault) (pc : RunPc) : MessagePumpDefault :=
  if m.keepRunning then m.goto pc else m.returned

@[simp] def quit (m : MessagePumpDefault) : MessagePumpDefault := { m with keepRunning := false }

@[simp] def quitWhenIdle (m : MessagePumpDefault) : MessagePumpDefault :=
  m.setLoop { m.loop with quitWhenIdleReceived := true }

/-- `MessageLoop::SetNestableTasksAllowed`; `ScheduleWork` only ends a wait. -/
@[simp] def setNestableTasksAllowed (m : MessagePumpDefault) (allowed : Bool) :
    MessagePumpDefault :=
  m.setLoop { m.loop with nestableTasksAllowed := allowed }

/-- `MessageLoop::PostDelayedTask` or `PostNonNestableDelayedTask`. -/
def post (m : MessagePumpDefault) (now : Int) (task : Nat) (delay : Int) (nestable : Bool) :
    MessagePumpDefault :=
  m.setLoop { m.loop with
    incomingTaskQueue :=
      (m.loop.incomingTaskQueue.addToIncomingQueue now task delay nestable).queue }

def task? (m : MessagePumpDefault) : Option Nat := m.runs.head?.bind fun r => r.pc.task?

/-- The next step of the innermost `Run`, up to the call of a task; the task that it calls. A
`DoWork` or `DoDelayedWork` that runs no task leaves `keep_running_` as it is, so that the test after
it is left out. -/
def step (m : MessagePumpDefault) (now : Int) : Option (MessagePumpDefault × Option PendingTask) :=
  match m.runs with
  | [] => none
  | r :: _ =>
    match r.pc with
    | .doWork =>
      if m.loop.nestableTasksAllowed then
        let l := m.loop.reloadWorkQueue
        some ((m.setLoop l).goto (if l.workQueue.isEmpty then .doDelayedWork false else .popWork),
          none)
      else some (m.goto (.doDelayedWork false), none)
    | .popWork =>
      let w := m.loop.popWork
      let m := m.setLoop w.1
      match w.2 with
      | .none => some (m.goto .doWork, none)
      | .delayed p schedule =>
        let time := if schedule then p.delayedRunTime else m.delayedWorkTime
        some ({ m with delayedWorkTime := time }, none)
      | .deferred => some (m, none)
      | .run p => some (m.goto (.workTask p.task), some p)
    | .doDelayedWork didWork =>
      let d := m.loop.doDelayedWork now m.delayedWorkTime
      let m := { m.setLoop d.loop with delayedWorkTime := d.next }
      match d.run with
      | some p => some (m.goto (.delayedTask p.task), some p)
      | none => some (m.goto (if didWork then .doWork else .doIdleWork), none)
    | .doIdleWork =>
      let i := m.loop.doIdleWork
      let m := m.setLoop i.loop
      match i.run with
      | some p => some (m.goto (.idleTask p.task), some p)
      | none => some ((if i.quit then m.quit else m).unlessQuit .wait, none)
    | .wait =>
      let past := !TimeTicks.isNull m.delayedWorkTime && decide (m.delayedWorkTime ≤ now)
      some ({ m with delayedWorkTime := if past then 0 else m.delayedWorkTime }.goto .doWork, none)
    | .workTask _ | .delayedTask _ | .idleTask _ => none

def taskReturns (m : MessagePumpDefault) : Option MessagePumpDefault :=
  match m.runs with
  | [] => none
  | r :: _ =>
    match r.pc with
    | .workTask _ => some ((m.setLoop m.loop.didRunTask).unlessQuit (.doDelayedWork true))
    | .delayedTask _ | .idleTask _ => some ((m.setLoop m.loop.didRunTask).unlessQuit .doWork)
    | .doWork | .popWork | .doDelayedWork _ | .doIdleWork | .wait => none

end MessagePumpDefault

/-! ## No task is lost or made up -/

namespace MessageLoop

variable (l : MessageLoop)

theorem queued_reloadWorkQueue : l.reloadWorkQueue.queued = l.queued := by
  rcases l.reloadWorkQueue_cases with ⟨hw, hi, n, he⟩ | ⟨hw, -, n, he⟩ | ⟨-, he⟩
  · simp [he, queued, hw, hi]
  · simp [he, queued, hw]
  · rw [he]

theorem deferOrRunPendingTask_cases (p : PendingTask) :
    l.deferOrRunPendingTask p = (l.runTask p, true) ∨
    l.deferOrRunPendingTask p =
      ({ l with deferredNonNestableWorkQueue := l.deferredNonNestableWorkQueue ++ [p] },
        false) := by
  unfold deferOrRunPendingTask
  split
  · exact .inl rfl
  · exact .inr rfl

def WorkItem.run? : WorkItem → Option PendingTask
  | .run p => some p
  | .none | .delayed _ _ | .deferred => Option.none

theorem perm_deferOrRun (p : PendingTask) :
    let r := l.deferOrRunPendingTask p
    (p :: l.queued).Perm ((if r.2 then [p] else []) ++ r.1.queued) := by
  rcases l.deferOrRunPendingTask_cases p with he | he
  · rw [he]
    exact .refl _
  · simp only [he, queued, Bool.false_eq_true, if_false, List.nil_append]
    grind

theorem perm_popWork : l.queued.Perm (l.popWork.2.run?.toList ++ l.popWork.1.queued) := by
  unfold popWork
  cases hw : l.workQueue with
  | nil => exact .refl _
  | cons p rest =>
    dsimp only
    split
    · simp only [WorkItem.run?, Option.toList_none, List.nil_append, queued, hw,
        DelayedTaskQueue.push]
      have hins := List.perm_orderedInsert PendingTask.NotAfter p l.delayedWorkQueue.tasks
      grind
    · have hperm := { l with workQueue := rest }.perm_deferOrRun p
      have hq : l.queued = p :: { l with workQueue := rest }.queued := by simp [queued, hw]
      rw [hq]
      apply hperm.trans
      split <;> simp [WorkItem.run?]

/-- `DoDelayedWork` pops the earliest task or leaves the queues as they are. -/
theorem doDelayedWork_popped (now next : Int) :
    ((l.doDelayedWork now next).run = none ∧ (l.doDelayedWork now next).loop.queued = l.queued) ∨
    ∃ p t, l.delayedWorkQueue.top? = some p ∧
      let r := { l with recentTime := t, delayedWorkQueue := l.delayedWorkQueue.pop
        }.deferOrRunPendingTask p
      (l.doDelayedWork now next).run = (if r.2 then some p else none) ∧
        (l.doDelayedWork now next).loop = r.1 := by
  unfold doDelayedWork
  split
  · next p _ htop =>
    by_cases hahead : p.delayedRunTime > l.recentTime
    · by_cases hlate : p.delayedRunTime > now
      · apply Or.inl
        simp only [hahead, hlate, if_true, and_self]
        exact ⟨trivial, rfl⟩
      · simp only [hahead, hlate, if_true, and_false, if_false]
        exact .inr ⟨p, now, htop, rfl, rfl⟩
    · simp only [hahead, if_false, false_and]
      exact .inr ⟨p, l.recentTime, htop, rfl, rfl⟩
  · exact .inl ⟨rfl, rfl⟩

theorem perm_doDelayedWork (now next : Int) : l.queued.Perm
    ((l.doDelayedWork now next).run.toList ++ (l.doDelayedWork now next).loop.queued) := by
  rcases l.doDelayedWork_popped now next with ⟨hrun, hqueued⟩ | ⟨p, t, htop, hrun, hloop⟩
  · rw [hrun, hqueued]
    exact .refl _
  · obtain ⟨rest, hrest⟩ := List.head?_eq_some_iff.mp htop
    have hpop : l.queued.Perm
        (p :: { l with recentTime := t, delayedWorkQueue := l.delayedWorkQueue.pop }.queued) := by
      simp only [queued, hrest, DelayedTaskQueue.tasks_pop, List.tail_cons]
      exact List.perm_middle
    rw [hrun, hloop]
    apply (hpop.trans (perm_deferOrRun _ p)).trans
    split <;> simp

theorem perm_doIdleWork : l.queued.Perm (l.doIdleWork.run.toList ++ l.doIdleWork.loop.queued) := by
  unfold doIdleWork
  split
  · next p rest _ hdeferred =>
    simp only [Option.toList_some, queued, hdeferred, runTask_workQueue, runTask_incomingTaskQueue,
      runTask_deferred, runTask_delayedWorkQueue]
    grind
  · exact .refl _

end MessageLoop

namespace MessagePumpDefault

variable {m m' : MessagePumpDefault} {now : Int} {t : Option PendingTask}

@[simp] theorem returned_queued (m : MessagePumpDefault) :
    m.returned.loop.queued = m.loop.queued := by
  unfold returned
  split <;> rfl

@[simp] theorem unlessQuit_queued (m : MessagePumpDefault) (pc : RunPc) :
    (m.unlessQuit pc).loop.queued = m.loop.queued := by
  unfold unlessQuit
  split
  · rfl
  · exact returned_queued m

/-- **A step of the pump takes from the queues the task that it calls, and nothing else.** -/
theorem step_perm (hs : m.step now = some (m', t)) :
    m.loop.queued.Perm (t.toList ++ m'.loop.queued) := by
  obtain ⟨l, keep, next, runs⟩ := m
  cases runs with
  | nil => cases hs
  | cons r rest =>
    obtain ⟨pc, outer⟩ := r
    cases pc with
    | doWork =>
      simp only [step] at hs
      split at hs <;> cases hs
      · exact .of_eq (l.queued_reloadWorkQueue).symm
      · exact .refl _
    | popWork =>
      have hperm := l.perm_popWork
      simp only [step] at hs
      split at hs <;> cases hs <;> simp_all [MessageLoop.WorkItem.run?]
    | doDelayedWork didWork =>
      have hperm := l.perm_doDelayedWork now next
      simp only [step] at hs
      split at hs <;> cases hs <;> simp_all
    | doIdleWork =>
      have hperm := l.perm_doIdleWork
      simp only [step] at hs
      split at hs <;> cases hs
      · simp_all
      · simp only [*, Option.toList_none, List.nil_append, unlessQuit_queued] at hperm ⊢
        split <;> exact hperm
    | wait =>
      cases hs
      exact .refl _
    | workTask | delayedTask | idleTask => cases hs

/-- What a post adds to the queues; it adds nothing to a loop that is being destroyed. -/
theorem post_spec (m : MessagePumpDefault) (now : Int) (task : Nat) (delay : Int)
    (nestable : Bool) : ∃ (p : PendingTask) (ps : List PendingTask), p.task = task ∧
      p.delayedRunTime = IncomingTaskQueue.calculateDelayedRuntime now delay ∧
      ps = (if m.loop.incomingTaskQueue.messageLoop then [p] else []) ∧
      (m.post now task delay nestable).loop.incomingTaskQueue.incomingQueue =
        m.loop.incomingTaskQueue.incomingQueue ++ ps ∧
      (m.post now task delay nestable).loop.queued.Perm (ps ++ m.loop.queued) := by
  obtain ⟨p, hp, htime, hq⟩ :=
    m.loop.incomingTaskQueue.addToIncomingQueue_spec now task delay nestable
  refine ⟨p, _, hp, htime, rfl, hq, ?_⟩
  simp only [post, setLoop, MessageLoop.queued, hq]
  grind

theorem run_queued (m : MessagePumpDefault) : m.run.loop.queued = m.loop.queued := rfl

theorem taskReturns_queued (hs : m.taskReturns = some m') : m'.loop.queued = m.loop.queued := by
  unfold taskReturns at hs
  split at hs
  · cases hs
  · split at hs <;> cases hs <;> exact unlessQuit_queued _ _

theorem taskReturns_eq_none (h : m.task? = none) : m.taskReturns = none := by
  unfold taskReturns
  cases hruns : m.runs with
  | nil => rfl
  | cons r rest =>
    cases hpc : r.pc <;> simp_all [task?, RunPc.task?]

/-! ## The first task -/

/-- The pump is before its first task, which will be `p`: the tasks posted before it are not to be
run at once. -/
structure First (m : MessagePumpDefault) (p : PendingTask) : Prop where
  runs : ∃ r, m.runs = [r] ∧ (r.pc = .doWork ∨ r.pc = .popWork)
  runDepth : m.loop.runDepth = 1
  allowed : m.loop.nestableTasksAllowed = true
  immediate : p.delayedRunTime = 0
  waiting : ∃ delayed rest, (∀ q ∈ delayed, q.delayedRunTime ≠ 0) ∧
    m.loop.workQueue ++ m.loop.incomingTaskQueue.incomingQueue = delayed ++ p :: rest

variable {p : PendingTask}

theorem First.task? (h : m.First p) : m.task? = none := by
  obtain ⟨⟨pc, outer⟩, hruns, rfl | rfl⟩ := h.runs
  · simp [MessagePumpDefault.task?, hruns, RunPc.task?]
  · simp [MessagePumpDefault.task?, hruns, RunPc.task?]

theorem First.runs_ne_nil (h : m.First p) : m.runs ≠ [] := by
  obtain ⟨r, hruns, -⟩ := h.runs
  simp [hruns]

theorem First.post (h : m.First p) (now : Int) (task : Nat) (delay : Int) (nestable : Bool) :
    (m.post now task delay nestable).First p := by
  obtain ⟨-, ps, -, -, -, hq, -⟩ := m.post_spec now task delay nestable
  obtain ⟨delayed, rest, hdelayed, hwaiting⟩ := h.waiting
  refine ⟨h.runs, h.runDepth, h.allowed, h.immediate, delayed, rest ++ ps, hdelayed, ?_⟩
  rw [hq, ← List.append_assoc, ← List.cons_append, ← List.append_assoc]
  exact congrArg (· ++ ps) hwaiting

/-- `Run` is called, and the first task that is to be run at once is `p`. -/
theorem First.ofRun (hruns : m.runs = []) (hallowed : m.loop.nestableTasksAllowed = true)
    (himm : p.delayedRunTime = 0)
    (hwaiting : ∃ delayed rest, (∀ q ∈ delayed, q.delayedRunTime ≠ 0) ∧
      m.loop.workQueue ++ m.loop.incomingTaskQueue.incomingQueue = delayed ++ p :: rest) :
    m.run.First p := by
  refine ⟨⟨⟨.doWork, m.loop.quitWhenIdleReceived⟩, ?_, .inl rfl⟩, ?_, hallowed, himm, hwaiting⟩
  · simp [run, hruns]
  · simp [run, hruns]

/-- The steps to the first task: one for each task that waits before it, and those that reload the
work queue. -/
def distance (m : MessagePumpDefault) : Nat :=
  3 * (m.loop.workQueue ++ m.loop.incomingTaskQueue.incomingQueue).length +
    if m.runs.head?.any fun r => r.pc = .doWork then 1 else 2 - 2 * m.loop.workQueue.length

/-- The pump takes a step towards `p`, or calls it. -/
abbrev StepsTowards (m : MessagePumpDefault) (p : PendingTask) (now : Int) : Prop :=
  ∃ m' t, m.step now = some (m', t) ∧
    ((t = none ∧ m'.First p ∧ m'.distance < m.distance) ∨ t = some p)

theorem First.doWork_step (h : m.First p) {outer : Bool} (hruns : m.runs = [⟨.doWork, outer⟩])
    (now : Int) : m.StepsTowards p now := by
  obtain ⟨l, keep, next, runs⟩ := m
  obtain rfl : runs = [⟨.doWork, outer⟩] := hruns
  obtain ⟨-, hdepth, hallowed, himm, delayed, rest, hdelayed, hwaiting⟩ := h
  dsimp only at hdepth hallowed hwaiting
  simp only [StepsTowards, MessagePumpDefault.step, hallowed, if_true]
  refine ⟨_, _, rfl, .inl ⟨rfl, ?_⟩⟩
  rcases l.reloadWorkQueue_cases with ⟨hw, hi, -⟩ | ⟨hw, hi, n, he⟩ | ⟨hw, he⟩
  · simp [hw, hi] at hwaiting
  · rw [he]
    refine ⟨⟨⟨_, rfl, ?_⟩, hdepth, hallowed, himm, delayed, rest, hdelayed, ?_⟩, ?_⟩
    · simp [hi]
    · simpa [hw] using hwaiting
    · have hlength := List.length_pos_iff.mpr hi
      simp [distance, hw, hi]
      omega
  · rw [he]
    refine ⟨⟨⟨_, rfl, ?_⟩, hdepth, hallowed, himm, delayed, rest, hdelayed, hwaiting⟩, ?_⟩
    · simp [hw]
    · have hlength := List.length_pos_iff.mpr hw
      simp [distance, hw]
      omega

/-- A task that waits before `p` goes to the delayed queue. -/
theorem First.popWork_step (h : m.First p) {outer : Bool} (hruns : m.runs = [⟨.popWork, outer⟩])
    (now : Int) : m.StepsTowards p now := by
  obtain ⟨l, keep, next, runs⟩ := m
  obtain rfl : runs = [⟨.popWork, outer⟩] := hruns
  obtain ⟨-, hdepth, hallowed, himm, delayed, rest, hdelayed, hwaiting⟩ := h
  dsimp only at hdepth hallowed hwaiting
  simp only [StepsTowards, MessagePumpDefault.step]
  rcases l.popWork_cases hdepth with ⟨hw, he⟩ | ⟨q, rest', b, hw, hq, he⟩ | ⟨q, rest', hw, hq, he⟩
  · rw [he]
    refine ⟨_, _, rfl, .inl ⟨rfl, ?_, ?_⟩⟩
    · exact ⟨⟨_, rfl, .inl rfl⟩, hdepth, hallowed, himm, delayed, rest, hdelayed, hwaiting⟩
    · simp [distance, hw]
  · rw [he]
    rw [hw, List.cons_append] at hwaiting
    cases delayed with
    | nil =>
      obtain ⟨rfl, -⟩ := List.cons.inj hwaiting
      exact absurd himm hq
    | cons d ds =>
      obtain ⟨-, htail⟩ := List.cons.inj hwaiting
      refine ⟨_, _, rfl, .inl ⟨rfl, ?_, ?_⟩⟩
      · exact ⟨⟨_, rfl, .inr rfl⟩, hdepth, hallowed, himm, ds, rest,
          fun q hq => hdelayed q (List.mem_cons_of_mem d hq), htail⟩
      · simp only [distance, setLoop, hw, List.head?_cons, Option.any_some, reduceCtorEq,
          decide_false, Bool.false_eq_true, if_false, List.cons_append, List.length_cons]
        omega
  · rw [he]
    rw [hw, List.cons_append] at hwaiting
    cases delayed with
    | nil =>
      obtain ⟨rfl, -⟩ := List.cons.inj hwaiting
      exact ⟨_, _, rfl, .inr rfl⟩
    | cons d ds =>
      obtain ⟨rfl, -⟩ := List.cons.inj hwaiting
      exact absurd hq (hdelayed q List.mem_cons_self)

/-- **The first task of the pump is `p`**, and the pump comes to it. -/
theorem First.stepsTowards (h : m.First p) (now : Int) : m.StepsTowards p now := by
  obtain ⟨⟨pc, outer⟩, hruns, rfl | rfl⟩ := h.runs
  · exact h.doWork_step hruns now
  · exact h.popWork_step hruns now

theorem First.step (h : m.First p) (hs : m.step now = some (m', t)) :
    (t = none ∧ m'.First p) ∨ t = some p := by
  obtain ⟨m₁, t₁, hs₁, h₁⟩ := h.stepsTowards now
  rw [hs₁] at hs
  cases hs
  exact h₁.imp_left fun ⟨ht, hfirst, _⟩ => ⟨ht, hfirst⟩

end MessagePumpDefault

end Mdgate.Base
