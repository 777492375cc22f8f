import Mdgate.Base.TaskOrder
import Mdgate.Lib.Machine

/-!
# The runs of a thread's message loop

The thread of a `MessagePumpDefault`, on which tasks post, quit and run nested `RunLoop`s, while
other threads post. Its log is `Sequenced`, and a non-nestable task runs in no other task.
-/

namespace Mdgate.Base

open Mdgate.Lib

structure LoopRun where
  pump : MessagePumpDefault
  now : Int
  log : List TaskEvent

namespace LoopRun

def start (now : Nat) : LoopRun := ⟨.new, now, []⟩

/-- The pump gets to `m`, which calls the task `t`; a task is posted with this delay. -/
def goto (s : LoopRun) (delay : Int) (m : MessagePumpDefault) (t : Option PendingTask) : LoopRun :=
  { s with pump := m, log := s.log ++ taskEvents delay s.pump.loop m.loop t }

/-- Code on the thread may call into the loop: a task, or the code that runs the loop. -/
def inCode (s : LoopRun) : Bool := s.pump.runs.isEmpty || s.pump.task?.isSome

/-- No sequence number has rolled over since a task that waits in the delayed queue. -/
def NoRollOver (s : LoopRun) : Prop := s.pump.loop.queues.NoRollOver

instance : DecidablePred NoRollOver :=
  fun s => inferInstanceAs (Decidable s.pump.loop.queues.NoRollOver)

def running (s : LoopRun) : List Nat := s.pump.runs.filterMap fun r => r.pc.task?

end LoopRun

inductive LoopAction where
  | post (task : Nat) (delay : Int) (nestable : Bool)
  | tick (d : Nat)
  | pump
  | taskReturns
  | run
  | quit
  | quitWhenIdle
  | setNestableTasksAllowed (allowed : Bool)
  deriving DecidableEq, Repr

namespace LoopRun

def step (s : LoopRun) : LoopAction → Option LoopRun
  | .post task delay nestable => some (s.goto delay (s.pump.post s.now task delay nestable) none)
  | .tick d => some { s with now := s.now + d }
  | .pump => (s.pump.step s.now).map fun r => s.goto 0 r.1 r.2
  | .taskReturns => s.pump.taskReturns.map fun m => s.goto 0 m none
  | .run => if s.inCode then some (s.goto 0 s.pump.run none) else none
  | .quit => if s.pump.task?.isSome then some (s.goto 0 s.pump.quit none) else none
  | .quitWhenIdle => if s.pump.task?.isSome then some (s.goto 0 s.pump.quitWhenIdle none) else none
  | .setNestableTasksAllowed allowed =>
    if s.inCode then some (s.goto 0 (s.pump.setNestableTasksAllowed allowed) none) else none

end LoopRun

/-- A thread's loop over every order of posts, quits, nested runs and waits. -/
def loopMachine : Machine LoopRun LoopAction := ⟨fun s => ∃ now, s = .start now, LoopRun.step⟩

/-! ## `run_depth_` -/

namespace MessageLoop

variable (l : MessageLoop)

@[simp] theorem reloadWorkQueue_runDepth : l.reloadWorkQueue.runDepth = l.runDepth := by
  unfold reloadWorkQueue
  split <;> rfl

@[simp] theorem deferOrRunPendingTask_runDepth (p : PendingTask) :
    (l.deferOrRunPendingTask p).1.runDepth = l.runDepth := by
  unfold deferOrRunPendingTask
  split <;> rfl

@[simp] theorem popWork_runDepth : l.popWork.1.runDepth = l.runDepth := by
  unfold popWork
  split
  · rfl
  · dsimp only
    split
    · rfl
    · exact deferOrRunPendingTask_runDepth _ _

@[simp] theorem doDelayedWork_runDepth (now next : Int) :
    (l.doDelayedWork now next).loop.runDepth = l.runDepth := by
  unfold doDelayedWork
  split
  · dsimp only
    split_ifs <;> first | rfl | exact deferOrRunPendingTask_runDepth _ _
  · rfl

@[simp] theorem doIdleWork_runDepth : l.doIdleWork.loop.runDepth = l.runDepth := by
  unfold doIdleWork
  split <;> rfl

end MessageLoop

/-! ## The pump follows its loop -/

namespace MessagePumpDefault

variable {m m' : MessagePumpDefault} {now : Int} {t : Option PendingTask}

@[simp] theorem returned_queues (m : MessagePumpDefault) :
    m.returned.loop.queues = m.loop.queues := by
  unfold returned
  split <;> rfl

@[simp] theorem unlessQuit_queues (m : MessagePumpDefault) (pc : RunPc) :
    (m.unlessQuit pc).loop.queues = m.loop.queues := by
  unfold unlessQuit
  split
  · rfl
  · exact returned_queues m

theorem step_follows (hs : m.step now = some (m', t)) (delay : Int) :
    m.loop.Follows now delay m'.loop t := by
  obtain ⟨l, keep, next, runs⟩ := m
  cases runs with
  | nil => cases hs
  | cons r rest =>
    obtain ⟨pc, outer⟩ := r
    cases pc with
    | doWork =>
      simp only [step] at hs
      split at hs <;> cases hs
      · exact l.follows_reloadWorkQueue now delay
      · exact .of_eq rfl now delay
    | popWork =>
      have hfollows := l.follows_popWork now delay
      simp only [step] at hs
      split at hs <;> cases hs <;> simp_all [MessageLoop.WorkItem.run?]
    | doDelayedWork didWork =>
      have hfollows := l.follows_doDelayedWork now next delay
      simp only [step] at hs
      split at hs <;> cases hs <;> simp_all
    | doIdleWork =>
      have hfollows := l.follows_doIdleWork now delay
      simp only [step] at hs
      split at hs <;> cases hs
      · simp_all
      · next hrun =>
        rw [hrun] at hfollows
        refine hfollows.congr ?_
        rw [unlessQuit_queues]
        split <;> rfl
    | wait =>
      cases hs
      exact .of_eq rfl now delay
    | workTask | delayedTask | idleTask => cases hs

theorem taskReturns_queues (hs : m.taskReturns = some m') : m'.loop.queues = m.loop.queues := by
  unfold taskReturns at hs
  split at hs
  · cases hs
  · split at hs <;> cases hs <;> exact unlessQuit_queues _ _

/-! ## The depth of the runs -/

/-- `run_depth_` is the number of runs, and each run but the innermost is running a task. -/
structure Nested (m : MessagePumpDefault) : Prop where
  runDepth : m.runs ≠ [] → m.loop.runDepth = m.runs.length
  tasks : ∀ r ∈ m.runs.tail, r.pc.task?.isSome

namespace Nested

variable {l : MessageLoop}

theorem new : MessagePumpDefault.new.Nested :=
  ⟨fun h => absurd rfl h, by simp [MessagePumpDefault.new]⟩

theorem congr (h : m.Nested) (hl : m'.loop.runDepth = m.loop.runDepth) (hr : m'.runs = m.runs) :
    m'.Nested :=
  ⟨fun hne => hl.trans (hr ▸ h.runDepth (hr ▸ hne)), hr ▸ h.tasks⟩

theorem goto (h : m.Nested) (pc : RunPc) : (m.goto pc).Nested := by
  refine ⟨fun hne => ?_, ?_⟩
  · simpa using h.runDepth (by simpa using hne)
  · have := h.tasks
    cases hruns : m.runs <;> simp_all

theorem run (h : m.Nested) (ht : m.runs = [] ∨ m.task?.isSome = true) : m.run.Nested := by
  refine ⟨fun _ => rfl, ?_⟩
  intro r hr
  simp only [MessagePumpDefault.run, List.tail_cons] at hr
  cases hruns : m.runs with
  | nil => simp [hruns] at hr
  | cons r' rest =>
    rw [hruns] at hr
    rcases List.mem_cons.mp hr with rfl | hr
    · simpa [task?, hruns] using ht
    · exact h.tasks r (by simpa [hruns] using hr)

theorem unlessQuit (h : m.Nested) (pc : RunPc) : (m.unlessQuit pc).Nested := by
  unfold MessagePumpDefault.unlessQuit
  split
  · exact h.goto pc
  · unfold returned
    split
    · exact h
    · next r rest hruns =>
      refine ⟨fun _ => rfl, fun r' hr => h.tasks r' ?_⟩
      rw [hruns]
      exact List.mem_of_mem_tail hr

theorem step (h : m.Nested) (hs : m.step now = some (m', t)) : m'.Nested := by
  obtain ⟨l, keep, next, runs⟩ := m
  cases runs with
  | nil => cases hs
  | cons r rest =>
    obtain ⟨pc, outer⟩ := r
    cases pc with
    | doWork =>
      simp only [MessagePumpDefault.step] at hs
      split at hs <;> cases hs
      · apply goto
        exact h.congr l.reloadWorkQueue_runDepth rfl
      · exact h.goto _
    | popWork =>
      have hpop : Nested ⟨l.popWork.1, keep, next, _⟩ := h.congr l.popWork_runDepth rfl
      simp only [MessagePumpDefault.step] at hs
      split at hs <;> cases hs
      · exact hpop.goto _
      · exact hpop.congr rfl rfl
      · exact hpop
      · exact hpop.goto _
    | doDelayedWork didWork =>
      simp only [MessagePumpDefault.step] at hs
      split at hs <;> cases hs <;> apply goto <;>
        exact h.congr (l.doDelayedWork_runDepth now next) rfl
    | doIdleWork =>
      simp only [MessagePumpDefault.step] at hs
      split at hs <;> cases hs
      · apply goto
        exact h.congr l.doIdleWork_runDepth rfl
      · refine unlessQuit (h.congr ?_ ?_) .wait
        · split <;> exact l.doIdleWork_runDepth
        · split <;> rfl
    | wait =>
      cases hs
      apply goto
      exact h.congr rfl rfl
    | workTask | delayedTask | idleTask => cases hs

theorem taskReturns (h : m.Nested) (hs : m.taskReturns = some m') : m'.Nested := by
  unfold MessagePumpDefault.taskReturns at hs
  split at hs
  · cases hs
  · next r rest hruns =>
    have hdid : Nested (m.setLoop m.loop.didRunTask) := ⟨h.runDepth, h.tasks⟩
    split at hs <;> cases hs <;> exact hdid.unlessQuit _

end Nested

end MessagePumpDefault

namespace LoopRun

variable {s s' : LoopRun} {a : LoopAction}

/-- Every step is one of the loop's queues, and the clock does not go back. -/
theorem step_follows (hs : s.step a = some s') : s.now ≤ s'.now ∧ ∃ delay t,
    s.pump.loop.Follows s.now delay s'.pump.loop t ∧
      s'.log = s.log ++ taskEvents delay s.pump.loop s'.pump.loop t := by
  cases a with
  | post task delay nestable =>
    cases hs
    exact ⟨le_rfl, delay, none, s.pump.loop.follows_post s.now task delay nestable, rfl⟩
  | tick d =>
    cases hs
    refine ⟨Int.le_add_of_nonneg_right (Int.natCast_nonneg d), 0, none, .of_eq rfl s.now 0, ?_⟩
    simp [taskEvents]
  | pump =>
    obtain ⟨⟨m, t⟩, hm, rfl⟩ := Option.map_eq_some_iff.mp hs
    exact ⟨le_rfl, 0, t, MessagePumpDefault.step_follows hm 0, rfl⟩
  | taskReturns =>
    obtain ⟨m, hm, rfl⟩ := Option.map_eq_some_iff.mp hs
    exact ⟨le_rfl, 0, none, .of_eq (MessagePumpDefault.taskReturns_queues hm) s.now 0, rfl⟩
  | run | quit | quitWhenIdle | setNestableTasksAllowed =>
    obtain ⟨-, rfl⟩ := Machine.guard_eq_some hs
    exact ⟨le_rfl, 0, none, .of_eq rfl s.now 0, rfl⟩

theorem accounted_step (h : Accounted s.log s.pump.loop.queues) (hs : s.step a = some s') :
    Accounted s'.log s'.pump.loop.queues := by
  obtain ⟨-, delay, t, hfollows, hlog⟩ := step_follows hs
  rw [hlog]
  exact h.serves hfollows

theorem inOrder_step (h : InOrder s.now s.log s.pump.loop) (hroll : s.NoRollOver)
    (hs : s.step a = some s') : InOrder s'.now s'.log s'.pump.loop := by
  obtain ⟨hnow, delay, t, hfollows, hlog⟩ := step_follows hs
  rw [hlog]
  exact (h.follows hroll hfollows).mono hnow

theorem nested_step (h : s.pump.Nested) (hs : s.step a = some s') : s'.pump.Nested := by
  cases a with
  | post task delay nestable =>
    cases hs
    exact h.congr rfl rfl
  | tick d =>
    cases hs
    exact h
  | pump =>
    obtain ⟨⟨m, t⟩, hm, rfl⟩ := Option.map_eq_some_iff.mp hs
    exact h.step hm
  | taskReturns =>
    obtain ⟨m, hm, rfl⟩ := Option.map_eq_some_iff.mp hs
    exact h.taskReturns hm
  | run =>
    obtain ⟨hcode, rfl⟩ := Machine.guard_eq_some hs
    exact h.run (by simpa [inCode] using hcode)
  | quit | quitWhenIdle | setNestableTasksAllowed =>
    obtain ⟨-, rfl⟩ := Machine.guard_eq_some hs
    exact h.congr rfl rfl

end LoopRun

/-- **The tasks of a thread are in sequence**: in every run, with nested `RunLoop`s, delays and
quits, each task that was accepted is started once or still queued. As long as no sequence number
rolls over, it starts after the tasks that were posted before it with no greater delay, unless it
overtakes a deferred one. -/
theorem tasks_sequenced {s : LoopRun} (hr : loopMachine.Reachable s) :
    Conserved s.log s.pump.loop.queued ∧
      (loopMachine.Reach (fun s _ => s.NoRollOver) s → Sequenced s.log) := by
  refine ⟨Accounted.conserved ?_, fun hr => ?_⟩
  · refine hr.invariant (I := fun s => Accounted s.log s.pump.loop.queues) ?_ ?_
    · rintro _ ⟨now, rfl⟩
      exact .new
    · intro s a s' h _ hs
      exact LoopRun.accounted_step h hs
  · suffices h : InOrder s.now s.log s.pump.loop from h.sequenced
    refine hr.invariant (I := fun s => InOrder s.now s.log s.pump.loop) ?_ ?_
    · rintro _ ⟨now, rfl⟩
      exact .new (Int.natCast_nonneg now)
    · intro s a s' h hroll hs
      exact LoopRun.inOrder_step h hroll hs

/-- In a nested `Run`, two delayed tasks that are due together start as they were posted, and a
non-nestable task is deferred and starts last. -/
theorem tasks_sequenced_nested : ∃ s, loopMachine.Reach (fun s _ => s.NoRollOver) s ∧
    (starts s.log).map (·.task) = [0, 2, 3, 4, 1] ∧
    Conserved s.log s.pump.loop.queued ∧ Sequenced s.log := by
  obtain ⟨s, hr, hs⟩ := Machine.exists_reach_of_admits (M := loopMachine)
    (fun s _ => s.NoRollOver) (s := .start 5) ⟨5, rfl⟩
    [.post 0 0 true, .run, .pump, .pump, .setNestableTasksAllowed true, .post 1 0 false,
      .post 2 0 true, .post 3 4 true, .post 4 4 true, .run, .pump, .pump, .pump, .taskReturns,
      .tick 4, .pump, .pump, .pump, .pump, .pump, .pump, .pump, .taskReturns, .pump, .pump, .quit,
      .taskReturns, .taskReturns, .pump, .pump, .pump, .pump]
    (p := fun s => decide ((starts s.log).map (·.task) = [0, 2, 3, 4, 1])) (by decide) (by decide)
  have hsequenced := tasks_sequenced hr.reachable
  exact ⟨s, hr, of_decide_eq_true hs, hsequenced.1, hsequenced.2 hr⟩

/-- **A non-nestable task runs in no other task.** -/
theorem non_nestable_alone {s : LoopRun} (hr : loopMachine.Reachable s) {m : MessagePumpDefault}
    {p : PendingTask} (hs : s.pump.step s.now = some (m, some p)) (hp : p.nestable = false) :
    s.running = [] := by
  have hnested : s.pump.Nested := by
    refine hr.invariant (I := fun s => s.pump.Nested) ?_ ?_
    · rintro _ ⟨now, rfl⟩
      exact .new
    · intro s a s' h _ hs
      exact LoopRun.nested_step h hs
  have hserves : (s.pump.loop.runDepth == 1) = true := by
    have hstarted : .started p ∈ taskEvents 0 s.pump.loop m.loop (some p) := by
      simp [taskEvents]
    refine ((MessagePumpDefault.step_follows hs 0).started hstarted).resolve_left ?_
    simp [hp]
  unfold LoopRun.running
  cases hruns : s.pump.runs with
  | nil => rfl
  | cons r rest =>
    have hdepth := hnested.runDepth (by simp [hruns])
    rw [hruns, List.length_cons] at hdepth
    obtain rfl : rest = [] := by
      rw [← List.length_eq_zero_iff]
      have := beq_iff_eq.mp hserves
      omega
    cases hpc : r.pc <;> simp_all [MessagePumpDefault.step, RunPc.task?]

/-- The task was deferred in a nested `Run` of another one, and starts once that has returned. -/
theorem non_nestable_alone_nested : ∃ s m p, loopMachine.Reachable s ∧
    s.pump.step s.now = some (m, some p) ∧ p.nestable = false ∧ .deferred p ∈ s.log ∧
    s.running = [] := by
  obtain ⟨s, hr, hs⟩ := Machine.exists_reachable (M := loopMachine) (s := .start 5) ⟨5, rfl⟩
    [.post 0 0 true, .run, .pump, .pump, .setNestableTasksAllowed true, .post 1 0 false,
      .post 2 0 true, .run, .pump, .pump, .pump, .quit, .taskReturns, .taskReturns, .pump, .pump,
      .pump]
    (p := fun s => (s.pump.step s.now).any fun r => r.2.any fun p =>
      !p.nestable && s.log.contains (.deferred p)) (by decide)
  obtain ⟨⟨m, t⟩, hm, ht⟩ := (Option.any_eq_true _ _).mp hs
  obtain ⟨p, rfl, hp⟩ := (Option.any_eq_true _ _).mp ht
  simp only [Bool.and_eq_true, Bool.not_eq_true', List.contains_eq_mem,
    decide_eq_true_eq] at hp
  exact ⟨s, m, p, hr, hm, hp.1, hp.2, non_nestable_alone hr hm hp.1⟩

/-- The promise fails for a deferred task: 1 and 3 are non-nestable and have no delay, 1 is posted
first, and 3 starts first. -/
theorem deferred_overtaken : ∃ s, loopMachine.Reachable s ∧
    (posts s.log).map (fun p => (p.task, p.delayedRunTime, p.nestable)) =
      [(0, 0, true), (1, 0, false), (2, 0, true), (3, 0, false)] ∧
    (starts s.log).map (·.task) = [0, 2, 3] := by
  obtain ⟨s, hr, hs⟩ := Machine.exists_reachable (M := loopMachine) (s := .start 5) ⟨5, rfl⟩
    [.post 0 0 true, .run, .pump, .pump, .setNestableTasksAllowed true, .post 1 0 false,
      .post 2 0 true, .run, .pump, .pump, .pump, .quit, .taskReturns, .post 3 0 false,
      .taskReturns, .pump, .pump, .pump]
    (p := fun s => decide ((posts s.log).map (fun p => (p.task, p.delayedRunTime, p.nestable)) =
      [(0, 0, true), (1, 0, false), (2, 0, true), (3, 0, false)] ∧
      (starts s.log).map (·.task) = [0, 2, 3])) (by decide)
  exact ⟨s, hr, of_decide_eq_true hs⟩

end Mdgate.Base
