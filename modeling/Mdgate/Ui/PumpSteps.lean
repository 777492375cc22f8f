import Mdgate.Ui.MessagePumpQt

/-!
# What one step of the pump can do

Without nested `RunLoop`s no task is ever deferred, so every task that is
reached is run. `Effect` lists what each action then does, one constructor for
each way through the source; `step_effect` proves the list complete. The
invariants of the pump are case analyses of `Effect` and never unfold `step`.
-/

namespace Mdgate.Ui

open Mdgate.Base Mdgate.Lib

/-! ## Projections of the state updates -/

namespace State

variable (s : State)

@[simp] theorem disarm_loop : s.disarm.loop = s.loop := rfl
@[simp] theorem disarm_stack : s.disarm.stack = s.stack := rfl
@[simp] theorem disarm_userEvents : s.disarm.qt.userEvents = s.qt.userEvents := rfl
@[simp] theorem disarm_now : s.disarm.now = s.now := rfl

@[simp] theorem scheduleDelayedWork_loop (t : Int) : (s.scheduleDelayedWork t).loop = s.loop := by
  unfold scheduleDelayedWork; split
  · rfl
  · split <;> rfl

@[simp] theorem scheduleDelayedWork_stack (t : Int) :
    (s.scheduleDelayedWork t).stack = s.stack := by
  unfold scheduleDelayedWork; split
  · rfl
  · split <;> rfl

@[simp] theorem scheduleDelayedWork_userEvents (t : Int) :
    (s.scheduleDelayedWork t).qt.userEvents = s.qt.userEvents := by
  unfold scheduleDelayedWork; split
  · rfl
  · split <;> rfl

@[simp] theorem scheduleDelayedWork_quit (t : Int) :
    (s.scheduleDelayedWork t).qt.quit = s.qt.quit := by
  unfold scheduleDelayedWork; split
  · rfl
  · split <;> rfl

@[simp] theorem disarm_quit : s.disarm.qt.quit = s.qt.quit := rfl

@[simp] theorem post_quit (task : Nat) (delay : Int) (nestable : Bool) :
    (s.post task delay nestable).qt.quit = s.qt.quit := by
  simp only [post]; split <;> rfl

@[simp] theorem post_stack (task : Nat) (delay : Int) (nestable : Bool) :
    (s.post task delay nestable).stack = s.stack := by
  simp only [post]; split <;> rfl

@[simp] theorem post_pump (task : Nat) (delay : Int) (nestable : Bool) :
    (s.post task delay nestable).pump = s.pump := by
  simp only [post]; split <;> rfl

theorem post_loop (task : Nat) (delay : Int) (nestable : Bool) :
    (s.post task delay nestable).loop = { s.loop with
      incomingTaskQueue :=
        (s.loop.incomingTaskQueue.addToIncomingQueue s.now task delay nestable).queue } := by
  simp only [post]; split <;> rfl

theorem post_userEvents (task : Nat) (delay : Int) (nestable : Bool) :
    (s.post task delay nestable).qt.userEvents = s.qt.userEvents +
      (s.loop.incomingTaskQueue.addToIncomingQueue
        s.now task delay nestable).scheduleWork.toNat := by
  simp only [post]; split <;> simp_all [setLoop, scheduleWork, Qt.postEvent]

@[simp] theorem setNestableTasksAllowed_loop (b : Bool) :
    (s.setNestableTasksAllowed b).loop = { s.loop with nestableTasksAllowed := b } := by
  cases b <;> rfl

@[simp] theorem setNestableTasksAllowed_stack (b : Bool) :
    (s.setNestableTasksAllowed b).stack = s.stack := by
  cases b <;> rfl

@[simp] theorem setNestableTasksAllowed_pump (b : Bool) :
    (s.setNestableTasksAllowed b).pump = s.pump := by
  cases b <;> rfl

@[simp] theorem setNestableTasksAllowed_timers (b : Bool) :
    (s.setNestableTasksAllowed b).qt.timers = s.qt.timers := by
  cases b <;> rfl

@[simp] theorem setNestableTasksAllowed_freshTimerId (b : Bool) :
    (s.setNestableTasksAllowed b).qt.freshTimerId = s.qt.freshTimerId := by
  cases b <;> rfl

@[simp] theorem setNestableTasksAllowed_quit (b : Bool) :
    (s.setNestableTasksAllowed b).qt.quit = s.qt.quit := by
  cases b <;> rfl

theorem setNestableTasksAllowed_userEvents (b : Bool) :
    (s.setNestableTasksAllowed b).qt.userEvents = s.qt.userEvents + b.toNat := by
  cases b <;> rfl

end State

/-! ## The steps -/

/-- The loop is live and no nested `RunLoop` has been entered, so nothing is
deferred; a task in the delayed queue has a time. -/
structure QueueInv (s : State) : Prop where
  live : s.loop.incomingTaskQueue.messageLoop = true
  coalesces : s.loop.incomingTaskQueue.alwaysScheduleWork = false
  runDepth : s.loop.runDepth = 1
  deferred : s.loop.deferredNonNestableWorkQueue = []
  delayed : ∀ p ∈ s.loop.delayedWorkQueue.tasks, p.delayedRunTime ≠ 0

/-- `customEvent` after `DoDelayedWork` ran nothing, its next time being `next`. -/
def State.afterDelayed (s : State) (more : Bool) (next : Int) : State :=
  if more then s.repost else s.goto (.customEvent (.doIdleWork next))

def State.idle (s : State) : State :=
  let s' := s.setLoop
    { s.loop with inHighResMode := decide (s.loop.pendingHighResTasks > 0) }
  if s.loop.quitWhenIdleReceived then s'.quit else s'

@[simp] theorem State.afterDelayed_loop (s : State) (more : Bool) (next : Int) :
    (s.afterDelayed more next).loop = s.loop := by
  cases more <;> rfl

@[simp] theorem State.afterDelayed_pump (s : State) (more : Bool) (next : Int) :
    (s.afterDelayed more next).pump = s.pump := by
  cases more <;> rfl

@[simp] theorem State.afterDelayed_quit (s : State) (more : Bool) (next : Int) :
    (s.afterDelayed more next).qt.quit = s.qt.quit := by
  cases more <;> rfl

@[simp] theorem State.idle_loop (s : State) : s.idle.loop =
    { s.loop with inHighResMode := decide (s.loop.pendingHighResTasks > 0) } := by
  simp only [State.idle]; split <;> rfl

@[simp] theorem State.idle_stack (s : State) : s.idle.stack = s.stack := by
  simp only [State.idle]; split <;> rfl

@[simp] theorem State.idle_pump (s : State) : s.idle.pump = s.pump := by
  simp only [State.idle]; split <;> rfl

@[simp] theorem State.idle_timers (s : State) : s.idle.qt.timers = s.qt.timers := by
  simp only [State.idle]; split <;> rfl

@[simp] theorem State.idle_freshTimerId (s : State) :
    s.idle.qt.freshTimerId = s.qt.freshTimerId := by
  simp only [State.idle]; split <;> rfl

@[simp] theorem State.afterDelayed_timers (s : State) (more : Bool) (next : Int) :
    (s.afterDelayed more next).qt.timers = s.qt.timers := by
  cases more <;> rfl

@[simp] theorem State.afterDelayed_freshTimerId (s : State) (more : Bool) (next : Int) :
    (s.afterDelayed more next).qt.freshTimerId = s.qt.freshTimerId := by
  cases more <;> rfl

@[simp] theorem State.idle_userEvents (s : State) :
    s.idle.qt.userEvents = s.qt.userEvents := by
  simp only [State.idle]; split <;> rfl

@[simp] theorem State.idle_quit (s : State) :
    s.idle.qt.quit = (s.qt.quit || s.loop.quitWhenIdleReceived) := by
  simp only [State.idle]; split <;> simp_all

/-- The steps of the pump. -/
inductive Effect (s : State) : Action → State → Prop where
  | post (task : Nat) (delay : Int) (nestable : Bool) :
      Effect s (.post task delay nestable) (s.post task delay nestable)
  | tick (d : Nat) : Effect s (.tick d) { s with now := s.now + d }
  | userEvent : s.inEventLoop = true → 0 < s.qt.userEvents → Effect s .userEvent s.customEvent
  | timerNothing {id : Nat} : s.inEventLoop = true → s.qt.Live id →
      (s.loop.nestableTasksAllowed = false ∨ s.loop.delayedWorkQueue.tasks = []) →
      Effect s (.timer id)
        ((s.disarm.setLoop { s.loop with recentTime := 0 }).scheduleDelayedWork 0)
  | timerWaits {id : Nat} {p : PendingTask} : s.inEventLoop = true → s.qt.Live id →
      s.loop.delayedWorkQueue.top? = some p →
      Effect s (.timer id) ((s.disarm.setLoop
        { s.loop with recentTime := s.now }).scheduleDelayedWork p.delayedRunTime)
  | timerRuns {id : Nat} {p : PendingTask} {t : Int} : s.inEventLoop = true → s.qt.Live id →
      s.loop.nestableTasksAllowed = true → s.loop.delayedWorkQueue.top? = some p →
      Effect s (.timer id) ((s.disarm.setLoop (MessageLoop.runTask { s.loop with
        recentTime := t, delayedWorkQueue := s.loop.delayedWorkQueue.pop } p)).push
          (.timerEvent s.loop.delayedWorkQueue.pop.nextRunTime))
  | aboutToBlock : s.inEventLoop = true → Effect s .aboutToBlock s.idle
  | reloadsNothing {rest : List Frame} {n : Int} : s.stack = .customEvent .doWork :: rest →
      s.loop.workQueue = [] → s.loop.incomingTaskQueue.incomingQueue = [] →
      Effect s .advance ((s.setLoop { s.loop with
        incomingTaskQueue := { s.loop.incomingTaskQueue with
          highResTaskCount := 0, messageLoopScheduled := false }
        pendingHighResTasks := n }).goto (.customEvent (.doDelayedWork false)))
  | reloads {rest : List Frame} {n : Int} : s.stack = .customEvent .doWork :: rest →
      s.loop.workQueue = [] → s.loop.incomingTaskQueue.incomingQueue ≠ [] →
      Effect s .advance ((s.setLoop { s.loop with
        incomingTaskQueue := { s.loop.incomingTaskQueue with
          highResTaskCount := 0, incomingQueue := [] }
        workQueue := s.loop.incomingTaskQueue.incomingQueue
        pendingHighResTasks := n }).goto (.customEvent .popWork))
  | keepsWork {rest : List Frame} : s.stack = .customEvent .doWork :: rest →
      s.loop.workQueue ≠ [] → Effect s .advance (s.goto (.customEvent .popWork))
  | popsNothing {rest : List Frame} : s.stack = .customEvent .popWork :: rest →
      s.loop.workQueue = [] → Effect s .advance (s.goto (.customEvent .doWork))
  | popsDelayed {rest : List Frame} {p : PendingTask} {ps : List PendingTask} {b : Bool} :
      s.stack = .customEvent .popWork :: rest → s.loop.workQueue = p :: ps →
      p.delayedRunTime ≠ 0 →
      Effect s .advance (if b then
        (s.setLoop { s.loop with workQueue := ps, delayedWorkQueue :=
          s.loop.delayedWorkQueue.push p }).scheduleDelayedWork p.delayedRunTime
        else s.setLoop { s.loop with workQueue := ps, delayedWorkQueue :=
          s.loop.delayedWorkQueue.push p })
  | popsTask {rest : List Frame} {p : PendingTask} {ps : List PendingTask} :
      s.stack = .customEvent .popWork :: rest → s.loop.workQueue = p :: ps →
      Effect s .advance ((s.setLoop (MessageLoop.runTask
        { s.loop with workQueue := ps } p)).goto (.customEvent .workTask))
  | delayedNothing {rest : List Frame} {more : Bool} :
      s.stack = .customEvent (.doDelayedWork more) :: rest →
      (s.loop.nestableTasksAllowed = false ∨ s.loop.delayedWorkQueue.tasks = []) →
      Effect s .advance ((s.setLoop { s.loop with recentTime := 0 }).afterDelayed more 0)
  | delayedWaits {rest : List Frame} {more : Bool} {p : PendingTask} :
      s.stack = .customEvent (.doDelayedWork more) :: rest →
      s.loop.delayedWorkQueue.top? = some p →
      Effect s .advance
        ((s.setLoop { s.loop with recentTime := s.now }).afterDelayed more p.delayedRunTime)
  | delayedRuns {rest : List Frame} {more : Bool} {p : PendingTask} {t : Int} :
      s.stack = .customEvent (.doDelayedWork more) :: rest →
      s.loop.delayedWorkQueue.top? = some p →
      Effect s .advance ((s.setLoop (MessageLoop.runTask { s.loop with
        recentTime := t, delayedWorkQueue := s.loop.delayedWorkQueue.pop } p)).goto
          (.customEvent .delayedTask))
  | idles {rest : List Frame} {t : Int} : s.stack = .customEvent (.doIdleWork t) :: rest →
      Effect s .advance (s.idle.scheduleDelayedWork t).ret
  | setNestableTasksAllowed (b : Bool) : s.inTask = true →
      Effect s (.setNestableTasksAllowed b) (s.setNestableTasksAllowed b)
  | quitWhenIdle : s.inTask = true →
      Effect s .quitWhenIdle (s.setLoop { s.loop with quitWhenIdleReceived := true })
  | quitNow : s.inTask = true → Effect s .quitNow s.quit
  | enterEventLoop : s.inTask = true → Effect s .enterEventLoop (s.push .eventLoop)
  | exitEventLoop {rest : List Frame} : s.stack = .eventLoop :: rest →
      Effect s .exitEventLoop s.ret
  | workReturns {rest : List Frame} : s.stack = .customEvent .workTask :: rest →
      Effect s .taskReturns
        ((s.setLoop s.loop.didRunTask).goto (.customEvent (.doDelayedWork true)))
  | handlerReturns {rest : List Frame} {pc : WorkPc} : s.stack = .customEvent pc :: rest →
      pc = .delayedTask ∨ pc = .idleTask →
      Effect s .taskReturns (s.setLoop s.loop.didRunTask).repost
  | timerReturns {rest : List Frame} {next : Int} : s.stack = .timerEvent next :: rest →
      Effect s .taskReturns ((s.setLoop s.loop.didRunTask).ret.scheduleDelayedWork next)
  | idleReturns {rest : List Frame} : s.stack = .onIdle :: rest →
      Effect s .taskReturns (s.setLoop s.loop.didRunTask).ret

theorem timerEvent_effect {s : State} (h : QueueInv s) {id : Nat} (hl : s.inEventLoop = true)
    (ht : s.qt.Live id) : Effect s (.timer id) s.timerEvent := by
  rcases MessageLoop.doDelayedWork_cases (l := s.loop) h.runDepth s.now 0 with
    ⟨hn, he⟩ | ⟨p, hn, hp, he⟩ | ⟨p, t, hn, hp, he⟩
  · have : s.timerEvent =
        (s.disarm.setLoop { s.loop with recentTime := 0 }).scheduleDelayedWork 0 := by
      simp only [State.timerEvent, State.disarm_loop, State.disarm_now, he]
    exact this ▸ .timerNothing hl ht hn
  · have : s.timerEvent = (s.disarm.setLoop
        { s.loop with recentTime := s.now }).scheduleDelayedWork p.delayedRunTime := by
      simp only [State.timerEvent, State.disarm_loop, State.disarm_now, he]
    exact this ▸ .timerWaits hl ht hp
  · have : s.timerEvent = (s.disarm.setLoop (MessageLoop.runTask { s.loop with
        recentTime := t, delayedWorkQueue := s.loop.delayedWorkQueue.pop } p)).push
          (.timerEvent s.loop.delayedWorkQueue.pop.nextRunTime) := by
      simp only [State.timerEvent, State.disarm_loop, State.disarm_now, he,
        DelayedTaskQueue.nextRunTime_or]
    exact this ▸ .timerRuns hl ht hn hp

theorem onIdle_eq {s : State} (h : QueueInv s) : s.onIdle = s.idle := by
  simp only [State.onIdle, State.idle, MessageLoop.doIdleWork_eq h.deferred]

theorem advance_effect {s s' : State} (h : QueueInv s) {pc : WorkPc} {rest : List Frame}
    (hs : s.stack = .customEvent pc :: rest) (ha : s.advance pc = some s') :
    Effect s .advance s' := by
  cases pc with
  | doWork =>
    obtain rfl := Option.some.inj ha
    rcases MessageLoop.reloadWorkQueue_cases s.loop with
      ⟨hw, hi, n, he⟩ | ⟨hw, hi, n, he⟩ | ⟨hw, he⟩
    · simpa [he, hw, State.setLoop] using Effect.reloadsNothing (n := n) hs hw hi
    · simpa [he, hi, State.setLoop] using Effect.reloads (n := n) hs hw hi
    · simpa [he, hw, State.setLoop] using Effect.keepsWork hs hw
  | popWork =>
    rcases MessageLoop.popWork_cases (l := s.loop) h.runDepth with
      ⟨hw, he⟩ | ⟨p, ps, b, hw, hp, he⟩ | ⟨p, ps, hw, hp, he⟩
    · simp only [State.advance, he] at ha
      obtain rfl := Option.some.inj ha
      exact .popsNothing hs hw
    · simp only [State.advance, he] at ha
      obtain rfl := Option.some.inj ha
      exact .popsDelayed hs hw hp
    · simp only [State.advance, he] at ha
      obtain rfl := Option.some.inj ha
      exact .popsTask hs hw
  | doDelayedWork more =>
    rcases MessageLoop.doDelayedWork_cases (l := s.loop) h.runDepth s.now 0 with
      ⟨hn, he⟩ | ⟨p, hn, hp, he⟩ | ⟨p, t, hn, hp, he⟩
    · simp only [State.advance, he] at ha
      obtain rfl := Option.some.inj ha
      exact .delayedNothing hs hn
    · simp only [State.advance, he] at ha
      obtain rfl := Option.some.inj ha
      exact .delayedWaits hs hp
    · simp only [State.advance, he] at ha
      obtain rfl := Option.some.inj ha
      exact .delayedRuns hs hp
  | doIdleWork t =>
    simp only [State.advance, MessageLoop.doIdleWork_eq h.deferred] at ha
    obtain rfl := Option.some.inj ha
    exact .idles hs
  | workTask | delayedTask | idleTask => cases ha

theorem resume_effect {s s' : State} {f : Frame} {rest : List Frame} (hs : s.stack = f :: rest)
    (hr : (s.setLoop s.loop.didRunTask).resume f = some s') : Effect s .taskReturns s' := by
  cases f with
  | customEvent pc =>
    cases pc with
    | workTask => obtain rfl := Option.some.inj hr; exact .workReturns hs
    | delayedTask => obtain rfl := Option.some.inj hr; exact .handlerReturns hs (.inl rfl)
    | idleTask => obtain rfl := Option.some.inj hr; exact .handlerReturns hs (.inr rfl)
    | _ => cases hr
  | timerEvent next => obtain rfl := Option.some.inj hr; exact .timerReturns hs
  | onIdle => obtain rfl := Option.some.inj hr; exact .idleReturns hs
  | eventLoop => cases hr

theorem step_effect {s s' : State} {a : Action} (h : QueueInv s) (hst : step s a = some s') :
    Effect s a s' := by
  cases a with
  | post => obtain rfl := Option.some.inj hst; exact .post ..
  | tick => obtain rfl := Option.some.inj hst; exact .tick _
  | userEvent =>
    obtain ⟨⟨hl, he⟩, rfl⟩ := Machine.guard_eq_some hst
    exact .userEvent hl he
  | timer =>
    obtain ⟨⟨hl, ht⟩, rfl⟩ := Machine.guard_eq_some hst
    exact timerEvent_effect h hl ht
  | aboutToBlock =>
    obtain ⟨hl, rfl⟩ := Machine.guard_eq_some hst
    exact onIdle_eq h ▸ .aboutToBlock hl
  | advance =>
    simp only [step] at hst
    split at hst
    · next hs => exact advance_effect h hs hst
    · cases hst
  | setNestableTasksAllowed =>
    obtain ⟨ht, rfl⟩ := Machine.guard_eq_some hst
    exact .setNestableTasksAllowed _ ht
  | quitWhenIdle =>
    obtain ⟨ht, rfl⟩ := Machine.guard_eq_some hst
    exact .quitWhenIdle ht
  | quitNow =>
    obtain ⟨ht, rfl⟩ := Machine.guard_eq_some hst
    exact .quitNow ht
  | enterEventLoop =>
    obtain ⟨ht, rfl⟩ := Machine.guard_eq_some hst
    exact .enterEventLoop ht
  | exitEventLoop =>
    obtain ⟨ht, rfl⟩ := Machine.guard_eq_some hst
    obtain ⟨rest, hs⟩ := List.head?_eq_some_iff.mp ht
    exact .exitEventLoop hs
  | taskReturns =>
    simp only [step] at hst
    split at hst
    · next hs => exact resume_effect hs hst
    · cases hst

/-! ## The invariant behind the list -/

theorem QueueInv.frame {s s' : State} (h : QueueInv s)
    (hl : s'.loop.incomingTaskQueue.messageLoop = s.loop.incomingTaskQueue.messageLoop)
    (ha : s'.loop.incomingTaskQueue.alwaysScheduleWork =
      s.loop.incomingTaskQueue.alwaysScheduleWork)
    (hr : s'.loop.runDepth = s.loop.runDepth)
    (hd : s'.loop.deferredNonNestableWorkQueue = s.loop.deferredNonNestableWorkQueue)
    (hq : ∀ p ∈ s'.loop.delayedWorkQueue.tasks, p ∈ s.loop.delayedWorkQueue.tasks) :
    QueueInv s' :=
  ⟨hl.trans h.live, ha.trans h.coalesces, hr.trans h.runDepth, hd.trans h.deferred,
    fun p hp => h.delayed p (hq p hp)⟩

theorem QueueInv.effect {s s' : State} {a : Action} (h : QueueInv s) (e : Effect s a s') :
    QueueInv s' := by
  cases e with
  | post task delay nestable =>
    obtain ⟨n, p, he⟩ := s.loop.incomingTaskQueue.addToIncomingQueue_eq s.now task delay nestable
    refine h.frame ?_ ?_ ?_ ?_ ?_ <;> simp [State.post_loop, he]
  | @popsDelayed rest p ps b hs hw hp =>
    have hl : QueueInv (s.setLoop { s.loop with
        workQueue := ps, delayedWorkQueue := s.loop.delayedWorkQueue.push p }) := by
      refine ⟨h.live, h.coalesces, h.runDepth, h.deferred, fun x hx => ?_⟩
      rcases DelayedTaskQueue.mem_push.mp hx with rfl | hx
      · exact hp
      · exact h.delayed x hx
    cases b
    · exact hl
    · exact hl.frame (by simp) (by simp) (by simp) (by simp) (by simp)
  | timerRuns _ _ _ _ => exact h.frame rfl rfl rfl rfl fun _ hx => List.mem_of_mem_tail hx
  | delayedRuns _ _ => exact h.frame rfl rfl rfl rfl fun _ hx => List.mem_of_mem_tail hx
  | _ => refine h.frame ?_ ?_ ?_ ?_ ?_ <;> simp

theorem queueInv_start (now : Int) : QueueInv (.start now) :=
  ⟨rfl, rfl, rfl, rfl, fun _ hp => nomatch hp⟩

theorem queueInv_reach {ok : State → Action → Prop} {s : State} (h : pumpMachine.Reach ok s) :
    QueueInv s := by
  refine h.invariant ?_ ?_
  · rintro _ ⟨now, rfl⟩
    exact queueInv_start now
  · intro s a s' hi _ hst
    exact hi.effect (step_effect hi hst)

theorem Effect.quitting {s s' : State} {a : Action} (e : Effect s a s') (h : s.Quitting) :
    s'.Quitting := by
  cases e with
  | @popsDelayed rest p ps b _ _ _ => cases b <;> simpa [State.Quitting] using h
  | aboutToBlock _ | idles _ =>
    exact h.imp (fun h => by simpa using h) (fun h => by simp [h])
  | quitWhenIdle _ => exact .inl rfl
  | quitNow _ => exact .inr rfl
  | _ => simpa [State.Quitting, State.post_loop] using h

/-! ## The shape of the stack -/

/-- The handlers that run tasks; `OnIdle` runs only deferred ones. -/
def Frame.handler : Frame → Bool
  | .customEvent _ | .timerEvent _ => true
  | _ => false

/-- A handler is entered from an event loop, and an event loop from a running task. -/
inductive Stacked : List Frame → Prop where
  | nil : Stacked []
  | base {f : Frame} : f.handler = true → Stacked [f]
  | nested {f : Frame} {rest : List Frame} : f.handler = true → Stacked (.eventLoop :: rest) →
      Stacked (f :: .eventLoop :: rest)
  | eventLoop {f : Frame} {rest : List Frame} : f.running = true → Stacked (f :: rest) →
      Stacked (.eventLoop :: f :: rest)

namespace Stacked

variable {f g : Frame} {rest : List Frame}

theorem tail (h : Stacked (f :: rest)) : Stacked rest := by
  cases h with
  | base => exact .nil
  | nested _ h => exact h
  | eventLoop _ h => exact h

theorem replace (h : Stacked (f :: rest)) (hf : f.handler = true) (hg : g.handler = true) :
    Stacked (g :: rest) := by
  cases h with
  | base => exact .base hg
  | nested _ h => exact .nested hg h
  | eventLoop => cases hf

theorem enter {s : State} (h : Stacked s.stack) (hl : s.inEventLoop = true)
    (hf : f.handler = true) : Stacked (f :: s.stack) := by
  unfold State.inEventLoop at hl
  split at hl
  · next hs => exact hs ▸ .base hf
  · next hs => rw [hs] at h ⊢; exact .nested hf h
  · cases hl

theorem nest {s : State} (h : Stacked s.stack) (ht : s.inTask = true) :
    Stacked (.eventLoop :: s.stack) := by
  unfold State.inTask at ht
  cases hs : s.stack with
  | nil => simp [hs] at ht
  | cons f rest => exact .eventLoop (by simpa [hs] using ht) (hs ▸ h)

theorem effect {s s' : State} {a : Action} (h : Stacked s.stack) (e : Effect s a s') :
    Stacked s'.stack := by
  cases e with
  | userEvent hl _ => exact h.enter hl rfl
  | timerRuns hl _ _ _ => exact h.enter hl rfl
  | enterEventLoop ht => exact h.nest ht
  | exitEventLoop hs | idleReturns hs => rw [hs] at h; simpa [hs] using h.tail
  | timerReturns hs | idles hs => rw [hs] at h; simpa [hs] using h.tail
  | handlerReturns hs _ => rw [hs] at h; simpa [hs] using h.tail
  | @popsDelayed _ _ _ b _ _ _ => cases b <;> simpa using h
  | @delayedNothing _ more hs _ =>
    rw [hs] at h
    cases more
    · simpa [State.afterDelayed, hs] using h.replace rfl rfl
    · simpa [State.afterDelayed, hs] using h.tail
  | @delayedWaits _ more _ hs _ =>
    rw [hs] at h
    cases more
    · simpa [State.afterDelayed, hs] using h.replace rfl rfl
    · simpa [State.afterDelayed, hs] using h.tail
  | reloadsNothing hs _ _ | reloads hs _ _ =>
    rw [hs] at h; simpa [hs] using h.replace rfl rfl
  | keepsWork hs _ | popsNothing hs _ | popsTask hs _ | delayedRuns hs _ =>
    rw [hs] at h; simpa [hs] using h.replace rfl rfl
  | workReturns hs => rw [hs] at h; simpa [hs] using h.replace rfl rfl
  | _ => simpa using h

end Stacked

theorem stacked_reach {ok : State → Action → Prop} {s : State} (h : pumpMachine.Reach ok s) :
    Stacked s.stack := by
  refine h.invariant_of (I := fun s => Stacked s.stack) (fun _ => queueInv_reach) ?_ ?_
  · rintro _ ⟨now, rfl⟩
    exact .nil
  · intro s a s' hq hi _ hst
    exact hi.effect (step_effect hq hst)

/-! ## Nestable tasks -/

/-- A task is running somewhere on the stack. -/
def State.Running (s : State) : Prop := s.stack.any Frame.running = true

theorem State.running_of_inTask {s : State} (h : s.inTask = true) : s.Running := by
  unfold State.inTask at h
  cases hs : s.stack with
  | nil => simp [hs] at h
  | cons f rest => simp_all [State.Running]

theorem State.Running.push {s : State} (h : s.Running) (f : Frame) : (s.push f).Running := by
  simp only [State.Running, State.push, List.any_cons, Bool.or_eq_true]
  exact .inr h

/-- Nestable tasks are disallowed only while a task is running. -/
theorem nestable_effect {s s' : State} {a : Action}
    (h : s.loop.nestableTasksAllowed = false → s.Running) (e : Effect s a s')
    (hn : s'.loop.nestableTasksAllowed = false) : s'.Running := by
  cases e with
  | popsTask _ _ | delayedRuns _ _ => simp [State.Running, Frame.running]
  | timerRuns _ _ _ _ => simp [State.Running, Frame.running]
  | setNestableTasksAllowed b ht => simpa [State.Running] using State.running_of_inTask ht
  | @popsDelayed _ _ _ b _ _ _ => cases b <;> simpa [State.Running] using h (by simpa using hn)
  | @delayedNothing _ more hs _ | @delayedWaits _ more _ hs _ =>
    have hr := h (by simpa using hn)
    cases more <;> simpa [State.Running, State.afterDelayed, hs, Frame.running] using hr
  | reloadsNothing hs _ _ | reloads hs _ _ =>
    have hr := h (by simpa using hn)
    simpa [State.Running, hs, Frame.running] using hr
  | keepsWork hs _ | popsNothing hs _ =>
    have hr := h (by simpa using hn)
    simpa [State.Running, hs, Frame.running] using hr
  | idles hs | exitEventLoop hs =>
    have hr := h (by simpa using hn)
    simpa [State.Running, hs, Frame.running] using hr
  | workReturns _ | handlerReturns _ _ | timerReturns _ | idleReturns _ => simp at hn
  | post => simpa [State.Running] using h (by simpa [State.post_loop] using hn)
  | userEvent _ _ => exact State.Running.push (s := s.takeEvent) (h (by simpa using hn)) _
  | enterEventLoop ht => exact (State.running_of_inTask ht).push _
  | _ => simpa [State.Running] using h (by simpa using hn)

theorem nestable_reach {ok : State → Action → Prop} {s : State} (h : pumpMachine.Reach ok s)
    (hn : s.loop.nestableTasksAllowed = false) : s.Running := by
  refine h.invariant_of (I := fun s => s.loop.nestableTasksAllowed = false → s.Running)
    (fun _ => queueInv_reach) ?_ ?_ hn
  · rintro _ ⟨now, rfl⟩ hn
    cases hn
  · intro s a s' hq hi _ hst
    exact nestable_effect hi (step_effect hq hst)

end Mdgate.Ui
