import Mdgate.Ui.Wakeup

/-!
# One pending event

An event is pending in Qt's queue, or owed by a `customEvent` on the stack that
will look at the queues or post again: `owed` counts both. Delivering an event
turns a pending one into an owed one, and `handleScheduledWork` keeps or drops
what it owes, with one exception.

Three things add an event: a post to a loop that is not scheduled,
`SetNestableTasksAllowed`, and a `handleScheduledWork` that finds no immediate
work and then runs a delayed task. None of them looks whether an event is pending
or owed already. `wakeups_coalesce` says that there is at most one pending event
as long as none of them comes when there is one, and only as long as that.
-/

namespace Mdgate.Ui

open Mdgate.Base Mdgate.Lib

namespace State

/-- The events that are pending, and those that the handlers on the stack owe. -/
def owed (s : State) : Nat := s.qt.userEvents + s.stack.countP Frame.looks

/-- The step adds an event to those that are pending or owed. -/
def OwesMore (s : State) : Action → Prop
  | .post _ _ _ => s.loop.incomingTaskQueue.messageLoopScheduled = false ∧
      s.loop.incomingTaskQueue.incomingQueue = []
  | .setNestableTasksAllowed allowed => allowed = true
  | .advance => s.stack.head? = some (.customEvent (.doDelayedWork false)) ∧
      s.loop.DelayedDue s.now
  | _ => False

instance (s : State) : DecidablePred s.OwesMore
  | .post _ _ _ | .advance => inferInstanceAs (Decidable (_ ∧ _))
  | .setNestableTasksAllowed _ => inferInstanceAs (Decidable (_ = _))
  | .tick _ | .userEvent | .timer _ | .aboutToBlock | .quitWhenIdle | .quitNow | .enterEventLoop
  | .exitEventLoop | .taskReturns => inferInstanceAs (Decidable False)

end State

/-- The guard of a step: no event is added while one is pending or owed. -/
def KeepsOne (s : State) (a : Action) : Prop := s.OwesMore a → s.owed = 0

instance (s : State) : DecidablePred (KeepsOne s) := fun _ => inferInstanceAs (Decidable (_ → _))

/-! ## What a step adds -/

section Steps

variable {s s' : State} {rest : List Frame}

@[simp] theorem countP_looks_cons (f : Frame) (rest : List Frame) :
    (f :: rest).countP Frame.looks = rest.countP Frame.looks + f.looks.toNat := by
  rw [List.countP_cons]
  cases f.looks <;> rfl

/-- A post calls `ScheduleWork` exactly when the loop is not scheduled and its queue empty. -/
theorem scheduleWork_iff (h : QueueInv s) (task : Nat) (delay : Int) (nestable : Bool) :
    (s.loop.incomingTaskQueue.addToIncomingQueue s.now task delay nestable).scheduleWork = true ↔
      s.OwesMore (.post task delay nestable) := by
  obtain ⟨n, p, he⟩ := s.loop.incomingTaskQueue.addToIncomingQueue_eq s.now task delay nestable
  rw [he]
  simp [IncomingTaskQueue.postPendingTask, h.live, h.coalesces, State.OwesMore]

/-- What `handleScheduledWork` owes after `DoDelayedWork`, with nothing plausible before it. -/
theorem owed_doDelayedWork (h : QueueInv s)
    (hs : s.stack = .customEvent (.doDelayedWork false) :: rest)
    (ha : s.advance (.doDelayedWork false) = some s') :
    (s.loop.DelayedDue s.now → s'.owed = s.owed + 1) ∧
      (¬ s.loop.DelayedDue s.now → s'.owed = s.owed) := by
  refine ⟨fun hdue => ?_, fun hno => ?_⟩
  · obtain ⟨hn, p, hp, hle⟩ := hdue
    have hrun : (s.loop.doDelayedWork s.now 0).run = some p :=
      MessageLoop.doDelayedWork_run_of_due h.runDepth hn hp hle
    simp only [State.advance, hrun] at ha
    obtain rfl := Option.some.inj ha
    simp [State.owed, hs, Frame.looks]
    omega
  · have hrun : (s.loop.doDelayedWork s.now 0).run = none :=
      MessageLoop.doDelayedWork_run_eq_none hno
    simp only [State.advance, hrun] at ha
    obtain rfl := Option.some.inj ha
    simp [State.owed, hs, Frame.looks]

/-- A step adds one event or none, and none but what `OwesMore` lists. -/
theorem owed_step {a : Action} (h : QueueInv s) (hst : step s a = some s') :
    (s.OwesMore a → s'.owed = s.owed + 1) ∧ (¬ s.OwesMore a → s'.owed ≤ s.owed) := by
  have hadvance : ∀ {f : Frame} {rest : List Frame}, s.stack = f :: rest →
      f ≠ .customEvent (.doDelayedWork false) → ¬ s.OwesMore .advance := by
    rintro f rest hs hf ⟨htop, -⟩
    rw [hs] at htop
    exact hf (Option.some.inj htop)
  have hdelayed : ∀ {rest : List Frame}, a = .advance →
      s.stack = .customEvent (.doDelayedWork false) :: rest →
      (s.OwesMore a → s'.owed = s.owed + 1) ∧ (¬ s.OwesMore a → s'.owed ≤ s.owed) := by
    rintro rest rfl hs
    simp only [step, hs] at hst
    have howed := owed_doDelayedWork h hs hst
    refine ⟨fun hmore => howed.1 hmore.2, fun hno => Nat.le_of_eq (howed.2 fun hdue => ?_)⟩
    exact hno ⟨by rw [hs]; rfl, hdue⟩
  cases step_effect h hst with
  | post task delay nestable =>
    have hsched := scheduleWork_iff h task delay nestable
    rw [← hsched]
    unfold State.owed
    rw [State.post_userEvents, State.post_stack]
    refine ⟨fun hs => ?_, fun hs => ?_⟩
    · rw [hs, Bool.toNat_true]
      omega
    · rw [Bool.eq_false_of_not_eq_true hs, Bool.toNat_false]
      omega
  | setNestableTasksAllowed b _ =>
    unfold State.owed
    rw [State.setNestableTasksAllowed_userEvents, State.setNestableTasksAllowed_stack]
    cases b with
    | true => exact ⟨fun _ => by rw [Bool.toNat_true]; omega, fun hno => absurd rfl hno⟩
    | false =>
      exact ⟨fun hno => absurd hno Bool.false_ne_true, fun _ => by rw [Bool.toNat_false]; omega⟩
  | userEvent _ hpos =>
    refine ⟨False.elim, fun _ => ?_⟩
    unfold State.owed
    simp only [State.customEvent, State.push, State.takeEvent, countP_looks_cons]
    have hle := Bool.toNat_le (Frame.looks (.customEvent
      (if s.loop.nestableTasksAllowed = true then .doWork else .doDelayedWork false)))
    omega
  | timerRuns | enterEventLoop =>
    refine ⟨False.elim, fun _ => ?_⟩
    simp [State.owed, Frame.looks]
  | reloadsNothing hs | reloads hs | keepsWork hs | popsNothing hs | popsTask hs | idles hs =>
    refine ⟨fun hmore => absurd hmore (hadvance hs (by simp)), fun _ => ?_⟩
    simp [State.owed, hs, Frame.looks]
  | popsDelayed hs _ _ =>
    refine ⟨fun hmore => absurd hmore (hadvance hs (by simp)), fun _ => ?_⟩
    split <;> simp [State.owed, hs, Frame.looks]
  | @delayedNothing rest more hs _ | @delayedWaits rest more _ hs _ =>
    cases more with
    | false => exact hdelayed rfl hs
    | true =>
      refine ⟨fun hmore => absurd hmore (hadvance hs (by simp)), fun _ => ?_⟩
      simp [State.owed, State.afterDelayed, hs, Frame.looks]
      omega
  | @delayedRuns rest more _ _ hs _ =>
    cases more with
    | false => exact hdelayed rfl hs
    | true =>
      refine ⟨fun hmore => absurd hmore (hadvance hs (by simp)), fun _ => ?_⟩
      simp [State.owed, hs, Frame.looks]
  | exitEventLoop hs | timerReturns hs | idleReturns hs | workReturns hs =>
    refine ⟨False.elim, fun _ => ?_⟩
    simp [State.owed, hs, Frame.looks]
  | handlerReturns hs hpc =>
    refine ⟨False.elim, fun _ => ?_⟩
    rcases hpc with rfl | rfl
    · simp [State.owed, hs, Frame.looks]
      omega
    · simp [State.owed, hs, Frame.looks]
      omega
  | _ =>
    refine ⟨False.elim, fun _ => ?_⟩
    simp [State.owed]

end Steps

/-! ## What is owed becomes pending

From any state on, the frames on the stack can return one by one, and each that owes an event
posts it. -/

/-- Some run from here on comes back to the frames `rest`, with no less pending or owed. -/
def Unwinds (s : State) (rest : List Frame) : Prop :=
  ∃ s', pumpMachine.Leads s s' ∧ s'.stack = rest ∧ s.owed ≤ s'.owed

namespace Unwinds

variable {s : State} {f : Frame} {rest : List Frame}

theorem step (a : Action) (s' : State) (hst : Ui.step s a = some s') (hle : s.owed ≤ s'.owed)
    (h : Unwinds s' rest) : Unwinds s rest := by
  obtain ⟨s'', hlead, hs, hle'⟩ := h
  exact ⟨s'', .step (a := a) hst hlead, hs, hle.trans hle'⟩

theorem last (a : Action) (s' : State) (hst : Ui.step s a = some s') (hs : s'.stack = rest)
    (hle : s.owed ≤ s'.owed) : Unwinds s rest :=
  .step a s' hst hle ⟨s', .refl s', hs, le_rfl⟩

theorem of_other (hs : s.stack = f :: rest) (hf : ∀ pc, f ≠ .customEvent pc) :
    Unwinds s rest := by
  cases f with
  | customEvent pc => exact absurd rfl (hf pc)
  | timerEvent next =>
    refine .last .taskReturns ((s.setLoop s.loop.didRunTask).ret.scheduleDelayedWork next) ?_ ?_ ?_
    · simp only [Ui.step, hs, State.resume]
    · simp [hs]
    · simp [State.owed, hs, Frame.looks]
  | onIdle =>
    refine .last .taskReturns (s.setLoop s.loop.didRunTask).ret ?_ ?_ ?_
    · simp only [Ui.step, hs, State.resume]
    · simp [hs]
    · simp [State.owed, hs, Frame.looks]
  | eventLoop =>
    refine .last .exitEventLoop s.ret ?_ ?_ ?_
    · simp [Ui.step, hs]
    · simp [hs]
    · simp [State.owed, hs, Frame.looks]

/-- The task that `DoDelayedWork` or `DoIdleWork` runs returns. -/
theorem of_lateTask {pc : WorkPc} (hs : s.stack = .customEvent pc :: rest)
    (hpc : pc = .delayedTask ∨ pc = .idleTask) : Unwinds s rest := by
  refine .last .taskReturns (s.setLoop s.loop.didRunTask).repost ?_ ?_ ?_
  · rcases hpc with rfl | rfl <;> simp only [Ui.step, hs, State.resume]
  · simp [hs]
  · rcases hpc with rfl | rfl <;> simp [State.owed, hs, Frame.looks] <;> omega

theorem of_doIdleWork {time : Int} (hs : s.stack = .customEvent (.doIdleWork time) :: rest) :
    Unwinds s rest := by
  let s1 := s.setLoop s.loop.doIdleWork.loop
  cases hrun : s.loop.doIdleWork.run with
  | some p =>
    refine .step .advance (s1.goto (.customEvent .idleTask)) ?_ ?_ ?_
    · simp only [Ui.step, hs, State.advance, hrun]
      rfl
    · simp [s1, State.owed, hs, Frame.looks]
    · exact of_lateTask (by simp [s1, hs]) (.inr rfl)
  | none =>
    let s2 := if s.loop.doIdleWork.quit then s1.quit else s1
    have hs2 : s2.stack = s.stack ∧ s2.qt.userEvents = s.qt.userEvents := by
      simp only [s2]
      split <;> exact ⟨rfl, rfl⟩
    refine .last .advance (s2.scheduleDelayedWork time).ret ?_ ?_ ?_
    · simp only [Ui.step, hs, State.advance, hrun]
      rfl
    · simp [hs2, hs]
    · simp [State.owed, hs2, hs, Frame.looks]

theorem of_doDelayedWork {more : Bool}
    (hs : s.stack = .customEvent (.doDelayedWork more) :: rest) : Unwinds s rest := by
  let r := s.loop.doDelayedWork s.now 0
  let s1 := s.setLoop r.loop
  cases hrun : (s.loop.doDelayedWork s.now 0).run with
  | some p =>
    refine .step .advance (s1.goto (.customEvent .delayedTask)) ?_ ?_ ?_
    · simp only [Ui.step, hs, State.advance, hrun]
      rfl
    · cases more <;> simp [s1, State.owed, hs, Frame.looks]
    · exact of_lateTask (by simp [s1, hs]) (.inl rfl)
  | none =>
    cases more with
    | true =>
      refine .last .advance s1.repost ?_ ?_ ?_
      · simp only [Ui.step, hs, State.advance, hrun]
        rfl
      · simp [s1, hs]
      · simp [s1, State.owed, hs, Frame.looks]
        omega
    | false =>
      have hs1 : (s1.goto (.customEvent (.doIdleWork r.next))).stack =
          .customEvent (.doIdleWork r.next) :: rest := by
        simp [s1, hs]
      refine .step .advance (s1.goto (.customEvent (.doIdleWork r.next))) ?_ ?_ (of_doIdleWork hs1)
      · simp only [Ui.step, hs, State.advance, hrun]
        rfl
      · simp [s1, State.owed, hs, Frame.looks]

theorem of_workTask (hs : s.stack = .customEvent .workTask :: rest) : Unwinds s rest := by
  let s1 := (s.setLoop s.loop.didRunTask).goto (.customEvent (.doDelayedWork true))
  have hs1 : s1.stack = .customEvent (.doDelayedWork true) :: rest := by simp [s1, hs]
  refine .step .taskReturns s1 ?_ ?_ (of_doDelayedWork hs1)
  · simp only [Ui.step, hs, State.resume]
    rfl
  · simp [s1, State.owed, hs, Frame.looks]

/-- The rounds of `DoWork` before its next task, at most. -/
def rounds (l : MessageLoop) (pc : WorkPc) : Nat :=
  3 * (l.workQueue ++ l.incomingTaskQueue.incomingQueue).length +
    if pc = .doWork then 1 else 2 - 2 * l.workQueue.length

/-- `ReloadWorkQueue` leaves a task in the work queue, if there is one. -/
theorem reloadWorkQueue_spec {l : MessageLoop} {p : PendingTask}
    (hp : p ∈ l.workQueue ++ l.incomingTaskQueue.incomingQueue) :
    l.reloadWorkQueue.workQueue ≠ [] ∧
      l.reloadWorkQueue.workQueue ++ l.reloadWorkQueue.incomingTaskQueue.incomingQueue =
        l.workQueue ++ l.incomingTaskQueue.incomingQueue := by
  rcases l.reloadWorkQueue_cases with ⟨hw, hi, -⟩ | ⟨hw, hi, m, he⟩ | ⟨hw, he⟩
  · simp [hw, hi] at hp
  · simp [he, hw, hi]
  · rw [he]
    exact ⟨hw, rfl⟩

/-- `DoWork` comes to a task that is to be run at once. -/
theorem of_doWork {pc : WorkPc} (hr : pumpMachine.Reachable s)
    (hs : s.stack = .customEvent pc :: rest) (hpc : pc = .doWork ∨ pc = .popWork)
    (hp : ∃ p ∈ s.loop.workQueue ++ s.loop.incomingTaskQueue.incomingQueue,
      p.delayedRunTime = 0) : Unwinds s rest := by
  induction hn : rounds s.loop pc using Nat.strong_induction_on generalizing s pc with
  | _ n ih =>
    subst hn
    obtain ⟨p, hp, himm⟩ := hp
    rcases hpc with rfl | rfl
    · let s1 := (s.setLoop s.loop.reloadWorkQueue).goto (.customEvent .popWork)
      obtain ⟨hw, hqueues⟩ := reloadWorkQueue_spec hp
      have hst : Ui.step s .advance = some s1 := by
        simp [Ui.step, hs, State.advance, hw, s1]
      have hs1 : s1.stack = .customEvent .popWork :: rest := by simp [s1, hs]
      have hlt : rounds s1.loop .popWork < rounds s.loop .doWork := by
        have hlength := List.length_pos_iff.mpr hw
        simp only [rounds, s1, State.goto, State.setLoop, hqueues]
        simp
        omega
      refine .step .advance s1 hst ?_ (ih _ hlt (hr.step (a := .advance) trivial hst) hs1 (.inr rfl)
        ⟨p, ?_, himm⟩ rfl)
      · simp [s1, State.owed, hs, Frame.looks]
      · exact hqueues ▸ hp
    · rcases MessageLoop.popWork_cases (queueInv_reach hr).runDepth with
        ⟨hw, he⟩ | ⟨q, tasks, b, hw, hq, he⟩ | ⟨q, tasks, hw, hq, he⟩
      · let s1 := s.goto (.customEvent .doWork)
        have hst : Ui.step s .advance = some s1 := by
          simp [Ui.step, hs, State.advance, he, s1]
        have hs1 : s1.stack = .customEvent .doWork :: rest := by simp [s1, hs]
        have hlt : rounds s1.loop .doWork < rounds s.loop .popWork := by
          simp [rounds, s1, hw]
        refine .step .advance s1 hst ?_ (ih _ hlt (hr.step (a := .advance) trivial hst) hs1
          (.inl rfl) ⟨p, hp, himm⟩ rfl)
        simp [s1, State.owed, hs, Frame.looks]
      · let l : MessageLoop :=
          { s.loop with workQueue := tasks, delayedWorkQueue := s.loop.delayedWorkQueue.push q }
        let s1 := if b then (s.setLoop l).scheduleDelayedWork q.delayedRunTime else s.setLoop l
        have hs1 : s1.loop = l ∧ s1.stack = s.stack ∧ s1.qt.userEvents = s.qt.userEvents := by
          cases b <;> simp [s1]
        have hst : Ui.step s .advance = some s1 := by
          simp only [Ui.step, hs, State.advance, he]
          rfl
        have hlt : rounds s1.loop .popWork < rounds s.loop .popWork := by
          simp only [rounds, hs1.1, l, hw, List.cons_append, List.length_cons, reduceCtorEq,
            if_false]
          omega
        refine .step .advance s1 hst ?_ (ih _ hlt (hr.step (a := .advance) trivial hst)
          (hs1.2.1.trans hs) (.inr rfl) ⟨p, ?_, himm⟩ rfl)
        · simp [State.owed, hs1]
        · rw [hw, List.cons_append, List.mem_cons] at hp
          rw [hs1.1]
          apply hp.resolve_left
          rintro rfl
          exact hq himm
      · let s1 := (s.setLoop ({ s.loop with workQueue := tasks }.runTask q)).goto
          (.customEvent .workTask)
        have hst : Ui.step s .advance = some s1 := by
          simp [Ui.step, hs, State.advance, he, s1]
        refine .step .advance s1 hst ?_ (of_workTask (by simp [s1, hs]))
        simp [s1, State.owed, hs, Frame.looks]

/-- The top frame returns; `DoWork` is given a task if need be. -/
theorem of_cons (hr : pumpMachine.Reachable s) (hs : s.stack = f :: rest) : Unwinds s rest := by
  cases f with
  | timerEvent | onIdle | eventLoop => exact of_other hs nofun
  | customEvent pc =>
    cases pc with
    | workTask => exact of_workTask hs
    | doDelayedWork => exact of_doDelayedWork hs
    | delayedTask => exact of_lateTask hs (.inl rfl)
    | doIdleWork => exact of_doIdleWork hs
    | idleTask => exact of_lateTask hs (.inr rfl)
    | doWork | popWork =>
      have hst : Ui.step s (.post 0 0 true) = some (s.post 0 0 true) := rfl
      have hlive := (queueInv_reach hr).live
      refine .step (.post 0 0 true) _ hst ?_ (of_doWork (hr.step (a := .post 0 0 true) trivial hst)
        ((State.post_stack ..).trans hs) (by simp) ?_)
      · unfold State.owed
        rw [State.post_userEvents, State.post_stack]
        omega
      · obtain ⟨p, -, htime, hq⟩ :=
          s.loop.incomingTaskQueue.addToIncomingQueue_spec s.now 0 0 true
        rw [if_pos hlive] at hq
        exact ⟨p, by simp [State.post_loop, hq], htime⟩

theorem all (hr : pumpMachine.Reachable s) : Unwinds s [] := by
  induction hstack : s.stack generalizing s with
  | nil => exact ⟨s, .refl s, hstack, le_rfl⟩
  | cons f rest ih =>
    obtain ⟨s1, hlead, hs1, hle⟩ := of_cons hr hstack
    obtain ⟨s2, hlead', hs2, hle'⟩ := ih (hlead.reachable hr) hs1
    exact ⟨s2, hlead.trans hlead', hs2, hle.trans hle'⟩

end Unwinds

/-- **What is owed becomes pending**: from every state some run comes to an idle state in which at
least as many events are pending as were pending or owed. -/
theorem owed_pends {s : State} (hr : pumpMachine.Reachable s) :
    ∃ s', pumpMachine.Leads s s' ∧ s'.Idle ∧ s.owed ≤ s'.qt.userEvents := by
  obtain ⟨s', hlead, hidle, hle⟩ := Unwinds.all hr
  refine ⟨s', hlead, hidle, ?_⟩
  unfold State.owed at hle
  rwa [hidle, List.countP_nil, Nat.add_zero] at hle

/-! ## The guarded runs -/

/-- At most one event is pending or owed in the states of the guarded runs. -/
theorem owed_le_one {s : State} (hr : pumpMachine.Reach KeepsOne s) : s.owed ≤ 1 := by
  refine hr.invariant_of (I := fun s => s.owed ≤ 1) (fun _ => queueInv_reach) ?_ ?_
  · rintro _ ⟨now, rfl⟩
    exact Nat.zero_le 1
  · intro s a s' hq hi hok hst
    obtain ⟨hmore, hless⟩ := owed_step hq hst
    by_cases hm : s.OwesMore a
    · have h0 := hok hm
      have h1 := hmore hm
      omega
    · exact Nat.le_trans (hless hm) hi

/-- **Wakeups coalesce**: in a run in which no event is added while one is pending or owed, at
most one is pending; and any step that does add one lets two be pending in some run that follows. -/
theorem wakeups_coalesce {s : State} (hr : pumpMachine.Reach KeepsOne s) :
    s.qt.userEvents ≤ 1 ∧ ∀ a s', step s a = some s' → ¬ KeepsOne s a →
      ∃ s'', pumpMachine.Leads s' s'' ∧ 2 ≤ s''.qt.userEvents := by
  refine ⟨Nat.le_trans (Nat.le_add_right _ _) (owed_le_one hr), fun a s' hst hno => ?_⟩
  obtain ⟨hmore, howed⟩ := Classical.not_imp.mp hno
  have hstep := (owed_step (queueInv_reach hr) hst).1 hmore
  obtain ⟨s'', hlead, -, hle⟩ := owed_pends (hr.reachable.step trivial hst)
  exact ⟨s'', hlead, by omega⟩

/-- Three posts are one event and one that is owed to the tasks that are left; the task that runs
can add another. -/
theorem wakeups_coalesce_post : ∃ s, pumpMachine.Reach KeepsOne s ∧ s.owed = 1 ∧
    s.qt.userEvents ≤ 1 ∧ ∃ s', step s (.setNestableTasksAllowed true) = some s' ∧
      ∃ s'', pumpMachine.Leads s' s'' ∧ 2 ≤ s''.qt.userEvents := by
  obtain ⟨s, hr, hs⟩ := Machine.exists_reach_of_admits (M := pumpMachine) KeepsOne
    (s := .start 1) ⟨1, rfl⟩
    [.post 1 0 true, .post 2 0 true, .userEvent, .advance, .post 3 0 true, .advance]
    (p := fun s => decide (s.owed = 1 ∧ s.inTask = true)) (by decide) (by decide)
  obtain ⟨howed, htask⟩ := of_decide_eq_true hs
  have hst : step s (.setNestableTasksAllowed true) = some (s.setNestableTasksAllowed true) :=
    if_pos htask
  have hno : ¬ KeepsOne s (.setNestableTasksAllowed true) := fun h => by
    rw [h rfl] at howed
    cases howed
  obtain ⟨hone, hmore⟩ := wakeups_coalesce hr
  exact ⟨s, hr, howed, hone, _, hst, hmore _ _ hst hno⟩

/-! ## Surplus events

A post comes between the `DoWork` that finds nothing and the delayed task that
`DoDelayedWork` then runs: that handler posts again although an event is pending.
And a task that allows nestable tasks again and again posts an event each time. -/

theorem exists_surplus (n : Nat) :
    ∃ s, pumpMachine.Reachable s ∧ s.inTask = true ∧ n ≤ s.qt.userEvents := by
  induction n with
  | zero =>
    obtain ⟨s, hr, hs⟩ := Machine.exists_reachable (M := pumpMachine) (s := .start 1) ⟨1, rfl⟩
      [.post 1 0 true, .userEvent, .advance, .advance] (p := State.inTask) (by decide)
    exact ⟨s, hr, hs, Nat.zero_le _⟩
  | succ n ih =>
    obtain ⟨s, hr, ht, hn⟩ := ih
    refine ⟨s.setNestableTasksAllowed true, ?_, ?_, ?_⟩
    · refine hr.step (a := .setNestableTasksAllowed true) trivial ?_
      show (if s.inTask = true then _ else _) = _
      rw [if_pos ht]
    · unfold State.inTask
      rw [State.setNestableTasksAllowed_stack]
      exact ht
    · rw [State.setNestableTasksAllowed_userEvents, Bool.toNat_true]
      omega

theorem not_wakeups_coalesce : (¬ ∀ s, pumpMachine.Reachable s → s.qt.userEvents ≤ 1) ∧
    ¬ ∃ n, ∀ s, pumpMachine.Reachable s → s.qt.userEvents ≤ n := by
  refine ⟨fun h => ?_, fun ⟨n, h⟩ => ?_⟩
  · obtain ⟨s, hr, hs⟩ := Machine.exists_reachable (M := pumpMachine) (s := .start 1) ⟨1, rfl⟩
      [.post 1 1 true, .userEvent, .advance, .advance, .advance, .tick 1, .advance, .post 2 0 true,
        .advance, .taskReturns] (p := fun s => decide (s.qt.userEvents = 2)) (by decide)
    have htwo := of_decide_eq_true hs
    have hone := h s hr
    omega
  · obtain ⟨s, hr, -, hs⟩ := exists_surplus (n + 1)
    have hle := h s hr
    omega

end Mdgate.Ui
