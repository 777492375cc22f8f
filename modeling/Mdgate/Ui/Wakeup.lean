import Mdgate.Ui.PumpSteps

/-!
# Wakeups for immediate work

`IncomingTaskQueue` posts one event for many tasks: while
`message_loop_scheduled_` is set, a post relies on an event that is already
pending or on a handler that will look at the queues before the thread sleeps.
`WakeInv` says that something of the kind is always there.

A `customEvent` that is delivered while nestable tasks are not allowed takes the
event and looks at nothing. Below a `customEvent` that is harmless, since that
handler posts again when its task returns; `timerEvent` ignores the result of
`DoDelayedWork` and does not. `LosesWakeup` is the delivery that goes wrong, and
`wakeup_pending` says that nothing else does.
-/

namespace Mdgate.Ui

open Mdgate.Base Mdgate.Lib

/-- The handler in the frame calls `ReloadWorkQueue` or posts an event before it returns. -/
def Frame.looks : Frame → Bool
  | .customEvent (.doDelayedWork false) | .customEvent (.doIdleWork _) => false
  | .customEvent _ => true
  | _ => false

namespace State

def Covered (s : State) : Prop := 0 < s.qt.userEvents ∨ s.stack.any Frame.looks = true

/-- Delivering the pending event would leave nobody to look at the queues. -/
def LosesWakeup (s : State) : Prop :=
  s.loop.nestableTasksAllowed = false ∧ s.loop.incomingTaskQueue.messageLoopScheduled = true ∧
    s.qt.userEvents = 1 ∧ s.stack.any Frame.looks = false

instance (s : State) : Decidable s.LosesWakeup := inferInstanceAs (Decidable (_ ∧ _ ∧ _ ∧ _))

def HasWork (s : State) : Prop :=
  s.loop.incomingTaskQueue.incomingQueue ≠ [] ∨ s.loop.workQueue ≠ []

instance (s : State) : Decidable s.HasWork := inferInstanceAs (Decidable (_ ∨ _))

theorem covered_goto {s : State} {f : Frame} (hf : f.looks = true) : (s.goto f).Covered := by
  simp [Covered, hf]

theorem covered_repost (s : State) : s.repost.Covered := by
  simp [Covered]

theorem Covered.leave {s s' : State} {f : Frame} {rest : List Frame} (h : s.Covered)
    (hs : s.stack = f :: rest) (hf : f.looks = false) (hu : s'.qt.userEvents = s.qt.userEvents)
    (hr : rest.any Frame.looks = true → s'.stack.any Frame.looks = true) : s'.Covered := by
  simp only [Covered, hs, List.any_cons, hf, Bool.false_or] at h
  exact h.imp (fun h => hu ▸ h) hr

end State

/-- The guard of a step: no event is delivered that would be the last wakeup. -/
def KeepsWakeup (s : State) (a : Action) : Prop := a = .userEvent → ¬ s.Quitting → ¬ s.LosesWakeup

instance (s : State) : DecidablePred (KeepsWakeup s) :=
  fun _ => inferInstanceAs (Decidable (_ → ¬ _ → ¬ _))

/-- Whenever a post would not schedule the loop, the queues will be looked at. -/
structure WakeInv (s : State) : Prop where
  work : s.loop.workQueue ≠ [] → s.loop.incomingTaskQueue.messageLoopScheduled = true
  incoming : s.loop.incomingTaskQueue.incomingQueue ≠ [] →
    s.loop.incomingTaskQueue.messageLoopScheduled = true
  covered : s.loop.incomingTaskQueue.messageLoopScheduled = true → s.Covered

namespace WakeInv

variable {s s' : State}

theorem frame (h : WakeInv s) (hw : s'.loop.workQueue ≠ [] → s.loop.workQueue ≠ [])
    (hi : s'.loop.incomingTaskQueue = s.loop.incomingTaskQueue) (hc : s.Covered → s'.Covered) :
    WakeInv s' :=
  ⟨fun hw' => hi ▸ h.work (hw hw'), hi ▸ h.incoming, fun hs => hc (h.covered (hi ▸ hs))⟩

/-- A post schedules the loop unless it is scheduled already. -/
theorem post (h : WakeInv s) (task : Nat) (delay : Int) (nestable : Bool) :
    WakeInv (s.post task delay nestable) := by
  obtain ⟨n, p, he⟩ := s.loop.incomingTaskQueue.addToIncomingQueue_eq s.now task delay nestable
  have hl := s.post_loop task delay nestable
  have hu := s.post_userEvents task delay nestable
  rw [he] at hl hu
  set q : IncomingTaskQueue := { s.loop.incomingTaskQueue with highResTaskCount := n } with hq'
  have hs : q.messageLoopScheduled = s.loop.incomingTaskQueue.messageLoopScheduled := rfl
  have hi : q.incomingQueue = s.loop.incomingTaskQueue.incomingQueue := rfl
  rcases q.postPendingTask_cases p with ⟨hq, hw⟩ | ⟨hq, hw⟩
  · -- nothing the invariant reads has changed
    simp only [hq, hw] at hl hu
    refine ⟨?_, ?_, ?_⟩
    · simpa [hl, hs] using h.work
    · simpa [hl, hs, hi] using h.incoming
    · simpa [hl, hs, hu, State.Covered] using h.covered
  · -- the loop is scheduled now
    have hsched : (q.messageLoopScheduled || (q.postPendingTask p).scheduleWork) = true := by
      rw [hs]; rw [hi, hs] at hw
      rcases hw with hw | hw | hw
      · simp [hw]
      · simp [hw]
      · simp [h.incoming hw]
    refine ⟨fun _ => ?_, fun _ => ?_, fun _ => ?_⟩
    · rw [hl]; exact hq.trans hsched
    · rw [hl]; exact hq.trans hsched
    · cases hb : (q.postPendingTask p).scheduleWork with
      | true => exact .inl (by rw [hu, hb]; exact Nat.succ_pos _)
      | false =>
        rw [hb, Bool.or_false, hs] at hsched
        exact (h.covered hsched).imp (fun h0 => by rw [hu]; omega) (by simp)

/-- A delivered event is replaced by the handler it starts. -/
theorem customEvent (h : WakeInv s) (hk : ¬ s.LosesWakeup) : WakeInv s.customEvent := by
  refine ⟨h.work, h.incoming, fun hs => ?_⟩
  cases hn : s.loop.nestableTasksAllowed with
  | true => simp [State.Covered, hn, Frame.looks]
  | false =>
    rcases h.covered hs with he | hl
    · simp only [State.LosesWakeup, hn] at hk
      by_cases h1 : s.qt.userEvents = 1
      · apply Or.inr
        simp_all
      · apply Or.inl
        simp; omega
    · apply Or.inr
      simp [hl]

theorem effect {a : Action} (h : WakeInv s) (hk : a = .userEvent → ¬ s.LosesWakeup)
    (e : Effect s a s') : WakeInv s' := by
  cases e with
  | post => exact h.post ..
  | userEvent _ _ => exact h.customEvent (hk rfl)
  | reloadsNothing hs hw hi => exact ⟨by simp [hw], by simp [hi], by simp⟩
  | reloads hs hw hi => exact ⟨fun _ => h.incoming hi, by simp, fun _ => State.covered_goto rfl⟩
  | keepsWork hs hw => exact h.frame id rfl fun _ => State.covered_goto rfl
  | popsNothing hs hw => exact h.frame id rfl fun _ => State.covered_goto rfl
  | popsTask hs hw => exact h.frame (by simp [hw]) rfl fun _ => State.covered_goto rfl
  | delayedRuns hs hp => exact h.frame (by simp) (by simp) fun _ => State.covered_goto rfl
  | workReturns hs => exact h.frame (by simp) (by simp) fun _ => State.covered_goto rfl
  | handlerReturns hs hpc => exact h.frame (by simp) (by simp) fun _ => State.covered_repost _
  | @delayedNothing rest more hs _ =>
    cases more
    · exact h.frame (by simp) (by simp) fun hc =>
        hc.leave hs rfl rfl (by simp [State.afterDelayed, hs, Frame.looks])
    · exact h.frame (by simp) (by simp) fun _ => State.covered_repost _
  | @delayedWaits rest more p hs _ =>
    cases more
    · exact h.frame (by simp) (by simp) fun hc =>
        hc.leave hs rfl rfl (by simp [State.afterDelayed, hs, Frame.looks])
    · exact h.frame (by simp) (by simp) fun _ => State.covered_repost _
  | @popsDelayed rest p ps b hs hw hp => 
    cases b
    · exact h.frame (by simp [hw]) (by simp) (by simp [State.Covered])
    · exact h.frame (by simp [hw]) (by simp) (by simp [State.Covered])
  | idles hs =>
    exact h.frame (by simp) (by simp) fun hc => hc.leave hs rfl (by simp) (by simp [hs])
  | exitEventLoop hs | idleReturns hs =>
    exact h.frame (by simp) (by simp) fun hc => hc.leave hs rfl (by simp) (by simp [hs])
  | timerReturns hs =>
    exact h.frame (by simp) (by simp) fun hc => hc.leave hs rfl (by simp) (by simp [hs])
  | setNestableTasksAllowed b _ =>
    exact h.frame (by simp) (by simp) fun hc => hc.imp
      (by rw [State.setNestableTasksAllowed_userEvents]; omega) (by simp)
  | _ => refine h.frame ?_ ?_ ?_ <;> simp [State.Covered, Frame.looks]

end WakeInv

theorem wakeInv_reach {s : State} (h : pumpMachine.Reach KeepsWakeup s) :
    s.Quitting ∨ WakeInv s := by
  refine h.invariant_of (I := fun s => s.Quitting ∨ WakeInv s) (fun _ => queueInv_reach) ?_ ?_
  · rintro _ ⟨now, rfl⟩
    exact .inr ⟨by simp [State.start, MessageLoop.new],
      by simp [State.start, MessageLoop.new, IncomingTaskQueue.new],
      by simp [State.start, MessageLoop.new, IncomingTaskQueue.new]⟩
  · intro s a s' hq hi hk hst
    have e := step_effect hq hst
    by_cases hqs : s.Quitting
    · exact .inl (e.quitting hqs)
    · exact .inr ((hi.resolve_left hqs).effect (fun ha => hk ha hqs) e)

/-- **No lost wakeup**: in a run that never delivers the last wakeup to a
`DoWork` that may not run, immediate work always has an event pending for it. -/
theorem wakeup_pending {s : State} (hr : pumpMachine.Reach KeepsWakeup s) (hi : s.Idle)
    (hq : ¬ s.Quitting) (hw : s.HasWork) : 0 < s.qt.userEvents := by
  have h := (wakeInv_reach hr).resolve_left hq
  have hs := hw.elim h.incoming h.work
  rw [State.Idle] at hi
  exact (h.covered hs).resolve_right (by simp [hi])

/-- A delayed task that `timerEvent` runs posts two events, of which a nested event loop delivers one
in vain. -/
theorem wakeup_pending_post : ∃ s, pumpMachine.Reach KeepsWakeup s ∧ s.Idle ∧ s.HasWork ∧
    0 < s.qt.userEvents := by
  obtain ⟨s, hr, hs⟩ := Machine.exists_reach_of_admits (M := pumpMachine) KeepsWakeup
    (s := .start 1) ⟨1, rfl⟩
    [.post 1 1 true, .userEvent, .advance, .advance, .advance, .advance, .advance, .advance,
      .tick 1000, .timer 1, .post 2 0 true, .setNestableTasksAllowed true,
      .setNestableTasksAllowed false, .enterEventLoop, .userEvent, .advance, .advance,
      .exitEventLoop, .taskReturns]
    (p := fun s => decide (s.Idle ∧ ¬ s.Quitting ∧ s.HasWork)) (by decide) (by decide)
  obtain ⟨hi, hq, hw⟩ := of_decide_eq_true hs
  exact ⟨s, hr, hi, hw, wakeup_pending hr hi hq hw⟩

/-! ## The lost wakeup

A delayed task that `timerEvent` runs posts and then runs a nested event loop,
as a modal dialog does. -/

theorem not_wakeup_pending : ¬ ∀ s, pumpMachine.Reachable s → s.Idle → ¬ s.Quitting →
    s.HasWork → 0 < s.qt.userEvents := by
  intro h
  obtain ⟨s, hr, hs⟩ := Machine.exists_reachable (M := pumpMachine) (s := .start 1) ⟨1, rfl⟩
    [.post 1 1 true, .userEvent, .advance, .advance, .advance, .advance, .advance, .advance,
      .tick 1000, .timer 1, .post 2 0 true, .enterEventLoop, .userEvent, .advance, .advance,
      .exitEventLoop, .taskReturns]
    (p := fun s => decide (s.Idle ∧ ¬ s.Quitting ∧ s.HasWork ∧ s.qt.userEvents = 0)) (by decide)
  obtain ⟨hi, hq, hw, hu⟩ := of_decide_eq_true hs
  exact absurd (h s hr hi hq hw) (by omega)

/-- No event is pending, no handler will look at the queues, and no post will
schedule the loop. -/
structure Stranded (s : State) : Prop where
  noEvent : s.qt.userEvents = 0
  scheduled : s.loop.incomingTaskQueue.messageLoopScheduled = true
  unwatched : s.stack.any Frame.looks = false
  running : ¬ s.Quitting

namespace Stranded

theorem frame {s s' : State} (h : Stranded s) (hu : s'.qt.userEvents = s.qt.userEvents)
    (hi : s'.loop.incomingTaskQueue = s.loop.incomingTaskQueue)
    (hs : s.stack.any Frame.looks = false → s'.stack.any Frame.looks = false)
    (hq : s'.Quitting → s.Quitting) : Stranded s' :=
  ⟨hu.trans h.noEvent, hi ▸ h.scheduled, hs h.unwatched, fun hq' => h.running (hq hq')⟩

theorem taskReturns {s : State} {f : Frame} {rest : List Frame} (h : Stranded s)
    (hs : s.stack = f :: rest) (hf : f.running = true) :
    ∃ s', step s .taskReturns = some s' ∧ s'.stack = rest ∧ Stranded s' := by
  have hl : f.looks = false := by simpa [hs] using (List.any_eq_false.mp h.unwatched) f
  cases f with
  | customEvent pc => cases pc <;> simp_all [Frame.looks, Frame.running]
  | timerEvent next =>
    refine ⟨((s.setLoop s.loop.didRunTask).ret).scheduleDelayedWork next, ?_, by simp [hs],
      h.frame (by simp) (by simp) (by simp [hs]) (by simp [State.Quitting])⟩
    simp only [step, hs, State.resume]
  | onIdle =>
    refine ⟨(s.setLoop s.loop.didRunTask).ret, ?_, by simp [hs],
      h.frame rfl rfl (by simp [hs]) id⟩
    simp only [step, hs, State.resume]
  | eventLoop => cases hf

/-- The nested event loops and the tasks below them return one by one. -/
theorem unwind {s : State} (hr : pumpMachine.Reachable s) (h : Stranded s)
    (hl : s.inEventLoop = true) : ∃ s', pumpMachine.Leads s s' ∧ s'.Idle ∧ Stranded s' := by
  have hst := stacked_reach hr
  cases hs : s.stack with
  | nil => exact ⟨s, .refl s, hs, h⟩
  | cons g rest =>
    obtain rfl : g = .eventLoop := by
      unfold State.inEventLoop at hl
      split at hl <;> simp_all
    rw [hs] at hst
    cases hst with
    | base hf => cases hf
    | nested hf _ => cases hf
    | @eventLoop f rest hf hst =>
      have h1 : Stranded s.ret := h.frame rfl rfl (by simp [hs]) id
      have hs1 : s.ret.stack = f :: rest := by simp [hs]
      obtain ⟨s2, hstep, hs2, h2⟩ := h1.taskReturns hs1 hf
      have hexit : pumpMachine.step s .exitEventLoop = some s.ret := by
        simp [pumpMachine, step, hs]
      have hl2 : s2.inEventLoop = true := by
        unfold State.inEventLoop
        rw [hs2]
        cases hst with
        | base => rfl
        | nested => rfl
        | eventLoop => cases hf
      have hr2 : pumpMachine.Reachable s2 :=
        (hr.step trivial hexit).step (a := .taskReturns) trivial hstep
      obtain ⟨s', hlead, hidle, h'⟩ := unwind hr2 h2 hl2
      exact ⟨s', .step hexit (.step (a := .taskReturns) hstep hlead), hidle, h'⟩
termination_by s.stack.length
decreasing_by
  rw [hs, hs2]
  simp only [List.length_cons]
  omega

end Stranded

/-- **Every lost wakeup strands**: after each delivery that `KeepsWakeup` rules
out, some run of the thread ends with work that no event is pending for. -/
theorem losesWakeup_strands {s s1 : State} (hr : pumpMachine.Reachable s) (hq : ¬ s.Quitting)
    (hl : s.LosesWakeup) (hst : step s .userEvent = some s1) :
    ∃ s', pumpMachine.Leads s1 s' ∧ s'.Idle ∧ ¬ s'.Quitting ∧ s'.HasWork ∧
      s'.qt.userEvents = 0 := by
  have hQ := queueInv_reach hr
  obtain ⟨hn, hsch, hu, hw⟩ := hl
  obtain ⟨⟨hd, -⟩, rfl⟩ := Machine.guard_eq_some hst
  have hr1 : pumpMachine.Reachable s.customEvent := hr.step (a := .userEvent) trivial hst
  -- the delivered `customEvent` finds nothing to do
  let s1 := s.customEvent
  let s2 := (s1.setLoop { s1.loop with recentTime := 0 }).goto (.customEvent (.doIdleWork 0))
  let s3 := (s2.idle.scheduleDelayedWork 0).ret
  have hst1 : pumpMachine.step s1 .advance = some s2 := by
    simp [pumpMachine, step, s1, s2, hn, State.advance, MessageLoop.doDelayedWork]
  have hst2 : pumpMachine.step s2 .advance = some s3 := by
    have hs2 : s2.stack = .customEvent (.doIdleWork 0) :: s.stack := rfl
    have he := MessageLoop.doIdleWork_eq (l := s2.loop) hQ.deferred
    simp only [pumpMachine, step, hs2, State.advance, he]
    rfl
  have hr3 : pumpMachine.Reachable s3 := (hr1.step trivial hst1).step trivial hst2
  have h3 : Stranded s3 := by
    refine ⟨?_, ?_, ?_, ?_⟩
    · simp [s3, s2, s1, hu]
    · simp [s3, s2, s1, hsch]
    · simp [s3, s2, s1, hw]
    · have hq' := not_or.mp hq
      simp [s3, s2, s1, State.Quitting, hq'.1, hq'.2]
  obtain ⟨s4, hlead, hi4, h4⟩ := h3.unwind hr3
    ((State.inEventLoop_congr (by simp [s3, s2, s1])).trans hd)
  -- the next post does not schedule the loop
  have hQ4 := queueInv_reach (hlead.reachable hr3)
  have hpost := IncomingTaskQueue.addToIncomingQueue_live hQ4.live s4.now 0 0 true
  have hst4 : pumpMachine.step s4 (.post 0 0 true) = some (s4.post 0 0 true) := rfl
  refine ⟨s4.post 0 0 true, .step hst1 (.step hst2 (hlead.trans (.step hst4 (.refl _)))),
    ?_, ?_, ?_, ?_⟩
  · simpa [State.Idle] using hi4
  · simpa [State.Quitting, State.post_loop] using h4.running
  · exact .inl (by rw [State.post_loop]; exact hpost.1)
  · rw [State.post_userEvents, h4.noEvent, hpost.2 hQ4.coalesces h4.scheduled]
    rfl

end Mdgate.Ui
