import Mdgate.Ui.PumpSteps

/-!
# Wakeups for delayed work

The pump keeps at most one Qt timer and knows it by `m_timerId` (`TimerInv`).
Whoever leaves the queue to the timer alone must leave it armed early enough:
`Served` lists what serves a queue that is not empty, and is kept by every step
but one. `timerEvent` reads the next delayed time before it runs its task; when
that task lets a nested event loop run, the queue and the timer may have changed
by the time the task returns, and `ScheduleDelayedWork` is called with a stale
time. `FreshNext` says when the time still does.
-/

namespace Mdgate.Ui

open Mdgate.Base Mdgate.Lib

/-! ## The timer -/

/-- The pump's timer, if any, is the only one alive. -/
structure TimerInv (s : State) : Prop where
  alive : s.qt.timers.map (·.id) = if s.pump.timerId = 0 then [] else [s.pump.timerId]
  fresh : s.pump.timerId < s.qt.freshTimerId

namespace State

/-- The timer is armed for the time `t` or an earlier one. -/
def ArmedBy (s : State) (t : Int) : Prop := s.pump.timerId ≠ 0 ∧ s.pump.timerScheduledTime ≤ t

/-- At most one timer is alive, and `m_timerId` is null or names it. -/
def OneTimer (s : State) : Prop :=
  s.qt.timers.length ≤ 1 ∧ (s.pump.timerId ≠ 0 ↔ s.qt.timers ≠ []) ∧
    ∀ t ∈ s.qt.timers, t.id = s.pump.timerId

@[simp] theorem post_timers (s : State) (task : Nat) (delay : Int) (nestable : Bool) :
    (s.post task delay nestable).qt.timers = s.qt.timers := by
  simp only [post]; split <;> rfl

@[simp] theorem post_freshTimerId (s : State) (task : Nat) (delay : Int) (nestable : Bool) :
    (s.post task delay nestable).qt.freshTimerId = s.qt.freshTimerId := by
  simp only [post]; split <;> rfl

end State

namespace TimerInv

variable {s : State}

theorem congr {s' : State} (h : TimerInv s) (hp : s'.pump = s.pump)
    (ht : s'.qt.timers = s.qt.timers) (hf : s'.qt.freshTimerId = s.qt.freshTimerId) :
    TimerInv s' :=
  ⟨by rw [ht, hp]; exact h.alive, by rw [hp, hf]; exact h.fresh⟩

theorem id_eq (h : TimerInv s) : ∀ t ∈ s.qt.timers, t.id = s.pump.timerId := by
  intro t ht
  have hm : t.id ∈ s.qt.timers.map (·.id) := List.mem_map_of_mem ht
  rw [h.alive] at hm
  split at hm
  · cases hm
  · simpa using hm

theorem disarm (h : TimerInv s) : TimerInv s.disarm :=
  ⟨by simpa [State.disarm, Qt.killTimer] using h.id_eq,
    Nat.lt_of_le_of_lt (Nat.zero_le _) h.fresh⟩

theorem arm (h : TimerInv s) (t : Int) : TimerInv (s.arm t) := by
  have h0 : s.qt.freshTimerId ≠ 0 := fun h0 => absurd h.fresh (by omega)
  refine ⟨?_, ?_⟩
  · simpa [State.arm, Qt.killTimer, Qt.startTimer, h0] using h.id_eq
  · simp [State.arm, Qt.killTimer, Qt.startTimer]

theorem scheduleDelayedWork (h : TimerInv s) (t : Int) : TimerInv (s.scheduleDelayedWork t) := by
  unfold State.scheduleDelayedWork
  split
  · exact h.disarm
  · split
    · exact h.arm t
    · exact h

theorem oneTimer (h : TimerInv s) : s.OneTimer := by
  have ha := h.alive
  refine ⟨?_, ?_, h.id_eq⟩
  · rw [← List.length_map (f := (·.id)), ha]
    split <;> simp
  · rw [← not_iff_not, not_not, not_not, ← List.map_eq_nil_iff (f := (·.id)), ha]
    split <;> simp_all

theorem effect {s' : State} {a : Action} (h : TimerInv s) (e : Effect s a s') : TimerInv s' := by
  cases e with
  | timerNothing _ _ _ | timerWaits _ _ _ =>
    refine scheduleDelayedWork ?_ _
    exact h.disarm.congr rfl rfl rfl
  | timerRuns _ _ _ _ => exact h.disarm.congr rfl rfl rfl
  | timerReturns _ =>
    refine scheduleDelayedWork ?_ _
    exact h.congr rfl rfl rfl
  | @popsDelayed _ _ _ b _ _ _ =>
    cases b
    · exact h.congr rfl rfl rfl
    · rw [if_pos rfl]
      refine scheduleDelayedWork ?_ _
      exact h.congr rfl rfl rfl
  | idles _ =>
    have hi : TimerInv s.idle := h.congr (by simp) (by simp) (by simp)
    exact (hi.scheduleDelayedWork _).congr rfl rfl rfl
  | _ => exact h.congr (by simp) (by simp) (by simp)

end TimerInv

/-! ## Who serves the queue -/

theorem TimerInv.scheduleDelayedWork_armedBy {s : State} (h : TimerInv s) (t e : Int) :
    (s.scheduleDelayedWork t).ArmedBy e ↔ t ≠ 0 ∧ (t ≤ e ∨ s.ArmedBy e) := by
  have h0 : s.qt.freshTimerId ≠ 0 := fun h0 => absurd h.fresh (by omega)
  unfold State.scheduleDelayedWork
  by_cases ht : t = 0
  · simp [ht, State.ArmedBy, State.disarm]
  · by_cases hd : s.pump.timerId = 0 ∨ t < s.pump.timerScheduledTime
    · have harm : (s.arm t).ArmedBy e ↔ t ≤ e := by
        simp [State.ArmedBy, State.arm, Qt.startTimer, Qt.killTimer, h0]
      rw [if_neg (by simpa using ht), if_pos hd, harm]
      simp only [State.ArmedBy]
      omega
    · rw [if_neg (by simpa using ht), if_neg hd]
      simp only [State.ArmedBy]
      omega

namespace State

/-- The timer is armed in time, or will be when the handler on top of the stack returns. -/
def Arms (s : State) : Prop :=
  match s.stack with
  | [] => s.ArmedBy s.loop.delayedWorkQueue.nextRunTime
  | .customEvent (.doIdleWork t) :: _ => t = s.loop.delayedWorkQueue.nextRunTime
  | _ => True

/-- A task is running, or the delayed queue is empty or will be looked at. -/
def Served (s : State) : Prop :=
  s.Running ∨ s.loop.delayedWorkQueue.tasks = [] ∨ 0 < s.qt.userEvents ∨ s.Arms

/-- The time that `timerEvent` read before it ran its task serves the queue it is left with. -/
def FreshNext (s : State) (next : Int) : Prop :=
  s.loop.delayedWorkQueue.tasks ≠ [] → s.qt.userEvents = 0 →
    next ≠ 0 ∧ (next ≤ s.loop.delayedWorkQueue.nextRunTime ∨
      s.ArmedBy s.loop.delayedWorkQueue.nextRunTime)

theorem Served.frame {s s' : State} (h : s.Served) (hs : s'.stack = s.stack)
    (hd : s'.loop.delayedWorkQueue = s.loop.delayedWorkQueue)
    (hu : s.qt.userEvents ≤ s'.qt.userEvents) (hp : s'.pump = s.pump) : s'.Served := by
  unfold Served Arms Running ArmedBy at *
  rw [hs, hd, hp]
  exact h.imp_right (Or.imp_right (Or.imp_left fun h0 => Nat.lt_of_lt_of_le h0 hu))

theorem served_of_handler {s : State} {pc : WorkPc} {rest : List Frame}
    (hs : s.stack = .customEvent pc :: rest) (hpc : ∀ t, pc ≠ .doIdleWork t) : s.Served := by
  refine .inr (.inr (.inr ?_))
  unfold Arms
  rw [hs]
  cases pc <;> simp_all

theorem Arms.of_armedBy {s : State} (h : s.ArmedBy s.loop.delayedWorkQueue.nextRunTime)
    (hs : s.inEventLoop = true) : s.Arms := by
  unfold Arms
  unfold inEventLoop at hs
  split
  · exact h
  · next hst => simp [hst] at hs
  · trivial

end State

/-- The guard of a step: no `timerEvent` returns to `Run` with a stale time. -/
def KeepsTimer (s : State) (a : Action) : Prop :=
  a = .taskReturns → ¬ s.Quitting → ∀ next, s.stack = [.timerEvent next] → s.FreshNext next

/-- Below a frame of a well-formed stack there is nothing, or a running task. -/
theorem Stacked.rest_running {f : Frame} {rest : List Frame} (h : Stacked (f :: rest)) :
    rest = [] ∨ rest.any Frame.running = true := by
  cases h with
  | base => exact .inl rfl
  | nested _ h =>
    cases h with
    | eventLoop hf _ => exact .inr (by simp [hf])
    | base hf => cases hf
    | nested hf _ => cases hf
  | eventLoop hf _ => exact .inr (by simp [hf])

theorem served_effect {s s' : State} {a : Action} (hq : QueueInv s) (ht : TimerInv s)
    (hst : Stacked s.stack) (hn : s.loop.nestableTasksAllowed = false → s.Running)
    (hg : a = .taskReturns → ∀ next, s.stack = [.timerEvent next] → s.FreshNext next)
    (h : s.Served) (e : Effect s a s') : s'.Served := by
  cases e with
  | userEvent _ _ => exact State.served_of_handler rfl fun t => by split <;> simp
  | timerNothing _ _ hnt =>
    rcases hnt with hnt | hnt
    · exact .inl (by simpa [State.Running] using hn hnt)
    · exact .inr (.inl (by simpa using hnt))
  | @timerWaits id p hl _ hp =>
    have hmem : p ∈ s.loop.delayedWorkQueue.tasks := List.mem_of_mem_head? hp
    have htop : s.loop.delayedWorkQueue.nextRunTime = p.delayedRunTime := by
      simp [DelayedTaskQueue.nextRunTime, hp]
    refine .inr (.inr (.inr (.of_armedBy ?_ ?_)))
    · have hd : TimerInv (s.disarm.setLoop { s.loop with recentTime := s.now }) :=
        ht.disarm.congr rfl rfl rfl
      refine (hd.scheduleDelayedWork_armedBy _ _).mpr ⟨hq.delayed p hmem, .inl ?_⟩
      simp [htop]
    · rw [← hl]
      exact State.inEventLoop_congr (by simp)
  | timerRuns _ _ _ _ => exact .inl (by simp [State.Running, Frame.running])
  | reloadsNothing hs _ _ | reloads hs _ _ => exact State.served_of_handler rfl (by simp)
  | keepsWork hs _ | popsNothing hs _ => exact State.served_of_handler rfl (by simp)
  | workReturns hs => exact State.served_of_handler rfl (by simp)
  | @popsDelayed rest _ _ b hs _ _ =>
    cases b
    · exact State.served_of_handler hs (by simp)
    · exact State.served_of_handler ((State.scheduleDelayedWork_stack _ _).trans hs) (by simp)
  | popsTask hs _ | delayedRuns hs _ => exact .inl (by simp [State.Running, Frame.running])
  | @delayedNothing _ more hs hnt =>
    rcases hnt with hnt | hnt
    · have hr := hn hnt
      apply Or.inl
      cases more <;> simpa [State.Running, State.afterDelayed, hs, Frame.running] using hr
    · exact .inr (.inl (by simpa using hnt))
  | @delayedWaits _ more p hs hp =>
    cases more with
    | true => exact .inr (.inr (.inl (by simp [State.afterDelayed])))
    | false =>
      refine .inr (.inr (.inr ?_))
      simp [State.Arms, State.afterDelayed, DelayedTaskQueue.nextRunTime, hp]
  | @idles rest t hs =>
    rw [hs] at hst
    rcases hst.rest_running with rfl | hr
    · rcases h with h | h | h | h
      · simp [State.Running, hs, Frame.running] at h
      · exact .inr (.inl (by simpa using h))
      · exact .inr (.inr (.inl (by simpa using h)))
      · have he : t = s.loop.delayedWorkQueue.nextRunTime := by simpa [State.Arms, hs] using h
        by_cases hne : s.loop.delayedWorkQueue.tasks = []
        · exact .inr (.inl (by simpa using hne))
        · obtain ⟨p, hp, -, hnext⟩ := DelayedTaskQueue.exists_top hne
          have hi : TimerInv s.idle := ht.congr (by simp) (by simp) (by simp)
          have harm := (hi.scheduleDelayedWork_armedBy t t).mpr
            ⟨by rw [he, hnext]; exact hq.delayed p hp, .inl (le_refl t)⟩
          refine .inr (.inr (.inr ?_))
          simpa [State.Arms, hs, State.ArmedBy, ← he] using harm
    · exact .inl (by simpa [State.Running, hs] using hr)
  | enterEventLoop ht => exact .inl ((State.running_of_inTask ht).push _)
  | exitEventLoop hs =>
    rw [hs] at hst
    cases hst with
    | eventLoop hf _ => exact .inl (by simp [State.Running, hs, hf])
    | base hf => cases hf
    | nested hf _ => cases hf
  | handlerReturns hs hpc => exact .inr (.inr (.inl (by simp)))
  | @timerReturns rest next hs =>
    rw [hs] at hst
    rcases hst.rest_running with rfl | hr
    · have hf := hg rfl next hs
      by_cases hne : s.loop.delayedWorkQueue.tasks = []
      · exact .inr (.inl (by simpa using hne))
      · by_cases hu : s.qt.userEvents = 0
        · have hi : TimerInv (s.setLoop s.loop.didRunTask).ret := ht.congr rfl rfl rfl
          have harm := (hi.scheduleDelayedWork_armedBy next _).mpr (hf hne hu)
          refine .inr (.inr (.inr ?_))
          simpa [State.Arms, hs] using harm
        · exact .inr (.inr (.inl (by simpa using Nat.pos_of_ne_zero hu)))
    · exact .inl (by simpa [State.Running, hs] using hr)
  | idleReturns hs =>
    rw [hs] at hst
    cases hst with
    | base hf => cases hf
    | nested hf _ => cases hf
  | setNestableTasksAllowed b _ =>
    refine h.frame (by simp) (by simp) ?_ (by simp)
    rw [State.setNestableTasksAllowed_userEvents]; omega
  | post =>
    refine h.frame (by simp) (by simp [State.post_loop]) ?_ (by simp)
    rw [State.post_userEvents]; omega
  | _ => exact h.frame (by simp) (by simp) (by simp) (by simp)

theorem timerInv_reach {ok : State → Action → Prop} {s : State} (h : pumpMachine.Reach ok s) :
    TimerInv s := by
  refine h.invariant_of (fun _ => queueInv_reach) ?_ ?_
  · rintro _ ⟨now, rfl⟩
    exact ⟨rfl, Nat.zero_lt_one⟩
  · intro s a s' hq hi _ hst
    exact hi.effect (step_effect hq hst)

theorem served_reach {s : State} (h : pumpMachine.Reach KeepsTimer s) :
    s.Quitting ∨ s.Served := by
  refine h.invariant_of (I := fun s => s.Quitting ∨ s.Served) (J := pumpMachine.Reach KeepsTimer)
    (fun _ => id) ?_ ?_
  · rintro _ ⟨now, rfl⟩
    exact .inr (.inr (.inl rfl))
  · intro s a s' hr hi hg hst
    have hq := queueInv_reach hr
    have e := step_effect hq hst
    by_cases hqs : s.Quitting
    · exact .inl (e.quitting hqs)
    · exact .inr (served_effect hq (timerInv_reach hr) (stacked_reach hr) (nestable_reach hr)
        (fun ha => hg ha hqs) (hi.resolve_left hqs) e)

namespace State

/-- Delayed tasks have an event pending for them, or the timer is armed for the earliest. -/
def Timely (s : State) : Prop :=
  s.loop.delayedWorkQueue.tasks ≠ [] → 0 < s.qt.userEvents ∨ s.qt.Live s.pump.timerId ∧
    ∀ p ∈ s.loop.delayedWorkQueue.tasks, s.pump.timerScheduledTime ≤ p.delayedRunTime

instance (s : State) : Decidable s.Timely := inferInstanceAs (Decidable (_ → _))

end State

theorem TimerInv.live_iff {s : State} (h : TimerInv s) :
    s.qt.Live s.pump.timerId ↔ s.pump.timerId ≠ 0 := by
  have ha := h.oneTimer
  constructor
  · rintro ⟨t, ht, -⟩
    exact ha.2.1.mpr (List.ne_nil_of_mem ht)
  · intro h0
    obtain ⟨t, ht⟩ := List.exists_mem_of_ne_nil _ (ha.2.1.mp h0)
    exact ⟨t, ht, ha.2.2 t ht⟩

theorem TimerInv.armedBy_iff {s : State} (h : TimerInv s)
    (hne : s.loop.delayedWorkQueue.tasks ≠ []) :
    s.ArmedBy s.loop.delayedWorkQueue.nextRunTime ↔ s.qt.Live s.pump.timerId ∧
      ∀ p ∈ s.loop.delayedWorkQueue.tasks, s.pump.timerScheduledTime ≤ p.delayedRunTime := by
  obtain ⟨p, hp, -, hnext⟩ := DelayedTaskQueue.exists_top hne
  rw [h.live_iff]
  refine and_congr_right fun _ => ⟨fun ht p hp => ?_, fun ht => ?_⟩
  · exact le_trans ht (DelayedTaskQueue.nextRunTime_le hp)
  · rw [hnext]
    exact ht p hp

/-- **No stranded delayed work**: `m_timerId` always names the only timer alive,
and in a run in which no `timerEvent` returns with a stale time, an idle thread
with delayed tasks has an event pending or its timer armed for the earliest. -/
theorem delayed_work_served {s : State} (hr : pumpMachine.Reach KeepsTimer s) :
    s.OneTimer ∧ (s.Idle → ¬ s.Quitting → s.Timely) := by
  have ht := timerInv_reach hr
  refine ⟨ht.oneTimer, fun hi hq hne => ?_⟩
  rw [State.Idle] at hi
  rcases (served_reach hr).resolve_left hq with h | h | h | h
  · simp [State.Running, hi] at h
  · exact absurd h hne
  · exact .inl h
  · have harm : s.ArmedBy s.loop.delayedWorkQueue.nextRunTime := by simpa [State.Arms, hi] using h
    exact .inr ((ht.armedBy_iff hne).mp harm)

theorem delayed_work_served_timer : ∃ s : State, s.OneTimer ∧ s.Timely ∧
    s.loop.delayedWorkQueue.tasks ≠ [] ∧ s.qt.userEvents = 0 := by
  obtain ⟨s, hr, hs⟩ := Machine.exists_reach (M := pumpMachine) (s := .start 1) KeepsTimer
    ⟨1, rfl⟩
    [.post 1 5000 true, .userEvent, .advance, .advance, .advance, .advance, .advance, .advance]
    (p := fun s => decide (s.Idle ∧ ¬ s.Quitting ∧ s.loop.delayedWorkQueue.tasks ≠ [] ∧
      s.qt.userEvents = 0)) (by simp [KeepsTimer]) (by decide)
  obtain ⟨hi, hq, hne, hu⟩ := of_decide_eq_true hs
  obtain ⟨h1, h2⟩ := delayed_work_served hr
  exact ⟨s, h1, h2 hi hq, hne, hu⟩

/-! ## The stale time

A task that `timerEvent` runs allows nestable tasks and runs a nested event
loop, whose `customEvent` queues a delayed task and arms the timer; `timerEvent`
then kills that timer, because its queue was empty before. -/

theorem not_delayed_work_served : ¬ ∀ s, pumpMachine.Reachable s →
    s.OneTimer ∧ (s.Idle → ¬ s.Quitting → s.Timely) := by
  intro h
  obtain ⟨s, hr, hs⟩ := Machine.exists_reachable (M := pumpMachine) (s := .start 1) ⟨1, rfl⟩
    [.post 1 1 true, .userEvent, .advance, .advance, .advance, .advance, .advance, .advance,
      .tick 1000, .timer 1, .post 2 5000 true, .setNestableTasksAllowed true, .enterEventLoop,
      .userEvent, .advance, .advance, .advance, .advance, .advance, .advance, .userEvent,
      .advance, .advance, .advance, .exitEventLoop, .taskReturns]
    (p := fun s => decide (s.Idle ∧ ¬ s.Quitting ∧ ¬ s.Timely)) (by decide)
  obtain ⟨hi, hq, hw⟩ := of_decide_eq_true hs
  exact hw ((h s hr).2 hi hq)

/-- **Every stale time strands**: where `KeepsTimer` fails, delayed tasks are
left with no event and no timer that is early enough. -/
theorem staleNext_strands {s s' : State} {next : Int} (hr : pumpMachine.Reachable s)
    (hq : ¬ s.Quitting) (hs : s.stack = [.timerEvent next]) (hf : ¬ s.FreshNext next)
    (hst : step s .taskReturns = some s') : s'.Idle ∧ ¬ s'.Quitting ∧ ¬ s'.Timely := by
  have hi : TimerInv (s.setLoop s.loop.didRunTask).ret := (timerInv_reach hr).congr rfl rfl rfl
  obtain rfl : ((s.setLoop s.loop.didRunTask).ret).scheduleDelayedWork next = s' := by
    simpa only [step, hs, State.resume, Option.some.injEq] using hst
  simp only [State.FreshNext, Classical.not_imp] at hf
  obtain ⟨hne, hu, hnf⟩ := hf
  refine ⟨by simp [State.Idle, hs], by simpa [State.Quitting] using hq, fun ht => ?_⟩
  rcases ht (by simpa using hne) with h | h
  · simp [hu] at h
  · have harm := ((hi.scheduleDelayedWork next).armedBy_iff (by simpa using hne)).mpr h
    refine hnf ((hi.scheduleDelayedWork_armedBy next _).mp ?_)
    simpa using harm

end Mdgate.Ui
