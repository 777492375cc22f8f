import Mathlib.Order.Bounds.Defs
import Mdgate.Ui.DelayedWork

/-!
# The interval of the timer

`GetTimeIntervalMilliseconds` rounds the time left up to milliseconds and then
converts it to an `int`. A number that does not fit becomes `INT_MIN`, which is
taken for a time that has passed: the timer for it has the interval zero.

`Timed` adds to a run of the pump the time at which its timer was set, and
`timer_interval_iff` says when the timer is on time: always, but for a time that
is more than `maxInterval` away when the timer is set.
-/

namespace Mdgate.Ui

open Mdgate.Base Mdgate.Lib

/-- The longest time that fits in an `int` of milliseconds. -/
def maxInterval : Int := (2 ^ 31 - 1) * 1000

/-- What the interval from `now` to `t` is to be: the least number of milliseconds that is long
enough, or some positive number when that one does not fit. -/
structure IsInterval (now t i : Int) : Prop where
  past : t ≤ now → i = 0
  future : now < t → IsLeast {m : Int | t - now ≤ m * 1000} i ∨ maxInterval < t - now ∧ 0 < i

variable {now t : Int}

theorem getTimeIntervalMilliseconds_of_near (ht : t ≠ 0) (h : t - now ≤ maxInterval) :
    getTimeIntervalMilliseconds now t = max 0 (-(-(t - now) / 1000)) := by
  unfold maxInterval at h
  unfold getTimeIntervalMilliseconds
  rw [if_neg (by simpa using ht)]
  show (if toInt32 _ < 0 then 0 else toInt32 _) = _
  unfold toInt32
  split <;> split <;> omega

/-- A time that is too far away is taken for one that has passed. -/
theorem getTimeIntervalMilliseconds_of_far (ht : t ≠ 0) (h : maxInterval < t - now) :
    getTimeIntervalMilliseconds now t = 0 := by
  unfold maxInterval at h
  have hfar : ¬ (-2 ^ 31 ≤ -(-(t - now) / 1000) ∧ -(-(t - now) / 1000) < 2 ^ 31) := by omega
  unfold getTimeIntervalMilliseconds
  rw [if_neg (by simpa using ht), toInt32, if_neg hfar]
  rfl

theorem isInterval_iff (ht : t ≠ 0) :
    IsInterval now t (getTimeIntervalMilliseconds now t) ↔ t - now ≤ maxInterval := by
  by_cases h : t - now ≤ maxInterval
  · refine ⟨fun _ => h, fun _ => ?_⟩
    rw [getTimeIntervalMilliseconds_of_near ht h]
    refine ⟨fun hle => by omega, fun hlt => .inl ⟨?_, fun m hm => ?_⟩⟩
    · show t - now ≤ _
      omega
    · have hm' : t - now ≤ m * 1000 := hm
      omega
  · refine ⟨fun hi => ?_, fun hle => absurd hle h⟩
    have hfar := Int.not_le.mp h
    rw [getTimeIntervalMilliseconds_of_far ht hfar] at hi
    have hlt : now < t := by
      unfold maxInterval at hfar
      omega
    rcases hi.future hlt with hleast | ⟨-, hpos⟩
    · have hmem : t - now ≤ 0 * 1000 := hleast.1
      omega
    · omega

/-! ## What a step does with the timer -/

/-- The time that the handler will call `ScheduleDelayedWork` with. -/
def Frame.next : Frame → Option Int
  | .timerEvent next => some next
  | .customEvent (.doIdleWork delayedWorkTime) => some delayedWorkTime
  | _ => none

namespace State

def pendingTasks (s : State) : List PendingTask :=
  s.loop.incomingTaskQueue.incomingQueue ++ (s.loop.workQueue ++ s.loop.delayedWorkQueue.tasks)

/-- A task is due at `t`, or a handler has read this time. -/
def Schedules (s : State) (t : Int) : Prop :=
  (∃ p ∈ s.pendingTasks, p.delayedRunTime = t) ∨ ∃ f ∈ s.stack, f.next = some t

theorem schedules_of_top {s : State} {p : PendingTask}
    (h : s.loop.delayedWorkQueue.top? = some p) : s.Schedules p.delayedRunTime := by
  have hmem : p ∈ s.loop.delayedWorkQueue.tasks := List.mem_of_mem_head? h
  exact .inl ⟨p, by simp [pendingTasks, hmem], rfl⟩

theorem schedules_of_frame {s : State} {f : Frame} {rest : List Frame} {t : Int}
    (hs : s.stack = f :: rest) (hf : f.next = some t) : s.Schedules t :=
  .inr ⟨f, hs ▸ List.mem_cons_self, hf⟩

end State

/-- The timer after a step from `s`. -/
inductive TimerStep (s s' : State) : Prop where
  | kept : s'.pump = s.pump → s'.qt.timers = s.qt.timers → TimerStep s s'
  | off : s'.qt.timers = [] → TimerStep s s'
  | armed (t : Int) : t ≠ 0 → s.Schedules t → s'.pump = ⟨s.qt.freshTimerId, t⟩ →
      s'.qt.timers = [⟨s.qt.freshTimerId, getTimeIntervalMilliseconds s.now t⟩] → TimerStep s s'

namespace TimerStep

variable {s u s' : State}

theorem congr (h : TimerStep s u) (hp : s'.pump = u.pump) (ht : s'.qt.timers = u.qt.timers) :
    TimerStep s s' := by
  cases h with
  | kept hp' ht' => exact .kept (hp.trans hp') (ht.trans ht')
  | off ht' => exact .off (ht.trans ht')
  | armed t h0 hs hp' ht' => exact .armed t h0 hs (hp.trans hp') (ht.trans ht')

theorem killTimer (h : TimerInv u) : (u.qt.killTimer u.pump.timerId).timers = [] := by
  simpa [Qt.killTimer] using h.id_eq

theorem scheduleDelayedWork (hu : TimerInv u) (h : TimerStep s u)
    (hf : u.qt.freshTimerId = s.qt.freshTimerId) (hn : u.now = s.now) (t : Int)
    (ht : t ≠ 0 → s.Schedules t) : TimerStep s (u.scheduleDelayedWork t) := by
  unfold State.scheduleDelayedWork
  split
  · exact .off (killTimer hu)
  · next h0 =>
    have h0' : t ≠ 0 := by simpa using h0
    split
    · refine .armed t h0' (ht h0') ?_ ?_
      · show MessagePumpForUIQt.mk u.qt.freshTimerId t = _
        rw [hf]
      · show (u.qt.killTimer u.pump.timerId).timers ++ [⟨u.qt.freshTimerId, _⟩] = _
        rw [killTimer hu, hf, hn]
        rfl
    · exact h

theorem effect {a : Action} (h : TimerInv s) (e : Effect s a s') : TimerStep s s' := by
  have hoff : TimerStep s s.disarm := .off (killTimer h)
  cases e with
  | timerNothing _ _ _ =>
    have hd : TimerInv (s.disarm.setLoop { s.loop with recentTime := 0 }) :=
      h.disarm.congr rfl rfl rfl
    exact scheduleDelayedWork hd (hoff.congr rfl rfl) rfl rfl 0 (fun h0 => absurd rfl h0)
  | timerWaits _ _ hp =>
    have hd : TimerInv (s.disarm.setLoop { s.loop with recentTime := s.now }) :=
      h.disarm.congr rfl rfl rfl
    exact scheduleDelayedWork hd (hoff.congr rfl rfl) rfl rfl _
      (fun _ => State.schedules_of_top hp)
  | timerRuns _ _ _ _ => exact hoff.congr rfl rfl
  | @timerReturns rest next hs =>
    have hr : TimerInv (s.setLoop s.loop.didRunTask).ret := h.congr rfl rfl rfl
    have hk : TimerStep s (s.setLoop s.loop.didRunTask).ret := .kept rfl rfl
    exact scheduleDelayedWork hr hk rfl rfl next (fun _ => State.schedules_of_frame hs rfl)
  | @popsDelayed rest p ps b _ hw _ =>
    have hp : TimerInv (s.setLoop { s.loop with
      workQueue := ps, delayedWorkQueue := s.loop.delayedWorkQueue.push p }) := h.congr rfl rfl rfl
    have hk : TimerStep s (s.setLoop { s.loop with
      workQueue := ps, delayedWorkQueue := s.loop.delayedWorkQueue.push p }) := .kept rfl rfl
    cases b
    · exact hk
    · exact scheduleDelayedWork hp hk rfl rfl _
        (fun _ => .inl ⟨p, by simp [State.pendingTasks, hw], rfl⟩)
  | @idles rest t hs =>
    have hi : TimerInv s.idle := h.congr (by simp) (by simp) (by simp)
    have hn : s.idle.now = s.now := by
      unfold State.idle
      split <;> rfl
    have hk : TimerStep s s.idle := .kept (by simp) (by simp)
    have hst := scheduleDelayedWork hi hk (by simp) hn t
      (fun _ => State.schedules_of_frame hs rfl)
    exact hst.congr rfl rfl
  | _ => exact .kept (by simp) (by simp)

end TimerStep

/-! ## Runs -/

/-- A state of a run, and the time at which its timer was set. -/
structure Timed where
  state : State
  since : Int

/-- The pump with that time: a timer that is set gets a new id. -/
def timedMachine : Machine Timed Action where
  init x := pumpMachine.init x.state
  step x a := (step x.state a).map fun s =>
    ⟨s, if s.pump.timerId = x.state.pump.timerId then x.since else x.state.now⟩

namespace Timed

/-- The timer is on time. -/
structure OnTime (x : Timed) : Prop where
  /-- Its interval is zero only for a time that had passed. -/
  notBefore : ∀ i ∈ x.state.qt.timers, i.interval = 0 →
    x.state.pump.timerScheduledTime ≤ x.since
  /-- When it has run its interval, `DoDelayedWork` runs the task it was set for. -/
  findsDue : ∀ i ∈ x.state.qt.timers, x.since + i.interval * 1000 ≤ x.state.now →
    ∀ p, x.state.loop.delayedWorkQueue.top? = some p →
      p.delayedRunTime ≤ x.state.pump.timerScheduledTime →
      x.state.loop.nestableTasksAllowed = true →
      (x.state.loop.doDelayedWork x.state.now 0).run = some p

/-- The time that the timer is set for was near when it was set. -/
def SetNear (x : Timed) : Prop :=
  x.state.qt.timers ≠ [] → x.state.pump.timerScheduledTime - x.since ≤ maxInterval

/-- The timer has the interval that was computed when it was set. -/
structure IntervalInv (x : Timed) : Prop where
  nonzero : x.state.qt.timers ≠ [] → x.state.pump.timerScheduledTime ≠ 0
  interval : ∀ i ∈ x.state.qt.timers,
    i.interval = getTimeIntervalMilliseconds x.since x.state.pump.timerScheduledTime

end Timed

theorem timed_reach {ok : Timed → Action → Prop} {x : Timed} (h : timedMachine.Reach ok x) :
    pumpMachine.Reachable x.state := by
  refine h.simulate Timed.state (fun _ hi => hi) fun y a y' hst => .inr ⟨a, ?_⟩
  obtain ⟨s, hs, rfl⟩ := Option.map_eq_some_iff.mp hst
  exact hs

theorem Timed.IntervalInv.timerStep {s s' : State} {since : Int}
    (h : Timed.IntervalInv ⟨s, since⟩) (ht : TimerInv s) (hst : TimerStep s s') :
    Timed.IntervalInv ⟨s', if s'.pump.timerId = s.pump.timerId then since else s.now⟩ := by
  cases hst with
  | kept hp htm =>
    have hid : s'.pump.timerId = s.pump.timerId := by rw [hp]
    rw [if_pos hid]
    refine ⟨?_, ?_⟩
    · simp only [hp, htm]
      exact h.nonzero
    · simp only [hp, htm]
      exact h.interval
  | off htm =>
    refine ⟨fun hne => absurd htm hne, ?_⟩
    simp only [htm]
    exact fun i hmem => (List.not_mem_nil hmem).elim
  | armed t h0 _ hp htm =>
    have hid : ¬ s'.pump.timerId = s.pump.timerId := by
      have hlt := ht.fresh
      rw [hp]
      show ¬ s.qt.freshTimerId = s.pump.timerId
      omega
    rw [if_neg hid]
    refine ⟨?_, ?_⟩
    · simp only [hp]
      exact fun _ => h0
    · simp only [hp, htm]
      intro i hmem
      obtain rfl := List.mem_singleton.mp hmem
      rfl

theorem intervalInv_reach {ok : Timed → Action → Prop} {x : Timed}
    (h : timedMachine.Reach ok x) : x.IntervalInv := by
  refine h.invariant_of (fun _ => timed_reach) ?_ ?_
  · rintro ⟨_, since⟩ ⟨now, rfl⟩
    exact ⟨fun hne => absurd rfl hne, fun i hi => (List.not_mem_nil hi).elim⟩
  · intro y a y' hr hi _ hst
    obtain ⟨s, hs, rfl⟩ := Option.map_eq_some_iff.mp hst
    have ht := timerInv_reach hr
    exact hi.timerStep ht (TimerStep.effect ht (step_effect (queueInv_reach hr) hs))

/-- A timer that was set for a near time is on time, and no other is. -/
theorem onTime_iff {x : Timed} (hr : timedMachine.Reachable x) : x.OnTime ↔ x.SetNear := by
  have hi := intervalInv_reach hr
  constructor
  · intro h hne
    by_contra hfar
    obtain ⟨i, hmem⟩ := List.exists_mem_of_ne_nil _ hne
    have hzero := getTimeIntervalMilliseconds_of_far (hi.nonzero hne) (Int.not_le.mp hfar)
    have hle := h.notBefore i hmem ((hi.interval i hmem).trans hzero)
    unfold maxInterval at hfar
    omega
  · intro h
    have hnear : ∀ i ∈ x.state.qt.timers,
        x.state.pump.timerScheduledTime ≤ x.since + i.interval * 1000 := by
      intro i hmem
      have hne := List.ne_nil_of_mem hmem
      rw [hi.interval i hmem, getTimeIntervalMilliseconds_of_near (hi.nonzero hne) (h hne)]
      omega
    refine ⟨fun i hmem h0 => ?_, fun i hmem hrun p hp hle hn => ?_⟩
    · have hle := hnear i hmem
      rw [h0] at hle
      omega
    · have hle' := hnear i hmem
      have hd := (queueInv_reach (timed_reach hr)).runDepth
      exact MessageLoop.doDelayedWork_run_of_due hd hn hp (.inr (by omega))

/-! ## Runs without long delays -/

/-- A task that is due at `t` is due soon, or at once. -/
def Near (now t : Int) : Prop := t = 0 ∨ t - now ≤ maxInterval

namespace State

variable (s : State)

@[simp] theorem scheduleDelayedWork_now (t : Int) : (s.scheduleDelayedWork t).now = s.now := by
  unfold scheduleDelayedWork
  split
  · rfl
  · split <;> rfl

@[simp] theorem post_now (task : Nat) (delay : Int) (nestable : Bool) :
    (s.post task delay nestable).now = s.now := by
  unfold post
  simp only
  split <;> rfl

@[simp] theorem setNestableTasksAllowed_now (b : Bool) :
    (s.setNestableTasksAllowed b).now = s.now := by
  cases b <;> rfl

@[simp] theorem idle_now : s.idle.now = s.now := by
  unfold idle
  split <;> rfl

@[simp] theorem afterDelayed_now (more : Bool) (next : Int) :
    (s.afterDelayed more next).now = s.now := by
  cases more <;> rfl

end State

theorem Effect.now_le {s s' : State} {a : Action} (e : Effect s a s') : s.now ≤ s'.now := by
  cases e with
  | tick d =>
    show s.now ≤ s.now + d
    omega
  | @popsDelayed _ _ _ b _ _ _ => cases b <;> simp
  | _ => simp

/-- Whatever is scheduled is due soon. -/
structure NearInv (s : State) : Prop where
  tasks : ∀ p ∈ s.pendingTasks, Near s.now p.delayedRunTime
  frames : ∀ f ∈ s.stack, ∀ t, f.next = some t → Near s.now t

/-- Only a scheduled time stands in the frame, or the null time. -/
def State.Reads (s : State) (f : Frame) : Prop := ∀ t, f.next = some t → t = 0 ∨ s.Schedules t

namespace State

variable {s : State} {f : Frame}

theorem reads_of_none (h : f.next = none) : s.Reads f := by
  intro t ht
  rw [h] at ht
  cases ht

theorem reads_stack : ∀ x ∈ s.stack, s.Reads x := fun x hx _ ht => .inr (.inr ⟨x, hx, ht⟩)

theorem reads_tail : ∀ x ∈ s.stack.tail, s.Reads x :=
  fun x hx => reads_stack x (List.mem_of_mem_tail hx)

theorem reads_goto (h : s.Reads f) : ∀ x ∈ f :: s.stack.tail, s.Reads x :=
  List.forall_mem_cons.mpr ⟨h, reads_tail⟩

theorem reads_push (h : s.Reads f) : ∀ x ∈ f :: s.stack, s.Reads x :=
  List.forall_mem_cons.mpr ⟨h, reads_stack⟩

theorem mem_pendingTasks {p : PendingTask} (h : p ∈ s.loop.incomingTaskQueue.incomingQueue ∨
    p ∈ s.loop.workQueue ∨ p ∈ s.loop.delayedWorkQueue.tasks) : p ∈ s.pendingTasks := by
  simpa [pendingTasks] using h

theorem pendingTasks_subset {s' : State}
    (hi : s'.loop.incomingTaskQueue.incomingQueue ⊆ s.pendingTasks)
    (hw : s'.loop.workQueue ⊆ s.pendingTasks)
    (hd : s'.loop.delayedWorkQueue.tasks ⊆ s.pendingTasks) :
    s'.pendingTasks ⊆ s.pendingTasks :=
  List.append_subset.mpr ⟨hi, List.append_subset.mpr ⟨hw, hd⟩⟩

theorem pop_subset {s' : State}
    (hi : s'.loop.incomingTaskQueue = s.loop.incomingTaskQueue)
    (hw : s'.loop.workQueue = s.loop.workQueue)
    (hd : s'.loop.delayedWorkQueue = s.loop.delayedWorkQueue.pop) :
    s'.pendingTasks ⊆ s.pendingTasks := by
  refine pendingTasks_subset ?_ ?_ ?_
  · exact fun p hp => mem_pendingTasks (.inl (hi ▸ hp))
  · exact fun p hp => mem_pendingTasks (.inr (.inl (hw ▸ hp)))
  · intro p hp
    rw [hd] at hp
    exact mem_pendingTasks (.inr (.inr (List.mem_of_mem_tail hp)))

/-- The first task of the work queue moves to the delayed queue. -/
theorem push_subset {s' : State} {p : PendingTask} {ps : List PendingTask}
    (h : s.loop.workQueue = p :: ps)
    (hi : s'.loop.incomingTaskQueue = s.loop.incomingTaskQueue) (hw : s'.loop.workQueue = ps)
    (hd : s'.loop.delayedWorkQueue = s.loop.delayedWorkQueue.push p) :
    s'.pendingTasks ⊆ s.pendingTasks := by
  refine pendingTasks_subset ?_ ?_ ?_
  · exact fun x hx => mem_pendingTasks (.inl (hi ▸ hx))
  · intro x hx
    rw [hw] at hx
    exact mem_pendingTasks (.inr (.inl (h ▸ List.mem_cons_of_mem p hx)))
  · intro x hx
    rw [hd] at hx
    rcases DelayedTaskQueue.mem_push.mp hx with rfl | hx
    · exact mem_pendingTasks (.inr (.inl (h ▸ List.mem_cons_self)))
    · exact mem_pendingTasks (.inr (.inr hx))

theorem reads_nextRunTime {q : DelayedTaskQueue} (h : ∀ p ∈ q.tasks, p ∈ s.pendingTasks) :
    s.Reads (.timerEvent q.nextRunTime) := by
  rintro t ⟨rfl⟩
  by_cases hne : q.tasks = []
  · simp [DelayedTaskQueue.nextRunTime, DelayedTaskQueue.top?, hne]
  · obtain ⟨p, hp, -, hnext⟩ := DelayedTaskQueue.exists_top hne
    exact .inr (.inl ⟨p, h p hp, hnext.symm⟩)

end State

namespace NearInv

variable {s s' : State}

theorem near (h : NearInv s) {t : Int} (ht : s.Schedules t) : Near s.now t := by
  rcases ht with ⟨p, hp, rfl⟩ | ⟨f, hf, hnext⟩
  · exact h.tasks p hp
  · exact h.frames f hf t hnext

/-- A step schedules nothing new, but for the null time. -/
theorem frame (h : NearInv s) (hn : s.now ≤ s'.now) (hp : s'.pendingTasks ⊆ s.pendingTasks)
    (hf : ∀ f ∈ s'.stack, s.Reads f) : NearInv s' := by
  have hlater : ∀ t, Near s.now t → Near s'.now t := fun t => Or.imp_right fun hle => by omega
  refine ⟨fun p hmem => hlater _ (h.tasks p (hp hmem)), fun f hmem t ht => ?_⟩
  rcases hf f hmem t ht with h0 | hs
  · exact .inl h0
  · exact hlater t (h.near hs)

theorem goto {f : Frame} (h : NearInv s) (hn : s.now ≤ s'.now)
    (hp : s'.pendingTasks ⊆ s.pendingTasks) (hs : s'.stack = f :: s.stack.tail)
    (hf : s.Reads f) : NearInv s' :=
  h.frame hn hp (hs ▸ State.reads_goto hf)

theorem push {f : Frame} (h : NearInv s) (hn : s.now ≤ s'.now)
    (hp : s'.pendingTasks ⊆ s.pendingTasks) (hs : s'.stack = f :: s.stack) (hf : s.Reads f) :
    NearInv s' :=
  h.frame hn hp (hs ▸ State.reads_push hf)

theorem ret (h : NearInv s) (hn : s.now ≤ s'.now) (hp : s'.pendingTasks ⊆ s.pendingTasks)
    (hs : s'.stack = s.stack.tail) : NearInv s' :=
  h.frame hn hp (hs ▸ State.reads_tail)

theorem stay (h : NearInv s) (hn : s.now ≤ s'.now) (hp : s'.pendingTasks ⊆ s.pendingTasks)
    (hs : s'.stack = s.stack) : NearInv s' :=
  h.frame hn hp (hs ▸ State.reads_stack)

theorem post (h : NearInv s) (task : Nat) (delay : Int) (nestable : Bool)
    (hnear : Near s.now (IncomingTaskQueue.calculateDelayedRuntime s.now delay)) :
    NearInv (s.post task delay nestable) := by
  refine ⟨fun p hp => ?_, ?_⟩
  · rw [State.post_now]
    have hp' : p ∈ (s.loop.incomingTaskQueue.addToIncomingQueue s.now task delay
        nestable).queue.incomingQueue ∨
        p ∈ s.loop.workQueue ++ s.loop.delayedWorkQueue.tasks := by
      rw [State.pendingTasks, State.post_loop] at hp
      exact List.mem_append.mp hp
    rcases hp' with hp' | hp'
    · obtain ⟨q, -, htime, hq⟩ :=
        s.loop.incomingTaskQueue.addToIncomingQueue_spec s.now task delay nestable
      rw [hq, List.mem_append] at hp'
      rcases hp' with hp' | hp'
      · exact h.tasks p (List.mem_append_left _ hp')
      · split at hp'
        · rw [List.mem_singleton.mp hp', htime]
          exact hnear
        · cases hp'
    · exact h.tasks p (List.mem_append_right _ hp')
  · simpa using h.frames

theorem effect {a : Action} (h : NearInv s)
    (hok : ∀ task delay nestable, a = .post task delay nestable →
      Near s.now (IncomingTaskQueue.calculateDelayedRuntime s.now delay)) (e : Effect s a s') :
    NearInv s' := by
  have hle := e.now_le
  cases e with
  | post task delay nestable => exact h.post task delay nestable (hok _ _ _ rfl)
  | timerRuns =>
    apply h.push hle (State.pop_subset rfl rfl rfl) rfl
    exact State.reads_nextRunTime fun p hp =>
      State.mem_pendingTasks (.inr (.inr (List.mem_of_mem_tail hp)))
  | reloadsNothing | keepsWork | popsNothing | workReturns =>
    exact h.goto hle (by simp [State.pendingTasks]) rfl (State.reads_of_none rfl)
  | reloads _ hw _ =>
    apply h.goto hle ?_ rfl (State.reads_of_none rfl)
    simp [State.pendingTasks, hw]
  | popsTask _ hw =>
    apply h.goto hle ?_ rfl (State.reads_of_none rfl)
    simp [State.pendingTasks, hw]
  | delayedRuns _ hp =>
    exact h.goto hle (State.pop_subset rfl rfl rfl) rfl (State.reads_of_none rfl)
  | @popsDelayed _ p ps b hs hw _ =>
    cases b with
    | false => exact h.stay hle (State.push_subset hw rfl rfl rfl) rfl
    | true =>
      refine h.stay hle (State.push_subset hw ?_ ?_ ?_) ?_
      · simp
      · simp
      · simp
      · simp
  | @delayedNothing rest more hs _ =>
    cases more with
    | false =>
      apply h.goto hle (by simp [State.pendingTasks]) rfl
      exact fun t ht => .inl (Option.some.inj ht).symm
    | true => exact h.ret hle (by simp [State.pendingTasks]) rfl
  | @delayedWaits rest more p hs hp =>
    cases more with
    | false =>
      apply h.goto hle (by simp [State.pendingTasks]) rfl
      intro t ht
      obtain rfl := Option.some.inj ht
      exact .inr (State.schedules_of_top hp)
    | true => exact h.ret hle (by simp [State.pendingTasks]) rfl
  | idles | timerReturns | exitEventLoop | idleReturns | handlerReturns =>
    exact h.ret hle (by simp [State.pendingTasks]) (by simp)
  | userEvent =>
    apply h.push hle (by simp [State.pendingTasks]) rfl
    exact State.reads_of_none (by split <;> rfl)
  | enterEventLoop _ =>
    exact h.push hle (by simp [State.pendingTasks]) rfl (State.reads_of_none rfl)
  | _ => exact h.stay hle (by simp [State.pendingTasks]) (by simp)

end NearInv

def PostsNear (x : Timed) (a : Action) : Prop :=
  ∀ task delay nestable, a = .post task delay nestable →
    Near x.state.now (IncomingTaskQueue.calculateDelayedRuntime x.state.now delay)

theorem nearInv_reach {x : Timed} (h : timedMachine.Reach PostsNear x) : NearInv x.state := by
  refine h.invariant_of (I := fun x => NearInv x.state) (fun _ => timed_reach) ?_ ?_
  · rintro ⟨_, since⟩ ⟨now, rfl⟩
    exact ⟨fun p hp => (List.not_mem_nil hp).elim, fun f hf => (List.not_mem_nil hf).elim⟩
  · intro y a y' hr hi hok hst
    obtain ⟨s, hs, rfl⟩ := Option.map_eq_some_iff.mp hst
    exact hi.effect hok (step_effect (queueInv_reach hr) hs)

theorem Timed.SetNear.timerStep {s s' : State} {since : Int} (h : Timed.SetNear ⟨s, since⟩)
    (hn : NearInv s) (ht : TimerInv s) (hst : TimerStep s s') :
    Timed.SetNear ⟨s', if s'.pump.timerId = s.pump.timerId then since else s.now⟩ := by
  intro hne
  cases hst with
  | kept hp htm =>
    have hid : s'.pump.timerId = s.pump.timerId := by rw [hp]
    simp only [hp, if_true]
    exact h (htm ▸ hne)
  | off htm => exact absurd htm hne
  | armed t h0 hs hp htm =>
    have hlt := ht.fresh
    have hid : ¬ s.qt.freshTimerId = s.pump.timerId := by omega
    simp only [hp, if_neg hid]
    exact (hn.near hs).resolve_left h0

theorem setNear_reach {x : Timed} (h : timedMachine.Reach PostsNear x) : x.SetNear := by
  refine h.invariant_of (I := Timed.SetNear) (J := timedMachine.Reach PostsNear) (fun _ => id) ?_ ?_
  · rintro ⟨_, since⟩ ⟨now, rfl⟩ hne
    exact absurd rfl hne
  · intro y a y' hr hi _ hst
    obtain ⟨s, hs, rfl⟩ := Option.map_eq_some_iff.mp hst
    have hr' := timed_reach hr
    have ht := timerInv_reach hr'
    exact hi.timerStep (nearInv_reach hr) ht
      (TimerStep.effect ht (step_effect (queueInv_reach hr') hs))

/-- **Delayed work on time**: the interval is right exactly for the times that are near
enough; so the timer is on time in exactly the states in which it was set for such a time, and
throughout a run in which no task is posted with a longer delay. -/
theorem timer_interval_iff (now t : Int) (ht : t ≠ 0) {x : Timed}
    (hr : timedMachine.Reachable x) :
    (IsInterval now t (getTimeIntervalMilliseconds now t) ↔ t - now ≤ maxInterval) ∧
      (x.OnTime ↔ x.SetNear) ∧ (timedMachine.Reach PostsNear x → x.OnTime) :=
  ⟨isInterval_iff ht, onTime_iff hr, fun hnear => (onTime_iff hr).mpr (setNear_reach hnear)⟩

/-- A delay of 5 ms: the timer has this interval. -/
theorem timer_interval_five :
    ∃ x : Timed, x.state.qt.timers = [⟨1, 5⟩] ∧ x.OnTime := by
  obtain ⟨x, hr, hx⟩ := Machine.exists_reachable (M := timedMachine) (s := ⟨.start 1, 1⟩) ⟨1, rfl⟩
    [.post 1 5000 true, .userEvent, .advance, .advance, .advance]
    (p := fun x => decide (x.state.qt.timers = [⟨1, 5⟩] ∧
      x.state.pump.timerScheduledTime - x.since ≤ maxInterval)) (by decide)
  obtain ⟨htimers, hnear⟩ := of_decide_eq_true hx
  have htime : (5001 : Int) ≠ 0 := by decide
  exact ⟨x, htimers, (timer_interval_iff 1 5001 htime hr).2.1.mpr fun _ => hnear⟩

/-- A delay of 2 ^ 31 ms: the timer fires at once, and again and again. -/
theorem not_timer_interval :
    (¬ ∀ now t : Int, t ≠ 0 → IsInterval now t (getTimeIntervalMilliseconds now t)) ∧
    ¬ ∀ x : Timed, timedMachine.Reachable x → x.OnTime := by
  refine ⟨fun h => ?_, fun h => ?_⟩
  · have hnear := (isInterval_iff (by decide)).mp (h 1 (2 ^ 31 * 1000 + 1) (by decide))
    exact absurd hnear (by decide)
  · obtain ⟨x, hr, hx⟩ := Machine.exists_reachable (M := timedMachine) (s := ⟨.start 1, 1⟩)
      ⟨1, rfl⟩ [.post 1 (2 ^ 31 * 1000) true, .userEvent, .advance, .advance, .advance]
      (p := fun x => decide (x.state.qt.timers ≠ [] ∧
        ¬ x.state.pump.timerScheduledTime - x.since ≤ maxInterval)) (by decide)
    obtain ⟨hne, hfar⟩ := of_decide_eq_true hx
    exact hfar ((onTime_iff hr).mp (h x hr) hne)

end Mdgate.Ui
