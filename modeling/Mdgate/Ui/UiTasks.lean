import Mdgate.Base.TaskOrder
import Mdgate.Ui.TimerInterval

/-!
# The order of the tasks of the UI thread

`MessagePumpForUIQt` calls the same functions of the `MessageLoop` as the other pumps, from Qt
events and in nested Qt event loops. These are no `RunLoop`s, so that no task is ever deferred,
and every two tasks start in the order that `SequencedTaskRunner` promises.
-/

namespace Mdgate.Ui

open Mdgate.Base Mdgate.Lib

def State.started (s : State) : Action → Option PendingTask
  | .timer _ => (s.loop.doDelayedWork s.now 0).run
  | .aboutToBlock => s.loop.doIdleWork.run
  | .advance =>
    match s.stack with
    | .customEvent .popWork :: _ => s.loop.popWork.2.run?
    | .customEvent (.doDelayedWork _) :: _ => (s.loop.doDelayedWork s.now 0).run
    | .customEvent (.doIdleWork _) :: _ => s.loop.doIdleWork.run
    | _ => none
  | _ => none

def Action.delay : Action → Int
  | post _ delay _ => delay
  | _ => 0

/-- The UI thread, and what has happened to its tasks. -/
structure UiTasks where
  state : State
  log : List TaskEvent

def UiTasks.step (s : UiTasks) (a : Action) : Option UiTasks :=
  (Ui.step s.state a).map fun s' =>
    ⟨s', s.log ++ taskEvents a.delay s.state.loop s'.loop (s.state.started a)⟩

/-- `pumpMachine`, with the log of its tasks. -/
def uiTaskMachine : Machine UiTasks Action :=
  ⟨fun s => ∃ now : Nat, s = ⟨.start now, []⟩, UiTasks.step⟩

variable {s s' : State} {a : Action} {delay : Int}

/-! ## The pump follows its loop -/

theorem scheduleDelayedWork_follows {l : MessageLoop} {t : Option PendingTask} {time : Int}
    (h : l.Follows s.now delay s'.loop t) :
    l.Follows s.now delay (s'.scheduleDelayedWork time).loop t := by
  rwa [State.scheduleDelayedWork_loop]

theorem timerEvent_follows (s : State) (delay : Int) :
    s.loop.Follows s.now delay s.timerEvent.loop (s.loop.doDelayedWork s.now 0).run := by
  have h := s.loop.follows_doDelayedWork s.now 0 delay
  unfold State.timerEvent
  simp only [State.disarm_loop, State.disarm_now]
  split
  · exact h
  · exact scheduleDelayedWork_follows h

theorem onIdle_follows (s : State) (delay : Int) :
    s.loop.Follows s.now delay s.onIdle.loop s.loop.doIdleWork.run := by
  have h := s.loop.follows_doIdleWork s.now delay
  simp only [State.onIdle]
  split
  · exact h
  · split <;> exact h

theorem advance_follows {pc : WorkPc} {rest : List Frame} (hs : s.stack = .customEvent pc :: rest)
    (ha : s.advance pc = some s') (delay : Int) :
    s.loop.Follows s.now delay s'.loop (s.started .advance) := by
  cases pc with
  | doWork =>
    cases ha
    simp only [State.started, hs]
    exact s.loop.follows_reloadWorkQueue s.now delay
  | popWork =>
    have h := s.loop.follows_popWork s.now delay
    simp only [State.started, hs]
    simp only [State.advance] at ha
    split at ha <;> cases ha
    · exact h
    · split
      · exact scheduleDelayedWork_follows h
      · exact h
    · exact h
    · exact h
  | doDelayedWork more =>
    have h := s.loop.follows_doDelayedWork s.now 0 delay
    simp only [State.started, hs]
    simp only [State.advance] at ha
    split at ha <;> cases ha
    · exact h
    · cases more <;> exact h
  | doIdleWork time =>
    have h := s.loop.follows_doIdleWork s.now delay
    simp only [State.started, hs]
    simp only [State.advance] at ha
    split at ha <;> cases ha
    · exact h
    · refine scheduleDelayedWork_follows (h.congr ?_)
      split <;> rfl
  | workTask | delayedTask | idleTask => cases ha

theorem resume_queues {f : Frame} (h : s.resume f = some s') : s'.loop.queues = s.loop.queues := by
  unfold State.resume at h
  split at h <;> cases h <;> simp

theorem step_follows (hs : step s a = some s') :
    s.loop.Follows s.now a.delay s'.loop (s.started a) := by
  cases a with
  | post task delay nestable =>
    cases hs
    simp only [State.post_loop]
    exact s.loop.follows_post s.now task delay nestable
  | timer id =>
    obtain ⟨-, rfl⟩ := Machine.guard_eq_some hs
    exact timerEvent_follows s 0
  | aboutToBlock =>
    obtain ⟨-, rfl⟩ := Machine.guard_eq_some hs
    exact onIdle_follows s 0
  | advance =>
    simp only [step] at hs
    split at hs
    · next hstack => exact advance_follows hstack hs 0
    · cases hs
  | taskReturns =>
    simp only [step] at hs
    split at hs
    · exact .of_eq (resume_queues hs) s.now 0
    · cases hs
  | tick d =>
    cases hs
    exact .of_eq rfl s.now 0
  | setNestableTasksAllowed allowed =>
    obtain ⟨-, rfl⟩ := Machine.guard_eq_some hs
    exact .of_eq (by simp [MessageLoop.queues]) s.now 0
  | userEvent | quitWhenIdle | quitNow | enterEventLoop | exitEventLoop =>
    obtain ⟨-, rfl⟩ := Machine.guard_eq_some hs
    exact .of_eq rfl s.now 0

namespace UiTasks

variable {s s' : UiTasks} {a : Action}

/-- No sequence number has rolled over since a task that waits in the delayed queue. -/
def NoRollOver (s : UiTasks) : Prop := s.state.loop.queues.NoRollOver

instance : DecidablePred NoRollOver :=
  fun s => inferInstanceAs (Decidable s.state.loop.queues.NoRollOver)

/-- No task is lost, and none is deferred. -/
structure Kept (s : UiTasks) : Prop where
  accounted : Accounted s.log s.state.loop.queues
  notDeferred : ∀ p, .deferred p ∉ s.log

theorem kept_step (h : Kept s) (hq : QueueInv s.state) (hs : s.step a = some s') : Kept s' := by
  obtain ⟨t, ht, rfl⟩ := Option.map_eq_some_iff.mp hs
  have hfollows := step_follows ht
  refine ⟨h.accounted.serves hfollows, ?_⟩
  intro p hp
  rcases List.mem_append.mp hp with hp | hp
  · exact h.notDeferred p hp
  · have htop := hfollows.deferred hp
    simp [hq.runDepth] at htop

theorem inOrder_step (h : InOrder s.state.now s.log s.state.loop) (hq : QueueInv s.state)
    (hroll : s.NoRollOver) (hs : s.step a = some s') :
    InOrder s'.state.now s'.log s'.state.loop := by
  obtain ⟨t, ht, rfl⟩ := Option.map_eq_some_iff.mp hs
  exact (h.follows hroll (step_follows ht)).mono (step_effect hq ht).now_le

theorem queueInv_reach {ok : UiTasks → Action → Prop} (hr : uiTaskMachine.Reach ok s) :
    QueueInv s.state := by
  have hreach : pumpMachine.Reachable s.state := by
    refine hr.simulate UiTasks.state ?_ ?_
    · rintro _ ⟨now, rfl⟩
      exact ⟨now, rfl⟩
    · intro s a s' hs
      obtain ⟨t, ht, rfl⟩ := Option.map_eq_some_iff.mp hs
      exact .inr ⟨a, ht⟩
  exact Ui.queueInv_reach hreach

end UiTasks

/-- **The tasks of the UI thread are in sequence**: in every run of the pump with any number of
nested event loops, no task is lost, run twice or deferred, and as long as no sequence number rolls
over no task overtakes another. -/
theorem ui_tasks_sequenced {s : UiTasks} (hr : uiTaskMachine.Reachable s) :
    Conserved s.log s.state.loop.queued ∧ (∀ p, .deferred p ∉ s.log) ∧
      (uiTaskMachine.Reach (fun s _ => s.NoRollOver) s → Sequenced s.log) := by
  have hkept : s.Kept := by
    refine hr.invariant_of (I := UiTasks.Kept) (fun _ hr => UiTasks.queueInv_reach hr) ?_ ?_
    · rintro _ ⟨now, rfl⟩
      exact ⟨.new, fun p => List.not_mem_nil⟩
    · intro s a s' hq h _ hs
      exact UiTasks.kept_step h hq hs
  refine ⟨hkept.accounted.conserved, hkept.notDeferred, fun hr => ?_⟩
  suffices h : InOrder s.state.now s.log s.state.loop from h.sequenced
  refine hr.invariant_of (I := fun s => InOrder s.state.now s.log s.state.loop)
    (fun _ hr => UiTasks.queueInv_reach hr) ?_ ?_
  · rintro _ ⟨now, rfl⟩
    exact .new (Int.natCast_nonneg now)
  · intro s a s' hq h hroll hs
    exact UiTasks.inOrder_step h hq hroll hs

/-- The first task runs an event loop, in which the second one runs, and then the first of two
delayed tasks that are due together. -/
theorem ui_tasks_sequenced_nested : ∃ s, uiTaskMachine.Reach (fun s _ => s.NoRollOver) s ∧
    (starts s.log).map (·.task) = [0, 1, 2] ∧ Conserved s.log s.state.loop.queued ∧
    (∀ p, .deferred p ∉ s.log) ∧ Sequenced s.log := by
  obtain ⟨s, hr, hs⟩ := Machine.exists_reach_of_admits (M := uiTaskMachine)
    (fun s _ => s.NoRollOver) (s := ⟨.start 1, []⟩) ⟨1, rfl⟩
    [.post 0 0 true, .userEvent, .advance, .advance, .setNestableTasksAllowed true,
      .enterEventLoop, .post 1 0 false, .post 2 1 true, .post 3 1 true, .userEvent, .advance,
      .advance, .taskReturns, .tick 1, .advance, .userEvent, .advance, .advance, .advance,
      .advance, .advance, .advance]
    (p := fun s => decide ((starts s.log).map (·.task) = [0, 1, 2])) (by decide) (by decide)
  obtain ⟨hconserved, hdeferred, hsequenced⟩ := ui_tasks_sequenced hr.reachable
  exact ⟨s, hr, of_decide_eq_true hs, hconserved, hdeferred, hsequenced hr⟩

end Mdgate.Ui
