import Mathlib.Data.List.Perm.Basic
import Mdgate.Base.MessagePumpDefault

/-!
# The queues of a message loop

`TaskQueues` is the part of a `MessageLoop` that decides in which order its tasks start, and
`Serves` what a step of a pump can do to it, with the events that a log of the tasks gets. Every
function of the loop `Follows` it.
-/

namespace Mdgate.Base

/-- What happens to the tasks of a loop. -/
inductive TaskEvent where
  | posted (p : PendingTask) (delay : Int)
  | deferred (p : PendingTask)
  | started (p : PendingTask)
  deriving DecidableEq, Repr

namespace TaskEvent

def post? : TaskEvent → Option PendingTask
  | posted p _ => some p
  | _ => none

def start? : TaskEvent → Option PendingTask
  | started p => some p
  | _ => none

end TaskEvent

def posts (log : List TaskEvent) : List PendingTask := log.filterMap TaskEvent.post?

def starts (log : List TaskEvent) : List PendingTask := log.filterMap TaskEvent.start?

@[simp] theorem mem_starts {log : List TaskEvent} {p : PendingTask} :
    p ∈ starts log ↔ .started p ∈ log := by
  unfold starts
  rw [List.mem_filterMap]
  constructor
  · rintro ⟨e, he, hp⟩
    cases e <;> simp_all [TaskEvent.start?]
  · intro h
    exact ⟨_, h, rfl⟩

theorem mem_posts {log : List TaskEvent} {p : PendingTask} :
    p ∈ posts log ↔ ∃ delay, .posted p delay ∈ log := by
  unfold posts
  rw [List.mem_filterMap]
  constructor
  · rintro ⟨e, he, hp⟩
    cases e with
    | posted q delay =>
      obtain rfl : q = p := by simpa [TaskEvent.post?] using hp
      exact ⟨delay, he⟩
    | deferred | started => cases hp
  · rintro ⟨delay, h⟩
    exact ⟨_, h, rfl⟩

/-! ## The queues -/

/-- The queues of a `MessageLoop`. -/
structure TaskQueues where
  incoming : List PendingTask
  work : List PendingTask
  delayed : DelayedTaskQueue
  deferred : List PendingTask
  nextSequenceNum : Int32
  accepted : Nat

namespace TaskQueues

def empty : TaskQueues := ⟨[], [], .empty, [], 0, 0⟩

def waiting (q : TaskQueues) : List PendingTask := q.work ++ q.incoming ++ q.delayed.tasks

end TaskQueues

def MessageLoop.queues (l : MessageLoop) : TaskQueues :=
  ⟨l.incomingTaskQueue.incomingQueue, l.workQueue, l.delayedWorkQueue,
    l.deferredNonNestableWorkQueue, l.incomingTaskQueue.nextSequenceNum,
    l.incomingTaskQueue.accepted⟩

/-- What a step at the time `now` can do to the queues; `top` is `run_depth_ == 1`. -/
inductive Serves (now : Int) (top : Bool) (q : TaskQueues) :
    List TaskEvent → TaskQueues → Prop where
  | keeps : Serves now top q [] q
  | posts {p : PendingTask} {delay : Int} :
      p.delayedRunTime = IncomingTaskQueue.calculateDelayedRuntime now delay →
      p.sequenceNum = q.nextSequenceNum → p.serial = q.accepted →
      Serves now top q [.posted p delay] { q with
        incoming := q.incoming ++ [p], nextSequenceNum := q.nextSequenceNum + 1
        accepted := q.accepted + 1 }
  | reloads : q.work = [] → Serves now top q [] { q with work := q.incoming, incoming := [] }
  | delays {p : PendingTask} {rest : List PendingTask} : q.work = p :: rest →
      p.delayedRunTime ≠ 0 →
      Serves now top q [] { q with work := rest, delayed := q.delayed.push p }
  | runs {p : PendingTask} {rest : List PendingTask} : q.work = p :: rest →
      p.delayedRunTime = 0 → p.nestable = true ∨ top = true →
      Serves now top q [.started p] { q with work := rest }
  | defers {p : PendingTask} {rest : List PendingTask} : q.work = p :: rest →
      p.delayedRunTime = 0 → p.nestable = false → top = false →
      Serves now top q [.deferred p] { q with work := rest, deferred := q.deferred ++ [p] }
  | runsDelayed {p : PendingTask} : q.delayed.top? = some p → p.nestable = true ∨ top = true →
      Serves now top q [.started p] { q with delayed := q.delayed.pop }
  | defersDelayed {p : PendingTask} : q.delayed.top? = some p → p.nestable = false →
      top = false → Serves now top q [.deferred p]
        { q with delayed := q.delayed.pop, deferred := q.deferred ++ [p] }
  | runsDeferred {p : PendingTask} {rest : List PendingTask} : q.deferred = p :: rest →
      top = true → Serves now top q [.started p] { q with deferred := rest }

theorem Serves.started {now : Int} {top : Bool} {q q' : TaskQueues} {es : List TaskEvent}
    (hs : Serves now top q es q') {p : PendingTask} (hp : .started p ∈ es) :
    p.nestable = true ∨ top = true := by
  cases hs <;> simp_all

theorem Serves.deferred {now : Int} {top : Bool} {q q' : TaskQueues} {es : List TaskEvent}
    (hs : Serves now top q es q') {p : PendingTask} (hp : .deferred p ∈ es) : top = false := by
  cases hs <;> simp_all

/-! ## The functions of the loop -/

/-- The events of a step that leads from `l` to `l'` and calls the task `t`; the delay is that of
the task it posts, if any. -/
def taskEvents (delay : Int) (l l' : MessageLoop) (t : Option PendingTask) : List TaskEvent :=
  ((l'.incomingTaskQueue.incomingQueue.drop l.incomingTaskQueue.incomingQueue.length).map
      fun p => .posted p delay) ++
    (l'.deferredNonNestableWorkQueue.drop l.deferredNonNestableWorkQueue.length).map .deferred ++
    (t.map TaskEvent.started).toList

/-- A task that is accepted gets the next sequence number. -/
theorem IncomingTaskQueue.addToIncomingQueue_accepts (q : IncomingTaskQueue) (now : Int)
    (task : Nat) (delay : Int) (nestable : Bool) :
    (∃ p : PendingTask, p.delayedRunTime = calculateDelayedRuntime now delay ∧
      (q.addToIncomingQueue now task delay nestable).queue.incomingQueue =
        q.incomingQueue ++ [p] ∧ p.sequenceNum = q.nextSequenceNum ∧ p.serial = q.accepted ∧
      (q.addToIncomingQueue now task delay nestable).queue.nextSequenceNum =
        q.nextSequenceNum + 1 ∧
      (q.addToIncomingQueue now task delay nestable).queue.accepted = q.accepted + 1) ∨
    (q.addToIncomingQueue now task delay nestable).queue.incomingQueue = q.incomingQueue ∧
      (q.addToIncomingQueue now task delay nestable).queue.nextSequenceNum =
        q.nextSequenceNum ∧
      (q.addToIncomingQueue now task delay nestable).queue.accepted = q.accepted := by
  by_cases hlive : q.messageLoop = true
  · refine .inl ⟨⟨task, calculateDelayedRuntime now delay, q.nextSequenceNum, nestable,
      decide (delay > 0) &&
        decide (TimeDelta.inMilliseconds delay < 2 * minLowResolutionThresholdMs), q.accepted⟩,
      rfl, ?_⟩
    simp only [addToIncomingQueue, postPendingTask]
    split <;> simp_all
  · apply Or.inr
    simp only [addToIncomingQueue, postPendingTask]
    split <;> simp [hlive]

namespace MessageLoop

variable {l l' : MessageLoop}

/-- The step is one that `Serves` lists. -/
abbrev Follows (l : MessageLoop) (now delay : Int) (l' : MessageLoop) (t : Option PendingTask) :
    Prop :=
  Serves now (l.runDepth == 1) l.queues (taskEvents delay l l' t) l'.queues

theorem Follows.congr {l'' : MessageLoop} {now delay : Int} {t : Option PendingTask}
    (h : l.Follows now delay l' t) (hq : l''.queues = l'.queues) : l.Follows now delay l'' t := by
  have hes : taskEvents delay l l'' t = taskEvents delay l l' t := by
    have hincoming := congrArg TaskQueues.incoming hq
    have hdeferred := congrArg TaskQueues.deferred hq
    simp only [queues] at hincoming hdeferred
    rw [taskEvents, hincoming, hdeferred, taskEvents]
  rw [Follows, hes, hq]
  exact h

theorem Follows.of_eq (h : l'.queues = l.queues) (now delay : Int) :
    l.Follows now delay l' none := by
  suffices hkeeps : l.Follows now delay l none from hkeeps.congr h
  have hes : taskEvents delay l l none = [] := by simp [taskEvents]
  rw [Follows, hes]
  exact .keeps

theorem follows_post (l : MessageLoop) (now : Int) (task : Nat) (delay : Int) (nestable : Bool) :
    l.Follows now delay { l with
      incomingTaskQueue :=
        (l.incomingTaskQueue.addToIncomingQueue now task delay nestable).queue } none := by
  rcases l.incomingTaskQueue.addToIncomingQueue_accepts now task delay nestable with
    ⟨p, hp, hq⟩ | hq
  · have hes : taskEvents delay l { l with
        incomingTaskQueue :=
          (l.incomingTaskQueue.addToIncomingQueue now task delay nestable).queue } none =
        [.posted p delay] := by
      simp [taskEvents, hq.1]
    rw [Follows, hes]
    simp only [queues, hq]
    exact .posts (q := l.queues) hp hq.2.1 hq.2.2.1
  · refine .of_eq ?_ now delay
    simp only [queues, hq]

theorem follows_reloadWorkQueue (l : MessageLoop) (now delay : Int) :
    l.Follows now delay l.reloadWorkQueue none := by
  rcases l.reloadWorkQueue_cases with ⟨-, -, n, he⟩ | ⟨hw, -, n, he⟩ | ⟨-, he⟩
  · rw [he]
    exact .of_eq rfl now delay
  · rw [he]
    have hs : Serves now (l.runDepth == 1) l.queues _ _ := .reloads hw
    simpa [Follows, taskEvents, queues] using hs
  · rw [he]
    exact .of_eq rfl now delay

/-- A task that is reached is run, or it may not be run here and is deferred. -/
theorem deferOrRun_spec (l : MessageLoop) (p : PendingTask) :
    (l.deferOrRunPendingTask p = (l.runTask p, true) ∧
      (p.nestable = true ∨ (l.runDepth == 1) = true)) ∨
    l.deferOrRunPendingTask p =
      ({ l with deferredNonNestableWorkQueue := l.deferredNonNestableWorkQueue ++ [p] },
        false) ∧ p.nestable = false ∧ (l.runDepth == 1) = false := by
  unfold deferOrRunPendingTask
  split
  · next h => exact .inl ⟨rfl, by simpa using h⟩
  · next h =>
    rw [Bool.or_eq_true, not_or, Bool.not_eq_true, Bool.not_eq_true] at h
    exact .inr ⟨rfl, h⟩

theorem follows_popWork (l : MessageLoop) (now delay : Int) :
    l.Follows now delay l.popWork.1 l.popWork.2.run? := by
  unfold popWork
  cases hw : l.workQueue with
  | nil => exact .of_eq rfl now delay
  | cons p rest =>
    dsimp only
    by_cases hp : p.delayedRunTime = 0
    · simp only [hp, TimeTicks.isNull_zero, Bool.not_true, Bool.false_eq_true, if_false]
      rcases deferOrRun_spec { l with workQueue := rest } p with ⟨he, hmay⟩ | ⟨he, hmay⟩
      · rw [he]
        have hs : Serves now (l.runDepth == 1) l.queues _ _ := .runs hw hp hmay
        simpa [Follows, taskEvents, WorkItem.run?, queues] using hs
      · rw [he]
        have hs : Serves now (l.runDepth == 1) l.queues _ _ := .defers hw hp hmay.1 hmay.2
        simpa [Follows, taskEvents, WorkItem.run?, queues] using hs
    · rw [TimeTicks.isNull_eq_false.mpr hp]
      have hs : Serves now (l.runDepth == 1) l.queues _ _ := .delays hw hp
      simpa [Follows, taskEvents, WorkItem.run?, queues] using hs

theorem follows_doDelayedWork (l : MessageLoop) (now next delay : Int) :
    l.Follows now delay (l.doDelayedWork now next).loop (l.doDelayedWork now next).run := by
  have hpop (p : PendingTask) (t : Int) (htop : l.delayedWorkQueue.top? = some p) :
      let r := { l with recentTime := t, delayedWorkQueue := l.delayedWorkQueue.pop
        }.deferOrRunPendingTask p
      l.Follows now delay r.1 (if r.2 then some p else none) := by
    rcases deferOrRun_spec { l with
      recentTime := t, delayedWorkQueue := l.delayedWorkQueue.pop } p with
      ⟨he, hmay⟩ | ⟨he, hmay⟩
    · simp only [he, if_true]
      have hs : Serves now (l.runDepth == 1) l.queues _ _ := .runsDelayed htop hmay
      simpa [Follows, taskEvents, queues] using hs
    · simp only [he, Bool.false_eq_true, if_false]
      have hs : Serves now (l.runDepth == 1) l.queues _ _ := .defersDelayed htop hmay.1 hmay.2
      simpa [Follows, taskEvents, queues] using hs
  unfold doDelayedWork
  split
  · next p _ htop =>
    by_cases hahead : p.delayedRunTime > l.recentTime
    · by_cases hlate : p.delayedRunTime > now
      · simp only [hahead, hlate, if_true, and_self]
        exact .of_eq rfl now delay
      · simp only [hahead, hlate, if_true, and_false, if_false]
        exact hpop p now htop
    · simp only [hahead, if_false, false_and]
      exact hpop p l.recentTime htop
  · exact .of_eq rfl now delay

theorem follows_doIdleWork (l : MessageLoop) (now delay : Int) :
    l.Follows now delay l.doIdleWork.loop l.doIdleWork.run := by
  unfold doIdleWork
  split
  · next p rest htop hdeferred =>
    have hnone : rest.drop (rest.length + 1) = [] := List.drop_eq_nil_of_le (Nat.le_succ _)
    have hs : Serves now (l.runDepth == 1) l.queues _ _ := .runsDeferred hdeferred htop
    simpa [Follows, taskEvents, queues, hdeferred, hnone, ← List.map_drop] using hs
  · exact .of_eq rfl now delay

end MessageLoop

end Mdgate.Base
