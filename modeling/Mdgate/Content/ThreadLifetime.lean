import Mdgate.Base.MessageLoop
import Mdgate.Content.BrowserThread
import Mdgate.Lib.Script

/-!
# The lifetimes of the browser threads

The main thread registers `UI`, starts the other browser threads in the order of
the enumeration and later stops and destroys them in the reverse order, one call
after another. Meanwhile each started thread runs its `ThreadMain`, inside it
the loop of its message pump, and the code on any browser thread posts tasks to
any other.

No task has a delay and none runs a nested `RunLoop`, so `DoDelayedWork` finds
nothing and is left out. `MessagePumpForIO` calls the same functions of its
delegate in the same order as `MessagePumpDefault`.
-/

namespace Mdgate.Content

open Mdgate.Lib

/-! ## The main thread -/

def Threads.Action.target : Threads.Action → Option ID
  | .construct id | .create id | .startReturns id | .stopSoon id | .join id | .destroy id => some id
  | _ => none

namespace BrowserMain

def createThreads : List Threads.Action :=
  ID.subThreads.flatMap fun id => [.construct id, .create id, .startReturns id]

/-- `ShutdownThreadsAndCleanUp`; a `ResetThread_*` is the destructor of its thread. -/
def shutdownThreadsAndCleanUp : List Threads.Action :=
  ID.subThreads.reverse.flatMap fun id => [.stopSoon id, .join id, .destroy id]

def script : List Threads.Action :=
  .construct .ui :: (createThreads ++ shutdownThreadsAndCleanUp ++ [.destroy .ui])

/-- The number of calls on `id` among the first `n`. -/
abbrev progress (n : Nat) (id : ID) : Nat := Script.progress Threads.Action.target script n id

variable {n : Nat} {id : ID} {a : Threads.Action}

theorem progress_succ (ha : script[n]? = some a) (hid : a.target = some id) :
    progress (n + 1) id = progress n id + 1 :=
  Script.progress_succ_self ha hid

theorem progress_succ_of_ne (ha : script[n]? = some a) {i : ID} (hid : a.target = some i)
    (hne : id ≠ i) : progress (n + 1) id = progress n id :=
  Script.progress_succ_of_ne ha fun h => hne (Option.some.inj (h.symm.trans hid))

theorem call_subThread (hui : id ≠ .ui) (ha : script[n]? = some a) (hid : a.target = some id) :
    [Threads.Action.construct id, .create id, .startReturns id, .stopSoon id, .join id,
      .destroy id][progress n id]? = some a := by
  have hcalls : Script.calls Threads.Action.target script id =
      [.construct id, .create id, .startReturns id, .stopSoon id, .join id, .destroy id] := by
    cases id <;> first | decide | exact absurd rfl hui
  exact hcalls ▸ Script.getElem?_calls ha hid

theorem call_ui (ha : script[n]? = some a) (hid : a.target = some .ui) :
    [Threads.Action.construct .ui, .destroy .ui][progress n .ui]? = some a :=
  Script.getElem?_calls ha hid

theorem progress_stopSoon (hui : id ≠ .ui) (ha : script[n]? = some (.stopSoon id)) :
    progress n id = 3 := by
  have hcall := call_subThread hui ha rfl
  generalize progress n id = k at hcall ⊢
  match k with
  | 3 => rfl
  | 0 | 1 | 2 | 4 | 5 => cases hcall
  | _ + 6 => cases hcall

/-- The order of lifetimes: while an object exists, those before it have been
started and not been stopped. -/
theorem outlives : ∀ n ≤ script.length, ∀ t ∈ ID.all, ∀ c ∈ ID.all, t.index < c.index →
    1 ≤ progress n c → progress n c ≤ 5 → progress n t = if t = .ui then 1 else 3 := by
  decide +kernel

theorem target_isSome {a : Threads.Action} (ha : a ∈ script) : a.target.isSome = true := by
  have hall : ∀ a ∈ script, a.target.isSome = true := by decide
  exact hall a ha

end BrowserMain

/-! ## The threads -/

/-- Where the `Run` of a message pump is. -/
inductive Pump where
  | doWork
  | runTask (task : Nat)
  | doIdleWork
  | wait
  | quit
  deriving DecidableEq, Repr

/-- A task that was posted through `PostTaskHelper`. -/
structure Posting where
  task : Nat
  poster : ID
  loopRuns : Bool
  deriving DecidableEq, Repr

/-- Posted to a thread that outlives the poster, or to the poster itself while its
loop is running. -/
def Posting.downward (p : Posting) (t : ID) : Prop :=
  t.index < p.poster.index ∨ (p.poster = t ∧ p.loopRuns = true)

instance (p : Posting) (t : ID) : Decidable (p.downward t) :=
  inferInstanceAs (Decidable (_ ∨ _))

def threadQuitHelper : Nat := 0

/-- The message loop of a thread, its pump, and what was posted and run. -/
structure Worker where
  loop : Base.MessageLoop
  pump : Pump
  posted : List Posting
  ran : List Nat

namespace Worker

def new : Worker := ⟨.new, .doWork, [], []⟩

/-- `PostTask` or `PostNonNestableTask` on the message loop. -/
def post (v : Worker) (task : Nat) (nestable : Bool) : Worker :=
  { v with
    loop := { v.loop with
      incomingTaskQueue := (v.loop.incomingTaskQueue.addToIncomingQueue 0 task 0 nestable).queue } }

/-- `RunTask`, up to the return of the task. -/
def runTask (v : Worker) (l : Base.MessageLoop) (p : Base.PendingTask) : Worker :=
  { v with
    loop := l
    pump := .runTask p.task
    ran := if p.task = threadQuitHelper then v.ran else v.ran ++ [p.task] }

/-- The task has returned; `ThreadQuitHelper` has called `QuitWhenIdle`. -/
def didRunTask (v : Worker) (task : Nat) : Worker :=
  { v with
    loop := { v.loop with
      quitWhenIdleReceived := v.loop.quitWhenIdleReceived || task == threadQuitHelper }.didRunTask
    pump := .doWork }

/-- The next step of `MessagePumpDefault::Run`. -/
def step (v : Worker) : Option Worker :=
  match v.pump with
  | .doWork =>
    let r := v.loop.reloadWorkQueue.popWork
    match r.2 with
    | .none => some { v with loop := r.1, pump := .doIdleWork }
    | .run p => some (v.runTask r.1 p)
    | .delayed _ _ | .deferred => some { v with loop := r.1 }
  | .runTask task => some (v.didRunTask task)
  | .doIdleWork =>
    let r := v.loop.doIdleWork
    match r.run with
    | some p => some (v.runTask r.loop p)
    | none => some { v with loop := r.loop, pump := if r.quit then .quit else .wait }
  | .wait => some { v with pump := .doWork }
  | .quit => none

end Worker

/-! ## The process -/

structure World where
  threads : Threads
  next : Nat
  workers : ID → Worker
  fresh : Nat

namespace World

/-- The process before the main thread registers; its `MessageLoop` is at `a`. -/
def new (a : Address) : World :=
  { threads := Threads.bindLoop ⟨fun _ => none, fun _ => none, fun _ => none⟩ .main a
    next := 0
    workers := fun _ => .new
    fresh := 1 }

def setWorker (w : World) (id : ID) (v : Worker) : World :=
  { w with workers := Function.update w.workers id v }

/-- Code runs on `c`: a task, or `Init`, or `CleanUp`. -/
def codeRuns (w : World) (c : ID) : Bool :=
  match w.threads.threads c with
  | none => false
  | some t =>
    c == .ui ||
      match t.threadMain, (w.workers c).pump with
      | .init, _ | .cleanUp, _ | .run, .runTask _ => true
      | _, _ => false

def postsQuitHelper (s : Threads) : Threads.Action → Option ID
  | .stopSoon id => (s.threads id).bind fun t =>
      if t.stopping || t.messageLoop.isNone then none else some id
  | _ => none

inductive Action where
  | main
  /-- The thread of `id` takes the next step of `ThreadMain`; a new `MessageLoop` is made at `a`. -/
  | threadMain (id : ID) (a : Address)
  | pump (id : ID)
  /-- Code on `c` calls `BrowserThread::PostTask` or `PostNonNestableTask`. -/
  | post (c t : ID) (nestable : Bool)
  deriving DecidableEq, Repr

def step (w : World) : Action → Option World
  | .main =>
    BrowserMain.script[w.next]?.bind fun a =>
      (w.threads.step a).map fun s =>
        let w' := match postsQuitHelper w.threads a with
          | some id => w.setWorker id ((w.workers id).post threadQuitHelper true)
          | none => w
        { w' with threads := s, next := w.next + 1 }
  | .threadMain id a =>
    (w.threads.threads id).bind fun t =>
      -- `CleanUp` follows the return of `Run`
      if t.threadMain = .run ∧ (w.workers id).pump ≠ .quit then none
      else (w.threads.step (.threadMain id a)).map fun s => { w with threads := s }
  | .pump id =>
    (w.threads.threads id).bind fun t =>
      if t.threadMain = .run then (w.workers id).step.map fun v => w.setWorker id v else none
  | .post c t nestable =>
    if w.codeRuns c then
      if (w.threads.postTaskHelper c.platformThread t).result then
        let v := (w.workers t).post w.fresh nestable
        some { w.setWorker t { v with
            posted := v.posted ++ [⟨w.fresh, c, (w.workers c).pump != .quit⟩] } with
          fresh := w.fresh + 1 }
      else some w
    else none

end World

/-- The browser threads under the main thread's script, interleaved in any way. -/
def lifetimeMachine : Machine World World.Action := ⟨fun w => ∃ a, w = .new a, World.step⟩

/-! ## What a step does -/

namespace Threads

/-- What a call makes of the entry of its object. -/
inductive Call (id : ID) : Action → Option BrowserThreadImpl → Option BrowserThreadImpl → Prop where
  | construct (m : Option Address) : Call id (.construct id) none (some ⟨false, false, m, .absent⟩)
  | create {t : BrowserThreadImpl} : t.started = false → t.threadMain = .absent →
      Call id (.create id) (some t) (some { t with threadMain := .entered })
  | startReturns {t : BrowserThreadImpl} : t.started = false → t.threadMain.signalled = true →
      Call id (.startReturns id) (some t) (some { t with started := true })
  | stopSoon {t : BrowserThreadImpl} (b : Bool) : t.started = true →
      Call id (.stopSoon id) (some t) (some { t with stopping := b })
  | join {t : BrowserThreadImpl} : t.started = true → t.threadMain = .returned →
      Call id (.join id) (some t)
        (some { t with started := false, stopping := false, threadMain := .absent })
  | destroy {t : BrowserThreadImpl} : t.started = false → t.threadMain = .absent →
      Call id (.destroy id) (some t) none

variable {s s' : Threads} {a : Action} {id : ID}

theorem step_call (hs : s.step a = some s') (ha : a.target = some id) :
    ∃ e, Call id a (s.threads id) e ∧ s' = s.setThread id e := by
  cases a with
  | newMessageLoop | deleteMessageLoop | threadMain => cases ha
  | construct i =>
    obtain rfl : i = id := Option.some.inj ha
    cases ht : s.threads i with
    | some t => simp [step, ht] at hs
    | none =>
      by_cases hui : i = .ui
      · subst hui
        simp only [step, ht] at hs
        obtain ⟨b, -, rfl⟩ := Option.map_eq_some_iff.mp hs
        exact ⟨_, .construct (some b), rfl⟩
      · have hs' : s.setThread i (some ⟨false, false, none, .absent⟩) = s' := by
          cases i <;> simp_all [step]
        exact ⟨_, .construct none, hs'.symm⟩
  | create i =>
    obtain rfl : i = id := Option.some.inj ha
    obtain ⟨t, ht, hs⟩ := Option.bind_eq_some_iff.mp hs
    obtain ⟨⟨hstarted, hpc, -⟩, rfl⟩ := Machine.guard_eq_some hs
    exact ⟨_, ht ▸ .create hstarted hpc, rfl⟩
  | startReturns i =>
    obtain rfl : i = id := Option.some.inj ha
    obtain ⟨t, ht, hs⟩ := Option.bind_eq_some_iff.mp hs
    obtain ⟨⟨hstarted, hpc⟩, rfl⟩ := Machine.guard_eq_some hs
    exact ⟨_, ht ▸ .startReturns hstarted hpc, rfl⟩
  | stopSoon i =>
    obtain rfl : i = id := Option.some.inj ha
    obtain ⟨t, ht, hs⟩ := Option.bind_eq_some_iff.mp hs
    obtain ⟨hstarted, hs⟩ := Option.ite_none_right_eq_some.mp hs
    split at hs <;> obtain rfl := Option.some.inj hs
    · refine ⟨s.threads i, ?_, ?_⟩
      · rw [ht]
        exact .stopSoon t.stopping hstarted
      · rw [setThread, Function.update_eq_self]
    · exact ⟨_, ht ▸ .stopSoon true hstarted, rfl⟩
  | join i =>
    obtain rfl : i = id := Option.some.inj ha
    obtain ⟨t, ht, hs⟩ := Option.bind_eq_some_iff.mp hs
    obtain ⟨⟨hstarted, hpc⟩, rfl⟩ := Machine.guard_eq_some hs
    exact ⟨_, ht ▸ .join hstarted hpc, rfl⟩
  | destroy i =>
    obtain rfl : i = id := Option.some.inj ha
    obtain ⟨t, ht, hs⟩ := Option.bind_eq_some_iff.mp hs
    obtain ⟨⟨hstarted, hpc⟩, rfl⟩ := Machine.guard_eq_some hs
    exact ⟨_, ht ▸ .destroy hstarted hpc, rfl⟩

end Threads

def ThreadMain.next : ThreadMain → Option ThreadMain
  | absent | returned => none
  | entered => some loopCreated
  | loopCreated => some init
  | init => some run
  | run => some cleanUp
  | cleanUp => some loopCleared
  | loopCleared => some returned

namespace Threads

variable {s s' : Threads} {id : ID}

theorem threadMain_threads {t : BrowserThreadImpl} {a : Address}
    (hs : s.threadMain id t a = some s') : ∃ pc m, t.threadMain.next = some pc ∧
      s'.threads = Function.update s.threads id
        (some { t with messageLoop := m, threadMain := pc }) := by
  cases hpc : t.threadMain with
  | absent | returned => simp [threadMain, hpc] at hs
  | entered =>
    simp only [threadMain, hpc] at hs
    obtain ⟨-, rfl⟩ := Machine.guard_eq_some hs
    exact ⟨_, t.messageLoop, rfl, rfl⟩
  | loopCreated | init | run | cleanUp =>
    simp only [threadMain, hpc, Option.some.injEq] at hs
    exact hs ▸ ⟨_, _, rfl, rfl⟩
  | loopCleared =>
    simp only [threadMain, hpc] at hs
    obtain ⟨b, -, rfl⟩ := Option.map_eq_some_iff.mp hs
    exact ⟨_, t.messageLoop, rfl, rfl⟩

end Threads

namespace Worker

def pending (v : Worker) : List Base.PendingTask :=
  v.loop.workQueue ++ v.loop.incomingTaskQueue.incomingQueue

/-- The loop of a thread with neither delayed tasks nor nested loops. -/
structure Plain (v : Worker) : Prop where
  runDepth : v.loop.runDepth = 1
  messageLoop : v.loop.incomingTaskQueue.messageLoop = true
  deferred : v.loop.deferredNonNestableWorkQueue = []
  delayed : v.loop.delayedWorkQueue.tasks = []
  immediate : ∀ p ∈ v.pending, p.delayedRunTime = 0

variable {v v' : Worker}

theorem post_pending (h : v.Plain) (task : Nat) (nestable : Bool) :
    ∃ p : Base.PendingTask, p.task = task ∧ p.delayedRunTime = 0 ∧
      (v.post task nestable).pending = v.pending ++ [p] := by
  obtain ⟨p, hp, htime, hq⟩ :=
    v.loop.incomingTaskQueue.addToIncomingQueue_spec 0 task 0 nestable
  rw [if_pos h.messageLoop] at hq
  exact ⟨p, hp, htime, by simp [post, pending, hq]⟩

theorem post_plain (h : v.Plain) (task : Nat) (nestable : Bool) : (v.post task nestable).Plain := by
  obtain ⟨p, -, hp, hpending⟩ := post_pending h task nestable
  refine ⟨h.runDepth, ?_, h.deferred, h.delayed, ?_⟩
  · obtain ⟨n, p, he⟩ := v.loop.incomingTaskQueue.addToIncomingQueue_eq 0 task 0 nestable
    simp [post, he, h.messageLoop]
  · intro q hq
    rw [hpending, List.mem_append, List.mem_singleton] at hq
    rcases hq with hq | rfl
    · exact h.immediate q hq
    · exact hp

/-- The steps of the pump of a plain worker. -/
inductive Step (v v' : Worker) : Prop where
  | idle : v.pump = .doWork → v.pending = [] → v'.pump = .doIdleWork → v'.pending = [] →
      v'.ran = v.ran → v'.loop.quitWhenIdleReceived = v.loop.quitWhenIdleReceived → Step v v'
  | run (p : Base.PendingTask) : v.pump = .doWork → v.pending = p :: v'.pending →
      v'.pump = .runTask p.task →
      v'.ran = (if p.task = threadQuitHelper then v.ran else v.ran ++ [p.task]) →
      v'.loop.quitWhenIdleReceived = v.loop.quitWhenIdleReceived → Step v v'
  | didRun (task : Nat) : v.pump = .runTask task → v'.pump = .doWork → v'.pending = v.pending →
      v'.ran = v.ran →
      v'.loop.quitWhenIdleReceived = (v.loop.quitWhenIdleReceived || task == threadQuitHelper) →
      Step v v'
  | doneIdle : v.pump = .doIdleWork →
      v'.pump = (if v.loop.quitWhenIdleReceived then .quit else .wait) → v'.pending = v.pending →
      v'.ran = v.ran → v'.loop.quitWhenIdleReceived = v.loop.quitWhenIdleReceived → Step v v'
  | wake : v.pump = .wait → v'.pump = .doWork → v'.pending = v.pending → v'.ran = v.ran →
      v'.loop.quitWhenIdleReceived = v.loop.quitWhenIdleReceived → Step v v'

theorem reload_spec (h : v.Plain) : ∃ l, v.loop.reloadWorkQueue = l ∧ l.runDepth = 1 ∧
    l.incomingTaskQueue.messageLoop = true ∧ l.deferredNonNestableWorkQueue = [] ∧
    l.delayedWorkQueue.tasks = [] ∧ l.quitWhenIdleReceived = v.loop.quitWhenIdleReceived ∧
    l.workQueue ++ l.incomingTaskQueue.incomingQueue = v.pending ∧
    (l.workQueue = [] → v.pending = []) := by
  refine ⟨_, rfl, ?_⟩
  rcases v.loop.reloadWorkQueue_cases with ⟨hw, hi, n, he⟩ | ⟨hw, hi, n, he⟩ | ⟨hw, he⟩
  · simp [he, h.runDepth, h.messageLoop, h.deferred, h.delayed, pending, hw, hi]
  · simp [he, h.runDepth, h.messageLoop, h.deferred, h.delayed, pending, hw, hi]
  · simp [he, h.runDepth, h.messageLoop, h.deferred, h.delayed, pending, hw]

theorem step_spec (h : v.Plain) (hs : v.step = some v') :
    v.Step v' ∧ v'.Plain ∧ v'.posted = v.posted := by
  cases hpump : v.pump with
  | doWork =>
    simp only [step, hpump] at hs
    obtain ⟨l, hl, hdepth, hm, hdef, hdel, hquit, hpending, hempty⟩ := reload_spec h
    rw [hl] at hs
    rcases Base.MessageLoop.popWork_cases hdepth with
      ⟨hw, he⟩ | ⟨p, rest, b, hw, hp, -⟩ | ⟨p, rest, hw, hp, he⟩
    · obtain rfl : _ = v' := by simpa [he] using hs
      have hnil := hempty hw
      rw [hnil] at hpending
      refine ⟨.idle hpump hnil rfl hpending rfl hquit, ⟨hdepth, hm, hdef, hdel, ?_⟩, rfl⟩
      intro q hq
      rw [pending, hpending] at hq
      cases hq
    · refine absurd (h.immediate p ?_) hp
      simp [← hpending, hw]
    · obtain rfl : _ = v' := by simpa [he] using hs
      have hrest : v.pending = p :: (rest ++ l.incomingTaskQueue.incomingQueue) := by
        rw [← hpending, hw, List.cons_append]
      refine ⟨.run p hpump hrest rfl rfl hquit, ⟨hdepth, hm, hdef, hdel, ?_⟩, rfl⟩
      intro q hq
      apply h.immediate q
      rw [hrest]
      exact List.mem_cons_of_mem _ hq
  | runTask task =>
    simp only [step, hpump, Option.some.injEq] at hs
    subst hs
    exact ⟨.didRun task hpump rfl rfl rfl rfl,
      ⟨h.runDepth, h.messageLoop, h.deferred, h.delayed, h.immediate⟩, rfl⟩
  | doIdleWork =>
    simp only [step, hpump, Base.MessageLoop.doIdleWork_eq h.deferred, Option.some.injEq] at hs
    subst hs
    exact ⟨.doneIdle hpump rfl rfl rfl rfl,
      ⟨h.runDepth, h.messageLoop, h.deferred, h.delayed, h.immediate⟩, rfl⟩
  | wait =>
    simp only [step, hpump, Option.some.injEq] at hs
    subst hs
    exact ⟨.wake hpump rfl rfl rfl rfl,
      ⟨h.runDepth, h.messageLoop, h.deferred, h.delayed, h.immediate⟩, rfl⟩
  | quit => simp [step, hpump] at hs

end Worker

end Mdgate.Content
