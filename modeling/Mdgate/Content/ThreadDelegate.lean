import Mdgate.Base.MessagePumpDefault
import Mdgate.Content.ThreadLifetime

/-!
# The delegate of a browser thread

One browser thread that the main thread starts and stops, and the slot of its
`BrowserThreadDelegate`, which `SetDelegate` exchanges at any time and from any
thread. `BrowserThreadImpl::Init` reads the slot when the thread's `MessageLoop` is
published already, and `CleanUp` reads it again.

`Undisturbed` is the condition under which `InitAsync` is nevertheless the first task,
and `CleanUp` follows an `Init`.
-/

namespace Mdgate.Content.BrowserThreadDelegate

open Mdgate.Lib Mdgate.Base

/-- A `BrowserThreadDelegate*` that is not null. -/
abbrev Delegate := Nat

/-- `BrowserThreadDelegate::InitAsync` of the delegate that `Init` read, as a task. -/
def initAsync : Nat := 1

inductive Event where
  | init (d : Delegate)
  | initAsync (d : Delegate)
  | task (task : Nat)
  | cleanUp (d : Delegate)
  deriving DecidableEq, Repr

/-- How far `ThreadMain` is. -/
inductive Pc where
  | absent
  | entered
  /-- `message_loop_` is set. -/
  | published
  /-- `Init` has read the slot. -/
  | init
  | initCalled
  | run
  /-- `CleanUp` has read the slot. -/
  | cleanUp (delegate : Option Delegate)
  | cleanedUp
  /-- `message_loop_` is null again. -/
  | returned
  deriving DecidableEq, Repr

namespace Pc

def messageLoop : Pc → Bool
  | absent | entered | returned => false
  | _ => true

def inInit : Pc → Bool
  | published | init | initCalled => true
  | _ => false

def signalled : Pc → Bool
  | run | cleanUp _ | cleanedUp | returned => true
  | _ => false

/-- The thread was started, and has still to read the slot. -/
def readsSlot : Pc → Bool
  | entered | published | init | initCalled | run => true
  | _ => false

end Pc

structure State where
  /-- `thread_delegates[id]`. -/
  slot : Option Delegate
  starting : Bool
  started : Bool
  stopping : Bool
  pc : Pc
  /-- What `Init` read. -/
  delegate : Option Delegate
  pump : MessagePumpDefault
  now : Int
  fresh : Nat
  /-- The delegate that was registered at the start of the thread and left in place. -/
  kept : Option Delegate
  log : List Event

namespace State

def start (now : Int) : State :=
  ⟨none, false, false, false, .absent, none, .new, now, 2, none, []⟩

@[simp] def emit (s : State) (e : Event) : State := { s with log := s.log ++ [e] }

@[simp] def setPump (s : State) (m : MessagePumpDefault) : State := { s with pump := m }

def setDelegate (s : State) (d : Option Delegate) : State :=
  { s with slot := d, kept := if s.pc.readsSlot then none else s.kept }

def ran (s : State) (task : Nat) : Event :=
  match s.delegate with
  | some d => if task = BrowserThreadDelegate.initAsync then .initAsync d else .task task
  | none => .task task

def threadMain (s : State) : Option State :=
  match s.pc with
  | .entered => some { s with pc := .published, pump := .new }
  | .published => some { s with pc := .init, delegate := s.slot }
  | .init =>
    match s.delegate with
    | none => some { s with pc := .run, pump := s.pump.run }
    | some d => some { s.emit (.init d) with pc := .initCalled }
  | .initCalled =>
    some { s with pc := .run, pump := (s.pump.post s.now initAsync 0 true).run }
  | .run => if s.pump.runs.isEmpty then some { s with pc := .cleanUp s.slot } else none
  | .cleanUp none => some { s with pc := .cleanedUp }
  | .cleanUp (some d) => some { s.emit (.cleanUp d) with pc := .cleanedUp }
  | .cleanedUp => some { s with pc := .returned }
  | .absent | .returned => none

def runPump (s : State) : Option State :=
  (s.pump.step s.now).map fun r =>
    match r.2 with
    | none => s.setPump r.1
    | some p => (s.setPump r.1).emit (s.ran p.task)

/-- The running task returns; `ThreadQuitHelper` has called `QuitWhenIdle`. -/
def taskReturns (s : State) : Option State :=
  (if s.pump.task? = some threadQuitHelper then s.pump.quitWhenIdle else s.pump).taskReturns.map
    s.setPump

/-- `PostTaskHelper`; the thread object is registered. -/
def postTaskHelper (s : State) (task : Nat) (delay : Int) (nestable : Bool) : State :=
  if s.pc.messageLoop then s.setPump (s.pump.post s.now task delay nestable) else s

def stopSoon (s : State) : State :=
  if s.stopping || !s.pc.messageLoop then s
  else { s with stopping := true, pump := s.pump.post s.now threadQuitHelper 0 true }

end State

/-- What a task may do to the loop that runs it. -/
inductive Code where
  /-- It runs a nested `RunLoop`. -/
  | run
  | quitWhenIdle
  | quit
  | setNestableTasksAllowed (allowed : Bool)
  deriving DecidableEq, Repr

def Code.apply (m : MessagePumpDefault) : Code → MessagePumpDefault
  | run => m.run
  | quitWhenIdle => m.quitWhenIdle
  | quit => m.quit
  | setNestableTasksAllowed allowed => m.setNestableTasksAllowed allowed

inductive Action where
  | setDelegate (d : Option Delegate)
  | create
  | startReturns
  | threadMain
  | pump
  | code (c : Code)
  | taskReturns
  | post (delay : Int) (nestable : Bool)
  | stopSoon
  | join
  | tick (dt : Nat)
  deriving DecidableEq, Repr

def step (s : State) : Action → Option State
  | .setDelegate d => some (s.setDelegate d)
  | .create =>
    if s.pc = .absent then some { s with starting := true, pc := .entered, kept := s.slot }
    else none
  | .startReturns =>
    if s.starting = true ∧ s.pc.signalled = true then
      some { s with starting := false, started := true }
    else none
  | .threadMain => s.threadMain
  | .pump => if s.pc = .run then s.runPump else none
  | .code c =>
    if s.pc = .run ∧ s.pump.task?.isSome then some (s.setPump (c.apply s.pump)) else none
  | .taskReturns => if s.pc = .run then s.taskReturns else none
  | .post delay nestable =>
    some { s.postTaskHelper s.fresh delay nestable with fresh := s.fresh + 1 }
  | .stopSoon => if s.started then some s.stopSoon else none
  | .join =>
    if s.started = true ∧ s.pc = .returned then
      some { s with started := false, stopping := false }
    else none
  | .tick dt => some { s with now := s.now + dt }

def machine : Machine State Action := ⟨fun s => ∃ now, s = .start now, step⟩

/-! ## The contract -/

/-- The calls of a delegate around the tasks of its thread. -/
def bracket (d : Delegate) (tasks : List Nat) : List Event :=
  .init d :: .initAsync d :: (tasks.map .task ++ [.cleanUp d])

/-- What `BrowserThreadDelegate` promises. -/
structure Brackets (s : State) : Prop where
  /-- A delegate that is registered before the start and left in place gets its calls around the
  tasks, and all of them by the end of the thread. -/
  kept : ∀ d, s.kept = some d → ∃ tasks, s.log <+: bracket d tasks ∧
    (s.pc = .returned → s.log = bracket d tasks)
  cleanUp : ∀ d l l', s.log = l ++ .cleanUp d :: l' → .init d ∈ l

/-! ## When it is kept -/

/-- The condition on a step under which the contract is kept. While `Init` is running, no task
that is to be run at once is posted to a thread whose delegate is still in place; and when
`CleanUp` reads the slot, it holds no other delegate than the one that `Init` read. -/
def Undisturbed (s : State) : Action → Prop
  | .post delay _ =>
    s.pc.inInit = true → s.kept ≠ none → IncomingTaskQueue.calculateDelayedRuntime s.now delay ≠ 0
  | .threadMain => s.pc = .run → s.slot = none ∨ s.slot = s.delegate
  | _ => True

instance (s : State) : DecidablePred (Undisturbed s)
  | .post _ _ => inferInstanceAs (Decidable (_ → _ → _ ≠ _))
  | .threadMain => inferInstanceAs (Decidable (_ → _ ∨ _))
  | .setDelegate _ | .create | .startReturns | .pump | .code _ | .taskReturns | .stopSoon | .join
  | .tick _ => .isTrue trivial

/-! ## The message loop while `Init` is running -/

/-- The pump before `Run`, with tasks other than `InitAsync`. -/
structure BeforeRun (m : MessagePumpDefault) : Prop where
  runs : m.runs = []
  workQueue : m.loop.workQueue = []
  allowed : m.loop.nestableTasksAllowed = true
  messageLoop : m.loop.incomingTaskQueue.messageLoop = true
  tasks : ∀ q ∈ m.loop.queued, q.task ≠ initAsync

def initAsyncs (m : MessagePumpDefault) : Nat := m.loop.queued.countP (·.task = initAsync)

namespace BeforeRun

variable {m : MessagePumpDefault}

theorem new : BeforeRun .new := by
  refine ⟨rfl, rfl, rfl, rfl, ?_⟩
  intro q hq
  cases hq

theorem post (h : BeforeRun m) {task : Nat} (htask : task ≠ initAsync) (now delay : Int)
    (nestable : Bool) : BeforeRun (m.post now task delay nestable) := by
  obtain ⟨p, ps, hp, -, rfl, -, hperm⟩ := m.post_spec now task delay nestable
  obtain ⟨n, _, he⟩ := m.loop.incomingTaskQueue.addToIncomingQueue_eq now task delay nestable
  rw [if_pos h.messageLoop] at hperm
  refine ⟨h.runs, h.workQueue, h.allowed, ?_, ?_⟩
  · simp [MessagePumpDefault.post, he, h.messageLoop]
  · intro q hq
    rcases List.mem_cons.mp (hperm.mem_iff.mp hq) with rfl | hq
    · rwa [hp]
    · exact h.tasks q hq

theorem initAsyncs_eq_zero (h : BeforeRun m) : initAsyncs m = 0 := by
  refine List.countP_eq_zero.mpr fun q hq => ?_
  simpa using h.tasks q hq

/-- `Init` posts `InitAsync` behind tasks that are not to be run at once. -/
theorem post_initAsync (h : BeforeRun m)
    (hdelayed : ∀ q ∈ m.loop.incomingTaskQueue.incomingQueue, q.delayedRunTime ≠ 0) (now : Int) :
    initAsyncs (m.post now initAsync 0 true).run = 1 ∧
      ∃ p, p.task = initAsync ∧ (m.post now initAsync 0 true).run.First p := by
  obtain ⟨p, ps, hp, htime, rfl, hq, hperm⟩ := m.post_spec now initAsync 0 true
  rw [if_pos h.messageLoop] at hq hperm
  refine ⟨?_, p, hp, .ofRun h.runs h.allowed htime ⟨_, [], hdelayed, ?_⟩⟩
  · have hzero := h.initAsyncs_eq_zero
    unfold initAsyncs at hzero ⊢
    rw [MessagePumpDefault.run_queued, hperm.countP_eq, List.countP_append, hzero]
    simp [hp]
  · rw [hq]
    simp [MessagePumpDefault.post, h.workQueue]

end BeforeRun

/-! ## Every run -/

def Event.ofTask : Event → Prop
  | initAsync _ | task _ => True
  | init _ | cleanUp _ => False

theorem State.ofTask_ran (s : State) (task : Nat) : (s.ran task).ofTask := by
  unfold State.ran
  split
  · split <;> trivial
  · trivial

/-- The call of `Init`, the tasks that the loop ran, and the call of `CleanUp`. -/
def events (delegate : Option Delegate) (tasks : List Event) (cleanUp : Option Delegate) :
    List Event :=
  (delegate.map .init).toList ++ tasks ++ (cleanUp.map .cleanUp).toList

/-- What the log holds when `ThreadMain` is there. -/
def Logged (delegate : Option Delegate) (log : List Event) : Pc → Prop
  | .absent | .entered | .published | .init => log = []
  | .initCalled => ∃ d, delegate = some d ∧ log = [.init d]
  | .run | .cleanUp _ =>
    ∃ tasks, (∀ e ∈ tasks, e.ofTask) ∧ log = events delegate tasks none
  | .cleanedUp | .returned =>
    ∃ tasks cleanUp, (∀ e ∈ tasks, e.ofTask) ∧ log = events delegate tasks cleanUp

/-- `d` was in the slot when the thread started, and what has been read since then is `d`. -/
def InPlace (d : Delegate) (slot delegate : Option Delegate) : Pc → Prop
  | .absent => False
  | .entered | .published => slot = some d
  | .init | .initCalled | .run => slot = some d ∧ delegate = some d
  | .cleanUp e => e = some d ∧ delegate = some d
  | .cleanedUp | .returned => delegate = some d

structure Sound (s : State) : Prop where
  fresh : initAsync < s.fresh
  started : s.started = true → s.pc.signalled = true
  beforeRun : s.pc.inInit = true → BeforeRun s.pump
  kept : ∀ d, s.kept = some d → InPlace d s.slot s.delegate s.pc
  log : Logged s.delegate s.log s.pc

namespace Sound

variable {s s' : State}

theorem start (now : Int) : Sound (.start now) := by
  refine ⟨Nat.lt_succ_self 1, ?_, ?_, ?_, rfl⟩ <;> simp [State.start, Pc.inInit]

/-- A step that changes the pump, the clock and the owner's flags only. -/
theorem quiet (h : Sound s) {m : MessagePumpDefault} {now : Int} {fresh : Nat}
    {starting started stopping : Bool} (hfresh : s.fresh ≤ fresh)
    (hstarted : started = true → s.pc.signalled = true)
    (hpump : s.pc.inInit = true → BeforeRun m) :
    Sound { s with starting, started, stopping, pump := m, now, fresh } :=
  ⟨h.fresh.trans_le hfresh, hstarted, hpump, h.kept, h.log⟩

theorem setDelegate (h : Sound s) (d : Option Delegate) : Sound (s.setDelegate d) := by
  refine ⟨h.fresh, h.started, h.beforeRun, ?_, h.log⟩
  intro d' hd'
  cases hr : s.pc.readsSlot with
  | true => simp [State.setDelegate, hr] at hd'
  | false =>
    have hplace := h.kept d' (by simpa [State.setDelegate, hr] using hd')
    simp only [State.setDelegate]
    cases hpc : s.pc with
    | absent => simp [InPlace, hpc] at hplace
    | entered | published | init | initCalled | run => simp [Pc.readsSlot, hpc] at hr
    | cleanUp | cleanedUp | returned => simpa [InPlace, hpc] using hplace

theorem create (h : Sound s) (hpc : s.pc = .absent) :
    Sound { s with starting := true, pc := .entered, kept := s.slot } := by
  refine ⟨h.fresh, ?_, ?_, ?_, ?_⟩
  · intro hs
    have hsignalled := h.started hs
    simp [hpc, Pc.signalled] at hsignalled
  · simp [Pc.inInit]
  · intro d hd
    exact hd
  · simpa [Logged, hpc] using h.log

theorem emit_ran (h : Sound s) (hpc : s.pc = .run) (m : MessagePumpDefault) (task : Nat) :
    Sound ((s.setPump m).emit (s.ran task)) := by
  refine ⟨h.fresh, h.started, ?_, h.kept, ?_⟩
  · simp [hpc, Pc.inInit]
  · have hlog := h.log
    simp only [hpc, Logged] at hlog
    obtain ⟨tasks, htasks, hlog⟩ := hlog
    simp only [State.emit, State.setPump, hpc, Logged]
    refine ⟨tasks ++ [s.ran task], ?_, by simp [hlog, events]⟩
    intro e he
    rcases List.mem_append.mp he with he | he
    · exact htasks e he
    · rw [List.mem_singleton.mp he]
      exact s.ofTask_ran task

theorem threadMain (h : Sound s) (hs : s.threadMain = some s') : Sound s' := by
  have hlog := h.log
  have hkept := h.kept
  have hstarted := h.started
  cases hpc : s.pc with
  | absent | returned => simp [State.threadMain, hpc] at hs
  | entered =>
    simp only [State.threadMain, hpc, Option.some.injEq] at hs
    subst hs
    rw [hpc] at hlog hkept hstarted
    exact ⟨h.fresh, hstarted, fun _ => .new, hkept, hlog⟩
  | published =>
    simp only [State.threadMain, hpc, Option.some.injEq] at hs
    subst hs
    rw [hpc] at hlog hkept hstarted
    exact ⟨h.fresh, hstarted, fun _ => h.beforeRun (by rw [hpc]; rfl),
      fun d hd => ⟨hkept d hd, hkept d hd⟩, hlog⟩
  | init =>
    rw [hpc] at hlog hkept hstarted
    cases hd : s.delegate with
    | none =>
      simp only [State.threadMain, hpc, hd, Option.some.injEq] at hs
      subst hs
      rw [hd] at hkept
      refine ⟨h.fresh, fun _ => rfl, nofun, hkept, [], nofun, ?_⟩
      simpa [events, Logged] using hlog
    | some d =>
      simp only [State.threadMain, hpc, hd, Option.some.injEq] at hs
      subst hs
      refine ⟨h.fresh, hstarted, fun _ => h.beforeRun (by rw [hpc]; rfl), hkept, d, hd, ?_⟩
      simpa [Logged] using hlog
  | initCalled =>
    simp only [State.threadMain, hpc, Option.some.injEq] at hs
    subst hs
    rw [hpc] at hlog hkept hstarted
    obtain ⟨d, hd, hlog⟩ := hlog
    refine ⟨h.fresh, fun _ => rfl, nofun, hkept, [], nofun, ?_⟩
    simp [events, hd, hlog]
  | run =>
    simp only [State.threadMain, hpc] at hs
    obtain ⟨-, rfl⟩ := Machine.guard_eq_some hs
    rw [hpc] at hlog hkept hstarted
    exact ⟨h.fresh, fun _ => rfl, nofun, hkept, hlog⟩
  | cleanUp e =>
    rw [hpc] at hlog hkept hstarted
    obtain ⟨tasks, htasks, hlog⟩ := hlog
    cases e with
    | none =>
      simp only [State.threadMain, hpc, Option.some.injEq] at hs
      subst hs
      exact ⟨h.fresh, fun _ => rfl, nofun, fun d hd => (hkept d hd).2, tasks, none, htasks, hlog⟩
    | some d =>
      simp only [State.threadMain, hpc, Option.some.injEq] at hs
      subst hs
      refine ⟨h.fresh, fun _ => rfl, nofun, fun d hd => (hkept d hd).2, tasks, some d, htasks, ?_⟩
      simp [hlog, events]
  | cleanedUp =>
    simp only [State.threadMain, hpc, Option.some.injEq] at hs
    subst hs
    rw [hpc] at hlog hkept hstarted
    exact ⟨h.fresh, fun _ => rfl, nofun, hkept, hlog⟩

theorem postTaskHelper (h : Sound s) {task : Nat} (htask : task ≠ initAsync) (delay : Int)
    (nestable : Bool) {fresh : Nat} (hfresh : s.fresh ≤ fresh) :
    Sound { s.postTaskHelper task delay nestable with fresh } := by
  unfold State.postTaskHelper
  split
  · exact h.quiet hfresh h.started fun hpc => (h.beforeRun hpc).post htask _ _ _
  · exact h.quiet hfresh h.started h.beforeRun

theorem step {a : Action} (h : Sound s)
    (hs : BrowserThreadDelegate.step s a = some s') : Sound s' := by
  cases a with
  | setDelegate d =>
    cases hs
    exact h.setDelegate d
  | create =>
    obtain ⟨hpc, rfl⟩ := Machine.guard_eq_some hs
    exact h.create hpc
  | startReturns =>
    obtain ⟨⟨-, hsignalled⟩, rfl⟩ := Machine.guard_eq_some hs
    exact h.quiet le_rfl (fun _ => hsignalled) h.beforeRun
  | threadMain => exact h.threadMain hs
  | pump =>
    obtain ⟨hpc, hs⟩ := Option.ite_none_right_eq_some.mp hs
    obtain ⟨⟨m, t⟩, hm, rfl⟩ := Option.map_eq_some_iff.mp hs
    cases t with
    | none => exact h.quiet le_rfl h.started fun hinit => by simp [hpc, Pc.inInit] at hinit
    | some p => exact h.emit_ran hpc m p.task
  | code c =>
    obtain ⟨⟨hpc, -⟩, rfl⟩ := Machine.guard_eq_some hs
    exact h.quiet le_rfl h.started fun hinit => by simp [hpc, Pc.inInit] at hinit
  | taskReturns =>
    obtain ⟨hpc, hs⟩ := Option.ite_none_right_eq_some.mp hs
    obtain ⟨m, -, rfl⟩ := Option.map_eq_some_iff.mp hs
    exact h.quiet le_rfl h.started fun hinit => by simp [hpc, Pc.inInit] at hinit
  | post delay nestable =>
    cases hs
    exact h.postTaskHelper (Nat.ne_of_gt h.fresh) delay nestable (Nat.le_succ _)
  | stopSoon =>
    obtain ⟨hstarted, rfl⟩ := Machine.guard_eq_some hs
    unfold State.stopSoon
    split
    · exact h
    · refine h.quiet le_rfl h.started fun hinit => ?_
      exact (h.beforeRun hinit).post (by decide) _ _ _
  | join =>
    obtain ⟨-, rfl⟩ := Machine.guard_eq_some hs
    exact h.quiet le_rfl nofun h.beforeRun
  | tick dt =>
    cases hs
    exact h.quiet le_rfl h.started h.beforeRun

end Sound

theorem sound_reach {ok : State → Action → Prop} {s : State} (hr : machine.Reach ok s) : Sound s :=
  hr.invariant (fun _ ⟨now, hnow⟩ => hnow ▸ Sound.start now) fun _ _ _ h _ hs => h.step hs

end Mdgate.Content.BrowserThreadDelegate
