import Mdgate.Base.Time
import Mdgate.Lib.Machine
import Mdgate.Pool.Inner

/-!
# A worker pool and its threads

A `SequencedWorkerPool` with its worker threads, the calls of `PostTask` that are in progress and
the thread that calls `Shutdown`. Each action is one section under the lock, or one piece of code
between two. `Signal` wakes one of the threads that wait, any of them, and a wait can end at any
time, as the waits of the platform can.
-/

namespace Mdgate.Pool

open Lib

inductive PoolEvent where
  | accepted (task : SequencedTask)
  | taken (task : SequencedTask)
  | finished (task : SequencedTask)
  | deleted (task : SequencedTask)
  /-- `Shutdown` is called, and lets this many tasks be posted after it. -/
  | shutdownCalled (maxNewBlockingTasks : Nat)
  | shutdownReturned
  deriving DecidableEq, Repr

inductive PostPc where
  /-- Before the lock is taken, with the task's time to run. -/
  | called (call : PostCall) (timeToRun : Int)
  | posted (createThreadId : Nat)
  deriving DecidableEq, Repr

/-- A call of `PostTask`, by the worker with this index or by a thread that is none. -/
structure Post where
  caller : Option Nat
  pc : PostPc
  deriving DecidableEq, Repr

inductive ShutdownPc where
  | notCalled
  | checking
  /-- In `can_shutdown_cv_.Wait`. -/
  | waiting
  | returned
  deriving DecidableEq, Repr

structure WorkerPool where
  inner : Inner
  workers : List WorkerPc
  posts : List Post
  shutdown : ShutdownPc
  now : Int
  log : List PoolEvent

inductive PoolAction where
  | tick (d : Nat)
  | getSequenceToken
  | getNamedSequenceToken (name : String)
  | post (caller : Option Nat) (call : PostCall)
  | enqueue (post : Nat)
  /-- It creates a thread, or signals. -/
  | finishPost (post : Nat) (wakes : Option Nat)
  | worker (i : Nat) (wakes : Option Nat)
  | taskReturns (i : Nat)
  | wake (i : Nat)
  | callShutdown (maxNewBlockingTasksAfterShutdown : Nat) (wakes : Option Nat)
  | checkShutdown
  | wakeShutdown
  deriving DecidableEq, Repr

/-! ## Where a worker is -/

namespace WorkerPc

def isWaiting : WorkerPc → Bool
  | waiting _ => true
  | _ => false

/-- `waiting_thread_count_` counts the worker. -/
def isCounted : WorkerPc → Bool
  | waiting _ | woken => true
  | _ => false

def isRegistered : WorkerPc → Bool
  | starting => false
  | _ => true

/-- The worker is about to create a thread, or is a thread that was created. -/
def isNew : WorkerPc → Bool
  | starting => true
  | found _ n _ | signalled _ n _ => n != 0
  | _ => false

def task? : WorkerPc → Option SequencedTask
  | found task _ _ | signalled task _ _ | running task | ran task => some task
  | _ => none

/-- The task that the worker has not finished. -/
def unfinished? : WorkerPc → Option SequencedTask
  | found task _ _ | signalled task _ _ | running task => some task
  | _ => none

/-- The task that the worker runs, by `is_processing_task_`. -/
def running? : WorkerPc → Option SequencedTask
  | running task => some task
  | _ => none

/-- What `GetWork` has done when a pass of the loop ends here. -/
def events : WorkerPc → List PoolEvent
  | found task _ deletes => deletes.map .deleted ++ [.taken task]
  | deleting deletes | leaving deletes => deletes.map .deleted
  | _ => []

end WorkerPc

namespace WorkerPool

def start (maxThreads now : Nat) : WorkerPool :=
  ⟨.new maxThreads, [], [], .notCalled, now, []⟩

variable (s : WorkerPool)

def setWorker (i : Nat) (pc : WorkerPc) : WorkerPool := { s with workers := s.workers.set i pc }

/-- `SignalHasWork` wakes the worker `wakes`, and none when none waits. -/
def signalHasWork (wakes : Option Nat) : Option WorkerPool :=
  match wakes with
  | some i =>
    match s.workers[i]? with
    | some (.waiting _) => some (s.setWorker i .woken)
    | _ => none
  | none => if s.workers.any WorkerPc.isWaiting then none else some s

def signalCanShutdown : WorkerPool :=
  { s with shutdown := if s.shutdown = .waiting then .checking else s.shutdown }

def finishStartingAdditionalThread : WorkerPool :=
  { s with workers := s.workers ++ [.starting] }

/-- The behaviour of the task that the calling thread runs. -/
def callerBehavior (p : Post) : Option WorkerShutdown :=
  ((p.caller.bind fun i => s.workers[i]?).bind WorkerPc.running?).map (·.shutdownBehavior)

def stepWorker (i : Nat) (pc : WorkerPc) (wakes : Option Nat) : Option WorkerPool :=
  match pc.enters s.inner with
  | some inner =>
    let (inner, pc) := inner.threadLoop s.now
    some { s.setWorker i pc with inner := inner, log := s.log ++ pc.events }
  | none =>
    match pc with
    | .found task newThreadId deletes =>
      (s.setWorker i (.signalled task newThreadId deletes)).signalHasWork wakes
    | .signalled task newThreadId _ =>
      let s := s.setWorker i (.running task)
      some (if newThreadId ≠ 0 then s.finishStartingAdditionalThread else s)
    | .deleting _ => some (s.setWorker i .looking)
    | .leaving _ => (s.setWorker i .left).signalHasWork wakes
    | .left => some (s.setWorker i .exited).signalCanShutdown
    | _ => none

def step : PoolAction → Option WorkerPool
  | .tick d => some { s with now := s.now + d }
  | .getSequenceToken => some { s with inner := s.inner.getSequenceToken.2 }
  | .getNamedSequenceToken name => some { s with inner := (s.inner.lockedGetNamedTokenID name).2 }
  | .post caller call =>
    -- A task that posts is on the stack of its worker.
    if caller.all fun i => (s.workers[i]?.bind WorkerPc.running?).isSome then
      let timeToRun := Base.TimeDelta.saturatedAdd call.delay s.now
      some { s with posts := s.posts ++ [⟨caller, .called call timeToRun⟩] }
    else none
  | .enqueue k =>
    match s.posts[k]? with
    | some ⟨caller, .called call timeToRun⟩ =>
      match s.inner.postTask (s.callerBehavior ⟨caller, .called call timeToRun⟩) call timeToRun with
      | some (task, createThreadId, inner) =>
        some { s with
          inner := inner
          posts := s.posts.set k ⟨caller, .posted createThreadId⟩
          log := s.log ++ [.accepted task] }
      | none => some { s with posts := s.posts.eraseIdx k }
    | _ => none
  | .finishPost k wakes =>
    match s.posts[k]? with
    | some ⟨_, .posted createThreadId⟩ =>
      let s := { s with posts := s.posts.eraseIdx k }
      if createThreadId ≠ 0 then some s.finishStartingAdditionalThread else s.signalHasWork wakes
    | _ => none
  | .worker i wakes =>
    match s.workers[i]? with
    | some pc => s.stepWorker i pc wakes
    | none => none
  | .taskReturns i =>
    match s.workers[i]? with
    | some (.running task) =>
      if s.posts.all fun p => p.caller != some i then
        some { s.setWorker i (.ran task) with log := s.log ++ [.finished task] }
      else none
    | _ => none
  | .wake i =>
    match s.workers[i]? with
    | some (.waiting _) => some (s.setWorker i .woken)
    | _ => none
  | .callShutdown max wakes =>
    if s.shutdown = .checking ∨ s.shutdown = .waiting then none
    else if s.inner.shutdownCalled then some s
    else
      let inner := { s.inner with shutdownCalled := true, maxBlockingTasksAfterShutdown := max }
      ({ s with
        inner := inner
        shutdown := if inner.canShutdown then .returned else .checking
        log := s.log ++ .shutdownCalled max ::
          if inner.canShutdown then [.shutdownReturned] else [] } : WorkerPool).signalHasWork wakes
  | .checkShutdown =>
    if s.shutdown = .checking then
      some (if s.inner.canShutdown then
          { s with shutdown := .returned, log := s.log ++ [.shutdownReturned] }
        else { s with shutdown := .waiting })
    else none
  | .wakeShutdown => if s.shutdown = .waiting then some { s with shutdown := .checking } else none

end WorkerPool

/-- A pool over every order of posts, signals, waits and task behaviour. -/
def poolMachine (maxThreads : Nat) : Machine WorkerPool PoolAction where
  init s := ∃ now, s = .start maxThreads now
  step := WorkerPool.step

end Mdgate.Pool
