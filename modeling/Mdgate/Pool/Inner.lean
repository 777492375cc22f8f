import Mathlib.Data.Finset.Basic
import Mdgate.Pool.GetWork

/-!
# The locked state of a worker pool

`SequencedWorkerPool::Inner` and what its functions do with the lock held. The state that only
`CleanupForTesting` uses, trace ids and the names of the threads are left out.
-/

namespace Mdgate.Pool

structure Inner where
  maxThreads : Nat
  /-- How many numbers `g_last_sequence_number_` has given. -/
  lastSequenceNumber : Nat
  namedSequenceTokens : List (String × Nat)
  /-- `threads_.size()`. -/
  threads : Nat
  threadBeingCreated : Bool
  waitingThreadCount : Nat
  blockingShutdownThreadCount : Nat
  pendingTasks : PendingTaskSet
  nextSequenceTaskNumber : Nat
  blockingShutdownPendingTaskCount : Nat
  currentSequences : Finset Nat
  shutdownCalled : Bool
  maxBlockingTasksAfterShutdown : Nat

/-- The arguments of `PostTask`, which checks that a task with a delay does not block shutdown. -/
structure PostCall where
  optionalTokenName : Option String
  sequenceToken : Nat
  shutdownBehavior : WorkerShutdown
  task : Nat
  delay : Int
  skips : delay = 0 ∨ shutdownBehavior = .skipOnShutdown
  deriving DecidableEq, Repr

/-! ## The functions that post -/

def postWorkerTaskWithShutdownBehavior (task : Nat) (behavior : WorkerShutdown) : PostCall :=
  ⟨none, 0, behavior, task, 0, .inl rfl⟩

def postWorkerTask (task : Nat) : PostCall :=
  ⟨none, 0, .blockShutdown, task, 0, .inl rfl⟩

def postDelayedWorkerTask (task : Nat) (delay : Int) : PostCall :=
  ⟨none, 0, if delay = 0 then .blockShutdown else .skipOnShutdown, task, delay, by
    split <;> simp [*]⟩

def postSequencedWorkerTask (token task : Nat) : PostCall :=
  ⟨none, token, .blockShutdown, task, 0, .inl rfl⟩

def postDelayedSequencedWorkerTask (token task : Nat) (delay : Int) : PostCall :=
  ⟨none, token, if delay = 0 then .blockShutdown else .skipOnShutdown, task, delay, by
    split <;> simp [*]⟩

def postNamedSequencedWorkerTask (tokenName : String) (task : Nat) : PostCall :=
  ⟨some tokenName, 0, .blockShutdown, task, 0, .inl rfl⟩

def postSequencedWorkerTaskWithShutdownBehavior (token task : Nat) (behavior : WorkerShutdown) :
    PostCall :=
  ⟨none, token, behavior, task, 0, .inl rfl⟩

def sequencedTaskRunnerPostDelayedTask (token : Nat) (behavior : WorkerShutdown) (task : Nat)
    (delay : Int) : PostCall :=
  if delay = 0 then postSequencedWorkerTaskWithShutdownBehavior token task behavior
  else postDelayedSequencedWorkerTask token task delay

namespace Inner

def new (maxThreads : Nat) : Inner where
  maxThreads := maxThreads
  lastSequenceNumber := 0
  namedSequenceTokens := []
  threads := 0
  threadBeingCreated := false
  waitingThreadCount := 0
  blockingShutdownThreadCount := 0
  pendingTasks := .empty
  nextSequenceTaskNumber := 0
  blockingShutdownPendingTaskCount := 0
  currentSequences := ∅
  shutdownCalled := false
  maxBlockingTasksAfterShutdown := 0

variable (s : Inner)

def getSequenceToken : Nat × Inner :=
  (s.lastSequenceNumber + 1, { s with lastSequenceNumber := s.lastSequenceNumber + 1 })

def lockedGetNamedTokenID (name : String) : Nat × Inner :=
  match s.namedSequenceTokens.lookup name with
  | some id => (id, s)
  | none =>
    let (result, s) := s.getSequenceToken
    (result, { s with namedSequenceTokens := (name, result) :: s.namedSequenceTokens })

def isSequenceTokenRunnable (sequenceTokenId : Nat) : Bool :=
  sequenceTokenId == 0 || decide (sequenceTokenId ∉ s.currentSequences)

/-- The number of the thread that the caller must create, or 0. -/
def prepareToStartAdditionalThreadIfHelpful : Nat × Inner :=
  if !s.shutdownCalled && !s.threadBeingCreated && decide (s.threads < s.maxThreads) &&
      s.waitingThreadCount == 0 &&
      s.pendingTasks.tasks.any fun t => s.isSequenceTokenRunnable t.sequenceTokenId then
    (s.threads + 1, { s with threadBeingCreated := true })
  else (0, s)

def canShutdown : Bool :=
  !s.threadBeingCreated && s.blockingShutdownThreadCount == 0 &&
    s.blockingShutdownPendingTaskCount == 0

/-! ### `PostTask` -/

/-- `PostTask` once the task may be posted. -/
def insertPending (c : PostCall) (timeToRun : Int) : SequencedTask × Nat × Inner :=
  let (token, s) := match c.optionalTokenName with
    | some name => s.lockedGetNamedTokenID name
    | none => (c.sequenceToken, s)
  let sequenced : SequencedTask :=
    ⟨c.task, token, s.nextSequenceTaskNumber, c.shutdownBehavior, timeToRun⟩
  let (createThreadId, s) := prepareToStartAdditionalThreadIfHelpful
    { s with
      nextSequenceTaskNumber := s.nextSequenceTaskNumber + 1
      pendingTasks := s.pendingTasks.insert sequenced
      blockingShutdownPendingTaskCount :=
        if sequenced.blocks then s.blockingShutdownPendingTaskCount + 1
        else s.blockingShutdownPendingTaskCount }
  (sequenced, createThreadId, s)

/-- `PostTask` with the lock held, `none` when it returns false. The calling thread is running a
task with the behaviour `running`, if it is one of the pool's that runs a task. -/
def postTask (running : Option WorkerShutdown) (c : PostCall) (timeToRun : Int) :
    Option (SequencedTask × Nat × Inner) :=
  if s.shutdownCalled then
    if c.shutdownBehavior ≠ .blockShutdown then none
    else if running.any (· ≠ .blockShutdown) then none
    else if s.maxBlockingTasksAfterShutdown ≤ 0 then none
    else some (insertPending
      { s with maxBlockingTasksAfterShutdown := s.maxBlockingTasksAfterShutdown - 1 } c timeToRun)
  else some (s.insertPending c timeToRun)

/-! ### The functions of `ThreadLoop` -/

def getWork (now : Int) : Work × Inner :=
  let w := scan s.isSequenceTokenRunnable s.shutdownCalled now s.pendingTasks.tasks
  (w, { s with
    pendingTasks := ⟨w.pending, s.pendingTasks.sorted.sublist (scan_scans _ _ _ _).sublist⟩
    blockingShutdownPendingTaskCount :=
      if w.status.task?.any (·.blocks) then s.blockingShutdownPendingTaskCount - 1
      else s.blockingShutdownPendingTaskCount })

def willRunWorkerTask (task : SequencedTask) : Nat × Inner :=
  prepareToStartAdditionalThreadIfHelpful
    { s with
      currentSequences :=
        if task.sequenceTokenId ≠ 0 then insert task.sequenceTokenId s.currentSequences
        else s.currentSequences
      blockingShutdownThreadCount :=
        if task.shutdownBehavior ≠ .continueOnShutdown then s.blockingShutdownThreadCount + 1
        else s.blockingShutdownThreadCount }

def didRunWorkerTask (task : SequencedTask) : Inner :=
  { s with
    blockingShutdownThreadCount :=
      if task.shutdownBehavior ≠ .continueOnShutdown then s.blockingShutdownThreadCount - 1
      else s.blockingShutdownThreadCount
    currentSequences :=
      if task.sequenceTokenId ≠ 0 then s.currentSequences.erase task.sequenceTokenId
      else s.currentSequences }

def addThread : Inner := { s with threadBeingCreated := false, threads := s.threads + 1 }

/-- `has_work_cv_.Wait` returns. -/
def stopWaiting : Inner := { s with waitingThreadCount := s.waitingThreadCount - 1 }

end Inner

/-! ## `ThreadLoop` -/

/-- Where a worker is. It holds the lock at none of these. -/
inductive WorkerPc where
  /-- It was created, and has not entered `ThreadLoop`. -/
  | starting
  /-- At the top of the loop. -/
  | looking
  /-- With a task, before `SignalHasWork`. -/
  | found (task : SequencedTask) (newThreadId : Nat) (deletes : List SequencedTask)
  /-- With a task, after `SignalHasWork`. -/
  | signalled (task : SequencedTask) (newThreadId : Nat) (deletes : List SequencedTask)
  | running (task : SequencedTask)
  | ran (task : SequencedTask)
  /-- It clears `delete_these_outside_lock` to look again. -/
  | deleting (deletes : List SequencedTask)
  /-- In `has_work_cv_.Wait`, or in `TimedWait` until this time. -/
  | waiting (deadline : Option Int)
  | woken
  | leaving (deletes : List SequencedTask)
  /-- Before `can_shutdown_cv_.Signal`. -/
  | left
  | exited
  deriving DecidableEq, Repr

/-- A pass of the loop, from `GetWork` to where the lock is released. -/
def Inner.threadLoop (s : Inner) (now : Int) : Inner × WorkerPc :=
  let (w, s) := s.getWork now
  match w.status with
  | .found task =>
    let (newThreadId, s) := s.willRunWorkerTask task
    (s, .found task newThreadId w.deleteTheseOutsideLock)
  | status =>
    if s.shutdownCalled && s.blockingShutdownPendingTaskCount == 0 then
      (s, .leaving w.deleteTheseOutsideLock)
    else if w.deleteTheseOutsideLock.length ≠ 0 then (s, .deleting w.deleteTheseOutsideLock)
    else
      ({ s with waitingThreadCount := s.waitingThreadCount + 1 },
        .waiting (match status with | .wait time => some time | _ => none))

/-- What a worker does first when it takes the lock, if it is at a place where it does. -/
def WorkerPc.enters (s : Inner) : WorkerPc → Option Inner
  | starting => some s.addThread
  | looking => some s
  | woken => some s.stopWaiting
  | ran task => some (s.didRunWorkerTask task)
  | _ => none

/-! ## What `PostTask` does -/

namespace Inner

/-- `PrepareToStartAdditionalThreadIfHelpful` writes one flag. -/
theorem prepare_eq (s : Inner) : ∃ b, (s.threadBeingCreated = true → b = true) ∧
    s.prepareToStartAdditionalThreadIfHelpful.2 = { s with threadBeingCreated := b } := by
  unfold prepareToStartAdditionalThreadIfHelpful
  split
  · exact ⟨true, fun _ => rfl, rfl⟩
  · exact ⟨s.threadBeingCreated, id, rfl⟩

/-- The state in which `t` is among the pending tasks. -/
def withPending (s : Inner) (last : Nat) (names : List (String × Nat)) (t : SequencedTask) :
    Inner :=
  { s with
    lastSequenceNumber := last
    namedSequenceTokens := names
    nextSequenceTaskNumber := s.nextSequenceTaskNumber + 1
    pendingTasks := s.pendingTasks.insert t
    blockingShutdownPendingTaskCount :=
      if t.blocks then s.blockingShutdownPendingTaskCount + 1
      else s.blockingShutdownPendingTaskCount }

theorem lockedGetNamedTokenID_eq (s : Inner) (name : String) : ∃ last names,
    (s.lockedGetNamedTokenID name).2 =
      { s with lastSequenceNumber := last, namedSequenceTokens := names } := by
  unfold lockedGetNamedTokenID
  split
  · exact ⟨_, _, rfl⟩
  · exact ⟨_, _, rfl⟩

/-- A task is inserted with the next number, and a thread is created if it helps. -/
theorem insertPending_eq (s : Inner) (c : PostCall) (timeToRun : Int) : ∃ token last names,
    let t : SequencedTask :=
      ⟨c.task, token, s.nextSequenceTaskNumber, c.shutdownBehavior, timeToRun⟩
    s.insertPending c timeToRun =
      (t, (s.withPending last names t).prepareToStartAdditionalThreadIfHelpful) := by
  unfold insertPending
  cases c.optionalTokenName with
  | none => exact ⟨_, _, _, rfl⟩
  | some name =>
    obtain ⟨last, names, hs⟩ := s.lockedGetNamedTokenID_eq name
    dsimp only
    rw [hs]
    exact ⟨_, _, _, rfl⟩

/-- `PostTask` refuses, or it inserts the task into what differs by the budget only. -/
theorem postTask_eq {s : Inner} {running : Option WorkerShutdown} {c : PostCall} {timeToRun : Int}
    {r : SequencedTask × Nat × Inner} (h : s.postTask running c timeToRun = some r) :
    (s.shutdownCalled = false ∧ r = s.insertPending c timeToRun) ∨
    (s.shutdownCalled = true ∧ c.shutdownBehavior = .blockShutdown ∧
      (∀ b ∈ running, b = .blockShutdown) ∧ 0 < s.maxBlockingTasksAfterShutdown ∧
      r = insertPending
        { s with maxBlockingTasksAfterShutdown := s.maxBlockingTasksAfterShutdown - 1 } c
        timeToRun) := by
  unfold postTask at h
  split_ifs at h with h1 h2 h3 h4
  · cases h
    refine .inr ⟨h1, by simpa using h2, ?_, Nat.not_le.mp h4, rfl⟩
    intro b hb
    rw [Option.mem_def] at hb
    simpa [hb] using h3
  · cases h
    exact .inl ⟨by simpa using h1, rfl⟩

/-- What `PostTask` does when it accepts a task. -/
structure Accepts (s : Inner) (c : PostCall) (timeToRun : Int) (t : SequencedTask) (n : Nat)
    (s' : Inner) : Prop where
  /-- The task is inserted, and a thread is created if it helps. -/
  inserts : ∃ last names budget,
    (s.shutdownCalled = true → budget + 1 = s.maxBlockingTasksAfterShutdown) ∧
    (n, s') = prepareToStartAdditionalThreadIfHelpful
      { s.withPending last names t with maxBlockingTasksAfterShutdown := budget }
  number : t.sequenceTaskNumber = s.nextSequenceTaskNumber
  behavior : t.shutdownBehavior = c.shutdownBehavior
  time : t.timeToRun = timeToRun
  blocks : s.shutdownCalled = true → t.shutdownBehavior = .blockShutdown

theorem postTask_accepts {s s' : Inner} {running : Option WorkerShutdown} {c : PostCall}
    {timeToRun : Int} {t : SequencedTask} {n : Nat}
    (h : s.postTask running c timeToRun = some (t, n, s')) : s.Accepts c timeToRun t n s' := by
  have key : ∀ budget,
      (t, n, s') = insertPending { s with maxBlockingTasksAfterShutdown := budget } c timeToRun →
      (s.shutdownCalled = true → budget + 1 = s.maxBlockingTasksAfterShutdown) →
      (s.shutdownCalled = true → c.shutdownBehavior = .blockShutdown) →
      s.Accepts c timeToRun t n s' := by
    intro budget hr hbudget hblocks
    obtain ⟨token, last, names, hs⟩ :=
      insertPending_eq { s with maxBlockingTasksAfterShutdown := budget } c timeToRun
    have ht := congrArg Prod.fst (hr.trans hs)
    have hs' := congrArg Prod.snd (hr.trans hs)
    dsimp only at ht hs'
    subst ht
    exact ⟨⟨last, names, budget, hbudget, hs'⟩, rfl, rfl, rfl, hblocks⟩
  rcases postTask_eq h with ⟨hno, hr⟩ | ⟨-, hblock, -, hmax, hr⟩
  · exact key s.maxBlockingTasksAfterShutdown hr (by simp [hno]) (by simp [hno])
  · exact key _ hr (fun _ => Nat.sub_add_cancel hmax) fun _ => hblock

theorem Accepts.eq {s s' : Inner} {c : PostCall} {timeToRun : Int} {t : SequencedTask} {n : Nat}
    (h : s.Accepts c timeToRun t n s') : ∃ last names budget b,
    s' = { s.withPending last names t with
      maxBlockingTasksAfterShutdown := budget, threadBeingCreated := b } ∧
    (s.shutdownCalled = true → budget + 1 = s.maxBlockingTasksAfterShutdown) ∧
    (s.threadBeingCreated = true → b = true) := by
  obtain ⟨last, names, budget, hbudget, hs⟩ := h.inserts
  obtain ⟨b, hb, hprepare⟩ := prepare_eq
    { s.withPending last names t with maxBlockingTasksAfterShutdown := budget }
  exact ⟨last, names, budget, b, (congrArg Prod.snd hs).trans hprepare, hbudget, hb⟩

end Inner

/-! ## What a pass does -/

/-- Where a pass of the loop that begins at `s` can end. -/
inductive Passes (s : Inner) (now : Int) : Inner → WorkerPc → Prop where
  | found {task : SequencedTask} : (s.getWork now).1.status = .found task →
      Passes s now ((s.getWork now).2.willRunWorkerTask task).2
        (.found task ((s.getWork now).2.willRunWorkerTask task).1
          (s.getWork now).1.deleteTheseOutsideLock)
  | leaves : (s.getWork now).1.status.task? = none → s.shutdownCalled = true →
      (s.getWork now).2.blockingShutdownPendingTaskCount = 0 →
      Passes s now (s.getWork now).2 (.leaving (s.getWork now).1.deleteTheseOutsideLock)
  | deletes : (s.getWork now).1.status.task? = none →
      (s.shutdownCalled = true → (s.getWork now).2.blockingShutdownPendingTaskCount ≠ 0) →
      Passes s now (s.getWork now).2 (.deleting (s.getWork now).1.deleteTheseOutsideLock)
  | waits {deadline : Option Int} :
      (s.getWork now).1.status = .notFound ∧ deadline = none ∨
        (∃ time, (s.getWork now).1.status = .wait time ∧ deadline = some time) →
      (s.shutdownCalled = true → (s.getWork now).2.blockingShutdownPendingTaskCount ≠ 0) →
      (s.getWork now).1.deleteTheseOutsideLock = [] →
      Passes s now
        { (s.getWork now).2 with waitingThreadCount := s.waitingThreadCount + 1 }
        (.waiting deadline)

theorem Inner.threadLoop_passes (s : Inner) (now : Int) :
    Passes s now (s.threadLoop now).1 (s.threadLoop now).2 := by
  have hshutdown : (s.getWork now).2.shutdownCalled = s.shutdownCalled := rfl
  unfold threadLoop
  dsimp only
  split
  · next task hstatus => exact .found hstatus
  · next hstatus =>
    have htask : (s.getWork now).1.status.task? = none := by
      cases h : (s.getWork now).1.status with
      | found task => exact absurd h (hstatus task)
      | notFound | wait => rfl
    split
    · next hleave =>
      rw [Bool.and_eq_true, beq_iff_eq, hshutdown] at hleave
      exact .leaves htask hleave.1 hleave.2
    · next hstay =>
      rw [Bool.and_eq_true, beq_iff_eq, hshutdown, not_and] at hstay
      split
      · exact .deletes htask hstay
      · next hdeletes =>
        refine .waits ?_ hstay (by simpa using hdeletes)
        cases h : (s.getWork now).1.status with
        | found task => exact absurd h (hstatus task)
        | notFound => exact .inl ⟨rfl, rfl⟩
        | wait time => exact .inr ⟨time, rfl, rfl⟩

end Mdgate.Pool
