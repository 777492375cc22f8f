import Mdgate.Content.BrowserThreadId
import Mdgate.Content.StartupTaskRunner

/-!
# Startup and teardown of the browser

`BrowserMainRunnerImpl` over one `BrowserMainLoop`. The embedder's
`BrowserMainParts` are arbitrary code: what `PreCreateThreads` and
`MainMessageLoopRun` return may depend on everything that has happened. A
`LOG(FATAL)` ends the process, after which nothing is observed any more.

`BrowserMainLoop`'s constructor initialises `result_code_` but not
`created_threads_`, which starts as the byte the loop was allocated on.
-/

namespace Mdgate.Content

/-! ## What is observed -/

/-- The callbacks of `BrowserMainParts`. -/
inductive Stage where
  | preEarlyInitialization | postEarlyInitialization | toolkitInitialized
  | preMainMessageLoopStart | postMainMessageLoopStart | preCreateThreads
  | preMainMessageLoopRun | mainMessageLoopRun | postMainMessageLoopRun | postDestroyThreads
  deriving DecidableEq, Repr

def Stage.index : Stage → Nat
  | preEarlyInitialization => 0
  | postEarlyInitialization => 1
  | toolkitInitialized => 2
  | preMainMessageLoopStart => 3
  | postMainMessageLoopStart => 4
  | preCreateThreads => 5
  | preMainMessageLoopRun => 6
  | mainMessageLoopRun => 7
  | postMainMessageLoopRun => 8
  | postDestroyThreads => 9

inductive Event where
  | stage (s : Stage)
  | created (id : ID)
  | threadsCreated
  | destroyed (id : ID)
  deriving DecidableEq, Repr

/-- The embedder's parts, over the trace up to the call. -/
structure BrowserMainParts where
  preCreateThreads : List Event → Int
  /-- Whether the message loop was run, and `*result_code`. -/
  mainMessageLoopRun : List Event → Int → Bool × Int

/-- What the code gets from outside. -/
structure Environment where
  parts : BrowserMainParts
  /-- The byte `created_threads_` is allocated on. -/
  memory : UInt8
  initCommonControlsEx : Bool
  startWithOptions : ID → Bool

/-- The startup tasks that `CreateStartupTasks` adds. -/
inductive StartupTask where
  | preCreateThreads | createThreads | browserThreadsStarted | preMainMessageLoopRun
  deriving DecidableEq, Repr

/-- The members of `BrowserMainRunnerImpl` and of its `main_loop_`, and what was observed. -/
structure Browser where
  initializationStarted : Bool
  isShutdown : Bool
  resultCode : Int
  createdThreads : Bool
  /-- The task list of `startup_task_runner_`, once it exists. -/
  startupTaskRunner : Option (List StartupTask)
  threads : List ID
  fatal : Bool
  trace : List Event

namespace Browser

/-- A new runner. -/
def new : Browser := ⟨false, false, 0, false, none, [], false, []⟩

def emit (b : Browser) (e : Event) : Browser :=
  if b.fatal then b else { b with trace := b.trace ++ [e] }

def notify (b : Browser) (s : Stage) : Browser := b.emit (.stage s)

variable (env : Environment)

/-! ## `BrowserMainLoop` -/

def newMainLoop (b : Browser) : Browser :=
  { b with
    resultCode := 0
    createdThreads := env.memory != 0
    startupTaskRunner := none
    threads := [] }

def earlyInitialization (b : Browser) : Browser :=
  (b.notify .preEarlyInitialization).notify .postEarlyInitialization

def initializeToolkit (b : Browser) : Browser × Bool :=
  let b := if env.initCommonControlsEx then b else { b with fatal := true }
  (b.notify .toolkitInitialized, true)

def mainMessageLoopStart (b : Browser) : Browser :=
  (b.notify .preMainMessageLoopStart).notify .postMainMessageLoopStart

def preCreateThreads (b : Browser) : Int × Browser :=
  let b := b.notify .preCreateThreads
  let b := { b with resultCode := env.parts.preCreateThreads b.trace }
  (b.resultCode, b)

/-- The body of `CreateThreads`' loop. -/
def createThread (b : Browser) (id : ID) : Browser :=
  if b.fatal then b
  else
    let b := { b with threads := b.threads ++ [id] }
    if env.startWithOptions id then b.emit (.created id) else { b with fatal := true }

def createThreads (b : Browser) : Int × Browser :=
  let b := ID.subThreads.foldl (createThread env) b
  let b := { b with createdThreads := true }.emit .threadsCreated
  (b.resultCode, b)

def preMainMessageLoopRun (b : Browser) : Int × Browser :=
  (b.resultCode, b.notify .preMainMessageLoopRun)

def runStartupTask : StartupTask → Browser → Int × Browser
  | .preCreateThreads, b => b.preCreateThreads env
  | .createThreads, b => b.createThreads env
  | .browserThreadsStarted, b => (b.resultCode, b)
  | .preMainMessageLoopRun, b => b.preMainMessageLoopRun

def createStartupTasks (b : Browser) : Browser :=
  let tasks := b.startupTaskRunner.getD
    [.preCreateThreads, .createThreads, .browserThreadsStarted, .preMainMessageLoopRun]
  let r := (StartupTaskRunner.new tasks false b).runAllTasksNow (runStartupTask env) fun _ b => b
  { r.world with startupTaskRunner := some r.taskList }

def runMainMessageLoopParts (b : Browser) : Browser :=
  let b := b.notify .mainMessageLoopRun
  { b with resultCode := (env.parts.mainMessageLoopRun b.trace b.resultCode).2 }

/-- `ResetThread_*`: destroys the thread, if the member is set. -/
def resetThread (b : Browser) (id : ID) : Browser :=
  if id ∈ b.threads then { b with threads := b.threads.erase id }.emit (.destroyed id) else b

def shutdownThreadsAndCleanUp (b : Browser) : Browser :=
  if !b.createdThreads then b
  else
    (ID.subThreads.reverse.foldl resetThread (b.notify .postMainMessageLoopRun)).notify
      .postDestroyThreads

/-- `~BrowserMainLoop`: the thread members in the reverse order of their declarations. -/
def deleteMainLoop (b : Browser) : Browser :=
  [ID.io, .cache, .processLauncher, .file, .fileUserBlocking, .db].foldl resetThread b

/-! ## `BrowserMainRunnerImpl` -/

def initializeRunner (b : Browser) : Browser × Int :=
  let r : Browser × Bool :=
    if b.initializationStarted then (b, true)
    else
      let b := { b with initializationStarted := true }.newMainLoop env
      let r := b.earlyInitialization.initializeToolkit env
      if r.2 then (r.1.mainMessageLoopStart, true) else (r.1, false)
  if r.2 then
    let b := r.1.createStartupTasks env
    (b, if b.resultCode > 0 then b.resultCode else -1)
  else (r.1, 1)

def run (b : Browser) : Browser := b.runMainMessageLoopParts env

def shutdown (b : Browser) : Browser :=
  { b.shutdownThreadsAndCleanUp.deleteMainLoop with isShutdown := true }

/-- `~BrowserMainRunnerImpl`. -/
def destruct (b : Browser) : Browser :=
  if b.initializationStarted && !b.isShutdown then b.shutdown else b

/-- `n + 1` calls of `Initialize`, with the last result. -/
def initializeCalls : Nat → Browser → Browser × Int
  | 0, b => b.initializeRunner env
  | n + 1, b => initializeCalls n (b.initializeRunner env).1

/-- A runner's life: `n + 1` calls of `Initialize`, `Run` if it is to be called and
`Initialize` returned -1, `Shutdown` if it is to be called, and the destructor. -/
def life (n : Nat) (runs shuts : Bool) : Browser :=
  let r := initializeCalls env n new
  let b := if runs && r.2 == -1 then r.1.run env else r.1
  (if shuts then b.shutdown else b).destruct

end Browser

/-! ## Pairing -/

def stages (t : List Event) : List Stage :=
  t.filterMap fun | .stage s => some s | _ => none

def createdThreads (t : List Event) : List ID :=
  t.filterMap fun | .created id => some id | _ => none

def Event.isTeardown : Event → Bool
  | .stage .postMainMessageLoopRun | .stage .postDestroyThreads | .destroyed _ => true
  | _ => false

/-- Each callback at most once and in stage order; the teardown, in full and with
the threads in the reverse order of creation, if and only if `CreateThreads`
ran to completion. -/
structure Paired (t : List Event) : Prop where
  ordered : (stages t).Pairwise fun a b => a.index < b.index
  teardown : t.filter Event.isTeardown =
    if .threadsCreated ∈ t then
      .stage .postMainMessageLoopRun :: (createdThreads t).reverse.map .destroyed ++
        [.stage .postDestroyThreads]
    else []

namespace Browser

variable {env : Environment}

/-! ## A process that has died -/

def Died (b b' : Browser) : Prop := b.fatal = true → b'.fatal = true ∧ b'.trace = b.trace

theorem Died.rfl {b : Browser} : Died b b := fun h => ⟨h, Eq.refl _⟩

theorem Died.trans {a b c : Browser} (h1 : Died a b) (h2 : Died b c) : Died a c := fun h =>
  ⟨(h2 (h1 h).1).1, (h2 (h1 h).1).2.trans (h1 h).2⟩

theorem Died.foldl {f : Browser → ID → Browser} (hf : ∀ b id, Died b (f b id)) (ids : List ID)
    (b : Browser) : Died b (ids.foldl f b) := by
  induction ids generalizing b with
  | nil => exact .rfl
  | cons id ids ih => exact (hf b id).trans (ih _)

theorem emit_died (b : Browser) (e : Event) : Died b (b.emit e) := fun h => by simp [emit, h]

theorem resetThread_died (b : Browser) (id : ID) : Died b (b.resetThread id) := by
  unfold resetThread
  split
  · exact fun h => by simp [emit, h]
  · exact .rfl

theorem run_died (env : Environment) (b : Browser) : Died b (b.run env) := fun h => by
  simp [run, runMainMessageLoopParts, notify, emit, h]

theorem resetThreads_died (ids : List ID) (b : Browser) : Died b (ids.foldl resetThread b) :=
  .foldl resetThread_died ids b

theorem shutdownThreadsAndCleanUp_died (b : Browser) : Died b b.shutdownThreadsAndCleanUp := by
  unfold shutdownThreadsAndCleanUp notify
  split
  · exact .rfl
  · refine Died.trans ?_ (emit_died _ _)
    exact (emit_died b _).trans (resetThreads_died _ _)

theorem shutdown_died (b : Browser) : Died b b.shutdown := fun h => by
  have h1 := (shutdownThreadsAndCleanUp_died b).trans (resetThreads_died
    [ID.io, .cache, .processLauncher, .file, .fileUserBlocking, .db] _) h
  simpa only [shutdown, deleteMainLoop] using h1

/-! ## What `Initialize` comes to -/

def beforeThreads : List Event :=
  [.stage .preEarlyInitialization, .stage .postEarlyInitialization, .stage .toolkitInitialized,
    .stage .preMainMessageLoopStart, .stage .postMainMessageLoopStart, .stage .preCreateThreads]

theorem createStartupTasks_eq (env : Environment) (b : Browser) : b.createStartupTasks env =
    { (StartupTaskRunner.runTasks (runStartupTask env) (b.startupTaskRunner.getD
        [.preCreateThreads, .createThreads, .browserThreadsStarted, .preMainMessageLoopRun])
        0 b).2.1 with startupTaskRunner := some [] } := by
  simp [createStartupTasks, StartupTaskRunner.runAllTasksNow, StartupTaskRunner.runCallback,
    StartupTaskRunner.new]

theorem foldl_createThread_fatal (ids : List ID) {b : Browser} (hb : b.fatal = true) :
    ids.foldl (createThread env) b = b := by
  induction ids with
  | nil => rfl
  | cons id ids ih =>
    rw [List.foldl_cons, show b.createThread env id = b by simp [createThread, hb], ih]

/-- The loop of `CreateThreads` starts all the threads, or the process dies on the way. -/
theorem foldl_createThread (env : Environment) (ids : List ID) {b : Browser}
    (hb : b.fatal = false) :
    ids.foldl (createThread env) b =
        { b with threads := b.threads ++ ids, trace := b.trace ++ ids.map .created } ∨
      ∃ ts ran, ids.foldl (createThread env) b =
        { b with threads := ts, fatal := true, trace := b.trace ++ List.map .created ran } := by
  induction ids generalizing b with
  | nil => exact .inl (by simp)
  | cons id ids ih =>
    rw [List.foldl_cons]
    by_cases hs : env.startWithOptions id = true
    · have hc : b.createThread env id =
          { b with threads := b.threads ++ [id], trace := b.trace ++ [.created id] } := by
        simp [createThread, hb, hs, emit]
      rw [hc]
      rcases ih (b := { b with
          threads := b.threads ++ [id], trace := b.trace ++ [.created id] }) hb with
        h | ⟨ts, ran, h⟩
      · exact .inl (by simp [h])
      · exact .inr ⟨ts, id :: ran, by simp [h]⟩
    · have hc : b.createThread env id = { b with threads := b.threads ++ [id], fatal := true } := by
        simp [createThread, hb, hs]
      exact .inr ⟨b.threads ++ [id], [], by rw [hc, foldl_createThread_fatal _ rfl]; simp⟩

theorem createThreads_spec (env : Environment) {b : Browser} (hb : b.fatal = false) :
    (b.createThreads env).2 =
        { b with
          createdThreads := true
          threads := b.threads ++ ID.subThreads
          trace := b.trace ++ ID.subThreads.map .created ++ [.threadsCreated] } ∨
      ∃ ts ran, (b.createThreads env).2 =
        { b with
          createdThreads := true
          threads := ts
          fatal := true
          trace := b.trace ++ List.map .created ran } := by
  rcases foldl_createThread env ID.subThreads hb with h | ⟨ts, ran, h⟩
  · exact .inl (by simp [createThreads, h, emit, hb])
  · exact .inr ⟨ts, ran, by simp [createThreads, h, emit]⟩

/-- What calls of `Initialize` leave. -/
inductive Outcome (env : Environment) (b : Browser) : Prop where
  | died : b.fatal = true →
      (¬ env.initCommonControlsEx ∧ b.trace = beforeThreads.take 2 ∨
        env.parts.preCreateThreads beforeThreads ≤ 0 ∧
          ∃ ids, b.trace = beforeThreads ++ List.map .created ids) → Outcome env b
  | failed : b.fatal = false → env.initCommonControlsEx →
      b.resultCode = env.parts.preCreateThreads beforeThreads → 0 < b.resultCode →
      b.createdThreads = (env.memory != 0) → b.threads = [] → b.trace = beforeThreads →
      Outcome env b
  | started : b.fatal = false → b.resultCode = env.parts.preCreateThreads beforeThreads →
      b.resultCode ≤ 0 → b.createdThreads = true → b.threads = ID.subThreads →
      b.trace = beforeThreads ++ ID.subThreads.map .created ++
        [.threadsCreated, .stage .preMainMessageLoopRun] →
      Outcome env b

structure Initialized (env : Environment) (b : Browser) : Prop where
  initializationStarted : b.initializationStarted = true
  isShutdown : b.isShutdown = false
  startupTaskRunner : b.startupTaskRunner = some []
  outcome : Outcome env b

/-- The runner after the first part of `Initialize`, on a working toolkit. -/
def beforeTasks (env : Environment) : Browser :=
  ⟨true, false, 0, env.memory != 0, none, [], false, beforeThreads.take 5⟩

theorem createStartupTasks_spec (hi : env.initCommonControlsEx = true) :
    Initialized env ((beforeTasks env).createStartupTasks env) := by
  rw [createStartupTasks_eq]
  by_cases hp : env.parts.preCreateThreads beforeThreads > 0
  · have hrun := @StartupTaskRunner.runTasks_stop _ _ (runStartupTask env) .preCreateThreads
      [.createThreads, .browserThreadsStarted, .preMainMessageLoopRun] (beforeTasks env) (.inl hp) 0
    simp only [beforeTasks, Option.getD_none] at hrun ⊢
    rw [hrun]
    exact ⟨rfl, rfl, rfl, .failed rfl hi rfl hp rfl rfl rfl⟩
  · have hle : env.parts.preCreateThreads beforeThreads ≤ 0 := by omega
    let b1 : Browser := { beforeTasks env with
      resultCode := env.parts.preCreateThreads beforeThreads, trace := beforeThreads }
    have h1 : (runStartupTask env .preCreateThreads (beforeTasks env)).2 = b1 := rfl
    have hnone : (beforeTasks env).startupTaskRunner = none := rfl
    rw [hnone, Option.getD_none, StartupTaskRunner.runTasks_world h1 hle]
    have hspec := createThreads_spec env (b := b1) rfl
    have hr2 : (createThreads env b1).2.resultCode ≤ 0 := by
      rcases hspec with h2 | ⟨ts, ran, h2⟩
      · rw [h2]; exact hle
      · rw [h2]; exact hle
    have h2 : (runStartupTask env .createThreads b1).2 = (createThreads env b1).2 := rfl
    rw [StartupTaskRunner.runTasks_world h2 hr2]
    generalize hb2 : (createThreads env b1).2 = b2 at hspec hr2
    have h3 : (runStartupTask env .browserThreadsStarted b2).2 = b2 := rfl
    have h4 : (runStartupTask env .preMainMessageLoopRun b2).2 = b2.notify .preMainMessageLoopRun :=
      rfl
    rw [StartupTaskRunner.runTasks_world h3 hr2, StartupTaskRunner.runTasks_world h4 hr2]
    rcases hspec with rfl | ⟨ts, ran, rfl⟩
    · refine ⟨rfl, rfl, rfl, .started rfl rfl hle rfl rfl ?_⟩
      simp [StartupTaskRunner.runTasks, notify, emit, b1, beforeTasks]
    · exact ⟨rfl, rfl, rfl, .died rfl (.inr ⟨hle, ran, rfl⟩)⟩

theorem createStartupTasks_fatal {b : Browser} (hb : b.fatal = true)
    (hn : b.startupTaskRunner = none) : ∃ r c, b.createStartupTasks env =
      { b with resultCode := r, createdThreads := c, startupTaskRunner := some [] } := by
  rw [createStartupTasks_eq, hn, Option.getD_none]
  by_cases hp : env.parts.preCreateThreads b.trace > 0
  · refine ⟨env.parts.preCreateThreads b.trace, b.createdThreads, ?_⟩
    simp [StartupTaskRunner.runTasks, runStartupTask, preCreateThreads, notify, emit, hb, hp]
  · refine ⟨env.parts.preCreateThreads b.trace, true, ?_⟩
    simp [StartupTaskRunner.runTasks, runStartupTask, preCreateThreads, notify, emit, hb, hp,
      createThreads, foldl_createThread_fatal, preMainMessageLoopRun]

theorem initializeRunner_result (env : Environment) (b : Browser) :
    (b.initializeRunner env).2 =
      if (b.initializeRunner env).1.resultCode > 0 then (b.initializeRunner env).1.resultCode
      else -1 := by
  cases hb : b.initializationStarted <;> simp [initializeRunner, hb, initializeToolkit]

theorem initializeRunner_new (env : Environment) :
    Initialized env (new.initializeRunner env).1 := by
  by_cases hi : env.initCommonControlsEx = true
  · have h : (new.initializeRunner env).1 = (beforeTasks env).createStartupTasks env := by
      simp [initializeRunner, initializeToolkit, hi, new, newMainLoop, earlyInitialization, notify,
        emit, mainMessageLoopStart, beforeTasks, beforeThreads]
    exact h ▸ createStartupTasks_spec hi
  · let b0 : Browser := ⟨true, false, 0, env.memory != 0, none, [], true, beforeThreads.take 2⟩
    have h : (new.initializeRunner env).1 = b0.createStartupTasks env := by
      simp [initializeRunner, initializeToolkit, hi, new, newMainLoop, earlyInitialization, notify,
        emit, mainMessageLoopStart, beforeThreads, b0]
    obtain ⟨r, c, h0⟩ := @createStartupTasks_fatal env b0 rfl rfl
    rw [h, h0]
    exact ⟨rfl, rfl, rfl, .died rfl (.inl ⟨hi, rfl⟩)⟩

/-- Later calls of `Initialize` find nothing left to do. -/
theorem Initialized.again {b : Browser} (h : Initialized env b) :
    (b.initializeRunner env).1 = b := by
  obtain ⟨hs, -, hr, -⟩ := h
  simp only [initializeRunner, hs, if_true, createStartupTasks_eq, hr, Option.getD_some,
    StartupTaskRunner.runTasks]
  obtain ⟨_, _, _, _, _, _, _, _⟩ := b
  simp_all

theorem Initialized.calls {b : Browser} (h : Initialized env b) (n : Nat) :
    initializeCalls env n b = b.initializeRunner env := by
  induction n generalizing b with
  | zero => rfl
  | succ n ih => rw [initializeCalls, h.again, ih h]

theorem initializeCalls_new (env : Environment) (n : Nat) :
    (initializeCalls env n new).1 = (new.initializeRunner env).1 ∧
      (initializeCalls env n new).2 = (new.initializeRunner env).2 := by
  have h := initializeRunner_new env
  cases n with
  | zero => exact ⟨rfl, rfl⟩
  | succ n =>
    rw [initializeCalls, h.calls, initializeRunner_result, initializeRunner_result, h.again]
    exact ⟨rfl, rfl⟩

/-! ## The whole life -/

/-- `Shutdown` is called once, by the caller or by the destructor. -/
theorem destruct_eq {b : Browser} (hs : b.initializationStarted = true) (hd : b.isShutdown = false)
    (shuts : Bool) : (if shuts then b.shutdown else b).destruct = b.shutdown := by
  cases shuts
  · simp [destruct, hs, hd]
  · simp [destruct, shutdown]

/-- What is observed of a teardown of a browser that has started. -/
def teardownEvents : List Event :=
  .stage .postMainMessageLoopRun :: (ID.subThreads.reverse.map .destroyed ++
    [.stage .postDestroyThreads])

theorem shutdown_failed {b : Browser} (hf : b.fatal = false) (ht : b.threads = []) :
    b.shutdown.trace = b.trace ++ if b.createdThreads then
      [.stage .postMainMessageLoopRun, .stage .postDestroyThreads] else [] := by
  obtain ⟨_, _, _, c, _, _, _, _⟩ := b
  subst hf ht
  cases c <;> simp [shutdown, shutdownThreadsAndCleanUp, deleteMainLoop, resetThread, notify, emit,
    ID.subThreads, ID.all]

theorem shutdown_started {b : Browser} (hf : b.fatal = false) (ht : b.threads = ID.subThreads)
    (hc : b.createdThreads = true) : b.shutdown.trace = b.trace ++ teardownEvents := by
  obtain ⟨_, _, _, _, _, _, _, _⟩ := b
  subst hf ht hc
  simp [shutdown, shutdownThreadsAndCleanUp, deleteMainLoop, resetThread, notify, emit,
    ID.subThreads, ID.all, teardownEvents]

@[simp] theorem emit_initializationStarted (b : Browser) (e : Event) :
    (b.emit e).initializationStarted = b.initializationStarted := by
  unfold emit; split <;> rfl

@[simp] theorem emit_isShutdown (b : Browser) (e : Event) :
    (b.emit e).isShutdown = b.isShutdown := by
  unfold emit; split <;> rfl

theorem life_cases (env : Environment) (n : Nat) (runs shuts : Bool) :
    (¬ env.initCommonControlsEx ∧ (life env n runs shuts).trace = beforeThreads.take 2) ∨
    (env.parts.preCreateThreads beforeThreads ≤ 0 ∧
      ∃ ids, (life env n runs shuts).trace = beforeThreads ++ List.map .created ids) ∨
    (env.initCommonControlsEx ∧ 0 < env.parts.preCreateThreads beforeThreads ∧
      (life env n runs shuts).trace = beforeThreads ++ if env.memory != 0 then
        [.stage .postMainMessageLoopRun, .stage .postDestroyThreads] else []) ∨
    (env.parts.preCreateThreads beforeThreads ≤ 0 ∧
      (life env n runs shuts).trace = beforeThreads ++ ID.subThreads.map .created ++
        [.threadsCreated, .stage .preMainMessageLoopRun] ++
        (if runs then [.stage .mainMessageLoopRun] else []) ++ teardownEvents) := by
  obtain ⟨h1, h2⟩ := initializeCalls_new env n
  obtain ⟨hs, hd, -, ho⟩ := initializeRunner_new env
  have hr := initializeRunner_result env new
  rw [← h1] at hs hd ho hr
  rw [← h2] at hr
  simp only [life]
  generalize (initializeCalls env n new).1 = b at *
  generalize (initializeCalls env n new).2 = r at *
  have hlast : ∀ c : Bool, (if shuts then (if c then b.run env else b).shutdown
      else if c then b.run env else b).destruct = (if c then b.run env else b).shutdown := by
    intro c
    refine destruct_eq ?_ ?_ shuts
    · cases c <;> simp [run, runMainMessageLoopParts, notify, hs]
    · cases c <;> simp [run, runMainMessageLoopParts, notify, hd]
  rw [hlast]
  cases ho with
  | died hf ht =>
    have hrun : Died b (if (runs && r == -1) = true then b.run env else b) := by
      split
      · exact run_died env b
      · exact .rfl
    rw [((hrun.trans (shutdown_died _)) hf).2]
    exact ht.imp id .inl
  | failed hf hi hp hpos hc hthr ht =>
    have hne : (runs && r == -1) = false := by
      rw [hr, if_pos hpos]
      simp; omega
    rw [hne]
    refine .inr (.inr (.inl ⟨hi, hp ▸ hpos, ?_⟩))
    rw [← ht, ← hc]
    exact shutdown_failed hf hthr
  | started hf hp hle hc hthr ht =>
    have heq : r = -1 := by rw [hr, if_neg (by omega)]
    refine .inr (.inr (.inr ⟨hp ▸ hle, ?_⟩))
    rw [← ht, heq]
    cases runs
    · simpa using shutdown_started hf hthr hc
    · have hb : (b.run env).trace = b.trace ++ [.stage .mainMessageLoopRun] := by
        simp [run, runMainMessageLoopParts, notify, emit, hf]
      have h := shutdown_started (b := b.run env)
        (by simp [run, runMainMessageLoopParts, notify, emit, hf])
        (by simp [run, runMainMessageLoopParts, notify, emit, hf, hthr])
        (by simp [run, runMainMessageLoopParts, notify, emit, hf, hc])
      rw [hb] at h
      simpa using h

end Browser

/-! ## Pairing of startup and teardown -/

open Mdgate.Content.Browser

/-- A life that ends before its threads are all created tears nothing down. -/
theorem paired_created (ids : List ID) : Paired (beforeThreads ++ List.map .created ids) := by
  have hstages : stages (List.map .created ids) = [] := by
    simp [stages]
  have hfilter : (List.map Event.created ids).filter Event.isTeardown = [] := by
    simp [List.filter_eq_nil_iff, Event.isTeardown]
  refine ⟨?_, ?_⟩
  · rw [stages, List.filterMap_append, ← stages, ← stages, hstages, List.append_nil]
    decide
  · rw [List.filter_append, hfilter, if_neg (by simp [beforeThreads])]
    rfl

theorem paired_started (runs : Bool) : Paired (beforeThreads ++ ID.subThreads.map .created ++
    [.threadsCreated, .stage .preMainMessageLoopRun] ++
    (if runs then [.stage .mainMessageLoopRun] else []) ++ teardownEvents) := by
  cases runs <;> exact ⟨by decide, by decide⟩

/-- **Startup and teardown are paired** exactly when the loop was allocated on a
zero byte or no failing `PreCreateThreads` was reached; and after a failing one
the threads are never created. -/
theorem life_paired_iff (env : Environment) (n : Nat) (runs shuts : Bool) :
    (Paired (life env n runs shuts).trace ↔ env.memory = 0 ∨ ¬ env.initCommonControlsEx ∨
      env.parts.preCreateThreads beforeThreads ≤ 0) ∧
    (0 < env.parts.preCreateThreads beforeThreads →
      .threadsCreated ∉ (life env n runs shuts).trace) := by
  rcases life_cases env n runs shuts with ⟨hi, ht⟩ | ⟨hp, ids, ht⟩ | ⟨hi, hp, ht⟩ | ⟨hp, ht⟩
  · rw [ht]
    have hpair : Paired (beforeThreads.take 2) := ⟨by decide, by decide⟩
    exact ⟨⟨fun _ => .inr (.inl hi), fun _ => hpair⟩, fun _ => by decide⟩
  · rw [ht]
    exact ⟨⟨fun _ => .inr (.inr hp), fun _ => paired_created ids⟩, fun h => absurd h (by omega)⟩
  · rw [ht]
    by_cases hm : env.memory = 0
    · simp only [hm, bne_self_eq_false]
      exact ⟨⟨fun _ => .inl trivial, fun _ => paired_created []⟩, fun _ => by decide⟩
    · have hm' : (env.memory != 0) = true := by simpa using hm
      simp only [hm', if_true]
      refine ⟨⟨fun h => absurd h.teardown (by decide), fun h => ?_⟩, fun _ => by decide⟩
      rcases h with h | h | h
      · exact absurd h hm
      · exact absurd hi h
      · omega
  · rw [ht]
    exact ⟨⟨fun _ => .inr (.inr hp), fun _ => paired_started runs⟩,
      fun h => absurd h (by omega)⟩

/-- `PreCreateThreads` fails over a byte of garbage. -/
theorem not_paired_garbage : ¬ ∀ env n runs shuts, Paired (life env n runs shuts).trace := by
  intro h
  have ht := (h ⟨⟨fun _ => 1, fun _ r => (false, r)⟩, 1, true, fun _ => true⟩ 0 true true).teardown
  revert ht
  decide

end Mdgate.Content
