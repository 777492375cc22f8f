import Mathlib.Data.List.Basic
import Mdgate.Lib.Machine

/-!
# `StartupTaskRunner`

Startup tasks run either all at once (`RunAllTasksNow`) or one at a time from
`WrappedTask` closures posted to the proxy. A task and the completion callback
are foreign code over a world `σ`: `run t` is the result of `t` and the world it
leaves, `complete` what the callback does with the final result.

`RunAllTasksNow` completes a startup from wherever it stands, and no step
changes what it would come to (`runAllTasksNow_step`); so every schedule that
empties the list has come to the same.
-/

namespace Mdgate.Content

open Mdgate.Lib

/-- What an observer sees of a startup. -/
inductive StartupEvent (ι : Type) where
  | ran (task : ι) (result : Int)
  | completed (result : Int)
  deriving DecidableEq

/-- The runner with its proxy and the world its tasks run in. -/
structure StartupTaskRunner (ι σ : Type) where
  taskList : List ι
  /-- `startup_complete_callback_` is not null. -/
  startupCompleteCallback : Bool
  /-- `WrappedTask` closures posted to the proxy and not yet executed. -/
  proxy : Nat
  world : σ
  trace : List (StartupEvent ι)

namespace StartupTaskRunner

variable {ι σ : Type}

/-- A runner to which `tasks` were added. -/
def new (tasks : List ι) (callback : Bool) (world : σ) : StartupTaskRunner ι σ :=
  ⟨tasks, callback, 0, world, []⟩

variable (run : ι → σ → Int × σ) (complete : Int → σ → σ)

/-- Run the callback, if it is not null, and reset it. -/
def runCallback (s : StartupTaskRunner ι σ) (result : Int) : StartupTaskRunner ι σ :=
  if s.startupCompleteCallback then
    { s with
      startupCompleteCallback := false
      world := complete result s.world
      trace := s.trace ++ [.completed result] }
  else s

def postWrappedTask (s : StartupTaskRunner ι σ) : StartupTaskRunner ι σ :=
  { s with proxy := s.proxy + 1 }

def startRunningTasksAsync (s : StartupTaskRunner ι σ) : StartupTaskRunner ι σ :=
  if s.taskList.isEmpty then s.runCallback complete 0 else s.postWrappedTask

/-- The loop of `RunAllTasksNow`: the last result, the world and what was run. -/
def runTasks : List ι → Int → σ → Int × σ × List (StartupEvent ι)
  | [], result, w => (result, w, [])
  | t :: ts, _, w =>
    let r := run t w
    if r.1 > 0 then (r.1, r.2, [.ran t r.1])
    else
      let q := runTasks ts r.1 r.2
      (q.1, q.2.1, .ran t r.1 :: q.2.2)

def runAllTasksNow (s : StartupTaskRunner ι σ) : StartupTaskRunner ι σ :=
  let r := runTasks run s.taskList 0 s.world
  { s with taskList := [], world := r.2.1, trace := s.trace ++ r.2.2 }.runCallback complete r.1

def wrappedTask (s : StartupTaskRunner ι σ) : StartupTaskRunner ι σ :=
  match s.taskList with
  | [] => s
  | t :: ts =>
    let r := run t s.world
    let s := { s with
      taskList := if r.1 > 0 then [] else ts
      world := r.2
      trace := s.trace ++ [StartupEvent.ran t r.1] }
    if s.taskList.isEmpty then s.runCallback complete r.1 else s.postWrappedTask

/-! ## Schedules -/

inductive Call where
  | startRunningTasksAsync
  | runAllTasksNow
  | wrappedTask
  deriving DecidableEq

def step (s : StartupTaskRunner ι σ) : Call → Option (StartupTaskRunner ι σ)
  | .startRunningTasksAsync => some (s.startRunningTasksAsync complete)
  | .runAllTasksNow => some (s.runAllTasksNow run complete)
  | .wrappedTask =>
    if 0 < s.proxy then some ({ s with proxy := s.proxy - 1 }.wrappedTask run complete) else none

def machine : Machine (StartupTaskRunner ι σ) Call where
  init s := ∃ tasks callback world, s = new tasks callback world
  step := step run complete

variable {run complete}

def observed (s : StartupTaskRunner ι σ) : List (StartupEvent ι) × σ := (s.trace, s.world)

/-- The list is empty and the callback has been run. -/
def Done (s : StartupTaskRunner ι σ) : Prop := s.taskList = [] ∧ s.startupCompleteCallback = false

@[simp] theorem runCallback_taskList (s : StartupTaskRunner ι σ) (r : Int) :
    (s.runCallback complete r).taskList = s.taskList := by
  unfold runCallback; split <;> rfl

@[simp] theorem runCallback_callback (s : StartupTaskRunner ι σ) (r : Int) :
    (s.runCallback complete r).startupCompleteCallback = false := by
  unfold runCallback; split <;> simp_all

theorem Done.runAllTasksNow {s : StartupTaskRunner ι σ} (h : s.Done) :
    s.runAllTasksNow run complete = s := by
  obtain ⟨tasks, callback, proxy, world, trace⟩ := s
  obtain ⟨rfl, rfl⟩ := h
  simp [StartupTaskRunner.runAllTasksNow, runTasks, runCallback]

theorem done_runAllTasksNow (s : StartupTaskRunner ι σ) : (s.runAllTasksNow run complete).Done := by
  constructor <;> simp [StartupTaskRunner.runAllTasksNow]

/-! ## `WrappedTask` is one step of `RunAllTasksNow` -/

theorem runTasks_stop {t : ι} {ts : List ι} {w : σ} (h : (run t w).1 > 0 ∨ ts = []) (r : Int) :
    runTasks run (t :: ts) r w = ((run t w).1, (run t w).2, [.ran t (run t w).1]) := by
  by_cases hr : (run t w).1 > 0
  · simp [runTasks, hr]
  · obtain rfl := h.resolve_left hr
    simp [runTasks, hr]

/-- Otherwise the loop goes on, and forgets the result. -/
theorem runTasks_continue {t : ι} {ts : List ι} {w : σ} (h : ¬ ((run t w).1 > 0 ∨ ts = []))
    (r : Int) : runTasks run (t :: ts) r w =
      ((runTasks run ts 0 (run t w).2).1, (runTasks run ts 0 (run t w).2).2.1,
        .ran t (run t w).1 :: (runTasks run ts 0 (run t w).2).2.2) := by
  obtain ⟨hr, hts⟩ := not_or.mp h
  cases ts with
  | nil => exact absurd rfl hts
  | cons t' ts => simp only [runTasks, hr, if_false]

/-- What a task leaves is what the rest of the loop starts from. -/
theorem runTasks_world {t : ι} {ts : List ι} {w w' : σ} (h : (run t w).2 = w')
    (hr : (run t w).1 ≤ 0) (r : Int) :
    (runTasks run (t :: ts) r w).2.1 = (runTasks run ts 0 w').2.1 := by
  subst h
  cases ts <;> simp [runTasks, Int.not_lt.mpr hr]

theorem wrappedTask_stop {s : StartupTaskRunner ι σ} {t : ι} {ts : List ι}
    (hs : s.taskList = t :: ts) (h : (run t s.world).1 > 0 ∨ ts = []) :
    s.wrappedTask run complete = { s with
      taskList := []
      world := (run t s.world).2
      trace := s.trace ++ [StartupEvent.ran t (run t s.world).1] }.runCallback complete
        (run t s.world).1 := by
  have hts : (if (run t s.world).1 > 0 then [] else ts) = [] := by
    split
    · rfl
    · exact h.resolve_left ‹_›
  simp [wrappedTask, hs, hts]

theorem wrappedTask_continue {s : StartupTaskRunner ι σ} {t : ι} {ts : List ι}
    (hs : s.taskList = t :: ts) (h : ¬ ((run t s.world).1 > 0 ∨ ts = [])) :
    s.wrappedTask run complete = { s with
      taskList := ts
      world := (run t s.world).2
      trace := s.trace ++ [StartupEvent.ran t (run t s.world).1] }.postWrappedTask := by
  obtain ⟨hr, hts⟩ := not_or.mp h
  simp [wrappedTask, hs, hr, hts]

theorem runAllTasksNow_wrappedTask (s : StartupTaskRunner ι σ) :
    ((s.wrappedTask run complete).runAllTasksNow run complete).observed =
      (s.runAllTasksNow run complete).observed := by
  cases hs : s.taskList with
  | nil => simp [wrappedTask, hs]
  | cons t ts =>
    by_cases h : (run t s.world).1 > 0 ∨ ts = []
    · have hd : (s.wrappedTask run complete).Done := by
        rw [wrappedTask_stop hs h]
        constructor <;> simp
      rw [hd.runAllTasksNow, wrappedTask_stop hs h]
      simp only [StartupTaskRunner.runAllTasksNow, hs, runTasks_stop h]
    · rw [wrappedTask_continue hs h]
      simp only [StartupTaskRunner.runAllTasksNow, hs, runTasks_continue h, postWrappedTask]
      cases s.startupCompleteCallback <;> simp [runCallback, observed]

theorem wrappedTask_done {s : StartupTaskRunner ι σ} (h : s.taskList = [] → s.Done)
    (he : (s.wrappedTask run complete).taskList = []) : (s.wrappedTask run complete).Done := by
  refine ⟨he, ?_⟩
  cases hs : s.taskList with
  | nil => simpa [wrappedTask, hs] using (h hs).2
  | cons t ts =>
    by_cases ht : (run t s.world).1 > 0 ∨ ts = []
    · simp [wrappedTask_stop hs ht]
    · rw [wrappedTask_continue hs ht] at he
      exact absurd (.inr he) ht

/-! ## Steps and schedules -/

theorem runAllTasksNow_step {s s' : StartupTaskRunner ι σ} {a : Call}
    (hst : step run complete s a = some s') :
    (s'.runAllTasksNow run complete).observed = (s.runAllTasksNow run complete).observed := by
  cases a with
  | startRunningTasksAsync =>
    obtain rfl := Option.some.inj hst
    obtain ⟨tasks, callback, proxy, world, trace⟩ := s
    cases tasks <;> cases callback <;>
      simp [startRunningTasksAsync, postWrappedTask, StartupTaskRunner.runAllTasksNow, runTasks,
        runCallback, observed]
  | runAllTasksNow =>
    obtain rfl := Option.some.inj hst
    rw [(done_runAllTasksNow s).runAllTasksNow]
  | wrappedTask =>
    obtain ⟨-, rfl⟩ := Machine.guard_eq_some hst
    rw [runAllTasksNow_wrappedTask]
    cases hc : s.startupCompleteCallback <;>
      simp [StartupTaskRunner.runAllTasksNow, runCallback, observed, hc]

/-- A closure is pending only for a startup that goes on or is done. -/
def Pending (s : StartupTaskRunner ι σ) : Prop := 0 < s.proxy → s.taskList = [] → s.Done

/-- After any call an empty list means that the startup is done. -/
theorem done_step {s s' : StartupTaskRunner ι σ} {a : Call} (h : s.Pending)
    (hst : step run complete s a = some s') (he : s'.taskList = []) : s'.Done := by
  cases a with
  | startRunningTasksAsync =>
    obtain rfl := Option.some.inj hst
    refine ⟨he, ?_⟩
    unfold startRunningTasksAsync at he ⊢
    split
    · exact runCallback_callback s 0
    · next hs => simp_all [postWrappedTask]
  | runAllTasksNow =>
    obtain rfl := Option.some.inj hst
    exact done_runAllTasksNow s
  | wrappedTask =>
    obtain ⟨hp, rfl⟩ := Machine.guard_eq_some hst
    exact wrappedTask_done (h hp) he

theorem exec_spec {s s' : StartupTaskRunner ι σ} {as : List Call} (h : s.Pending) (hne : as ≠ [])
    (hex : (machine run complete).exec s as = some s') :
    (s'.runAllTasksNow run complete).observed = (s.runAllTasksNow run complete).observed ∧
      (s'.taskList = [] → s'.Done) := by
  induction as generalizing s with
  | nil => exact absurd rfl hne
  | cons a as ih =>
    obtain ⟨t, ht, hex⟩ := Option.bind_eq_some_iff.mp hex
    have hobs := runAllTasksNow_step ht
    have hdone : t.taskList = [] → t.Done := done_step h ht
    cases as with
    | nil =>
      obtain rfl := Option.some.inj hex
      exact ⟨hobs, hdone⟩
    | cons b bs =>
      obtain ⟨h1, h2⟩ := ih (fun _ => hdone) (by simp) hex
      exact ⟨h1.trans hobs, h2⟩

theorem Done.step {s s' : StartupTaskRunner ι σ} {a : Call} (h : s.Done)
    (hst : StartupTaskRunner.step run complete s a = some s') :
    s'.Done ∧ s'.observed = s.observed := by
  cases a with
  | startRunningTasksAsync =>
    obtain rfl := Option.some.inj hst
    have he : s.startRunningTasksAsync complete = s := by
      simp [startRunningTasksAsync, runCallback, h.1, h.2]
    rw [he]
    exact ⟨h, rfl⟩
  | runAllTasksNow =>
    obtain rfl := Option.some.inj hst
    rw [h.runAllTasksNow]
    exact ⟨h, rfl⟩
  | wrappedTask =>
    obtain ⟨-, rfl⟩ := Machine.guard_eq_some hst
    simpa [wrappedTask, h.1, Done, observed] using h.2

theorem Done.exec {s s' : StartupTaskRunner ι σ} {as : List Call} (h : s.Done)
    (hex : (machine run complete).exec s as = some s') : s'.Done ∧ s'.observed = s.observed := by
  induction as generalizing s with
  | nil => cases hex; exact ⟨h, rfl⟩
  | cons a as ih =>
    obtain ⟨t, ht, hex⟩ := Option.bind_eq_some_iff.mp hex
    obtain ⟨hd, hobs⟩ := h.step ht
    obtain ⟨hd', hobs'⟩ := ih hd hex
    exact ⟨hd', hobs'.trans hobs⟩

/-! ## What `RunAllTasksNow` does -/

def results (run : ι → σ → Int × σ) : List ι → σ → List Int
  | [], _ => []
  | t :: ts, w => (run t w).1 :: results run ts (run t w).2

/-- The world that `tasks` leave, run in order. -/
def worldAfter (run : ι → σ → Int × σ) (tasks : List ι) (w : σ) : σ :=
  tasks.foldl (fun w t => (run t w).2) w

/-- `ran` is the part of `tasks` that is to run: up to the first that fails, or all. -/
structure IsRun (run : ι → σ → Int × σ) (tasks ran : List ι) (w : σ) : Prop where
  pre : ran <+: tasks
  succeeded : ∀ r ∈ (results run ran w).dropLast, r ≤ 0
  stopped : ran = tasks ∨ ∃ r ∈ (results run ran w).getLast?, 0 < r

theorem runTasks_spec (run : ι → σ → Int × σ) (tasks : List ι) (result : Int) (w : σ) :
    ∃ ran, IsRun run tasks ran w ∧
      (runTasks run tasks result w).1 = (results run ran w).getLast?.getD result ∧
      (runTasks run tasks result w).2.1 = worldAfter run ran w ∧
      (runTasks run tasks result w).2.2 = List.zipWith .ran ran (results run ran w) := by
  induction tasks generalizing result w with
  | nil => exact ⟨[], ⟨List.prefix_rfl, by simp [results], .inl rfl⟩, rfl, rfl, rfl⟩
  | cons t ts ih =>
    by_cases hr : (run t w).1 > 0
    · refine ⟨[t], ⟨by simp, by simp [results], .inr ⟨_, by simp [results], hr⟩⟩, ?_, ?_, ?_⟩
      · simp [runTasks, hr, results]
      · simp [runTasks, hr, worldAfter]
      · simp [runTasks, hr, results]
    · obtain ⟨ran, ⟨hp, hs, hstop⟩, h1, hw, h2⟩ := ih (run t w).1 (run t w).2
      refine ⟨t :: ran, ⟨?_, ?_, ?_⟩, ?_, ?_, ?_⟩
      · simpa using hp
      · intro r hmem
        rw [results] at hmem
        cases hl : results run ran (run t w).2 with
        | nil => simp [hl] at hmem
        | cons r1 l =>
          rw [hl] at hmem hs
          rcases List.mem_cons.mp hmem with rfl | hmem
          · omega
          · exact hs r hmem
      · apply hstop.imp (congrArg _)
        rintro ⟨r, hl, hpos⟩
        exact ⟨r, by simp [results, List.getLast?_cons, Option.mem_def.mp hl], hpos⟩
      · simp [runTasks, hr, results, h1, List.getLast?_cons]
      · simp [runTasks, hr, hw, worldAfter]
      · simp [runTasks, hr, results, h2]

/-- **Asynchronous and synchronous startup agree**: a schedule that has emptied
the list has done what one `RunAllTasksNow` does, which is to run the tasks up to
the first that fails and to call back once with the last result, in the world
that these tasks have left; and no later call has an effect. -/
theorem startup_agrees {tasks : List ι} {callback : Bool} {world : σ} {as : List Call}
    {s : StartupTaskRunner ι σ}
    (hex : (machine run complete).exec (new tasks callback world) as = some s)
    (hcall : ∃ a ∈ as, a ≠ .wrappedTask) (he : s.taskList = []) :
    s.observed = ((new tasks callback world).runAllTasksNow run complete).observed ∧
    (∃ ran, IsRun run tasks ran world ∧
      s.trace = List.zipWith .ran ran (results run ran world) ++
        (if callback then [.completed ((results run ran world).getLast?.getD 0)] else []) ∧
      s.world = if callback
        then complete ((results run ran world).getLast?.getD 0) (worldAfter run ran world)
        else worldAfter run ran world) ∧
    ∀ bs s', (machine run complete).exec s bs = some s' →
      s'.observed = s.observed ∧ s'.taskList = [] := by
  have hne : as ≠ [] := by
    obtain ⟨a, ha, -⟩ := hcall
    exact List.ne_nil_of_mem ha
  obtain ⟨hobs, hd⟩ := exec_spec (s := new tasks callback world) (fun h => nomatch h) hne hex
  have hd := hd he
  rw [hd.runAllTasksNow] at hobs
  refine ⟨hobs, ?_, fun bs s' hex' => ?_⟩
  · obtain ⟨ran, hrun, h1, hw, h2⟩ := runTasks_spec run tasks 0 world
    refine ⟨ran, hrun, (congrArg Prod.fst hobs).trans ?_, (congrArg Prod.snd hobs).trans ?_⟩
    · cases callback <;> simp [observed, StartupTaskRunner.runAllTasksNow, new, runCallback, h1, h2]
    · cases callback <;> simp [observed, StartupTaskRunner.runAllTasksNow, new, runCallback, h1, hw]
  · obtain ⟨hd', hobs'⟩ := hd.exec hex'
    exact ⟨hobs', hd'.1⟩

/-- Tasks with fixed results, the second failing; each leaves its result in the world, and the
callback leaves 100 more than its own. -/
theorem startup_agrees_failing :
    let run := fun (t : Int) (w : List Int) => (t, w ++ [t])
    let complete := fun (r : Int) (w : List Int) => w ++ [100 + r]
    ∃ s, (machine run complete).exec (new [0, 1, 2] true [])
        [.startRunningTasksAsync, .startRunningTasksAsync, .wrappedTask, .wrappedTask,
          .wrappedTask] = some s ∧
      s.trace = [.ran 0 0, .ran 1 1, .completed 1] ∧ s.world = [0, 1, 101] ∧
      s.observed = ((new [0, 1, 2] true []).runAllTasksNow run complete).observed ∧
      ∃ ran, IsRun run [0, 1, 2] ran [] ∧
        s.trace = List.zipWith .ran ran (results run ran []) ++
          [.completed ((results run ran []).getLast?.getD 0)] ∧
        s.world = complete ((results run ran []).getLast?.getD 0) (worldAfter run ran []) := by
  intro run complete
  have hex : (machine run complete).exec (new [0, 1, 2] true [])
    [.startRunningTasksAsync, .startRunningTasksAsync, .wrappedTask, .wrappedTask, .wrappedTask] =
      some _ := rfl
  obtain ⟨hobs, hran, -⟩ :=
    startup_agrees hex ⟨.startRunningTasksAsync, by decide, by decide⟩ rfl
  exact ⟨_, hex, rfl, rfl, hobs, hran⟩

end StartupTaskRunner

end Mdgate.Content
