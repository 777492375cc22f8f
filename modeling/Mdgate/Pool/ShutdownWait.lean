import Mdgate.Pool.Shutdown
import Mdgate.Pool.Wakeups

/-!
# What `Shutdown` waits for

The workers leave when `Shutdown` is called and no task is left that blocks it, each waking the
next, and the last one wakes `Shutdown`. This rests on tasks being posted by tasks only once
`Shutdown` is called, which the pool does not see to.
-/

namespace Mdgate.Pool

open Lib

namespace WorkerPc

/-- The worker is out of the loop, and is going to signal `can_shutdown_cv_`. -/
def goes : WorkerPc → Bool
  | leaving _ | left => true
  | _ => false

def inLoop : WorkerPc → Bool
  | leaving _ | left | exited => false
  | _ => true

/-- The worker is going to signal `has_work_cv_`, or to look for work. -/
def restless : WorkerPc → Bool
  | waiting _ | left | exited => false
  | _ => true

theorem restless_of_task {w : WorkerPc} {t : SequencedTask} (h : w.task? = some t) :
    w.restless = true := by
  cases w <;> first | rfl | cases h

end WorkerPc

variable {s s' : WorkerPool} {a : PoolAction} {workers workers' : List WorkerPc}

theorem Wakes.any {p : WorkerPc → Bool} (hw : Wakes workers workers')
    (hp : ∀ deadline, p (.waiting deadline) = true → p .woken = true)
    (h : workers.any p = true) : workers'.any p = true := by
  cases hw with
  | none hw _ => rwa [hw.any_eq]
  | wakes hw hw' => exact Threads.any_move hw hw' (hp _) h

/-- After a signal some worker is awake, or none waits. -/
theorem Wakes.restless (hw : Wakes workers workers')
    (h : workers'.any WorkerPc.isWaiting = true) : workers'.any WorkerPc.restless = true := by
  cases hw with
  | none hw hno =>
    rw [hw.any_eq, hno] at h
    cases h
  | wakes _ hw' => exact Threads.any_of_perm_cons hw' rfl

/-! ## Tasks that block shutdown are due -/

/-- A task that blocks shutdown was posted with no delay. -/
structure WorkerPool.Prompt (s : WorkerPool) : Prop where
  clock : 0 ≤ s.now
  pending : ∀ t ∈ s.inner.pendingTasks.tasks, t.shutdownBehavior = .blockShutdown →
    t.timeToRun ≤ s.now
  posts : ∀ p ∈ s.posts, ∀ call time, p.pc = .called call time →
    call.shutdownBehavior = .blockShutdown → time ≤ s.now

theorem saturatedAdd_zero_le {now : Int} (h : 0 ≤ now) :
    Base.TimeDelta.saturatedAdd 0 now ≤ now := by
  unfold Base.TimeDelta.saturatedAdd Base.int64Max
  simp only
  split <;> [skip; split] <;> omega

theorem Moves.prompt (hm : Moves s a s') (h : s.Prompt) : s'.Prompt := by
  obtain ⟨hclock, hpending, hposts⟩ := h
  cases hm with
  | idles hnow =>
    exact ⟨hclock.trans hnow, fun t ht hb => (hpending t ht hb).trans hnow,
      fun p hp call time hpc hb => (hposts p hp call time hpc hb).trans hnow⟩
  | passes hw hw' henters hpass =>
    refine ⟨hclock, fun t ht => hpending t ?_, hposts⟩
    rw [hpass.pending_eq] at ht
    have := (Passes.scans _ s.now).sublist.mem ht
    rwa [Logged.enters_pending henters] at this
  | @calls post posts' call hp hpc =>
    refine ⟨hclock, hpending, fun q hq call' time hpc' hb => ?_⟩
    rcases List.mem_cons.mp (hp.mem_iff.mp hq) with rfl | hq
    · obtain ⟨rfl, rfl⟩ := PostPc.called.inj (hpc.symm.trans hpc')
      rw [call.skips.resolve_right (by simp [hb])]
      exact saturatedAdd_zero_le hclock
    · exact hposts q hq call' time hpc' hb
  | @enqueues k caller call time t n inner' posts' rest hk hp hp' hpost =>
    have haccepts := Inner.postTask_accepts hpost
    obtain ⟨last, names, budget, b, rfl, -, -⟩ := haccepts.eq
    refine ⟨hclock, ?_, ?_⟩
    · intro u hu hb
      rcases mem_of_mem_insertTask hu with rfl | hu
      · rw [haccepts.time]
        refine hposts _ (hp.mem_iff.mpr List.mem_cons_self) call time rfl ?_
        rw [← haccepts.behavior, hb]
      · exact hpending u hu hb
    · intro q hq call' time' hpc hb
      rcases List.mem_cons.mp (hp'.mem_iff.mp hq) with rfl | hq
      · cases hpc
      · exact hposts q (hp.mem_iff.mpr (List.mem_cons_of_mem _ hq)) call' time' hpc hb
  | refuses hp _ | postCreates hp _ _ _ | postSignals hp _ _ =>
    exact ⟨hclock, hpending, fun q hq => hposts q (hp.mem_iff.mpr (List.mem_cons_of_mem _ hq))⟩
  | callsShutdown _ heq _ =>
    subst heq
    exact ⟨hclock, hpending, hposts⟩
  | moves _ _ _ | signals _ _ _ | creates _ _ _ | exits _ _ | shutdownMoves _ =>
    exact ⟨hclock, hpending, hposts⟩

/-! ## Who wakes whom -/

/-- In a shutdown, a pass of the loop that leaves nothing to wait for leaves the loop. -/
theorem Passes.goes {s s' : Inner} {now : Int} {pc : WorkerPc} (h : Passes s now s' pc)
    (hs : s.shutdownCalled = true) (hcan : s'.canShutdown = true) : pc.goes = true := by
  simp only [Inner.canShutdown, Bool.and_eq_true, beq_iff_eq] at hcan
  cases h with
  | found hstatus =>
    have hblocks := ((scans s now).runs hstatus s.pendingTasks.sorted).2.2.1 hs
    obtain ⟨b, -, hprepare⟩ := Inner.prepare_eq _
    rw [Inner.willRunWorkerTask, hprepare] at hcan
    simp [SequencedTask.blocks_iff.mp hblocks] at hcan
  | leaves _ _ _ => rfl
  | deletes _ hno | waits _ hno _ => exact absurd hcan.2 (hno hs)

/-- In a shutdown, a worker goes to wait beside one that is awake. -/
theorem Passes.restless {s s' : Inner} {now : Int} {pc : WorkerPc} {r c n : Nat}
    {rest : List WorkerPc} (h : Passes s now s' pc) (hs : s.shutdownCalled = true)
    (hc : Counters s r c n (held rest))
    (hprompt : ∀ t ∈ s.pendingTasks.tasks, t.shutdownBehavior = .blockShutdown →
      t.timeToRun ≤ now) : (pc :: rest).any WorkerPc.restless = true := by
  have hscan := scans s now
  cases h with
  | found _ | leaves _ _ _ | deletes _ _ => rfl
  | waits hstatus hno hdeletes =>
    rcases hstatus with ⟨hstatus, -⟩ | ⟨time, hstatus, -⟩
    · have hpos := Nat.pos_of_ne_zero (hno hs)
      rw [(hc.getWork now).blockingPending, List.countP_pos_iff] at hpos
      obtain ⟨t, ht, -⟩ := hpos
      -- The task is in line behind one that another worker has in hand.
      have hblocked := hscan.idle hstatus t ht
      rw [← Bool.not_eq_true, hc.runnable_iff] at hblocked
      push Not at hblocked
      obtain ⟨u, hu, -, -⟩ := hblocked
      obtain ⟨w, hw, htask⟩ := List.mem_filterMap.mp hu
      exact List.any_eq_true.mpr
        ⟨w, List.mem_cons_of_mem _ hw, WorkerPc.restless_of_task htask⟩
    · obtain ⟨-, t, ht, hlater, hblocks⟩ := hscan.waits hstatus s.pendingTasks.sorted
      have := hprompt t (hscan.sublist.mem ht) (SequencedTask.blocks_iff.mp (hblocks hs))
      omega

/-- In a shutdown, whoever waits will be woken. -/
structure WorkerPool.Waking (s : WorkerPool) : Prop where
  /-- `Shutdown` is woken when there is nothing left to wait for. -/
  shutdown : s.shutdown = .waiting → s.inner.canShutdown = true →
    s.workers.any WorkerPc.goes = true
  workers : s.inner.shutdownCalled = true → s.workers.any WorkerPc.isWaiting = true →
    s.workers.any WorkerPc.restless = true ∨ s.inner.threadBeingCreated = true

theorem WorkerPool.ShuttingDown.of_waiting (h : s.ShuttingDown) (hpc : s.shutdown = .waiting) :
    s.inner.shutdownCalled = true := h.called (by simp [hpc])

theorem Moves.waking (hm : Moves s a s') (h : s.Waking) (hc : s.Counted) (hp : s.Prompt)
    (hd : s.ShuttingDown) : s'.Waking := by
  obtain ⟨hshutdown, hworkers⟩ := h
  cases hm with
  | idles hnow => exact ⟨hshutdown, hworkers⟩
  | passes hw hw' henters hpass =>
    have henter := (enters_shutdown henters).1
    constructor
    · intro hpc hcan
      have hs := hd.of_waiting hpc
      exact Threads.any_of_perm_cons hw' (hpass.goes (henter.trans hs) hcan)
    · intro hs _
      rw [hpass.shutdown_eq.1] at hs
      refine .inl ?_
      rw [hw'.any_eq]
      refine hpass.restless hs ((Counts.perm hc hw.symm).enter henters) ?_
      rw [Logged.enters_pending henters]
      exact hp.pending
  | moves hw hw' hmove =>
    constructor
    · intro hpc hcan
      refine Threads.any_move hw hw' ?_ (hshutdown hpc hcan)
      cases hmove <;> exact id
    · intro _ _
      refine .inl (Threads.any_of_perm_cons hw' ?_)
      cases hmove <;> rfl
  | signals hw hwakes hsignal =>
    constructor
    · intro hpc hcan
      refine hwakes.any (fun _ => id) (Threads.any_move hw (.refl _) ?_ (hshutdown hpc hcan))
      cases hsignal <;> exact id
    · exact fun _ hwait => .inl (hwakes.restless hwait)
  | creates hw hn hw' =>
    constructor
    · intro hpc hcan
      have hgoes := hshutdown hpc hcan
      rw [hw.any_eq] at hgoes
      rw [hw'.any_eq]
      exact hgoes
    · exact fun _ _ => .inl (Threads.any_of_perm_cons hw' rfl)
  | exits hw hw' =>
    constructor
    · intro hpc
      dsimp only at hpc
      split at hpc
      · cases hpc
      · next hno => exact absurd hpc hno
    · intro hs hwait
      have hwait := Threads.any_move hw' hw (p := WorkerPc.isWaiting) id hwait
      exact (hworkers hs hwait).imp_left (Threads.any_move hw hw' id)
  | calls _ _ | refuses _ _ => exact ⟨hshutdown, hworkers⟩
  | enqueues hk hp hp' hpost =>
    have haccepts := Inner.postTask_accepts hpost
    obtain ⟨last, names, budget, b, rfl, -, hb⟩ := haccepts.eq
    constructor
    · intro hpc hcan
      have hblocks := SequencedTask.blocks_iff.mpr (haccepts.blocks (hd.of_waiting hpc))
      simp [Inner.canShutdown, Inner.withPending, hblocks] at hcan
    · intro hs hwait
      exact (hworkers hs hwait).imp_right hb
  | postCreates hp hpc hn hw =>
    constructor
    · intro hpc hcan
      rw [hw.any_eq]
      exact hshutdown hpc hcan
    · exact fun _ _ => .inl (Threads.any_of_perm_cons hw rfl)
  | postSignals hp hpc hwakes =>
    exact ⟨fun hpc hcan => hwakes.any (fun _ => id) (hshutdown hpc hcan),
      fun _ hwait => .inl (hwakes.restless hwait)⟩
  | callsShutdown hno heq hwakes =>
    subst heq
    constructor
    · intro hpc
      dsimp only at hpc
      split at hpc <;> cases hpc
    · exact fun _ hwait => .inl (hwakes.restless hwait)
  | shutdownMoves hmove =>
    refine ⟨?_, hworkers⟩
    cases hmove with
    | waits _ hcan => exact fun _ h => absurd h (by simp [hcan])
    | returns | wakes => exact fun hpc => absurd hpc (by simp)
    | ignored => exact hshutdown

theorem waking_reach {maxThreads : Nat} {ok : WorkerPool → PoolAction → Prop} {s : WorkerPool}
    (hr : (poolMachine maxThreads).Reach ok s) : s.Prompt ∧ s.Waking := by
  refine hr.invariant_of (I := fun s => s.Prompt ∧ s.Waking)
    (J := fun s => s.Counted ∧ s.ShuttingDown)
    (fun s h => ⟨counted_reach h, shuttingDown_reach h⟩) ?_ ?_
  · rintro _ ⟨now, rfl⟩
    constructor
    · constructor <;> simp [WorkerPool.start, Inner.new, PendingTaskSet.empty]
    · constructor <;> simp [WorkerPool.start]
  · intro s a s' hj h _ hs
    have hm := WorkerPool.step_moves hs
    exact ⟨hm.prompt h.1, hm.waking h.2 hj.1 h.1 hj.2⟩

theorem WorkerPool.Quiet.exited {maxThreads : Nat} {ok : WorkerPool → PoolAction → Prop}
    {s : WorkerPool} (hquiet : s.Quiet) (hr : (poolMachine maxThreads).Reach ok s)
    (hs : s.inner.shutdownCalled = true) (hidle : ∀ t, .running t ∉ s.workers) :
    ∀ w ∈ s.workers, w = .exited := by
  have hc := counted_reach hr
  have hwait : s.workers.any WorkerPc.isWaiting = false := by
    by_contra hwait
    rw [Bool.not_eq_false] at hwait
    rcases (waking_reach hr).2.workers hs hwait with h | h
    · obtain ⟨w, hw, hrestless⟩ := List.any_eq_true.mp h
      have := hquiet.workers w hw
      cases w with
      | running t => exact hidle t hw
      | waiting | left | exited => cases hrestless
      | _ => cases this
    · rw [hquiet.not_creating hc] at h
      cases h
  intro w hw
  rw [List.any_eq_false] at hwait
  rcases hquiet.running_or_exited hw (by simpa using hwait w hw) with ⟨t, rfl⟩ | h
  · exact absurd hw (hidle t)
  · exact h

/-- **Every worker leaves**: after `Shutdown` is called, when a pool is at rest and runs no task,
all its workers have left, so that they can be joined. -/
theorem pool_workers_leave {maxThreads : Nat} {s : WorkerPool}
    (hr : (poolMachine maxThreads).Reachable s) (hquiet : s.Quiet)
    (hs : s.inner.shutdownCalled = true) (hidle : ∀ t, .running t ∉ s.workers) :
    ∀ w ∈ s.workers, w = .exited := hquiet.exited hr hs hidle

theorem pool_workers_leave_one : ∃ s, (poolMachine 1).Reachable s ∧ s.workers.length = 1 ∧
    ∀ w ∈ s.workers, w = .exited := by
  obtain ⟨s, hr, hs⟩ := Machine.exists_reachable (M := poolMachine 1) (s := .start 1 5) ⟨5, rfl⟩
    [.post none (postWorkerTask 0), .enqueue 0, .finishPost 0 none, .worker 0 none,
      .worker 0 none, .worker 0 none, .callShutdown 0 none, .taskReturns 0, .worker 0 none,
      .worker 0 none, .worker 0 none]
    (p := fun s => decide (s.workers = [.exited] ∧ s.posts = [] ∧ s.inner.shutdownCalled = true))
    (by decide)
  obtain ⟨hworkers, hposts, hcalled⟩ := of_decide_eq_true hs
  refine ⟨s, hr, by rw [hworkers]; rfl, pool_workers_leave hr ⟨?_, ?_⟩ hcalled ?_⟩
  · simp [hworkers, WorkerPc.Rests]
  · simp [hposts]
  · simp [hworkers]

/-! ## Tasks that are posted by tasks -/

def PoolAction.enqueued? : PoolAction → Option Nat
  | enqueue k => some k
  | _ => none

/-- Once `Shutdown` is called, `PostTask` is called by running tasks only. -/
def WorkerPool.PostsFromTasks (s : WorkerPool) (a : PoolAction) : Prop :=
  s.inner.shutdownCalled = true →
    a.enqueued?.all (fun k => (s.posts[k]?.bind s.callerBehavior).isSome) = true

instance (s : WorkerPool) : DecidablePred s.PostsFromTasks :=
  fun _ => inferInstanceAs (Decidable (_ → _))

theorem WorkerPool.running_of_callerBehavior {p : Post}
    (h : (s.callerBehavior p).isSome = true) : ∃ t, .running t ∈ s.workers := by
  unfold callerBehavior at h
  rw [Option.isSome_map, Option.isSome_iff_exists] at h
  obtain ⟨t, ht⟩ := h
  obtain ⟨w, hw, ht⟩ := Option.bind_eq_some_iff.mp ht
  obtain ⟨i, -, hi⟩ := Option.bind_eq_some_iff.mp hw
  cases w <;> cases ht
  exact ⟨t, List.mem_of_getElem? hi⟩

/-- There is somebody to run the tasks that must run. -/
structure WorkerPool.Manned (s : WorkerPool) : Prop where
  before : s.inner.shutdownCalled = false → ∀ w ∈ s.workers, w.inLoop = true
  owed : s.inner.shutdownCalled = false ∧ s.inner.pendingTasks.tasks ≠ [] ∨
      s.inner.blockingShutdownPendingTaskCount ≠ 0 →
    s.workers.any WorkerPc.inLoop = true ∨ s.inner.threadBeingCreated = true

theorem Wakes.all {p : WorkerPc → Prop} (hw : Wakes workers workers') (hp : p .woken)
    (h : ∀ w ∈ workers, p w) : ∀ w ∈ workers', p w := by
  cases hw with
  | none hw _ => exact fun w hmem => h w (hw.mem_iff.mp hmem)
  | wakes hw hw' => exact Threads.all_move hw hw' hp h

theorem Inner.Accepts.creates {s s' : Inner} {call : PostCall} {time : Int} {t : SequencedTask}
    {n : Nat} {posts : List Post} (h : s.Accepts call time t n s') (hc : Counts s [] posts)
    (hmax : s.maxThreads ≠ 0) (hs : s.shutdownCalled = false) : s'.threadBeingCreated = true := by
  obtain ⟨last, names, budget, -, hprepare⟩ := h.inserts
  rw [show s' = _ from congrArg Prod.snd hprepare]
  rcases Inner.prepare_cases
    { s.withPending last names t with maxBlockingTasksAfterShutdown := budget } with
    ⟨hno, hwhy⟩ | ⟨hyes, -⟩
  · rw [hno]
    have hthreads : s.threads = 0 := hc.threads
    have hwaiting : s.waitingThreadCount = 0 := hc.waiting
    rcases hwhy with hwhy | hwhy | hwhy | hwhy | hwhy
    · exact absurd (hs.symm.trans hwhy) Bool.false_ne_true
    · exact hwhy
    · have hwhy : s.maxThreads ≤ s.threads := hwhy
      omega
    · exact absurd hwaiting hwhy
    · refine absurd ⟨t, ?_, ?_⟩ hwhy
      · have hinsert := insertTask_perm (l := s.pendingTasks.tasks) (t := t)
          fun u hu => h.number ▸ (hc.numbered u hu).ne
        exact hinsert.mem_iff.mpr List.mem_cons_self
      · have hrunnable := hc.runnable_iff (t := t)
        exact hrunnable.mpr (by simp [held])
  · rw [hyes]

theorem Moves.manned (hm : Moves s a s') (h : s.Manned) (hc : s.Counted)
    (hmax : s.inner.maxThreads ≠ 0) (ha : s.PostsFromTasks a) : s'.Manned := by
  obtain ⟨hbefore, howed⟩ := h
  cases hm with
  | idles hnow => exact ⟨hbefore, howed⟩
  | @passes pc pc' inner inner' workers' rest hw hw' henters hpass =>
    have hs : inner.shutdownCalled = s.inner.shutdownCalled := (enters_shutdown henters).1
    have hs' : inner'.shutdownCalled = inner.shutdownCalled := hpass.shutdown_eq.1
    constructor
    · intro hno
      refine Threads.all_move hw hw' ?_ (hbefore (hs ▸ hs' ▸ hno))
      have hno : inner.shutdownCalled = false := hs' ▸ hno
      cases hpass with
      | leaves _ hyes _ => exact absurd (hyes.symm.trans hno) (by simp)
      | found _ | deletes _ _ | waits _ _ _ => rfl
    · intro howed'
      refine .inl (Threads.any_of_perm_cons hw' ?_)
      cases hpass with
      | leaves _ hyes hzero =>
        rcases howed' with ⟨hno, -⟩ | hne
        · exact absurd (hyes.symm.trans hno) (by simp)
        · exact absurd hzero hne
      | found _ | deletes _ _ | waits _ _ _ => rfl
  | @moves pc pc' es workers' rest hw hw' hmove =>
    have hb : pc'.inLoop = true := by cases hmove <;> rfl
    exact ⟨fun hno => Threads.all_move hw hw' hb (hbefore hno),
      fun _ => .inl (Threads.any_of_perm_cons hw' hb)⟩
  | signals hw hwakes hsignal =>
    constructor
    · intro hno
      refine hwakes.all rfl (Threads.all_move hw (.refl _) ?_ (hbefore hno))
      have ha := hbefore hno _ (hw.mem_iff.mpr List.mem_cons_self)
      cases hsignal with
      | found => rfl
      | leaving => cases ha
    · intro howed'
      refine (howed howed').imp_left fun hany => ?_
      refine hwakes.any (fun _ => id) (Threads.any_move hw (.refl _) ?_ hany)
      cases hsignal <;> exact id
  | @creates t n deletes workers' rest hw hn hw' =>
    refine ⟨fun hno w hmem => ?_, fun _ => .inl (Threads.any_of_perm_cons hw' rfl)⟩
    have hrunning := Threads.all_move (p := fun w => w.inLoop = true) hw
      (.refl (.running t :: rest)) rfl (hbefore hno)
    rcases List.mem_cons.mp (hw'.mem_iff.mp hmem) with rfl | hmem
    · rfl
    · exact hrunning w hmem
  | exits hw hw' =>
    constructor
    · intro hno
      cases hbefore hno _ (hw.mem_iff.mpr List.mem_cons_self)
    · exact fun howed' => (howed howed').imp_left (Threads.any_move hw hw' id)
  | calls _ _ | refuses _ _ => exact ⟨hbefore, howed⟩
  | @enqueues k caller call time t n inner' posts' rest hk hp hp' hpost =>
    have haccepts := Inner.postTask_accepts hpost
    have hs : inner'.shutdownCalled = s.inner.shutdownCalled := by
      obtain ⟨last, names, budget, b, rfl, -, -⟩ := haccepts.eq
      rfl
    refine ⟨fun hno => hbefore (hs ▸ hno), fun _ => ?_⟩
    by_cases hcalled : s.inner.shutdownCalled = true
    · obtain ⟨rfl, hk⟩ := hk
      have hcaller := ha hcalled
      simp only [PoolAction.enqueued?, hk, Option.all_some, Option.bind_some] at hcaller
      obtain ⟨u, hu⟩ := WorkerPool.running_of_callerBehavior hcaller
      exact .inl (List.any_eq_true.mpr ⟨_, hu, rfl⟩)
    · rw [Bool.not_eq_true] at hcalled
      cases hworkers : s.workers with
      | nil =>
        have hc : Counts s.inner s.workers s.posts := hc
        rw [hworkers] at hc
        exact .inr (haccepts.creates hc hmax hcalled)
      | cons w ws =>
        refine .inl ?_
        rw [List.any_cons, hbefore hcalled w (hworkers ▸ List.mem_cons_self), Bool.true_or]
  | postCreates hp hpc hn hw =>
    refine ⟨fun hno w hmem => ?_, fun _ => .inl (Threads.any_of_perm_cons hw rfl)⟩
    rcases List.mem_cons.mp (hw.mem_iff.mp hmem) with rfl | hmem
    · rfl
    · exact hbefore hno w hmem
  | postSignals hp hpc hwakes =>
    exact ⟨fun hno => hwakes.all rfl (hbefore hno),
      fun howed' => (howed howed').imp_left (hwakes.any fun _ => id)⟩
  | callsShutdown hno heq hwakes =>
    subst heq
    refine ⟨fun hyes => absurd hyes (by simp), fun howed' => ?_⟩
    have hne := howed'.resolve_left fun h => absurd h.1 (by simp)
    exact (howed (.inr hne)).imp_left (hwakes.any fun _ => id)
  | shutdownMoves hmove => exact ⟨hbefore, howed⟩

theorem manned_reach {maxThreads : Nat} (hmax : 0 < maxThreads) {s : WorkerPool}
    (hr : (poolMachine maxThreads).Reach WorkerPool.PostsFromTasks s) : s.Manned := by
  refine hr.invariant_of (I := WorkerPool.Manned)
    (J := fun s => s.Counted ∧ s.inner.maxThreads = maxThreads)
    (fun s h => ⟨counted_reach h, maxThreads_reach h⟩) ?_ ?_
  · rintro _ ⟨now, rfl⟩
    constructor <;> simp [WorkerPool.start, Inner.new, PendingTaskSet.empty]
  · intro s a s' hj h ha hs
    exact (WorkerPool.step_moves hs).manned h hj.1 (by omega) ha

/-- **`Shutdown` waits for tasks only**: when tasks are posted by running tasks only once it is
called, and the pool is at rest while `Shutdown` waits, then some task is running. -/
theorem shutdown_waits_for_task {maxThreads : Nat} (hmax : 0 < maxThreads) {s : WorkerPool}
    (hr : (poolMachine maxThreads).Reach WorkerPool.PostsFromTasks s) (hquiet : s.Quiet)
    (hwait : s.shutdown = .waiting) : ∃ t, .running t ∈ s.workers := by
  have hc := counted_reach hr
  have htbc := hquiet.not_creating hc
  have hs := (shuttingDown_reach hr).of_waiting hwait
  by_contra hidle
  push Not at hidle
  have hexited := hquiet.exited hr hs hidle
  have hcan : s.inner.canShutdown = true := by
    have hheld : held s.workers = [] := by
      refine List.filterMap_eq_nil_iff.mpr fun w hw => ?_
      rw [hexited w hw]
      rfl
    have hblocking := hc.blockingThreads
    rw [hheld] at hblocking
    have hpending : s.inner.blockingShutdownPendingTaskCount = 0 := by
      by_contra hne
      rcases (manned_reach hmax hr).owed (.inr hne) with h | h
      · obtain ⟨w, hw, hloop⟩ := List.any_eq_true.mp h
        rw [hexited w hw] at hloop
        cases hloop
      · rw [htbc] at h
        cases h
    simp [Inner.canShutdown, htbc, hpending, hblocking]
  obtain ⟨w, hw, hgoes⟩ := List.any_eq_true.mp ((waking_reach hr).2.shutdown hwait hcan)
  rw [hexited w hw] at hgoes
  cases hgoes

/-- The task that runs posts another while `Shutdown` waits, and then that one is waited for. -/
theorem shutdown_waits_for_task_one : ∃ s, (poolMachine 1).Reach WorkerPool.PostsFromTasks s ∧
    s.shutdown = .waiting ∧ (finishedTasks s.log).map (·.task) = [0] ∧
    ∃ t, .running t ∈ s.workers := by
  obtain ⟨s, hr, hs⟩ := Machine.exists_reach_of_admits (M := poolMachine 1)
    WorkerPool.PostsFromTasks (s := .start 1 5) ⟨5, rfl⟩
    [.post none (postWorkerTask 0), .enqueue 0, .finishPost 0 none, .worker 0 none,
      .worker 0 none, .worker 0 none, .callShutdown 1 none, .checkShutdown,
      .post (some 0) (postWorkerTask 1), .enqueue 0, .finishPost 0 none, .taskReturns 0,
      .worker 0 none, .worker 0 none, .worker 0 none]
    (p := fun s => decide (s.posts = [] ∧ s.shutdown = .waiting ∧
      s.workers = [.running ⟨1, 0, 1, .blockShutdown, 5⟩] ∧
      (finishedTasks s.log).map (·.task) = [0])) (by decide) (by decide)
  obtain ⟨hposts, hwait, hworkers, hfinished⟩ := of_decide_eq_true hs
  refine ⟨s, hr, hwait, hfinished, shutdown_waits_for_task Nat.one_pos hr ⟨?_, ?_⟩ hwait⟩
  · simp [hworkers, WorkerPc.Rests]
  · simp [hposts]

/-! ## Tasks that are posted by other threads -/

/-- The workers have left a task that blocks shutdown behind. -/
structure WorkerPool.Abandoned (s : WorkerPool) : Prop where
  workers : ∀ w ∈ s.workers, w = .exited
  called : s.inner.shutdownCalled = true
  creating : s.inner.threadBeingCreated = false
  pending : s.inner.blockingShutdownPendingTaskCount ≠ 0
  waits : s.shutdown ≠ .returned

theorem Moves.abandoned (hm : Moves s a s') (h : s.Abandoned) (hc : s.Counted) :
    s'.Abandoned := by
  obtain ⟨hworkers, hcalled, hcreating, hpending, hwaits⟩ := h
  have hout : ∀ {w : WorkerPc} {rest : List WorkerPc}, s.workers.Perm (w :: rest) →
      w = .exited := fun hw => hworkers _ (hw.mem_iff.mpr List.mem_cons_self)
  have hwakes : ∀ {workers' : List WorkerPc}, Wakes s.workers workers' →
      ∀ w ∈ workers', w = .exited := by
    intro workers' hw
    cases hw with
    | none hw _ => exact fun w hmem => hworkers w (hw.mem_iff.mp hmem)
    | wakes hw _ => cases hout hw
  cases hm with
  | idles hnow => exact ⟨hworkers, hcalled, hcreating, hpending, hwaits⟩
  | passes hw hw' henters hpass =>
    cases hout hw
    cases henters
  | moves hw hw' hmove =>
    cases hout hw
    cases hmove
  | signals hw _ hsignal =>
    cases hout hw
    cases hsignal
  | creates hw _ _ => cases hout hw
  | exits hw _ => cases hout hw
  | calls _ _ | refuses _ _ => exact ⟨hworkers, hcalled, hcreating, hpending, hwaits⟩
  | enqueues hk hp hp' hpost =>
    have haccepts := Inner.postTask_accepts hpost
    have hblocks := SequencedTask.blocks_iff.mpr (haccepts.blocks hcalled)
    obtain ⟨last, names, budget, -, hprepare⟩ := haccepts.inserts
    have hinner := congrArg Prod.snd hprepare
    rcases Inner.prepare_cases
      { s.inner.withPending last names _ with maxBlockingTasksAfterShutdown := budget } with
      ⟨hno, -⟩ | ⟨-, hcalled', -⟩
    · rw [hno] at hinner
      dsimp only at hinner
      subst hinner
      exact ⟨hworkers, hcalled, hcreating, by simp [Inner.withPending, hblocks], hwaits⟩
    · exact absurd (hcalled'.symm.trans hcalled) (by simp)
  | @postCreates post posts' workers' n hp hpc hn hw =>
    have hnew := hc.creating
    rw [if_neg (by simp [hcreating]), hp.countP_eq, List.countP_cons_of_pos (by
      simp [Post.isNew, hpc, hn])] at hnew
    omega
  | postSignals hp hpc hw => exact ⟨hwakes hw, hcalled, hcreating, hpending, hwaits⟩
  | callsShutdown hno _ _ => exact absurd (hno.symm.trans hcalled) (by simp)
  | shutdownMoves hmove =>
    refine ⟨hworkers, hcalled, hcreating, hpending, ?_⟩
    cases hmove with
    | returns _ hcan => simp [Inner.canShutdown, hpending] at hcan
    | waits | wakes => simp
    | ignored => exact hwaits

/-- **A task that another thread posts too late hangs `Shutdown`**: when every worker has left and
a task that blocks shutdown is pending, `Shutdown` does not return, whatever happens. -/
theorem shutdown_hangs {maxThreads : Nat} {s t : WorkerPool}
    (hr : (poolMachine maxThreads).Reachable s) (h : s.Abandoned)
    (hl : (poolMachine maxThreads).Leads s t) : t.shutdown ≠ .returned := by
  obtain ⟨as, hl⟩ := hl
  suffices ht : t.Abandoned from ht.waits
  induction as generalizing s with
  | nil =>
    cases hl
    exact h
  | cons a as ih =>
    obtain ⟨s', hs, hl⟩ := Option.bind_eq_some_iff.mp hl
    exact ih (hr.step trivial hs) ((WorkerPool.step_moves hs).abandoned h (counted_reach hr)) hl

theorem shutdown_hangs_one : ∃ s, (poolMachine 1).Reachable s ∧ s.Abandoned ∧
    ∀ t, (poolMachine 1).Leads s t → t.shutdown ≠ .returned := by
  obtain ⟨s, hr, hs⟩ := Machine.exists_reachable (M := poolMachine 1) (s := .start 1 5) ⟨5, rfl⟩
    [.post none (postWorkerTask 0), .enqueue 0, .finishPost 0 none, .worker 0 none,
      .worker 0 none, .worker 0 none, .callShutdown 1000 none, .checkShutdown, .taskReturns 0,
      .worker 0 none, .post none (postWorkerTask 1), .enqueue 0, .finishPost 0 none,
      .worker 0 none, .worker 0 none]
    (p := fun s => decide (s.workers = [.exited] ∧ s.shutdown = .checking ∧
      s.inner.shutdownCalled = true ∧ s.inner.threadBeingCreated = false ∧
      s.inner.blockingShutdownPendingTaskCount ≠ 0)) (by decide)
  obtain ⟨hworkers, hpc, hcalled, hcreating, hpending⟩ := of_decide_eq_true hs
  have habandoned : s.Abandoned :=
    ⟨by simp [hworkers], hcalled, hcreating, hpending, by simp [hpc]⟩
  exact ⟨s, hr, habandoned, fun t => shutdown_hangs hr habandoned⟩

end Mdgate.Pool
