import Mdgate.Pool.Sequences

/-!
# No wakeup is lost

A worker that goes to wait has seen that there is nothing for it to do, and whoever makes
something to do creates a thread or signals afterwards. So a pool that comes to rest has no idle
worker beside a task that is due.
-/

namespace Mdgate.Pool

open Lib

namespace WorkerPc

def looks : WorkerPc → Bool
  | starting | looking | woken | ran _ | deleting _ => true
  | _ => false

def willSignal : WorkerPc → Bool
  | found _ _ _ | leaving _ => true
  | _ => false

end WorkerPc

def Post.willSignal (p : Post) : Bool := p.pc == .posted 0

/-- Somebody is going to see to the runnable tasks, or nobody can. -/
inductive Tended (s : Inner) (workers : List WorkerPc) (posts : List Post) : Prop where
  | idle : ¬ s.HasRunnable → Tended s workers posts
  | creates : s.threadBeingCreated = true → Tended s workers posts
  | looks : workers.any WorkerPc.looks = true → Tended s workers posts
  | signals : workers.any WorkerPc.isWaiting = true →
      workers.any WorkerPc.willSignal = true ∨ posts.any Post.willSignal = true →
      Tended s workers posts
  | busy : workers.any WorkerPc.isWaiting = false →
      s.maxThreads ≤ s.threads ∨ s.shutdownCalled = true → Tended s workers posts
  | timed {time : Int} : .waiting (some time) ∈ workers →
      (∀ t ∈ s.pendingTasks.tasks, s.isSequenceTokenRunnable t.sequenceTokenId = true →
        time ≤ t.timeToRun) →
      Tended s workers posts

namespace Tended

variable {s s₁ s' : Inner} {workers workers' rest : List WorkerPc} {posts posts' : List Post}
  {a b : WorkerPc} {now : Int} {r n : Nat} {held : List SequencedTask}

theorem perm (h : Tended s workers posts) (hw : workers'.Perm workers) :
    Tended s workers' posts := by
  cases h with
  | idle h => exact .idle h
  | creates h => exact .creates h
  | looks h => exact .looks (hw.any_eq ▸ h)
  | signals hwait h => exact .signals (hw.any_eq ▸ hwait) (hw.any_eq ▸ h)
  | busy hwait h => exact .busy (hw.any_eq ▸ hwait) h
  | timed hmem h => exact .timed (hw.mem_iff.mpr hmem) h

/-- A worker moves that neither waits nor looks nor signals. -/
theorem move (h : Tended s (a :: rest) posts) (hw : b.isWaiting = a.isWaiting)
    (hwait : a.isWaiting = false) (hl : a.looks = false) (hs : a.willSignal = false) :
    Tended s (b :: rest) posts := by
  cases h with
  | idle h => exact .idle h
  | creates h => exact .creates h
  | looks h =>
    rw [List.any_cons, hl, Bool.false_or] at h
    exact .looks (by rw [List.any_cons, h, Bool.or_true])
  | signals hwaiting h =>
    rw [List.any_cons, hs, Bool.false_or] at h
    refine .signals (by rwa [List.any_cons, hw, ← List.any_cons]) (h.imp_left fun h => ?_)
    rw [List.any_cons, h, Bool.or_true]
  | busy hwaiting h => exact .busy (by rwa [List.any_cons, hw, ← List.any_cons]) h
  | timed hmem h =>
    refine .timed (List.mem_cons_of_mem b ((List.mem_cons.mp hmem).resolve_left ?_)) h
    rintro rfl
    cases hwait

theorem setPosts (h : Tended s workers posts)
    (hp : posts.any Post.willSignal = true → posts'.any Post.willSignal = true) :
    Tended s workers posts' := by
  cases h with
  | idle h => exact .idle h
  | creates h => exact .creates h
  | looks h => exact .looks h
  | signals hwait h => exact .signals hwait (h.imp_right hp)
  | busy hwait h => exact .busy hwait h
  | timed hmem h => exact .timed hmem h

theorem setInner (h : Tended s workers posts) (hp : s'.pendingTasks = s.pendingTasks)
    (hcurrent : s'.currentSequences = s.currentSequences)
    (hc : s.threadBeingCreated = true → s'.threadBeingCreated = true)
    (hb : s.maxThreads ≤ s.threads ∨ s.shutdownCalled = true →
      s'.maxThreads ≤ s'.threads ∨ s'.shutdownCalled = true) : Tended s' workers posts := by
  have hrunnable : s'.isSequenceTokenRunnable = s.isSequenceTokenRunnable := by
    funext token
    unfold Inner.isSequenceTokenRunnable
    rw [hcurrent]
  cases h with
  | idle h =>
    refine .idle ?_
    unfold Inner.HasRunnable
    rwa [hp, hrunnable]
  | creates h => exact .creates (hc h)
  | looks h => exact .looks h
  | signals hwait h => exact .signals hwait h
  | busy hwait h => exact .busy hwait (hb h)
  | timed hmem h =>
    refine .timed hmem ?_
    rwa [hp, hrunnable]

/-- A signal wakes a worker, or there is none that waits. -/
theorem wakes {workers₁ : List WorkerPc} (hw : Wakes workers₁ workers')
    (h : Tended s workers posts)
    (hwait : workers₁.any WorkerPc.isWaiting = workers.any WorkerPc.isWaiting)
    (hlooks : workers₁.any WorkerPc.looks = workers.any WorkerPc.looks) :
    Tended s workers' posts' := by
  cases hw with
  | wakes hw hw' =>
    refine .looks ?_
    rw [hw'.any_eq]
    rfl
  | none hw hno =>
    rw [hwait] at hno
    suffices hstill : Tended s workers₁ posts' from hstill.perm hw
    cases h with
    | idle h => exact .idle h
    | creates h => exact .creates h
    | looks h => exact .looks (hlooks ▸ h)
    | signals hwaiting h =>
      rw [hno] at hwaiting
      cases hwaiting
    | busy _ h => exact .busy (hwait ▸ hno) h
    | timed hmem _ =>
      rw [List.any_eq_false] at hno
      exact absurd rfl (hno _ hmem)

/-- After `PrepareToStartAdditionalThreadIfHelpful`, by one that signals if it creates none. -/
theorem prepare (hcount : s.waitingThreadCount ≠ 0 → workers.any WorkerPc.isCounted = true)
    (hsignal : s.prepareToStartAdditionalThreadIfHelpful.1 = 0 →
      workers.any WorkerPc.willSignal = true ∨ posts.any Post.willSignal = true) :
    Tended s.prepareToStartAdditionalThreadIfHelpful.2 workers posts := by
  rcases s.prepare_cases with ⟨hs, hwhy⟩ | ⟨hs, -⟩
  · rw [hs] at hsignal ⊢
    have hsignal := hsignal rfl
    by_cases hwait : workers.any WorkerPc.isWaiting = true
    · exact .signals hwait hsignal
    · rw [Bool.not_eq_true] at hwait
      rcases hwhy with hwhy | hwhy | hwhy | hwhy | hwhy
      · exact .busy hwait (.inr hwhy)
      · exact .creates hwhy
      · exact .busy hwait (.inl hwhy)
      · obtain ⟨w, hw, hcounted⟩ := List.any_eq_true.mp (hcount hwhy)
        rw [List.any_eq_false] at hwait
        refine .looks (List.any_eq_true.mpr ⟨w, hw, ?_⟩)
        cases w <;> first | rfl | exact absurd rfl (hwait _ hw) | cases hcounted
      · exact .idle hwhy
  · rw [hs]
    exact .creates rfl

/-- A pass of the loop leaves the tasks tended, whatever was before. -/
theorem passes (hc : Counters s r (rest.countP WorkerPc.isCounted) n held)
    (hp : Passes s now s' b) : Tended s' (b :: rest) posts := by
  have hscan := Passes.scans s now
  cases hp with
  | @found t hstatus =>
    refine prepare ?_ fun _ => .inl rfl
    intro hwaiting
    have hwaiting : 0 < s.waitingThreadCount := Nat.pos_of_ne_zero hwaiting
    rw [hc.waiting, List.countP_pos_iff] at hwaiting
    obtain ⟨w, hw, hcounted⟩ := hwaiting
    exact List.any_eq_true.mpr ⟨w, List.mem_cons_of_mem _ hw, hcounted⟩
  | leaves htask hs hblocking =>
    have hno := (hc.getWork now).blockingPending.symm.trans hblocking
    rw [List.countP_eq_zero] at hno
    refine .idle ?_
    rintro ⟨t, ht, hrunnable⟩
    cases hstatus : (s.getWork now).1.status with
    | found _ => simp [hstatus, GetWorkStatus.task?] at htask
    | notFound =>
      exact Bool.false_ne_true ((hscan.idle hstatus t ht).symm.trans hrunnable)
    | wait time =>
      obtain ⟨-, u, hu, -, hblocks⟩ := hscan.waits hstatus s.pendingTasks.sorted
      exact hno u hu (hblocks hs)
  | deletes _ _ => exact .looks rfl
  | waits hstatus _ _ =>
    rcases hstatus with ⟨hstatus, rfl⟩ | ⟨time, hstatus, rfl⟩
    · refine .idle ?_
      rintro ⟨t, ht, hrunnable⟩
      exact Bool.false_ne_true ((hscan.idle hstatus t ht).symm.trans hrunnable)
    · exact .timed List.mem_cons_self (hscan.waits hstatus s.pendingTasks.sorted).1

end Tended

def WorkerPool.IsTended (s : WorkerPool) : Prop := Tended s.inner s.workers s.posts

theorem Moves.isTended {s s' : WorkerPool} {a : PoolAction} (hm : Moves s a s')
    (h : s.IsTended) (hc : s.Counted) : s'.IsTended := by
  unfold WorkerPool.IsTended at *
  cases hm with
  | idles hnow => exact h.setInner rfl rfl id id
  | passes hw hw' henters hpass =>
    refine Tended.perm ?_ hw'
    exact .passes ((Counts.perm hc hw.symm).enter henters) hpass
  | moves hw hw' hmove =>
    cases hmove with
    | clears | returns | wakes => exact .perm (.looks rfl) hw'
    | runs =>
      refine Tended.perm ?_ hw'
      exact (h.perm hw.symm).move rfl rfl rfl rfl
  | signals hw hwakes hsignal =>
    cases hsignal with
    | found | leaving => exact .wakes hwakes (h.perm hw.symm) rfl rfl
  | creates hw hn hw' => exact .perm (.looks rfl) hw'
  | exits hw hw' =>
    refine Tended.perm ?_ hw'
    exact (h.perm hw.symm).move rfl rfl rfl rfl
  | calls hp hpc =>
    refine h.setPosts fun hsignal => ?_
    rw [hp.any_eq, List.any_cons, hsignal, Bool.or_true]
  | @enqueues k caller call time t n inner' posts' rest hk hp hp' hpost =>
    obtain ⟨last, names, budget, -, hs⟩ := (Inner.postTask_accepts hpost).inserts
    obtain ⟨hn, rfl⟩ := Prod.mk.injEq .. ▸ hs
    refine Tended.prepare ?_ fun hno => .inr ?_
    · intro hwaiting
      have hwaiting : 0 < s.inner.waitingThreadCount := Nat.pos_of_ne_zero hwaiting
      rw [hc.waiting, List.countP_pos_iff] at hwaiting
      exact List.any_eq_true.mpr hwaiting
    · rw [hp'.any_eq, List.any_cons, hn.trans hno]
      rfl
  | refuses hp hpc =>
    refine h.setPosts fun hsignal => ?_
    rw [hp.any_eq, List.any_cons] at hsignal
    simpa [Post.willSignal, hpc] using hsignal
  | postCreates hp hpc hn hw => exact .perm (.looks rfl) hw
  | postSignals hp hpc hwakes => exact .wakes hwakes h rfl rfl
  | callsShutdown hno heq hwakes =>
    subst heq
    refine .wakes hwakes (h.setInner ?_ ?_ id fun _ => .inr ?_) rfl rfl <;> rfl
  | shutdownMoves hmove => exact h

theorem isTended_reach {maxThreads : Nat} {ok : WorkerPool → PoolAction → Prop} {s : WorkerPool}
    (hr : (poolMachine maxThreads).Reach ok s) : s.IsTended := by
  refine hr.invariant_of (I := WorkerPool.IsTended) (fun s => counted_reach) ?_ ?_
  · rintro _ ⟨now, rfl⟩
    refine .idle ?_
    rintro ⟨t, ht, -⟩
    cases ht
  · intro s a s' hc h _ hs
    exact (WorkerPool.step_moves hs).isTended h hc

/-! ## A pool at rest -/

/-- Nothing happens to the worker before a signal, the end of its task or that of its wait. -/
def WorkerPc.Rests (now : Int) : WorkerPc → Prop
  | running _ | waiting none | exited => True
  | waiting (some time) => now < time
  | _ => False

/-- The pool does nothing by itself: no signal is under way, and no wait is over. -/
structure WorkerPool.Quiet (s : WorkerPool) : Prop where
  workers : ∀ w ∈ s.workers, w.Rests s.now
  posts : ∀ p ∈ s.posts, ∃ call time, p.pc = .called call time

namespace WorkerPool.Quiet

variable {s : WorkerPool}

theorem not_creating (h : s.Quiet) (hc : s.Counted) : s.inner.threadBeingCreated = false := by
  have hworkers : s.workers.countP WorkerPc.isNew = 0 := by
    rw [List.countP_eq_zero]
    intro w hw
    have := h.workers w hw
    cases w <;> simp_all [WorkerPc.isNew, WorkerPc.Rests]
  have hposts : s.posts.countP Post.isNew = 0 := by
    rw [List.countP_eq_zero]
    intro p hp
    obtain ⟨call, time, hpc⟩ := h.posts p hp
    simp [Post.isNew, hpc]
  have hcreating := hc.creating
  rw [hworkers, hposts] at hcreating
  by_contra htbc
  rw [if_pos (by simpa using htbc)] at hcreating
  omega

theorem threads (h : s.Quiet) (hc : s.Counted) : s.inner.threads = s.workers.length := by
  rw [hc.threads, List.countP_eq_length]
  intro w hw
  have := h.workers w hw
  cases w <;> simp_all [WorkerPc.isRegistered, WorkerPc.Rests]

theorem idle (h : s.Quiet) {w : WorkerPc} (hw : w ∈ s.workers) :
    w.looks = false ∧ w.willSignal = false := by
  have := h.workers w hw
  cases w <;> first | exact ⟨rfl, rfl⟩ | cases this

/-- A worker that rests and does not wait runs a task or has left. -/
theorem running_or_exited (h : s.Quiet) {w : WorkerPc} (hw : w ∈ s.workers)
    (hwait : w.isWaiting = false) : (∃ u, w = .running u) ∨ w = .exited := by
  have := h.workers w hw
  cases w with
  | running u => exact .inl ⟨u, rfl⟩
  | exited => exact .inr rfl
  | waiting => cases hwait
  | _ => cases this

end WorkerPool.Quiet

/-- **No task that is due waits beside an idle worker**: when a pool is at rest and some task is
due whose sequence is not in use, then every worker runs a task or has left, and there are as many
workers as there may be, or the pool is shutting down. -/
theorem pool_work_conserving {maxThreads : Nat} {s : WorkerPool}
    (hr : (poolMachine maxThreads).Reachable s) (hquiet : s.Quiet) {t : SequencedTask}
    (ht : t ∈ s.inner.pendingTasks.tasks)
    (hrunnable : s.inner.isSequenceTokenRunnable t.sequenceTokenId = true)
    (hdue : t.timeToRun ≤ s.now) :
    (∀ w ∈ s.workers, (∃ u, w = .running u) ∨ w = .exited) ∧
      (s.workers.length = maxThreads ∨ s.inner.shutdownCalled = true) := by
  have hc := counted_reach hr
  cases isTended_reach hr with
  | idle h => exact absurd ⟨t, ht, hrunnable⟩ h
  | creates h =>
    rw [hquiet.not_creating hc] at h
    cases h
  | looks h =>
    obtain ⟨w, hw, hlooks⟩ := List.any_eq_true.mp h
    rw [(hquiet.idle hw).1] at hlooks
    cases hlooks
  | signals _ h =>
    rcases h with h | h
    · obtain ⟨w, hw, hsignal⟩ := List.any_eq_true.mp h
      rw [(hquiet.idle hw).2] at hsignal
      cases hsignal
    · obtain ⟨p, hp, hsignal⟩ := List.any_eq_true.mp h
      obtain ⟨call, time, hpc⟩ := hquiet.posts p hp
      simp [Post.willSignal, hpc] at hsignal
  | busy hwait h =>
    rw [List.any_eq_false] at hwait
    refine ⟨fun w hw => hquiet.running_or_exited hw (by simpa using hwait w hw), h.imp_left ?_⟩
    intro hfull
    have := hc.length_le
    rw [hquiet.threads hc] at hfull
    rw [← maxThreads_reach hr]
    omega
  | timed hmem h =>
    have hlt : s.now < _ := hquiet.workers _ hmem
    have := h t ht hrunnable
    omega

theorem pool_work_conserving_one : ∃ s, (poolMachine 1).Reachable s ∧
    s.inner.pendingTasks.tasks.length = 1 ∧
      ∀ w ∈ s.workers, (∃ u, w = .running u) ∨ w = .exited := by
  obtain ⟨s, hr, hs⟩ := Machine.exists_reachable (M := poolMachine 1) (s := .start 1 5) ⟨5, rfl⟩
    [.post none (postWorkerTask 0), .enqueue 0, .finishPost 0 none, .worker 0 none,
      .worker 0 none, .worker 0 none, .post none (postWorkerTask 1), .enqueue 0,
      .finishPost 0 none]
    (p := fun s => decide (s.workers = [.running ⟨0, 0, 0, .blockShutdown, 5⟩] ∧ s.posts = [] ∧
      s.inner.pendingTasks.tasks = [⟨1, 0, 1, .blockShutdown, 5⟩] ∧ s.now = 5)) (by decide)
  obtain ⟨hworkers, hposts, hpending, hnow⟩ := of_decide_eq_true hs
  have hquiet : s.Quiet := ⟨by simp [hworkers, WorkerPc.Rests], by simp [hposts]⟩
  exact ⟨s, hr, by rw [hpending]; rfl, (pool_work_conserving hr hquiet
    (t := ⟨1, 0, 1, .blockShutdown, 5⟩) (by simp [hpending]) rfl (by simp [hnow])).1⟩

end Mdgate.Pool
