import Mdgate.Pool.Moves

/-!
# What a pool counts

The counters of `Inner` are what its threads and its pending tasks make them, a sequence token is
in use by one worker at most, and at most one thread is being created, so that there are never
more threads than `max_threads_`.
-/

namespace Mdgate.Pool

open Lib

namespace SequencedTask

def holds (t : SequencedTask) : Bool := t.shutdownBehavior != .continueOnShutdown

/-- The token, unless it is the one of the tasks that are in no sequence. -/
def token? (t : SequencedTask) : Option Nat :=
  if t.sequenceTokenId ≠ 0 then some t.sequenceTokenId else none

end SequencedTask

def Post.isNew (p : Post) : Bool :=
  match p.pc with
  | .posted n => n != 0
  | _ => false

/-! ## `PrepareToStartAdditionalThreadIfHelpful` -/

namespace Inner

variable (s : Inner)

def HasRunnable : Prop := ∃ t ∈ s.pendingTasks.tasks, s.isSequenceTokenRunnable t.sequenceTokenId

theorem prepare_cases :
    (s.prepareToStartAdditionalThreadIfHelpful = (0, s) ∧
      (s.shutdownCalled = true ∨ s.threadBeingCreated = true ∨ s.maxThreads ≤ s.threads ∨
        s.waitingThreadCount ≠ 0 ∨ ¬ s.HasRunnable)) ∨
    (s.prepareToStartAdditionalThreadIfHelpful =
        (s.threads + 1, { s with threadBeingCreated := true }) ∧
      s.shutdownCalled = false ∧ s.threadBeingCreated = false ∧ s.threads < s.maxThreads) := by
  unfold prepareToStartAdditionalThreadIfHelpful
  split
  · next h =>
    simp only [Bool.and_eq_true, Bool.not_eq_true', decide_eq_true_eq, beq_iff_eq,
      List.any_eq_true] at h
    exact .inr ⟨rfl, h.1.1.1.1, h.1.1.1.2, h.1.1.2⟩
  · next h =>
    refine .inl ⟨rfl, ?_⟩
    by_contra hno
    push Not at hno
    obtain ⟨hs, htbc, hthreads, hwaiting, t, ht, hrunnable⟩ := hno
    refine h ?_
    simp only [Bool.and_eq_true, Bool.not_eq_true', decide_eq_true_eq, beq_iff_eq,
      List.any_eq_true]
    exact ⟨⟨⟨⟨by simpa using hs, by simpa using htbc⟩, hthreads⟩, hwaiting⟩, t, ht, hrunnable⟩

end Inner

/-! ## The counters -/

/-- The counters of a pool in which `registered` threads are in `threads_`, `counted` of them wait,
`new` are being created, and the tasks `held` are in hand. -/
structure Counters (s : Inner) (registered counted new : Nat) (held : List SequencedTask) :
    Prop where
  threads : s.threads = registered
  waiting : s.waitingThreadCount = counted
  creating : new = if s.threadBeingCreated then 1 else 0
  bound : s.threads + (if s.threadBeingCreated then 1 else 0) ≤ s.maxThreads
  blockingThreads : s.blockingShutdownThreadCount = held.countP SequencedTask.holds
  blockingPending :
    s.blockingShutdownPendingTaskCount = s.pendingTasks.tasks.countP SequencedTask.blocks
  current : ∀ token, token ∈ s.currentSequences ↔ token ∈ held.filterMap SequencedTask.token?
  exclusive : (held.filterMap SequencedTask.token?).Nodup
  numbered : ∀ t ∈ s.pendingTasks.tasks, t.sequenceTaskNumber < s.nextSequenceTaskNumber

namespace Counters

variable {s s' : Inner} {r c n k : Nat} {held held' : List SequencedTask} {t : SequencedTask}
  {now : Int}

theorem new (maxThreads : Nat) : Counters (.new maxThreads) 0 0 0 [] := by
  constructor <;> simp [Inner.new, PendingTaskSet.empty]

theorem perm (h : Counters s r c n held) (hp : held'.Perm held) : Counters s r c n held' :=
  { h with
    blockingThreads := hp.countP_eq _ ▸ h.blockingThreads
    current := fun token => (h.current token).trans (hp.symm.filterMap _).mem_iff
    exclusive := (hp.symm.filterMap _).nodup_iff.mp h.exclusive }

theorem runnable_iff (h : Counters s r c n held) :
    s.isSequenceTokenRunnable t.sequenceTokenId = true ↔
      ∀ u ∈ held, t.sequenceTokenId ≠ 0 → u.sequenceTokenId ≠ t.sequenceTokenId := by
  have hmem : t.sequenceTokenId ∈ s.currentSequences ↔
      ∃ u ∈ held, u.sequenceTokenId ≠ 0 ∧ u.sequenceTokenId = t.sequenceTokenId := by
    rw [h.current, List.mem_filterMap]
    simp [SequencedTask.token?]
  simp only [Inner.isSequenceTokenRunnable, Bool.or_eq_true, beq_iff_eq, decide_eq_true_eq, hmem]
  grind

theorem addThread (h : Counters s r c (n + 1) held) : Counters s.addThread (r + 1) c n held := by
  have hcreating := h.creating
  have htbc : s.threadBeingCreated = true := by
    by_contra hno
    rw [if_neg hno] at hcreating
    omega
  rw [if_pos htbc] at hcreating
  have hbound := h.bound
  rw [if_pos htbc] at hbound
  exact { h with
    threads := congrArg (· + 1) h.threads
    creating := Nat.succ.inj hcreating
    bound := hbound }

theorem stopWaiting (h : Counters s r (c + 1) n held) : Counters s.stopWaiting r c n held :=
  { h with waiting := by rw [Inner.stopWaiting, h.waiting]; rfl }

theorem startWaiting (h : Counters s r c n held) :
    Counters { s with waitingThreadCount := s.waitingThreadCount + 1 } r (c + 1) n held :=
  { h with waiting := congrArg (· + 1) h.waiting }

theorem prepare (h : Counters s r c n held) :
    Counters s.prepareToStartAdditionalThreadIfHelpful.2 r c
      (n + if s.prepareToStartAdditionalThreadIfHelpful.1 ≠ 0 then 1 else 0) held := by
  rcases s.prepare_cases with ⟨hs, -⟩ | ⟨hs, -, htbc, hbound⟩
  · rw [hs]
    exact h
  · rw [hs, if_pos (Nat.succ_ne_zero _)]
    have hcreating := h.creating
    rw [if_neg (by simp [htbc])] at hcreating
    exact { h with
      creating := congrArg (· + 1) hcreating
      bound := hbound }

theorem didRun (h : Counters s r c n (t :: held)) : Counters (s.didRunWorkerTask t) r c n held := by
  have hblocking := h.blockingThreads
  have hexclusive := h.exclusive
  have hcurrent := h.current
  rw [List.countP_cons] at hblocking
  rw [List.filterMap_cons] at hexclusive hcurrent
  have htoken : t.token? = if t.sequenceTokenId ≠ 0 then some t.sequenceTokenId else none := rfl
  refine { h with blockingThreads := ?_, current := ?_, exclusive := ?_ }
  · simp only [Inner.didRunWorkerTask]
    rw [hblocking]
    by_cases hb : t.shutdownBehavior = .continueOnShutdown <;> simp [SequencedTask.holds, hb]
  · intro token
    simp only [Inner.didRunWorkerTask]
    split_ifs with h0
    · rw [htoken, if_pos h0] at hexclusive hcurrent
      rw [Finset.mem_erase, hcurrent, List.mem_cons]
      have hout := (List.nodup_cons.mp hexclusive).1
      constructor
      · rintro ⟨hne, rfl | hmem⟩
        · exact absurd rfl hne
        · exact hmem
      · exact fun hmem => ⟨fun heq => hout (heq ▸ hmem), .inr hmem⟩
    · rw [htoken, if_neg h0] at hcurrent
      exact hcurrent token
  · split at hexclusive
    · exact hexclusive
    · exact (List.nodup_cons.mp hexclusive).2

theorem willRun (h : Counters s r c n held)
    (ht : s.isSequenceTokenRunnable t.sequenceTokenId = true) :
    Counters (s.willRunWorkerTask t).2 r c (n + if (s.willRunWorkerTask t).1 ≠ 0 then 1 else 0)
      (t :: held) := by
  refine prepare ?_
  have htoken : t.token? = if t.sequenceTokenId ≠ 0 then some t.sequenceTokenId else none := rfl
  refine { h with blockingThreads := ?_, current := ?_, exclusive := ?_ }
  · rw [List.countP_cons, ← h.blockingThreads]
    by_cases hb : t.shutdownBehavior = .continueOnShutdown <;> simp [SequencedTask.holds, hb]
  · intro token
    rw [List.filterMap_cons, htoken]
    by_cases h0 : t.sequenceTokenId = 0
    · simpa [h0] using h.current token
    · simp only [ne_eq, h0, not_false_eq_true, if_true, Finset.mem_insert, List.mem_cons,
        h.current]
  · rw [List.filterMap_cons, htoken]
    split_ifs with h0
    · refine List.nodup_cons.mpr ⟨?_, h.exclusive⟩
      rw [← h.current]
      simpa [Inner.isSequenceTokenRunnable, h0] using ht
    · exact h.exclusive

theorem getWork (h : Counters s r c n held) (now : Int) :
    Counters (s.getWork now).2 r c n held := by
  have hscan := scan_scans s.isSequenceTokenRunnable s.shutdownCalled now s.pendingTasks.tasks
  refine { h with
    blockingPending := ?_, numbered := fun t ht => h.numbered t (hscan.sublist.mem ht) }
  have hpending := h.blockingPending
  rw [hscan.perm.countP_eq, List.countP_append, List.countP_append] at hpending
  have hdeleted : (scan s.isSequenceTokenRunnable s.shutdownCalled now
      s.pendingTasks.tasks).deleteTheseOutsideLock.countP SequencedTask.blocks = 0 :=
    List.countP_eq_zero.mpr fun u hu => by simp [(hscan.deleted hu).2.2.2]
  rw [hdeleted] at hpending
  simp only [Inner.getWork]
  cases hstatus : (scan s.isSequenceTokenRunnable s.shutdownCalled now
      s.pendingTasks.tasks).status.task? with
  | none =>
    rw [hstatus] at hpending
    simpa using hpending
  | some t =>
    rw [hstatus] at hpending
    simp only [Option.toList_some, List.countP_singleton] at hpending
    simp only [Option.any_some]
    split
    · next hb =>
      rw [if_pos hb] at hpending
      omega
    · next hb =>
      rw [if_neg hb] at hpending
      omega

theorem accepts (h : Counters s r c n held) {call : PostCall} {timeToRun : Int}
    (ha : s.Accepts call timeToRun t k s') :
    Counters s' r c (n + if k ≠ 0 then 1 else 0) held := by
  obtain ⟨last, names, budget, -, hs⟩ := ha.inserts
  obtain ⟨rfl, rfl⟩ := Prod.mk.injEq .. ▸ hs
  refine prepare { h with blockingPending := ?_, numbered := ?_ }
  · have hinsert := insertTask_perm (l := s.pendingTasks.tasks) (t := t)
      fun u hu => ha.number ▸ (h.numbered u hu).ne
    simp only [Inner.withPending, PendingTaskSet.insert]
    rw [hinsert.countP_eq, List.countP_cons, ← h.blockingPending]
    split <;> rfl
  · intro u hu
    rcases mem_of_mem_insertTask hu with rfl | hu
    · exact ha.number ▸ Nat.lt_succ_self _
    · exact (h.numbered u hu).trans (Nat.lt_succ_self _)

/-- A pass of the loop, by a worker that holds nothing. -/
theorem passes (h : Counters s r c n held) {pc : WorkerPc} (hp : Passes s now s' pc) :
    Counters s' r (c + if pc.isCounted then 1 else 0) (n + if pc.isNew then 1 else 0)
      (pc.task?.toList ++ held) := by
  cases hp with
  | @found t hstatus =>
    have hscan := scan_scans s.isSequenceTokenRunnable s.shutdownCalled now s.pendingTasks.tasks
    have hrunnable := (hscan.runs hstatus s.pendingTasks.sorted).1
    have h := (h.getWork now).willRun (t := t) hrunnable
    simpa [WorkerPc.isNew, WorkerPc.isCounted, WorkerPc.task?] using h
  | leaves => exact h.getWork now
  | deletes => exact h.getWork now
  | waits => exact (h.getWork now).startWaiting

end Counters

/-! ## The counters of a run -/

def held (workers : List WorkerPc) : List SequencedTask := workers.filterMap WorkerPc.task?

@[simp] theorem held_cons (pc : WorkerPc) (workers : List WorkerPc) :
    held (pc :: workers) = pc.task?.toList ++ held workers := by
  unfold held
  rw [List.filterMap_cons]
  cases pc.task? <;> rfl

abbrev Counts (s : Inner) (workers : List WorkerPc) (posts : List Post) : Prop :=
  Counters s (workers.countP WorkerPc.isRegistered) (workers.countP WorkerPc.isCounted)
    (workers.countP WorkerPc.isNew + posts.countP Post.isNew) (held workers)

namespace Counts

variable {s s' : Inner} {workers workers' rest : List WorkerPc} {posts posts' : List Post}
  {a b : WorkerPc} {es : List PoolEvent} {now : Int}

theorem congr (h : Counts s workers posts)
    (hr : workers'.countP WorkerPc.isRegistered = workers.countP WorkerPc.isRegistered)
    (hc : workers'.countP WorkerPc.isCounted = workers.countP WorkerPc.isCounted)
    (hn : workers'.countP WorkerPc.isNew + posts'.countP Post.isNew =
      workers.countP WorkerPc.isNew + posts.countP Post.isNew)
    (ht : (held workers').Perm (held workers)) : Counts s workers' posts' := by
  unfold Counts
  rw [hr, hc, hn]
  exact h.perm ht

theorem perm (h : Counts s workers posts) (hw : workers'.Perm workers) : Counts s workers' posts :=
  h.congr (hw.countP_eq _) (hw.countP_eq _) (by rw [hw.countP_eq]) (hw.filterMap _)

theorem move (h : Counts s (a :: rest) posts) (hr : b.isRegistered = a.isRegistered)
    (hc : b.isCounted = a.isCounted) (hn : b.isNew = a.isNew) (ht : b.task? = a.task?) :
    Counts s (b :: rest) posts := by
  refine h.congr ?_ ?_ ?_ ?_
  · rw [List.countP_cons, List.countP_cons, hr]
  · rw [List.countP_cons, List.countP_cons, hc]
  · rw [List.countP_cons, List.countP_cons, hn]
  · rw [held_cons, held_cons, ht]

theorem pcMoves (h : Counts s (a :: rest) posts) (hm : PcMoves a b es) :
    Counts s (b :: rest) posts := by
  cases hm <;> exact h.move rfl rfl rfl rfl

theorem pcSignals (h : Counts s (a :: rest) posts) (hm : PcSignals a b) :
    Counts s (b :: rest) posts := by
  cases hm <;> exact h.move rfl rfl rfl rfl

theorem wakes (h : Counts s workers posts) (hw : Wakes workers workers') :
    Counts s workers' posts := by
  cases hw with
  | none hw _ => exact h.perm hw
  | wakes hw hw' =>
    have hwoken : Counts s (.woken :: _) posts := (h.perm hw.symm).move rfl rfl rfl rfl
    exact hwoken.perm hw'

/-- A worker that takes the lock is in `threads_` and holds nothing. -/
theorem enter (h : Counts s (a :: rest) posts) (ha : a.enters s = some s') :
    Counters s' (rest.countP WorkerPc.isRegistered + 1) (rest.countP WorkerPc.isCounted)
      (rest.countP WorkerPc.isNew + posts.countP Post.isNew) (held rest) := by
  unfold Counts at h
  simp only [List.countP_cons, held_cons] at h
  cases a with
  | looking =>
    cases ha
    exact h
  | starting =>
    cases ha
    simp only [WorkerPc.isNew, if_true, Nat.add_right_comm _ 1] at h
    exact h.addThread
  | woken =>
    cases ha
    exact h.stopWaiting
  | ran task =>
    cases ha
    exact h.didRun
  | found | signalled | running | deleting | waiting | leaving | left | exited => cases ha

theorem pass (h : Counts s (a :: rest) posts) {s₁ : Inner} (ha : a.enters s = some s₁)
    (hp : Passes s₁ now s' b) : Counts s' (b :: rest) posts := by
  have hpass := h.enter ha |>.passes hp
  unfold Counts
  simp only [List.countP_cons, held_cons]
  have hb : b.isRegistered = true := by cases hp <;> rfl
  rw [hb, Nat.add_right_comm (rest.countP WorkerPc.isNew)]
  exact hpass

theorem create (h : Counts s workers posts)
    (hp : posts'.countP Post.isNew + 1 = posts.countP Post.isNew) :
    Counts s (.starting :: workers) posts' := by
  refine h.congr ?_ ?_ ?_ (.refl _)
  · exact List.countP_cons_of_neg (by simp [WorkerPc.isRegistered])
  · exact List.countP_cons_of_neg (by simp [WorkerPc.isCounted])
  · rw [List.countP_cons_of_pos rfl]
    omega

end Counts

def WorkerPool.Counted (s : WorkerPool) : Prop := Counts s.inner s.workers s.posts

theorem Moves.counted {s s' : WorkerPool} {a : PoolAction} (hm : Moves s a s') (h : s.Counted) :
    s'.Counted := by
  unfold WorkerPool.Counted at *
  cases hm with
  | idles hnow => exact { h with }
  | passes hw hw' henters hpass => exact ((h.perm hw.symm).pass henters hpass).perm hw'
  | moves hw hw' hmove => exact ((h.perm hw.symm).pcMoves hmove).perm hw'
  | signals hw hwakes hsignal => exact ((h.perm hw.symm).pcSignals hsignal).wakes hwakes
  | @creates task n deletes workers' rest hw hn hw' =>
    suffices hstart : Counts s.inner (.starting :: .running task :: rest) s.posts from
      hstart.perm hw'
    refine (h.perm hw.symm).congr ?_ ?_ ?_ (.refl _)
    · simp [List.countP_cons, WorkerPc.isRegistered]
    · simp [WorkerPc.isCounted]
    · simp [List.countP_cons, WorkerPc.isNew, hn]
  | exits hw hw' =>
    have hexited : Counts s.inner (.exited :: _) s.posts := (h.perm hw.symm).move rfl rfl rfl rfl
    exact hexited.perm hw'
  | @calls post posts' call hp hpc =>
    refine h.congr rfl rfl ?_ (.refl _)
    rw [hp.countP_eq, List.countP_cons_of_neg (by simp [Post.isNew, hpc])]
  | @enqueues k caller call time task n inner' posts' rest hk hp hp' hpost =>
    have hcount : posts'.countP Post.isNew =
        s.posts.countP Post.isNew + if n ≠ 0 then 1 else 0 := by
      rw [hp.countP_eq, hp'.countP_eq, List.countP_cons, List.countP_cons]
      simp [Post.isNew]
    unfold Counts
    rw [hcount, ← Nat.add_assoc]
    exact Counters.accepts h (Inner.postTask_accepts hpost)
  | @refuses post posts' call time hp hpc =>
    refine h.congr rfl rfl ?_ (.refl _)
    rw [hp.countP_eq, List.countP_cons_of_neg (by simp [Post.isNew, hpc])]
  | @postCreates post posts' workers' n hp hpc hn hw =>
    refine (h.create ?_).perm hw
    rw [hp.countP_eq, List.countP_cons_of_pos (by simp [Post.isNew, hpc, hn])]
  | @postSignals post posts' workers' hp hpc hwakes =>
    refine Counts.wakes (h.congr rfl rfl ?_ (.refl _)) hwakes
    rw [hp.countP_eq, List.countP_cons_of_neg (by simp [Post.isNew, hpc])]
  | callsShutdown hno heq hwakes =>
    subst heq
    exact Counts.wakes { h with } hwakes
  | shutdownMoves hmove => exact h

theorem counted_reach {maxThreads : Nat} {ok : WorkerPool → PoolAction → Prop} {s : WorkerPool}
    (hr : (poolMachine maxThreads).Reach ok s) : s.Counted := by
  refine hr.invariant (I := WorkerPool.Counted) ?_ ?_
  · rintro _ ⟨now, rfl⟩
    exact Counters.new maxThreads
  · intro s a s' h _ hs
    exact (WorkerPool.step_moves hs).counted h

theorem Moves.maxThreads_eq {s s' : WorkerPool} {a : PoolAction} (hm : Moves s a s') :
    s'.inner.maxThreads = s.inner.maxThreads := by
  cases hm with
  | @passes pc pc' inner inner' workers' rest hw hw' henters hpass =>
    have henter : inner.maxThreads = s.inner.maxThreads := by cases pc <;> cases henters <;> rfl
    refine Eq.trans ?_ henter
    cases hpass with
    | found _ =>
      obtain ⟨b, -, hprepare⟩ := Inner.prepare_eq _
      rw [Inner.willRunWorkerTask, hprepare]
      rfl
    | leaves _ _ _ | deletes _ _ | waits _ _ _ => rfl
  | enqueues hk hp hp' hpost =>
    obtain ⟨last, names, budget, b, rfl, -, -⟩ := (Inner.postTask_accepts hpost).eq
    rfl
  | callsShutdown _ heq _ =>
    subst heq
    rfl
  | _ => rfl

theorem maxThreads_reach {maxThreads : Nat} {ok : WorkerPool → PoolAction → Prop}
    {s : WorkerPool} (hr : (poolMachine maxThreads).Reach ok s) :
    s.inner.maxThreads = maxThreads := by
  refine hr.invariant (I := fun s => s.inner.maxThreads = maxThreads) ?_ ?_
  · rintro _ ⟨now, rfl⟩
    rfl
  · intro s a s' h _ hs
    exact (WorkerPool.step_moves hs).maxThreads_eq.trans h

theorem WorkerPool.Counted.length_le {s : WorkerPool} (hc : s.Counted) :
    s.workers.length ≤ s.inner.maxThreads := by
  have hthreads := hc.threads
  have hcreating := hc.creating
  have hbound := hc.bound
  have hstarting : s.workers.length ≤
      s.workers.countP WorkerPc.isRegistered + s.workers.countP WorkerPc.isNew := by
    rw [s.workers.length_eq_countP_add_countP WorkerPc.isRegistered]
    have : s.workers.countP (fun w => decide ¬ w.isRegistered = true) ≤
        s.workers.countP WorkerPc.isNew := by
      refine List.countP_mono_left fun w _ hw => ?_
      cases w <;> simp_all [WorkerPc.isRegistered, WorkerPc.isNew]
    omega
  omega

/-- **A pool is bounded**: it never has more workers than `max_threads_`, and creates one at a
time, whatever order the posts and the workers come in. -/
theorem pool_threads_bounded {maxThreads : Nat} {s : WorkerPool}
    (hr : (poolMachine maxThreads).Reachable s) : s.workers.length ≤ maxThreads ∧
      s.workers.countP WorkerPc.isNew + s.posts.countP Post.isNew ≤ 1 := by
  have hc := counted_reach hr
  have hnew := hc.creating
  refine ⟨maxThreads_reach hr ▸ hc.length_le, ?_⟩
  split at hnew <;> omega

theorem pool_threads_bounded_two : ∃ s, (poolMachine 2).Reachable s ∧ s.posts.length = 2 ∧
    s.workers.length ≤ 2 ∧ s.workers.countP WorkerPc.isNew + s.posts.countP Post.isNew ≤ 1 := by
  obtain ⟨s, hr, hs⟩ := Machine.exists_reachable (M := poolMachine 2) (s := .start 2 5) ⟨5, rfl⟩
    [.post none (postWorkerTask 0), .post none (postWorkerTask 1), .enqueue 0, .enqueue 1]
    (p := fun s => decide (s.posts.length = 2)) (by decide)
  exact ⟨s, hr, of_decide_eq_true hs, pool_threads_bounded hr⟩

end Mdgate.Pool
