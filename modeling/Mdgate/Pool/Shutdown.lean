import Mdgate.Pool.Sequences

/-!
# Shutting down a worker pool

What becomes of the tasks when `Shutdown` is called: which are still taken, which are deleted,
which are still accepted, and which have run when it returns.
-/

namespace Mdgate.Pool

open Lib

def Called (log : List PoolEvent) : Prop := ∃ max, .shutdownCalled max ∈ log

/-- The tasks that `Shutdown` waits for have run. -/
structure Settled (before : List PoolEvent) : Prop where
  blocking : ∀ t, .accepted t ∈ before → t.shutdownBehavior = .blockShutdown →
    .finished t ∈ before
  running : ∀ t, .taken t ∈ before → t.shutdownBehavior ≠ .continueOnShutdown →
    .finished t ∈ before

/-- What an event has to do with the shutdown. -/
def AroundShutdown (before : List PoolEvent) : PoolEvent → Prop
  | .accepted t => Called before → t.shutdownBehavior = .blockShutdown
  | .taken t => Called before → t.shutdownBehavior = .blockShutdown
  | .deleted t => Called before ∧ t.shutdownBehavior ≠ .blockShutdown
  | .finished _ => True
  | .shutdownCalled _ => ¬ Called before
  | .shutdownReturned => Called before ∧ Settled before

/-- What the shutdown makes of the tasks. -/
structure ShutsDown (log : List PoolEvent) : Prop where
  events : Log.Each AroundShutdown log
  budget : ∀ before max after, log = before ++ .shutdownCalled max :: after →
    (acceptedTasks after).length ≤ max

theorem SequencedTask.blocks_iff {t : SequencedTask} :
    t.blocks = true ↔ t.shutdownBehavior = .blockShutdown := beq_iff_eq

variable {log es : List PoolEvent} {e : PoolEvent} {s s' : WorkerPool}

theorem called_concat : Called (log ++ [e]) ↔ Called log ∨ ∃ max, e = .shutdownCalled max := by
  unfold Called
  simp only [List.mem_append, List.mem_singleton]
  grind

/-- The log and the state agree on the shutdown. -/
structure Shutting (s : Inner) (log : List PoolEvent) : Prop where
  called : s.shutdownCalled = true ↔ Called log
  events : Log.Each AroundShutdown log
  budget : ∀ before max after, log = before ++ .shutdownCalled max :: after →
    (acceptedTasks after).length + s.maxBlockingTasksAfterShutdown = max

namespace Shutting

variable {s s' s₁ : Inner} {t : SequencedTask} {now : Int} {pc : WorkerPc}

theorem new (maxThreads : Nat) : Shutting (.new maxThreads) [] := by
  refine ⟨?_, .nil, ?_⟩
  · simp [Inner.new, Called]
  · intro before max after h
    simp at h

theorem congr (h : Shutting s log) (hs : s'.shutdownCalled = s.shutdownCalled)
    (hb : s'.maxBlockingTasksAfterShutdown = s.maxBlockingTasksAfterShutdown) :
    Shutting s' log :=
  ⟨hs ▸ h.called, h.events, hb ▸ h.budget⟩

/-- An event other than a task that is accepted and a call of `Shutdown`. -/
theorem logs (h : Shutting s log) (he : AroundShutdown log e) (ha : e.accepted? = none)
    (hc : ∀ max, e ≠ .shutdownCalled max) : Shutting s (log ++ [e]) where
  called := by
    rw [h.called, called_concat]
    simp [hc]
  events := h.events.concat he
  budget before max after hlog := by
    rcases List.eq_nil_or_concat after with rfl | ⟨after', e', rfl⟩
    · exact absurd (List.append_inj' hlog rfl).2 (by simp [hc])
    · rw [List.concat_eq_append] at hlog ⊢
      rw [← List.cons_append, ← List.append_assoc] at hlog
      obtain ⟨hsplit, he'⟩ := List.append_inj' hlog rfl
      cases he'
      rw [acceptedTasks_concat, ha, Option.toList_none, List.append_nil]
      exact h.budget before max after' hsplit

theorem accepts (h : Shutting s log) (hs : s'.shutdownCalled = s.shutdownCalled)
    (ht : s.shutdownCalled = true → t.shutdownBehavior = .blockShutdown)
    (hb : s.shutdownCalled = true →
      s'.maxBlockingTasksAfterShutdown + 1 = s.maxBlockingTasksAfterShutdown) :
    Shutting s' (log ++ [.accepted t]) where
  called := by
    rw [hs, h.called, called_concat]
    simp
  events := h.events.concat fun hcalled => ht (h.called.mpr hcalled)
  budget before max after hlog := by
    rcases List.eq_nil_or_concat after with rfl | ⟨after', e', rfl⟩
    · exact absurd (List.append_inj' hlog rfl).2 (by simp)
    · rw [List.concat_eq_append] at hlog ⊢
      rw [← List.cons_append, ← List.append_assoc] at hlog
      obtain ⟨hsplit, he'⟩ := List.append_inj' hlog rfl
      cases he'
      have hcalled : s.shutdownCalled = true := h.called.mpr ⟨max, by simp [hsplit]⟩
      have := h.budget before max after' hsplit
      have := hb hcalled
      simp only [acceptedTasks_concat, PoolEvent.accepted?, Option.toList_some,
        List.length_append, List.length_singleton]
      omega

theorem calls (h : Shutting s log) (hs : s.shutdownCalled = false) (max : Nat) :
    Shutting { s with shutdownCalled := true, maxBlockingTasksAfterShutdown := max }
      (log ++ [.shutdownCalled max]) where
  called := by
    rw [called_concat]
    simp
  events := h.events.concat (show ¬ Called log by rw [← h.called]; simp [hs])
  budget before max' after hlog := by
    have hno : ¬ Called log := by
      rw [← h.called]
      simp [hs]
    rcases Log.concat_eq_split hlog with ⟨rfl, he⟩ | ⟨after', rfl⟩
    · cases he
      have : after = [] := by simpa using hlog
      subst this
      exact Nat.zero_add _
    · exact absurd ⟨max', by simp⟩ hno

theorem deletes (h : Shutting s log) {ds : List SequencedTask}
    (hds : ∀ d ∈ ds, s.shutdownCalled = true ∧ d.blocks = false) :
    Shutting s (log ++ ds.map .deleted) := by
  induction ds using List.reverseRecOn with
  | nil => simpa using h
  | append_singleton ds d ih =>
    have ih := ih fun d' hd' => hds d' (List.mem_append_left _ hd')
    obtain ⟨hcalled, hd⟩ := hds d (List.mem_append_right _ List.mem_cons_self)
    rw [List.map_append, ← List.append_assoc]
    refine ih.logs ⟨ih.called.mp hcalled, ?_⟩ rfl (by simp)
    rw [Ne, ← SequencedTask.blocks_iff, hd]
    exact Bool.false_ne_true

end Shutting

/-- `CanShutdown` tells that there is nothing to wait for. -/
theorem settled_of_canShutdown (h : Shutting s.inner s.log) (hl : s.IsLogged) (hc : s.Counted)
    (hcan : s.inner.canShutdown = true) : Settled s.log := by
  simp only [Inner.canShutdown, Bool.and_eq_true, beq_iff_eq] at hcan
  have hheld : ∀ t ∈ held s.workers, t.shutdownBehavior = .continueOnShutdown := by
    have := hc.blockingThreads.symm.trans hcan.1.2
    rw [List.countP_eq_zero] at this
    simpa [SequencedTask.holds] using this
  have hpending : ∀ t ∈ s.inner.pendingTasks.tasks, t.blocks = false := by
    have := hc.blockingPending.symm.trans hcan.2
    rw [List.countP_eq_zero] at this
    simpa using this
  have hrunning : ∀ t, .taken t ∈ s.log → t.shutdownBehavior ≠ .continueOnShutdown →
      .finished t ∈ s.log := by
    intro t ht hb
    rw [← mem_takenTasks, hl.inHand.mem_iff, List.mem_append] at ht
    rcases ht with ht | ht
    · exact mem_finishedTasks.mp ht
    · exact absurd (hheld t (mem_held_of_mem_unfinished ht)) hb
  refine ⟨?_, hrunning⟩
  intro t ht hb
  rw [← mem_acceptedTasks, hl.accounted.mem_iff, List.mem_append, List.mem_append] at ht
  rcases ht with ht | ht | ht
  · exact hrunning t (mem_takenTasks.mp ht) (by simp [hb])
  · obtain ⟨l, l', hlog⟩ := List.append_of_mem (mem_deletedTasks.mp ht)
    exact absurd hb (h.events l _ l' hlog).2
  · have := hpending t ht
    rw [SequencedTask.blocks_iff.mpr hb] at this
    cases this

theorem enters_shutdown {pc : WorkerPc} {s₁ s : Inner} (ha : pc.enters s = some s₁) :
    s₁.shutdownCalled = s.shutdownCalled ∧
      s₁.maxBlockingTasksAfterShutdown = s.maxBlockingTasksAfterShutdown := by
  cases pc <;> cases ha <;> exact ⟨rfl, rfl⟩

theorem Passes.shutdown_eq {s s' : Inner} {now : Int} {pc : WorkerPc} (h : Passes s now s' pc) :
    s'.shutdownCalled = s.shutdownCalled ∧
      s'.maxBlockingTasksAfterShutdown = s.maxBlockingTasksAfterShutdown := by
  cases h with
  | found hstatus =>
    obtain ⟨b, -, hprepare⟩ := Inner.prepare_eq _
    rw [Inner.willRunWorkerTask, hprepare]
    exact ⟨rfl, rfl⟩
  | leaves _ _ _ | deletes _ _ | waits _ _ _ => exact ⟨rfl, rfl⟩

theorem Shutting.passes {s s' : Inner} {now : Int} {pc : WorkerPc} (h : Shutting s log)
    (hp : Passes s now s' pc) : Shutting s' (log ++ pc.events) := by
  have hscan := Passes.scans s now
  rw [hp.events_eq, ← List.append_assoc]
  refine congr ?_ hp.shutdown_eq.1 hp.shutdown_eq.2
  have hdeletes := h.deletes fun d hd => (hscan.deleted hd).2.2
  cases hstatus : (s.getWork now).1.status with
  | found t =>
    refine hdeletes.logs ?_ rfl (by simp)
    intro hcalled
    have := (hscan.runs hstatus s.pendingTasks.sorted).2.2.1 (hdeletes.called.mpr hcalled)
    exact SequencedTask.blocks_iff.mp this
  | notFound | wait =>
    simp only [GetWorkStatus.task?, Option.toList_none, List.map_nil, List.append_nil]
    exact hdeletes

/-- The log, the state and the thread that calls `Shutdown` agree. -/
structure WorkerPool.ShuttingDown (s : WorkerPool) : Prop where
  log : Shutting s.inner s.log
  called : s.shutdown ≠ .notCalled → s.inner.shutdownCalled = true

theorem Moves.shuttingDown {a : PoolAction} (hm : Moves s a s') (h : s.ShuttingDown)
    (hl : s.IsLogged) (hc : s.Counted) : s'.ShuttingDown := by
  obtain ⟨h, hcalled⟩ := h
  cases hm with
  | idles hnow => exact ⟨h.congr rfl rfl, hcalled⟩
  | passes hw hw' henters hpass =>
    have henter := enters_shutdown henters
    refine ⟨(h.congr henter.1 henter.2).passes hpass, ?_⟩
    rw [hpass.shutdown_eq.1, henter.1]
    exact hcalled
  | moves hw hw' hmove =>
    refine ⟨?_, hcalled⟩
    cases hmove with
    | clears | wakes | runs => simpa using h
    | returns => exact h.logs trivial rfl (by simp)
  | signals _ _ _ | creates _ _ _ | calls _ _ | refuses _ _ | postCreates _ _ _ _
  | postSignals _ _ _ => exact ⟨h, hcalled⟩
  | exits _ _ =>
    refine ⟨h, fun hpc => hcalled fun hno => ?_⟩
    simp [hno] at hpc
  | enqueues hk hp hp' hpost =>
    have haccepts := Inner.postTask_accepts hpost
    obtain ⟨last, names, budget, b, rfl, hbudget, -⟩ := haccepts.eq
    exact ⟨h.accepts rfl haccepts.blocks hbudget, hcalled⟩
  | @callsShutdown inner' max workers' hno heq hwakes =>
    subst heq
    refine ⟨?_, fun _ => rfl⟩
    have hcalls := h.calls hno max
    rw [List.append_cons]
    split
    · next hcan =>
      refine hcalls.logs ⟨hcalls.called.mp rfl, ?_⟩ rfl (by simp)
      have hsettled := settled_of_canShutdown h hl hc hcan
      exact ⟨by simpa using hsettled.blocking, by simpa using hsettled.running⟩
    · simpa using hcalls
  | shutdownMoves hmove =>
    cases hmove with
    | returns hpc hcan =>
      have hstarted := hcalled (by simp [hpc])
      refine ⟨h.logs ?_ rfl (by simp), fun _ => hstarted⟩
      exact ⟨h.called.mp hstarted, settled_of_canShutdown h hl hc hcan⟩
    | waits hpc _ | wakes hpc => exact ⟨by simpa using h, fun _ => hcalled (by simp [hpc])⟩
    | ignored _ _ hstarted => exact ⟨by simpa using h, fun _ => hstarted⟩

theorem shuttingDown_reach {maxThreads : Nat} {ok : WorkerPool → PoolAction → Prop}
    {s : WorkerPool} (hr : (poolMachine maxThreads).Reach ok s) : s.ShuttingDown := by
  refine hr.invariant_of (I := WorkerPool.ShuttingDown)
    (J := fun s => s.IsLogged ∧ s.Counted) (fun s h => ⟨isLogged_reach h, counted_reach h⟩) ?_ ?_
  · rintro _ ⟨now, rfl⟩
    exact ⟨.new maxThreads, fun h => absurd rfl h⟩
  · intro s a s' hj h _ hs
    exact (WorkerPool.step_moves hs).shuttingDown h hj.1 hj.2

/-- **What `Shutdown` promises**: once it is called, tasks that do not block it are neither
accepted nor taken, only such tasks are deleted, no more tasks are accepted than it lets, and when
it returns the tasks that block it have run, and so have those it found running. -/
theorem pool_shuts_down {maxThreads : Nat} {s : WorkerPool}
    (hr : (poolMachine maxThreads).Reachable s) : ShutsDown s.log := by
  obtain ⟨⟨-, hevents, hbudget⟩, -⟩ := shuttingDown_reach hr
  refine ⟨hevents, ?_⟩
  intro before max after hlog
  have := hbudget before max after hlog
  omega

/-- The task that runs is waited for, and the one that does not is deleted. -/
theorem pool_shuts_down_one : ∃ s, (poolMachine 1).Reachable s ∧
    s.log.any (· == .shutdownReturned) = true ∧ (deletedTasks s.log).map (·.task) = [1] ∧
    ShutsDown s.log := by
  obtain ⟨s, hr, hs⟩ := Machine.exists_reachable (M := poolMachine 1) (s := .start 1 5) ⟨5, rfl⟩
    [.post none (postWorkerTask 0), .enqueue 0, .finishPost 0 none, .worker 0 none,
      .worker 0 none, .worker 0 none, .post none (postDelayedWorkerTask 1 7), .enqueue 0,
      .finishPost 0 none, .callShutdown 0 none, .checkShutdown, .taskReturns 0, .worker 0 none,
      .worker 0 none, .worker 0 none, .checkShutdown]
    (p := fun s => decide (s.log.any (· == .shutdownReturned) = true ∧
      (deletedTasks s.log).map (·.task) = [1])) (by decide)
  obtain ⟨hreturned, hdeleted⟩ := of_decide_eq_true hs
  exact ⟨s, hr, hreturned, hdeleted, pool_shuts_down hr⟩

end Mdgate.Pool
