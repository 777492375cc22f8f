import Mdgate.Lib.Log
import Mdgate.Pool.Counters

/-!
# Tasks in sequence

Each task that `PostTask` accepts is taken by one worker once, or deleted, or still pending. The
tasks of a sequence run one at a time, in the order of their times to run, and of their numbers
where the times are the same.
-/

namespace Mdgate.Pool

open Lib

namespace PoolEvent

def accepted? : PoolEvent → Option SequencedTask
  | accepted task => some task
  | _ => none

def taken? : PoolEvent → Option SequencedTask
  | taken task => some task
  | _ => none

def finished? : PoolEvent → Option SequencedTask
  | finished task => some task
  | _ => none

def deleted? : PoolEvent → Option SequencedTask
  | deleted task => some task
  | _ => none

end PoolEvent

section

variable (log : List PoolEvent)

def acceptedTasks : List SequencedTask := log.filterMap PoolEvent.accepted?
def takenTasks : List SequencedTask := log.filterMap PoolEvent.taken?
def finishedTasks : List SequencedTask := log.filterMap PoolEvent.finished?
def deletedTasks : List SequencedTask := log.filterMap PoolEvent.deleted?

variable {log} {t : SequencedTask}

theorem mem_tasks {task? : PoolEvent → Option SequencedTask} {event : SequencedTask → PoolEvent}
    (h : ∀ e t, task? e = some t ↔ e = event t) : t ∈ log.filterMap task? ↔ event t ∈ log := by
  simp [List.mem_filterMap, h]

theorem tasks_concat (task? : PoolEvent → Option SequencedTask) (e : PoolEvent) :
    (log ++ [e]).filterMap task? = log.filterMap task? ++ (task? e).toList := by
  rw [List.filterMap_append, List.filterMap_cons]
  cases task? e <;> rfl

@[simp] theorem acceptedTasks_concat (e : PoolEvent) :
    acceptedTasks (log ++ [e]) = acceptedTasks log ++ e.accepted?.toList := tasks_concat _ e

@[simp] theorem takenTasks_concat (e : PoolEvent) :
    takenTasks (log ++ [e]) = takenTasks log ++ e.taken?.toList := tasks_concat _ e

@[simp] theorem finishedTasks_concat (e : PoolEvent) :
    finishedTasks (log ++ [e]) = finishedTasks log ++ e.finished?.toList := tasks_concat _ e

@[simp] theorem deletedTasks_concat (e : PoolEvent) :
    deletedTasks (log ++ [e]) = deletedTasks log ++ e.deleted?.toList := tasks_concat _ e

@[simp] theorem mem_acceptedTasks : t ∈ acceptedTasks log ↔ .accepted t ∈ log :=
  mem_tasks fun e t => by cases e <;> simp [PoolEvent.accepted?]

@[simp] theorem mem_takenTasks : t ∈ takenTasks log ↔ .taken t ∈ log :=
  mem_tasks fun e t => by cases e <;> simp [PoolEvent.taken?]

@[simp] theorem mem_finishedTasks : t ∈ finishedTasks log ↔ .finished t ∈ log :=
  mem_tasks fun e t => by cases e <;> simp [PoolEvent.finished?]

@[simp] theorem mem_deletedTasks : t ∈ deletedTasks log ↔ .deleted t ∈ log :=
  mem_tasks fun e t => by cases e <;> simp [PoolEvent.deleted?]

end

/-- The tasks are of one sequence. -/
def SequencedTask.Same (a b : SequencedTask) : Prop :=
  b.sequenceTokenId ≠ 0 ∧ a.sequenceTokenId = b.sequenceTokenId

/-- What has happened to the tasks of `t`'s sequence when a worker takes `t`. -/
def InOrder (before : List PoolEvent) : PoolEvent → Prop
  | .taken t =>
    (∀ u, .taken u ∈ before → u.Same t → .finished u ∈ before) ∧
      ∀ u, .accepted u ∈ before → u.Same t → u.lessThan t = true →
        .finished u ∈ before ∨ .deleted u ∈ before
  | _ => True

/-- The log of a pool and the tasks it has not taken. -/
structure Sequenced (log : List PoolEvent) (pending : List SequencedTask) : Prop where
  accounted : (acceptedTasks log).Perm (takenTasks log ++ (deletedTasks log ++ pending))
  once : (acceptedTasks log).Nodup
  inOrder : Log.Each InOrder log

/-! ## Passes -/

namespace Passes

variable {s s' : Inner} {now : Int} {pc : WorkerPc}

theorem scans (s : Inner) (now : Int) : Scans s.isSequenceTokenRunnable s.shutdownCalled now
    s.pendingTasks.tasks (s.getWork now).1 := scan_scans _ _ _ _

theorem events_eq (h : Passes s now s' pc) : pc.events =
    (s.getWork now).1.deleteTheseOutsideLock.map .deleted ++
      (s.getWork now).1.status.task?.toList.map .taken := by
  cases h with
  | found hstatus =>
    rw [hstatus]
    rfl
  | leaves htask _ _ => simp [WorkerPc.events, htask]
  | deletes htask _ => simp [WorkerPc.events, htask]
  | waits hstatus _ hdeletes =>
    have htask : (s.getWork now).1.status.task? = none := by
      rcases hstatus with ⟨h, -⟩ | ⟨time, h, -⟩ <;> rw [h] <;> rfl
    simp [WorkerPc.events, htask, hdeletes]

theorem unfinished_eq (h : Passes s now s' pc) :
    pc.unfinished? = (s.getWork now).1.status.task? := by
  cases h with
  | found hstatus =>
    rw [hstatus]
    rfl
  | leaves htask _ _ => exact htask.symm
  | deletes htask _ => exact htask.symm
  | waits hstatus _ _ => rcases hstatus with ⟨h, -⟩ | ⟨time, h, -⟩ <;> rw [h] <;> rfl

theorem pending_eq (h : Passes s now s' pc) :
    s'.pendingTasks.tasks = (s.getWork now).1.pending := by
  cases h with
  | found hstatus =>
    obtain ⟨b, -, hprepare⟩ := Inner.prepare_eq _
    rw [Inner.willRunWorkerTask, hprepare]
    rfl
  | leaves _ _ _ | deletes _ _ | waits _ _ _ => rfl

theorem next_eq (h : Passes s now s' pc) :
    s'.nextSequenceTaskNumber = s.nextSequenceTaskNumber := by
  cases h with
  | found hstatus =>
    obtain ⟨b, -, hprepare⟩ := Inner.prepare_eq _
    rw [Inner.willRunWorkerTask, hprepare]
    rfl
  | leaves _ _ _ | deletes _ _ | waits _ _ _ => rfl

end Passes

/-! ## The log of a run -/

def unfinished (workers : List WorkerPc) : List SequencedTask :=
  workers.filterMap WorkerPc.unfinished?

@[simp] theorem unfinished_cons (pc : WorkerPc) (workers : List WorkerPc) :
    unfinished (pc :: workers) = pc.unfinished?.toList ++ unfinished workers := by
  unfold unfinished
  rw [List.filterMap_cons]
  cases pc.unfinished? <;> rfl

theorem mem_held_of_mem_unfinished {workers : List WorkerPc} {t : SequencedTask}
    (h : t ∈ unfinished workers) : t ∈ held workers := by
  obtain ⟨pc, hpc, ht⟩ := List.mem_filterMap.mp h
  refine List.mem_filterMap.mpr ⟨pc, hpc, ?_⟩
  cases pc <;> first | exact ht | cases ht

/-- What the log, the workers and the pending tasks have to do with each other. -/
structure Logged (log : List PoolEvent) (workers : List WorkerPc) (pending : List SequencedTask)
    (next : Nat) : Prop where
  accounted : (acceptedTasks log).Perm (takenTasks log ++ (deletedTasks log ++ pending))
  inHand : (takenTasks log).Perm (finishedTasks log ++ unfinished workers)
  numbered : (acceptedTasks log).Pairwise fun a b => a.sequenceTaskNumber < b.sequenceTaskNumber
  fresh : ∀ t ∈ acceptedTasks log, t.sequenceTaskNumber < next
  inOrder : Log.Each InOrder log

namespace Logged

variable {log : List PoolEvent} {workers workers' rest : List WorkerPc}
  {pending pending' : List SequencedTask} {next : Nat} {s s₁ s' : Inner} {now : Int}
  {pc pc' : WorkerPc} {t u : SequencedTask} {es : List PoolEvent}

theorem new : Logged [] [] [] 0 := by
  constructor <;> simp [acceptedTasks, takenTasks, deletedTasks, finishedTasks, unfinished,
    Log.Each.nil]

/-- Workers move, with the tasks they have not finished. -/
theorem congr (h : Logged log workers pending next)
    (hw : (unfinished workers').Perm (unfinished workers)) : Logged log workers' pending next :=
  { h with inHand := h.inHand.trans (hw.symm.append_left _) }

theorem perm (h : Logged log workers pending next) (hw : workers'.Perm workers) :
    Logged log workers' pending next := h.congr (hw.filterMap _)

theorem move (h : Logged log (pc :: rest) pending next) (hpc : pc'.unfinished? = pc.unfinished?) :
    Logged log (pc' :: rest) pending next :=
  { h with inHand := by simpa [hpc] using h.inHand }

theorem wakes (h : Logged log workers pending next) (hw : Wakes workers workers') :
    Logged log workers' pending next := by
  cases hw with
  | none hw _ => exact h.perm hw
  | wakes hw hw' =>
    have hwoken : Logged log (.woken :: _) pending next := (h.perm hw.symm).move rfl
    exact hwoken.perm hw'

theorem logs (h : Logged log workers pending next) {e : PoolEvent} (ha : e.accepted? = none)
    (ht : e.taken? = none) (hf : e.finished? = none) (hd : e.deleted? = none) :
    Logged (log ++ [e]) workers pending next where
  accounted := by simpa [ha, ht, hd] using h.accounted
  inHand := by simpa [ht, hf] using h.inHand
  numbered := by simpa [ha] using h.numbered
  fresh := by
    rw [acceptedTasks_concat, ha]
    simpa using h.fresh
  inOrder := h.inOrder.concat (by cases e <;> trivial)

theorem deletes (h : Logged log workers pending next) {ds : List SequencedTask}
    (hp : pending.Perm (ds ++ pending')) :
    Logged (log ++ ds.map .deleted) workers pending' next := by
  have haccepted : acceptedTasks (log ++ ds.map .deleted) = acceptedTasks log := by
    simp [acceptedTasks, List.filterMap_map, Function.comp_def, PoolEvent.accepted?]
  have htaken : takenTasks (log ++ ds.map .deleted) = takenTasks log := by
    simp [takenTasks, List.filterMap_map, Function.comp_def, PoolEvent.taken?]
  have hfinished : finishedTasks (log ++ ds.map .deleted) = finishedTasks log := by
    simp [finishedTasks, List.filterMap_map, Function.comp_def, PoolEvent.finished?]
  have hdeleted : deletedTasks (log ++ ds.map .deleted) = deletedTasks log ++ ds := by
    simp [deletedTasks, List.filterMap_map, Function.comp_def, PoolEvent.deleted?]
  refine ⟨?_, ?_, haccepted ▸ h.numbered, haccepted ▸ h.fresh, ?_⟩
  · rw [haccepted, htaken, hdeleted, List.append_assoc]
    exact h.accounted.trans ((hp.append_left _).append_left _)
  · rw [htaken, hfinished]
    exact h.inHand
  · refine h.inOrder.append ?_
    intro l x l' hl
    obtain ⟨d, -, rfl⟩ := List.mem_map.mp (hl ▸ List.mem_append_right l List.mem_cons_self :
      x ∈ ds.map PoolEvent.deleted)
    trivial

theorem takes (h : Logged log (pc :: rest) pending next) (hpc : pc.unfinished? = none)
    (hpc' : pc'.unfinished? = some t) (hp : pending.Perm (t :: pending'))
    (hin : InOrder log (.taken t)) :
    Logged (log ++ [.taken t]) (pc' :: rest) pending' next := by
  have haccepted : acceptedTasks (log ++ [.taken t]) = acceptedTasks log := by
    simp [PoolEvent.accepted?]
  have hinHand := h.inHand
  rw [unfinished_cons, hpc] at hinHand
  refine ⟨?_, ?_, haccepted ▸ h.numbered, haccepted ▸ h.fresh, h.inOrder.concat hin⟩
  · have haccounted := h.accounted
    rw [haccepted]
    simp only [takenTasks_concat, deletedTasks_concat, PoolEvent.taken?, PoolEvent.deleted?,
      Option.toList_some, Option.toList_none, List.append_nil]
    grind
  · simp only [takenTasks_concat, finishedTasks_concat, PoolEvent.taken?, PoolEvent.finished?,
      unfinished_cons, hpc', Option.toList_some, Option.toList_none, List.append_nil,
      List.nil_append] at hinHand ⊢
    grind

theorem returns (h : Logged log (.running t :: rest) pending next) :
    Logged (log ++ [.finished t]) (.ran t :: rest) pending next where
  accounted := by
    simpa [PoolEvent.accepted?, PoolEvent.taken?, PoolEvent.deleted?] using h.accounted
  inHand := by
    simpa [PoolEvent.taken?, PoolEvent.finished?, WorkerPc.unfinished?] using h.inHand
  numbered := by simpa [PoolEvent.accepted?] using h.numbered
  fresh := by
    have haccepted : acceptedTasks (log ++ [.finished t]) = acceptedTasks log := by
      simp [PoolEvent.accepted?]
    exact haccepted ▸ h.fresh
  inOrder := h.inOrder.concat trivial

theorem accepts (h : Logged log workers pending t.sequenceTaskNumber)
    (hp : pending'.Perm (t :: pending)) :
    Logged (log ++ [.accepted t]) workers pending' (t.sequenceTaskNumber + 1) := by
  have haccepted : acceptedTasks (log ++ [.accepted t]) = acceptedTasks log ++ [t] := by
    simp [PoolEvent.accepted?]
  refine ⟨?_, ?_, ?_, ?_, h.inOrder.concat trivial⟩
  · have haccounted := h.accounted
    simp only [haccepted, takenTasks_concat, deletedTasks_concat, PoolEvent.taken?,
      PoolEvent.deleted?, Option.toList_none, List.append_nil]
    grind
  · simpa [PoolEvent.taken?, PoolEvent.finished?] using h.inHand
  · rw [haccepted]
    refine List.pairwise_append.mpr ⟨h.numbered, List.pairwise_singleton _ _, ?_⟩
    intro a ha b hb
    rw [List.mem_singleton.mp hb]
    exact h.fresh a ha
  · rw [haccepted]
    intro a ha
    rcases List.mem_append.mp ha with ha | ha
    · exact (h.fresh a ha).trans (Nat.lt_succ_self _)
    · rw [List.mem_singleton.mp ha]
      exact Nat.lt_succ_self _

/-- What has happened when no task before `t` in its sequence is in hand or pending. -/
theorem inOrder_taken (h : Logged log workers pending next)
    (hworkers : ∀ u ∈ unfinished workers, ¬ u.Same t)
    (hpending : ∀ u ∈ pending, u.Same t → u.lessThan t = false) : InOrder log (.taken t) := by
  have htaken : ∀ u, .taken u ∈ log → u.Same t → .finished u ∈ log := by
    intro u hu hsame
    rw [← mem_takenTasks, h.inHand.mem_iff, List.mem_append] at hu
    rcases hu with hu | hu
    · exact mem_finishedTasks.mp hu
    · exact absurd hsame (hworkers u hu)
  refine ⟨htaken, ?_⟩
  intro u hu hsame hlt
  rw [← mem_acceptedTasks, h.accounted.mem_iff, List.mem_append, List.mem_append] at hu
  rcases hu with hu | hu | hu
  · exact .inl (htaken u (mem_takenTasks.mp hu) hsame)
  · exact .inr (mem_deletedTasks.mp hu)
  · rw [hpending u hu hsame] at hlt
    cases hlt

theorem enters_unfinished (ha : pc.enters s = some s₁) : pc.unfinished? = none := by
  cases pc <;> first | rfl | cases ha

theorem enters_pending (ha : pc.enters s = some s₁) : s₁.pendingTasks = s.pendingTasks := by
  cases pc <;> cases ha <;> rfl

theorem enters_next (ha : pc.enters s = some s₁) :
    s₁.nextSequenceTaskNumber = s.nextSequenceTaskNumber := by
  cases pc <;> cases ha <;> rfl

theorem pass {posts : List Post}
    (h : Logged log (pc :: rest) s.pendingTasks.tasks next) (hc : Counts s (pc :: rest) posts)
    (ha : pc.enters s = some s₁) (hp : Passes s₁ now s' pc') :
    Logged (log ++ pc'.events) (pc' :: rest) s'.pendingTasks.tasks next := by
  have hscan := Passes.scans s₁ now
  have hperm := hscan.perm
  have hunfinished := hp.unfinished_eq
  rw [hp.events_eq, hp.pending_eq]
  rw [← enters_pending ha] at h
  cases hstatus : (s₁.getWork now).1.status.task? with
  | none =>
    rw [hstatus] at hperm hunfinished
    simp only [Option.toList_none, List.map_nil, List.append_nil, List.nil_append] at hperm ⊢
    have hdeletes := h.deletes (hperm.trans List.perm_append_comm)
    exact hdeletes.move (hunfinished.trans (enters_unfinished ha).symm)
  | some t =>
    have hfound : (s₁.getWork now).1.status = .found t := by
      cases hw : (s₁.getWork now).1.status with
      | found u =>
        rw [hw] at hstatus
        cases hstatus
        rfl
      | notFound | wait =>
        rw [hw] at hstatus
        cases hstatus
    obtain ⟨hrunnable, -, -, hlater⟩ := hscan.runs hfound s₁.pendingTasks.sorted
    rw [hstatus] at hperm hunfinished
    simp only [Option.toList_some, List.map_cons, List.map_nil, ← List.append_assoc]
    have hsplit : s₁.pendingTasks.tasks.Perm ((s₁.getWork now).1.deleteTheseOutsideLock ++
        t :: (s₁.getWork now).1.pending) := by
      rw [Option.toList_some] at hperm
      grind
    have hdeletes := h.deletes hsplit
    refine hdeletes.takes (enters_unfinished ha) hunfinished (.refl _) ?_
    refine hdeletes.inOrder_taken ?_ ?_
    · intro u hu hsame
      rw [unfinished_cons, enters_unfinished ha] at hu
      exact ((hc.enter ha).runnable_iff.mp hrunnable) u (mem_held_of_mem_unfinished hu)
        hsame.1 hsame.2
    · intro u hu hsame
      rcases List.mem_cons.mp hu with rfl | hu
      · exact u.lessThan_irrefl
      · exact SequencedTask.lessThan_asymm (hlater u hu (by rw [hsame.2]; exact hrunnable))

theorem pcMoves (h : Logged log (pc :: rest) pending next) (hm : PcMoves pc pc' es) :
    Logged (log ++ es) (pc' :: rest) pending next := by
  cases hm with
  | clears | wakes | runs =>
    rw [List.append_nil]
    exact h.move rfl
  | returns => exact h.returns

theorem pcSignals (h : Logged log (pc :: rest) pending next) (hm : PcSignals pc pc') :
    Logged log (pc' :: rest) pending next := by
  cases hm <;> exact h.move rfl

theorem post (h : Logged log workers s.pendingTasks.tasks s.nextSequenceTaskNumber)
    (hnum : ∀ u ∈ s.pendingTasks.tasks, u.sequenceTaskNumber < s.nextSequenceTaskNumber)
    {call : PostCall} {time : Int} {n : Nat} (hp : s.Accepts call time t n s') :
    Logged (log ++ [.accepted t]) workers s'.pendingTasks.tasks s'.nextSequenceTaskNumber := by
  obtain ⟨last, names, budget, b, rfl, -, -⟩ := hp.eq
  have hnext := hp.number
  rw [← hnext] at h hnum
  simp only [Inner.withPending, ← hnext]
  exact h.accepts (insertTask_perm fun u hu => (hnum u hu).ne)

end Logged

def WorkerPool.IsLogged (s : WorkerPool) : Prop :=
  Logged s.log s.workers s.inner.pendingTasks.tasks s.inner.nextSequenceTaskNumber

theorem Moves.isLogged {s s' : WorkerPool} {a : PoolAction} (hm : Moves s a s') (h : s.IsLogged)
    (hc : s.Counted) :
    s'.IsLogged := by
  unfold WorkerPool.IsLogged at *
  cases hm with
  | idles hnow => exact h
  | passes hw hw' henters hpass =>
    have hpassed := (h.perm hw.symm).pass (Counts.perm hc hw.symm) henters hpass
    rw [hpass.next_eq, Logged.enters_next henters]
    exact hpassed.perm hw'
  | moves hw hw' hmove => exact ((h.perm hw.symm).pcMoves hmove).perm hw'
  | signals hw hwakes hsignal => exact ((h.perm hw.symm).pcSignals hsignal).wakes hwakes
  | @creates task n deletes workers' rest hw hn hw' =>
    refine Logged.perm (Logged.congr h ?_) hw'
    exact List.Perm.symm (hw.filterMap _)
  | exits hw hw' =>
    have hexited : Logged s.log (.exited :: _) _ _ := (h.perm hw.symm).move rfl
    exact hexited.perm hw'
  | calls _ _ | refuses _ _ => exact h
  | enqueues hk hp hp' hpost =>
    exact h.post (fun u hu => hc.numbered u hu) (Inner.postTask_accepts hpost)
  | postCreates hp hpc hn hw => exact Logged.congr h (hw.filterMap _)
  | postSignals hp hpc hwakes => exact Logged.wakes h hwakes
  | @callsShutdown inner' max workers' hno heq hwakes =>
    subst heq
    refine Logged.wakes ?_ hwakes
    rw [List.append_cons]
    have hcalled := Logged.logs h (e := .shutdownCalled max) rfl rfl rfl rfl
    split
    · exact hcalled.logs rfl rfl rfl rfl
    · rwa [List.append_nil]
  | shutdownMoves hmove =>
    cases hmove with
    | returns => exact Logged.logs h rfl rfl rfl rfl
    | waits | wakes | ignored => rwa [List.append_nil]

theorem isLogged_reach {maxThreads : Nat} {ok : WorkerPool → PoolAction → Prop} {s : WorkerPool}
    (hr : (poolMachine maxThreads).Reach ok s) : s.IsLogged := by
  refine hr.invariant_of (I := WorkerPool.IsLogged) (fun s => counted_reach) ?_ ?_
  · rintro _ ⟨now, rfl⟩
    exact Logged.new
  · intro s a s' hc h _ hs
    exact (WorkerPool.step_moves hs).isLogged h hc

/-- **The tasks of a pool are in sequence**: every task that is accepted is taken once, deleted or
still pending, and a worker takes a task when those of its sequence that were taken have finished,
and those that come before it have finished or were deleted. -/
theorem pool_tasks_sequenced {maxThreads : Nat} {s : WorkerPool}
    (hr : (poolMachine maxThreads).Reachable s) : Sequenced s.log s.inner.pendingTasks.tasks := by
  have h := isLogged_reach hr
  refine ⟨h.accounted, h.numbered.imp ?_, h.inOrder⟩
  rintro a _ hlt rfl
  exact lt_irrefl _ hlt

/-- Two workers: while the first task of a sequence runs the second one is passed over for two
others. -/
theorem pool_tasks_sequenced_two : ∃ s, (poolMachine 2).Reachable s ∧
    (takenTasks s.log).map (·.task) = [0, 2, 3, 1] ∧
    (takenTasks s.log).map (·.sequenceTokenId) = [1, 2, 0, 1] ∧
    Sequenced s.log s.inner.pendingTasks.tasks := by
  obtain ⟨s, hr, hs⟩ := Machine.exists_reachable (M := poolMachine 2) (s := .start 2 5) ⟨5, rfl⟩
    [.getSequenceToken, .post none (sequencedTaskRunnerPostDelayedTask 1 .skipOnShutdown 0 0),
      .post none (postSequencedWorkerTask 1 1),
      .post none (postNamedSequencedWorkerTask "s" 2),
      .post none (postWorkerTaskWithShutdownBehavior 3 .continueOnShutdown),
      .enqueue 0, .enqueue 1, .enqueue 2, .enqueue 3, .finishPost 0 none, .finishPost 0 none,
      .finishPost 0 none, .finishPost 0 none, .worker 0 none, .worker 0 none, .worker 0 none,
      .worker 1 none, .worker 1 none, .worker 1 none, .taskReturns 1, .worker 1 none,
      .taskReturns 0, .worker 0 none]
    (p := fun s => decide ((takenTasks s.log).map (·.task) = [0, 2, 3, 1] ∧
      (takenTasks s.log).map (·.sequenceTokenId) = [1, 2, 0, 1])) (by decide)
  obtain ⟨htasks, htokens⟩ := of_decide_eq_true hs
  exact ⟨s, hr, htasks, htokens, pool_tasks_sequenced hr⟩

end Mdgate.Pool
