import Mdgate.Lib.Threads
import Mdgate.Pool.WorkerPool

/-!
# The steps of a worker pool

What each step of a pool does, said once. The threads and the calls of `PostTask` are given in any
order, the one that moves first, since nothing that is proved of a pool depends on their order.
-/

namespace Mdgate.Pool

open Lib

variable {s s' : WorkerPool} {a : PoolAction} {workers workers' : List WorkerPc}

/-- `SignalHasWork`: one of the workers that wait is woken, if there is one. -/
inductive Wakes (workers : List WorkerPc) : List WorkerPc → Prop where
  | none {workers' : List WorkerPc} : workers'.Perm workers →
      workers.any WorkerPc.isWaiting = false → Wakes workers workers'
  | wakes {workers' rest : List WorkerPc} {deadline : Option Int} :
      workers.Perm (.waiting deadline :: rest) → workers'.Perm (.woken :: rest) →
      Wakes workers workers'

theorem Wakes.perm (h : Wakes workers workers') {l : List WorkerPc} (hl : workers.Perm l) :
    Wakes l workers' := by
  cases h with
  | none hw hno => exact .none (hw.trans hl) (hl.any_eq ▸ hno)
  | wakes hw hw' => exact .wakes (hl.symm.trans hw) hw'

/-- A move of one worker that leaves the rest as it is. -/
inductive PcMoves : WorkerPc → WorkerPc → List PoolEvent → Prop where
  | clears {deletes : List SequencedTask} : PcMoves (.deleting deletes) .looking []
  | returns {task : SequencedTask} : PcMoves (.running task) (.ran task) [.finished task]
  | wakes {deadline : Option Int} : PcMoves (.waiting deadline) .woken []
  | runs {task : SequencedTask} {deletes : List SequencedTask} :
      PcMoves (.signalled task 0 deletes) (.running task) []

/-- A move of one worker that ends in a signal. -/
inductive PcSignals : WorkerPc → WorkerPc → Prop where
  | found {task : SequencedTask} {n : Nat} {deletes : List SequencedTask} :
      PcSignals (.found task n deletes) (.signalled task n deletes)
  | leaving {deletes : List SequencedTask} : PcSignals (.leaving deletes) .left

/-- The thread that calls `Shutdown` moves. -/
inductive ShutdownMoves (s : WorkerPool) : ShutdownPc → List PoolEvent → Prop where
  | returns : s.shutdown = .checking → s.inner.canShutdown = true →
      ShutdownMoves s .returned [.shutdownReturned]
  | waits : s.shutdown = .checking → s.inner.canShutdown = false → ShutdownMoves s .waiting []
  | wakes : s.shutdown = .waiting → ShutdownMoves s .checking []
  | ignored : s.shutdown ≠ .checking → s.shutdown ≠ .waiting → s.inner.shutdownCalled = true →
      ShutdownMoves s s.shutdown []

/-- What a step of a pool does. -/
inductive Moves (s : WorkerPool) (a : PoolAction) : WorkerPool → Prop where
  | idles {now : Int} {last : Nat} {names : List (String × Nat)} : s.now ≤ now →
      Moves s a { s with
        now := now
        inner := { s.inner with lastSequenceNumber := last, namedSequenceTokens := names } }
  | passes {pc pc' : WorkerPc} {inner inner' : Inner} {workers' rest : List WorkerPc} :
      s.workers.Perm (pc :: rest) → workers'.Perm (pc' :: rest) →
      pc.enters s.inner = some inner → Passes inner s.now inner' pc' →
      Moves s a { s with inner := inner', workers := workers', log := s.log ++ pc'.events }
  | moves {pc pc' : WorkerPc} {es : List PoolEvent} {workers' rest : List WorkerPc} :
      s.workers.Perm (pc :: rest) → workers'.Perm (pc' :: rest) → PcMoves pc pc' es →
      Moves s a { s with workers := workers', log := s.log ++ es }
  | signals {pc pc' : WorkerPc} {workers' rest : List WorkerPc} :
      s.workers.Perm (pc :: rest) → Wakes (pc' :: rest) workers' → PcSignals pc pc' →
      Moves s a { s with workers := workers' }
  | creates {task : SequencedTask} {n : Nat} {deletes : List SequencedTask}
      {workers' rest : List WorkerPc} :
      s.workers.Perm (.signalled task n deletes :: rest) → n ≠ 0 →
      workers'.Perm (.starting :: .running task :: rest) → Moves s a { s with workers := workers' }
  | exits {workers' rest : List WorkerPc} :
      s.workers.Perm (.left :: rest) → workers'.Perm (.exited :: rest) →
      Moves s a { s with
        workers := workers'
        shutdown := if s.shutdown = .waiting then .checking else s.shutdown }
  | calls {post : Post} {posts' : List Post} {call : PostCall} :
      posts'.Perm (post :: s.posts) →
      post.pc = .called call (Base.TimeDelta.saturatedAdd call.delay s.now) →
      Moves s a { s with posts := posts' }
  | enqueues {k : Nat} {caller : Option Nat} {call : PostCall} {time : Int} {task : SequencedTask}
      {n : Nat} {inner' : Inner} {posts' rest : List Post} :
      (a = .enqueue k ∧ s.posts[k]? = some ⟨caller, .called call time⟩) →
      s.posts.Perm (⟨caller, .called call time⟩ :: rest) →
      posts'.Perm (⟨caller, .posted n⟩ :: rest) →
      s.inner.postTask (s.callerBehavior ⟨caller, .called call time⟩) call time =
        some (task, n, inner') →
      Moves s a { s with inner := inner', posts := posts', log := s.log ++ [.accepted task] }
  | refuses {post : Post} {posts' : List Post} {call : PostCall} {time : Int} :
      s.posts.Perm (post :: posts') → post.pc = .called call time →
      Moves s a { s with posts := posts' }
  | postCreates {post : Post} {posts' : List Post} {workers' : List WorkerPc} {n : Nat} :
      s.posts.Perm (post :: posts') → post.pc = .posted n → n ≠ 0 →
      workers'.Perm (.starting :: s.workers) →
      Moves s a { s with posts := posts', workers := workers' }
  | postSignals {post : Post} {posts' : List Post} {workers' : List WorkerPc} :
      s.posts.Perm (post :: posts') → post.pc = .posted 0 → Wakes s.workers workers' →
      Moves s a { s with posts := posts', workers := workers' }
  | callsShutdown {inner' : Inner} {max : Nat} {workers' : List WorkerPc} :
      s.inner.shutdownCalled = false →
      inner' = { s.inner with shutdownCalled := true, maxBlockingTasksAfterShutdown := max } →
      Wakes s.workers workers' →
      Moves s a { s with
        inner := inner'
        workers := workers'
        shutdown := if inner'.canShutdown then .returned else .checking
        log := s.log ++ .shutdownCalled max ::
          if inner'.canShutdown then [.shutdownReturned] else [] }
  | shutdownMoves {pc' : ShutdownPc} {es : List PoolEvent} : ShutdownMoves s pc' es →
      Moves s a { s with shutdown := pc', log := s.log ++ es }

/-! ## Every step is one of these -/

theorem WorkerPool.signalHasWork_eq {wakes : Option Nat} (h : s.signalHasWork wakes = some s') :
    ∃ workers', Wakes s.workers workers' ∧ s' = { s with workers := workers' } := by
  unfold signalHasWork at h
  cases wakes with
  | some i =>
    dsimp only at h
    split at h
    · next deadline hi =>
      cases h
      obtain ⟨rest, hw, hset⟩ := Threads.exists_rest hi .woken
      exact ⟨_, .wakes hw hset, rfl⟩
    · cases h
  | none =>
    dsimp only at h
    split at h
    · cases h
    · next hno =>
      cases h
      exact ⟨_, .none (.refl _) (by simpa using hno), rfl⟩

theorem WorkerPool.stepWorker_moves {i : Nat} {pc : WorkerPc} {wakes : Option Nat}
    (hi : s.workers[i]? = some pc) (h : s.stepWorker i pc wakes = some s') : Moves s a s' := by
  unfold stepWorker at h
  split at h
  · next inner henters =>
    cases h
    obtain ⟨rest, hw, hset⟩ := Threads.exists_rest hi (inner.threadLoop s.now).2
    exact .passes hw hset henters (inner.threadLoop_passes s.now)
  · split at h
    · next task n deletes _ =>
      obtain ⟨rest, hw, hset⟩ := Threads.exists_rest hi (.signalled task n deletes)
      obtain ⟨workers', hwakes, rfl⟩ := signalHasWork_eq h
      exact .signals hw (hwakes.perm hset) .found
    · next task n deletes _ =>
      obtain ⟨rest, hw, hset⟩ := Threads.exists_rest hi (.running task)
      cases h
      split
      · next hn =>
        exact .creates hw hn ((List.perm_append_singleton _ _).trans (hset.cons _))
      · next hn =>
        obtain rfl : n = 0 := by simpa using hn
        have := Moves.moves (a := a) hw hset .runs
        simpa [setWorker] using this
    · next deletes _ =>
      obtain ⟨rest, hw, hset⟩ := Threads.exists_rest hi .looking
      cases h
      have := Moves.moves (a := a) hw hset .clears
      simpa [setWorker] using this
    · next deletes _ =>
      obtain ⟨rest, hw, hset⟩ := Threads.exists_rest hi .left
      obtain ⟨workers', hwakes, rfl⟩ := signalHasWork_eq h
      exact .signals hw (hwakes.perm hset) .leaving
    · obtain ⟨rest, hw, hset⟩ := Threads.exists_rest hi .exited
      cases h
      exact .exits hw hset
    · cases h

theorem WorkerPool.step_moves (h : s.step a = some s') : Moves s a s' := by
  cases a with
  | tick d =>
    cases h
    exact .idles (Int.le_add_of_nonneg_right (Int.natCast_nonneg d))
  | getSequenceToken =>
    cases h
    exact .idles (le_refl _)
  | getNamedSequenceToken name =>
    cases h
    obtain ⟨last, names, hs⟩ := s.inner.lockedGetNamedTokenID_eq name
    rw [hs]
    exact .idles (le_refl _)
  | post caller call =>
    obtain ⟨-, rfl⟩ := Machine.guard_eq_some h
    exact .calls (List.perm_append_singleton _ _) rfl
  | enqueue k =>
    simp only [step] at h
    split at h
    · next caller call time hk =>
      split at h
      · next task n inner' hpost =>
        cases h
        obtain ⟨rest, hp, hset⟩ := Threads.exists_rest hk ⟨caller, .posted n⟩
        exact .enqueues ⟨rfl, hk⟩ hp hset hpost
      · cases h
        exact .refuses (Threads.exists_erased hk) rfl
    · cases h
  | finishPost k wakes =>
    simp only [step] at h
    split at h
    · next caller n hk =>
      have herased := Threads.exists_erased hk
      split at h
      · next hn =>
        cases h
        exact .postCreates herased rfl hn (List.perm_append_singleton _ _)
      · next hn =>
        obtain rfl : n = 0 := by simpa using hn
        obtain ⟨workers', hwakes, rfl⟩ := signalHasWork_eq h
        exact .postSignals herased rfl hwakes
    · cases h
  | worker i wakes =>
    simp only [step] at h
    split at h
    · next hi => exact stepWorker_moves hi h
    · cases h
  | taskReturns i =>
    simp only [step] at h
    split at h
    · next task hi =>
      obtain ⟨-, rfl⟩ := Machine.guard_eq_some h
      obtain ⟨rest, hw, hset⟩ := Threads.exists_rest hi (.ran task)
      exact .moves hw hset .returns
    · cases h
  | wake i =>
    simp only [step] at h
    split at h
    · next deadline hi =>
      cases h
      obtain ⟨rest, hw, hset⟩ := Threads.exists_rest hi .woken
      have := Moves.moves (a := .wake i) hw hset .wakes
      simpa [setWorker] using this
    · cases h
  | callShutdown max wakes =>
    simp only [step] at h
    split at h
    · cases h
    · next hidle =>
      rw [not_or] at hidle
      split at h
      · next hcalled =>
        cases h
        have := Moves.shutdownMoves (a := .callShutdown max wakes)
          (.ignored hidle.1 hidle.2 hcalled)
        simpa using this
      · next hcalled =>
        obtain ⟨workers', hwakes, rfl⟩ := signalHasWork_eq h
        exact .callsShutdown (by simpa using hcalled) rfl hwakes
  | checkShutdown =>
    simp only [step] at h
    split at h
    · next hpc =>
      cases h
      split
      · next hcan => exact .shutdownMoves (.returns hpc hcan)
      · next hcan =>
        have := Moves.shutdownMoves (a := .checkShutdown) (.waits hpc (by simpa using hcan))
        simpa using this
    · cases h
  | wakeShutdown =>
    obtain ⟨hpc, rfl⟩ := Machine.guard_eq_some h
    have := Moves.shutdownMoves (a := .wakeShutdown) (.wakes hpc)
    simpa using this

end Mdgate.Pool
