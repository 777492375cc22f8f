import Mathlib.Data.List.Sort

/-!
# The tasks of a worker pool

The pending tasks of a `SequencedWorkerPool` in time-to-run order, and the scan of them in
`Inner::GetWork`. A closure is opaque; `task` is its identity.
-/

namespace Mdgate.Pool

inductive WorkerShutdown where
  | continueOnShutdown
  | skipOnShutdown
  | blockShutdown
  deriving DecidableEq, Repr

structure SequencedTask where
  task : Nat
  sequenceTokenId : Nat
  sequenceTaskNumber : Nat
  shutdownBehavior : WorkerShutdown
  timeToRun : Int
  deriving DecidableEq, Repr

namespace SequencedTask

def lessThan (lhs rhs : SequencedTask) : Bool :=
  if lhs.timeToRun < rhs.timeToRun then true
  else if lhs.timeToRun > rhs.timeToRun then false
  else decide (lhs.sequenceTaskNumber < rhs.sequenceTaskNumber)

/-- The task blocks shutdown until it has run. -/
def blocks (t : SequencedTask) : Bool := t.shutdownBehavior == .blockShutdown

variable {a b c : SequencedTask}

theorem lessThan_iff : a.lessThan b = true ↔ a.timeToRun < b.timeToRun ∨
    a.timeToRun = b.timeToRun ∧ a.sequenceTaskNumber < b.sequenceTaskNumber := by
  unfold lessThan
  split
  · simp [*]
  · split
    · simp only [Bool.false_eq_true, false_iff]
      omega
    · simp only [decide_eq_true_eq]
      omega

theorem lessThan_irrefl (a : SequencedTask) : a.lessThan a = false := by
  rw [← Bool.not_eq_true, lessThan_iff]
  omega

theorem lessThan_trans (h1 : a.lessThan b = true) (h2 : b.lessThan c = true) :
    a.lessThan c = true := by
  rw [lessThan_iff] at *
  omega

theorem lessThan_asymm (h : a.lessThan b = true) : b.lessThan a = false := by
  rw [← Bool.not_eq_true, lessThan_iff]
  rw [lessThan_iff] at h
  omega

end SequencedTask

/-! ## `PendingTaskSet` -/

/-- `std::set::insert`: a task that is equivalent to one of the set is not inserted. -/
def insertTask (t : SequencedTask) : List SequencedTask → List SequencedTask
  | [] => [t]
  | u :: rest =>
    if t.lessThan u then t :: u :: rest
    else if u.lessThan t then u :: insertTask t rest
    else u :: rest

theorem mem_of_mem_insertTask {t u : SequencedTask} {l : List SequencedTask}
    (h : u ∈ insertTask t l) : u = t ∨ u ∈ l := by
  induction l with
  | nil => exact .inl (List.mem_singleton.mp h)
  | cons v rest ih =>
    simp only [insertTask] at h
    split at h
    · simpa using h
    · split at h
      · rcases List.mem_cons.mp h with rfl | h
        · exact .inr List.mem_cons_self
        · exact (ih h).imp_right (List.mem_cons_of_mem v)
      · exact .inr h

theorem pairwise_insertTask {t : SequencedTask} {l : List SequencedTask}
    (h : l.Pairwise fun a b => a.lessThan b = true) :
    (insertTask t l).Pairwise fun a b => a.lessThan b = true := by
  induction l with
  | nil => exact List.pairwise_singleton _ _
  | cons v rest ih =>
    have hrest : ∀ u ∈ rest, v.lessThan u = true := fun u hu => List.rel_of_pairwise_cons h hu
    simp only [insertTask]
    split
    · next htv =>
      refine h.cons ?_
      intro u hu
      rcases List.mem_cons.mp hu with rfl | hu
      · exact htv
      · exact SequencedTask.lessThan_trans htv (hrest u hu)
    · split
      · next hvt =>
        refine (ih h.of_cons).cons ?_
        intro u hu
        rcases mem_of_mem_insertTask hu with rfl | hu
        · exact hvt
        · exact hrest u hu
      · exact h

theorem insertTask_perm {t : SequencedTask} {l : List SequencedTask}
    (h : ∀ u ∈ l, u.sequenceTaskNumber ≠ t.sequenceTaskNumber) :
    (insertTask t l).Perm (t :: l) := by
  induction l with
  | nil => exact .refl _
  | cons v rest ih =>
    simp only [insertTask]
    split
    · exact .refl _
    · next htv =>
      have hvt : v.lessThan t = true := by
        have := h v List.mem_cons_self
        rw [SequencedTask.lessThan_iff] at *
        omega
      rw [if_pos hvt]
      have hrest := ih fun u hu => h u (List.mem_cons_of_mem v hu)
      exact (hrest.cons v).trans (.swap t v rest)

/-- `std::set<SequencedTask, SequencedTaskLessThan>`. -/
structure PendingTaskSet where
  tasks : List SequencedTask
  sorted : tasks.Pairwise fun a b => a.lessThan b = true

def PendingTaskSet.empty : PendingTaskSet := ⟨[], .nil⟩

def PendingTaskSet.insert (s : PendingTaskSet) (t : SequencedTask) : PendingTaskSet :=
  ⟨insertTask t s.tasks, pairwise_insertTask s.sorted⟩

/-! ## `GetWork` -/

inductive GetWorkStatus where
  | found (task : SequencedTask)
  | notFound
  | wait (timeToRun : Int)
  deriving DecidableEq, Repr

/-- What `GetWork` makes of the pending tasks. -/
structure Work where
  status : GetWorkStatus
  pending : List SequencedTask
  deleteTheseOutsideLock : List SequencedTask
  deriving DecidableEq, Repr

/-- The loop of `GetWork`. -/
def scan (runnable : Nat → Bool) (shutdownCalled : Bool) (now : Int) : List SequencedTask → Work
  | [] => ⟨.notFound, [], []⟩
  | t :: rest =>
    if !runnable t.sequenceTokenId then
      let w := scan runnable shutdownCalled now rest
      { w with pending := t :: w.pending }
    else if shutdownCalled && !t.blocks then
      let w := scan runnable shutdownCalled now rest
      { w with deleteTheseOutsideLock := t :: w.deleteTheseOutsideLock }
    else if t.timeToRun > now then ⟨.wait t.timeToRun, t :: rest, []⟩
    else ⟨.found t, rest, []⟩

section

variable (runnable : Nat → Bool) (shutdownCalled : Bool) (now : Int)

def passes (t : SequencedTask) : Bool :=
  !runnable t.sequenceTokenId || shutdownCalled && !t.blocks

def kept (l : List SequencedTask) : List SequencedTask :=
  l.filter fun t => !runnable t.sequenceTokenId

def dropped (l : List SequencedTask) : List SequencedTask :=
  l.filter fun t => runnable t.sequenceTokenId

/-- Where the scan of `l` stops. -/
inductive Scans (l : List SequencedTask) : Work → Prop where
  | notFound : (∀ u ∈ l, passes runnable shutdownCalled u = true) →
      Scans l ⟨.notFound, kept runnable l, dropped runnable l⟩
  | wait {before : List SequencedTask} {t : SequencedTask} {rest : List SequencedTask} :
      l = before ++ t :: rest → (∀ u ∈ before, passes runnable shutdownCalled u = true) →
      passes runnable shutdownCalled t = false → now < t.timeToRun →
      Scans l ⟨.wait t.timeToRun, kept runnable before ++ t :: rest, dropped runnable before⟩
  | found {before : List SequencedTask} {t : SequencedTask} {rest : List SequencedTask} :
      l = before ++ t :: rest → (∀ u ∈ before, passes runnable shutdownCalled u = true) →
      passes runnable shutdownCalled t = false → t.timeToRun ≤ now →
      Scans l ⟨.found t, kept runnable before ++ rest, dropped runnable before⟩

end

variable {runnable : Nat → Bool} {shutdownCalled : Bool} {now : Int} {l : List SequencedTask}
  {t : SequencedTask} {w : Work}

theorem Scans.cons (h : Scans runnable shutdownCalled now l w)
    (ht : passes runnable shutdownCalled t = true) :
    Scans runnable shutdownCalled now (t :: l)
      ⟨w.status, kept runnable [t] ++ w.pending,
        dropped runnable [t] ++ w.deleteTheseOutsideLock⟩ := by
  cases h with
  | notFound hl =>
    simp only [kept, dropped, ← List.filter_append, List.singleton_append]
    exact .notFound (List.forall_mem_cons.mpr ⟨ht, hl⟩)
  | wait hl hbefore htask hnow =>
    simp only [kept, dropped, ← List.append_assoc, ← List.filter_append, List.singleton_append]
    exact .wait (by rw [hl]; rfl) (List.forall_mem_cons.mpr ⟨ht, hbefore⟩) htask hnow
  | found hl hbefore htask hnow =>
    simp only [kept, dropped, ← List.append_assoc, ← List.filter_append, List.singleton_append]
    exact .found (by rw [hl]; rfl) (List.forall_mem_cons.mpr ⟨ht, hbefore⟩) htask hnow

theorem scan_scans (runnable : Nat → Bool) (shutdownCalled : Bool) (now : Int)
    (l : List SequencedTask) :
    Scans runnable shutdownCalled now l (scan runnable shutdownCalled now l) := by
  induction l with
  | nil => exact .notFound (by simp)
  | cons t rest ih =>
    simp only [scan]
    split
    · next hblocked =>
      have hblocked : runnable t.sequenceTokenId = false := by simpa using hblocked
      have h := ih.cons (t := t) (by simp [passes, hblocked])
      simpa [kept, dropped, hblocked] using h
    · next hrunnable =>
      have hrunnable : runnable t.sequenceTokenId = true := by simpa using hrunnable
      split
      · next hskip =>
        have h := ih.cons (t := t) (by simp [passes, hskip])
        simpa [kept, dropped, hrunnable] using h
      · next hstop =>
        have hstop : passes runnable shutdownCalled t = false := by
          simp [passes, hrunnable, hstop]
        split
        · next hnow =>
          exact .wait (List.nil_append (t :: rest)).symm (by simp) hstop hnow
        · next hnow =>
          exact .found (List.nil_append (t :: rest)).symm (by simp) hstop (Int.not_lt.mp hnow)

/-! ## What the scan does -/

def GetWorkStatus.task? : GetWorkStatus → Option SequencedTask
  | found t => some t
  | _ => none

namespace Scans

variable {u : SequencedTask} {time : Int}

theorem kept_dropped_perm (runnable : Nat → Bool) (l : List SequencedTask) :
    l.Perm (kept runnable l ++ dropped runnable l) := by
  have h := List.filter_append_perm (fun t => !runnable t.sequenceTokenId) l
  simpa [kept, dropped] using h.symm

theorem perm (h : Scans runnable shutdownCalled now l w) :
    l.Perm (w.status.task?.toList ++ (w.pending ++ w.deleteTheseOutsideLock)) := by
  cases h with
  | notFound hl => exact kept_dropped_perm runnable l
  | @wait before t rest hl hbefore ht hnow =>
    have h := (kept_dropped_perm runnable before).append_right (t :: rest)
    simp only [GetWorkStatus.task?, Option.toList_none, List.nil_append]
    grind
  | @found before t rest hl hbefore ht hnow =>
    have h := (kept_dropped_perm runnable before).append_right (t :: rest)
    simp only [GetWorkStatus.task?, Option.toList_some]
    grind

theorem sublist (h : Scans runnable shutdownCalled now l w) : w.pending.Sublist l := by
  cases h with
  | notFound hl => exact List.filter_sublist
  | wait hl hbefore ht hnow => exact hl ▸ List.filter_sublist.append_right _
  | found hl hbefore ht hnow =>
    exact hl ▸ List.filter_sublist.append (List.sublist_cons_self _ _)

/-- What is deleted is runnable and does not block the shutdown that has begun. -/
theorem deleted (h : Scans runnable shutdownCalled now l w)
    (hu : u ∈ w.deleteTheseOutsideLock) :
    u ∈ l ∧ runnable u.sequenceTokenId = true ∧ shutdownCalled = true ∧ u.blocks = false := by
  have key : ∀ before : List SequencedTask,
      (∀ u ∈ before, passes runnable shutdownCalled u = true) → u ∈ dropped runnable before →
      u ∈ before ∧ runnable u.sequenceTokenId = true ∧ shutdownCalled = true ∧
        u.blocks = false := by
    intro before hbefore hu
    obtain ⟨hmem, hrunnable⟩ := List.mem_filter.mp hu
    have hpass := hbefore u hmem
    simp only [passes, hrunnable, Bool.not_true, Bool.false_or, Bool.and_eq_true,
      Bool.not_eq_true'] at hpass
    exact ⟨hmem, hrunnable, hpass⟩
  cases h with
  | notFound hl => exact key l hl hu
  | wait hl hbefore ht hnow =>
    obtain ⟨hmem, h⟩ := key _ hbefore hu
    exact ⟨hl ▸ List.mem_append_left _ hmem, h⟩
  | found hl hbefore ht hnow =>
    obtain ⟨hmem, h⟩ := key _ hbefore hu
    exact ⟨hl ▸ List.mem_append_left _ hmem, h⟩

theorem stops {t : SequencedTask} (ht : passes runnable shutdownCalled t = false) :
    runnable t.sequenceTokenId = true ∧ (shutdownCalled = true → t.blocks = true) := by
  simpa [passes] using ht

/-- The task that is found may run, and what may run and is left comes after it. -/
theorem runs (h : Scans runnable shutdownCalled now l w) (ht : w.status = .found t)
    (hl : l.Pairwise fun a b => a.lessThan b = true) :
    runnable t.sequenceTokenId = true ∧ t.timeToRun ≤ now ∧
      (shutdownCalled = true → t.blocks = true) ∧
      ∀ u ∈ w.pending, runnable u.sequenceTokenId = true → t.lessThan u = true := by
  cases h with
  | notFound _ => cases ht
  | wait _ _ _ _ => cases ht
  | found hsplit hbefore hstop hnow =>
    cases ht
    refine ⟨(stops hstop).1, hnow, (stops hstop).2, ?_⟩
    intro u hu hrunnable
    rcases List.mem_append.mp hu with hu | hu
    · have := (List.mem_filter.mp hu).2
      simp [hrunnable] at this
    · rw [hsplit] at hl
      exact List.rel_of_pairwise_cons (List.pairwise_append.mp hl).2.1 hu

theorem idle (h : Scans runnable shutdownCalled now l w) (hw : w.status = .notFound) :
    ∀ u ∈ w.pending, runnable u.sequenceTokenId = false := by
  cases h with
  | notFound hl =>
    intro u hu
    simpa using (List.mem_filter.mp hu).2
  | wait _ _ _ _ => cases hw
  | found _ _ _ _ => cases hw

/-- A worker that waits for a time waits for the first task that may run. -/
theorem waits (h : Scans runnable shutdownCalled now l w) (hw : w.status = .wait time)
    (hl : l.Pairwise fun a b => a.lessThan b = true) :
    (∀ u ∈ w.pending, runnable u.sequenceTokenId = true → time ≤ u.timeToRun) ∧
      ∃ t ∈ w.pending, now < t.timeToRun ∧ (shutdownCalled = true → t.blocks = true) := by
  cases h with
  | notFound _ => cases hw
  | found _ _ _ _ => cases hw
  | @wait before t rest hsplit hbefore hstop hnow =>
    cases hw
    refine ⟨?_, t, by simp, hnow, (stops hstop).2⟩
    intro u hu hrunnable
    rcases List.mem_append.mp hu with hu | hu
    · have := (List.mem_filter.mp hu).2
      simp [hrunnable] at this
    · rcases List.mem_cons.mp hu with rfl | hu
      · exact le_refl _
      · rw [hsplit] at hl
        have := List.rel_of_pairwise_cons (List.pairwise_append.mp hl).2.1 hu
        rw [SequencedTask.lessThan_iff] at this
        omega

end Scans

end Mdgate.Pool
