import Mathlib.Algebra.Ring.Nat
import Mathlib.Data.List.Sort
import Mdgate.Base.Time

/-!
# Pending tasks and the delayed-work queue

A task's closure is opaque; `task` is its identity, what `Closure::Equals` compares. The sequence
number is an `int` and rolls over; `serial`, which no function reads, is the number that it would
be without the roll-over, so that the tasks of a run can be told apart.

`DelayedTaskQueue` is the `std::priority_queue` of the source as the list of its tasks in the order
in which they are popped. `operator<` orders the tasks as long as fewer than 2^31 others were
accepted between any two of them (`lt_eq_false_iff`). Beyond that it is no order, and only the run
times of the list are sorted, as those of the heap are.
-/

namespace Mdgate.Base

structure PendingTask where
  task : Nat
  delayedRunTime : Int
  sequenceNum : Int32
  nestable : Bool
  isHighRes : Bool
  /-- Ghost: the number of tasks that were accepted before. -/
  serial : Nat
  deriving DecidableEq, Repr

/-- A difference of sequence numbers is that of the numbers without the roll-over. -/
theorem sequenceNum_sub_pos {x y : Nat} (hx : x < y + 2 ^ 31) (hy : y ≤ x + 2 ^ 31) :
    Int32.ofNat x - Int32.ofNat y > 0 ↔ y < x := by
  have hsub : (Int32.ofNat x - Int32.ofNat y).toInt = (x : Int) - y := by
    rw [Int32.toInt_sub, Int32.toInt_ofNat', Int32.toInt_ofNat', Int.bmod_sub_bmod,
      Int.sub_bmod_bmod]
    exact Int.bmod_eq_of_le (n := (x : Int) - y) (m := 2 ^ 32) (by omega) (by omega)
  rw [gt_iff_lt, Int32.lt_iff_toInt_lt, hsub]
  show (0 : Int) < _ ↔ _
  omega

namespace PendingTask

/-- `PendingTask::operator<`, inverted so that the smaller time is the greater task. -/
def lt (a b : PendingTask) : Bool :=
  if a.delayedRunTime < b.delayedRunTime then false
  else if a.delayedRunTime > b.delayedRunTime then true
  -- the difference, for the roll-over
  else decide (a.sequenceNum - b.sequenceNum > 0)

def NotAfter (a b : PendingTask) : Prop := a.lt b = false

instance : DecidableRel NotAfter := fun a b => inferInstanceAs (Decidable (a.lt b = false))

theorem NotAfter.delayedRunTime_le {a b : PendingTask} (h : NotAfter a b) :
    a.delayedRunTime ≤ b.delayedRunTime := by
  unfold NotAfter lt at h
  split_ifs at h <;> omega

theorem delayedRunTime_le_of_not {a b : PendingTask} (h : ¬ NotAfter a b) :
    b.delayedRunTime ≤ a.delayedRunTime := by
  unfold NotAfter lt at h
  split_ifs at h <;> simp_all

/-- The sequence number is the serial one, rolled over. -/
def Numbered (p : PendingTask) : Prop := p.sequenceNum = Int32.ofNat p.serial

/-- Fewer than 2^31 tasks were accepted between the two. -/
def Near (a b : PendingTask) : Prop :=
  a.serial < b.serial + 2 ^ 31 ∧ b.serial < a.serial + 2 ^ 31

/-- Of two tasks that are near, the one that is due first stands first, and of two that are due
together the one that was accepted first. -/
theorem lt_eq_false_iff {a b : PendingTask} (ha : a.Numbered) (hb : b.Numbered) (h : Near a b) :
    a.lt b = false ↔ a.delayedRunTime < b.delayedRunTime ∨
      (a.delayedRunTime = b.delayedRunTime ∧ a.serial ≤ b.serial) := by
  have hnum := sequenceNum_sub_pos h.1 h.2.le
  rw [← ha, ← hb] at hnum
  unfold lt
  split_ifs <;> simp [hnum] <;> omega

end PendingTask

/-- Insertion keeps a list sorted by any transitive `s` that agrees with what the insertion
compares. -/
theorem pairwise_orderedInsert {α : Type*} {r s : α → α → Prop} [DecidableRel r] [IsTrans α s]
    {a : α} {l : List α} (h : l.Pairwise s) (hr : ∀ b ∈ l, r a b → s a b)
    (hr' : ∀ b ∈ l, ¬ r a b → s b a) : (l.orderedInsert r a).Pairwise s := by
  induction l with
  | nil => exact List.pairwise_singleton s a
  | cons b l ih =>
    obtain ⟨hb, hl⟩ := List.pairwise_cons.mp h
    rw [List.orderedInsert_cons]
    split
    · next hab =>
      have hsab := hr b List.mem_cons_self hab
      refine List.pairwise_cons.mpr ⟨fun c hc => ?_, h⟩
      rcases List.mem_cons.mp hc with rfl | hc
      · exact hsab
      · exact IsTrans.trans a b c hsab (hb c hc)
    · next hab =>
      refine List.pairwise_cons.mpr ⟨fun c hc => ?_, ih hl ?_ ?_⟩
      · rcases (List.mem_orderedInsert r).mp hc with rfl | hc
        · exact hr' b List.mem_cons_self hab
        · exact hb c hc
      · exact fun c hc => hr c (List.mem_cons_of_mem b hc)
      · exact fun c hc => hr' c (List.mem_cons_of_mem b hc)

/-- The priority queue: its tasks in the order in which they are popped. -/
structure DelayedTaskQueue where
  tasks : List PendingTask
  sorted : tasks.Pairwise fun a b => a.delayedRunTime ≤ b.delayedRunTime

namespace DelayedTaskQueue

def empty : DelayedTaskQueue := ⟨[], .nil⟩

def push (q : DelayedTaskQueue) (p : PendingTask) : DelayedTaskQueue :=
  ⟨q.tasks.orderedInsert PendingTask.NotAfter p, pairwise_orderedInsert q.sorted
    (fun _ _ h => h.delayedRunTime_le) fun _ _ h => PendingTask.delayedRunTime_le_of_not h⟩

def top? (q : DelayedTaskQueue) : Option PendingTask := q.tasks.head?

def pop (q : DelayedTaskQueue) : DelayedTaskQueue := ⟨q.tasks.tail, q.sorted.tail⟩

/-- The earliest `delayed_run_time`, null when the queue is empty. -/
def nextRunTime (q : DelayedTaskQueue) : Int := (q.top?.map (·.delayedRunTime)).getD 0

@[simp] theorem tasks_empty : empty.tasks = [] := rfl
@[simp] theorem tasks_pop (q : DelayedTaskQueue) : q.pop.tasks = q.tasks.tail := rfl

@[simp] theorem mem_push {q : DelayedTaskQueue} {p x : PendingTask} :
    x ∈ (q.push p).tasks ↔ x = p ∨ x ∈ q.tasks := List.mem_orderedInsert _

@[simp] theorem push_ne_nil (q : DelayedTaskQueue) (p : PendingTask) : (q.push p).tasks ≠ [] :=
  List.ne_nil_of_mem (mem_push.mpr (.inl rfl))

/-- The head is due no later than any task of the queue. -/
theorem nextRunTime_le {q : DelayedTaskQueue} {p : PendingTask} (h : p ∈ q.tasks) :
    q.nextRunTime ≤ p.delayedRunTime := by
  obtain ⟨l, hl⟩ := q
  cases l with
  | nil => cases h
  | cons a l =>
    rcases List.mem_cons.mp h with rfl | h
    · exact le_refl _
    · exact List.rel_of_pairwise_cons hl h

@[simp] theorem nextRunTime_or (q : DelayedTaskQueue) :
    (if q.tasks.isEmpty then 0 else q.nextRunTime) = q.nextRunTime := by
  obtain ⟨l, hl⟩ := q
  cases l <;> rfl

theorem exists_top {q : DelayedTaskQueue} (h : q.tasks ≠ []) :
    ∃ p ∈ q.tasks, q.top? = some p ∧ q.nextRunTime = p.delayedRunTime := by
  obtain ⟨l, hl⟩ := q
  cases l with
  | nil => exact absurd rfl h
  | cons a l => exact ⟨a, List.mem_cons_self, rfl, rfl⟩

end DelayedTaskQueue

end Mdgate.Base
