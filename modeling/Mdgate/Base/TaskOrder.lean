import Mdgate.Base.TaskQueues
import Mdgate.Lib.Log

/-!
# The order in which a message loop starts its tasks

`SequencedTaskRunner` promises that of two tasks the one posted first starts first, unless the
second has the smaller delay or only the first is non-nestable. `Sequenced` is what a loop keeps
of that, whatever its pump does, as long as no sequence number rolls over: a nestable task is never
overtaken, but a non-nestable one that was deferred in a nested `RunLoop` is, by tasks that are
reached later and not deferred. That no task is lost (`Conserved`) does not depend on the numbers.
-/

namespace Mdgate.Base

/-! ## The order -/

/-- `a` was posted before `b` and is due no later. -/
def PendingTask.Precedes (a b : PendingTask) : Prop :=
  a.serial < b.serial ∧
    (a.delayedRunTime = 0 ∨ b.delayedRunTime ≠ 0 ∧ a.delayedRunTime ≤ b.delayedRunTime)

/-- `a` is due before `b`, or together with it and was posted before it. -/
def PendingTask.DueBefore (a b : PendingTask) : Prop :=
  a.delayedRunTime < b.delayedRunTime ∨
    a.delayedRunTime = b.delayedRunTime ∧ a.serial < b.serial

instance : IsTrans PendingTask PendingTask.DueBefore := ⟨fun a b c h1 h2 => by
  unfold PendingTask.DueBefore at *; omega⟩

open PendingTask (Precedes DueBefore Numbered)
open Lib.Log (concat_eq_split)

/-- The sequence numbers have not rolled over since a task was accepted that is still in the
delayed queue. -/
def TaskQueues.NoRollOver (q : TaskQueues) : Prop :=
  ∀ p ∈ q.delayed.tasks, q.accepted ≤ p.serial + 2 ^ 31

instance : DecidablePred TaskQueues.NoRollOver :=
  fun q => inferInstanceAs (Decidable (∀ p ∈ q.delayed.tasks, q.accepted ≤ p.serial + 2 ^ 31))

/-- The delayed queue holds delayed tasks only, in the order in which they are due, and the others
are behind it in the order in which they were posted. -/
structure TaskQueues.Sorted (q : TaskQueues) : Prop where
  counted : q.nextSequenceNum = Int32.ofNat q.accepted
  numbered : ∀ a ∈ q.waiting, a.Numbered
  fresh : ∀ a ∈ q.waiting, a.serial < q.accepted
  arriving : (q.work ++ q.incoming).Pairwise fun a b => a.serial < b.serial
  older : ∀ a ∈ q.delayed.tasks, ∀ b ∈ q.work ++ q.incoming, a.serial < b.serial
  delayed : ∀ a ∈ q.delayed.tasks, a.delayedRunTime ≠ 0
  due : q.delayed.tasks.Pairwise DueBefore

namespace TaskQueues.Sorted

variable {q q' : TaskQueues} {p : PendingTask} {rest : List PendingTask}

theorem empty : TaskQueues.empty.Sorted := by
  constructor <;> simp [TaskQueues.empty, TaskQueues.waiting]

/-- No task that waits precedes an immediate task at the head of the work queue. -/
theorem first_work (h : q.Sorted) (hw : q.work = p :: rest) (hp : p.delayedRunTime = 0) :
    ∀ a ∈ q.waiting, ¬ Precedes a p := by
  rintro a ha ⟨hserial, hdue⟩
  rcases List.mem_append.mp ha with ha | ha
  · have harriving := h.arriving
    rw [hw, List.cons_append] at harriving ha
    rcases List.mem_cons.mp ha with rfl | ha
    · omega
    · have := List.rel_of_pairwise_cons harriving ha
      omega
  · have := h.delayed a ha
    omega

/-- No task that waits precedes the top of the delayed queue. -/
theorem first_delayed (h : q.Sorted) (htop : q.delayed.top? = some p) :
    ∀ a ∈ q.waiting, ¬ Precedes a p := by
  rintro a ha ⟨hserial, hdue⟩
  obtain ⟨rest, hrest⟩ := List.head?_eq_some_iff.mp htop
  rcases List.mem_append.mp ha with ha | ha
  · have := h.older p (hrest ▸ List.mem_cons_self) a ha
    omega
  · have hsorted := h.due
    rw [hrest] at hsorted
    have hne := h.delayed a ha
    rw [hrest] at ha
    rcases List.mem_cons.mp ha with rfl | ha
    · omega
    · have hbefore := List.rel_of_pairwise_cons hsorted ha
      unfold DueBefore at hbefore
      omega

/-- The newest delayed task is put behind those that are due with it: no number between them has
rolled over. -/
theorem due_push (h : q.Sorted) (hroll : q.NoRollOver) (hp : p ∈ q.waiting)
    (hnewest : ∀ a ∈ q.delayed.tasks, a.serial < p.serial) :
    (q.delayed.push p).tasks.Pairwise DueBefore := by
  have hlt (a : PendingTask) (ha : a ∈ q.delayed.tasks) : p.lt a = false ↔
      p.delayedRunTime < a.delayedRunTime ∨
        (p.delayedRunTime = a.delayedRunTime ∧ p.serial ≤ a.serial) := by
    have hnew := hnewest a ha
    have hfresh := h.fresh p hp
    have hrecent := hroll a ha
    refine PendingTask.lt_eq_false_iff (h.numbered p hp)
      (h.numbered a (List.mem_append_right _ ha)) ⟨?_, ?_⟩ <;> omega
  refine pairwise_orderedInsert h.due (fun a ha hpa => ?_) (fun a ha hpa => ?_)
  · have hnew := hnewest a ha
    have hdue := (hlt a ha).mp hpa
    unfold DueBefore
    omega
  · have hnew := hnewest a ha
    have hdue := mt (hlt a ha).mpr hpa
    unfold DueBefore
    omega

theorem sublist (h : q.Sorted) (hwork : (q'.work ++ q'.incoming).Sublist (q.work ++ q.incoming))
    (hdelayed : q'.delayed.tasks.Sublist q.delayed.tasks)
    (hnext : q'.nextSequenceNum = q.nextSequenceNum) (haccepted : q'.accepted = q.accepted) :
    q'.Sorted := by
  have hsub : ∀ a ∈ q'.waiting, a ∈ q.waiting :=
    fun a ha => (hwork.append hdelayed).subset ha
  refine ⟨?_, fun a ha => h.numbered a (hsub a ha), fun a ha => ?_, h.arriving.sublist hwork,
    fun a ha b hb => h.older a (hdelayed.subset ha) b (hwork.subset hb),
    fun a ha => h.delayed a (hdelayed.subset ha), h.due.sublist hdelayed⟩
  · rw [hnext, haccepted, h.counted]
  · rw [haccepted]
    exact h.fresh a (hsub a ha)

theorem tail (h : q.Sorted) (hw : q.work = p :: rest) {deferred : List PendingTask} :
    TaskQueues.Sorted { q with work := rest, deferred } := by
  refine h.sublist ?_ (List.Sublist.refl _) rfl rfl
  rw [hw]
  exact (List.sublist_cons_self p rest).append_right _

theorem pop (h : q.Sorted) {deferred : List PendingTask} :
    TaskQueues.Sorted { q with delayed := q.delayed.pop, deferred } :=
  h.sublist (List.Sublist.refl _) (List.tail_sublist _) rfl rfl

theorem post (h : q.Sorted) (hseq : p.sequenceNum = q.nextSequenceNum)
    (hserial : p.serial = q.accepted) : TaskQueues.Sorted { q with
      incoming := q.incoming ++ [p], nextSequenceNum := q.nextSequenceNum + 1
      accepted := q.accepted + 1 } := by
  have hwaiting : ∀ a ∈ (q.work ++ (q.incoming ++ [p])) ++ q.delayed.tasks,
      a ∈ q.waiting ∨ a = p := by
    intro a ha
    simp only [TaskQueues.waiting, List.mem_append, List.mem_singleton] at ha ⊢
    tauto
  refine ⟨?_, ?_, ?_, ?_, ?_, h.delayed, h.due⟩
  · rw [h.counted, Int32.ofNat_add]
    rfl
  · intro a ha
    rcases hwaiting a ha with ha | rfl
    · exact h.numbered a ha
    · rw [Numbered, hseq, hserial, h.counted]
  · intro a ha
    rcases hwaiting a ha with ha | rfl
    · exact Nat.lt_succ_of_lt (h.fresh a ha)
    · exact hserial ▸ Nat.lt_succ_self _
  · rw [← List.append_assoc]
    refine List.pairwise_append.mpr ⟨h.arriving, List.pairwise_singleton _ _, ?_⟩
    intro a ha b hb
    rw [List.mem_singleton.mp hb, hserial]
    exact h.fresh a (List.mem_append_left _ ha)
  · intro a ha b hb
    rw [← List.append_assoc] at hb
    rcases List.mem_append.mp hb with hb | hb
    · exact h.older a ha b hb
    · rw [List.mem_singleton.mp hb, hserial]
      exact h.fresh a (List.mem_append_right _ ha)

/-- A delayed task moves from the work queue to the delayed queue. -/
theorem delay (h : q.Sorted) (hroll : q.NoRollOver) (hw : q.work = p :: rest)
    (hp : p.delayedRunTime ≠ 0) :
    TaskQueues.Sorted { q with work := rest, delayed := q.delayed.push p } := by
  have harriving := h.arriving
  have holder := h.older
  have hmem : p ∈ q.waiting := by simp [TaskQueues.waiting, hw]
  rw [hw, List.cons_append] at harriving holder
  have hwaiting : ∀ a ∈ (rest ++ q.incoming) ++ (q.delayed.push p).tasks, a ∈ q.waiting := by
    intro a ha
    simp only [TaskQueues.waiting, hw, List.mem_append, List.mem_cons,
      DelayedTaskQueue.mem_push] at ha ⊢
    tauto
  refine ⟨h.counted, fun a ha => h.numbered a (hwaiting a ha),
    fun a ha => h.fresh a (hwaiting a ha), harriving.of_cons, ?_, ?_,
    h.due_push hroll hmem fun a ha => holder a ha p List.mem_cons_self⟩
  · intro a ha b hb
    rcases DelayedTaskQueue.mem_push.mp ha with rfl | ha
    · exact List.rel_of_pairwise_cons harriving hb
    · exact holder a ha b (List.mem_cons_of_mem p hb)
  · intro a ha
    rcases DelayedTaskQueue.mem_push.mp ha with rfl | ha
    · exact hp
    · exact h.delayed a ha

theorem serves (h : q.Sorted) (hroll : q.NoRollOver) {now : Int} {top : Bool}
    {es : List TaskEvent} (hs : Serves now top q es q') : q'.Sorted := by
  cases hs with
  | keeps => exact h
  | posts _ hseq hserial => exact h.post hseq hserial
  | reloads hw => exact h.sublist (by simp [hw]) (List.Sublist.refl _) rfl rfl
  | delays hw hp => exact h.delay hroll hw hp
  | runs hw _ _ => exact h.tail hw
  | defers hw _ _ _ => exact h.tail hw
  | runsDelayed _ _ => exact h.pop
  | defersDelayed _ _ _ => exact h.pop
  | runsDeferred _ _ => exact h.sublist (List.Sublist.refl _) (List.Sublist.refl _) rfl rfl

end TaskQueues.Sorted

@[simp] theorem posts_started (log : List TaskEvent) (p : PendingTask) :
    posts (log ++ [.started p]) = posts log := by
  simp [posts, TaskEvent.post?]

@[simp] theorem posts_deferred (log : List TaskEvent) (p : PendingTask) :
    posts (log ++ [.deferred p]) = posts log := by
  simp [posts, TaskEvent.post?]

@[simp] theorem starts_started (log : List TaskEvent) (p : PendingTask) :
    starts (log ++ [.started p]) = starts log ++ [p] := by
  simp [starts, TaskEvent.start?]

@[simp] theorem starts_deferred (log : List TaskEvent) (p : PendingTask) :
    starts (log ++ [.deferred p]) = starts log := by
  simp [starts, TaskEvent.start?]

/-! ## No task is lost -/

/-- Each task that was accepted was started, or is still queued. -/
structure Accounted (log : List TaskEvent) (q : TaskQueues) : Prop where
  accounted : (posts log).Perm (starts log ++ (q.waiting ++ q.deferred))
  serials : (posts log).Pairwise fun a b => a.serial < b.serial
  fresh : ∀ a ∈ posts log, a.serial < q.accepted
  notNestable : ∀ a, .deferred a ∈ log → a.nestable = false

namespace Accounted

variable {log : List TaskEvent} {q q' : TaskQueues} {p a : PendingTask}

theorem empty : Accounted [] .empty := by
  constructor <;> simp [posts, starts, TaskQueues.empty, TaskQueues.waiting]

theorem nodup (h : Accounted log q) : (starts log ++ (q.waiting ++ q.deferred)).Nodup := by
  refine h.accounted.nodup_iff.mp (h.serials.imp ?_)
  rintro a _ hlt rfl
  exact lt_irrefl _ hlt

theorem mem_posts_iff (h : Accounted log q) :
    a ∈ posts log ↔ .started a ∈ log ∨ a ∈ q.waiting ∨ a ∈ q.deferred := by
  rw [h.accounted.mem_iff, List.mem_append, List.mem_append, mem_starts]

theorem move (h : Accounted log q)
    (hq : (q.waiting ++ q.deferred).Perm (q'.waiting ++ q'.deferred))
    (hnext : q'.accepted = q.accepted) : Accounted log q' :=
  ⟨h.accounted.trans (hq.append_left _), h.serials, hnext ▸ h.fresh, h.notNestable⟩

theorem post {delay : Int} (h : Accounted log q) (hserial : p.serial = q.accepted)
    (hq : (p :: (q.waiting ++ q.deferred)).Perm (q'.waiting ++ q'.deferred))
    (hnext : q'.accepted = q.accepted + 1) : Accounted (log ++ [.posted p delay]) q' := by
  have hposts : posts (log ++ [.posted p delay]) = posts log ++ [p] := by
    simp [posts, TaskEvent.post?]
  have hstarts : starts (log ++ [.posted p delay]) = starts log := by
    simp [starts, TaskEvent.start?]
  refine ⟨?_, ?_, ?_, ?_⟩
  · rw [hposts, hstarts]
    have := h.accounted
    grind
  · rw [hposts]
    refine List.pairwise_append.mpr ⟨h.serials, List.pairwise_singleton _ _, ?_⟩
    intro a ha b hb
    rw [List.mem_singleton.mp hb, hserial]
    exact h.fresh a ha
  · rw [hposts, hnext]
    intro a ha
    rcases List.mem_append.mp ha with ha | ha
    · have := h.fresh a ha
      omega
    · rw [List.mem_singleton.mp ha]
      omega
  · intro a ha
    exact h.notNestable a (by simpa using ha)

theorem start (h : Accounted log q)
    (hq : (q.waiting ++ q.deferred).Perm (p :: (q'.waiting ++ q'.deferred)))
    (hnext : q'.accepted = q.accepted) : Accounted (log ++ [.started p]) q' := by
  refine ⟨?_, by simpa using h.serials, by simpa [hnext] using h.fresh, ?_⟩
  · rw [posts_started, starts_started]
    have := h.accounted
    grind
  · intro a ha
    exact h.notNestable a (by simpa using ha)

theorem defer (h : Accounted log q) (hp : p.nestable = false)
    (hq : (q.waiting ++ q.deferred).Perm (q'.waiting ++ q'.deferred))
    (hnext : q'.accepted = q.accepted) : Accounted (log ++ [.deferred p]) q' := by
  have hmoved := h.move hq hnext
  refine ⟨by simpa using hmoved.accounted, by simpa using h.serials,
    by simpa using hmoved.fresh, ?_⟩
  intro a ha
  rcases List.mem_append.mp ha with ha | ha
  · exact h.notNestable a ha
  · obtain rfl : a = p := by simpa using ha
    exact hp

/-- **Whatever a pump does to the queues, no task is lost.** -/
theorem serves (h : Accounted log q) {now : Int} {top : Bool} {es : List TaskEvent}
    (hs : Serves now top q es q') : Accounted (log ++ es) q' := by
  cases hs with
  | keeps => simpa using h
  | posts _ _ hserial =>
    refine h.post hserial ?_ rfl
    simp only [TaskQueues.waiting]
    grind
  | reloads hw =>
    rw [List.append_nil]
    refine h.move ?_ rfl
    simp [TaskQueues.waiting, hw]
  | @delays p rest hw hp =>
    rw [List.append_nil]
    refine h.move ?_ rfl
    have hins := List.perm_orderedInsert PendingTask.NotAfter p q.delayed.tasks
    simp only [TaskQueues.waiting, DelayedTaskQueue.push, hw]
    grind
  | runs hw _ _ =>
    refine h.start ?_ rfl
    simp [TaskQueues.waiting, hw]
  | defers hw _ hnestable _ =>
    refine h.defer hnestable ?_ rfl
    simp only [TaskQueues.waiting, hw]
    grind
  | runsDelayed htop _ =>
    refine h.start ?_ rfl
    obtain ⟨rest, hrest⟩ := List.head?_eq_some_iff.mp htop
    simp only [TaskQueues.waiting, hrest, DelayedTaskQueue.tasks_pop, List.tail_cons]
    grind
  | defersDelayed htop hnestable _ =>
    refine h.defer hnestable ?_ rfl
    obtain ⟨rest, hrest⟩ := List.head?_eq_some_iff.mp htop
    simp only [TaskQueues.waiting, hrest, DelayedTaskQueue.tasks_pop, List.tail_cons]
    grind
  | runsDeferred hq _ =>
    refine h.start ?_ rfl
    simp only [TaskQueues.waiting, hq]
    grind

end Accounted

/-! ## The order of the starts -/

/-- The log and the queues of a loop that starts its tasks in order. -/
structure Ordered (log : List TaskEvent) (q : TaskQueues) : Prop extends Accounted log q where
  reached : ∀ b ∈ starts log ++ q.deferred, ∀ a ∈ q.waiting, ¬ Precedes a b
  deferredOrder : q.deferred.Pairwise fun a b => ¬ Precedes b a
  deferrals : ∀ a, .deferred a ∈ log → a ∈ starts log ++ q.deferred
  logged : ∀ a ∈ q.deferred, .deferred a ∈ log
  /-- Before a task starts, those that precede it have started, but for the deferred ones that a
  task which is not deferred overtakes. -/
  order : ∀ l l' b, log = l ++ .started b :: l' → ∀ a ∈ posts log, Precedes a b →
    .started a ∈ l ∨ .deferred a ∈ l ∧ .deferred b ∉ log

namespace Ordered

variable {log : List TaskEvent} {q q' : TaskQueues} {p a b : PendingTask}

theorem empty : Ordered [] .empty := by
  refine ⟨.empty, ?_, ?_, ?_, ?_, ?_⟩ <;> simp [starts, TaskQueues.empty]

/-- A task that waits was neither started nor deferred. -/
theorem not_reached (h : Ordered log q) (hp : p ∈ q.waiting) :
    p ∉ starts log ++ q.deferred := by
  have hnodup := h.nodup
  have hperm : (starts log ++ (q.waiting ++ q.deferred)).Perm
      (q.waiting ++ (starts log ++ q.deferred)) := by
    grind
  rw [hperm.nodup_iff] at hnodup
  exact List.disjoint_of_nodup_append hnodup hp

theorem not_deferred (h : Ordered log q) (hp : p ∈ q.waiting) : .deferred p ∉ log :=
  fun hlog => h.not_reached hp (h.deferrals p hlog)

theorem move (h : Ordered log q) (hacc : Accounted log q') (hwaiting : q'.waiting.Perm q.waiting)
    (hdeferred : q'.deferred = q.deferred) : Ordered log q' := by
  refine ⟨hacc, ?_, hdeferred ▸ h.deferredOrder, ?_, ?_, h.order⟩
  · rw [hdeferred]
    exact fun b hb a ha => h.reached b hb a (hwaiting.mem_iff.mp ha)
  · rw [hdeferred]
    exact h.deferrals
  · rw [hdeferred]
    exact h.logged

theorem post {delay : Int} (h : Ordered log q) (hacc : Accounted (log ++ [.posted p delay]) q')
    (hserial : p.serial = q.accepted) (hwaiting : q'.waiting.Perm (p :: q.waiting))
    (hdeferred : q'.deferred = q.deferred) : Ordered (log ++ [.posted p delay]) q' := by
  have hposts : posts (log ++ [.posted p delay]) = posts log ++ [p] := by
    simp [posts, TaskEvent.post?]
  have hstarts : starts (log ++ [.posted p delay]) = starts log := by
    simp [starts, TaskEvent.start?]
  have hlast : ∀ b ∈ posts log, ¬ Precedes p b := by
    rintro b hb ⟨hlt, -⟩
    have := h.fresh b hb
    omega
  refine ⟨hacc, ?_, hdeferred ▸ h.deferredOrder, ?_, ?_, ?_⟩
  · rw [hstarts, hdeferred]
    intro b hb a ha
    rcases List.mem_cons.mp (hwaiting.mem_iff.mp ha) with rfl | ha
    · apply hlast b
      rw [h.mem_posts_iff, ← mem_starts]
      rcases List.mem_append.mp hb with hb | hb
      · exact .inl hb
      · exact .inr (.inr hb)
    · exact h.reached b hb a ha
  · rw [hstarts, hdeferred]
    intro a ha
    exact h.deferrals a (by simpa using ha)
  · rw [hdeferred]
    exact fun a ha => List.mem_append_left _ (h.logged a ha)
  · intro l l' b hlog a ha hab
    rcases concat_eq_split hlog with ⟨-, he⟩ | ⟨l'', hlog⟩
    · cases he
    · rw [hposts] at ha
      rcases List.mem_append.mp ha with ha | ha
      · simpa using h.order l l'' b hlog a ha hab
      · rw [List.mem_singleton.mp ha] at hab
        refine absurd hab (hlast b ?_)
        rw [h.mem_posts_iff, hlog]
        exact .inl (by simp)

theorem start (h : Ordered log q) (hacc : Accounted (log ++ [.started p]) q')
    (hfirst : ∀ a ∈ q.waiting, ¬ Precedes a p) (hwaiting : q.waiting.Perm (p :: q'.waiting))
    (hdeferred : q'.deferred = q.deferred) : Ordered (log ++ [.started p]) q' := by
  have hp : p ∈ q.waiting := hwaiting.mem_iff.mpr List.mem_cons_self
  have hnot := h.not_deferred hp
  refine ⟨hacc, ?_, hdeferred ▸ h.deferredOrder, ?_, ?_, ?_⟩
  · rw [starts_started, hdeferred]
    intro b hb a ha
    have ha : a ∈ q.waiting := hwaiting.mem_iff.mpr (List.mem_cons_of_mem p ha)
    by_cases hbp : b = p
    · exact hbp ▸ hfirst a ha
    · refine h.reached b ?_ a ha
      simpa [hbp] using hb
  · rw [starts_started, hdeferred]
    intro a ha
    have hreached := h.deferrals a (by simpa using ha)
    simp only [List.mem_append] at hreached ⊢
    tauto
  · rw [hdeferred]
    exact fun a ha => List.mem_append_left _ (h.logged a ha)
  · intro l l' b hlog a ha hab
    rw [posts_started] at ha
    rcases concat_eq_split hlog with ⟨rfl, he⟩ | ⟨l'', hlog⟩
    · cases he
      rcases h.mem_posts_iff.mp ha with ha | ha | ha
      · exact .inl ha
      · exact absurd hab (hfirst a ha)
      · exact .inr ⟨h.logged a ha, by simpa using hnot⟩
    · simpa using h.order l l'' b hlog a ha hab

theorem defer (h : Ordered log q) (hacc : Accounted (log ++ [.deferred p]) q')
    (hfirst : ∀ a ∈ q.waiting, ¬ Precedes a p) (hwaiting : q.waiting.Perm (p :: q'.waiting))
    (hdeferred : q'.deferred = q.deferred ++ [p]) : Ordered (log ++ [.deferred p]) q' := by
  have hp : p ∈ q.waiting := hwaiting.mem_iff.mpr List.mem_cons_self
  have hreached := h.not_reached hp
  refine ⟨hacc, ?_, ?_, ?_, ?_, ?_⟩
  · rw [starts_deferred, hdeferred]
    intro b hb a ha
    have ha : a ∈ q.waiting := hwaiting.mem_iff.mpr (List.mem_cons_of_mem p ha)
    by_cases hbp : b = p
    · exact hbp ▸ hfirst a ha
    · refine h.reached b ?_ a ha
      simpa [hbp] using hb
  · rw [hdeferred]
    refine List.pairwise_append.mpr ⟨h.deferredOrder, List.pairwise_singleton _ _, ?_⟩
    intro a ha b hb
    rw [List.mem_singleton.mp hb]
    exact h.reached a (List.mem_append_right _ ha) p hp
  · rw [starts_deferred, hdeferred]
    intro a ha
    rcases List.mem_append.mp ha with ha | ha
    · have hold := h.deferrals a ha
      simp only [List.mem_append] at hold ⊢
      tauto
    · obtain rfl : a = p := by simpa using ha
      simp
  · rw [hdeferred]
    intro a ha
    rcases List.mem_append.mp ha with ha | ha
    · exact List.mem_append_left _ (h.logged a ha)
    · rw [List.mem_singleton.mp ha]
      simp
  · intro l l' b hlog a ha hab
    rw [posts_deferred] at ha
    rcases concat_eq_split hlog with ⟨-, he⟩ | ⟨l'', hlog⟩
    · cases he
    · refine (h.order l l'' b hlog a ha hab).imp_right ?_
      rintro ⟨hdeferred, hnot⟩
      refine ⟨hdeferred, ?_⟩
      have hb : b ∈ starts log := by simp [hlog]
      rw [List.mem_append, not_or, List.mem_singleton, TaskEvent.deferred.injEq]
      exact ⟨hnot, fun heq => hreached (heq ▸ List.mem_append_left _ hb)⟩

theorem startDeferred {rest : List PendingTask} (h : Ordered log q)
    (hacc : Accounted (log ++ [.started p]) q') (hq : q.deferred = p :: rest)
    (hwaiting : q'.waiting = q.waiting) (hdeferred : q'.deferred = rest) :
    Ordered (log ++ [.started p]) q' := by
  have horder := h.deferredOrder
  rw [hq] at horder
  refine ⟨hacc, ?_, hdeferred ▸ horder.of_cons, ?_, ?_, ?_⟩
  · rw [starts_started, hwaiting, hdeferred]
    intro b hb a ha
    refine h.reached b ?_ a ha
    rw [hq]
    simpa [or_assoc] using hb
  · rw [starts_started, hdeferred]
    intro a ha
    have hold := h.deferrals a (by simpa using ha)
    rw [hq] at hold
    simpa [or_assoc] using hold
  · rw [hdeferred]
    exact fun a ha => List.mem_append_left _ (h.logged a (hq ▸ List.mem_cons_of_mem p ha))
  · intro l l' b hlog a ha hab
    rw [posts_started] at ha
    rcases concat_eq_split hlog with ⟨rfl, he⟩ | ⟨l'', hlog⟩
    · cases he
      rcases h.mem_posts_iff.mp ha with ha | ha | ha
      · exact .inl ha
      · exact absurd hab (h.reached p (by simp [hq]) a ha)
      · rw [hq] at ha
        rcases List.mem_cons.mp ha with rfl | ha
        · exact absurd hab.1 (lt_irrefl _)
        · exact absurd hab (List.rel_of_pairwise_cons horder ha)
    · simpa using h.order l l'' b hlog a ha hab

/-- **Whatever a pump does to sorted queues, the tasks stay in order.** -/
theorem serves (h : Ordered log q) (hsorted : q.Sorted) {now : Int} {top : Bool}
    {es : List TaskEvent} (hs : Serves now top q es q') : Ordered (log ++ es) q' := by
  have hacc := h.toAccounted.serves hs
  cases hs with
  | keeps => simpa using h
  | posts _ _ hserial =>
    refine h.post hacc hserial ?_ rfl
    simp only [TaskQueues.waiting]
    grind
  | reloads hw =>
    rw [List.append_nil] at hacc ⊢
    refine h.move hacc ?_ rfl
    simp [TaskQueues.waiting, hw]
  | @delays p rest hw hp =>
    rw [List.append_nil] at hacc ⊢
    refine h.move hacc ?_ rfl
    have hins := List.perm_orderedInsert PendingTask.NotAfter p q.delayed.tasks
    simp only [TaskQueues.waiting, DelayedTaskQueue.push, hw]
    grind
  | runs hw hp _ =>
    refine h.start hacc (hsorted.first_work hw hp) ?_ rfl
    simp [TaskQueues.waiting, hw]
  | defers hw hp _ _ =>
    refine h.defer hacc (hsorted.first_work hw hp) ?_ rfl
    simp [TaskQueues.waiting, hw]
  | @runsDelayed p htop _ =>
    refine h.start hacc (hsorted.first_delayed htop) ?_ rfl
    obtain ⟨rest, hrest⟩ := List.head?_eq_some_iff.mp htop
    simp only [TaskQueues.waiting, hrest, DelayedTaskQueue.tasks_pop, List.tail_cons]
    exact List.perm_middle
  | @defersDelayed p htop _ _ =>
    refine h.defer hacc (hsorted.first_delayed htop) ?_ rfl
    obtain ⟨rest, hrest⟩ := List.head?_eq_some_iff.mp htop
    simp only [TaskQueues.waiting, hrest, DelayedTaskQueue.tasks_pop, List.tail_cons]
    exact List.perm_middle
  | runsDeferred hq _ => exact h.startDeferred hacc hq rfl rfl

end Ordered

/-! ## Delays -/

/-- A post with a delay that is not smaller, and not earlier, is not due before. -/
theorem IncomingTaskQueue.calculateDelayedRuntime_le {t now d d' : Int} (ht : 0 ≤ t)
    (hnow : t ≤ now) (hd : d ≤ d') : calculateDelayedRuntime t d = 0 ∨
      calculateDelayedRuntime now d' ≠ 0 ∧
        calculateDelayedRuntime t d ≤ calculateDelayedRuntime now d' := by
  simp only [calculateDelayedRuntime, TimeDelta.saturatedAdd, int64Max]
  split_ifs <;> omega

/-- The times of the tasks are those of a clock that does not go back. -/
structure Timely (now : Int) (log : List TaskEvent) : Prop where
  timed : ∀ p delay, .posted p delay ∈ log → ∃ t, 0 ≤ t ∧ t ≤ now ∧
    p.delayedRunTime = IncomingTaskQueue.calculateDelayedRuntime t delay
  due : ∀ l l' a d b d', log = l ++ .posted b d' :: l' → .posted a d ∈ l → d ≤ d' → Precedes a b

namespace Timely

variable {now : Int} {log : List TaskEvent}

theorem mono {now' : Int} (h : Timely now log) (hnow : now ≤ now') : Timely now' log := by
  refine ⟨?_, h.due⟩
  intro p delay hp
  obtain ⟨t, h0, ht, he⟩ := h.timed p delay hp
  exact ⟨t, h0, ht.trans hnow, he⟩

theorem other {e : TaskEvent} (h : Timely now log) (he : e.post? = none) :
    Timely now (log ++ [e]) := by
  constructor
  · intro p delay hp
    rcases List.mem_append.mp hp with hp | hp
    · exact h.timed p delay hp
    · cases List.mem_singleton.mp hp
      cases he
  · intro l l' a d b d' hlog ha hd
    rcases concat_eq_split hlog with ⟨-, rfl⟩ | ⟨l'', hlog⟩
    · cases he
    · exact h.due l l'' a d b d' hlog ha hd

theorem post {p : PendingTask} {delay : Int} (h : Timely now log) (hnow : 0 ≤ now)
    (hp : p.delayedRunTime = IncomingTaskQueue.calculateDelayedRuntime now delay)
    (hlast : ∀ a ∈ posts log, a.serial < p.serial) :
    Timely now (log ++ [.posted p delay]) := by
  constructor
  · intro q d hq
    rcases List.mem_append.mp hq with hq | hq
    · exact h.timed q d hq
    · cases List.mem_singleton.mp hq
      exact ⟨now, hnow, le_rfl, hp⟩
  · intro l l' a d b d' hlog ha hd
    rcases concat_eq_split hlog with ⟨rfl, he⟩ | ⟨l'', hlog⟩
    · cases he
      obtain ⟨t, h0, ht, hta⟩ := h.timed a d ha
      refine ⟨hlast a (mem_posts.mpr ⟨d, ha⟩), ?_⟩
      rw [hta, hp]
      exact IncomingTaskQueue.calculateDelayedRuntime_le h0 ht hd
    · exact h.due l l'' a d b d' hlog ha hd

theorem serves {q q' : TaskQueues} {top : Bool} {es : List TaskEvent} (h : Timely now log)
    (hnow : 0 ≤ now) (hfresh : ∀ a ∈ posts log, a.serial < q.accepted)
    (hs : Serves now top q es q') : Timely now (log ++ es) := by
  cases hs with
  | keeps | reloads | delays => simpa using h
  | posts hp _ hserial => exact h.post hnow hp (hserial ▸ hfresh)
  | runs | defers | runsDelayed | defersDelayed | runsDeferred => exact h.other rfl

end Timely

/-! ## What every pump keeps -/

/-- The tasks of a loop are neither lost nor run twice, and only a non-nestable one is deferred. -/
structure Conserved (log : List TaskEvent) (queued : List PendingTask) : Prop where
  once : (posts log).Nodup ∧ (posts log).Perm (starts log ++ queued)
  nestable : ∀ p, .deferred p ∈ log → p.nestable = false

/-- A task starts after those that were posted before it with no greater delay, unless it
overtakes one that was deferred. -/
def Sequenced (log : List TaskEvent) : Prop :=
  ∀ l l' m m' a d b d', log = l ++ .posted b d' :: l' → .posted a d ∈ l → d ≤ d' →
    log = m ++ .started b :: m' → .started a ∈ m ∨ .deferred a ∈ m ∧ .deferred b ∉ log

theorem Accounted.conserved {log : List TaskEvent} {l : MessageLoop}
    (h : Accounted log l.queues) : Conserved log l.queued := by
  refine ⟨⟨h.accounted.nodup_iff.mpr h.nodup, h.accounted.trans (.append_left _ ?_)⟩,
    h.notNestable⟩
  simp only [TaskQueues.waiting, MessageLoop.queues, MessageLoop.queued]
  grind

theorem Accounted.new : Accounted [] MessageLoop.new.queues := .empty

/-- The invariant behind `Sequenced`. -/
structure InOrder (now : Int) (log : List TaskEvent) (l : MessageLoop) : Prop where
  clock : 0 ≤ now
  sorted : l.queues.Sorted
  ordered : Ordered log l.queues
  timely : Timely now log

namespace InOrder

variable {now : Int} {log : List TaskEvent} {l l' : MessageLoop}

theorem new (hnow : 0 ≤ now) : InOrder now [] .new := by
  refine ⟨hnow, .empty, .empty, ?_⟩
  constructor <;> simp

theorem mono {now' : Int} (h : InOrder now log l) (hnow : now ≤ now') : InOrder now' log l :=
  ⟨h.clock.trans hnow, h.sorted, h.ordered, h.timely.mono hnow⟩

theorem follows {delay : Int} {t : Option PendingTask} (h : InOrder now log l)
    (hroll : l.queues.NoRollOver) (hs : l.Follows now delay l' t) :
    InOrder now (log ++ taskEvents delay l l' t) l' :=
  ⟨h.clock, h.sorted.serves hroll hs, h.ordered.serves h.sorted hs,
    h.timely.serves h.clock h.ordered.fresh hs⟩

theorem sequenced (h : InOrder now log l) : Sequenced log := by
  intro k k' m m' a d b d' hlog ha hd hstart
  refine h.ordered.order m m' b hstart a ?_ (h.timely.due k k' a d b d' hlog ha hd)
  rw [mem_posts, hlog]
  exact ⟨d, List.mem_append_left _ ha⟩

end InOrder

end Mdgate.Base
