import Mdgate.Base.TrackerFlags

/-!
# Runs of a tracker

Every member and every closure keeps the tables and the flags in step, whatever the runners do with
the relays and wherever the copies of the callbacks go.
-/

namespace Mdgate.Base

open Mdgate.Lib Mdgate.Lib.Threads

namespace TrackerState

variable {R : TaskRunners} {t : Nat} {s s' : TrackerState} {i : Nat}

structure Sound (R : TaskRunners) (t : Nat) (s : TrackerState) : Prop where
  tracked : Tracked R t s
  logged : Logged t s
  staged : ∀ n, s.relay.Staged R n

theorem Sound.logs {e : TrackerEvent} {relay : RelayState} (h : Sound R t s)
    (ho : relay.origins = s.relay.origins) (hstaged : ∀ n, relay.Staged R n)
    (he : e.Allowed t s.log) (hr : e.reads = true) :
    Sound R t { s with relay, log := s.log ++ [e] } :=
  ⟨h.tracked.of_relay ho, h.logged.read he hr, hstaged⟩

/-! ## The members -/

theorem Sound.track (h : Sound R t s) (ha : s.alive = true) (relay : RelayState)
    (calls : List Nat) (w : FlagOwner) :
    track { s with
      relay
      nextId := s.nextId + 1
      tasks := s.tasks ++ [⟨s.nextId, some false, w⟩]
      calls := s.calls ++ calls } s.nextId s.tasks.length =
    s.appended relay calls (s.taskFlags ++ [(s.nextId, s.tasks.length)])
      ⟨s.nextId, some false, w⟩ s.log := by
  have hany : s.taskFlags.any (·.1 == s.nextId) = false := by
    rw [List.any_eq_false]
    intro y hy hid
    obtain ⟨hy1, x, hx, -⟩ := (h.tracked.table ha y).mp hy
    have hlt := (List.getElem?_eq_some_iff.mp hx).1
    have hnext := h.tracked.nextId
    rw [beq_iff_eq] at hid
    omega
  rw [TrackerState.track, if_neg (by simp [hany])]
  rfl

theorem deleteFlag_appended {relay : RelayState} {calls : List Nat} {id u : Nat} {w : FlagOwner} :
    deleteFlag { s with
      relay
      nextId := s.nextId + 1
      tasks := s.tasks ++ [⟨id, some false, w⟩]
      calls := s.calls ++ calls } s.tasks.length u =
    s.appended relay calls s.taskFlags ⟨id, none, w⟩
      (s.log ++ [.flagDeleted s.tasks.length u]) := by
  rw [deleteFlag_eq (x := ⟨id, some false, w⟩) (by simp) rfl]
  simp [appended]

theorem Sound.postTaskAndReply {d : Nat} {accepted : Bool} (h : Sound R t s)
    (hs : s.postTaskAndReply R t d accepted = some s') : Sound R t s' := by
  obtain ⟨ha, hs⟩ := Option.ite_none_right_eq_some.mp hs
  obtain ⟨relay, hrelay, rfl⟩ := Option.map_eq_some_iff.mp hs
  obtain ⟨hsome, ho⟩ := RelayState.origins_post hrelay
  obtain ⟨o, hhandle⟩ := Option.isSome_iff_exists.mp hsome
  have hlen : s.relay.origins.length = s.relay.relays.length := by simp [RelayState.origins]
  have hstaged (n : Nat) : relay.Staged R n := (h.staged n).post hrelay
  cases accepted with
  | true =>
    rw [if_pos rfl] at ho
    simp only [if_true]
    rw [h.track ha relay [s.tasks.length] (.reply s.relay.relays.length)]
    refine ⟨h.tracked.appended ha ho rfl ?_ (by simp) ?_, h.logged.appended ha (.inl ⟨rfl, rfl⟩),
      hstaged⟩
    · simp [Holds, ho, ← hlen, hhandle]
    · exact .inr ⟨_, rfl, rfl, by rw [hlen], .inr rfl⟩
  | false =>
    rw [if_neg (by simp)] at ho
    simp only [Bool.false_eq_true, if_false]
    rw [deleteFlag_appended]
    refine ⟨h.tracked.appended ha ho rfl ?_ (by simp) ?_, h.logged.appended ha (.inr ⟨rfl, rfl⟩),
      hstaged⟩
    · simp [Holds, ho, ← hlen]
    · exact .inr ⟨_, rfl, rfl, by rw [hlen], .inl rfl⟩

theorem Sound.newTrackedTaskId (h : Sound R t s) (hs : s.newTrackedTaskId R t = some s') :
    Sound R t s' := by
  obtain ⟨⟨ha, -⟩, rfl⟩ := Machine.guard_eq_some hs
  have htrack := h.track ha s.relay [] (.callback 1)
  rw [List.append_nil] at htrack
  rw [htrack]
  refine ⟨h.tracked.appended ha (List.append_nil _).symm rfl (by simp [Holds]) (by simp)
    (.inl ⟨rfl, rfl, by simp⟩), h.logged.appended ha (.inl ⟨rfl, rfl⟩), h.staged⟩

theorem Sound.set (h : Sound R t s) {x : TrackedTask} (hx : s.tasks[i]? = some x)
    (hf : x.flag.isSome = true) : Sound R t (s.set i) := by
  obtain ⟨b, hb⟩ := Option.isSome_iff_exists.mp hf
  refine ⟨h.tracked.set hx hb, h.logged.set_self hx hb, ?_⟩
  rw [set_eq hx hb]
  exact h.staged

theorem Sound.tryCancel {id : Nat} (h : Sound R t s) (hs : s.tryCancel id = some s') :
    Sound R t s' := by
  obtain ⟨ha, rfl⟩ := Machine.guard_eq_some hs
  split
  · exact h
  next y hy =>
    obtain ⟨x, hx, hf⟩ := h.tracked.live_of_mem ha (List.mem_of_find?_eq_some hy)
    exact h.set hx hf

theorem Sound.setAll (h : Sound R t s) (ha : s.alive = true) :
    Sound R t (s.setAll s.taskFlags) :=
  have hall := setAll_spec h.tracked h.logged fun _ => h.tracked.live_of_mem ha
  ⟨hall.1, hall.2.1, hall.2.2.1 ▸ h.staged⟩

theorem Sound.destroy (h : Sound R t s) (hs : s.destroy = some s') : Sound R t s' := by
  obtain ⟨s₁, hcancel, rfl⟩ := Option.map_eq_some_iff.mp hs
  obtain ⟨ha, rfl⟩ := Machine.guard_eq_some hcancel
  obtain ⟨ht, hl, hrelay, halive, -, hall⟩ :=
    setAll_spec h.tracked h.logged fun _ => h.tracked.live_of_mem ha
  have hlog {e : TrackerEvent} (he : e ∈ (s.setAll s.taskFlags).log ++ [.destroyed])
      (hne : e ≠ .destroyed) : e ∈ (s.setAll s.taskFlags).log :=
    (List.mem_append.mp he).resolve_right fun he => hne (List.mem_singleton.mp he)
  refine ⟨⟨ht.nextId, ht.id, fun i x hx => ?_, fun hd => (by cases hd), .nil, ht.calls, ht.owner,
    ht.origin⟩, ⟨?_, fun i hi => ?_, fun i x hx hf => ?_, fun i u hi => ?_, fun i hi => ?_, ?_,
    fun _ i x hx => ?_⟩, hrelay ▸ h.staged⟩
  · exact (ht.flag i x hx).trans (holds_congr rfl _).symm
  · exact hl.each.concat (hl.alive.mp (halive.trans ha))
  · exact hl.canceled i (hlog hi (by simp))
  · exact List.mem_append_left _ (hl.set i x hx hf)
  · exact hl.deleted i u (hlog hi (by simp))
  · exact hl.untracked i (hlog hi (by simp))
  · simp
  · obtain ⟨x', hx', hsome, -, hmem⟩ := hall i x hx
    intro hf
    have hf' : x'.flag.isSome = true := by rw [← hsome, hf]; rfl
    exact hmem ⟨(i + 1, i), (h.tracked.table ha _).mpr ⟨rfl, x', hx', hf'⟩, rfl⟩ hf

/-! ## The closures -/

/-- The task of a relay with a pending or running closure. -/
theorem Sound.exists_task (h : Sound R t s) {n o : Nat}
    (ho : s.relay.origins[n]? = some (some o)) : ∃ i x b, s.calls[n]? = some i ∧
      s.tasks[i]? = some x ∧ x.flag = some b ∧ x.owner = .reply n := by
  have hn : n < s.calls.length := by
    rw [h.tracked.calls]
    exact (List.getElem?_eq_some_iff.mp ho).1
  obtain ⟨x, hx, hw⟩ := (h.tracked.owner n s.calls[n]).mp (List.getElem?_eq_getElem hn)
  have hf := (h.tracked.flag _ x hx).mpr (hw ▸ ⟨o, ho⟩)
  obtain ⟨b, hb⟩ := Option.isSome_iff_exists.mp hf
  exact ⟨_, x, b, List.getElem?_eq_getElem hn, hx, hb, hw⟩

theorem Sound.take {j u : Nat} (h : Sound R t s) (hs : s.take R j u = some s') :
    Sound R t s' := by
  obtain ⟨y, hy, hs⟩ := Option.bind_eq_some_iff.mp hs
  obtain ⟨relay, hrelay, rfl⟩ := Option.map_eq_some_iff.mp hs
  have ho := RelayState.origins_take hrelay
  have hstaged (n : Nat) : relay.Staged R n := (h.staged n).take hrelay
  obtain ⟨o, hn⟩ := (h.staged y.2.relay).origin_pending hy rfl
  obtain ⟨i, x, b, hcall, hx, hb, -⟩ := h.exists_task hn
  have hget : ({ s with relay } : TrackerState).tasks[i]? = some x := hx
  unfold check
  split
  next n hyn =>
    rw [hyn, RelayTask.relay_run] at hcall
    simp only [hcall]
    rw [isSet_eq hget hb]
    exact h.logs ho hstaged (h.logged.checked hx hb false) rfl
  next n hyn =>
    rw [hyn, RelayTask.relay_runReplyAndSelfDestruct] at hcall
    simp only [hcall]
    rw [isSet_eq hget hb]
    exact h.logs ho hstaged (h.logged.checked hx hb true) rfl

theorem Sound.finish {k : Nat} {accepted : Bool} (h : Sound R t s)
    (hs : s.finish R k accepted = some s') : Sound R t s' := by
  obtain ⟨y, hy, hs⟩ := Option.bind_eq_some_iff.mp hs
  obtain ⟨relay, hrelay, rfl⟩ := Option.map_eq_some_iff.mp hs
  have hstaged (n : Nat) : relay.Staged R n := (h.staged n).finish hrelay
  split
  next n hyn =>
    have ho := RelayState.origins_finish_run hy hyn hrelay
    exact ⟨h.tracked.of_relay ho, h.logged.of_relay, hstaged⟩
  next n hyn =>
    obtain ⟨o, hn, hthread⟩ := (h.staged n).origin_running hy hyn
    obtain ⟨i, x, b, hcall, hx, hb, hw⟩ := h.exists_task hn
    have ho := RelayState.origins_finish_reply hy hyn hn hrelay
    have hruns : R.runsTasksOn o y.1 = true := (R.single hthread y.1).mpr rfl
    have hyt : y.1 = t := (R.single (h.tracked.origin n o hn) y.1).mp hruns
    have hget (m : Nat) (o' : Option Nat) : relay.origins[m]? = some o' ↔
        (m = n ∧ o' = none) ∨ (m ≠ n ∧ s.relay.origins[m]? = some o') := by
      rw [ho]
      exact getElem?_set_iff hn
    simp only [hcall]
    rw [release_eq h.tracked hx hb, hyt]
    refine ⟨h.tracked.released hx (by rw [ho, List.length_set]) (fun m o' hm => ?_) ?_
      (fun j z hj hz => ?_) fun _ => .rfl, h.logged.released hx hb, hstaged⟩
    · rcases (hget m _).mp hm with ⟨-, hm⟩ | ⟨-, hm⟩
      · cases hm
      · exact hm
    · rw [hw]
      rintro ⟨o', ho'⟩
      rcases (hget n _).mp ho' with ⟨-, hm⟩ | ⟨hne, -⟩
      · cases hm
      · exact hne rfl
    · cases hz' : z.owner with
      | reply m =>
        have hmn : m ≠ n := by
          rintro rfl
          have hcall' := (h.tracked.owner m j).mpr ⟨z, hz, hz'⟩
          exact hj (Option.some.inj (hcall'.symm.trans hcall))
        exact exists_congr fun o' => (hget m _).trans
          ⟨fun hm => hm.elim (fun hm => absurd hm.1 hmn) And.right, fun hm => .inr ⟨hmn, hm⟩⟩
      | callback | posted | gone | leaked => rfl

theorem Sound.drop {j : Nat} (h : Sound R t s) (hs : s.drop j = some s') : Sound R t s' := by
  obtain ⟨relay, hrelay, rfl⟩ := Option.map_eq_some_iff.mp hs
  exact ⟨h.tracked.of_relay (RelayState.origins_drop hrelay), h.logged.of_relay,
    fun n => (h.staged n).drop hrelay⟩

/-! ## The callbacks -/

theorem Sound.setOwner {w : FlagOwner} {x : TrackedTask} (h : Sound R t s)
    (hx : s.tasks[i]? = some x) (hholds : s.Holds w ↔ s.Holds x.owner)
    (howner : ∀ n, w = .reply n ↔ x.owner = .reply n) : Sound R t (s.setOwner i w) :=
  ⟨h.tracked.setOwner hx hholds howner, h.logged.setOwner, h.staged⟩

theorem Sound.cleanup {x : TrackedTask} (h : Sound R t s) (hx : s.tasks[i]? = some x)
    (hw : s.Holds x.owner) (howner : ∀ n, x.owner ≠ .reply n) : Sound R t (s.cleanup i t) := by
  obtain ⟨b, hb⟩ := Option.isSome_iff_exists.mp ((h.tracked.flag i x hx).mpr hw)
  rw [cleanup_eq h.tracked hx hb]
  exact ⟨h.tracked.released hx rfl (fun _ _ ho => ho) (fun hg => hg) (fun _ _ _ _ => .rfl)
    fun n => ⟨fun hn => (by cases hn), fun hn => absurd hn (howner n)⟩,
    h.logged.released hx hb, h.staged⟩

theorem Sound.runCallback (h : Sound R t s) (hs : s.runCallback i = some s') : Sound R t s' := by
  unfold TrackerState.runCallback at hs
  split at hs
  next id flag c hx =>
    obtain rfl := Option.some.inj hs
    have hf : flag.isSome = true := (h.tracked.flag i _ hx).mpr trivial
    obtain ⟨b, rfl⟩ := Option.isSome_iff_exists.mp hf
    rw [isSet_eq hx rfl]
    exact h.logs rfl h.staged
      ⟨h.logged.not_deleted hx rfl, h.logged.canceled_iff hx rfl⟩ rfl
  · cases hs

theorem Sound.deleteCallback {u : Nat} {accepted : Bool} (h : Sound R t s)
    (hs : s.deleteCallback R t i u accepted = some s') : Sound R t s' := by
  obtain ⟨o, ho, hs⟩ := Option.bind_eq_some_iff.mp hs
  split at hs
  next id flag c hx =>
    split at hs
    · obtain rfl := Option.some.inj hs
      exact h.setOwner hx .rfl (by simp)
    · split at hs
      next hu =>
        obtain rfl := Option.some.inj hs
        obtain rfl := (R.single ho u).mp hu
        exact h.cleanup hx trivial (by simp)
      · obtain rfl := Option.some.inj hs
        cases accepted <;> exact h.setOwner hx .rfl (by simp)
  · cases hs

theorem Sound.step {a : TrackerAction} (h : Sound R t s) (hs : s.step R t a = some s') :
    Sound R t s' := by
  cases a with
  | postTaskAndReply d accepted => exact h.postTaskAndReply hs
  | newTrackedTaskId => exact h.newTrackedTaskId hs
  | tryCancel id => exact h.tryCancel hs
  | tryCancelAll =>
    obtain ⟨ha, rfl⟩ := Machine.guard_eq_some hs
    exact h.setAll ha
  | destroy => exact h.destroy hs
  | take j u => exact h.take hs
  | finish k accepted => exact h.finish hs
  | drop j => exact h.drop hs
  | copyCallback i | dropCleanup i =>
    simp only [TrackerState.step, copyCallback, dropCleanup] at hs
    split at hs
    next hx =>
      obtain rfl := Option.some.inj hs
      exact h.setOwner hx .rfl (by simp)
    · cases hs
  | runCallback i => exact h.runCallback hs
  | deleteCallback i u accepted => exact h.deleteCallback hs
  | runCleanup i =>
    simp only [TrackerState.step, runCleanup] at hs
    split at hs
    next hx =>
      obtain rfl := Option.some.inj hs
      exact h.cleanup hx trivial (by simp)
    · cases hs

theorem start_sound : Sound R t start := by
  refine ⟨⟨rfl, by simp [start], by simp [start], by simp [start], .nil, rfl, by simp [start],
    by simp [start, RelayState.empty, RelayState.origins]⟩, ⟨.nil, ?_, ?_, ?_, ?_, ?_, ?_⟩,
    fun n => ⟨rfl, rfl, rfl⟩⟩
  all_goals simp [start]

theorem sound (hs : (trackerMachine R t).Reachable s) : Sound R t s := by
  refine hs.invariant (I := fun s => Sound R t s) (fun s hi => ?_) fun s a s' h _ hst => h.step hst
  cases hi
  exact start_sound

/-- What cancelling does to the ids that are tracked. -/
structure Cancels (s : TrackerState) : Prop where
  tryCancel : ∀ id s', s.tryCancel id = some s' →
    (∃ i, (id, i) ∈ s.taskFlags ∧ s'.log = s.log ++ [.canceled i]) ∨
      (∀ i, (id, i) ∉ s.taskFlags) ∧ s' = s
  tryCancelAll : ∀ s', s.tryCancelAll = some s' →
    s'.log = s.log ++ s.taskFlags.map (.canceled ·.2)
  destroy : ∀ s', s.destroy = some s' →
    s'.log = s.log ++ s.taskFlags.map (.canceled ·.2) ++ [.destroyed]

theorem Sound.cancels (h : Sound R t s) : s.Cancels := by
  have hall : ∀ s', s.tryCancelAll = some s' →
      s'.log = s.log ++ s.taskFlags.map (.canceled ·.2) := by
    intro s' hs
    obtain ⟨ha, rfl⟩ := Machine.guard_eq_some hs
    obtain ⟨-, -, -, -, hlog, -⟩ :=
      setAll_spec h.tracked h.logged fun _ => h.tracked.live_of_mem ha
    exact hlog
  refine ⟨fun id s' hs => ?_, hall, fun s' hs => ?_⟩
  · obtain ⟨ha, rfl⟩ := Machine.guard_eq_some hs
    split
    next hnone => exact .inr ⟨fun i hi => by simpa using List.find?_eq_none.mp hnone _ hi, rfl⟩
    next y hy =>
      have hmem := List.mem_of_find?_eq_some hy
      obtain ⟨x, hx, hf⟩ := h.tracked.live_of_mem ha hmem
      obtain ⟨b, hb⟩ := Option.isSome_iff_exists.mp hf
      have hid : y.1 = id := by simpa using List.find?_some hy
      exact .inl ⟨y.2, by rwa [← hid], by rw [set_eq hx hb]⟩
  · obtain ⟨s₁, hcancel, rfl⟩ := Option.map_eq_some_iff.mp hs
    simp only
    rw [hall s₁ hcancel]

/-- **Cancelling is safe and final**: whatever the runners and the threads with callbacks do, no
`DCHECK` of the tracker fails and no deleted flag is used or deleted again, flags are deleted on the
thread of the tracker, and `RunIfNotCanceled` runs a task or a reply exactly when its id was not
cancelled before and the tracker not destroyed. As long as the tracker lives, it tracks exactly the
ids whose reply or callback is still held by someone, and what is cancelled is the task of the id,
or all that are tracked. -/
theorem tracker_sound (hs : (trackerMachine R t).Reachable s) :
    Log.Each (TrackerEvent.Allowed t) s.log ∧
      (s.alive = true → ∀ id i, (id, i) ∈ s.taskFlags ↔
        id = i + 1 ∧ ∃ x, s.tasks[i]? = some x ∧ s.Holds x.owner) ∧ s.Cancels := by
  have h := sound hs
  refine ⟨h.logged.each, fun ha id i => ?_, h.cancels⟩
  refine (h.tracked.table ha _).trans (and_congr_right fun _ => ?_)
  exact exists_congr fun x => and_congr_right fun hx => h.tracked.flag i x hx

/-- A task that is cancelled while it runs, so that its reply is skipped, beside a callback whose
last copy goes on another thread. -/
theorem tracker_sound_two : ∃ s, (trackerMachine messageLoops 0).Reachable s ∧
    s.log = [.checked 0 false true, .canceled 0, .checked 0 true false, .untracked 0,
      .flagDeleted 0 0, .isCanceled 1 false, .untracked 1, .flagDeleted 1 0] ∧
      Log.Each (TrackerEvent.Allowed 0) s.log ∧
        (s.alive = true → ∀ id i, (id, i) ∈ s.taskFlags ↔
          id = i + 1 ∧ ∃ x, s.tasks[i]? = some x ∧ s.Holds x.owner) ∧ s.Cancels := by
  obtain ⟨s, hr, hp⟩ := Machine.exists_reachable (M := trackerMachine messageLoops 0) rfl
    [.postTaskAndReply 1 true, .newTrackedTaskId, .take 0 1, .tryCancel 1, .finish 0 true,
      .take 0 0, .finish 0 true, .runCallback 1, .deleteCallback 1 1 true, .runCleanup 1]
    (p := fun s => decide (s.log = [.checked 0 false true, .canceled 0, .checked 0 true false,
      .untracked 0, .flagDeleted 0 0, .isCanceled 1 false, .untracked 1, .flagDeleted 1 0]))
    (by decide)
  exact ⟨s, hr, of_decide_eq_true hp, tracker_sound hr⟩

end TrackerState

end Mdgate.Base
