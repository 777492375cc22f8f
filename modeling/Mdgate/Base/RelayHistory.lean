import Mdgate.Base.PostTaskAndReply
import Mdgate.Lib.Threads

/-!
# The life of a relay

`RelayStage` lists where a relay can be: who holds a closure of it, what it still holds itself and
what has happened to it. No two closures of a relay exist at a time, so that nobody but the step at
hand knows it.
-/

namespace Mdgate.Base

open Mdgate.Lib

/-- The events of a call that runs to its end: the task on `u`, all the rest on `t`. -/
def completedCall (n t d u : Nat) : List RelayEvent :=
  [.posted n t d, .taskRun n u, .taskReturned n u, .taskReset n t, .replyRun n t,
    .replyReturned n t, .replyReset n t]

/-- The events of a call that the runner rejects. -/
def rejectedCall (n t d : Nat) : List RelayEvent :=
  [.rejected n t d, .taskReset n t, .replyReset n t]

/-- The events of a call whose relay is leaked: the runner deletes the task, the origin loop does
not accept the reply, or deletes it. -/
def leaks (n t d u : Nat) : List (List RelayEvent) :=
  [[.posted n t d, .dropped n],
    [.posted n t d, .taskRun n u, .taskReturned n u, .replyRejected n u],
    [.posted n t d, .taskRun n u, .taskReturned n u, .dropped n]]

/-- The events of a call to which nothing happens any more. -/
def IsOver (n t d u : Nat) (es : List RelayEvent) : Prop :=
  es = completedCall n t d u ∨ es = rejectedCall n t d ∨ es ∈ leaks n t d u

/-- The relay, the pending and the running closures and the events of the call `n`, made on `t` with
the handle `o` for the runner `d`. -/
inductive RelayStage (R : TaskRunners) (n t d o : Nat) : Option PostTaskAndReplyRelay →
    List (Nat × RelayTask) → List (Nat × RelayTask) → List RelayEvent → Prop where
  | posted : RelayStage R n t d o (some ⟨o, true, true⟩) [(d, .run n)] [] [.posted n t d]
  | running (u : Nat) : R.runsTasksOn d u = true →
      RelayStage R n t d o (some ⟨o, true, true⟩) [] [(u, .run n)] [.posted n t d, .taskRun n u]
  | replyPosted (u : Nat) : R.runsTasksOn d u = true →
      RelayStage R n t d o (some ⟨o, true, true⟩) [(o, .runReplyAndSelfDestruct n)] []
        [.posted n t d, .taskRun n u, .taskReturned n u]
  | replying (u : Nat) : R.runsTasksOn d u = true →
      RelayStage R n t d o (some ⟨o, false, true⟩) [] [(t, .runReplyAndSelfDestruct n)]
        [.posted n t d, .taskRun n u, .taskReturned n u, .taskReset n t, .replyRun n t]
  | completed (u : Nat) : R.runsTasksOn d u = true →
      RelayStage R n t d o none [] [] (completedCall n t d u)
  | rejected : RelayStage R n t d o none [] [] (rejectedCall n t d)
  | leaked (u : Nat) (l : List RelayEvent) :
      (RelayEvent.taskRun n u ∈ l → R.runsTasksOn d u = true) →
      l ∈ leaks n t d u → RelayStage R n t d o (some ⟨o, true, true⟩) [] [] l

namespace RelayStage

variable {R : TaskRunners} {n t d o : Nat} {r : Option PostTaskAndReplyRelay}
  {P Q : List (Nat × RelayTask)} {E : List RelayEvent}

theorem exists_of_pending (h : RelayStage R n t d o r P Q E) (hP : P ≠ []) :
    ∃ r', r = some r' ∧ r'.originLoop = o := by
  cases h with
  | posted | replyPosted => exact ⟨_, rfl, rfl⟩
  | running | replying | completed | rejected | leaked => exact absurd rfl hP

theorem exists_of_reply {x : Nat × RelayTask} (h : RelayStage R n t d o r P Q E) (hx : x ∈ Q)
    (hn : x.2 = .runReplyAndSelfDestruct n) :
    x.1 = t ∧ ∃ r', r = some r' ∧ r'.originLoop = o := by
  cases h with
  | running u hu =>
    rw [List.mem_singleton.mp hx] at hn
    cases hn
  | replying u hu =>
    obtain rfl := List.mem_singleton.mp hx
    exact ⟨rfl, _, rfl, rfl⟩
  | posted | replyPosted | completed | rejected | leaked => cases hx

end RelayStage

namespace RelayState

def closuresOf (n : Nat) (l : List (Nat × RelayTask)) : List (Nat × RelayTask) :=
  l.filter fun x => x.2.relay = n

def eventsOf (n : Nat) (log : List RelayEvent) : List RelayEvent :=
  log.filter fun e => e.relay = n

section Closures

variable {n j : Nat} {x y : Nat × RelayTask} {l l' : List (Nat × RelayTask)}

theorem closuresOf_append : closuresOf n (l ++ l') = closuresOf n l ++ closuresOf n l' :=
  List.filter_append ..

theorem closuresOf_cons_self (h : x.2.relay = n) :
    closuresOf n (x :: l) = x :: closuresOf n l := by
  rw [closuresOf, List.filter_cons_of_pos (by simpa using h), closuresOf]

theorem closuresOf_cons_ne (h : x.2.relay ≠ n) : closuresOf n (x :: l) = closuresOf n l := by
  rw [closuresOf, List.filter_cons_of_neg (by simpa using h), closuresOf]

theorem closuresOf_eraseIdx_ne (hx : l[j]? = some x) (h : x.2.relay ≠ n) :
    closuresOf n (l.eraseIdx j) = closuresOf n l := by
  obtain ⟨hj, rfl⟩ := List.getElem?_eq_some_iff.mp hx
  rw [List.eraseIdx_eq_take_drop_succ, closuresOf_append]
  conv => rhs; rw [← List.take_append_drop j l, List.drop_eq_getElem_cons hj]
  rw [closuresOf_append, closuresOf_cons_ne h]

theorem closuresOf_eraseIdx (hx : l[j]? = some x) (h : x.2.relay = n)
    (hl : closuresOf n l = [y]) : x = y ∧ closuresOf n (l.eraseIdx j) = [] := by
  have hperm := (Threads.exists_erased hx).filter fun x => decide (x.2.relay = n)
  rw [List.filter_cons_of_pos (by simpa using h)] at hperm
  change (closuresOf n l).Perm (x :: closuresOf n (l.eraseIdx j)) at hperm
  rw [hl] at hperm
  have heq := List.singleton_perm.mp hperm
  exact ⟨(List.cons.inj heq).1.symm, (List.cons.inj heq).2.symm⟩

theorem closuresOf_ne_nil (hx : l[j]? = some x) (h : x.2.relay = n) : closuresOf n l ≠ [] :=
  List.ne_nil_of_mem (List.mem_filter.mpr ⟨List.mem_of_getElem? hx, by simpa using h⟩)

end Closures

section Events

variable {n : Nat} {log es : List RelayEvent}

theorem eventsOf_append_self (h : ∀ e ∈ es, e.relay = n) :
    eventsOf n (log ++ es) = eventsOf n log ++ es := by
  have hes : es.filter (fun e => decide (e.relay = n)) = es :=
    List.filter_eq_self.mpr fun e he => by simpa using h e he
  rw [eventsOf, List.filter_append, hes, eventsOf]

theorem eventsOf_append_ne {m : Nat} (h : ∀ e ∈ es, e.relay = m) (hm : m ≠ n) :
    eventsOf n (log ++ es) = eventsOf n log := by
  have hes : es.filter (fun e => decide (e.relay = n)) = [] :=
    List.filter_eq_nil_iff.mpr fun e he => by simpa [h e he] using hm
  rw [eventsOf, List.filter_append, hes, List.append_nil, eventsOf]

end Events

variable {R : TaskRunners} {s s' : RelayState} {n m : Nat}

/-- The call `n` is at some stage; a later call has left no trace. -/
def Staged (R : TaskRunners) (s : RelayState) (n : Nat) : Prop :=
  match s.relays[n]? with
  | some r => ∃ t d o, R.handle t = some o ∧
      RelayStage R n t d o r (closuresOf n s.pending) (closuresOf n s.running) (eventsOf n s.log)
  | none => closuresOf n s.pending = [] ∧ closuresOf n s.running = [] ∧ eventsOf n s.log = []

/-- What the call `n` is judged by. -/
structure Same (s s' : RelayState) (n : Nat) : Prop where
  relay : s'.relays[n]? = s.relays[n]?
  pending : closuresOf n s'.pending = closuresOf n s.pending
  running : closuresOf n s'.running = closuresOf n s.running
  events : eventsOf n s'.log = eventsOf n s.log

theorem Same.staged (h : Same s s' n) (hs : Staged R s n) : Staged R s' n := by
  rw [Staged, h.relay, h.pending, h.running, h.events]
  exact hs

/-! ## The other relays -/

theorem relay_resetTask {r : PostTaskAndReplyRelay} {t : Nat} :
    ∀ e ∈ r.resetTask n t, e.relay = n := by
  unfold PostTaskAndReplyRelay.resetTask
  split <;> simp [RelayEvent.relay]

theorem relay_checkOrigin {r : PostTaskAndReplyRelay} {t : Nat} :
    ∀ e ∈ r.checkOrigin R n t, e.relay = n := by
  unfold PostTaskAndReplyRelay.checkOrigin
  split <;> simp [RelayEvent.relay]

theorem relay_destroy {r : PostTaskAndReplyRelay} {t : Nat} :
    ∀ e ∈ r.destroy R n t, e.relay = n := by
  intro e he
  rcases List.mem_append.mp he with he | he
  · exact (List.mem_append.mp he).elim (relay_checkOrigin e) (relay_resetTask e)
  · unfold PostTaskAndReplyRelay.resetReply at he
    split at he
    · rw [List.mem_singleton.mp he, RelayEvent.relay]
    · cases he

theorem relay_run {r : PostTaskAndReplyRelay} {t : Nat} : ∀ e ∈ r.run n t, e.relay = n := by
  unfold PostTaskAndReplyRelay.run
  split <;> simp [RelayEvent.relay]

theorem relay_runReply {r : PostTaskAndReplyRelay} {t : Nat} :
    ∀ e ∈ r.runReply R n t, e.relay = n := by
  intro e he
  rcases List.mem_append.mp he with he | he
  · exact (List.mem_append.mp he).elim (relay_checkOrigin e) (relay_resetTask e)
  · split at he <;> rw [List.mem_singleton.mp he, RelayEvent.relay]

/-- A step on the relay `m` that appends `es` to the log leaves the others alone. -/
theorem Same.of_ne {relays : List (Option PostTaskAndReplyRelay)}
    {pending running : List (Nat × RelayTask)} {es : List RelayEvent} (hm : m ≠ n)
    (hrelay : relays[n]? = s.relays[n]?) (hpending : closuresOf n pending = closuresOf n s.pending)
    (hrunning : closuresOf n running = closuresOf n s.running) (hes : ∀ e ∈ es, e.relay = m) :
    Same s ⟨relays, pending, running, s.log ++ es⟩ n :=
  ⟨hrelay, hpending, hrunning, eventsOf_append_ne hes hm⟩

/-! ## The relay of the step -/

theorem Staged.of_stage {r : Option PostTaskAndReplyRelay} {t d o : Nat}
    {P Q : List (Nat × RelayTask)} {E : List RelayEvent} (hr : s.relays[n]? = some r)
    (ho : R.handle t = some o) (h : RelayStage R n t d o r P Q E) (hP : closuresOf n s.pending = P)
    (hQ : closuresOf n s.running = Q) (hE : eventsOf n s.log = E) : Staged R s n := by
  rw [Staged, hr, hP, hQ, hE]
  exact ⟨t, d, o, ho, h⟩

theorem Staged.exists_stage (h : Staged R s n) {j : Nat} {x : Nat × RelayTask}
    (hx : s.pending[j]? = some x ∨ s.running[j]? = some x) (hn : x.2.relay = n) :
    ∃ r t d o, s.relays[n]? = some r ∧ R.handle t = some o ∧
      RelayStage R n t d o r (closuresOf n s.pending) (closuresOf n s.running)
        (eventsOf n s.log) := by
  unfold Staged at h
  split at h
  next r hr =>
    obtain ⟨t, d, o, ho, h⟩ := h
    exact ⟨r, t, d, o, hr, ho, h⟩
  next =>
    rcases hx with hx | hx
    · exact absurd h.1 (closuresOf_ne_nil hx hn)
    · exact absurd h.2.1 (closuresOf_ne_nil hx hn)

theorem lt_length {r : Option PostTaskAndReplyRelay} (hr : s.relays[n]? = some r) :
    n < s.relays.length :=
  (List.getElem?_eq_some_iff.mp hr).1

theorem Staged.post {t d : Nat} {accepted : Bool} (h : Staged R s n)
    (hs : s.postTaskAndReply R t d accepted = some s') : Staged R s' n := by
  obtain ⟨o, ho, rfl⟩ := Option.map_eq_some_iff.mp hs
  by_cases hn : s.relays.length = n
  · subst hn
    rw [Staged, List.getElem?_eq_none (Nat.le_refl _)] at h
    obtain ⟨hp, hq, he⟩ := h
    cases accepted with
    | true =>
      refine .of_stage (by simp) ho (.posted (d := d)) ?_ hq ?_
      · simp only [if_true, closuresOf_append, hp, List.nil_append]
        exact closuresOf_cons_self rfl
      · simp only [if_true]
        rw [eventsOf_append_self (by simp [RelayEvent.relay]), he, List.nil_append]
    | false =>
      refine .of_stage (by simp) ho (.rejected (d := d)) hp hq ?_
      have hsingle : R.runsTasksOn o t = true := (R.single ho t).mpr rfl
      rw [if_neg (by simp), eventsOf_append_self, he]
      · simp [rejectedCall, PostTaskAndReplyRelay.destroy, PostTaskAndReplyRelay.checkOrigin,
          PostTaskAndReplyRelay.resetTask, PostTaskAndReplyRelay.resetReply, hsingle]
      · intro e he
        rcases List.mem_cons.mp he with rfl | he
        · rfl
        · exact relay_destroy e he
  · have hrelay (r : Option PostTaskAndReplyRelay) : (s.relays ++ [r])[n]? = s.relays[n]? := by
      rcases Nat.lt_or_gt_of_ne hn with hlt | hlt
      · rw [List.getElem?_eq_none (by simp; omega), List.getElem?_eq_none (by omega)]
      · exact List.getElem?_append_left hlt
    refine Same.staged ?_ h
    cases accepted with
    | true =>
      refine .of_ne hn (hrelay _) ?_ rfl (by simp [RelayEvent.relay])
      rw [closuresOf_append, closuresOf_cons_ne (x := (d, .run s.relays.length)) hn]
      exact List.append_nil _
    | false =>
      refine .of_ne hn (hrelay _) rfl rfl fun e he => ?_
      rcases List.mem_cons.mp he with rfl | he
      · rfl
      · exact relay_destroy e he

theorem relay_start {t : Nat} {c : RelayTask} (hc : c.relay ≠ n) : Same s (s.start R t c) n := by
  cases c with
  | run m =>
    simp only [start, use]
    split
    · exact .of_ne hc rfl rfl rfl relay_run
    · exact .of_ne hc rfl rfl rfl (by simp [RelayEvent.relay])
  | runReplyAndSelfDestruct m =>
    simp only [start, use]
    split
    · exact .of_ne hc (List.getElem?_set_ne hc) rfl rfl relay_runReply
    · exact .of_ne hc rfl rfl rfl (by simp [RelayEvent.relay])

theorem relay_return {t : Nat} {c : RelayTask} {accepted : Bool} (hc : c.relay ≠ n) :
    Same s (s.return_ R t accepted c) n := by
  cases c with
  | run m =>
    simp only [return_, use]
    split
    next r hr =>
      cases accepted with
      | true =>
        refine .of_ne hc rfl ?_ rfl (by simp [RelayEvent.relay])
        rw [closuresOf_append,
          closuresOf_cons_ne (x := (r.originLoop, .runReplyAndSelfDestruct m)) hc]
        exact List.append_nil _
      | false => exact .of_ne hc rfl rfl rfl (by simp [RelayEvent.relay])
    · exact .of_ne hc rfl rfl rfl (by simp [RelayEvent.relay])
  | runReplyAndSelfDestruct m =>
    simp only [return_, use]
    split
    · refine .of_ne hc (List.getElem?_set_ne hc) rfl rfl fun e he => ?_
      rcases List.mem_cons.mp he with rfl | he
      · rfl
      · exact relay_destroy e he
    · exact .of_ne hc rfl rfl rfl (by simp [RelayEvent.relay])

theorem Same.trans {s'' : RelayState} (h : Same s s' n) (h' : Same s' s'' n) : Same s s'' n :=
  ⟨h'.relay.trans h.relay, h'.pending.trans h.pending, h'.running.trans h.running,
    h'.events.trans h.events⟩

theorem Staged.take {j t : Nat} (h : Staged R s n) (hs : s.take R j t = some s') :
    Staged R s' n := by
  obtain ⟨x, hx, hs⟩ := Option.bind_eq_some_iff.mp hs
  obtain ⟨ht, rfl⟩ := Machine.guard_eq_some hs
  by_cases hn : x.2.relay = n
  · obtain ⟨r, t', d, o, hr, ho, hst⟩ := h.exists_stage (.inl hx) hn
    generalize hP : closuresOf n s.pending = P at hst
    generalize hQ : closuresOf n s.running = Q at hst
    generalize hE : eventsOf n s.log = E at hst
    cases hst with
    | posted =>
      obtain ⟨rfl, hp⟩ := closuresOf_eraseIdx hx hn hP
      simp only [RelayState.start, use, hr]
      refine .of_stage hr ho (.running t ht) hp ?_ ?_
      · exact (closuresOf_cons_self rfl).trans (congrArg _ hQ)
      · rw [eventsOf_append_self relay_run, hE]
        rfl
    | replyPosted u hu =>
      obtain ⟨rfl, hp⟩ := closuresOf_eraseIdx hx hn hP
      have htt : t = t' := (R.single ho t).mp ht
      subst htt
      have hlt := lt_length hr
      simp only [RelayState.start, use, hr]
      refine .of_stage (by simp [hlt]) ho (.replying u hu) hp ?_ ?_
      · exact (closuresOf_cons_self rfl).trans (congrArg _ hQ)
      · rw [eventsOf_append_self relay_runReply, hE]
        have hsingle : R.runsTasksOn o t = true := ht
        simp [PostTaskAndReplyRelay.runReply, PostTaskAndReplyRelay.checkOrigin,
          PostTaskAndReplyRelay.resetTask, hsingle]
    | running | replying | completed | rejected | leaked =>
      exact absurd hP (closuresOf_ne_nil hx hn)
  · have hsame : Same s ⟨s.relays, s.pending.eraseIdx j, (t, x.2) :: s.running, s.log⟩ n :=
      ⟨rfl, closuresOf_eraseIdx_ne hx hn, closuresOf_cons_ne hn, rfl⟩
    exact (hsame.trans (relay_start hn)).staged h

theorem Staged.finish {k : Nat} {accepted : Bool} (h : Staged R s n)
    (hs : s.finish R k accepted = some s') : Staged R s' n := by
  obtain ⟨x, hx, hs⟩ := Option.bind_eq_some_iff.mp hs
  obtain ⟨-, rfl⟩ := Machine.guard_eq_some hs
  by_cases hn : x.2.relay = n
  · obtain ⟨r, t', d, o, hr, ho, hst⟩ := h.exists_stage (.inr hx) hn
    generalize hP : closuresOf n s.pending = P at hst
    generalize hQ : closuresOf n s.running = Q at hst
    generalize hE : eventsOf n s.log = E at hst
    cases hst with
    | running u hu =>
      obtain ⟨rfl, hq⟩ := closuresOf_eraseIdx hx hn hQ
      simp only [return_, use, hr]
      cases accepted with
      | true =>
        refine .of_stage hr ho (.replyPosted u hu) ?_ hq ?_
        · simp only [if_true]
          rw [closuresOf_append, hP, List.nil_append]
          exact closuresOf_cons_self rfl
        · simp only [if_true]
          rw [eventsOf_append_self (by simp [RelayEvent.relay]), hE]
          rfl
      | false =>
        refine .of_stage hr ho (.leaked (d := d) u _ (fun _ => hu) ?_) hP hq rfl
        rw [if_neg (by simp), eventsOf_append_self (by simp [RelayEvent.relay]), hE]
        simp [leaks]
    | replying u hu =>
      obtain ⟨rfl, hq⟩ := closuresOf_eraseIdx hx hn hQ
      have hlt := lt_length hr
      simp only [return_, use, hr]
      refine .of_stage (by simp [hlt]) ho (.completed u hu) hP hq ?_
      have hsingle : R.runsTasksOn o t' = true := (R.single ho t').mpr rfl
      rw [eventsOf_append_self, hE]
      · simp [completedCall, PostTaskAndReplyRelay.destroy, PostTaskAndReplyRelay.checkOrigin,
          PostTaskAndReplyRelay.resetTask, PostTaskAndReplyRelay.resetReply, hsingle]
      · intro e he
        rcases List.mem_cons.mp he with rfl | he
        · rfl
        · exact relay_destroy e he
    | posted | replyPosted | completed | rejected | leaked =>
      exact absurd hQ (closuresOf_ne_nil hx hn)
  · have hsame : Same s ⟨s.relays, s.pending, s.running.eraseIdx k, s.log⟩ n :=
      ⟨rfl, rfl, closuresOf_eraseIdx_ne hx hn, rfl⟩
    exact (hsame.trans (relay_return hn)).staged h

theorem Staged.drop {j : Nat} (h : Staged R s n) (hs : s.drop j = some s') : Staged R s' n := by
  obtain ⟨x, hx, rfl⟩ := Option.map_eq_some_iff.mp hs
  by_cases hn : x.2.relay = n
  · obtain ⟨r, t', d, o, hr, ho, hst⟩ := h.exists_stage (.inl hx) hn
    generalize hP : closuresOf n s.pending = P at hst
    generalize hQ : closuresOf n s.running = Q at hst
    generalize hE : eventsOf n s.log = E at hst
    have hE' : eventsOf n (s.log ++ [.dropped x.2.relay]) = E ++ [.dropped n] := by
      rw [hn, eventsOf_append_self (by simp [RelayEvent.relay]), hE]
    cases hst with
    | posted =>
      refine .of_stage hr ho (.leaked (d := d) 0 _ ?_ ?_) (closuresOf_eraseIdx hx hn hP).2 hQ hE'
      · simp
      · simp [leaks]
    | replyPosted u hu =>
      refine .of_stage hr ho (.leaked (d := d) u _ (fun _ => hu) ?_)
        (closuresOf_eraseIdx hx hn hP).2 hQ hE'
      simp [leaks]
    | running | replying | completed | rejected | leaked =>
      exact absurd hP (closuresOf_ne_nil hx hn)
  · exact Same.staged (.of_ne hn rfl (closuresOf_eraseIdx_ne hx hn) rfl
      (by simp [RelayEvent.relay])) h

/-! ## Which relays exist -/

/-- The origin loops of the relays; `none` is a deleted relay. -/
def origins (s : RelayState) : List (Option Nat) :=
  s.relays.map fun r => r.map PostTaskAndReplyRelay.originLoop

theorem origins_post {t d : Nat} {accepted : Bool}
    (hs : s.postTaskAndReply R t d accepted = some s') :
    (R.handle t).isSome = true ∧
      s'.origins = s.origins ++ [if accepted then R.handle t else none] := by
  obtain ⟨o, ho, rfl⟩ := Option.map_eq_some_iff.mp hs
  cases accepted <;> simp [origins, ho]

theorem origins_start {t : Nat} {c : RelayTask} : (s.start R t c).origins = s.origins := by
  cases c with
  | run m =>
    simp only [RelayState.start, use]
    split <;> rfl
  | runReplyAndSelfDestruct m =>
    simp only [RelayState.start, use]
    split
    next r hr =>
      have hm : s.origins[m]? = some (some r.originLoop) := by simp [origins, hr]
      simp only [origins, List.map_set]
      obtain ⟨hlt, heq⟩ := List.getElem?_eq_some_iff.mp hm
      change s.origins.set m (some r.originLoop) = s.origins
      rw [← heq, List.set_getElem_self]
    · rfl

theorem origins_take {j t : Nat} (hs : s.take R j t = some s') : s'.origins = s.origins := by
  obtain ⟨x, -, hs⟩ := Option.bind_eq_some_iff.mp hs
  obtain ⟨-, rfl⟩ := Machine.guard_eq_some hs
  exact origins_start

theorem origins_drop {j : Nat} (hs : s.drop j = some s') : s'.origins = s.origins := by
  obtain ⟨x, -, rfl⟩ := Option.map_eq_some_iff.mp hs
  rfl

theorem origins_finish_run {k m : Nat} {x : Nat × RelayTask} {accepted : Bool}
    (hx : s.running[k]? = some x) (hm : x.2 = .run m) (hs : s.finish R k accepted = some s') :
    s'.origins = s.origins := by
  obtain ⟨y, hy, hs⟩ := Option.bind_eq_some_iff.mp hs
  obtain ⟨-, rfl⟩ := Machine.guard_eq_some hs
  obtain rfl := Option.some.inj (hx.symm.trans hy)
  rw [hm]
  simp only [return_, use]
  split
  · cases accepted <;> rfl
  · rfl

theorem origins_finish_reply {k m : Nat} {x : Nat × RelayTask} {accepted : Bool} {o : Nat}
    (hx : s.running[k]? = some x) (hm : x.2 = .runReplyAndSelfDestruct m)
    (ho : s.origins[m]? = some (some o)) (hs : s.finish R k accepted = some s') :
    s'.origins = s.origins.set m none := by
  obtain ⟨y, hy, hs⟩ := Option.bind_eq_some_iff.mp hs
  obtain ⟨-, rfl⟩ := Machine.guard_eq_some hs
  obtain rfl := Option.some.inj (hx.symm.trans hy)
  rw [origins, List.getElem?_map, Option.map_eq_some_iff] at ho
  obtain ⟨r, hr, ho⟩ := ho
  obtain ⟨r, rfl, -⟩ := Option.map_eq_some_iff.mp ho
  rw [hm]
  simp only [return_, use, hr]
  rw [origins, List.map_set]
  rfl

theorem Staged.origin_pending {j : Nat} {x : Nat × RelayTask} (h : Staged R s n)
    (hx : s.pending[j]? = some x) (hn : x.2.relay = n) : ∃ o, s.origins[n]? = some (some o) := by
  obtain ⟨r, t, d, o, hr, -, hst⟩ := h.exists_stage (.inl hx) hn
  obtain ⟨r', rfl, -⟩ := hst.exists_of_pending (closuresOf_ne_nil hx hn)
  exact ⟨r'.originLoop, by simp [origins, hr]⟩

/-- The reply of a relay that exists runs on the thread of its origin loop. -/
theorem Staged.origin_running {k : Nat} {x : Nat × RelayTask} (h : Staged R s n)
    (hx : s.running[k]? = some x) (hn : x.2 = .runReplyAndSelfDestruct n) :
    ∃ o, s.origins[n]? = some (some o) ∧ R.handle x.1 = some o := by
  have hn' : x.2.relay = n := by rw [hn, RelayTask.relay_runReplyAndSelfDestruct]
  obtain ⟨r, t, d, o, hr, ho, hst⟩ := h.exists_stage (.inr hx) hn'
  have hmem : x ∈ closuresOf n s.running :=
    List.mem_filter.mpr ⟨List.mem_of_getElem? hx, by simpa using hn'⟩
  obtain ⟨hx1, r', rfl, rfl⟩ := hst.exists_of_reply hmem hn
  exact ⟨r'.originLoop, by simp [origins, hr], hx1 ▸ ho⟩

theorem Staged.step {a : RelayAction} (h : Staged R s n) (hs : s.step R a = some s') :
    Staged R s' n := by
  cases a with
  | postTaskAndReply t d accepted => exact h.post hs
  | take j t => exact h.take hs
  | finish k accepted => exact h.finish hs
  | drop j => exact h.drop hs

theorem staged (hs : (relayMachine R).Reachable s) (n : Nat) : Staged R s n := by
  refine hs.invariant (I := fun s => Staged R s n) (fun s hi => ?_) fun s a s' h _ hst =>
    h.step hst
  cases hi
  exact ⟨rfl, rfl, rfl⟩

end RelayState

open RelayState

/-! ## The histories -/

theorem RelayStage.history {R : TaskRunners} {n t d o : Nat} {r : Option PostTaskAndReplyRelay}
    {P Q : List (Nat × RelayTask)} {E : List RelayEvent} (h : RelayStage R n t d o r P Q E) : ∃ u,
    (RelayEvent.taskRun n u ∈ E → R.runsTasksOn d u = true) ∧
      (∃ rest, IsOver n t d u (E ++ rest)) ∧ (P = [] → Q = [] → IsOver n t d u E) ∧
      (r = none ↔ E = completedCall n t d u ∨ E = rejectedCall n t d) := by
  cases h with
  | posted =>
    exact ⟨0, by simp, ⟨[.dropped n], .inr (.inr (by simp [leaks]))⟩, by simp, by
      simp [completedCall, rejectedCall]⟩
  | running u hu =>
    exact ⟨u, fun _ => hu, ⟨_, .inl rfl⟩, by simp, by simp [completedCall, rejectedCall]⟩
  | replyPosted u hu =>
    exact ⟨u, fun _ => hu, ⟨_, .inl rfl⟩, by simp, by simp [completedCall, rejectedCall]⟩
  | replying u hu =>
    exact ⟨u, fun _ => hu, ⟨_, .inl rfl⟩, by simp, by simp [completedCall, rejectedCall]⟩
  | completed u hu =>
    exact ⟨u, fun _ => hu, ⟨[], .inl (List.append_nil _)⟩, fun _ _ => .inl rfl, by simp⟩
  | rejected =>
    exact ⟨0, by simp [rejectedCall], ⟨[], .inr (.inl (List.append_nil _))⟩,
      fun _ _ => .inr (.inl rfl), by simp⟩
  | leaked u _ hu hE =>
    refine ⟨u, hu, ⟨[], ?_⟩, fun _ _ => .inr (.inr hE), ?_⟩
    · rw [List.append_nil]
      exact .inr (.inr hE)
    · simp only [leaks, List.mem_cons, List.not_mem_nil, or_false] at hE
      rcases hE with rfl | rfl | rfl <;> simp [completedCall, rejectedCall]

theorem IsOver.no_fault {n t d u m x : Nat} {es : List RelayEvent} (h : IsOver n t d u es) :
    RelayEvent.fault m x ∉ es := by
  rcases h with rfl | rfl | h
  · simp [completedCall]
  · simp [rejectedCall]
  · simp only [leaks, List.mem_cons, List.not_mem_nil, or_false] at h
    rcases h with rfl | rfl | rfl <;> simp

variable {R : TaskRunners} {s : RelayState}

theorem no_fault (hs : (relayMachine R).Reachable s) (n t : Nat) :
    RelayEvent.fault n t ∉ s.log := by
  intro hmem
  have he : RelayEvent.fault n t ∈ eventsOf n s.log :=
    List.mem_filter.mpr ⟨hmem, by simp [RelayEvent.relay]⟩
  have h := RelayState.staged hs n
  unfold RelayState.Staged at h
  split at h
  · obtain ⟨t, d, o, -, h⟩ := h
    obtain ⟨u, -, ⟨rest, h⟩, -⟩ := h.history
    exact h.no_fault (List.mem_append_left rest he)
  · rw [h.2.2] at he
    cases he

/-- **A task and its reply**: whatever the runners do, in whatever order, the task of a call runs at
most once, on a thread of its runner, then its arguments are released, then the reply runs and is
released, all that on the thread of the caller; nothing is run or released twice or on another
thread, and no deleted relay is used. When nothing is pending or running, every call is over, and
the relay is deleted unless a runner has deleted a closure of it or the origin loop has refused the
reply. -/
theorem relays_complete (hs : (relayMachine R).Reachable s) :
    (∀ n t, RelayEvent.fault n t ∉ s.log) ∧ ∀ n < s.relays.length, ∃ t d u,
      (R.handle t).isSome = true ∧ (RelayEvent.taskRun n u ∈ s.log → R.runsTasksOn d u = true) ∧
        (∃ rest, IsOver n t d u (eventsOf n s.log ++ rest)) ∧
        (s.pending = [] → s.running = [] → IsOver n t d u (eventsOf n s.log)) ∧
        (s.relays[n]? = some none ↔
          eventsOf n s.log = completedCall n t d u ∨ eventsOf n s.log = rejectedCall n t d) := by
  refine ⟨no_fault hs, fun n hn => ?_⟩
  have h := RelayState.staged hs n
  rw [RelayState.Staged, List.getElem?_eq_getElem hn] at h
  obtain ⟨t, d, o, ho, h⟩ := h
  obtain ⟨u, hu, hrest, hover, hnone⟩ := h.history
  refine ⟨t, d, u, by rw [ho]; rfl, fun hmem => hu ?_, hrest, fun hp hq => hover ?_ ?_, ?_⟩
  · exact List.mem_filter.mpr ⟨hmem, by simp [RelayEvent.relay]⟩
  · rw [hp]
    rfl
  · rw [hq]
    rfl
  · rw [List.getElem?_eq_getElem hn, Option.some_inj, hnone]

/-- Two calls, of which one is over and the other has its task run. -/
theorem relays_complete_two : ∃ s, (relayMachine messageLoops).Reachable s ∧
    eventsOf 0 s.log = completedCall 0 0 1 1 ∧ eventsOf 1 s.log = [.posted 1 0 1, .taskRun 1 1] ∧
      (∀ n t, RelayEvent.fault n t ∉ s.log) ∧ ∀ n < s.relays.length, ∃ t d u,
        (messageLoops.handle t).isSome = true ∧
          (RelayEvent.taskRun n u ∈ s.log → messageLoops.runsTasksOn d u = true) ∧
          (∃ rest, IsOver n t d u (eventsOf n s.log ++ rest)) ∧
          (s.pending = [] → s.running = [] → IsOver n t d u (eventsOf n s.log)) ∧
          (s.relays[n]? = some none ↔
            eventsOf n s.log = completedCall n t d u ∨ eventsOf n s.log = rejectedCall n t d) := by
  obtain ⟨s, hr, hp⟩ := Machine.exists_reachable (M := relayMachine messageLoops) rfl
    [.postTaskAndReply 0 1 true, .postTaskAndReply 0 1 true, .take 0 1, .finish 0 true, .take 0 1,
      .take 0 0, .finish 0 true]
    (p := fun s => decide (eventsOf 0 s.log = completedCall 0 0 1 1 ∧
      eventsOf 1 s.log = [.posted 1 0 1, .taskRun 1 1]))
    (by decide)
  obtain ⟨h0, h1⟩ := of_decide_eq_true hp
  exact ⟨s, hr, h0, h1, relays_complete hr⟩

end Mdgate.Base
