import Mdgate.Content.ThreadDelegate

/-!
# A delegate brackets its thread

`Guarded` is the invariant of the runs whose steps are all `Undisturbed`, and
`brackets` reads the contract off it. Every other step lets the contract be broken:
`disturbed_breaks`.
-/

namespace Mdgate.Content.BrowserThreadDelegate

open Mdgate.Lib Mdgate.Base

/-! ## The delegate that is left in place -/

/-- `Run` was called after `Init` of `d`: `InitAsync` will be the first task, or was it. -/
def Opened (d : Delegate) (log : List Event) (m : MessagePumpDefault) : Prop :=
  (log = [.init d] ∧ initAsyncs m = 1 ∧ ∃ p, p.task = initAsync ∧ m.First p) ∨
  (initAsyncs m = 0 ∧ ∃ tasks : List Nat, log = .init d :: .initAsync d :: tasks.map .task)

namespace Opened

variable {d : Delegate} {log : List Event} {m m' : MessagePumpDefault}

theorem post (h : Opened d log m) {task : Nat} (htask : task ≠ initAsync) (now delay : Int)
    (nestable : Bool) : Opened d log (m.post now task delay nestable) := by
  obtain ⟨p, ps, hp, -, hps, -, hperm⟩ := m.post_spec now task delay nestable
  have hcount : initAsyncs (m.post now task delay nestable) = initAsyncs m := by
    unfold initAsyncs
    rw [hperm.countP_eq, List.countP_append, Nat.add_eq_right, List.countP_eq_zero]
    intro q hq
    rw [hps] at hq
    split at hq
    · simpa [List.mem_singleton.mp hq, hp] using htask
    · cases hq
  rcases h with ⟨hlog, hone, p, hp, hfirst⟩ | ⟨hzero, hlog⟩
  · exact .inl ⟨hlog, hcount.trans hone, p, hp, hfirst.post now task delay nestable⟩
  · exact .inr ⟨hcount.trans hzero, hlog⟩

theorem inTask (h : Opened d log m) (htask : m.task? ≠ none)
    (hqueued : m'.loop.queued = m.loop.queued) : Opened d log m' := by
  rcases h with ⟨-, -, p, -, hfirst⟩ | ⟨hzero, hlog⟩
  · exact absurd hfirst.task? htask
  · refine .inr ⟨?_, hlog⟩
    unfold initAsyncs at hzero ⊢
    rwa [hqueued]

theorem step_none (h : Opened d log m) {now : Int} (hs : m.step now = some (m', none)) :
    Opened d log m' := by
  have hcount : initAsyncs m = initAsyncs m' := (MessagePumpDefault.step_perm hs).countP_eq _
  rcases h with ⟨hlog, hone, p, hp, hfirst⟩ | ⟨hzero, hlog⟩
  · rcases hfirst.step hs with ⟨-, hfirst⟩ | ht
    · exact .inl ⟨hlog, hcount ▸ hone, p, hp, hfirst⟩
    · cases ht
  · exact .inr ⟨hcount ▸ hzero, hlog⟩

/-- The first task is `InitAsync`, and no later one is. -/
theorem step_some {s : State} (h : Opened d s.log s.pump) (hd : s.delegate = some d) {now : Int}
    {p : PendingTask} (hs : s.pump.step now = some (m', some p)) :
    Opened d (s.log ++ [s.ran p.task]) m' := by
  have hcount : initAsyncs s.pump = [p].countP (·.task = initAsync) + initAsyncs m' := by
    unfold initAsyncs
    rw [(MessagePumpDefault.step_perm hs).countP_eq, List.countP_append, Option.toList_some]
  rw [List.countP_singleton] at hcount
  rcases h with ⟨hlog, hone, p', hp, hfirst⟩ | ⟨hzero, tasks, hlog⟩
  · rcases hfirst.step hs with ⟨ht, -⟩ | ht
    · cases ht
    · obtain rfl : p = p' := Option.some.inj ht
      refine .inr ⟨by simp [hp] at hcount; omega, [], ?_⟩
      simp [hlog, State.ran, hd, hp]
  · have hp : p.task ≠ initAsync := by
      intro hp
      simp [hp] at hcount
      omega
    refine .inr ⟨by omega, tasks ++ [p.task], ?_⟩
    simp [hlog, State.ran, hd, hp]

end Opened

/-- What the guarded runs have made of the thread of `d`. -/
def Stage (d : Delegate) (s : State) : Prop :=
  match s.pc with
  | .absent | .entered => True
  | .published | .init | .initCalled =>
    ∀ q ∈ s.pump.loop.incomingTaskQueue.incomingQueue, q.delayedRunTime ≠ 0
  | .run => Opened d s.log s.pump
  | .cleanUp _ => ∃ tasks : List Nat, s.log = .init d :: .initAsync d :: tasks.map .task
  | .cleanedUp | .returned => ∃ tasks, s.log = bracket d tasks

/-- `CleanUp` is called for no delegate but the one that `Init` read. -/
def Closed (s : State) : Prop :=
  match s.pc with
  | .cleanUp e => e = none ∨ e = s.delegate
  | .cleanedUp | .returned =>
    ∃ tasks cleanUp, (∀ e ∈ tasks, e.ofTask) ∧ s.log = events s.delegate tasks cleanUp ∧
      (cleanUp = none ∨ cleanUp = s.delegate)
  | _ => True

/-- The invariant of the runs whose steps are all `Undisturbed`. -/
structure Guarded (s : State) : Prop where
  stage : ∀ d, s.kept = some d → Stage d s
  closed : Closed s

namespace Guarded

variable {s s' : State}

theorem start (now : Int) : Guarded (.start now) := by
  refine ⟨?_, trivial⟩
  intro d hd
  cases hd

/-- A step that changes the pump, the clock and the owner's flags only. -/
theorem quiet (h : Guarded s) {m : MessagePumpDefault} {now : Int} {fresh : Nat}
    {starting started stopping : Bool}
    (hinit : s.pc.inInit = true → s.kept ≠ none → ∀ q ∈ m.loop.incomingTaskQueue.incomingQueue,
      q ∉ s.pump.loop.incomingTaskQueue.incomingQueue → q.delayedRunTime ≠ 0)
    (hrun : s.pc = .run → ∀ d, s.kept = some d → Opened d s.log s.pump → Opened d s.log m) :
    Guarded { s with starting, started, stopping, pump := m, now, fresh } := by
  refine ⟨?_, h.closed⟩
  intro d hd
  have hstage := h.stage d hd
  unfold Stage at hstage ⊢
  cases hpc : s.pc <;> rw [hpc] at hstage
  case absent | entered | cleanUp | cleanedUp | returned => exact hstage
  case run => exact hrun hpc d hd hstage
  all_goals
    intro q hq
    by_cases hold : q ∈ s.pump.loop.incomingTaskQueue.incomingQueue
    · exact hstage q hold
    · refine hinit ?_ ?_ q hq hold
      · rw [hpc]; rfl
      · rw [show s.kept = some d from hd]
        exact Option.some_ne_none d

theorem setDelegate (h : Guarded s) (d : Option Delegate) : Guarded (s.setDelegate d) := by
  refine ⟨?_, h.closed⟩
  intro d' hd'
  cases hr : s.pc.readsSlot with
  | true => simp [State.setDelegate, hr] at hd'
  | false => exact h.stage d' (by simpa [State.setDelegate, hr] using hd')

theorem threadMain (h : Guarded s) (hsound : Sound s) (hok : Undisturbed s .threadMain)
    (hs : s.threadMain = some s') : Guarded s' := by
  have hkept := hsound.kept
  have hlog := hsound.log
  have hstage := h.stage
  have hclosed := h.closed
  unfold Stage at hstage
  unfold Closed at hclosed
  cases hpc : s.pc with
  | absent | returned => simp [State.threadMain, hpc] at hs
  | entered =>
    simp only [State.threadMain, hpc, Option.some.injEq] at hs
    subst hs
    exact ⟨fun d hd q hq => (by cases hq), trivial⟩
  | published =>
    rw [hpc] at hkept hlog hstage hclosed
    simp only [State.threadMain, hpc, Option.some.injEq] at hs
    subst hs
    exact ⟨hstage, trivial⟩
  | init =>
    rw [hpc] at hkept hlog hstage hclosed
    cases hd : s.delegate with
    | none =>
      simp only [State.threadMain, hpc, hd, Option.some.injEq] at hs
      subst hs
      refine ⟨?_, trivial⟩
      intro d hd'
      have hread := (hkept d hd').2
      rw [hd] at hread
      cases hread
    | some d =>
      simp only [State.threadMain, hpc, hd, Option.some.injEq] at hs
      subst hs
      exact ⟨hstage, trivial⟩
  | initCalled =>
    rw [hpc] at hkept hlog hstage hclosed
    simp only [State.threadMain, hpc, Option.some.injEq] at hs
    subst hs
    refine ⟨?_, trivial⟩
    intro d hd
    obtain ⟨d', hd', hlog⟩ := hlog
    have hread := (hkept d hd).2
    rw [hd'] at hread
    cases hread
    have hbefore := hsound.beforeRun (by rw [hpc]; rfl)
    exact .inl ⟨hlog, hbefore.post_initAsync (hstage d hd) s.now⟩
  | run =>
    rw [hpc] at hkept hlog hstage hclosed
    simp only [State.threadMain, hpc] at hs
    obtain ⟨hruns, rfl⟩ := Machine.guard_eq_some hs
    refine ⟨?_, hok hpc⟩
    intro d hd
    rcases hstage d hd with ⟨-, -, p, -, hfirst⟩ | ⟨-, htasks⟩
    · exact absurd (List.isEmpty_iff.mp hruns) hfirst.runs_ne_nil
    · exact htasks
  | cleanUp e =>
    rw [hpc] at hkept hlog hstage hclosed
    obtain ⟨tasks, htasks, hlog⟩ := hlog
    cases e with
    | none =>
      simp only [State.threadMain, hpc, Option.some.injEq] at hs
      subst hs
      refine ⟨?_, tasks, none, htasks, hlog, .inl rfl⟩
      intro d hd
      cases (hkept d hd).1
    | some e =>
      simp only [State.threadMain, hpc, Option.some.injEq] at hs
      subst hs
      refine ⟨?_, tasks, some e, htasks, ?_, hclosed⟩
      · intro d hd
        obtain ⟨ran, hran⟩ := hstage d hd
        obtain rfl : e = d := Option.some.inj (hkept d hd).1
        exact ⟨ran, by simp [hran, bracket]⟩
      · simp [hlog, events]
  | cleanedUp =>
    rw [hpc] at hkept hlog hstage hclosed
    simp only [State.threadMain, hpc, Option.some.injEq] at hs
    subst hs
    exact ⟨hstage, hclosed⟩

theorem pump (h : Guarded s) (hsound : Sound s) (hpc : s.pc = .run) (hs : s.runPump = some s') :
    Guarded s' := by
  obtain ⟨⟨m, t⟩, hm, rfl⟩ := Option.map_eq_some_iff.mp hs
  cases t with
  | none =>
    refine h.quiet (fun hinit => ?_) fun _ d _ hopened => hopened.step_none hm
    simp [hpc, Pc.inInit] at hinit
  | some p =>
    refine ⟨?_, ?_⟩
    · intro d hd
      have hstage := h.stage d hd
      have hkept := hsound.kept d hd
      simp only [Stage, InPlace, hpc] at hstage hkept
      simp only [Stage, State.emit, State.setPump, hpc]
      exact hstage.step_some hkept.2 hm
    · simp [Closed, hpc]

theorem postTaskHelper (h : Guarded s) {task : Nat} (htask : task ≠ initAsync) {delay : Int}
    (hok : s.pc.inInit = true → s.kept ≠ none →
      IncomingTaskQueue.calculateDelayedRuntime s.now delay ≠ 0) (nestable : Bool) {fresh : Nat} :
    Guarded { s.postTaskHelper task delay nestable with fresh } := by
  unfold State.postTaskHelper
  split
  · obtain ⟨p, ps, -, htime, hps, hq, -⟩ := s.pump.post_spec s.now task delay nestable
    refine h.quiet ?_ fun _ d _ hopened => hopened.post htask _ _ _
    intro hinit hkept q hmem hnew
    simp only [State.setPump, hq] at hmem
    have hp := (List.mem_append.mp hmem).resolve_left hnew
    rw [hps] at hp
    split at hp
    · rw [List.mem_singleton.mp hp, htime]
      exact hok hinit hkept
    · cases hp
  · exact h.quiet (fun _ _ q hq hnew => absurd hq hnew) fun _ _ _ hopened => hopened

theorem inTask (h : Guarded s) (hpc : s.pc = .run) (htask : s.pump.task? ≠ none)
    {m : MessagePumpDefault} (hqueued : m.loop.queued = s.pump.loop.queued) :
    Guarded (s.setPump m) := by
  refine h.quiet (fun hinit => ?_) fun _ d _ hopened => hopened.inTask htask hqueued
  simp [hpc, Pc.inInit] at hinit

theorem step {a : Action} (h : Guarded s) (hsound : Sound s) (hok : Undisturbed s a)
    (hs : BrowserThreadDelegate.step s a = some s') : Guarded s' := by
  cases a with
  | setDelegate d =>
    cases hs
    exact h.setDelegate d
  | create =>
    obtain ⟨-, rfl⟩ := Machine.guard_eq_some hs
    exact ⟨fun _ _ => trivial, trivial⟩
  | startReturns =>
    obtain ⟨-, rfl⟩ := Machine.guard_eq_some hs
    exact ⟨h.stage, h.closed⟩
  | threadMain => exact h.threadMain hsound hok hs
  | pump =>
    obtain ⟨hpc, hs⟩ := Option.ite_none_right_eq_some.mp hs
    exact h.pump hsound hpc hs
  | code c =>
    obtain ⟨⟨hpc, htask⟩, rfl⟩ := Machine.guard_eq_some hs
    apply h.inTask hpc (Option.isSome_iff_ne_none.mp htask)
    cases c <;> rfl
  | taskReturns =>
    obtain ⟨hpc, hs⟩ := Option.ite_none_right_eq_some.mp hs
    obtain ⟨m, hm, rfl⟩ := Option.map_eq_some_iff.mp hs
    have hqueued := MessagePumpDefault.taskReturns_queued hm
    refine h.inTask hpc ?_ ?_
    · intro htask
      rw [if_neg (by simp [htask]), MessagePumpDefault.taskReturns_eq_none htask] at hm
      cases hm
    · rw [hqueued]
      split <;> rfl
  | post delay nestable =>
    cases hs
    exact h.postTaskHelper (Nat.ne_of_gt hsound.fresh) hok nestable
  | stopSoon =>
    obtain ⟨hstarted, rfl⟩ := Machine.guard_eq_some hs
    have hsignalled := hsound.started hstarted
    unfold State.stopSoon
    split
    · exact h
    · refine h.quiet (fun hinit => ?_) fun _ d _ hopened => hopened.post (by decide) _ _ _
      cases hpc : s.pc <;> simp [hpc, Pc.inInit, Pc.signalled] at hinit hsignalled
  | join =>
    obtain ⟨-, rfl⟩ := Machine.guard_eq_some hs
    exact ⟨h.stage, h.closed⟩
  | tick dt =>
    cases hs
    exact ⟨h.stage, h.closed⟩

end Guarded

theorem guarded_reach {s : State} (hr : machine.Reach Undisturbed s) : Guarded s :=
  hr.invariant_of (fun _ => sound_reach) (fun _ ⟨now, hnow⟩ => hnow ▸ Guarded.start now)
    fun _ _ _ hsound h hok hs => h.step hsound hok hs

/-! ## The contract, in every such run -/

variable {s : State}

theorem mem_events {delegate cleanUp : Option Delegate} {tasks : List Event} {e : Event} :
    e ∈ events delegate tasks cleanUp ↔
      (∃ d, delegate = some d ∧ e = .init d) ∨ e ∈ tasks ∨
        ∃ d, cleanUp = some d ∧ e = .cleanUp d := by
  cases delegate <;> cases cleanUp <;> simp [events]

theorem cleanUp_notMem_events {delegate : Option Delegate} {tasks : List Event}
    (htasks : ∀ e ∈ tasks, e.ofTask) (d : Delegate) : .cleanUp d ∉ events delegate tasks none := by
  rw [mem_events]
  rintro (⟨d', -, he⟩ | he | ⟨d', he, -⟩)
  · cases he
  · exact htasks _ he
  · cases he

/-- No `CleanUp` is called before `CleanUp` has read the slot. -/
theorem Logged.cleanUp_notMem {delegate : Option Delegate} {log : List Event} {pc : Pc}
    (h : Logged delegate log pc) (hpc : pc ≠ .cleanedUp) (hpc' : pc ≠ .returned) (d : Delegate) :
    .cleanUp d ∉ log := by
  cases pc with
  | absent | entered | published | init =>
    rw [show log = [] from h]
    exact List.not_mem_nil
  | initCalled =>
    obtain ⟨d', -, rfl⟩ := h
    simp
  | run | cleanUp =>
    obtain ⟨tasks, htasks, rfl⟩ := h
    exact cleanUp_notMem_events htasks d
  | cleanedUp => exact absurd rfl hpc
  | returned => exact absurd rfl hpc'

/-- Where the delegate that gets `CleanUp` is the one that got `Init`, `Init` came first. -/
theorem init_mem_of_events {c d : Delegate} {tasks l l' : List Event}
    (htasks : ∀ e ∈ tasks, e.ofTask)
    (h : events (some c) tasks (some c) = l ++ .cleanUp d :: l') : .init d ∈ l := by
  have hmem : .cleanUp d ∈ events (some c) tasks (some c) := by simp [h]
  obtain rfl : c = d := by
    rcases mem_events.mp hmem with ⟨_, -, he⟩ | he | ⟨c', hc, he⟩
    · cases he
    · exact absurd he (htasks _)
    · cases hc
      cases he
      rfl
  cases l with
  | nil => cases h
  | cons e l =>
    obtain ⟨rfl, -⟩ := List.cons.inj h
    exact List.mem_cons_self

namespace Guarded

theorem kept_bracketed (h : Guarded s) (hsound : Sound s) {d : Delegate} (hd : s.kept = some d) :
    ∃ tasks, s.log <+: bracket d tasks ∧ (s.pc = .returned → s.log = bracket d tasks) := by
  have hstage := h.stage d hd
  have hkept := hsound.kept d hd
  have hlog := hsound.log
  unfold Stage at hstage
  cases hpc : s.pc <;> rw [hpc] at hstage hkept hlog
  case absent => exact hkept.elim
  case entered | published | init =>
    rw [show s.log = [] from hlog]
    exact ⟨[], List.nil_prefix, nofun⟩
  case initCalled =>
    obtain ⟨d', hd', hlog⟩ := hlog
    have hread := hkept.2
    rw [hd'] at hread
    cases hread
    exact ⟨[], hlog ▸ ⟨_, rfl⟩, nofun⟩
  case run =>
    rcases hstage with ⟨hopen, -⟩ | ⟨-, tasks, htasks⟩
    · exact ⟨[], hopen ▸ ⟨_, rfl⟩, nofun⟩
    · exact ⟨tasks, htasks ▸ ⟨[.cleanUp d], rfl⟩, nofun⟩
  case cleanUp =>
    obtain ⟨tasks, htasks⟩ := hstage
    exact ⟨tasks, htasks ▸ ⟨[.cleanUp d], rfl⟩, nofun⟩
  case cleanedUp | returned =>
    obtain ⟨tasks, htasks⟩ := hstage
    exact ⟨tasks, htasks ▸ List.prefix_rfl, fun _ => htasks⟩

theorem init_before_cleanUp (h : Guarded s) (hsound : Sound s) {d : Delegate}
    {l l' : List Event} (hlog : s.log = l ++ .cleanUp d :: l') : .init d ∈ l := by
  have hmem : .cleanUp d ∈ s.log := by simp [hlog]
  have hclosed := h.closed
  unfold Closed at hclosed
  by_cases hpc : s.pc = .cleanedUp ∨ s.pc = .returned
  · obtain ⟨tasks, cleanUp, htasks, hevents, hsame⟩ : ∃ tasks cleanUp, (∀ e ∈ tasks, e.ofTask) ∧
        s.log = events s.delegate tasks cleanUp ∧ (cleanUp = none ∨ cleanUp = s.delegate) := by
      rcases hpc with hpc | hpc <;> simpa only [hpc] using hclosed
    cases cleanUp with
    | none => exact absurd (hevents ▸ hmem) (cleanUp_notMem_events htasks d)
    | some c =>
      have hread : s.delegate = some c := (hsame.resolve_left nofun).symm
      rw [hread] at hevents
      exact init_mem_of_events htasks (hevents.symm.trans hlog)
  · rw [not_or] at hpc
    exact absurd hmem (hsound.log.cleanUp_notMem hpc.1 hpc.2 d)

end Guarded

/-- **A delegate brackets its thread**: in every run whose steps are all `Undisturbed`, a delegate
that is registered before the start and left in place gets `Init` before any task, `InitAsync` as
the first task and `CleanUp` after the last, each once, and no delegate gets `CleanUp` without
`Init`. -/
theorem brackets (hr : machine.Reach Undisturbed s) : Brackets s where
  kept _ hd := (guarded_reach hr).kept_bracketed (sound_reach hr) hd
  cleanUp _ _ _ hlog := (guarded_reach hr).init_before_cleanUp (sound_reach hr) hlog

/-- A delayed task is posted while `Init` is running, and the thread is stopped later. -/
theorem brackets_stopped : ∃ s, machine.Reach Undisturbed s ∧ s.pc = .returned ∧
    s.log = bracket 7 [3, 2, 0] ∧ Brackets s := by
  let life : List Action :=
    [.setDelegate (some 7), .create, .threadMain, .post 5 true, .threadMain, .threadMain,
      .threadMain, .startReturns, .post 0 false, .pump, .pump, .pump, .taskReturns, .pump, .pump,
      .pump, .taskReturns, .tick 10, .pump, .taskReturns, .stopSoon, .pump, .pump, .taskReturns,
      .pump, .pump, .pump, .pump, .threadMain, .threadMain, .threadMain]
  have hlife : ∃ s, machine.exec (.start 1) life = some s ∧ s.pc = .returned ∧
      s.log = bracket 7 [3, 2, 0] := ⟨_, rfl, rfl, rfl⟩
  obtain ⟨s, hexec, hpc, hlog⟩ := hlife
  have hr : machine.Reach Undisturbed s :=
    Machine.Reach.exec_of_admits (fun _ _ h => h) (.init ⟨1, rfl⟩) (by decide) hexec
  exact ⟨s, hr, hpc, hlog, brackets hr⟩

/-! ## The other runs -/

/-- A task that was posted while `Init` was running runs before `InitAsync`; and a delegate that is
registered while the thread is running gets `CleanUp` only. -/
theorem not_brackets : (¬ ∀ s, machine.Reachable s → Brackets s) ∧
    ∃ s, machine.Reachable s ∧ s.log = [.init 7, .initAsync 7, .task 0, .cleanUp 8] := by
  constructor
  · intro h
    obtain ⟨s, hr, hs⟩ := Machine.exists_reachable (M := machine) (s := .start 1) ⟨1, rfl⟩
      [.setDelegate (some 7), .create, .threadMain, .post 0 true, .threadMain, .threadMain,
        .threadMain, .pump, .pump]
      (p := fun s => decide (s.kept = some 7 ∧ s.log = [.init 7, .task 2])) (by decide)
    obtain ⟨hkept, hlog⟩ := of_decide_eq_true hs
    obtain ⟨tasks, hprefix, -⟩ := (h s hr).kept 7 hkept
    rw [hlog, bracket, List.cons_prefix_cons, List.cons_prefix_cons] at hprefix
    cases hprefix.2.1
  · obtain ⟨s, hr, hs⟩ := Machine.exists_reachable (M := machine) (s := .start 1) ⟨1, rfl⟩
      [.setDelegate (some 7), .create, .threadMain, .threadMain, .threadMain, .threadMain,
        .startReturns, .setDelegate none, .setDelegate (some 8), .stopSoon, .pump, .pump,
        .taskReturns, .pump, .pump, .pump, .taskReturns, .pump, .pump, .pump, .pump, .threadMain,
        .threadMain]
      (p := fun s => decide (s.log = [.init 7, .initAsync 7, .task 0, .cleanUp 8])) (by decide)
    exact ⟨s, hr, of_decide_eq_true hs⟩

/-- Some run from here on ends in a state that breaks the contract. -/
def Breaks (s : State) : Prop := ∃ s', machine.Leads s s' ∧ ¬ Brackets s'

namespace Breaks

variable {d : Delegate}

theorem of_step (a : Action) (s' : State) (hs : BrowserThreadDelegate.step s a = some s')
    (h : Breaks s') : Breaks s := by
  obtain ⟨s'', hlead, hbreaks⟩ := h
  exact ⟨s'', .step hs hlead, hbreaks⟩

theorem of_first (hpc : s.pc = .run) (hkept : s.kept = some d) (hlog : s.log = [.init d])
    {p : PendingTask} (hp : p.task ≠ initAsync) (hfirst : s.pump.First p) : Breaks s := by
  induction hn : s.pump.distance using Nat.strong_induction_on generalizing s with
  | _ n ih =>
    obtain ⟨m, t, hm, ⟨rfl, hfirst', hlt⟩ | rfl⟩ := hfirst.stepsTowards s.now
    · refine of_step .pump (s.setPump m) ?_ ?_
      · simp [BrowserThreadDelegate.step, State.runPump, hpc, hm]
      · exact ih _ (hn ▸ hlt) hpc hkept hlog hfirst' rfl
    · refine of_step .pump ((s.setPump m).emit (s.ran p.task)) ?_ ⟨_, .refl _, ?_⟩
      · simp [BrowserThreadDelegate.step, State.runPump, hpc, hm]
      · intro h
        obtain ⟨tasks, hprefix, -⟩ := h.kept d hkept
        have hran : s.ran p.task ≠ .initAsync d := by
          unfold State.ran
          cases s.delegate <;> simp [hp]
        rw [State.emit, State.setPump, hlog, bracket, List.singleton_append,
          List.cons_prefix_cons, List.cons_prefix_cons] at hprefix
        exact hran hprefix.2.1

/-- A task that is to be run at once waits while `Init` is running. -/
abbrev Overtaken (m : MessagePumpDefault) : Prop :=
  ∃ q ∈ m.loop.incomingTaskQueue.incomingQueue, q.delayedRunTime = 0

theorem of_initCalled (hpc : s.pc = .initCalled) (hkept : s.kept = some d)
    (hlog : s.log = [.init d]) (hbefore : BeforeRun s.pump) (hover : Overtaken s.pump) :
    Breaks s := by
  obtain ⟨q, hq, himm⟩ := hover
  have hfind : (s.pump.loop.incomingTaskQueue.incomingQueue.find?
      fun q => decide (q.delayedRunTime = 0)).isSome :=
    List.find?_isSome.mpr ⟨q, hq, decide_eq_true himm⟩
  obtain ⟨p, hp⟩ := Option.isSome_iff_exists.mp hfind
  obtain ⟨hp0, delayed, rest, hqueue, hdelayed⟩ := List.find?_eq_some_iff_append.mp hp
  have htask : p.task ≠ initAsync :=
    hbefore.tasks p (by simp [MessageLoop.queued, hqueue])
  obtain ⟨-, ps, -, -, -, hincoming, -⟩ := s.pump.post_spec s.now initAsync 0 true
  have hfirst : (s.pump.post s.now initAsync 0 true).run.First p := by
    refine .ofRun hbefore.runs hbefore.allowed (of_decide_eq_true hp0)
      ⟨delayed, rest ++ ps, fun q hq => by simpa using hdelayed q hq, ?_⟩
    rw [hincoming, hqueue]
    simp [MessagePumpDefault.post, hbefore.workQueue]
  refine of_step .threadMain
    { s with pc := .run, pump := (s.pump.post s.now initAsync 0 true).run } ?_ ?_
  · simp [BrowserThreadDelegate.step, State.threadMain, hpc]
  · exact of_first rfl hkept hlog htask hfirst

theorem of_init (hpc : s.pc = .init) (hkept : s.kept = some d) (hd : s.delegate = some d)
    (hlog : s.log = []) (hbefore : BeforeRun s.pump) (hover : Overtaken s.pump) : Breaks s := by
  refine of_step .threadMain { s.emit (.init d) with pc := .initCalled } ?_ ?_
  · simp [BrowserThreadDelegate.step, State.threadMain, hpc, hd]
  · exact of_initCalled rfl hkept (by simp [hlog]) hbefore hover

theorem of_published (hpc : s.pc = .published) (hkept : s.kept = some d) (hslot : s.slot = some d)
    (hlog : s.log = []) (hbefore : BeforeRun s.pump) (hover : Overtaken s.pump) : Breaks s := by
  refine of_step .threadMain { s with pc := .init, delegate := s.slot } ?_ ?_
  · simp [BrowserThreadDelegate.step, State.threadMain, hpc]
  · exact of_init rfl hkept hslot hlog hbefore hover

theorem of_inInit (h : Sound s) (hpc : s.pc.inInit = true) (hkept : s.kept = some d)
    (hover : Overtaken s.pump) : Breaks s := by
  have hplace := h.kept d hkept
  have hlog := h.log
  have hbefore := h.beforeRun hpc
  cases hpc' : s.pc <;> rw [hpc'] at hplace hlog hpc
  case published => exact of_published hpc' hkept hplace hlog hbefore hover
  case init => exact of_init hpc' hkept hplace.2 hlog hbefore hover
  case initCalled =>
    obtain ⟨d', hd', hlog⟩ := hlog
    have hread := hplace.2
    rw [hd'] at hread
    cases hread
    exact of_initCalled hpc' hkept hlog hbefore hover
  all_goals cases hpc

end Breaks

/-- **Every step that is not `Undisturbed` breaks the contract** in some run that follows it. -/
theorem disturbed_breaks {a : Action} {s' : State} (hr : machine.Reachable s)
    (hdisturbed : ¬ Undisturbed s a) (hs : machine.step s a = some s') : Breaks s' := by
  have hsound := sound_reach hr
  cases a with
  | post delay nestable =>
    simp only [Undisturbed, not_forall, not_not] at hdisturbed
    obtain ⟨hinit, hkept, htime⟩ := hdisturbed
    obtain ⟨d, hd⟩ := Option.ne_none_iff_exists'.mp hkept
    obtain ⟨p, ps, -, hp, hps, hq, -⟩ := s.pump.post_spec s.now s.fresh delay nestable
    rw [if_pos (hsound.beforeRun hinit).messageLoop] at hps
    have hmessageLoop : s.pc.messageLoop = true := by
      cases hpc : s.pc <;> simp [hpc, Pc.inInit] at hinit <;> rfl
    have hsound' : Sound s' := hsound.step (a := .post delay nestable) hs
    obtain rfl : { s.setPump (s.pump.post s.now s.fresh delay nestable) with
        fresh := s.fresh + 1 } = s' := by
      simpa [machine, step, State.postTaskHelper, hmessageLoop] using hs
    refine .of_inInit hsound' hinit hd ⟨p, ?_, hp.trans htime⟩
    simp [hq, hps]
  | threadMain =>
    simp only [Undisturbed, Classical.not_imp, not_or] at hdisturbed
    obtain ⟨hpc, hslot, hother⟩ := hdisturbed
    obtain ⟨e, he⟩ := Option.ne_none_iff_exists'.mp hslot
    obtain ⟨-, rfl⟩ : s.pump.runs = [] ∧ { s with pc := .cleanUp s.slot } = s' := by
      simpa [machine, step, State.threadMain, hpc] using hs
    refine .of_step .threadMain { s.emit (.cleanUp e) with pc := .cleanedUp } ?_
      ⟨_, .refl _, ?_⟩
    · simp [step, State.threadMain, he]
    · intro h
      have hlog := hsound.log
      rw [hpc] at hlog
      obtain ⟨tasks, htasks, hlog⟩ := hlog
      have hinit : .init e ∈ events s.delegate tasks none := hlog ▸ h.cleanUp e s.log [] rfl
      rcases mem_events.mp hinit with ⟨d, hd, he'⟩ | hmem | ⟨d, hd, -⟩
      · cases he'
        exact hother (he.trans hd.symm)
      · exact htasks _ hmem
      · cases hd
  | _ => exact absurd trivial hdisturbed

end Mdgate.Content.BrowserThreadDelegate
