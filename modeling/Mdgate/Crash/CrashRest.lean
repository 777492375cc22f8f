import Mdgate.Crash.CrashOnce

/-!
# Crashes do not get stuck

A thread in the handlers can only wait for the handler thread of `g_breakpad` to wake up in
`FilterCallback`, which it does not. But then a crash was let through before, and the thread that
was answered for it is on its way to end the process.
-/

namespace Mdgate.Crash

open Mdgate.Lib

namespace CrashState

variable {s s' : CrashState} {t : Thread} {h : HandlerId}

/-- No thread can take a step in a handler, and no handler thread one for a request. -/
structure AtRest (s : CrashState) : Prop where
  running : s.ended = false
  advance : ∀ t uuid previous, s.advance t uuid previous = none
  serve : ∀ h created written, s.threads (.handler h) = .running → s.serve h created written = none

/-- Where a handler thread can be: an exception in the one of `g_breakpad` goes to the previous
handlers, and none calls `WriteMinidump`. -/
def OfHandler : HandlerId → Pc → Prop
  | _, .running | _, .raised _ false | _, .returned _ => True
  | .breakpad, _ => False
  | .dumphandlerNoCrash, .writing _ none _ => False
  | .dumphandlerNoCrash, _ => True

/-! ## The handler threads -/

/-- While the handler thread of `g_breakpad` works for a thread, that thread is in scope. -/
theorem installed_of_busy (hs : crashMachine.Reachable s)
    (hbusy : s.canRaise (.handler .breakpad) = true) : s.installed = .all false := by
  have hne : (s.handlers .breakpad).handlerThread ≠ .waiting ∧
      (s.handlers .breakpad).handlerThread ≠ .absent := by
    constructor <;> intro hpc <;> simp [canRaise, hpc] at hbusy
  cases handshake hs .breakpad with
  | free _ _ hidle _ =>
    rcases hidle with ha | ha
    · exact absurd ha.2.2 hne.1
    · exact absurd ha.2.2 hne.2
  | held t entry call _ _ hin _ _ _ =>
    have hpc := (within_eq_some hin).1
    have hproper := (stackInv hs).proper t
    rw [hpc] at hproper
    cases entry with
    | none => cases hproper
    | some entry => exact ((handlers_exclusive hs).2.2.2 t _ entry call hpc).2.2

theorem ofHandler_write {x : HandlerId} {entry : Option Entry} {uuid : Nat}
    {previous : FilterAction} {call : Call} (ho : OfHandler h (.writing x entry call))
    (hst : s.write t x entry uuid previous call = some s') : OfHandler h (s'.threads t) := by
  cases h with
  | breakpad => cases ho
  | dumphandlerNoCrash =>
    cases entry with
    | none => cases ho
    | some entry =>
      obtain ⟨pc, hm, -, hw⟩ := moves_write hst
      rw [hm.threads, Function.update_self]
      have hin : pc.inScope = true := hw.inScope
      cases pc with
      | writing _ e _ =>
        cases e with
        | none => cases hin
        | some => trivial
      | raised _ ours => cases ours <;> trivial
      | _ => trivial

theorem ofHandler_advance (hs : OfHandler h (s.threads (.handler h))) {uuid : Nat}
    {previous : FilterAction} (hst : s.advance (.handler h) uuid previous = some s') :
    OfHandler h (s'.threads (.handler h)) := by
  unfold CrashState.advance at hst
  split at hst
  · cases hst
  · cases hst
    simp only [setThread, Function.update_self]
    cases h <;> trivial
  next hpc =>
    rw [hpc] at hs
    cases h with
    | breakpad => cases hs
    | dumphandlerNoCrash =>
      obtain ⟨c, -, hst⟩ := Option.map_eq_some_iff.mp hst
      simp only at hst
      split at hst <;> subst hst <;> simp only [setThread, Function.update_self] <;> trivial
  next hpc =>
    rw [hpc] at hs
    cases h with
    | breakpad => cases hs
    | dumphandlerNoCrash =>
      split at hst <;> cases hst <;> simp only [setThread, Function.update_self] <;> trivial
  next x entry hpc =>
    rw [hpc] at hs
    cases h with
    | breakpad => cases hs
    | dumphandlerNoCrash =>
      cases hst
      simp only [setThread, Function.update_self]
      cases entry with
      | handleException code =>
        rw [handle]
        split
        · trivial
        · split <;> trivial
      | handleInvalidParameter | handlePureVirtualCall => trivial
  next hpc =>
    rw [hpc] at hs
    exact ofHandler_write hs hst
  next hpc =>
    rw [hpc] at hs
    cases h with
    | breakpad => cases hs
    | dumphandlerNoCrash =>
      split at hst <;> cases hst <;> simp only [setThread, Function.update_self] <;> trivial
  next hpc =>
    split at hst
    · cases hst
      simp only [setThread, Function.update_self]
      cases h <;> trivial
    · cases hst
      exact hs
  · cases hst
    exact hs

theorem Installed.get_all (ours : Bool) (entry : Entry) :
    (Installed.all ours).get entry = ours := by
  cases entry <;> rfl

theorem ofHandler_raise (hr : crashMachine.Reachable s)
    (hraise : s.canRaise (.handler h) = true) (entry : Entry) :
    OfHandler h (.raised entry (s.installed.get entry)) := by
  cases h with
  | breakpad =>
    rw [installed_of_busy hr hraise, Installed.get_all]
    trivial
  | dumphandlerNoCrash => cases s.installed.get entry <;> trivial

theorem ofHandler_step (hr : crashMachine.Reachable s) (hs : OfHandler h (s.threads (.handler h)))
    {a : CrashAction} (hst : s.step a = some s') : OfHandler h (s'.threads (.handler h)) := by
  by_cases hpc : s.threads (.handler h) = .running
  · obtain ⟨-, hst'⟩ := Option.ite_none_left_eq_some.mp hst
    cases a with
    | raise t entry =>
      obtain ⟨hraise, rfl⟩ := Machine.guard_eq_some hst'
      by_cases ht : t = .handler h
      · subst ht
        simp only [setThread, Function.update_self]
        exact ofHandler_raise hr hraise entry
      · simp only [setThread, Function.update_of_ne (Ne.symm ht)]
        exact hs
    | dumpProcessWithoutCrash n =>
      obtain ⟨-, rfl⟩ := Machine.guard_eq_some hst'
      simpa [setThread] using hs
    | advance t uuid previous =>
      by_cases ht : t = .handler h
      · subst ht
        exact ofHandler_advance hs hst'
      · rw [(threadStep_advance hst').threads _ (Ne.symm ht)]
        exact hs
    | serve x created written =>
      obtain ⟨hm, -⟩ := moves_serve (t := .handler h) (Option.ite_none_right_eq_some.mp hst').2
      rw [hm.threads, Function.update_eq_self]
      exact hs
    | setHandleDebugExceptions x b | setConsumeInvalidHandleExceptions x b =>
      cases hst'
      exact hs
  · by_cases ha : ∃ uuid previous, a = .advance (.handler h) uuid previous
    · obtain ⟨uuid, previous, rfl⟩ := ha
      exact ofHandler_advance hs (Option.ite_none_left_eq_some.mp hst).2
    · rw [threads_step hpc (fun uuid previous h => ha ⟨uuid, previous, h⟩) hst]
      exact hs

theorem ofHandler (hr : crashMachine.Reachable s) (h : HandlerId) :
    OfHandler h (s.threads (.handler h)) := by
  refine hr.invariant_of (I := fun s => OfHandler h (s.threads (.handler h)))
    (J := crashMachine.Reachable) (fun _ h => h) (fun s hi => ?_)
    fun s a s' hr hs _ hst => ofHandler_step hr hs hst
  rw [hi.threads]
  cases h <;> trivial

/-- Only the handler thread of `g_breakpad` sleeps, and only after a crash was let through. -/
def SleepsAfter (s : CrashState) : Prop :=
  ∀ h, (s.handlers h).handlerThread = .asleep → h = .breakpad ∧ s.handlingException = true

theorem SleepsAfter.serve (hs : SleepsAfter s) {created written : Bool}
    (hst : s.serve h created written = some s') : SleepsAfter s' := by
  have hother {pc : HandlerThread} (hpc : pc ≠ .asleep) (o : ExceptionHandler)
      (ho : o.handlerThread = pc) (x : HandlerId)
      (hx : (Function.update s.handlers h o x).handlerThread = .asleep) :
      x = .breakpad ∧ s.handlingException = true := by
    by_cases hxh : x = h
    · rw [hxh, Function.update_self, ho] at hx
      exact absurd hx hpc
    · rw [Function.update_of_ne hxh] at hx
      exact hs x hx
  unfold CrashState.serve at hst
  simp only at hst
  split at hst
  · cases hst
  · cases hst
  · obtain ⟨-, rfl⟩ := Machine.guard_eq_some hst
    exact hother (by simp) _ rfl
  · split at hst
    · cases hst
      intro x hx
      obtain ⟨hx, hf⟩ := hother (by simp) _ rfl x hx
      exact ⟨hx, by simp [hf]⟩
    next hf =>
      cases hst
      intro x hx
      by_cases hxh : x = h
      · subst hxh
        cases x with
        | breakpad =>
          have hflag : s.handlingException = true := by simpa [filterCallback] using hf
          exact ⟨rfl, hflag⟩
        | dumphandlerNoCrash => simp [filterCallback] at hf
      · simp only [setHandler, Function.update_of_ne hxh] at hx
        exact hs x hx
  · cases hst
    exact hother (by simp) _ rfl
  · cases hst
    exact hother (by simp) _ rfl
  · cases hst
    exact hother (by simp) _ rfl

theorem SleepsAfter.step (hs : SleepsAfter s) {a : CrashAction} (hst : s.step a = some s') :
    SleepsAfter s' := by
  obtain ⟨-, hst⟩ := Option.ite_none_left_eq_some.mp hst
  have hflag {x : HandlerId} {o : ExceptionHandler}
      (ho : o.handlerThread = (s.handlers x).handlerThread) : SleepsAfter (s.setHandler x o) :=
    fun y hy => hs y ((SameThreads.handlerThread (.inr ⟨x, o, rfl, ho⟩) y).symm.trans hy)
  cases a with
  | raise t entry | dumpProcessWithoutCrash n =>
    obtain ⟨-, rfl⟩ := Machine.guard_eq_some hst
    exact hs
  | advance t uuid previous =>
    obtain ⟨hf, -, -, hthread, -⟩ := threadStep_advance hst
    intro x hx
    rw [hf]
    exact hs x ((hthread x).symm.trans hx)
  | serve x created written => exact hs.serve (Option.ite_none_right_eq_some.mp hst).2
  | setHandleDebugExceptions x b | setConsumeInvalidHandleExceptions x b =>
    cases hst
    exact hflag rfl

theorem sleepsAfter (hr : crashMachine.Reachable s) : SleepsAfter s := by
  refine hr.invariant (I := SleepsAfter) (fun s hi h hh => ?_) fun s a s' hs _ hst => hs.step hst
  rcases hi.handlerThread h with h' | h' <;> exact absurd (h'.symm.trans hh) (by simp)

/-! ## At rest -/

/-- What a thread that cannot go on waits for. -/
inductive Blocked (s : CrashState) (t : Thread) : Prop where
  | running (hpc : s.threads t = .running)
  | raised (entry : Entry) (hpc : s.threads t = .raised entry true)
      (hc : s.handlerStackCriticalSection.enter t = none)
  | entering (h : HandlerId) (entry : Option Entry) (hpc : s.threads t = .writing h entry .entering)
      (hc : (s.handlers h).handlerCriticalSection.enter t = none)
  | waiting (h : HandlerId) (entry : Option Entry) (hpc : s.threads t = .writing h entry .waiting)

theorem blocked_of_advance {uuid : Nat} {previous : FilterAction}
    (hadv : s.advance t uuid previous = none) : Blocked s t := by
  unfold advance at hadv
  split at hadv
  next hpc => exact .running hpc
  · cases hadv
  next entry hpc => exact .raised entry hpc (Option.map_eq_none_iff.mp hadv)
  · split at hadv <;> cases hadv
  · cases hadv
  next h entry call hpc =>
    cases call with
    | entering => exact .entering h entry hpc (Option.map_eq_none_iff.mp hadv)
    | waiting => exact .waiting h entry hpc
    | preparing | starting | collecting => cases hadv
    | done status => cases entry <;> cases hadv
  · split at hadv <;> cases hadv
  · split at hadv <;> cases hadv
  · cases hadv

namespace AtRest

theorem blocked (hrest : s.AtRest) (t : Thread) : Blocked s t :=
  blocked_of_advance (hrest.advance t 0 .continueSearch)

/-- The handler thread of `g_breakpad` is not in a handler. -/
theorem breakpad_running (hrest : s.AtRest) (hr : crashMachine.Reachable s) :
    s.threads (.handler .breakpad) = .running := by
  have hof := ofHandler hr .breakpad
  cases hrest.blocked (.handler .breakpad) with
  | running hpc => exact hpc
  | raised _ hpc | entering _ _ hpc | waiting _ _ hpc =>
    rw [hpc] at hof
    cases hof

/-- A thread that waits for a handler thread waits for one that sleeps. -/
theorem asleep_of_waiting (hrest : s.AtRest) (hr : crashMachine.Reachable s)
    (hrun : s.threads (.handler h) = .running) {entry : Option Entry}
    (hpc : s.threads t = .writing h entry .waiting) :
    (s.handlers h).handlerThread = .asleep := by
  have hadv := hrest.advance t 0 .continueSearch
  have hserve := hrest.serve h false false hrun
  simp only [CrashState.advance, hpc] at hadv
  obtain ⟨part, -, -, hex, -⟩ :=
    (handshake hr h).of_within (t := t) (by rw [hpc]; exact if_pos ⟨rfl, rfl⟩)
  cases hex with
  | asleep ha => exact ha.2.2
  | requested _ ha => simp [CrashState.serve, ha.1, ha.2.2] at hserve
  | filter ha =>
    simp only [CrashState.serve, ha.2.2] at hserve
    split at hserve <;> cases hserve
  | writeMinidump ha | callback _ _ _ ha | releasing _ _ _ _ ha =>
    simp [CrashState.serve, ha.2.2] at hserve
  | finished _ _ _ _ ha => simp [write, ha.2.1] at hadv

/-- Who cannot enter `handler_critical_section_` waits for a thread that waits. -/
theorem exists_waiting (hrest : s.AtRest) (hr : crashMachine.Reachable s)
    (hc : (s.handlers h).handlerCriticalSection.enter t = none) :
    ∃ o entry, s.threads o = .writing h entry .waiting := by
  cases handshake hr h with
  | free hfree =>
    rw [hfree] at hc
    cases hc
  | held o entry' call _ hheld hin =>
    have hpo := within_eq_some hin
    refine ⟨o, entry', ?_⟩
    cases hrest.blocked o with
    | waiting x e hpw =>
      rw [hpo.1] at hpw
      cases hpw
      exact hpo.1
    | entering _ _ hpw =>
      rw [hpo.1] at hpw
      cases hpw
      cases hpo.2
    | running hpw | raised _ hpw =>
      rw [hpo.1] at hpw
      cases hpw

/-- A thread in scope waits for the handler thread of `g_breakpad`. -/
theorem asleep_of_inScope (hrest : s.AtRest) (hr : crashMachine.Reachable s)
    (hin : (s.threads t).inScope = true) : (s.handlers .breakpad).handlerThread = .asleep := by
  have hproper := (stackInv hr).proper t
  have hbreakpad {h : HandlerId} {entry : Option Entry} {call : Call}
      (hpc : s.threads t = .writing h entry call) : h = .breakpad := by
    rw [hpc] at hproper hin
    cases entry with
    | none => cases hin
    | some => exact hproper
  cases hrest.blocked t with
  | running hpc | raised _ hpc =>
    rw [hpc] at hin
    cases hin
  | entering h entry hpc hc =>
    obtain ⟨o, entry', hpo⟩ := hrest.exists_waiting hr hc
    rw [hbreakpad hpc] at hpo
    exact hrest.asleep_of_waiting hr (hrest.breakpad_running hr) hpo
  | waiting h entry hpc =>
    rw [hbreakpad hpc] at hpc
    exact hrest.asleep_of_waiting hr (hrest.breakpad_running hr) hpc

/-- Who cannot enter `handler_stack_critical_section_` waits for a thread in scope. -/
theorem asleep_of_raised (hrest : s.AtRest) (hr : crashMachine.Reachable s)
    (hc : s.handlerStackCriticalSection.enter t = none) :
    (s.handlers .breakpad).handlerThread = .asleep := by
  rcases (stackInv hr).scope with ⟨hfree, -⟩ | ⟨o, -, -, hin, -⟩
  · rw [hfree] at hc
    cases hc
  · exact hrest.asleep_of_inScope hr hin

/-- The handler thread of the other object is in a handler itself, or waits. -/
theorem asleep_of_handler (hrest : s.AtRest) (hr : crashMachine.Reachable s)
    (hne : s.threads (.handler h) ≠ .running) :
    (s.handlers .breakpad).handlerThread = .asleep := by
  have hof := ofHandler hr h
  cases hrest.blocked (.handler h) with
  | running hpc => exact absurd hpc hne
  | raised _ _ hc => exact hrest.asleep_of_raised hr hc
  | entering x entry hpc | waiting x entry hpc =>
    have hsome : entry.isSome = true := by
      rw [hpc] at hof
      cases entry with
      | none => cases h <;> cases hof
      | some => rfl
    obtain ⟨entry, rfl⟩ := Option.isSome_iff_exists.mp hsome
    exact hrest.asleep_of_inScope hr (by rw [hpc]; rfl)

theorem asleep_of_call (hrest : s.AtRest) (hr : crashMachine.Reachable s) {entry : Option Entry}
    (hpc : s.threads t = .writing h entry .waiting) :
    (s.handlers .breakpad).handlerThread = .asleep := by
  by_cases hrun : s.threads (.handler h) = .running
  · have hasleep := hrest.asleep_of_waiting hr hrun hpc
    obtain ⟨rfl, -⟩ := sleepsAfter hr h hasleep
    exact hasleep
  · exact hrest.asleep_of_handler hr hrun

theorem asleep (hrest : s.AtRest) (hr : crashMachine.Reachable s) (hne : s.threads t ≠ .running) :
    (s.handlers .breakpad).handlerThread = .asleep := by
  cases hrest.blocked t with
  | running hpc => exact absurd hpc hne
  | raised _ _ hc => exact hrest.asleep_of_raised hr hc
  | entering h entry _ hc =>
    obtain ⟨o, entry', hpo⟩ := hrest.exists_waiting hr hc
    exact hrest.asleep_of_call hr hpo
  | waiting h entry hpc => exact hrest.asleep_of_call hr hpc

end AtRest

/-! ## The thread that ends the process -/

/-- A thread whose crash was reported is on its way to end the process. -/
def Ending : Pc → Prop
  | .writing .breakpad (some _) (.done true) | .restoring .executeHandler _
  | .returned .executeHandler | .exiting => True
  | _ => False

/-- The threads that `g_breakpad` has answered. -/
def AnsweredEnd (s : CrashState) : Prop :=
  s.ended = true ∨ ∀ t status, .answered .breakpad t status ∈ s.log → Ending (s.threads t)

theorem ending_advance (he : Ending (s.threads t)) {uuid : Nat} {previous : FilterAction}
    (hst : s.advance t uuid previous = some s') : s'.ended = true ∨ Ending (s'.threads t) := by
  unfold CrashState.advance at hst
  split at hst
  next hpc => simp [hpc, Ending] at he
  next hpc => simp [hpc, Ending] at he
  next hpc => simp [hpc, Ending] at he
  next hpc => simp [hpc, Ending] at he
  next hpc => simp [hpc, Ending] at he
  next h entry call hpc =>
    rw [hpc] at he
    cases h with
    | dumphandlerNoCrash => cases he
    | breakpad =>
      cases entry with
      | none => cases he
      | some entry =>
        cases call with
        | done status =>
          cases status with
          | false => cases he
          | true =>
            cases hst
            simp only [setThread, Function.update_self]
            cases entry <;> exact .inr trivial
        | _ => cases he
  next action n hpc =>
    rw [hpc] at he
    cases action with
    | executeHandler =>
      split at hst <;> cases hst <;> simp only [setThread, Function.update_self] <;>
        exact .inr trivial
    | continueSearch | continueExecution => cases he
  next action hpc =>
    rw [hpc] at he
    cases action with
    | executeHandler =>
      cases hst
      exact .inl rfl
    | continueSearch | continueExecution => cases he
  · cases hst
    exact .inl rfl

theorem ending_step {a : CrashAction} (he : Ending (s.threads t)) (hst : s.step a = some s') :
    s'.ended = true ∨ Ending (s'.threads t) := by
  have hne : s.threads t ≠ .running := by
    intro hpc
    rw [hpc] at he
    cases he
  by_cases ha : ∃ uuid previous, a = .advance t uuid previous
  · obtain ⟨uuid, previous, rfl⟩ := ha
    exact ending_advance he (Option.ite_none_left_eq_some.mp hst).2
  · rw [threads_step hne (fun uuid previous h => ha ⟨uuid, previous, h⟩) hst]
    exact .inr he

theorem answered_write {x : HandlerId} {entry : Option Entry} {uuid : Nat} {previous : FilterAction}
    {call : Call} {t' : Thread} {status : Bool}
    (hst : s.write t x entry uuid previous call = some s')
    (hnew : .answered h t' status ∈ s'.log) (hold : .answered h t' status ∉ s.log) :
    call = .collecting ∧ x = h ∧ t' = t ∧ status = (s.handlers h).handlerReturnValue ∧
      s'.threads t = .writing h entry (.done status) := by
  cases call with
  | entering =>
    obtain ⟨c, -, hst⟩ := Option.map_eq_some_iff.mp hst
    simp only at hst
    split at hst <;> subst hst <;> exact absurd hnew hold
  | preparing =>
    cases hst
    exact absurd hnew hold
  | starting =>
    cases hst
    rcases List.mem_append.mp hnew with hnew | hnew
    · exact absurd hnew hold
    · simp at hnew
  | waiting =>
    obtain ⟨-, rfl⟩ := Machine.guard_eq_some hst
    exact absurd hnew hold
  | collecting =>
    cases hst
    rcases List.mem_append.mp hnew with hnew | hnew
    · exact absurd hnew hold
    · obtain ⟨rfl, rfl, rfl⟩ := CrashEvent.answered.inj (List.mem_singleton.mp hnew)
      exact ⟨rfl, rfl, rfl, rfl, by simp [setThread]⟩
  | done status =>
    cases entry with
    | some entry =>
      cases hst
      exact absurd hnew hold
    | none =>
      cases hst
      rcases List.mem_append.mp hnew with hnew | hnew
      · exact absurd hnew hold
      · simp at hnew

theorem answered_advance {uuid : Nat} {previous : FilterAction} {t' : Thread} {status : Bool}
    (hst : s.advance t uuid previous = some s') (hnew : .answered h t' status ∈ s'.log)
    (hold : .answered h t' status ∉ s.log) :
    ∃ entry, s.threads t = .writing h entry .collecting ∧ t' = t ∧
      status = (s.handlers h).handlerReturnValue ∧
        s'.threads t = .writing h entry (.done status) := by
  unfold CrashState.advance at hst
  split at hst
  · cases hst
  · cases hst
    exact absurd hnew hold
  · obtain ⟨c, -, hst⟩ := Option.map_eq_some_iff.mp hst
    simp only at hst
    split at hst
    · subst hst
      exact absurd hnew hold
    · subst hst
      rcases List.mem_append.mp hnew with hnew | hnew
      · exact absurd hnew hold
      · simp at hnew
  · split at hst <;> cases hst <;> exact absurd hnew hold
  · cases hst
    exact absurd hnew hold
  next x entry call hpc =>
    obtain ⟨rfl, rfl, rfl, hstatus, hpc'⟩ := answered_write hst hnew hold
    exact ⟨entry, hpc, rfl, hstatus, hpc'⟩
  · split at hst <;> cases hst <;> exact absurd hnew hold
  · split at hst <;> cases hst <;> exact absurd hnew hold
  · cases hst
    exact absurd hnew hold

theorem answeredEnd_step (hr : crashMachine.Reachable s) (hs : AnsweredEnd s) {a : CrashAction}
    (hst : s.step a = some s') : AnsweredEnd s' := by
  obtain ⟨hend, hst'⟩ := Option.ite_none_left_eq_some.mp hst
  have hs := hs.resolve_left hend
  by_cases hend' : s'.ended = true
  · exact .inl hend'
  · refine .inr fun t status hans => ?_
    by_cases hold : .answered .breakpad t status ∈ s.log
    · exact (ending_step (hs t status hold) hst).resolve_left hend'
    · obtain ⟨l, hl, hby | ⟨t', uuid, previous, rfl⟩⟩ := log_step hst
      · rw [hl] at hans
        have hl := hby _ ((List.mem_append.mp hans).resolve_left hold)
        cases hl
      · obtain ⟨entry, hpc, rfl, hstatus, hpc'⟩ := answered_advance hst' hans hold
        have hproper := (stackInv hr).proper t
        rw [hpc] at hproper
        obtain ⟨part, -, -, hex, -⟩ :=
          (handshake hr .breakpad).of_within (t := t) (by rw [hpc]; rfl)
        cases hex with
        | collecting id e ok hv =>
          rw [hpc', hstatus, hv]
          cases entry with
          | none => cases hproper
          | some => trivial

theorem answeredEnd (hr : crashMachine.Reachable s) : AnsweredEnd s := by
  refine hr.invariant_of (I := AnsweredEnd) (J := crashMachine.Reachable) (fun _ h => h)
    (fun s hi => ?_) fun s a s' hr hs _ hst => answeredEnd_step hr hs hst
  refine .inr fun t status hans => ?_
  rw [hi.log] at hans
  cases hans

/-- **Crashes do not get stuck**: as long as the process lives and a thread is in the handlers or
asks for a dump, some thread can go on. -/
theorem crash_not_stuck (hr : crashMachine.Reachable s) (hrest : s.AtRest) :
    ∀ t, s.threads t = .running := by
  by_contra hne
  obtain ⟨t, hne⟩ := not_forall.mp hne
  have hasleep := hrest.asleep hr hne
  have hflag := (sleepsAfter hr .breakpad hasleep).2
  have hcount := countsApproved hr
  rw [CountsApproved, if_pos hflag] at hcount
  -- the crash that was let through has been answered
  obtain ⟨t₀, hans⟩ : ∃ t₀, .answered .breakpad t₀ true ∈ s.log := by
    cases handshake hr .breakpad with
    | free _ _ hidle =>
      rcases hidle with ha | ha <;> exact absurd (ha.2.2.symm.trans hasleep) (by simp)
    | held o entry call part _ _ _ hex hlog =>
      have hpart : part.countP CrashEvent.crashApproved = 0 := by
        cases hex with
        | asleep => rfl
        | preparing ha | starting _ ha | requested _ ha | filter ha | writeMinidump ha
        | callback _ _ _ ha | releasing _ _ _ _ ha | finished _ _ _ _ ha
        | collecting _ _ _ _ ha => exact absurd (ha.2.2.symm.trans hasleep) (by simp)
      obtain ⟨e, he, happ⟩ := List.countP_pos_iff.mp (hcount ▸ Nat.one_pos)
      obtain ⟨round, ⟨r, id, ex, ok, rfl⟩, -, hmem, -⟩ := hlog.exists_round he
        (crashApproved_exchange e happ)
        (fun hmem => absurd happ (List.countP_eq_zero.mp hpart e hmem)) crashApproved_exchange
      exact ⟨r.requestingThread, hmem _ (by simp)⟩
  -- and its thread can go on
  have hend := (answeredEnd hr).resolve_left (by simp [hrest.running]) t₀ true hans
  cases hrest.blocked t₀ with
  | running hpc | raised _ hpc =>
    rw [hpc] at hend
    cases hend
  | entering h entry hpc | waiting h entry hpc =>
    rw [hpc] at hend
    cases h <;> cases entry <;> cases hend

/-! ## A process at rest -/

/-- A step of a thread leaves the others where they are. -/
theorem advance_threads {uuid : Nat} {previous : FilterAction} {u : Thread}
    (hst : s.advance t uuid previous = some s') (hu : u ≠ t) : s'.threads u = s.threads u := by
  unfold CrashState.advance at hst
  split at hst
  · cases hst
  · cases hst
    exact Function.update_of_ne hu _ _
  · obtain ⟨c, -, hst⟩ := Option.map_eq_some_iff.mp hst
    simp only at hst
    split at hst <;> subst hst <;> exact Function.update_of_ne hu _ _
  · split at hst <;> cases hst <;> exact Function.update_of_ne hu _ _
  · cases hst
    exact Function.update_of_ne hu _ _
  · obtain ⟨pc, hm, -, -⟩ := moves_write hst
    rw [hm.threads, Function.update_of_ne hu]
  · split at hst <;> cases hst <;> exact Function.update_of_ne hu _ _
  · split at hst <;> cases hst
    · exact Function.update_of_ne hu _ _
    · rfl
  · cases hst
    rfl

theorem step_threads {a : CrashAction} {u : Thread} (hst : s.step a = some s')
    (hu : a.thread? ≠ some u) : s'.threads u = s.threads u := by
  obtain ⟨-, hst⟩ := Option.ite_none_left_eq_some.mp hst
  cases a with
  | raise t entry =>
    obtain ⟨-, rfl⟩ := Machine.guard_eq_some hst
    exact Function.update_of_ne (fun h => hu (congrArg some h.symm)) _ _
  | dumpProcessWithoutCrash n =>
    obtain ⟨-, rfl⟩ := Machine.guard_eq_some hst
    exact Function.update_of_ne (fun h => hu (congrArg some h.symm)) _ _
  | advance t uuid previous => exact advance_threads hst fun h => hu (congrArg some h.symm)
  | serve x created written =>
    obtain ⟨hm, -⟩ := moves_serve (t := u) (Option.ite_none_right_eq_some.mp hst).2
    rw [hm.threads, Function.update_self]
  | setHandleDebugExceptions x b | setConsumeInvalidHandleExceptions x b =>
    cases hst
    rfl

theorem exec_threads {as : List CrashAction} {u : Thread}
    (hu : ∀ a ∈ as, a.thread? ≠ some u) (hex : crashMachine.exec s as = some s') :
    s'.threads u = s.threads u := by
  induction as generalizing s with
  | nil => exact congrArg (CrashState.threads · u) (Option.some.inj hex).symm
  | cons a as ih =>
    obtain ⟨m, hm, hex⟩ := Option.bind_eq_some_iff.mp hex
    rw [ih (fun b hb => hu b (List.mem_cons_of_mem a hb)) hex,
      step_threads hm (hu a List.mem_cons_self)]

/-- A handler thread that waits for a request, or that there is not, has nothing to do. -/
theorem serve_eq_none (hstart : (s.handlers h).handlerStartSemaphore = 0)
    (hpc : (s.handlers h).handlerThread = .waiting) (created written : Bool) :
    s.serve h created written = none := by
  unfold CrashState.serve
  simp [hpc, hstart]

/-- A process at rest in which a thread has been answered for a dump without a crash, and another
has crashed and goes on. -/
theorem crash_not_stuck_answered : ∃ s, crashMachine.Reachable s ∧ s.AtRest ∧
    .answered .dumphandlerNoCrash (.app 0) true ∈ s.log ∧ ∀ t, s.threads t = .running := by
  let actions : List CrashAction :=
    [.setConsumeInvalidHandleExceptions .breakpad true, .dumpProcessWithoutCrash 0] ++
      List.replicate 3 (.advance (.app 0) 2 .continueSearch) ++
      [.raise (.app 1) (.handleException exceptionInvalidHandle)] ++
      List.replicate 11 (.advance (.app 1) 2 .continueSearch) ++
      List.replicate 5 (.serve .dumphandlerNoCrash true true) ++
      List.replicate 3 (.advance (.app 0) 2 .continueSearch)
  have hrun : (crashMachine.exec crashStart actions).any (fun s => decide (
      s.threads (.app 0) = .running ∧ s.threads (.app 1) = .running ∧ s.ended = false ∧
      .answered .dumphandlerNoCrash (.app 0) true ∈ s.log ∧
      ((s.handlers .breakpad).handlerStartSemaphore = 0 ∧
        (s.handlers .breakpad).handlerThread = .waiting) ∧
      (s.handlers .dumphandlerNoCrash).handlerStartSemaphore = 0 ∧
      (s.handlers .dumphandlerNoCrash).handlerThread = .waiting)) = true := by decide
  obtain ⟨s, hex, hp⟩ := (Option.any_eq_true _ _).mp hrun
  obtain ⟨h0, h1, hended, hanswered, hbreakpad, hnoCrash⟩ := of_decide_eq_true hp
  have hr : crashMachine.Reachable s :=
    Machine.Reach.exec (.init crashStart_initial) (fun _ _ _ => trivial) hex
  have hthreads (t : Thread) : s.threads t = .running := by
    by_cases ht : t = .app 0 ∨ t = .app 1
    · rcases ht with rfl | rfl
      · exact h0
      · exact h1
    · rw [not_or] at ht
      refine (exec_threads (fun a ha heq => ?_) hex).trans rfl
      have hmoved : ∀ a ∈ actions, a.thread? = none ∨
          a.thread? = some (.app 0) ∨ a.thread? = some (.app 1) := by
        decide
      rcases hmoved a ha with hnone | hsome | hsome
      · rw [hnone] at heq
        cases heq
      · exact ht.1 (Option.some.inj (heq.symm.trans hsome))
      · exact ht.2 (Option.some.inj (heq.symm.trans hsome))
  have hrest : s.AtRest := by
    refine ⟨hended, fun t _ _ => by simp [CrashState.advance, hthreads t], fun h _ _ _ => ?_⟩
    cases h with
    | breakpad => exact serve_eq_none hbreakpad.1 hbreakpad.2 _ _
    | dumphandlerNoCrash => exact serve_eq_none hnoCrash.1 hnoCrash.2 _ _
  exact ⟨s, hr, hrest, hanswered, crash_not_stuck hr hrest⟩

end CrashState

end Mdgate.Crash
