import Mdgate.Crash.ExceptionHandler

/-!
# The handler stack

One thread at a time is between the constructor and the destructor of an `AutoExceptionHandler`:
`handler_stack_critical_section_` may be entered again by its owner, but while it is owned the
handlers of the process are not Breakpad's, so that nothing leads its owner there. Hence
`handler_stack_index_` never exceeds the one object that is on the stack.
-/

namespace Mdgate.Crash

open Mdgate.Lib

def Installed.first (n : Nat) (ours : Bool) : Installed :=
  ⟨decide (0 < n) == ours, decide (1 < n) == ours, decide (2 < n) == ours⟩

theorem Installed.set_first : ∀ n < 3, ∀ ours, (first n ours).set n ours = first (n + 1) ours := by
  decide

/-- What the handlers of the process are while a thread is in scope. -/
def Pc.installed : Pc → Installed
  | switching _ _ n => .first n false
  | restoring _ n => .first n true
  | _ => .all false

/-- The handler that a thread in scope has found is the one on the stack, and `WriteMinidump` is
called of the other object. -/
def Pc.Proper : Pc → Prop
  | switching h _ n => h = .breakpad ∧ n ≤ 3
  | handling h _ => h = .breakpad
  | writing h (some _) _ => h = .breakpad
  | writing h none _ => h = .dumphandlerNoCrash
  | restoring _ n => n ≤ 3
  | _ => True

namespace CrashState

/-- Who is in scope. -/
inductive InScope (s : CrashState) : Prop where
  | free (hc : s.handlerStackCriticalSection = .free) (hi : s.handlerStackIndex = 0)
      (hinst : s.installed = .all true) (hout : ∀ t, (s.threads t).inScope = false)
  | held (t : Thread) (hc : s.handlerStackCriticalSection = .held t)
      (hi : s.handlerStackIndex = 1) (hin : (s.threads t).inScope = true)
      (hinst : s.installed = (s.threads t).installed)
      (hout : ∀ t', t' ≠ t → (s.threads t').inScope = false)

structure StackInv (s : CrashState) : Prop where
  stack : s.handlerStack = [.breakpad]
  scope : s.InScope
  proper : ∀ t, (s.threads t).Proper
  inRange : ∀ t, .outOfRange t ∉ s.log

variable {s s' : CrashState} {t : Thread} {p : Pc}

/-- A step of one thread, to `p`, that leaves the stack and its lock alone. -/
structure Moves (s s' : CrashState) (t : Thread) (p : Pc) : Prop where
  threads : s'.threads = Function.update s.threads t p
  stack : s'.handlerStack = s.handlerStack
  index : s'.handlerStackIndex = s.handlerStackIndex
  section_ : s'.handlerStackCriticalSection = s.handlerStackCriticalSection
  inRange : ∀ t', .outOfRange t' ∈ s'.log → .outOfRange t' ∈ s.log

theorem proper_update (h : ∀ t, (s.threads t).Proper) (hpc : p.Proper) (t : Thread) :
    ∀ t', (Function.update s.threads t p t').Proper := by
  intro t'
  by_cases ht : t' = t
  · subst ht
    rwa [Function.update_self]
  · rw [Function.update_of_ne ht]
    exact h t'

namespace StackInv

theorem moves_outside (hs : StackInv s) (hm : Moves s s' t p) (hinst : s'.installed = s.installed)
    (h : (s.threads t).inScope = false) (h' : p.inScope = false) (hpc : p.Proper) :
    StackInv s' := by
  have hout : ∀ t', (s.threads t').inScope = false → (s'.threads t').inScope = false := by
    intro t' ht'
    rw [hm.threads]
    by_cases htt : t' = t
    · rw [htt, Function.update_self, h']
    · rw [Function.update_of_ne htt, ht']
  refine ⟨hm.stack.trans hs.stack, ?_, ?_, fun t' ht' => hs.inRange t' (hm.inRange t' ht')⟩
  · rcases hs.scope with ⟨hc, hi, hin, ho⟩ | ⟨o, hc, hi, hino, hin, ho⟩
    · exact .free (hm.section_.trans hc) (hm.index.trans hi) (hinst.trans hin)
        fun t' => hout t' (ho t')
    · have hne : o ≠ t := by
        rintro rfl
        rw [hino] at h
        cases h
      have hpo : s'.threads o = s.threads o := by rw [hm.threads, Function.update_of_ne hne]
      refine .held o (hm.section_.trans hc) (hm.index.trans hi) ?_ ?_
        fun t' ht' => hout t' (ho t' ht')
      · rw [hpo, hino]
      · rw [hpo, hinst, hin]
  · rw [hm.threads]
    exact proper_update hs.proper hpc t

theorem moves_inside (hs : StackInv s) (hm : Moves s s' t p) (h : (s.threads t).inScope = true)
    (h' : p.inScope = true) (hinst : s.installed = (s.threads t).installed →
      s'.installed = p.installed) (hpc : p.Proper) : StackInv s' := by
  refine ⟨hm.stack.trans hs.stack, ?_, ?_, fun t' ht' => hs.inRange t' (hm.inRange t' ht')⟩
  · rcases hs.scope with ⟨hc, hi, hin, ho⟩ | ⟨o, hc, hi, hino, hin, ho⟩
    · rw [ho t] at h
      cases h
    · obtain rfl : t = o := by
        by_contra hne
        rw [ho t hne] at h
        cases h
      refine .held t (hm.section_.trans hc) (hm.index.trans hi) ?_ ?_ fun t' ht' => ?_
      · rw [hm.threads, Function.update_self, h']
      · rw [hm.threads, Function.update_self, hinst hin]
      · rw [hm.threads, Function.update_of_ne ht', ho t' ht']
  · rw [hm.threads]
    exact proper_update hs.proper hpc t

/-- Inside, the handlers of the process stay as they are. -/
theorem moves_installed (hs : StackInv s) (hm : Moves s s' t p)
    (hinst : s'.installed = s.installed) (h : p.inScope = (s.threads t).inScope)
    (hpi : p.inScope = true → p.installed = (s.threads t).installed) (hpc : p.Proper) :
    StackInv s' := by
  cases hin : p.inScope with
  | false => exact hs.moves_outside hm hinst (h ▸ hin) hin hpc
  | true =>
    exact hs.moves_inside hm (h ▸ hin) hin (fun hi => by rw [hinst, hi, hpi hin]) hpc

/-- The thread that enters finds the one object of the stack. -/
theorem enters (hs : StackInv s) {entry : Entry} (hpc : s.threads t = .raised entry true)
    (h : s.autoExceptionHandler t entry = some s') : StackInv s' := by
  have ht : (s.threads t).inScope = false := by rw [hpc]; rfl
  unfold autoExceptionHandler at h
  obtain ⟨c, hc, h⟩ := Option.map_eq_some_iff.mp h
  have hfree : s.handlerStackCriticalSection = .free ∨
      ∃ o, o ≠ t ∧ s.handlerStackCriticalSection = .held o := by
    rcases hs.scope with ⟨hc, -⟩ | ⟨o, hc, -, hino, -⟩
    · exact .inl hc
    · refine .inr ⟨o, ?_, hc⟩
      rintro rfl
      rw [ht] at hino
      cases hino
  obtain ⟨hfree, rfl⟩ := CriticalSection.enter_eq_some hfree hc
  rcases hs.scope with ⟨-, hi, hinst, hout⟩ | ⟨o, hheld, -⟩
  · have hat : handlerAt s.handlerStack (s.handlerStackIndex + 1) = some .breakpad := by
      rw [hs.stack, hi]
      rfl
    simp only [hat] at h
    subst h
    refine ⟨hs.stack, .held t rfl (by simp only [setThread, hi]) ?_ ?_ fun t' ht' => ?_, ?_,
      hs.inRange⟩
    · simp only [setThread, Function.update_self]
      rfl
    · simp only [setThread, Function.update_self]
      exact hinst
    · simp only [setThread, Function.update_of_ne ht', hout t']
    · exact proper_update hs.proper (p := .switching .breakpad entry 0) ⟨rfl, by omega⟩ t
  · rw [hheld] at hfree
    exact absurd hfree.symm (CriticalSection.free_ne_held o)

theorem leaves (hs : StackInv s) {action : FilterAction} {n : Nat} (hn : ¬ n < 3)
    (hpc : s.threads t = .restoring action n) :
    StackInv ({ s with
      handlerStackIndex := s.handlerStackIndex - 1
      handlerStackCriticalSection := s.handlerStackCriticalSection.leave }.setThread t
        (.returned action)) := by
  have hproper : n ≤ 3 := by
    have h := hs.proper t
    rwa [hpc] at h
  obtain rfl : n = 3 := by omega
  rcases hs.scope with ⟨-, -, -, hout⟩ | ⟨o, hc, hi, hino, hinst, hout⟩
  · have h := hout t
    rw [hpc] at h
    cases h
  · obtain rfl : t = o := by
      by_contra hne
      have h := hout t hne
      rw [hpc] at h
      cases h
    refine ⟨hs.stack, .free ?_ ?_ ?_ fun t' => ?_, ?_, hs.inRange⟩
    · simp only [setThread, hc, CriticalSection.leave_held]
    · simp only [setThread, hi]
    · simp only [setThread, hinst, hpc]
      rfl
    · by_cases ht : t' = t
      · simp only [setThread, ht, Function.update_self]
        rfl
      · simp only [setThread, Function.update_of_ne ht, hout t' ht]
    · exact proper_update hs.proper (p := .returned action) trivial t

end StackInv

theorem moves_setThread (s : CrashState) (t : Thread) (p : Pc) : Moves s (s.setThread t p) t p :=
  ⟨rfl, rfl, rfl, rfl, fun _ h => h⟩

theorem moves_setHandler (s : CrashState) (t : Thread) (p : Pc) (h : HandlerId)
    (o : ExceptionHandler) : Moves s ((s.setHandler h o).setThread t p) t p :=
  ⟨rfl, rfl, rfl, rfl, fun _ h => h⟩

theorem moves_record (s : CrashState) (t : Thread) (p : Pc) (h : HandlerId) (o : ExceptionHandler)
    {e : CrashEvent} (he : ∀ t', e ≠ .outOfRange t') :
    Moves s (((s.setHandler h o).record e).setThread t p) t p := by
  refine ⟨rfl, rfl, rfl, rfl, fun t' ht' => ?_⟩
  rcases List.mem_append.mp ht' with ht' | ht'
  · exact ht'
  · exact absurd (List.mem_singleton.mp ht').symm (he t')

/-- Where a step of `write` leads: the scope stays, and the handlers of the process too. -/
structure WriteTo (h : HandlerId) (entry : Option Entry) (p : Pc) : Prop where
  inScope : p.inScope = entry.isSome
  installed : p.inScope = true → p.installed = .all false
  proper : (Pc.writing h entry .entering).Proper → p.Proper

theorem writeTo_writing (h : HandlerId) (entry : Option Entry) (call : Call) :
    WriteTo h entry (.writing h entry call) := by
  cases entry <;> exact ⟨rfl, fun _ => rfl, id⟩

theorem writeTo_afterDump (h : HandlerId) (o : ExceptionHandler) (previous : FilterAction)
    (status : Bool) (entry : Entry) :
    WriteTo h (some entry) (afterDump o previous status entry) := by
  cases entry with
  | handleException => exact ⟨rfl, fun _ => rfl, fun _ => Nat.zero_le 3⟩
  | handleInvalidParameter => exact ⟨rfl, fun _ => rfl, fun _ => trivial⟩
  | handlePureVirtualCall =>
    rw [afterDump]
    split
    · exact ⟨rfl, fun _ => rfl, fun _ => trivial⟩
    · exact ⟨rfl, fun _ => rfl, fun _ => Nat.zero_le 3⟩

theorem moves_write {h : HandlerId} {entry : Option Entry} {uuid : Nat} {previous : FilterAction}
    {call : Call} (hs : s.write t h entry uuid previous call = some s') :
    ∃ p, Moves s s' t p ∧ s'.installed = s.installed ∧ WriteTo h entry p := by
  cases call with
  | entering =>
    obtain ⟨c, -, hs⟩ := Option.map_eq_some_iff.mp hs
    simp only at hs
    split at hs
    · subst hs
      exact ⟨_, moves_setHandler .., rfl, writeTo_writing ..⟩
    · subst hs
      exact ⟨_, moves_setHandler .., rfl, writeTo_writing ..⟩
  | preparing =>
    cases hs
    exact ⟨_, moves_setHandler .., rfl, writeTo_writing ..⟩
  | starting =>
    cases hs
    exact ⟨_, moves_record _ _ _ _ _ (by simp), rfl, writeTo_writing ..⟩
  | waiting =>
    obtain ⟨-, rfl⟩ := Machine.guard_eq_some hs
    exact ⟨_, moves_setHandler .., rfl, writeTo_writing ..⟩
  | collecting =>
    cases hs
    exact ⟨_, moves_record _ _ _ _ _ (by simp), rfl, writeTo_writing ..⟩
  | done status =>
    cases entry with
    | some entry =>
      cases hs
      exact ⟨_, moves_setThread .., rfl, writeTo_afterDump ..⟩
    | none =>
      cases hs
      exact ⟨_, moves_record _ _ _ _ _ (by simp), rfl, rfl, (fun h => by cases h),
        fun _ => trivial⟩

theorem handle_inScope (o : ExceptionHandler) (previous : FilterAction) (entry : Entry) :
    (handle o .breakpad previous entry).inScope = true ∧
      (handle o .breakpad previous entry).installed = .all false ∧
      (handle o .breakpad previous entry).Proper := by
  cases entry with
  | handleException code =>
    rw [handle]
    split
    · exact ⟨rfl, rfl, Nat.zero_le 3⟩
    · split
      · exact ⟨rfl, rfl, rfl⟩
      · exact ⟨rfl, rfl, Nat.zero_le 3⟩
  | handleInvalidParameter | handlePureVirtualCall => exact ⟨rfl, rfl, rfl⟩

theorem StackInv.advance (hs : StackInv s) {uuid : Nat} {previous : FilterAction}
    (h : s.advance t uuid previous = some s') : StackInv s' := by
  unfold CrashState.advance at h
  have hproper := hs.proper t
  split at h
  · cases h
  next _ hpc =>
    cases h
    exact hs.moves_outside (moves_setThread ..) rfl (by rw [hpc]; rfl) rfl trivial
  next hpc => exact hs.enters hpc h
  next h' entry n hpc =>
    rw [hpc] at hproper
    split at h
    next hn =>
      cases h
      refine hs.moves_inside (p := .switching h' entry (n + 1))
        ⟨rfl, rfl, rfl, rfl, fun _ h => h⟩ (by rw [hpc]; rfl) rfl (fun hinst => ?_) ⟨hproper.1, hn⟩
      simp only [setThread, hinst, hpc, Pc.installed, Installed.set_first n hn]
    next hn =>
      cases h
      refine hs.moves_inside (moves_setThread ..) (by rw [hpc]; rfl) rfl (fun hinst => ?_) hproper.1
      have hn3 : n ≤ 3 := hproper.2
      obtain rfl : n = 3 := by omega
      simp only [setThread, hinst, hpc]
      rfl
  next h' entry hpc =>
    rw [hpc] at hproper
    obtain rfl : h' = .breakpad := hproper
    obtain ⟨hin, hinst, hprop⟩ := handle_inScope (s.handlers .breakpad) previous entry
    cases h
    refine hs.moves_inside (moves_setThread ..) (by rw [hpc]; rfl) hin (fun hi => ?_) hprop
    rw [hinst]
    simp only [setThread, hi, hpc]
    rfl
  next h' entry call hpc =>
    rw [hpc] at hproper
    obtain ⟨p, hm, hinst, hw⟩ := moves_write h
    refine hs.moves_installed hm hinst ?_ (fun hin => ?_) (hw.proper ?_)
    · rw [hw.inScope, hpc]
      cases entry <;> rfl
    · rw [hw.installed hin, hpc]
      rfl
    · cases entry <;> exact hproper
  next action n hpc =>
    rw [hpc] at hproper
    split at h
    next hn =>
      cases h
      refine hs.moves_inside (p := .restoring action (n + 1)) ⟨rfl, rfl, rfl, rfl, fun _ h => h⟩
        (by rw [hpc]; rfl) rfl (fun hinst => ?_) hn
      simp only [setThread, hinst, hpc, Pc.installed, Installed.set_first n hn]
    next hn =>
      cases h
      exact hs.leaves hn hpc
  next action hpc =>
    split at h
    · cases h
      exact hs.moves_outside (moves_setThread ..) rfl (by rw [hpc]; rfl) rfl trivial
    · cases h
      exact hs.moves_installed (t := t) ⟨by simp, rfl, rfl, rfl, fun _ h => h⟩ rfl rfl
        (fun _ => rfl) hproper
  · cases h
    exact hs.moves_installed (t := t) ⟨by simp, rfl, rfl, rfl, fun _ h => h⟩ rfl rfl
      (fun _ => rfl) hproper

theorem moves_serve {h : HandlerId} {created written : Bool}
    (hs : s.serve h created written = some s') :
    Moves s s' t (s.threads t) ∧ s'.installed = s.installed := by
  have hrec {o : ExceptionHandler} {e : CrashEvent} {s₁ : CrashState}
      (h₁ : s₁.log = ((s.setHandler h o).record e).log) (he : ∀ t', e ≠ .outOfRange t')
      (t' : Thread) (ht' : .outOfRange t' ∈ s₁.log) : .outOfRange t' ∈ s.log :=
    (moves_record s t .running h o he).inRange t' (h₁ ▸ ht')
  unfold serve at hs
  simp only at hs
  split at hs
  · cases hs
  · cases hs
  · obtain ⟨-, rfl⟩ := Machine.guard_eq_some hs
    exact ⟨⟨by simp [setHandler], rfl, rfl, rfl, fun _ h => h⟩, rfl⟩
  · split at hs
    · cases hs
      exact ⟨⟨by simp [setHandler, record], rfl, rfl, rfl, hrec rfl (by simp)⟩, rfl⟩
    · cases hs
      exact ⟨⟨by simp [setHandler], rfl, rfl, rfl, fun _ h => h⟩, rfl⟩
  · cases hs
    exact ⟨⟨by simp [setHandler, record], rfl, rfl, rfl, hrec rfl (by simp)⟩, rfl⟩
  · cases hs
    exact ⟨⟨by simp [setHandler, record], rfl, rfl, rfl, hrec rfl (by simp)⟩, rfl⟩
  · cases hs
    exact ⟨⟨by simp [setHandler], rfl, rfl, rfl, fun _ h => h⟩, rfl⟩

theorem StackInv.step (hs : StackInv s) {a : CrashAction} (h : s.step a = some s') :
    StackInv s' := by
  unfold CrashState.step at h
  split at h
  · cases h
  · have hflag (t : Thread) (x : HandlerId) (o : ExceptionHandler) : StackInv (s.setHandler x o) :=
      hs.moves_installed (t := t) ⟨by simp [setHandler], rfl, rfl, rfl, fun _ h => h⟩ rfl rfl
        (fun _ => rfl) (hs.proper t)
    cases a with
    | raise t entry =>
      obtain ⟨hr, rfl⟩ := Machine.guard_eq_some h
      have hpc : s.threads t = .running := by
        simp only [canRaise, Bool.and_eq_true, decide_eq_true_eq] at hr
        exact hr.1
      exact hs.moves_outside (moves_setThread ..) rfl (by rw [hpc]; rfl) rfl trivial
    | dumpProcessWithoutCrash n =>
      obtain ⟨hpc, rfl⟩ := Machine.guard_eq_some h
      exact hs.moves_outside (moves_setThread ..) rfl (by rw [hpc]; rfl) rfl rfl
    | advance t uuid previous => exact hs.advance h
    | serve x created written =>
      obtain ⟨hm, hinst⟩ := moves_serve (t := .handler x) (Option.ite_none_right_eq_some.mp h).2
      exact hs.moves_installed hm hinst rfl (fun _ => rfl) (hs.proper _)
    | setHandleDebugExceptions x b =>
      cases h
      exact hflag (.handler x) x _
    | setConsumeInvalidHandleExceptions x b =>
      cases h
      exact hflag (.handler x) x _

theorem stackInv (h : crashMachine.Reachable s) : StackInv s := by
  refine h.invariant (I := StackInv) (fun s hi => ?_) fun s a s' hs _ hst => hs.step hst
  refine ⟨hi.handlerStack, .free hi.handlerStackFree hi.handlerStackIndex hi.installed fun t => ?_,
    fun t => ?_, fun t => ?_⟩
  · rw [hi.threads]
    rfl
  · rw [hi.threads]
    trivial
  · simp [hi.log]

/-- **One thread at a time handles an exception**: no other is between the constructor and the
destructor of an `AutoExceptionHandler`, `at` never throws, and while the exception is handed over
the handlers of the process are the previous ones. -/
theorem handlers_exclusive (h : crashMachine.Reachable s) :
    (∀ t t', (s.threads t).inScope = true → (s.threads t').inScope = true → t = t') ∧
      (∀ t, .outOfRange t ∉ s.log) ∧
      ((∀ t, (s.threads t).inScope = false) → s.handlerStackIndex = 0 ∧ s.installed = .all true) ∧
      ∀ t x entry call, s.threads t = .writing x (some entry) call →
        x = .breakpad ∧ s.handlerStackIndex = 1 ∧ s.installed = .all false := by
  have hs := stackInv h
  refine ⟨fun t t' ht ht' => ?_, hs.inRange, fun hout => ?_, fun t x entry call hpc => ?_⟩
  · rcases hs.scope with ⟨-, -, -, hout⟩ | ⟨o, -, -, -, -, hout⟩
    · rw [hout t] at ht
      cases ht
    · have hone (u : Thread) (hu : (s.threads u).inScope = true) : u = o := by
        by_contra hne
        rw [hout u hne] at hu
        cases hu
      rw [hone t ht, hone t' ht']
  · rcases hs.scope with ⟨-, hi, hinst, -⟩ | ⟨o, -, -, hino, -⟩
    · exact ⟨hi, hinst⟩
    · rw [hout o] at hino
      cases hino
  · have hproper := hs.proper t
    rw [hpc] at hproper
    have hin : (s.threads t).inScope = true := by
      rw [hpc]
      rfl
    rcases hs.scope with ⟨-, -, -, hout⟩ | ⟨o, -, hi, -, hinst, hout⟩
    · rw [hout t] at hin
      cases hin
    · obtain rfl : t = o := by
        by_contra hne
        rw [hout t hne] at hin
        cases hin
      exact ⟨hproper, hi, by rw [hinst, hpc]; rfl⟩

theorem handlers_exclusive_two : ∃ s, crashMachine.Reachable s ∧
    (s.threads (.app 0) = .writing .breakpad (some .handlePureVirtualCall) .entering ∧
      s.threads (.app 1) = .raised .handleInvalidParameter true) ∧
        s.handlerStackIndex = 1 ∧ s.installed = .all false := by
  obtain ⟨s, hr, hp⟩ := Machine.exists_reachable (M := crashMachine) crashStart_initial
    ([.raise (.app 0) .handlePureVirtualCall, .raise (.app 1) .handleInvalidParameter] ++
      List.replicate 6 (.advance (.app 0) 0 .continueSearch))
    (p := fun s => decide (s.threads (.app 0) =
        .writing .breakpad (some .handlePureVirtualCall) .entering ∧
      s.threads (.app 1) = .raised .handleInvalidParameter true)) (by decide)
  have hp := of_decide_eq_true hp
  exact ⟨s, hr, hp, ((handlers_exclusive hr).2.2.2 _ _ _ _ hp.1).2⟩

end CrashState

end Mdgate.Crash
