import Mdgate.Crash.HandlerStack
import Mdgate.Crash.Handshake

/-!
# One crash is reported

`FilterCallback` lets one crash of the process through. Its dump is made and `DumpDoneCallback`
is called for it; every thread that asks `g_breakpad` for a dump afterwards waits for ever, because
the handler thread sleeps.
-/

namespace Mdgate.Crash

open Mdgate.Lib

namespace CrashEvent

def crashApproved : CrashEvent → Bool
  | approved .breakpad _ => true
  | _ => false

def crashCalledBack : CrashEvent → Bool
  | calledBack .breakpad .. => true
  | _ => false

def crashDumped : CrashEvent → Bool
  | dumped .breakpad .. => true
  | _ => false

def byHandler : CrashEvent → Bool
  | approved .. | dumped .. | calledBack .. => true
  | _ => false

end CrashEvent

namespace CrashState

variable {s s' : CrashState} {t : Thread} {h : HandlerId}

/-- What the step of a thread in a handler leaves alone. -/
structure ThreadStep (s s' : CrashState) (t : Thread) : Prop where
  handlingException : s'.handlingException = s.handlingException
  files : s'.files = s.files
  threads : ∀ t', t' ≠ t → s'.threads t' = s.threads t'
  handlerThread : ∀ h, (s'.handlers h).handlerThread = (s.handlers h).handlerThread
  log : ∃ l, s'.log = s.log ++ l ∧ ∀ e ∈ l, e.byHandler = false

/-- The objects, but for fields of one of them. -/
def SameThreads (s s' : CrashState) : Prop :=
  s'.handlers = s.handlers ∨ ∃ x o, s'.handlers = Function.update s.handlers x o ∧
    o.handlerThread = (s.handlers x).handlerThread

theorem SameThreads.handlerThread (hs : SameThreads s s') (h : HandlerId) :
    (s'.handlers h).handlerThread = (s.handlers h).handlerThread := by
  obtain hs | ⟨x, o, hs, ho⟩ := hs
  · rw [hs]
  · rw [hs]
    by_cases hx : h = x
    · rw [hx, Function.update_self, ho]
    · rw [Function.update_of_ne hx]

theorem threadStep_quiet (hh : s'.handlingException = s.handlingException)
    (hf : s'.files = s.files) {pc : Pc} (ht : s'.threads = Function.update s.threads t pc)
    (ho : SameThreads s s') (hl : s'.log = s.log) : ThreadStep s s' t :=
  ⟨hh, hf, fun t' ht' => by rw [ht, Function.update_of_ne ht'], ho.handlerThread, [], by simp [hl],
    by simp⟩

theorem threadStep_record (hh : s'.handlingException = s.handlingException)
    (hf : s'.files = s.files) {pc : Pc} (ht : s'.threads = Function.update s.threads t pc)
    (ho : SameThreads s s') {e : CrashEvent} (hl : s'.log = s.log ++ [e])
    (he : e.byHandler = false) : ThreadStep s s' t :=
  ⟨hh, hf, fun t' ht' => by rw [ht, Function.update_of_ne ht'], ho.handlerThread, [e], hl,
    by simpa using he⟩

theorem threadStep_write {entry : Option Entry} {uuid : Nat} {previous : FilterAction} {call : Call}
    (hst : s.write t h entry uuid previous call = some s') : ThreadStep s s' t := by
  cases call with
  | entering =>
    obtain ⟨c, -, hst⟩ := Option.map_eq_some_iff.mp hst
    simp only at hst
    split at hst
    · subst hst
      exact threadStep_quiet rfl rfl rfl (.inr ⟨_, _, rfl, rfl⟩) rfl
    · subst hst
      exact threadStep_quiet rfl rfl rfl (.inr ⟨_, _, rfl, rfl⟩) rfl
  | preparing =>
    cases hst
    exact threadStep_quiet rfl rfl rfl (.inr ⟨_, _, rfl, rfl⟩) rfl
  | starting =>
    cases hst
    exact threadStep_record rfl rfl rfl (.inr ⟨_, _, rfl, rfl⟩) rfl rfl
  | waiting =>
    obtain ⟨-, rfl⟩ := Machine.guard_eq_some hst
    exact threadStep_quiet rfl rfl rfl (.inr ⟨_, _, rfl, rfl⟩) rfl
  | collecting =>
    cases hst
    exact threadStep_record rfl rfl rfl (.inr ⟨_, _, rfl, rfl⟩) rfl rfl
  | done status =>
    cases entry with
    | some entry =>
      cases hst
      exact threadStep_quiet rfl rfl rfl (.inl rfl) rfl
    | none =>
      cases hst
      exact threadStep_record rfl rfl rfl (.inr ⟨_, _, rfl, rfl⟩) rfl rfl

theorem threadStep_advance {uuid : Nat} {previous : FilterAction}
    (hst : s.advance t uuid previous = some s') : ThreadStep s s' t := by
  have hend : ThreadStep s { s with ended := true } t :=
    ⟨rfl, rfl, fun _ _ => rfl, fun _ => rfl, [], by simp, by simp⟩
  unfold CrashState.advance at hst
  split at hst
  · cases hst
  · cases hst
    exact threadStep_quiet rfl rfl rfl (.inl rfl) rfl
  · obtain ⟨c, -, hst⟩ := Option.map_eq_some_iff.mp hst
    simp only at hst
    split at hst
    · subst hst
      exact threadStep_quiet rfl rfl rfl (.inl rfl) rfl
    · subst hst
      exact threadStep_record rfl rfl rfl (.inl rfl) rfl rfl
  · split at hst
    · cases hst
      exact threadStep_quiet rfl rfl rfl (.inl rfl) rfl
    · cases hst
      exact threadStep_quiet rfl rfl rfl (.inl rfl) rfl
  · cases hst
    exact threadStep_quiet rfl rfl rfl (.inl rfl) rfl
  · exact threadStep_write hst
  · split at hst
    · cases hst
      exact threadStep_quiet rfl rfl rfl (.inl rfl) rfl
    · cases hst
      exact threadStep_quiet rfl rfl rfl (.inl rfl) rfl
  · split at hst
    · cases hst
      exact threadStep_quiet rfl rfl rfl (.inl rfl) rfl
    · cases hst
      exact hend
  · cases hst
    exact hend

/-! ## What `FilterCallback` lets through -/

theorem countP_byHandler {l : List CrashEvent} (h : ∀ e ∈ l, e.byHandler = false) :
    l.countP CrashEvent.crashApproved = 0 := by
  refine List.countP_eq_zero.mpr fun e he => ?_
  have hb := h e he
  cases e <;> simp_all [CrashEvent.byHandler, CrashEvent.crashApproved]

/-- Exactly the crashes before the flag is set. -/
def CountsApproved (s : CrashState) : Prop :=
  s.log.countP CrashEvent.crashApproved = if s.handlingException then 1 else 0

theorem CountsApproved.serve (hs : CountsApproved s) {created written : Bool}
    (hst : s.serve h created written = some s') : CountsApproved s' := by
  unfold CountsApproved at hs ⊢
  unfold CrashState.serve at hst
  simp only at hst
  split at hst
  · cases hst
  · cases hst
  · obtain ⟨-, rfl⟩ := Machine.guard_eq_some hst
    exact hs
  next r _ =>
    split at hst
    next hf =>
      cases hst
      cases h with
      | breakpad =>
        have hflag : s.handlingException = false := by simpa [filterCallback] using hf
        simp [record, setHandler, hflag, CrashEvent.crashApproved, hs]
      | dumphandlerNoCrash =>
        have hflag : (s.handlingException || decide (HandlerId.dumphandlerNoCrash = .breakpad)) =
            s.handlingException := Bool.or_false _
        simp only [record, setHandler, hflag, List.countP_append]
        exact hs
    · cases hst
      exact hs
  · cases hst
    simp only [record, setHandler, List.countP_append]
    exact hs
  · cases hst
    simp only [record, setHandler, List.countP_append]
    exact hs
  · cases hst
    exact hs

theorem CountsApproved.step (hs : CountsApproved s) {a : CrashAction} (hst : s.step a = some s') :
    CountsApproved s' := by
  unfold CrashState.step at hst
  split at hst
  · cases hst
  · cases a with
    | raise t entry =>
      obtain ⟨-, rfl⟩ := Machine.guard_eq_some hst
      exact hs
    | dumpProcessWithoutCrash n =>
      obtain ⟨-, rfl⟩ := Machine.guard_eq_some hst
      exact hs
    | advance t uuid previous =>
      obtain ⟨hh, -, -, -, l, hl, hq⟩ := threadStep_advance hst
      unfold CountsApproved at hs ⊢
      rw [hl, List.countP_append, countP_byHandler hq, hh, hs, Nat.add_zero]
    | serve x created written => exact hs.serve (Option.ite_none_right_eq_some.mp hst).2
    | setHandleDebugExceptions x b | setConsumeInvalidHandleExceptions x b =>
      cases hst
      exact hs

theorem countsApproved (hs : crashMachine.Reachable s) : CountsApproved s := by
  refine hs.invariant (I := CountsApproved) (fun s hi => ?_) fun s a s' hs _ hst => hs.step hst
  rw [CountsApproved, hi.log, hi.handlingException]
  rfl

/-! ## One dump -/

theorem crashApproved_exchange (e : CrashEvent) (he : e.crashApproved = true) :
    e.exchange .breakpad = true := by
  cases e with
  | approved h r => cases h <;> simp_all [CrashEvent.crashApproved, CrashEvent.exchange]
  | _ => cases he

theorem crashDumped_exchange (e : CrashEvent) (he : e.crashDumped = true) :
    e.exchange .breakpad = true := by
  cases e with
  | dumped h => cases h <;> simp_all [CrashEvent.crashDumped, CrashEvent.exchange]
  | _ => cases he

theorem crashCalledBack_exchange (e : CrashEvent) (he : e.crashCalledBack = true) :
    e.exchange .breakpad = true := by
  cases e with
  | calledBack h => cases h <;> simp_all [CrashEvent.crashCalledBack, CrashEvent.exchange]
  | _ => cases he

/-- A dump is made and reported only after the filter has let it through. -/
def FilterFirst (l : List CrashEvent) : Prop :=
  l.countP CrashEvent.crashDumped ≤ l.countP CrashEvent.crashApproved ∧
    l.countP CrashEvent.crashCalledBack ≤ l.countP CrashEvent.crashApproved

theorem isRound_filterFirst {l : List CrashEvent} (hl : IsRound .breakpad l) : FilterFirst l := by
  obtain ⟨r, id, e, ok, rfl⟩ := hl
  exact ⟨Nat.le_refl 1, Nat.le_refl 1⟩

theorem exchange_filterFirst {r : Request} {o : ExceptionHandler} {call : Call}
    {part : List CrashEvent} (hex : Exchange .breakpad r o call part) : FilterFirst part := by
  cases hex with
  | preparing | starting | requested | filter | asleep => exact ⟨Nat.le_refl 0, Nat.le_refl 0⟩
  | writeMinidump => exact ⟨Nat.zero_le 1, Nat.zero_le 1⟩
  | callback => exact ⟨Nat.le_refl 1, Nat.zero_le 1⟩
  | releasing | finished | collecting => exact ⟨Nat.le_refl 1, Nat.le_refl 1⟩

theorem filterFirst (hs : crashMachine.Reachable s) : FilterFirst s.log := by
  obtain ⟨part, hlog, hpart⟩ : ∃ part, Rounds .breakpad s.log part ∧ FilterFirst part := by
    cases handshake hs .breakpad with
    | free _ _ _ hlog => exact ⟨[], hlog, Nat.le_refl 0, Nat.le_refl 0⟩
    | held t entry call part _ _ _ hex hlog => exact ⟨part, hlog, exchange_filterFirst hex⟩
  exact ⟨hlog.countP_le crashDumped_exchange crashApproved_exchange
      (fun r hr => (isRound_filterFirst hr).1) hpart.1,
    hlog.countP_le crashCalledBack_exchange crashApproved_exchange
      (fun r hr => (isRound_filterFirst hr).2) hpart.2⟩

theorem countP_crashApproved_le (hs : crashMachine.Reachable s) :
    s.log.countP CrashEvent.crashApproved ≤ 1 := by
  rw [countsApproved hs]
  split <;> omega

/-! ## The threads that wait for ever -/

theorem threads_step (hpc : s.threads t ≠ .running) {a : CrashAction}
    (ha : ∀ uuid previous, a ≠ .advance t uuid previous) (hst : s.step a = some s') :
    s'.threads t = s.threads t := by
  unfold CrashState.step at hst
  split at hst
  · cases hst
  · cases a with
    | raise t' entry =>
      obtain ⟨hr, rfl⟩ := Machine.guard_eq_some hst
      simp only [canRaise, Bool.and_eq_true, decide_eq_true_eq] at hr
      have hne : t ≠ t' := by
        rintro rfl
        exact hpc hr.1
      exact Function.update_of_ne hne ..
    | dumpProcessWithoutCrash n =>
      obtain ⟨hr, rfl⟩ := Machine.guard_eq_some hst
      have hne : t ≠ .app n := by
        rintro rfl
        exact hpc hr
      exact Function.update_of_ne hne ..
    | advance t' uuid previous =>
      exact (threadStep_advance hst).threads t fun htt => ha uuid previous (by rw [htt])
    | serve x created written =>
      obtain ⟨hm, -⟩ := moves_serve (t := t) (Option.ite_none_right_eq_some.mp hst).2
      rw [hm.threads, Function.update_eq_self]
    | setHandleDebugExceptions x b | setConsumeInvalidHandleExceptions x b =>
      cases hst
      rfl

theorem log_serve {created written : Bool} (hst : s.serve h created written = some s') :
    ∃ l, s'.log = s.log ++ l ∧ ∀ e ∈ l, e.byHandler = true := by
  unfold CrashState.serve at hst
  simp only at hst
  split at hst
  · cases hst
  · cases hst
  · obtain ⟨-, rfl⟩ := Machine.guard_eq_some hst
    exact ⟨[], (List.append_nil _).symm, by simp⟩
  · split at hst
    · cases hst
      exact ⟨_, rfl, by simp [CrashEvent.byHandler]⟩
    · cases hst
      exact ⟨[], (List.append_nil _).symm, by simp⟩
  · cases hst
    exact ⟨_, rfl, by simp [CrashEvent.byHandler]⟩
  · cases hst
    exact ⟨_, rfl, by simp [CrashEvent.byHandler]⟩
  · cases hst
    exact ⟨[], (List.append_nil _).symm, by simp⟩

theorem log_step {a : CrashAction} (hst : s.step a = some s') :
    ∃ l, s'.log = s.log ++ l ∧ ((∀ e ∈ l, e.byHandler = true) ∨
      ∃ t uuid previous, a = .advance t uuid previous) := by
  obtain ⟨-, hst⟩ := Option.ite_none_left_eq_some.mp hst
  cases a with
  | raise t' entry | dumpProcessWithoutCrash n =>
    obtain ⟨-, rfl⟩ := Machine.guard_eq_some hst
    exact ⟨[], (List.append_nil _).symm, .inl (by simp)⟩
  | advance t uuid previous =>
    obtain ⟨-, -, -, -, l, hl, -⟩ := threadStep_advance hst
    exact ⟨l, hl, .inr ⟨t, uuid, previous, rfl⟩⟩
  | serve x created written =>
    obtain ⟨l, hl, hb⟩ := log_serve (Option.ite_none_right_eq_some.mp hst).2
    exact ⟨l, hl, .inl hb⟩
  | setHandleDebugExceptions x b | setConsumeInvalidHandleExceptions x b =>
    cases hst
    exact ⟨[], (List.append_nil _).symm, .inl (by simp)⟩

/-- Once a crash has been answered the handler thread does not release a thread that waits. -/
theorem waiting_blocked (hs : crashMachine.Reachable s) {t₀ : Thread} {status : Bool}
    (hans : .answered .breakpad t₀ status ∈ s.log) {entry : Option Entry}
    (hpc : s.threads t = .writing .breakpad entry .waiting) (uuid : Nat)
    (previous : FilterAction) : s.advance t uuid previous = none := by
  obtain ⟨part, -, -, hex, hlog⟩ :=
    (handshake hs .breakpad).of_within (t := t) (by rw [hpc]; rfl)
  have hnot : .answered .breakpad t₀ status ∉ part := by cases hex <;> simp
  obtain ⟨round, ⟨r, id, e, ok, rfl⟩, -, -, hcount⟩ := hlog.exists_round hans
    (by simp [CrashEvent.exchange]) hnot crashApproved_exchange
  have hone := hcount.trans (countP_crashApproved_le hs)
  have hround : 1 + part.countP CrashEvent.crashApproved ≤ 1 := hone
  have hfinish : (s.handlers .breakpad).handlerFinishSemaphore = 0 := by
    cases hex with
    | requested _ ha | filter ha | asleep ha | writeMinidump ha | callback _ _ _ ha
    | releasing _ _ _ _ ha => exact ha.2.1
    | finished id e ok _ ha =>
      have h1 : 1 + 1 ≤ 1 := hround
      omega
  rw [CrashState.advance, hpc]
  simp [write, hfinish]

/-- **One crash is dumped and reported**, so that a crash starts one process at most; every thread
that asks `g_breakpad` for a dump afterwards waits for ever. -/
theorem crash_once (hs : crashMachine.Reachable s) :
    s.log.countP CrashEvent.crashDumped ≤ 1 ∧ s.log.countP CrashEvent.crashCalledBack ≤ 1 ∧
      ∀ t₀ status, .answered .breakpad t₀ status ∈ s.log →
        ∀ t entry, s.threads t = .writing .breakpad entry .waiting →
          ∀ s', crashMachine.Leads s s' → s'.threads t = .writing .breakpad entry .waiting := by
  refine ⟨(filterFirst hs).1.trans (countP_crashApproved_le hs),
    (filterFirst hs).2.trans (countP_crashApproved_le hs), ?_⟩
  rintro t₀ status hans t entry hpc s' ⟨as, has⟩
  induction as generalizing s with
  | nil =>
    cases has
    exact hpc
  | cons a as ih =>
    obtain ⟨s₁, hst, has⟩ := Option.bind_eq_some_iff.mp has
    obtain ⟨l, hl, -⟩ := log_step hst
    refine ih (hs.step trivial hst) (hl ▸ List.mem_append_left l hans) ?_ has
    rw [threads_step (by rw [hpc]; simp) ?_ hst, hpc]
    rintro uuid previous rfl
    have hst : s.advance t uuid previous = some s₁ := (Option.ite_none_left_eq_some.mp hst).2
    rw [waiting_blocked hs hans hpc] at hst
    cases hst

theorem crash_once_second : ∃ s, crashMachine.Reachable s ∧
    s.log.countP CrashEvent.crashCalledBack ≤ 1 ∧
      s.threads (.app 1) = .writing .breakpad (some .handlePureVirtualCall) .waiting ∧
        ∀ s', crashMachine.Leads s s' → s'.threads (.app 1) =
          .writing .breakpad (some .handlePureVirtualCall) .waiting := by
  obtain ⟨s, hr, hp⟩ := Machine.exists_reachable (M := crashMachine) crashStart_initial
    ([.raise (.app 0) (.handleException 0xC0000005), .raise (.app 1) .handlePureVirtualCall] ++
      List.replicate 9 (.advance (.app 0) 2 .continueSearch) ++
      List.replicate 5 (.serve .breakpad true true) ++
      List.replicate 7 (.advance (.app 0) 2 .continueSearch) ++
      List.replicate 9 (.advance (.app 1) 2 .continueSearch))
    (p := fun s => decide (.answered .breakpad (.app 0) true ∈ s.log ∧ s.threads (.app 1) =
      .writing .breakpad (some .handlePureVirtualCall) .waiting)) (by decide)
  have hp := of_decide_eq_true hp
  obtain ⟨-, hback, hwait⟩ := crash_once hr
  exact ⟨s, hr, hback, hp.2, hwait _ _ hp.1 _ _ hp.2⟩

end CrashState

end Mdgate.Crash
