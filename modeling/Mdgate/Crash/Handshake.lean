import Mdgate.Crash.ExceptionHandler
import Mdgate.Lib.Log

/-!
# The handler thread

A thread that wants a dump and the handler thread of the object hand the turn over by two
semaphores, under `handler_critical_section_`. `Exchange` lists the states of one such exchange,
and with them what has happened since it began.
-/

namespace Mdgate.Crash

open Mdgate.Lib

/-- The events of the exchanges with the handler thread of `h`. -/
def CrashEvent.exchange (h : HandlerId) : CrashEvent → Bool
  | requested h' _ | approved h' _ | dumped h' .. | calledBack h' .. | answered h' .. => h' = h
  | renamed .. | outOfRange _ => false

def IsRound (h : HandlerId) (l : List CrashEvent) : Prop :=
  ∃ (r : Request) (id : Nat) (exists_ success : Bool),
    l = [.requested h r, .approved h (some r), .dumped h (some r) id exists_ success,
      .calledBack h (some r) success, .answered h r.requestingThread true]

/-- The log is complete rounds, and then `part` of one. -/
abbrev Rounds (h : HandlerId) (log part : List CrashEvent) : Prop :=
  Log.Rounds (CrashEvent.exchange h) (IsRound h) log part

/-- The call of a thread that owns `handler_critical_section_` of `h`. -/
def Pc.within (h : HandlerId) : Pc → Option (Option Entry × Call)
  | writing h' entry call => if h' = h ∧ call.inside = true then some (entry, call) else none
  | _ => none

theorem within_eq_some {h : HandlerId} {pc : Pc} {entry : Option Entry} {call : Call}
    (hin : pc.within h = some (entry, call)) :
    pc = .writing h entry call ∧ call.inside = true := by
  unfold Pc.within at hin
  split at hin
  · obtain ⟨⟨hx, hc⟩, heq⟩ := Machine.guard_eq_some hin
    obtain ⟨rfl, rfl⟩ := Prod.mk.inj heq
    exact ⟨by rw [hx], hc⟩
  · cases hin

/-- The two semaphores, and where the handler thread is. -/
def ExceptionHandler.At (o : ExceptionHandler) (start finish : Nat) (pc : HandlerThread) : Prop :=
  o.handlerStartSemaphore = start ∧ o.handlerFinishSemaphore = finish ∧ o.handlerThread = pc

/-- The states of an exchange about `r`, with what has happened in it. -/
inductive Exchange (h : HandlerId) (r : Request) (o : ExceptionHandler) :
    Call → List CrashEvent → Prop where
  | preparing : o.At 0 0 .waiting → Exchange h r o .preparing []
  | starting : o.request = some r → o.At 0 0 .waiting → Exchange h r o .starting []
  | requested : o.request = some r → o.At 1 0 .waiting →
      Exchange h r o .waiting [.requested h r]
  | filter : o.At 0 0 (.filter (some r)) → Exchange h r o .waiting [.requested h r]
  | asleep : o.At 0 0 .asleep → Exchange h r o .waiting [.requested h r]
  | writeMinidump : o.At 0 0 (.writeMinidump (some r)) →
      Exchange h r o .waiting [.requested h r, .approved h (some r)]
  | callback (id : Nat) (exists_ success : Bool) : o.At 0 0 (.callback (some r) success) →
      Exchange h r o .waiting [.requested h r, .approved h (some r),
        .dumped h (some r) id exists_ success]
  | releasing (id : Nat) (exists_ success : Bool) : o.handlerReturnValue = true →
      o.At 0 0 .releasing →
      Exchange h r o .waiting [.requested h r, .approved h (some r),
        .dumped h (some r) id exists_ success, .calledBack h (some r) success]
  | finished (id : Nat) (exists_ success : Bool) : o.handlerReturnValue = true →
      o.At 0 1 .waiting →
      Exchange h r o .waiting [.requested h r, .approved h (some r),
        .dumped h (some r) id exists_ success, .calledBack h (some r) success]
  | collecting (id : Nat) (exists_ success : Bool) : o.handlerReturnValue = true →
      o.At 0 0 .waiting →
      Exchange h r o .collecting [.requested h r, .approved h (some r),
        .dumped h (some r) id exists_ success, .calledBack h (some r) success]

/-- The fields that an exchange is about. -/
structure SameExchange (o o' : ExceptionHandler) : Prop where
  section_ : o'.handlerCriticalSection = o.handlerCriticalSection
  start : o'.handlerStartSemaphore = o.handlerStartSemaphore
  finish : o'.handlerFinishSemaphore = o.handlerFinishSemaphore
  request : o'.request = o.request
  returnValue : o'.handlerReturnValue = o.handlerReturnValue
  thread : o'.handlerThread = o.handlerThread

theorem SameExchange.refl (o : ExceptionHandler) : SameExchange o o :=
  ⟨rfl, rfl, rfl, rfl, rfl, rfl⟩

variable {h : HandlerId} {r : Request} {o o' : ExceptionHandler} {call : Call}
  {part : List CrashEvent}

theorem SameExchange.at_iff (ho : SameExchange o o') {start finish : Nat} {pc : HandlerThread}
    (ha : o.At start finish pc) : o'.At start finish pc :=
  ⟨ho.start.trans ha.1, ho.finish.trans ha.2.1, ho.thread.trans ha.2.2⟩

theorem Exchange.same (he : Exchange h r o call part) (ho : SameExchange o o') :
    Exchange h r o' call part := by
  cases he with
  | preparing ha => exact .preparing (ho.at_iff ha)
  | starting hr ha => exact .starting (ho.request.trans hr) (ho.at_iff ha)
  | requested hr ha => exact .requested (ho.request.trans hr) (ho.at_iff ha)
  | filter ha => exact .filter (ho.at_iff ha)
  | asleep ha => exact .asleep (ho.at_iff ha)
  | writeMinidump ha => exact .writeMinidump (ho.at_iff ha)
  | callback id e ok ha => exact .callback id e ok (ho.at_iff ha)
  | releasing id e ok hv ha => exact .releasing id e ok (ho.returnValue.trans hv) (ho.at_iff ha)
  | finished id e ok hv ha => exact .finished id e ok (ho.returnValue.trans hv) (ho.at_iff ha)
  | collecting id e ok hv ha => exact .collecting id e ok (ho.returnValue.trans hv) (ho.at_iff ha)

namespace CrashState

/-- Nobody or one thread is at an exchange with the handler thread of `h`. -/
inductive Handshake (s : CrashState) (h : HandlerId) : Prop where
  | free (hc : (s.handlers h).handlerCriticalSection = .free)
      (hout : ∀ t, (s.threads t).within h = none)
      (hidle : (s.handlers h).At 0 0 .waiting ∨ (s.handlers h).At 0 0 .absent)
      (hlog : Rounds h s.log [])
  | held (t : Thread) (entry : Option Entry) (call : Call) (part : List CrashEvent)
      (hc : (s.handlers h).handlerCriticalSection = .held t)
      (hin : (s.threads t).within h = some (entry, call))
      (hout : ∀ t', t' ≠ t → (s.threads t').within h = none)
      (hex : Exchange h ⟨t, exceptionInfo entry⟩ (s.handlers h) call part)
      (hlog : Rounds h s.log part)

variable {s s' : CrashState} {t : Thread} {pc : Pc} {entry : Option Entry} {call' : Call}

namespace Handshake

theorem frame (hs : s.Handshake h) (ho : SameExchange (s.handlers h) (s'.handlers h))
    (hw : ∀ t, (s'.threads t).within h = (s.threads t).within h) {l : List CrashEvent}
    (hl : s'.log = s.log ++ l) (hes : ∀ e ∈ l, e.exchange h = false) : s'.Handshake h := by
  cases hs with
  | free hc hout hidle hlog =>
    exact .free (ho.section_.trans hc) (fun t => (hw t).trans (hout t))
      (hidle.imp ho.at_iff ho.at_iff) (hl ▸ hlog.append_others hes)
  | held t entry call part hc hin hout hex hlog =>
    exact .held t entry call part (ho.section_.trans hc) ((hw t).trans hin)
      (fun t' ht' => (hw t').trans (hout t' ht')) (hex.same ho) (hl ▸ hlog.append_others hes)

theorem of_within (hs : s.Handshake h) (hin : (s.threads t).within h = some (entry, call)) :
    ∃ part, (s.handlers h).handlerCriticalSection = .held t ∧
      (∀ t', t' ≠ t → (s.threads t').within h = none) ∧
      Exchange h ⟨t, exceptionInfo entry⟩ (s.handlers h) call part ∧ Rounds h s.log part := by
  cases hs with
  | free hc hout hidle hlog =>
    rw [hout t] at hin
    cases hin
  | held o entry' call' part hc hino hout hex hlog =>
    obtain rfl : t = o := by
      by_contra hne
      rw [hout t hne] at hin
      cases hin
    rw [hino] at hin
    cases hin
    exact ⟨part, hc, hout, hex, hlog⟩

theorem within_update (hout : ∀ t', t' ≠ t → (s.threads t').within h = none)
    (hth : s'.threads = Function.update s.threads t pc) :
    ∀ t', t' ≠ t → (s'.threads t').within h = none := by
  intro t' ht'
  rw [hth, Function.update_of_ne ht', hout t' ht']

theorem moves (hs : s.Handshake h) (hin : (s.threads t).within h = some (entry, call))
    (hth : s'.threads = Function.update s.threads t pc)
    (hpc : pc.within h = some (entry, call'))
    (hc : (s'.handlers h).handlerCriticalSection = (s.handlers h).handlerCriticalSection)
    (hex : ∀ part, Exchange h ⟨t, exceptionInfo entry⟩ (s.handlers h) call part →
      Rounds h s.log part → ∃ part',
        Exchange h ⟨t, exceptionInfo entry⟩ (s'.handlers h) call' part' ∧ Rounds h s'.log part') :
    s'.Handshake h := by
  obtain ⟨part, hheld, hout, hpart, hlog⟩ := hs.of_within hin
  obtain ⟨part', hpart', hlog'⟩ := hex part hpart hlog
  exact .held t entry call' part' (hc.trans hheld) (by rw [hth, Function.update_self, hpc])
    (within_update hout hth) hpart' hlog'

theorem serves (hs : s.Handshake h) (hth : s'.threads = s.threads)
    (hc : (s'.handlers h).handlerCriticalSection = (s.handlers h).handlerCriticalSection)
    (hidle : ¬ ((s.handlers h).At 0 0 .waiting ∨ (s.handlers h).At 0 0 .absent))
    (hex : ∀ r call part, Exchange h r (s.handlers h) call part → Rounds h s.log part →
      ∃ part', Exchange h r (s'.handlers h) call part' ∧ Rounds h s'.log part') :
    s'.Handshake h := by
  cases hs with
  | free _ _ hi _ => exact absurd hi hidle
  | held t entry call part hheld hin hout hpart hlog =>
    obtain ⟨part', hpart', hlog'⟩ := hex _ call part hpart hlog
    exact .held t entry call part' (hc.trans hheld) (hth ▸ hin) (hth ▸ hout) hpart' hlog'

end Handshake

/-! ## The steps of a thread -/

theorem within_writing_of_ne {x : HandlerId} (hx : x ≠ h) (entry : Option Entry) (call : Call) :
    (Pc.writing x entry call).within h = none := if_neg fun hp => hx hp.1

theorem within_writing_of_outside {call : Call} (hc : call.inside = false) (x : HandlerId)
    (entry : Option Entry) : (Pc.writing x entry call).within h = none := by
  simp [Pc.within, hc]

theorem within_afterDump (o : ExceptionHandler) (previous : FilterAction) (status : Bool)
    (entry : Entry) : (afterDump o previous status entry).within h = none := by
  cases entry with
  | handleException | handleInvalidParameter => rfl
  | handlePureVirtualCall =>
    rw [afterDump]
    split <;> rfl

theorem within_handle (o : ExceptionHandler) (x : HandlerId) (previous : FilterAction)
    (entry : Entry) : (handle o x previous entry).within h = none := by
  cases entry with
  | handleException code =>
    rw [handle]
    split
    · rfl
    · split
      · exact within_writing_of_outside rfl ..
      · rfl
  | handleInvalidParameter | handlePureVirtualCall => exact within_writing_of_outside rfl ..

namespace Handshake

/-- A thread that is not inside does something elsewhere. -/
theorem outside (hs : s.Handshake h) (hin : (s.threads t).within h = none)
    (hth : s'.threads = Function.update s.threads t pc) (hpc : pc.within h = none)
    (ho : SameExchange (s.handlers h) (s'.handlers h)) {l : List CrashEvent}
    (hl : s'.log = s.log ++ l) (hes : ∀ e ∈ l, e.exchange h = false) : s'.Handshake h := by
  refine hs.frame ho (fun t' => ?_) hl hes
  rw [hth]
  by_cases ht : t' = t
  · rw [ht, Function.update_self, hpc, hin]
  · rw [Function.update_of_ne ht]

theorem outside_quiet (hs : s.Handshake h) (hin : (s.threads t).within h = none)
    (hth : s'.threads = Function.update s.threads t pc) (hpc : pc.within h = none)
    (ho : SameExchange (s.handlers h) (s'.handlers h)) (hl : s'.log = s.log) : s'.Handshake h :=
  hs.outside hin hth hpc ho (hl.trans (List.append_nil _).symm) (by simp)

theorem write_of_ne (hs : s.Handshake h) {x : HandlerId} (hx : x ≠ h) {uuid : Nat}
    {previous : FilterAction} (hpc : s.threads t = .writing x entry call)
    (hst : s.write t x entry uuid previous call = some s') : s'.Handshake h := by
  have hin : (s.threads t).within h = none := by rw [hpc, within_writing_of_ne hx]
  have hsame (o : ExceptionHandler) :
      SameExchange (s.handlers h) (Function.update s.handlers x o h) := by
    rw [Function.update_of_ne hx.symm]
    exact .refl _
  cases call with
  | entering =>
    obtain ⟨c, -, hst⟩ := Option.map_eq_some_iff.mp hst
    simp only at hst
    split at hst
    · subst hst
      exact hs.outside_quiet hin rfl (within_writing_of_ne hx ..) (hsame _) rfl
    · subst hst
      exact hs.outside_quiet hin rfl (within_writing_of_ne hx ..) (hsame _) rfl
  | preparing =>
    cases hst
    exact hs.outside_quiet hin rfl (within_writing_of_ne hx ..) (hsame _) rfl
  | starting =>
    cases hst
    exact hs.outside hin rfl (within_writing_of_ne hx ..) (hsame _) rfl
      (by simp [CrashEvent.exchange, hx])
  | waiting =>
    obtain ⟨-, rfl⟩ := Machine.guard_eq_some hst
    exact hs.outside_quiet hin rfl (within_writing_of_ne hx ..) (hsame _) rfl
  | collecting =>
    cases hst
    exact hs.outside hin rfl (within_writing_of_ne hx ..) (hsame _) rfl
      (by simp [CrashEvent.exchange, hx])
  | done status =>
    cases entry with
    | some entry =>
      cases hst
      exact hs.outside_quiet hin rfl (within_afterDump ..) (.refl _) rfl
    | none =>
      cases hst
      exact hs.outside hin rfl rfl (hsame _) rfl (by simp [CrashEvent.exchange])

theorem enters (hs : s.Handshake h) (hin : (s.threads t).within h = none)
    {c : CriticalSection Thread} (hc : (s.handlers h).handlerCriticalSection.enter t = some c) :
    c = .held t ∧ (s.handlers h).handlerCriticalSection = .free ∧
      (∀ t, (s.threads t).within h = none) ∧
      ((s.handlers h).At 0 0 .waiting ∨ (s.handlers h).At 0 0 .absent) ∧ Rounds h s.log [] := by
  cases hs with
  | free hfree hout hidle hlog =>
    rw [hfree] at hc
    exact ⟨(Option.some.inj hc).symm, hfree, hout, hidle, hlog⟩
  | held o _ _ _ hheld hino =>
    have hne : o ≠ t := by
      rintro rfl
      rw [hin] at hino
      cases hino
    rw [hheld, CriticalSection.enter_held_of_ne hne] at hc
    cases hc

theorem write_self (hs : s.Handshake h) {uuid : Nat} {previous : FilterAction}
    (hpc : s.threads t = .writing h entry call)
    (hst : s.write t h entry uuid previous call = some s') : s'.Handshake h := by
  have hinside (c : Call) (hc : c.inside = true) :
      (Pc.writing h entry c).within h = some (entry, c) := if_pos ⟨rfl, hc⟩
  cases call with
  | entering =>
    have hin : (s.threads t).within h = none := by
      rw [hpc]
      exact within_writing_of_outside rfl ..
    obtain ⟨c, hc, hst⟩ := Option.map_eq_some_iff.mp hst
    obtain ⟨rfl, hfree, hout, hidle, hlog⟩ := hs.enters hin hc
    simp only at hst
    split at hst
    next habsent =>
      -- the lock is free again
      subst hst
      refine hs.outside_quiet hin rfl (within_writing_of_outside rfl ..) ?_ rfl
      simp only [setThread, setHandler, Function.update_self]
      exact ⟨hfree.symm, rfl, rfl, rfl, rfl, rfl⟩
    next habsent =>
      subst hst
      refine .held t entry .preparing [] ?_ ?_ (within_update (fun t' _ => hout t') rfl) ?_ hlog
      · simp only [setThread, setHandler, Function.update_self]
      · simp only [setThread, Function.update_self]
        exact hinside _ rfl
      · simp only [setThread, setHandler, Function.update_self]
        rcases hidle with ha | ha
        · exact .preparing ha
        · exact absurd ha.2.2 habsent
  | preparing =>
    cases hst
    refine hs.moves (hpc ▸ hinside _ rfl) rfl (hinside .starting rfl) ?_ fun part hex hlog => ?_
    · simp only [setThread, setHandler, Function.update_self]
    · simp only [setThread, setHandler, Function.update_self]
      obtain ⟨ha⟩ := hex
      exact ⟨[], .starting rfl ha, hlog⟩
  | starting =>
    cases hst
    refine hs.moves (hpc ▸ hinside _ rfl) rfl (hinside .waiting rfl) ?_ fun part hex hlog => ?_
    · simp only [setThread, setHandler, record, Function.update_self]
    · simp only [setThread, setHandler, record, Function.update_self]
      obtain ⟨⟩ | ⟨hr, h1, h2, h3⟩ := hex
      refine ⟨_, .requested hr ⟨?_, h2, h3⟩, hlog.concat (by simp [CrashEvent.exchange])⟩
      simp only [h1]
      rfl
  | waiting =>
    obtain ⟨hf, rfl⟩ := Machine.guard_eq_some hst
    refine hs.moves (hpc ▸ hinside _ rfl) rfl (hinside .collecting rfl) ?_ fun part hex hlog => ?_
    · simp only [setThread, setHandler, Function.update_self]
    · simp only [setThread, setHandler, Function.update_self]
      cases hex with
      | finished id e ok hv ha =>
        refine ⟨_, .collecting id e ok hv ⟨ha.1, ?_, ha.2.2⟩, hlog⟩
        simp only [ha.2.1]
      | requested _ ha => exact absurd hf (by rw [ha.2.1]; omega)
      | filter ha | asleep ha | writeMinidump ha | callback _ _ _ ha | releasing _ _ _ _ ha =>
        exact absurd hf (by rw [ha.2.1]; omega)
  | collecting =>
    obtain ⟨part, hheld, hout, hex, hlog⟩ := hs.of_within (hpc ▸ hinside .collecting rfl)
    cases hex with
    | collecting id e ok hv ha =>
      cases hst
      refine .free ?_ (fun t' => ?_) (.inl ?_) ?_
      · simp only [setThread, setHandler, record, Function.update_self, hheld,
          CriticalSection.leave_held]
      · by_cases ht : t' = t
        · rw [ht]
          simp only [setThread, Function.update_self]
          exact within_writing_of_outside rfl ..
        · exact within_update hout rfl t' ht
      · simp only [setThread, setHandler, record, Function.update_self]
        exact ha
      · refine (hlog.concat (e := .answered h t (s.handlers h).handlerReturnValue)
          (by simp [CrashEvent.exchange])).close
            ⟨⟨t, exceptionInfo entry⟩, id, e, ok, ?_⟩
        rw [hv]
        rfl
  | done status =>
    have hin : (s.threads t).within h = none := by
      rw [hpc]
      exact within_writing_of_outside rfl ..
    cases entry with
    | some entry =>
      cases hst
      exact hs.outside_quiet hin rfl (within_afterDump ..) (.refl _) rfl
    | none =>
      cases hst
      refine hs.outside hin rfl rfl ?_ rfl (by simp [CrashEvent.exchange])
      simp only [setThread, setHandler, record, Function.update_self]
      exact ⟨rfl, rfl, rfl, rfl, rfl, rfl⟩

theorem advance (hs : s.Handshake h) {uuid : Nat} {previous : FilterAction}
    (hst : s.advance t uuid previous = some s') : s'.Handshake h := by
  unfold CrashState.advance at hst
  split at hst
  · cases hst
  next hpc =>
    cases hst
    exact hs.outside_quiet (by rw [hpc]; rfl) rfl rfl (.refl _) rfl
  next hpc =>
    obtain ⟨c, -, hst⟩ := Option.map_eq_some_iff.mp hst
    simp only at hst
    split at hst
    · subst hst
      exact hs.outside_quiet (by rw [hpc]; rfl) rfl rfl (.refl _) rfl
    · subst hst
      exact hs.outside (by rw [hpc]; rfl) rfl rfl (.refl _) rfl (by simp [CrashEvent.exchange])
  next hpc =>
    split at hst
    · cases hst
      exact hs.outside_quiet (by rw [hpc]; rfl) rfl rfl (.refl _) rfl
    · cases hst
      exact hs.outside_quiet (by rw [hpc]; rfl) rfl rfl (.refl _) rfl
  next hpc =>
    cases hst
    exact hs.outside_quiet (by rw [hpc]; rfl) rfl (within_handle ..) (.refl _) rfl
  next x entry call hpc =>
    by_cases hx : x = h
    · subst hx
      exact hs.write_self hpc hst
    · exact hs.write_of_ne hx hpc hst
  next hpc =>
    split at hst
    · cases hst
      exact hs.outside_quiet (by rw [hpc]; rfl) rfl rfl (.refl _) rfl
    · cases hst
      exact hs.outside_quiet (by rw [hpc]; rfl) rfl rfl (.refl _) rfl
  next hpc =>
    split at hst
    · cases hst
      exact hs.outside_quiet (by rw [hpc]; rfl) rfl rfl (.refl _) rfl
    · cases hst
      exact hs.frame (.refl _) (fun _ => rfl) (List.append_nil _).symm (by simp)
  · cases hst
    exact hs.frame (.refl _) (fun _ => rfl) (List.append_nil _).symm (by simp)

/-! ## The steps of the handler threads -/

theorem serve_of_ne (hs : s.Handshake h) {x : HandlerId} (hx : x ≠ h) {created written : Bool}
    (hst : s.serve x created written = some s') : s'.Handshake h := by
  have hsame (o : ExceptionHandler) :
      SameExchange (s.handlers h) (Function.update s.handlers x o h) := by
    rw [Function.update_of_ne hx.symm]
    exact .refl _
  unfold CrashState.serve at hst
  simp only at hst
  split at hst
  · cases hst
  · cases hst
  · obtain ⟨-, rfl⟩ := Machine.guard_eq_some hst
    exact hs.frame (hsame _) (fun _ => rfl) (List.append_nil _).symm (by simp)
  · split at hst
    · cases hst
      exact hs.frame (hsame _) (fun _ => rfl) rfl (by simp [CrashEvent.exchange, hx])
    · cases hst
      exact hs.frame (hsame _) (fun _ => rfl) (List.append_nil _).symm (by simp)
  · cases hst
    exact hs.frame (hsame _) (fun _ => rfl) rfl (by simp [CrashEvent.exchange, hx])
  · cases hst
    exact hs.frame (hsame _) (fun _ => rfl) rfl (by simp [CrashEvent.exchange, hx])
  · cases hst
    exact hs.frame (hsame _) (fun _ => rfl) (List.append_nil _).symm (by simp)

/-- The handler thread takes the request of the thread inside, and nothing else. -/
theorem serve_self (hs : s.Handshake h) {created written : Bool}
    (hst : s.serve h created written = some s') : s'.Handshake h := by
  have hidle {pc : HandlerThread} (hpc : (s.handlers h).handlerThread = pc)
      (hw : pc ≠ .waiting) (ha : pc ≠ .absent) :
      ¬ ((s.handlers h).At 0 0 .waiting ∨ (s.handlers h).At 0 0 .absent) := by
    rintro (h' | h')
    · exact hw (hpc.symm.trans h'.2.2)
    · exact ha (hpc.symm.trans h'.2.2)
  unfold CrashState.serve at hst
  simp only at hst
  split at hst
  · cases hst
  · cases hst
  next hpc =>
    obtain ⟨hstart, rfl⟩ := Machine.guard_eq_some hst
    refine hs.serves rfl ?_ ?_ fun r call part hex hlog => ?_
    · simp only [setHandler, Function.update_self]
    · rintro (ha | ha)
      · exact absurd ha.1 (Nat.pos_iff_ne_zero.mp hstart)
      · exact absurd ha.1 (Nat.pos_iff_ne_zero.mp hstart)
    · simp only [setHandler, Function.update_self]
      cases hex with
      | requested hr ha =>
        refine ⟨_, .filter ⟨?_, ha.2.1, ?_⟩, hlog⟩
        · simp only [ha.1]
        · simp only [hr]
      | preparing ha | starting _ ha | filter ha | asleep ha | writeMinidump ha
      | callback _ _ _ ha | releasing _ _ _ _ ha | finished _ _ _ _ ha | collecting _ _ _ _ ha =>
        exact absurd ha.1 (Nat.pos_iff_ne_zero.mp hstart)
  next r' hpc =>
    have hcases {r : Request} {call : Call} {part : List CrashEvent}
        (hex : Exchange h r (s.handlers h) call part) : call = .waiting ∧ r' = some r ∧
          part = [.requested h r] ∧ (s.handlers h).At 0 0 (.filter (some r)) := by
      cases hex with
      | filter ha =>
        have hr : HandlerThread.filter r' = .filter (some r) := hpc.symm.trans ha.2.2
        exact ⟨rfl, by simpa using hr, rfl, ha⟩
      | preparing ha | starting _ ha | requested _ ha | asleep ha | writeMinidump ha
      | callback _ _ _ ha | releasing _ _ _ _ ha | finished _ _ _ _ ha | collecting _ _ _ _ ha =>
        exact absurd (hpc.symm.trans ha.2.2) (by simp)
    split at hst
    · cases hst
      refine hs.serves rfl ?_ (hidle hpc (by simp) (by simp)) fun r call part hex hlog => ?_
      · simp only [setHandler, record, Function.update_self]
      · simp only [setHandler, record, Function.update_self]
        obtain ⟨rfl, rfl, rfl, ha⟩ := hcases hex
        exact ⟨_, .writeMinidump ⟨ha.1, ha.2.1, rfl⟩, hlog.concat (by simp [CrashEvent.exchange])⟩
    · cases hst
      refine hs.serves rfl ?_ (hidle hpc (by simp) (by simp)) fun r call part hex hlog => ?_
      · simp only [setHandler, Function.update_self]
      · simp only [setHandler, Function.update_self]
        obtain ⟨rfl, rfl, rfl, ha⟩ := hcases hex
        exact ⟨_, .asleep ⟨ha.1, ha.2.1, rfl⟩, hlog⟩
  next r' hpc =>
    cases hst
    refine hs.serves rfl ?_ (hidle hpc (by simp) (by simp)) fun r call part hex hlog => ?_
    · simp only [setHandler, record, Function.update_self]
    · simp only [setHandler, record, Function.update_self]
      cases hex with
      | writeMinidump ha =>
        obtain rfl : r' = some r := by simpa using hpc.symm.trans ha.2.2
        exact ⟨_, .callback _ _ _ ⟨ha.1, ha.2.1, rfl⟩, hlog.concat (by simp [CrashEvent.exchange])⟩
      | preparing ha | starting _ ha | requested _ ha | asleep ha | filter ha
      | callback _ _ _ ha | releasing _ _ _ _ ha | finished _ _ _ _ ha | collecting _ _ _ _ ha =>
        exact absurd (hpc.symm.trans ha.2.2) (by simp)
  next r' succeeded hpc =>
    cases hst
    refine hs.serves rfl ?_ (hidle hpc (by simp) (by simp)) fun r call part hex hlog => ?_
    · simp only [setHandler, record, Function.update_self]
    · simp only [setHandler, record, Function.update_self]
      cases hex with
      | callback id e ok ha =>
        obtain ⟨rfl, rfl⟩ : r' = some r ∧ succeeded = ok := by simpa using hpc.symm.trans ha.2.2
        exact ⟨_, .releasing id e succeeded rfl ⟨ha.1, ha.2.1, rfl⟩,
          hlog.concat (by simp [CrashEvent.exchange])⟩
      | preparing ha | starting _ ha | requested _ ha | asleep ha | filter ha
      | writeMinidump ha | releasing _ _ _ _ ha | finished _ _ _ _ ha | collecting _ _ _ _ ha =>
        exact absurd (hpc.symm.trans ha.2.2) (by simp)
  next hpc =>
    cases hst
    refine hs.serves rfl ?_ (hidle hpc (by simp) (by simp)) fun r call part hex hlog => ?_
    · simp only [setHandler, Function.update_self]
    · simp only [setHandler, Function.update_self]
      cases hex with
      | releasing id e ok hv ha =>
        refine ⟨_, .finished id e ok hv ⟨ha.1, ?_, rfl⟩, hlog⟩
        simp only [ha.2.1]
        rfl
      | preparing ha | starting _ ha | requested _ ha | asleep ha | filter ha
      | writeMinidump ha | callback _ _ _ ha | finished _ _ _ _ ha | collecting _ _ _ _ ha =>
        exact absurd (hpc.symm.trans ha.2.2) (by simp)

theorem step (hs : s.Handshake h) {a : CrashAction} (hst : s.step a = some s') :
    s'.Handshake h := by
  unfold CrashState.step at hst
  split at hst
  · cases hst
  · have hflag (x : HandlerId) (o' : ExceptionHandler) (ho : SameExchange (s.handlers x) o') :
        (s.setHandler x o').Handshake h := by
      refine hs.frame ?_ (fun _ => rfl) (List.append_nil _).symm (by simp)
      by_cases hx : h = x
      · subst hx
        simpa only [setHandler, Function.update_self] using ho
      · simp only [setHandler, Function.update_of_ne hx]
        exact .refl _
    cases a with
    | raise t entry =>
      obtain ⟨hr, rfl⟩ := Machine.guard_eq_some hst
      have hpc : s.threads t = .running := by
        simp only [canRaise, Bool.and_eq_true, decide_eq_true_eq] at hr
        exact hr.1
      exact hs.outside_quiet (by rw [hpc]; rfl) rfl rfl (.refl _) rfl
    | dumpProcessWithoutCrash n =>
      obtain ⟨hpc, rfl⟩ := Machine.guard_eq_some hst
      exact hs.outside_quiet (by rw [hpc]; rfl) rfl (within_writing_of_outside rfl ..) (.refl _) rfl
    | advance t uuid previous => exact hs.advance hst
    | serve x created written =>
      have hst := (Option.ite_none_right_eq_some.mp hst).2
      by_cases hx : x = h
      · subst hx
        exact hs.serve_self hst
      · exact hs.serve_of_ne hx hst
    | setHandleDebugExceptions x b =>
      cases hst
      exact hflag x _ ⟨rfl, rfl, rfl, rfl, rfl, rfl⟩
    | setConsumeInvalidHandleExceptions x b =>
      cases hst
      exact hflag x _ ⟨rfl, rfl, rfl, rfl, rfl, rfl⟩

end Handshake

theorem handshake (hs : crashMachine.Reachable s) (h : HandlerId) : s.Handshake h := by
  refine hs.invariant (I := fun s => s.Handshake h) (fun s hi => ?_) fun s a s' hs _ hst =>
    hs.step hst
  refine .free (hi.free h) (fun t => ?_) ?_ ?_
  · rw [hi.threads]
    rfl
  · exact (hi.handlerThread h).imp (fun ht => ⟨hi.start h, hi.finish h, ht⟩)
      fun ht => ⟨hi.start h, hi.finish h, ht⟩
  · rw [hi.log]
    exact .nil

/-- **Each dump is asked for, made and answered in turn**: the events of an object are complete
rounds, in each of which the thread that asks for a dump is answered once it was made for its own
exception, but for the round that is under way. -/
theorem dumps_answered (hs : crashMachine.Reachable s) (h : HandlerId) :
    ∃ part, Rounds h s.log part ∧ ∃ rest, IsRound h (part ++ rest) := by
  cases handshake hs h with
  | free _ _ _ hlog => exact ⟨[], hlog, _, ⟨.app 0, exceptionInfo none⟩, 0, false, true, rfl⟩
  | held t entry call part _ _ _ hex hlog =>
    refine ⟨part, hlog, ?_⟩
    cases hex with
    | preparing | starting | requested | filter | asleep | writeMinidump =>
      exact ⟨_, ⟨t, exceptionInfo entry⟩, 0, false, true, rfl⟩
    | callback id e ok | releasing id e ok | finished id e ok | collecting id e ok =>
      exact ⟨_, ⟨t, exceptionInfo entry⟩, id, e, ok, rfl⟩

theorem dumps_answered_two : ∃ s, crashMachine.Reachable s ∧
    s.threads (.app 1) = .writing .dumphandlerNoCrash none .waiting ∧
      ∃ part, Rounds .dumphandlerNoCrash s.log part ∧
        ∃ rest, IsRound .dumphandlerNoCrash (part ++ rest) := by
  obtain ⟨s, hr, hp⟩ := Machine.exists_reachable (M := crashMachine) crashStart_initial
    ([.dumpProcessWithoutCrash 0, .dumpProcessWithoutCrash 1] ++
      List.replicate 3 (.advance (.app 0) 2 .continueSearch) ++
      List.replicate 5 (.serve .dumphandlerNoCrash true true) ++
      List.replicate 2 (.advance (.app 0) 2 .continueSearch) ++
      List.replicate 3 (.advance (.app 1) 2 .continueSearch))
    (p := fun s => decide (s.threads (.app 1) = .writing .dumphandlerNoCrash none .waiting))
    (by decide)
  exact ⟨s, hr, of_decide_eq_true hp, dumps_answered hr .dumphandlerNoCrash⟩

end CrashState

end Mdgate.Crash
