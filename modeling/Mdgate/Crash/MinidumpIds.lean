import Mdgate.Crash.CrashRest

/-!
# The files of the dumps

A dump is written to a new file named by `next_minidump_id_`, and `WriteMinidump` changes the id
after its dump, when it has left `handler_critical_section_`. As long as the calls of
`DumpProcessWithoutCrash` do not overlap no dump is lost; the second of two calls that overlap can
find the file of the first.
-/

namespace Mdgate.Crash

open Mdgate.Lib

def Pc.dumping : Pc → Option Call
  | writing .dumphandlerNoCrash none call => some call
  | _ => none

namespace CrashState

variable {s s' : CrashState} {t : Thread} {h : HandlerId} {uuid : Nat} {previous : FilterAction}

/-- The ids are those of no dump, and different. -/
def NewIds (s : CrashState) : Prop :=
  (s.handlers .breakpad).nextMinidumpId ≠ (s.handlers .dumphandlerNoCrash).nextMinidumpId ∧
    ∀ h, (s.handlers h).nextMinidumpId ∉ s.files

/-- `UuidCreate` returns a new id, and `DumpProcessWithoutCrash` is called when no other call of it
is under way. -/
def NoOverlap (s : CrashState) : CrashAction → Prop
  | .dumpProcessWithoutCrash _ => ∀ t, (s.threads t).dumping = none
  | .advance _ uuid _ => uuid ∉ s.files ∧ ∀ h, uuid ≠ (s.handlers h).nextMinidumpId
  | _ => True

/-- The dump of the call has been made. -/
def Past (o : ExceptionHandler) : Call → Prop
  | .collecting | .done _ => True
  | .waiting => 0 < o.handlerFinishSemaphore ∨ o.handlerThread = .releasing ∨
      ∃ r succeeded, o.handlerThread = .callback r succeeded
  | .entering | .preparing | .starting => False

structure IdsInv (s : CrashState) : Prop where
  distinct : (s.handlers .breakpad).nextMinidumpId ≠ (s.handlers .dumphandlerNoCrash).nextMinidumpId
  crash : s.log.countP CrashEvent.crashDumped = 0 → (s.handlers .breakpad).nextMinidumpId ∉ s.files
  unique : ∀ t t', (s.threads t).dumping.isSome = true → (s.threads t').dumping.isSome = true →
    t = t'
  reused : (s.handlers .dumphandlerNoCrash).nextMinidumpId ∈ s.files →
    ∃ t call, (s.threads t).dumping = some call ∧ Past (s.handlers .dumphandlerNoCrash) call
  kept : ∀ h r id success, .dumped h r id true success ∉ s.log

/-! ## The steps of a thread -/

/-- What the step of a thread does to the ids. -/
inductive IdStep (s s' : CrashState) (t : Thread) (uuid : Nat) : Prop where
  | elsewhere (h : (s.threads t).dumping = none) (h' : (s'.threads t).dumping = none)
      (ho : s'.handlers .dumphandlerNoCrash = s.handlers .dumphandlerNoCrash)
      (hid : (s'.handlers .breakpad).nextMinidumpId = (s.handlers .breakpad).nextMinidumpId)
  | goes (call call' : Call) (h : (s.threads t).dumping = some call)
      (h' : (s'.threads t).dumping = some call')
      (hpast : Past (s.handlers .dumphandlerNoCrash) call →
        Past (s'.handlers .dumphandlerNoCrash) call')
      (hid : ∀ h, (s'.handlers h).nextMinidumpId = (s.handlers h).nextMinidumpId)
  | renames (h' : (s'.threads t).dumping = none)
      (hid : (s'.handlers .dumphandlerNoCrash).nextMinidumpId = uuid)
      (hid' : (s'.handlers .breakpad).nextMinidumpId = (s.handlers .breakpad).nextMinidumpId)

theorem dumping_eq_none_of_inScope {pc : Pc} (h : pc.inScope = true) : pc.dumping = none := by
  cases pc with
  | writing h entry call =>
    cases entry with
    | none => cases h
    | some => cases ‹HandlerId› <;> rfl
  | _ => rfl

/-- A call of a handler leaves the other object and the ids alone. -/
theorem ids_write_some {entry : Entry} {call : Call}
    (hst : s.write t .breakpad (some entry) uuid previous call = some s') :
    s'.handlers .dumphandlerNoCrash = s.handlers .dumphandlerNoCrash ∧
      (s'.handlers .breakpad).nextMinidumpId = (s.handlers .breakpad).nextMinidumpId := by
  cases call with
  | entering =>
    obtain ⟨c, -, hst⟩ := Option.map_eq_some_iff.mp hst
    simp only at hst
    split at hst <;> subst hst <;> simp [setThread, setHandler]
  | waiting =>
    obtain ⟨-, rfl⟩ := Machine.guard_eq_some hst
    simp [setThread, setHandler]
  | preparing | starting | collecting | done =>
    cases hst
    simp [setThread, setHandler, record]

theorem idStep_write_none {call : Call} (hpc : s.threads t = .writing .dumphandlerNoCrash none call)
    (hst : s.write t .dumphandlerNoCrash none uuid previous call = some s') :
    IdStep s s' t uuid := by
  have hid {o : ExceptionHandler}
      (ho : o.nextMinidumpId = (s.handlers .dumphandlerNoCrash).nextMinidumpId) (h : HandlerId) :
      (Function.update s.handlers .dumphandlerNoCrash o h).nextMinidumpId =
        (s.handlers h).nextMinidumpId := by
    cases h <;> simp [ho]
  cases call with
  | entering =>
    obtain ⟨c, -, hst⟩ := Option.map_eq_some_iff.mp hst
    simp only at hst
    split at hst
    · subst hst
      exact .goes .entering (.done false) (by rw [hpc]; rfl) (by simp [setThread, Pc.dumping])
        (fun h => h.elim) (hid rfl)
    · subst hst
      exact .goes .entering .preparing (by rw [hpc]; rfl) (by simp [setThread, Pc.dumping])
        (fun h => h.elim) (hid rfl)
  | preparing =>
    cases hst
    exact .goes .preparing .starting (by rw [hpc]; rfl) (by simp [setThread, Pc.dumping])
      (fun h => h.elim) (hid rfl)
  | starting =>
    cases hst
    exact .goes .starting .waiting (by rw [hpc]; rfl) (by simp [setThread, Pc.dumping])
      (fun h => h.elim) (hid rfl)
  | waiting =>
    obtain ⟨-, rfl⟩ := Machine.guard_eq_some hst
    exact .goes .waiting .collecting (by rw [hpc]; rfl) (by simp [setThread, Pc.dumping])
      (fun _ => trivial) (hid rfl)
  | collecting =>
    cases hst
    exact .goes .collecting (.done _) (by rw [hpc]; rfl) (by simp [setThread, Pc.dumping]; rfl)
      (fun _ => trivial) (hid rfl)
  | done status =>
    cases hst
    exact .renames (by simp [setThread, Pc.dumping]) (by simp [setThread, setHandler, record])
      (by simp [setThread, setHandler, record])

theorem idStep_write {x : HandlerId} {entry : Option Entry} {call : Call}
    (hproper : (Pc.writing x entry call).Proper) (hpc : s.threads t = .writing x entry call)
    (hst : s.write t x entry uuid previous call = some s') : IdStep s s' t uuid := by
  cases entry with
  | some entry =>
    obtain rfl : x = .breakpad := hproper
    obtain ⟨pc, hm, -, hw⟩ := moves_write hst
    obtain ⟨ho, hid⟩ := ids_write_some hst
    refine .elsewhere (by rw [hpc]; rfl) ?_ ho hid
    rw [hm.threads, Function.update_self]
    exact dumping_eq_none_of_inScope hw.inScope
  | none =>
    obtain rfl : x = .dumphandlerNoCrash := hproper
    exact idStep_write_none hpc hst

theorem idStep_advance (hproper : (s.threads t).Proper)
    (hst : s.advance t uuid previous = some s') : IdStep s s' t uuid := by
  unfold CrashState.advance at hst
  split at hst
  · cases hst
  next hpc =>
    cases hst
    exact .elsewhere (by rw [hpc]; rfl) (by simp [setThread, Pc.dumping]) rfl rfl
  next hpc =>
    obtain ⟨c, -, hst⟩ := Option.map_eq_some_iff.mp hst
    simp only at hst
    split at hst <;> subst hst <;>
      exact .elsewhere (by rw [hpc]; rfl) (by simp [setThread, Pc.dumping]) rfl rfl
  next hpc =>
    split at hst <;> cases hst <;>
      exact .elsewhere (by rw [hpc]; rfl) (by simp [setThread, Pc.dumping]) rfl rfl
  next h entry hpc =>
    rw [hpc] at hproper
    obtain rfl : h = .breakpad := hproper
    cases hst
    refine .elsewhere (by rw [hpc]; rfl) ?_ rfl rfl
    simp only [setThread, Function.update_self]
    exact dumping_eq_none_of_inScope (handle_inScope ..).1
  next hpc =>
    rw [hpc] at hproper
    exact idStep_write hproper hpc hst
  next hpc =>
    split at hst <;> cases hst <;>
      exact .elsewhere (by rw [hpc]; rfl) (by simp [setThread, Pc.dumping]) rfl rfl
  next hpc =>
    split at hst <;> cases hst
    · exact .elsewhere (by rw [hpc]; rfl) (by simp [setThread, Pc.dumping]) rfl rfl
    · exact .elsewhere (by rw [hpc]; rfl) (by simp [hpc, Pc.dumping]) rfl rfl
  next hpc =>
    cases hst
    exact .elsewhere (by rw [hpc]; rfl) (by simp [hpc, Pc.dumping]) rfl rfl

theorem dumped_threadStep (hst : ThreadStep s s' t) :
    s'.log.countP CrashEvent.crashDumped = s.log.countP CrashEvent.crashDumped ∧
      ∀ h r id e success, .dumped h r id e success ∈ s'.log → .dumped h r id e success ∈ s.log := by
  obtain ⟨-, -, -, -, l, hl, hby⟩ := hst
  constructor
  · rw [hl, List.countP_append, List.countP_eq_zero (l := l) |>.mpr, Nat.add_zero]
    intro e he hd
    have hb := hby e he
    cases e <;> simp_all [CrashEvent.byHandler, CrashEvent.crashDumped]
  · intro h r id e success hmem
    rw [hl] at hmem
    refine (List.mem_append.mp hmem).resolve_right fun hmem => ?_
    cases hby _ hmem

theorem IdsInv.advance (hs : IdsInv s) (hproper : (s.threads t).Proper)
    (hok : s.NoOverlap (.advance t uuid previous)) (hst : s.advance t uuid previous = some s') :
    IdsInv s' := by
  have hthread := threadStep_advance hst
  obtain ⟨hcount, hdumped⟩ := dumped_threadStep hthread
  have hunique (hdt : (s'.threads t).dumping.isSome = true → (s.threads t).dumping.isSome = true)
      (t₁ t₂ : Thread) (h₁ : (s'.threads t₁).dumping.isSome = true)
      (h₂ : (s'.threads t₂).dumping.isSome = true) : t₁ = t₂ := by
    have hold (u : Thread) (hu : (s'.threads u).dumping.isSome = true) :
        (s.threads u).dumping.isSome = true := by
      by_cases hut : u = t
      · subst hut
        exact hdt hu
      · rwa [hthread.threads u hut] at hu
    exact hs.unique t₁ t₂ (hold t₁ h₁) (hold t₂ h₂)
  have hkept (x : HandlerId) (r : Option Request) (id : Nat) (success : Bool) :
      .dumped x r id true success ∉ s'.log := fun hmem => hs.kept _ _ _ _ (hdumped _ _ _ _ _ hmem)
  cases idStep_advance hproper hst with
  | elsewhere h h' ho hid =>
    refine ⟨by rw [hid, ho]; exact hs.distinct, ?_, hunique (by simp [h']), ?_, hkept⟩
    · rw [hcount, hid, hthread.files]
      exact hs.crash
    · rw [ho, hthread.files]
      intro hmem
      obtain ⟨u, call, hu, hpast⟩ := hs.reused hmem
      refine ⟨u, call, ?_, hpast⟩
      have hut : u ≠ t := by
        rintro rfl
        rw [h] at hu
        cases hu
      rw [hthread.threads u hut, hu]
  | goes call call' h h' hpast hid =>
    refine ⟨by rw [hid, hid]; exact hs.distinct, ?_, hunique (by simp [h]), ?_, hkept⟩
    · rw [hcount, hid, hthread.files]
      exact hs.crash
    · rw [hid, hthread.files]
      intro hmem
      obtain ⟨u, call₁, hu, hpast₁⟩ := hs.reused hmem
      obtain rfl : u = t := hs.unique u t (by simp [hu]) (by simp [h])
      rw [h] at hu
      cases hu
      exact ⟨u, call', h', hpast hpast₁⟩
  | renames h' hid hid' =>
    refine ⟨?_, ?_, hunique (by simp [h']), ?_, hkept⟩
    · rw [hid, hid']
      exact (hok.2 .breakpad).symm
    · rw [hcount, hid', hthread.files]
      exact hs.crash
    · rw [hid, hthread.files]
      exact fun hmem => absurd hmem hok.1

/-! ## The steps of a handler thread -/

theorem past_update {o : ExceptionHandler} {call : Call}
    (hf : 0 < (s.handlers .dumphandlerNoCrash).handlerFinishSemaphore →
      0 < o.handlerFinishSemaphore)
    (ht : (s.handlers .dumphandlerNoCrash).handlerThread = .releasing ∨
      (∃ r succeeded, (s.handlers .dumphandlerNoCrash).handlerThread = .callback r succeeded) →
        0 < o.handlerFinishSemaphore ∨ o.handlerThread = .releasing)
    (hp : Past (s.handlers .dumphandlerNoCrash) call) : Past o call := by
  cases call with
  | waiting =>
    rcases hp with hp | hp
    · exact .inl (hf hp)
    · exact (ht hp).imp_right .inl
  | entering | preparing | starting => exact hp.elim
  | collecting | done => trivial

theorem IdsInv.handler (hs : IdsInv s) (hth : s'.threads = s.threads) (hf : s'.files = s.files)
    {x : HandlerId} {o : ExceptionHandler} (ho : s'.handlers = Function.update s.handlers x o)
    (hid : o.nextMinidumpId = (s.handlers x).nextMinidumpId)
    (hpast : x = .dumphandlerNoCrash → ∀ call, Past (s.handlers .dumphandlerNoCrash) call →
      Past o call)
    (hl : s'.log.countP CrashEvent.crashDumped = s.log.countP CrashEvent.crashDumped ∧
      ∀ h r id e success, .dumped h r id e success ∈ s'.log → .dumped h r id e success ∈ s.log) :
    IdsInv s' := by
  have hids (h : HandlerId) : (s'.handlers h).nextMinidumpId = (s.handlers h).nextMinidumpId := by
    rw [ho]
    by_cases hx : h = x
    · rw [hx, Function.update_self, hid]
    · rw [Function.update_of_ne hx]
  refine ⟨by rw [hids, hids]; exact hs.distinct, by rw [hl.1, hids, hf]; exact hs.crash,
    by rw [hth]; exact hs.unique, ?_,
    fun h r id success hmem => hs.kept _ _ _ _ (hl.2 _ _ _ _ _ hmem)⟩
  rw [hids, hf, hth]
  intro hmem
  obtain ⟨t, call, ht, hp⟩ := hs.reused hmem
  refine ⟨t, call, ht, ?_⟩
  rw [ho]
  cases x with
  | breakpad => rwa [Function.update_of_ne (by simp)]
  | dumphandlerNoCrash =>
    rw [Function.update_self]
    exact hpast rfl call hp

theorem dumped_append {l : List CrashEvent} {e : CrashEvent}
    (he : ∀ h r id e' success, e ≠ .dumped h r id e' success) :
    (l ++ [e]).countP CrashEvent.crashDumped = l.countP CrashEvent.crashDumped ∧
      ∀ h r id e' success, .dumped h r id e' success ∈ l ++ [e] →
        .dumped h r id e' success ∈ l := by
  constructor
  · cases e with
    | dumped h r id e' success => exact absurd rfl (he h r id e' success)
    | _ => simp [CrashEvent.crashDumped]
  · intro h r id e' success hmem
    exact (List.mem_append.mp hmem).resolve_right
      fun hmem => he h r id e' success (List.mem_singleton.mp hmem).symm

/-- A dump that is made is one of a thread that waits for it. -/
theorem exists_dumping (hr : crashMachine.Reachable s) {r : Option Request}
    (hpc : (s.handlers .dumphandlerNoCrash).handlerThread = .writeMinidump r) :
    ∃ t, (s.threads t).dumping = some .waiting ∧
      (s.handlers .dumphandlerNoCrash).handlerFinishSemaphore = 0 := by
  cases handshake hr .dumphandlerNoCrash with
  | free _ _ hidle =>
    rcases hidle with ha | ha <;> exact absurd (ha.2.2.symm.trans hpc) (by simp)
  | held o entry call part _ hin _ hex =>
    have ho := (within_eq_some hin).1
    have hproper := (stackInv hr).proper o
    rw [ho] at hproper
    cases entry with
    | some => cases hproper
    | none =>
      cases hex with
      | writeMinidump ha => exact ⟨o, by rw [ho]; rfl, ha.2.1⟩
      | preparing ha | starting _ ha | requested _ ha | filter ha | asleep ha | callback _ _ _ ha
      | releasing _ _ _ _ ha | finished _ _ _ _ ha | collecting _ _ _ _ ha =>
        exact absurd (ha.2.2.symm.trans hpc) (by simp)

theorem IdsInv.not_mem_files (hs : IdsInv s) (hr : crashMachine.Reachable s)
    (hcount : h = .breakpad → s.log.countP CrashEvent.crashDumped = 0) {r : Option Request}
    (hpc : (s.handlers h).handlerThread = .writeMinidump r) :
    (s.handlers h).nextMinidumpId ∉ s.files := by
  cases h with
  | breakpad => exact hs.crash (hcount rfl)
  | dumphandlerNoCrash =>
    intro hmem
    obtain ⟨t, call, ht, hp⟩ := hs.reused hmem
    obtain ⟨o, ho, hf⟩ := exists_dumping hr hpc
    obtain rfl : t = o := hs.unique t o (by simp [ht]) (by simp [ho])
    rw [ho] at ht
    cases ht
    simp [Past, hf, hpc] at hp

theorem IdsInv.dumps (hs : IdsInv s) (hr : crashMachine.Reachable s)
    (hcount : h = .breakpad → s.log.countP CrashEvent.crashDumped = 0) {r : Option Request}
    {success : Bool} (hpc : (s.handlers h).handlerThread = .writeMinidump r)
    (hth : s'.threads = s.threads)
    (ho : s'.handlers = Function.update s.handlers h
      { s.handlers h with handlerThread := .callback r success })
    (hl : s'.log = s.log ++ [.dumped h r (s.handlers h).nextMinidumpId
      (s.files.contains (s.handlers h).nextMinidumpId) success])
    (hf : ∀ id ∈ s'.files, id ∈ s.files ∨ id = (s.handlers h).nextMinidumpId) : IdsInv s' := by
  have hnew := hs.not_mem_files hr hcount hpc
  have hids (x : HandlerId) : (s'.handlers x).nextMinidumpId = (s.handlers x).nextMinidumpId := by
    rw [ho]
    by_cases hx : x = h
    · rw [hx, Function.update_self]
    · rw [Function.update_of_ne hx]
  refine ⟨by rw [hids, hids]; exact hs.distinct, fun hc hmem => ?_, by rw [hth]; exact hs.unique,
    fun hmem => ?_, fun x r' id ok hmem => ?_⟩
  · rw [hids] at hmem
    rw [hl, List.countP_append] at hc
    cases h with
    | breakpad => simp [CrashEvent.crashDumped] at hc
    | dumphandlerNoCrash =>
      rcases hf _ hmem with hmem | hmem
      · exact hs.crash (Nat.eq_zero_of_add_eq_zero hc).1 hmem
      · exact hs.distinct hmem
  · rw [hids] at hmem
    cases h with
    | breakpad =>
      obtain ⟨t, call, ht, hp⟩ := hs.reused ((hf _ hmem).resolve_right hs.distinct.symm)
      refine ⟨t, call, hth ▸ ht, ?_⟩
      rwa [ho, Function.update_of_ne (by simp)]
    | dumphandlerNoCrash =>
      obtain ⟨t, ht, -⟩ := exists_dumping hr hpc
      refine ⟨t, .waiting, hth ▸ ht, .inr (.inr ⟨r, success, ?_⟩)⟩
      rw [ho, Function.update_self]
  · rw [hl] at hmem
    rcases List.mem_append.mp hmem with hmem | hmem
    · exact hs.kept _ _ _ _ hmem
    · simp [hnew] at hmem

theorem IdsInv.serve (hs : IdsInv s) (hr : crashMachine.Reachable s)
    (hr' : crashMachine.Reachable s') {created written : Bool}
    (hst : s.serve h created written = some s') : IdsInv s' := by
  unfold CrashState.serve at hst
  simp only at hst
  split at hst
  · cases hst
  · cases hst
  next hpc =>
    obtain ⟨-, rfl⟩ := Machine.guard_eq_some hst
    refine hs.handler rfl rfl rfl rfl (fun hx call => ?_) ⟨rfl, fun _ _ _ _ _ h => h⟩
    subst hx
    exact past_update id (by simp [hpc])
  next r hpc =>
    split at hst
    · cases hst
      refine hs.handler rfl rfl rfl rfl (fun hx call => ?_) (dumped_append (by simp))
      subst hx
      exact past_update id (by simp [hpc])
    · cases hst
      refine hs.handler rfl rfl rfl rfl (fun hx call => ?_) ⟨rfl, fun _ _ _ _ _ h => h⟩
      subst hx
      exact past_update id (by simp [hpc])
  next r hpc =>
    cases hst
    refine hs.dumps hr (fun hx => ?_) hpc rfl rfl rfl fun id hid => ?_
    · subst hx
      have hle := (filterFirst hr').1.trans (countP_crashApproved_le hr')
      simp only [record, setHandler, List.countP_append] at hle
      exact Nat.le_zero.mp (Nat.le_of_add_le_add_right (b := 1) hle)
    · simp only at hid
      split at hid
      · exact (List.mem_append.mp hid).imp_right List.mem_singleton.mp
      · exact .inl hid
  next r succeeded hpc =>
    cases hst
    refine hs.handler rfl rfl rfl rfl (fun hx call => ?_) (dumped_append (by simp))
    subst hx
    exact past_update id (fun _ => .inr rfl)
  next hpc =>
    cases hst
    refine hs.handler rfl rfl rfl rfl (fun hx call => ?_) ⟨rfl, fun _ _ _ _ _ h => h⟩
    subst hx
    have hpos : 0 < releaseSemaphore (s.handlers .dumphandlerNoCrash).handlerFinishSemaphore := by
      unfold releaseSemaphore
      split <;> omega
    exact past_update (fun _ => hpos) (fun _ => .inl hpos)

theorem IdsInv.step (hs : IdsInv s) (hr : crashMachine.Reachable s) {a : CrashAction}
    (hok : s.NoOverlap a) (hst : s.step a = some s') : IdsInv s' := by
  have hr' : crashMachine.Reachable s' := hr.step trivial hst
  obtain ⟨-, hst⟩ := Option.ite_none_left_eq_some.mp hst
  cases a with
  | raise t entry =>
    obtain ⟨hraise, rfl⟩ := Machine.guard_eq_some hst
    simp only [canRaise, Bool.and_eq_true, decide_eq_true_eq] at hraise
    have hsame (u : Thread) :
        (Function.update s.threads t (.raised entry (s.installed.get entry)) u).dumping =
          (s.threads u).dumping := by
      by_cases hu : u = t
      · rw [hu, Function.update_self, hraise.1]
        rfl
      · rw [Function.update_of_ne hu]
    refine ⟨hs.distinct, hs.crash, ?_, ?_, hs.kept⟩
    · simp only [setThread, hsame]
      exact hs.unique
    · simp only [setThread, hsame]
      exact hs.reused
  | dumpProcessWithoutCrash n =>
    obtain ⟨-, rfl⟩ := Machine.guard_eq_some hst
    have hnone (u : Thread) : (s.threads u).dumping = none := hok u
    refine ⟨hs.distinct, hs.crash, fun t t' ht ht' => ?_, fun hmem => ?_, hs.kept⟩
    · have hone (u : Thread) (hu : (Function.update s.threads (.app n)
          (.writing .dumphandlerNoCrash none .entering) u).dumping.isSome = true) :
          u = .app n := by
        by_contra hne
        rw [Function.update_of_ne hne, hnone] at hu
        cases hu
      rw [hone t ht, hone t' ht']
    · obtain ⟨t, call, ht, -⟩ := hs.reused hmem
      rw [hnone] at ht
      cases ht
  | advance t uuid previous => exact hs.advance ((stackInv hr).proper t) hok hst
  | serve x created written => exact hs.serve hr hr' (Option.ite_none_right_eq_some.mp hst).2
  | setHandleDebugExceptions x b | setConsumeInvalidHandleExceptions x b =>
    cases hst
    exact hs.handler rfl rfl rfl rfl (fun hx call h => by subst hx; cases call <;> exact h)
      ⟨rfl, fun _ _ _ _ _ h => h⟩

end CrashState

/-- `InitCrashReporter` gives the objects new ids. -/
def freshMachine : Machine CrashState CrashAction :=
  ⟨fun s => s.Initial ∧ s.NewIds, CrashState.step⟩

theorem freshMachine_reachable {ok : CrashState → CrashAction → Prop} {s : CrashState}
    (h : freshMachine.Reach ok s) : crashMachine.Reachable s := by
  refine Machine.Reach.simulate (M := freshMachine) (N := crashMachine) id (fun s hi => ?_)
    (fun _ a _ hst => .inr ⟨a, hst⟩) h
  exact hi.1

/-- **No dump is lost while the calls do not overlap**: none finds a file of its name there. -/
theorem dumps_not_lost {s : CrashState} (h : freshMachine.Reach CrashState.NoOverlap s) :
    ∀ x r id success, .dumped x r id true success ∉ s.log := by
  have hs : s.IdsInv := by
    refine h.invariant_of (I := CrashState.IdsInv) (J := crashMachine.Reachable)
      (fun _ h => freshMachine_reachable h) (fun s hi => ?_)
      fun s a s' hr hs hok hst => hs.step hr hok hst
    obtain ⟨hi, hne, hnew⟩ := hi
    refine ⟨hne, fun _ => hnew _, fun t t' ht => ?_, fun hmem => absurd hmem (hnew _),
      fun x r id success => by simp [hi.log]⟩
    rw [hi.threads] at ht
    cases ht
  exact hs.kept

theorem crashStart_newIds : crashStart.NewIds :=
  ⟨by decide, fun h => by cases h <;> decide⟩

/-- A call of `DumpProcessWithoutCrash` up to the id for the next dump. -/
def dumpActions (n : Nat) : List CrashAction :=
  .dumpProcessWithoutCrash n :: List.replicate 3 (.advance (.app n) 2 .continueSearch) ++
    List.replicate 5 (.serve .dumphandlerNoCrash true true) ++
    List.replicate 2 (.advance (.app n) 2 .continueSearch)

/-- A step that starts no dump, with a new id. -/
def CrashState.advances (s : CrashState) : CrashAction → Bool
  | .dumpProcessWithoutCrash _ => false
  | .advance _ uuid _ => !s.files.contains uuid &&
      uuid != (s.handlers .breakpad).nextMinidumpId &&
      uuid != (s.handlers .dumphandlerNoCrash).nextMinidumpId
  | _ => true

theorem CrashState.noOverlap_of_advances (s : CrashState) (a : CrashAction)
    (h : s.advances a = true) : s.NoOverlap a := by
  cases a with
  | dumpProcessWithoutCrash n => cases h
  | advance t uuid previous =>
    simp only [advances, Bool.and_eq_true, Bool.not_eq_true', List.contains_eq_mem,
      decide_eq_false_iff_not, bne_iff_ne] at h
    exact ⟨h.1.1, fun x => by cases x <;> [exact h.1.2; exact h.2]⟩
  | _ => trivial

theorem dumps_not_lost_one : ∃ s, (freshMachine.Reach CrashState.NoOverlap s ∧
    .renamed .dumphandlerNoCrash 2 ∈ s.log) ∧
      ∀ x r id success, .dumped x r id true success ∉ s.log := by
  have h0 : freshMachine.Reach CrashState.NoOverlap
      (crashStart.setThread (.app 0) (.writing .dumphandlerNoCrash none .entering)) :=
    .step (a := .dumpProcessWithoutCrash 0) (.init ⟨crashStart_initial, crashStart_newIds⟩)
      (fun _ => rfl) rfl
  have hrun : ((freshMachine.exec
      (crashStart.setThread (.app 0) (.writing .dumphandlerNoCrash none .entering))
      ((dumpActions 0).tail ++ [.advance (.app 0) 2 .continueSearch])).any fun s =>
        s.log.contains (.renamed .dumphandlerNoCrash 2)) = true := by decide
  cases hs : freshMachine.exec
      (crashStart.setThread (.app 0) (.writing .dumphandlerNoCrash none .entering))
      ((dumpActions 0).tail ++ [.advance (.app 0) 2 .continueSearch]) with
  | none =>
    rw [hs] at hrun
    cases hrun
  | some s =>
    rw [hs] at hrun
    have hr := h0.exec_of_admits CrashState.noOverlap_of_advances (by decide) hs
    exact ⟨s, ⟨hr, by simpa using hrun⟩, dumps_not_lost hr⟩

/-- Two calls that overlap: the second dump finds the file of the first, and is reported as made. -/
theorem overlapping_dump_lost : ∃ s, freshMachine.Reachable s ∧
    (CrashEvent.dumped .dumphandlerNoCrash (some ⟨.app 1, exceptionInfo none⟩) 1 true false ∈
        s.log ∧
      .answered .dumphandlerNoCrash (.app 1) true ∈ s.log) := by
  obtain ⟨s, hr, hp⟩ := Machine.exists_reachable (M := freshMachine) (s := crashStart)
    ⟨crashStart_initial, crashStart_newIds⟩ (dumpActions 0 ++ dumpActions 1)
    (p := fun s => decide (CrashEvent.dumped .dumphandlerNoCrash (some ⟨.app 1, exceptionInfo none⟩)
      1 true false ∈ s.log ∧ .answered .dumphandlerNoCrash (.app 1) true ∈ s.log)) (by decide)
  exact ⟨s, hr, of_decide_eq_true hp⟩

end Mdgate.Crash
