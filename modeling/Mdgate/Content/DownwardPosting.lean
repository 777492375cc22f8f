import Mdgate.Content.ThreadLifetime

/-!
# Posting to a thread that outlives the poster

`PostTaskHelper` skips the lock for a target that is not after the current
thread in the enumeration. Every object goes through the stages of the main
thread's calls on it, and by `BrowserMain.outlives` those before a registered
object are in the stage between start and stop. `downward_posting` assembles
what follows for the posts and for the tasks posted.
-/

namespace Mdgate.Content

open Mdgate.Lib

/-! ## The lifetime of an object -/

namespace ThreadMain

def starting : ThreadMain → Bool
  | entered | loopCreated | init | run => true
  | _ => false

def ending : ThreadMain → Bool
  | cleanUp | loopCleared | returned => true
  | _ => false

variable {pc pc' : ThreadMain}

theorem starting_next (h : pc.starting = true) (hrun : pc ≠ run) (hn : pc.next = some pc') :
    pc'.starting = true := by
  cases pc <;> cases h <;> cases hn <;> first | rfl | exact absurd rfl hrun

theorem ending_next (h : pc.ending = true) (hn : pc.next = some pc') : pc'.ending = true := by
  cases pc <;> cases h <;> cases hn <;> rfl

theorem run_of_signalled (h : pc.starting = true) (hs : pc.signalled = true) : pc = run := by
  cases pc <;> simp_all [starting, signalled]

end ThreadMain

/-- The entry of a thread started by the main thread, after so many calls on it. -/
inductive Lifetime (pump : Pump) : Nat → Option BrowserThreadImpl → Prop where
  | unmade : pump ≠ .quit → Lifetime pump 0 none
  | constructed {t : BrowserThreadImpl} : t.threadMain = .absent → pump ≠ .quit →
      Lifetime pump 1 (some t)
  | starting {t : BrowserThreadImpl} : t.threadMain.starting = true → pump ≠ .quit →
      Lifetime pump 2 (some t)
  | running {t : BrowserThreadImpl} : t.threadMain = .run → pump ≠ .quit → Lifetime pump 3 (some t)
  | stopping {t : BrowserThreadImpl} : t.threadMain = .run → Lifetime pump 4 (some t)
  | ending {t : BrowserThreadImpl} : t.threadMain.ending = true → pump = .quit →
      Lifetime pump 4 (some t)
  | joined {t : BrowserThreadImpl} : t.threadMain = .absent → pump = .quit →
      Lifetime pump 5 (some t)
  | destroyed : pump = .quit → Lifetime pump 6 none

namespace Lifetime

variable {pump pump' : Pump} {k : Nat} {e e' : Option BrowserThreadImpl} {t : BrowserThreadImpl}

theorem isSome_iff (h : Lifetime pump k e) : e.isSome = true ↔ 1 ≤ k ∧ k ≤ 5 := by
  cases h <;> simp

theorem call {id : ID} {a : Threads.Action} (h : Lifetime pump k e)
    (ha : [Threads.Action.construct id, .create id, .startReturns id, .stopSoon id, .join id,
      .destroy id][k]? = some a)
    (hc : Threads.Call id a e e') : Lifetime pump (k + 1) e' := by
  cases h with
  | unmade hp =>
    obtain rfl := Option.some.inj ha
    cases hc
    exact .constructed rfl hp
  | constructed hpc hp =>
    obtain rfl := Option.some.inj ha
    cases hc
    exact .starting rfl hp
  | starting hpc hp =>
    obtain rfl := Option.some.inj ha
    obtain ⟨⟩ | ⟨⟩ | ⟨-, hsignalled⟩ := hc
    exact .running (ThreadMain.run_of_signalled hpc hsignalled) hp
  | running hpc hp =>
    obtain rfl := Option.some.inj ha
    cases hc
    exact .stopping hpc
  | stopping hpc =>
    obtain rfl := Option.some.inj ha
    cases hc with
    | join _ hret =>
      rw [hpc] at hret
      cases hret
  | ending hpc hp =>
    obtain rfl := Option.some.inj ha
    cases hc
    exact .joined rfl hp
  | joined hpc hp =>
    obtain rfl := Option.some.inj ha
    cases hc
    exact .destroyed hp
  | destroyed hp => cases ha

/-- `ThreadMain` takes a step; it leaves `Run` only with the pump. -/
theorem threadMain {pc : ThreadMain} (h : Lifetime pump k (some t))
    (hpc : t.threadMain.next = some pc) (hrun : t.threadMain = .run → pump = .quit)
    (m : Option Address) :
    Lifetime pump k (some { t with messageLoop := m, threadMain := pc }) := by
  cases h with
  | constructed h | joined h =>
    rw [h] at hpc
    cases hpc
  | starting h hp =>
    exact .starting (ThreadMain.starting_next h (fun hr => hp (hrun hr)) hpc) hp
  | running h hp => exact absurd (hrun h) hp
  | stopping h =>
    rw [h] at hpc
    obtain rfl := Option.some.inj hpc
    exact .ending rfl (hrun h)
  | ending h hp => exact .ending (ThreadMain.ending_next h hpc) hp

/-- The pump of a thread that is in `Run` takes a step. -/
theorem pump_step (h : Lifetime pump k (some t)) (hrun : t.threadMain = .run)
    (hp : pump' = .quit → 4 ≤ k) : Lifetime pump' k (some t) := by
  cases h with
  | constructed h | joined h =>
    rw [hrun] at h
    cases h
  | starting h => exact .starting h fun hq => by simpa using hp hq
  | running h => exact .running h fun hq => by simpa using hp hq
  | stopping h => exact .stopping h
  | ending h =>
    rw [hrun] at h
    cases h

theorem four_le_of_quit (h : Lifetime .quit k e) : 4 ≤ k := by
  cases h with
  | unmade hp | constructed _ hp | starting _ hp | running _ hp => exact absurd rfl hp
  | stopping | ending | joined | destroyed => decide

theorem run_or_quit (h : Lifetime pump k (some t)) (hk : 4 ≤ k) :
    t.threadMain = .run ∨ pump = .quit := by
  cases h with
  | constructed | starting | running => exact absurd hk (by decide)
  | stopping hrun => exact .inl hrun
  | ending _ hp | joined _ hp => exact .inr hp

end Lifetime

/-! ## The tasks of a thread -/

namespace Worker

/-- What is posted from here on is not run any more, or was posted too late. -/
def Settled (v : Worker) : Prop :=
  v.pump = .quit ∨ (v.pump = .doIdleWork ∧ v.loop.quitWhenIdleReceived = true)

/-- The worker of `id` after `k` calls of the main thread on `id`. -/
structure Inv (v : Worker) (id : ID) (k fresh : Nat) : Prop where
  plain : v.Plain
  quits : threadQuitHelper ∈ v.pending.map (·.task) ∨ v.pump = .runTask threadQuitHelper ∨
    v.loop.quitWhenIdleReceived = true → 4 ≤ k
  fifo : v.posted.map (·.task) =
    v.ran ++ (v.pending.map (·.task)).filter (· != threadQuitHelper)
  increasing : (v.posted.map (·.task)).Pairwise (· < ·)
  tasks : ∀ p ∈ v.posted, threadQuitHelper < p.task ∧ p.task < fresh
  settled : v.Settled → ∀ p ∈ v.posted, p.downward id → p.task ∈ v.ran
  early : k ≤ 1 → v.posted = []

variable {v v' : Worker} {id : ID} {k k' fresh fresh' : Nat}

theorem Inv.mono (h : v.Inv id k fresh) (hk : k ≤ k') (hf : fresh ≤ fresh') :
    v.Inv id k' fresh' where
  plain := h.plain
  quits hq := Nat.le_trans (h.quits hq) hk
  fifo := h.fifo
  increasing := h.increasing
  tasks p hp := ⟨(h.tasks p hp).1, Nat.lt_of_lt_of_le (h.tasks p hp).2 hf⟩
  settled := h.settled
  early hk' := h.early (Nat.le_trans hk hk')

theorem Inv.quitHelper (h : v.Inv id k fresh) (hk : 4 ≤ k) :
    (v.post threadQuitHelper true).Inv id k fresh := by
  obtain ⟨p, hp, -, hpending⟩ := post_pending h.plain threadQuitHelper true
  refine ⟨post_plain h.plain _ _, fun _ => hk, ?_, h.increasing, h.tasks, h.settled, h.early⟩
  rw [hpending, List.map_append, List.filter_append]
  simpa [hp, Worker.post] using h.fifo

theorem Inv.post (h : v.Inv id k fresh) (hk : 2 ≤ k) (hfresh : threadQuitHelper < fresh)
    {p : Posting} (hp : p.task = fresh) (hsettled : v.Settled → ¬ p.downward id)
    (nestable : Bool) :
    { v.post fresh nestable with posted := v.posted ++ [p] }.Inv id k (fresh + 1) := by
  obtain ⟨q, hq, -, hpending⟩ := post_pending h.plain fresh nestable
  have hne : fresh ≠ threadQuitHelper := Nat.ne_of_gt hfresh
  refine ⟨?_, ?_, ?_, ?_, ?_, ?_, fun hk' => ?_⟩
  · have hplain := post_plain h.plain fresh nestable
    exact ⟨hplain.runDepth, hplain.messageLoop, hplain.deferred, hplain.delayed, hplain.immediate⟩
  · intro hquits
    refine h.quits (hquits.imp_left fun hmem => ?_)
    change _ ∈ (v.post fresh nestable).pending.map _ at hmem
    rw [hpending] at hmem
    simpa [hq, hne.symm] using hmem
  · change _ = v.ran ++ ((v.post fresh nestable).pending.map _).filter _
    rw [hpending, List.map_append, List.map_append, List.filter_append, ← List.append_assoc,
      ← h.fifo]
    simp [hq, hp, hne]
  · rw [List.map_append, List.pairwise_append]
    refine ⟨h.increasing, List.pairwise_singleton _ _, ?_⟩
    intro a ha b hb
    obtain ⟨x, hx, rfl⟩ := List.mem_map.mp ha
    obtain rfl := List.mem_singleton.mp hb
    simpa only [hp] using (h.tasks x hx).2
  · intro x hx
    rcases List.mem_append.mp hx with hx | hx
    · exact ⟨(h.tasks x hx).1, Nat.lt_succ_of_lt (h.tasks x hx).2⟩
    · obtain rfl := List.mem_singleton.mp hx
      exact ⟨hp ▸ hfresh, hp ▸ Nat.lt_succ_self _⟩
  · intro hs x hx hdown
    rcases List.mem_append.mp hx with hx | hx
    · exact h.settled hs x hx hdown
    · obtain rfl := List.mem_singleton.mp hx
      exact absurd hdown (hsettled hs)
  · omega

theorem Inv.step (h : v.Inv id k fresh) (hs : v.step = some v') : v'.Inv id k fresh := by
  obtain ⟨hstep, hplain, hposted⟩ := step_spec h.plain hs
  have hfifo := h.fifo
  cases hstep with
  | idle hp hpending hp' hpending' hran hquit =>
    -- both queues are empty, so all that was posted has run
    have hall : v'.posted.map (·.task) = v'.ran := by
      rw [hposted, hran, hfifo, hpending]
      simp
    refine ⟨hplain, ?_, ?_, hposted ▸ h.increasing, hposted ▸ h.tasks, ?_, hposted ▸ h.early⟩
    · rintro (hq | hq | hq)
      · simp [hpending'] at hq
      · rw [hp'] at hq
        cases hq
      · exact h.quits (.inr (.inr (hquit ▸ hq)))
    · rw [hall, hpending']
      simp
    · intro _ p hmem _
      exact hall ▸ List.mem_map_of_mem hmem
  | run p hp hpending hp' hran hquit =>
    have hmap : v.pending.map (·.task) = p.task :: v'.pending.map (·.task) := by
      rw [hpending, List.map_cons]
    refine ⟨hplain, ?_, ?_, hposted ▸ h.increasing, hposted ▸ h.tasks, ?_, hposted ▸ h.early⟩
    · rintro (hq | hq | hq)
      · exact h.quits (.inl (hmap ▸ List.mem_cons_of_mem _ hq))
      · rw [hp'] at hq
        injection hq with hq
        exact h.quits (.inl (hmap ▸ hq ▸ List.mem_cons_self))
      · exact h.quits (.inr (.inr (hquit ▸ hq)))
    · rw [hposted, hfifo, hmap, hran]
      by_cases hq : p.task = threadQuitHelper <;> simp [hq]
    · rintro (hq | ⟨hq, -⟩) <;> simp [hp'] at hq
  | didRun task hp hp' hpending hran hquit =>
    refine ⟨hplain, ?_, ?_, hposted ▸ h.increasing, hposted ▸ h.tasks, ?_, hposted ▸ h.early⟩
    · rintro (hq | hq | hq)
      · exact h.quits (.inl (hpending ▸ hq))
      · rw [hp'] at hq
        cases hq
      · rw [hquit, Bool.or_eq_true, beq_iff_eq] at hq
        rcases hq with hq | rfl
        · exact h.quits (.inr (.inr hq))
        · exact h.quits (.inr (.inl hp))
    · rw [hposted, hran, hpending, hfifo]
    · rintro (hq | ⟨hq, -⟩) <;> simp [hp'] at hq
  | doneIdle hp hp' hpending hran hquit =>
    refine ⟨hplain, ?_, ?_, hposted ▸ h.increasing, hposted ▸ h.tasks, ?_, hposted ▸ h.early⟩
    · rintro (hq | hq | hq)
      · exact h.quits (.inl (hpending ▸ hq))
      · rw [hp'] at hq
        split at hq <;> cases hq
      · exact h.quits (.inr (.inr (hquit ▸ hq)))
    · rw [hposted, hran, hpending, hfifo]
    · intro hsettled
      have hquits : v.loop.quitWhenIdleReceived = true := by
        by_contra hno
        rw [if_neg hno] at hp'
        rcases hsettled with hq | ⟨hq, -⟩ <;> simp [hp'] at hq
      rw [hposted, hran]
      exact h.settled (.inr ⟨hp, hquits⟩)
  | wake hp hp' hpending hran hquit =>
    refine ⟨hplain, ?_, ?_, hposted ▸ h.increasing, hposted ▸ h.tasks, ?_, hposted ▸ h.early⟩
    · rintro (hq | hq | hq)
      · exact h.quits (.inl (hpending ▸ hq))
      · rw [hp'] at hq
        cases hq
      · exact h.quits (.inr (.inr (hquit ▸ hq)))
    · rw [hposted, hran, hpending, hfifo]
    · rintro (hq | ⟨hq, -⟩) <;> simp [hp'] at hq

theorem Inv.quit (h : v.Inv id k fresh) (hs : v.step = some v') (hq : v'.pump = .quit) : 4 ≤ k := by
  obtain ⟨hstep, -, -⟩ := step_spec h.plain hs
  cases hstep with
  | idle _ _ hp' => simp [hp'] at hq
  | run p _ _ hp' => simp [hp'] at hq
  | didRun task _ hp' => simp [hp'] at hq
  | doneIdle _ hp' =>
    refine h.quits (.inr (.inr ?_))
    by_contra hno
    rw [hp', if_neg hno] at hq
    cases hq
  | wake _ hp' => simp [hp'] at hq

end Worker

/-! ## The process -/

/-- A registered thread whose `message_loop_` is set, or the main thread. -/
theorem Threads.Inv.exists_messageLoop {s : Threads} (h : s.Inv) {id : ID} {t : BrowserThreadImpl}
    (ht : s.threads id = some t) (hp : id = .ui ∨ t.threadMain.hasPointer = true) :
    ∃ a, t.messageLoop = some a := by
  rw [← Option.isSome_iff_exists]
  have hA := h.agrees id
  rw [ht] at hA
  by_cases hid : id = .ui
  · subst hid
    exact hA.2.2.1 ▸ hA.2.2.2
  · have hpointer := hp.resolve_left hid
    rw [Threads.agrees_sub hid, if_pos hpointer] at hA
    rw [hA.1, hA.2]
    cases hpc : t.threadMain <;> rw [hpc] at hpointer <;> first | rfl | cases hpointer

/-- The thread of a registered loop is on that thread only. -/
theorem Threads.Inv.getCurrentThreadIdentifier {s : Threads} (h : s.Inv) {id : ID}
    {t : BrowserThreadImpl} (ht : s.threads id = some t) {a : Address}
    (ha : t.messageLoop = some a) :
    s.getCurrentThreadIdentifier id.platformThread = some id := by
  have hcur := h.messageLoop ht ha
  have hon : s.currentlyOn id.platformThread id = true :=
    Threads.currentlyOn_iff.mpr ⟨t, ht, ha.trans hcur.symm⟩
  cases hg : s.getCurrentThreadIdentifier id.platformThread with
  | none => exact absurd hon (List.find?_eq_none.mp hg id (ID.mem_all id))
  | some i =>
    have hi := (h.runsLoopOf hcur (Threads.getCurrentThreadIdentifier_on hg)).2
    rw [Threads.platformThread_injective hi]

namespace World

structure Inv (w : World) : Prop where
  threads : w.threads.Inv
  next : w.next ≤ BrowserMain.script.length
  fresh : threadQuitHelper < w.fresh
  ui : (w.threads.threads .ui).isSome = true ↔ BrowserMain.progress w.next .ui = 1
  lifetime : ∀ id, id ≠ .ui →
    Lifetime (w.workers id).pump (BrowserMain.progress w.next id) (w.threads.threads id)
  worker : ∀ id, id ≠ .ui → (w.workers id).Inv id (BrowserMain.progress w.next id) w.fresh

variable {w w' : World} {c t : ID}

theorem codeRuns_cases (h : w.codeRuns c = true) : ∃ e, w.threads.threads c = some e ∧
    (c = .ui ∨ e.threadMain = .init ∨ e.threadMain = .cleanUp ∨
      (e.threadMain = .run ∧ ∃ n, (w.workers c).pump = .runTask n)) := by
  unfold codeRuns at h
  cases he : w.threads.threads c with
  | none => simp [he] at h
  | some e =>
    refine ⟨e, rfl, ?_⟩
    simp only [he, Bool.or_eq_true, beq_iff_eq] at h
    refine h.imp_right fun h => ?_
    cases hpc : e.threadMain <;> simp only [hpc] at h <;> try cases h
    · exact .inl rfl
    · refine .inr (.inr ⟨rfl, ?_⟩)
      cases hp : (w.workers c).pump <;> simp [hp] at h ⊢
    · exact .inr (.inl rfl)

/-- While `c` is registered, the threads before it have been started and not been stopped. -/
theorem Inv.outlives (h : w.Inv) (hlt : t.index < c.index)
    (hc : (w.threads.threads c).isSome = true) :
    BrowserMain.progress w.next t = if t = .ui then 1 else 3 := by
  have hui : c ≠ .ui := by
    rintro rfl
    exact absurd hlt (Nat.not_lt_zero _)
  obtain ⟨h1, h5⟩ := (h.lifetime c hui).isSome_iff.mp hc
  exact BrowserMain.outlives w.next h.next t (ID.mem_all t) c (ID.mem_all c) hlt h1 h5

theorem Inv.segment (h : w.Inv) (hle : t.index ≤ c.index)
    (hc : (w.threads.threads c).isSome = true) : (w.threads.threads t).isSome = true := by
  rcases Nat.lt_or_eq_of_le hle with hlt | heq
  · have hp := h.outlives hlt hc
    by_cases ht : t = .ui
    · subst ht
      exact h.ui.mpr (by simpa using hp)
    · rw [if_neg ht] at hp
      exact (h.lifetime t ht).isSome_iff.mpr (by omega)
  · exact ID.index_injective heq ▸ hc

/-- The loop that code on `c` finds for a thread not after `c`. -/
theorem Inv.exists_messageLoop (h : w.Inv) (hrun : w.codeRuns c = true)
    (hle : t.index ≤ c.index) :
    ∃ e a, w.threads.threads t = some e ∧ e.messageLoop = some a := by
  obtain ⟨e, he, hpc⟩ := codeRuns_cases hrun
  have hc : (w.threads.threads c).isSome = true := by rw [he]; rfl
  obtain ⟨e', he'⟩ := Option.isSome_iff_exists.mp (h.segment hle hc)
  suffices hp : t = .ui ∨ e'.threadMain.hasPointer = true by
    obtain ⟨a, ha⟩ := h.threads.exists_messageLoop he' hp
    exact ⟨e', a, he', ha⟩
  refine or_iff_not_imp_left.mpr fun hui => ?_
  rcases Nat.lt_or_eq_of_le hle with hlt | heq
  · have hlife := h.lifetime t hui
    rw [h.outlives hlt hc, if_neg hui, he'] at hlife
    cases hlife with
    | running hrun' => rw [hrun']; rfl
  · obtain rfl := ID.index_injective heq
    obtain rfl := Option.some.inj (he.symm.trans he')
    rcases hpc.resolve_left hui with hpc | hpc | ⟨hpc, -⟩ <;> rw [hpc] <;> rfl

theorem Inv.new (a : Address) : (new a).Inv := by
  refine ⟨?_, Nat.zero_le _, Nat.zero_lt_one, ?_, ?_, ?_⟩
  · apply Threads.inv_reach
    refine .step (a := .newMessageLoop .main a) (.init rfl) trivial ?_
    rfl
  · simp [World.new, Threads.bindLoop, Script.progress]
  · intro id _
    exact .unmade (by simp [World.new, Worker.new])
  · intro id _
    refine ⟨⟨rfl, rfl, rfl, rfl, ?_⟩, ?_, rfl, .nil, ?_, ?_, fun _ => rfl⟩
    · rintro p ⟨⟩
    · rintro (hq | hq | hq) <;> simp [World.new, Worker.new, Worker.pending, Base.MessageLoop.new,
        Base.IncomingTaskQueue.new] at hq
    · rintro p ⟨⟩
    · rintro - p ⟨⟩

theorem Inv.main (h : w.Inv) {a : Threads.Action} {id : ID} {e : Option BrowserThreadImpl}
    (ha : BrowserMain.script[w.next]? = some a) (hid : a.target = some id)
    (hc : Threads.Call id a (w.threads.threads id) e) (hthreads : (w.threads.setThread id e).Inv)
    {workers : ID → Worker}
    (hother : ∀ i, a ≠ .stopSoon i → workers i = w.workers i)
    (hstop : ∀ i, a = .stopSoon i → workers i = w.workers i ∨
      workers i = (w.workers i).post threadQuitHelper true) :
    (World.mk (w.threads.setThread id e) (w.next + 1) workers w.fresh).Inv := by
  have hsucc := BrowserMain.progress_succ ha hid
  have hpump : ∀ i, (workers i).pump = (w.workers i).pump := by
    intro i
    by_cases hi : a = .stopSoon i
    · rcases hstop i hi with hw | hw <;> rw [hw]
      rfl
    · rw [hother i hi]
  refine ⟨hthreads, ?_, h.fresh, ?_, fun i hui => ?_, fun i hui => ?_⟩
  · exact (List.getElem?_eq_some_iff.mp ha).1
  · change ((w.threads.setThread id e).threads .ui).isSome = true ↔
      BrowserMain.progress (w.next + 1) .ui = 1
    by_cases hui : .ui = id
    · subst hui
      have hcall := BrowserMain.call_ui ha hid
      rw [hsucc]
      generalize BrowserMain.progress w.next .ui = k at hcall ⊢
      generalize w.threads.threads .ui = e₀ at hc
      match k with
      | 0 =>
        obtain rfl := Option.some.inj hcall
        cases hc
        simp [Threads.setThread]
      | 1 =>
        obtain rfl := Option.some.inj hcall
        cases hc
        simp [Threads.setThread]
      | _ + 2 => cases hcall
    · rw [BrowserMain.progress_succ_of_ne ha hid hui]
      simpa [Threads.setThread, hui] using h.ui
  · change Lifetime (workers i).pump (BrowserMain.progress (w.next + 1) i)
      ((w.threads.setThread id e).threads i)
    rw [hpump i]
    by_cases hi : i = id
    · subst hi
      rw [hsucc]
      simpa [Threads.setThread] using
        (h.lifetime i hui).call (BrowserMain.call_subThread hui ha hid) hc
    · rw [BrowserMain.progress_succ_of_ne ha hid hi]
      simpa [Threads.setThread, hi] using h.lifetime i hui
  · have hk : BrowserMain.progress w.next i ≤ BrowserMain.progress (w.next + 1) i := by
      by_cases hi : i = id
      · rw [hi, hsucc]
        exact Nat.le_succ _
      · rw [BrowserMain.progress_succ_of_ne ha hid hi]
    have hmono := (h.worker i hui).mono hk (Nat.le_refl _)
    show (workers i).Inv i (BrowserMain.progress (w.next + 1) i) w.fresh
    by_cases hi : a = .stopSoon i
    · subst hi
      obtain rfl : i = id := Option.some.inj hid
      rcases hstop i rfl with hw | hw <;> rw [hw]
      · exact hmono
      · apply hmono.quitHelper
        rw [hsucc, BrowserMain.progress_stopSoon hui ha]
    · rw [hother i hi]
      exact hmono

theorem Inv.threadMain (h : w.Inv) {id : ID} {e : BrowserThreadImpl} {a : Address} {s : Threads}
    (he : w.threads.threads id = some e)
    (hrun : e.threadMain = .run → (w.workers id).pump = .quit)
    (hs : w.threads.step (.threadMain id a) = some s) : { w with threads := s }.Inv := by
  have hs' : w.threads.threadMain id e a = some s := by simpa [Threads.step, he] using hs
  obtain ⟨pc, m, hpc, hthreads⟩ := Threads.threadMain_threads hs'
  have hid : id ≠ .ui := by
    refine h.threads.ne_ui he (.inr (.inl fun habsent => ?_))
    rw [habsent] at hpc
    cases hpc
  refine ⟨Threads.inv_step h.threads hs, h.next, h.fresh, ?_, fun i hui => ?_, h.worker⟩
  · rw [hthreads, Function.update_of_ne hid.symm]
    exact h.ui
  · by_cases hi : i = id
    · subst hi
      rw [hthreads, Function.update_self]
      exact (he ▸ h.lifetime i hui).threadMain hpc hrun m
    · rw [hthreads, Function.update_of_ne hi]
      exact h.lifetime i hui

theorem Inv.setWorker (h : w.Inv) {id : ID} {v : Worker} {fresh : Nat} (hfresh : w.fresh ≤ fresh)
    (hlife : id ≠ .ui →
      Lifetime v.pump (BrowserMain.progress w.next id) (w.threads.threads id))
    (hv : id ≠ .ui → v.Inv id (BrowserMain.progress w.next id) fresh) :
    { w.setWorker id v with fresh := fresh }.Inv := by
  refine ⟨h.threads, h.next, Nat.lt_of_lt_of_le h.fresh hfresh, h.ui, fun i hui => ?_,
    fun i hui => ?_⟩
  · by_cases hi : i = id
    · subst hi
      simpa [World.setWorker] using hlife hui
    · simpa [World.setWorker, hi] using h.lifetime i hui
  · by_cases hi : i = id
    · subst hi
      simpa [World.setWorker] using hv hui
    · simpa [World.setWorker, hi] using (h.worker i hui).mono (Nat.le_refl _) hfresh

/-- A task for a thread that is settled is not promised to run. -/
theorem Inv.not_downward (h : w.Inv) (hrun : w.codeRuns c = true) (hui : t ≠ .ui)
    (hs : (w.workers t).Settled) :
    ¬ Posting.downward ⟨w.fresh, c, (w.workers c).pump != .quit⟩ t := by
  obtain ⟨e, he, hpc⟩ := codeRuns_cases hrun
  have hstopped : 4 ≤ BrowserMain.progress w.next t := by
    rcases hs with hq | ⟨-, hq⟩
    · exact (hq ▸ h.lifetime t hui).four_le_of_quit
    · exact (h.worker t hui).quits (.inr (.inr hq))
  rintro (hlt | ⟨heq, hloop⟩)
  · -- `t` outlives `c`, so it has not been told to stop
    have hp := h.outlives hlt (by rw [he]; rfl)
    rw [if_neg hui] at hp
    omega
  · obtain rfl : c = t := heq
    have hquit : (w.workers c).pump ≠ .quit := by simpa using hloop
    have hidle : (w.workers c).pump = .doIdleWork := (hs.resolve_left hquit).1
    have hrun := ((he ▸ h.lifetime c hui).run_or_quit hstopped).resolve_right hquit
    rcases hpc.resolve_left hui with hpc | hpc | ⟨-, n, hn⟩
    · rw [hrun] at hpc
      cases hpc
    · rw [hrun] at hpc
      cases hpc
    · rw [hidle] at hn
      cases hn

/-- A loop is found only for a thread that has started. -/
theorem Inv.two_le (h : w.Inv) (hui : t ≠ .ui) {e : BrowserThreadImpl}
    (he : w.threads.threads t = some e) {a : Address} (ha : e.messageLoop = some a) :
    2 ≤ BrowserMain.progress w.next t := by
  have hlife := he ▸ h.lifetime t hui
  generalize BrowserMain.progress w.next t = k at hlife ⊢
  cases hlife with
  | constructed hpc =>
    have hA := h.threads.agrees t
    rw [he, Threads.agrees_sub hui, hpc, ha] at hA
    exact absurd hA.1 (by simp [ThreadMain.hasPointer])
  | starting | running | stopping | ending | joined => decide

theorem eq_stopSoon {s : Threads} {a : Threads.Action} {id : ID}
    (h : postsQuitHelper s a = some id) : a = .stopSoon id := by
  cases a with
  | stopSoon i =>
    obtain ⟨e, -, he⟩ := Option.bind_eq_some_iff.mp h
    rw [Option.some.inj (Option.ite_none_left_eq_some.mp he).2]
  | _ => cases h

theorem inv_step (h : w.Inv) {a : Action} (hs : w.step a = some w') : w'.Inv := by
  cases a with
  | main =>
    obtain ⟨a, ha, hs⟩ := Option.bind_eq_some_iff.mp hs
    obtain ⟨s, hstep, rfl⟩ := Option.map_eq_some_iff.mp hs
    obtain ⟨id, hid⟩ := Option.isSome_iff_exists.mp
      (BrowserMain.target_isSome (List.mem_of_getElem? ha))
    obtain ⟨e, hc, rfl⟩ := Threads.step_call hstep hid
    have hthreads := Threads.inv_step h.threads hstep
    cases hq : postsQuitHelper w.threads a with
    | none => exact h.main ha hid hc hthreads (fun _ _ => rfl) fun _ _ => .inl rfl
    | some i =>
      obtain rfl := eq_stopSoon hq
      refine h.main ha hid hc hthreads (fun j hj => ?_) fun j hj => .inr ?_
      · exact Function.update_of_ne (by rintro rfl; exact hj rfl) _ _
      · injection hj with hj
        subst hj
        exact Function.update_self ..
  | threadMain id a =>
    obtain ⟨e, he, hs⟩ := Option.bind_eq_some_iff.mp hs
    obtain ⟨hrun, hs⟩ := Option.ite_none_left_eq_some.mp hs
    obtain ⟨s, hstep, rfl⟩ := Option.map_eq_some_iff.mp hs
    exact h.threadMain he (fun hr => by_contra fun hp => hrun ⟨hr, hp⟩) hstep
  | pump id =>
    obtain ⟨e, he, hs⟩ := Option.bind_eq_some_iff.mp hs
    obtain ⟨hrun, hs⟩ := Option.ite_none_right_eq_some.mp hs
    obtain ⟨v, hv, rfl⟩ := Option.map_eq_some_iff.mp hs
    refine h.setWorker (Nat.le_refl _) (fun hui => ?_) fun hui => (h.worker id hui).step hv
    rw [he]
    exact (he ▸ h.lifetime id hui).pump_step hrun ((h.worker id hui).quit hv)
  | post c t nestable =>
    obtain ⟨hrun, hs⟩ := Option.ite_none_right_eq_some.mp hs
    by_cases hresult : (w.threads.postTaskHelper c.platformThread t).result = true
    · rw [if_pos hresult] at hs
      obtain rfl := Option.some.inj hs
      obtain ⟨e, he, a, ha⟩ : ∃ e, w.threads.threads t = some e ∧ ∃ a, e.messageLoop = some a := by
        obtain ⟨a, ha⟩ := Option.isSome_iff_exists.mp hresult
        obtain ⟨e, he, ha⟩ := Option.bind_eq_some_iff.mp ha
        exact ⟨e, he, a, ha⟩
      refine h.setWorker (Nat.le_succ _) (fun hui => h.lifetime t hui) fun hui => ?_
      exact (h.worker t hui).post (h.two_le hui he ha) h.fresh rfl
        (h.not_downward hrun hui) nestable
    · rw [if_neg hresult] at hs
      exact Option.some.inj hs ▸ h

end World

/-! ## The result -/

/-- What holds of the posts to threads that outlive their posters. -/
structure NoTaskLost (w : World) : Prop where
  /-- The registered threads are an initial segment of the enumeration. -/
  segment : ∀ t c : ID, t.index ≤ c.index → (w.threads.threads c).isSome = true →
    (w.threads.threads t).isSome = true
  /-- What code on `c` finds when it posts to a thread not after `c`. -/
  lockFree : ∀ t c : ID, w.codeRuns c = true → t.index ≤ c.index →
    (w.threads.postTaskHelper c.platformThread t).lockFree = true ∧
      (∃ e a, w.threads.threads t = some e ∧ e.messageLoop = some a) ∧
        (w.threads.postTaskHelper c.platformThread t).result = true
  /-- By the time the entry of `t` is cleared, the task has run exactly once. -/
  once : ∀ t : ID, t ≠ .ui → w.threads.threads t = none → ∀ p ∈ (w.workers t).posted,
    p.downward t → (w.workers t).ran.count p.task = 1
  /-- The tasks run in the order in which they were posted, whoever posted them. -/
  ordered : ∀ t : ID, t ≠ .ui → (w.workers t).ran <+: (w.workers t).posted.map (·.task)

namespace World

variable {w : World}

theorem inv_reach (h : lifetimeMachine.Reachable w) : w.Inv := by
  refine h.invariant (I := Inv) ?_ fun w a w' hI _ hs => inv_step (a := a) hI hs
  rintro _ ⟨a, rfl⟩
  exact .new a

/-- A thread that is not registered has settled, or nothing was posted to it. -/
theorem Inv.ran_of_unregistered (h : w.Inv) {t : ID} (hui : t ≠ .ui)
    (hnone : w.threads.threads t = none) {p : Posting} (hp : p ∈ (w.workers t).posted)
    (hdown : p.downward t) : p.task ∈ (w.workers t).ran := by
  have hlife := h.lifetime t hui
  have hw := h.worker t hui
  rw [hnone] at hlife
  generalize BrowserMain.progress w.next t = k at hlife hw
  cases hlife with
  | unmade =>
    rw [hw.early (Nat.zero_le _)] at hp
    cases hp
  | destroyed hquit => exact hw.settled (.inl hquit) p hp hdown

theorem Inv.ran_sublist (h : w.Inv) {t : ID} (hui : t ≠ .ui) :
    (w.workers t).ran <+: (w.workers t).posted.map (·.task) := by
  rw [(h.worker t hui).fifo]
  exact List.prefix_append _ _

/-- **Downward posting**: in every state of every run no task posted to a thread
that outlives its poster is lost. -/
theorem downward_posting (hr : lifetimeMachine.Reachable w) : NoTaskLost w := by
  have h := inv_reach hr
  refine ⟨fun t c hle => h.segment hle, fun t c hrun hle => ?_, fun t hui hnone p hp hdown => ?_,
    fun t hui => h.ran_sublist hui⟩
  · obtain ⟨e, a, he, ha⟩ := h.exists_messageLoop hrun hle
    obtain ⟨e', a', he', ha'⟩ := h.exists_messageLoop hrun (Nat.le_refl c.index)
    have hcur := h.threads.getCurrentThreadIdentifier he' ha'
    refine ⟨?_, ⟨e, a, he, ha⟩, ?_⟩
    · simp [Threads.postTaskHelper, hcur, hle]
    · simp [Threads.postTaskHelper, Threads.Post.result, he, ha]
  · have hran := h.ran_of_unregistered hui hnone hp hdown
    have hnodup : (w.workers t).ran.Nodup :=
      ((h.worker t hui).increasing.imp Nat.ne_of_lt).sublist (h.ran_sublist hui).sublist
    exact List.count_eq_one_of_mem hnodup hran

/-- A run in which `IO` posts to `CACHE` and to itself, up to the end of both. -/
def cacheRun : List Action :=
  let start (id : ID) (a : Address) (init : List Action) : List Action :=
    [.main, .main, .threadMain id a, .threadMain id a] ++ init ++ [.threadMain id a, .main]
  let stop (id : ID) : List Action :=
    [.pump id, .pump id, .main, .pump id, .pump id, .pump id, .pump id, .threadMain id 0,
      .threadMain id 0, .threadMain id 0, .main, .main]
  .main :: start .db 2 [] ++ start .file 3 [] ++ start .fileUserBlocking 4 [] ++
    start .processLauncher 5 [] ++ start .cache 6 [] ++
    start .io 7 [.post .io .cache true, .post .io .io false] ++ stop .io ++ stop .cache

theorem downward_posting_cache : ∃ w, lifetimeMachine.Reachable w ∧ NoTaskLost w ∧
    w.threads.threads .cache = none ∧ (w.workers .cache).ran = [1] ∧ (w.workers .io).ran = [2] := by
  obtain ⟨w, hr, hw⟩ := Machine.exists_reachable (M := lifetimeMachine) ⟨1, rfl⟩ cacheRun
    (p := fun w => (w.threads.threads .cache).isNone && (w.workers .cache).ran == [1] &&
      (w.workers .io).ran == [2]) (by decide +kernel)
  simp only [Bool.and_eq_true, Option.isNone_iff_eq_none, beq_iff_eq] at hw
  exact ⟨w, hr, downward_posting hr, hw.1.1, hw.1.2, hw.2⟩

end World

end Mdgate.Content
