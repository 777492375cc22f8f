import Mathlib.Logic.Function.Basic
import Mdgate.Content.BrowserThreadId
import Mdgate.Lib.Machine

/-!
# Browser threads and thread identity

The registry of `BrowserThreadImpl` objects, their `base::Thread` part and the
message loops that are alive. A thread is taken for a browser thread when its
`MessageLoop::current()` is the registered object's `message_loop()`, and either
pointer may be null: between construction and start, and between exit and
destruction, every thread without a `MessageLoop` passes for the browser thread.
`identity_iff` says that this is the only confusion.
-/

namespace Mdgate.Content

open Mdgate.Lib

abbrev Address := Nat

/-- A thread of the process. -/
inductive PlatformThread where
  | main
  | browser (id : ID)
  /-- A worker, a callback thread, or the thread of another `base::Thread`. -/
  | other (n : Nat)
  deriving DecidableEq, Repr

def PlatformThread.isBrowser : PlatformThread → Bool
  | browser _ => true
  | _ => false

/-- Where `ThreadMain` is. -/
inductive ThreadMain where
  | absent
  | entered
  | loopCreated
  | init
  | run
  | cleanUp
  | loopCleared
  | returned
  deriving DecidableEq, Repr

namespace ThreadMain

/-- The event that `StartWithOptions` waits for is signalled. -/
def signalled : ThreadMain → Bool
  | run | cleanUp | loopCleared | returned => true
  | _ => false

def hasLoop : ThreadMain → Bool
  | loopCreated | init | run | cleanUp | loopCleared => true
  | _ => false

def hasPointer : ThreadMain → Bool
  | init | run | cleanUp => true
  | _ => false

end ThreadMain

/-- The fields of a `BrowserThreadImpl` and its `Thread`. -/
structure BrowserThreadImpl where
  started : Bool
  stopping : Bool
  messageLoop : Option Address
  threadMain : ThreadMain
  deriving DecidableEq, Repr

structure Threads where
  threads : ID → Option BrowserThreadImpl
  current : PlatformThread → Option Address
  loops : Address → Option PlatformThread

namespace ID

/-- The thread that runs the message loop of `id`. -/
def platformThread : ID → PlatformThread
  | ui => .main
  | id => .browser id

end ID

namespace Threads

/-! ## Queries -/

/-- `CurrentlyOn`, called on `x`. -/
def currentlyOn (s : Threads) (x : PlatformThread) (identifier : ID) : Bool :=
  match s.threads identifier with
  | some t => t.messageLoop == s.current x
  | none => false

def getCurrentThreadIdentifier (s : Threads) (x : PlatformThread) : Option ID :=
  ID.all.find? fun i => s.currentlyOn x i

/-- What `PostTaskHelper` does: whether it skips the lock, and the loop it posts to. -/
structure Post where
  lockFree : Bool
  messageLoop : Option Address
  deriving DecidableEq, Repr

def Post.result (p : Post) : Bool := p.messageLoop.isSome

/-- `PostTaskHelper`, called on `x`. -/
def postTaskHelper (s : Threads) (x : PlatformThread) (identifier : ID) : Post :=
  { lockFree := match s.getCurrentThreadIdentifier x with
      | some currentThread => decide (currentThread.index ≥ identifier.index)
      | none => false
    messageLoop := (s.threads identifier).bind (·.messageLoop) }

inductive Destruction where
  | inline
  | posted
  | leaked
  deriving DecidableEq, Repr

/-- `DeleteOnThread::Destruct`, called on `x`; `DeleteSoon` posts to the thread. -/
def destruct (s : Threads) (x : PlatformThread) (thread : ID) : Destruction :=
  if s.currentlyOn x thread then .inline
  else if (s.postTaskHelper x thread).result then .posted
  else .leaked

/-! ## Lifecycle -/

def setThread (s : Threads) (id : ID) (t : Option BrowserThreadImpl) : Threads :=
  { s with threads := Function.update s.threads id t }

def bindLoop (s : Threads) (x : PlatformThread) (a : Address) : Threads :=
  { s with
    current := Function.update s.current x (some a)
    loops := Function.update s.loops a (some x) }

def unbindLoop (s : Threads) (x : PlatformThread) (a : Address) : Threads :=
  { s with
    current := Function.update s.current x none
    loops := Function.update s.loops a none }

/-- The next step of `ThreadMain`; a new `MessageLoop` is made at `a`. -/
def threadMain (s : Threads) (id : ID) (t : BrowserThreadImpl) (a : Address) : Option Threads :=
  match t.threadMain with
  | .absent | .returned => none
  | .entered =>
    if s.loops a = none then
      some ((s.bindLoop id.platformThread a).setThread id
        (some { t with threadMain := .loopCreated }))
    else none
  | .loopCreated =>
    some (s.setThread id
      (some { t with messageLoop := s.current id.platformThread, threadMain := .init }))
  | .init => some (s.setThread id (some { t with threadMain := .run }))
  | .run => some (s.setThread id (some { t with threadMain := .cleanUp }))
  | .cleanUp =>
    some (s.setThread id (some { t with messageLoop := none, threadMain := .loopCleared }))
  | .loopCleared =>
    (s.current id.platformThread).map fun a =>
      (s.unbindLoop id.platformThread a).setThread id (some { t with threadMain := .returned })

inductive Action where
  /-- A `MessageLoop` on the main thread or on a thread that is no browser thread. -/
  | newMessageLoop (x : PlatformThread) (a : Address)
  | deleteMessageLoop (x : PlatformThread)
  | construct (id : ID)
  | create (id : ID)
  | startReturns (id : ID)
  | stopSoon (id : ID)
  /-- The rest of `Stop`. -/
  | join (id : ID)
  /-- The rest of the destructor, once `Stop` has returned. -/
  | destroy (id : ID)
  | threadMain (id : ID) (a : Address)
  deriving DecidableEq, Repr

/-- One step. The main thread's `MessageLoop` outlives the object of `UI`, as the
order of `BrowserMainLoop`'s members has it. -/
def step (s : Threads) : Action → Option Threads
  | .newMessageLoop x a =>
    if x.isBrowser = false ∧ s.current x = none ∧ s.loops a = none then some (s.bindLoop x a)
    else none
  | .deleteMessageLoop x =>
    if x.isBrowser = false ∧ (x = .main → s.threads .ui = none) then
      (s.current x).map fun a => s.unbindLoop x a
    else none
  | .construct id =>
    match s.threads id, id with
    | some _, _ => none
    | none, .ui => (s.current .main).map fun a =>
        s.setThread .ui (some ⟨false, false, some a, .absent⟩)
    | none, id => some (s.setThread id (some ⟨false, false, none, .absent⟩))
  | .create id =>
    (s.threads id).bind fun t =>
      if t.started = false ∧ t.threadMain = .absent ∧ t.messageLoop = none then
        some (s.setThread id (some { t with threadMain := .entered }))
      else none
  | .startReturns id =>
    (s.threads id).bind fun t =>
      if t.started = false ∧ t.threadMain.signalled = true then
        some (s.setThread id (some { t with started := true }))
      else none
  | .stopSoon id =>
    (s.threads id).bind fun t =>
      if t.started = true then
        if t.stopping || t.messageLoop.isNone then some s
        else some (s.setThread id (some { t with stopping := true }))
      else none
  | .join id =>
    (s.threads id).bind fun t =>
      if t.started = true ∧ t.threadMain = .returned then
        some (s.setThread id
          (some { t with started := false, stopping := false, threadMain := .absent }))
      else none
  | .destroy id =>
    (s.threads id).bind fun t =>
      if t.started = false ∧ t.threadMain = .absent then some (s.setThread id none) else none
  | .threadMain id a => (s.threads id).bind fun t => s.threadMain id t a

end Threads

/-- Browser threads are constructed, started, stopped and destroyed in any order. -/
def threadsMachine : Machine Threads Threads.Action :=
  ⟨(· = ⟨fun _ => none, fun _ => none, fun _ => none⟩), Threads.step⟩

/-! ## The invariant -/

namespace Threads

variable {s s' : Threads} {id : ID} {x : PlatformThread}

/-- The entry of `id` and the current loop `cur` of its thread. -/
def Agrees (id : ID) (entry : Option BrowserThreadImpl) (cur : Option Address) : Prop :=
  match entry with
  | none => id = .ui ∨ cur = none
  | some t =>
    if id = .ui then
      t.threadMain = .absent ∧ t.started = false ∧ t.messageLoop = cur ∧ cur.isSome = true
    else
      t.messageLoop = (if t.threadMain.hasPointer then cur else none) ∧
        cur.isSome = t.threadMain.hasLoop

theorem agrees_sub {t : BrowserThreadImpl} {cur : Option Address} (hid : id ≠ .ui) :
    Agrees id (some t) cur ↔ t.messageLoop = (if t.threadMain.hasPointer then cur else none) ∧
      cur.isSome = t.threadMain.hasLoop := by
  simp [Agrees, hid]

structure Inv (s : Threads) : Prop where
  bound : ∀ x a, s.current x = some a → s.loops a = some x
  agrees : ∀ id, Agrees id (s.threads id) (s.current id.platformThread)

theorem platformThread_injective {a b : ID} (h : a.platformThread = b.platformThread) : a = b := by
  cases a <;> cases b <;> first | rfl | cases h

theorem platformThread_of_not_isBrowser (hx : x.isBrowser = false) (h : id.platformThread = x) :
    id = .ui := by
  cases id <;> subst h <;> first | rfl | cases hx

theorem Inv.setThread (h : s.Inv) {e : Option BrowserThreadImpl}
    (he : Agrees id e (s.current id.platformThread)) : (s.setThread id e).Inv := by
  refine ⟨h.bound, fun id' => ?_⟩
  by_cases hid : id' = id
  · subst hid
    simpa [Threads.setThread] using he
  · simpa [Threads.setThread, hid] using h.agrees id'

theorem bound_bindLoop (h : ∀ x a, s.current x = some a → s.loops a = some x) {a : Address}
    (ha : s.loops a = none) (y : PlatformThread) (b : Address)
    (hy : (s.bindLoop x a).current y = some b) : (s.bindLoop x a).loops b = some y := by
  by_cases hyx : y = x
  · subst hyx
    obtain rfl : a = b := by simpa [bindLoop] using hy
    simp [bindLoop]
  · have hy' : s.current y = some b := by simpa [bindLoop, hyx] using hy
    have hba : b ≠ a := by
      rintro rfl
      rw [h y b hy'] at ha
      cases ha
    simpa [bindLoop, hba] using h y b hy'

theorem bound_unbindLoop (h : ∀ x a, s.current x = some a → s.loops a = some x) {a : Address}
    (ha : s.current x = some a) (y : PlatformThread) (b : Address)
    (hy : (s.unbindLoop x a).current y = some b) : (s.unbindLoop x a).loops b = some y := by
  by_cases hyx : y = x
  · subst hyx
    simp [unbindLoop] at hy
  · have hy' : s.current y = some b := by simpa [unbindLoop, hyx] using hy
    have hba : b ≠ a := by
      rintro rfl
      exact hyx (Option.some.inj ((h y b hy').symm.trans (h x b ha)))
    simpa [unbindLoop, hba] using h y b hy'

/-- A step on the loop of `x` concerns only the entry that `x` belongs to. -/
theorem Inv.of_current (h : s.Inv) (hb : ∀ x a, s'.current x = some a → s'.loops a = some x)
    (hc : ∀ y, y ≠ x → s'.current y = s.current y)
    (ht : ∀ id, id.platformThread ≠ x → s'.threads id = s.threads id)
    (ha : ∀ id, id.platformThread = x → Agrees id (s'.threads id) (s'.current x)) : s'.Inv := by
  refine ⟨hb, fun id => ?_⟩
  by_cases hid : id.platformThread = x
  · rw [hid]
    exact ha id hid
  · rw [hc _ hid, ht id hid]
    exact h.agrees id

theorem Inv.ne_ui (h : s.Inv) {t : BrowserThreadImpl} (ht : s.threads id = some t)
    (hstart : t.started = true ∨ t.threadMain ≠ .absent ∨ t.messageLoop = none) : id ≠ .ui := by
  rintro rfl
  have hA := h.agrees .ui
  rw [ht] at hA
  obtain ⟨habsent, hstarted, hloop, hcur⟩ := hA
  rcases hstart with h1 | h2 | h3
  · simp [hstarted] at h1
  · exact h2 habsent
  · simp [← hloop, h3] at hcur

/-- A step that leaves the pointer and the loop of a started thread as they are. -/
theorem Inv.update (h : s.Inv) {t t' : BrowserThreadImpl} (ht : s.threads id = some t)
    (hid : id ≠ .ui) (hloop : t'.messageLoop = t.messageLoop)
    (hpointer : t'.threadMain.hasPointer = t.threadMain.hasPointer)
    (hhas : t'.threadMain.hasLoop = t.threadMain.hasLoop) :
    (s.setThread id (some t')).Inv := by
  have hA := h.agrees id
  rw [ht, agrees_sub hid] at hA
  refine h.setThread ((agrees_sub hid).mpr ⟨?_, hA.2.trans hhas.symm⟩)
  rw [hloop, hpointer, hA.1]

theorem Inv.threadMain (h : s.Inv) {t : BrowserThreadImpl} (ht : s.threads id = some t)
    {a : Address} (hs : s.threadMain id t a = some s') : s'.Inv := by
  have hid : id ≠ .ui := by
    refine h.ne_ui ht (.inr (.inl fun habsent => ?_))
    simp [Threads.threadMain, habsent] at hs
  have hA := h.agrees id
  rw [ht] at hA
  obtain ⟨hloop, hcur⟩ := (agrees_sub hid).mp hA
  cases hpc : t.threadMain with
  | absent => simp [Threads.threadMain, hpc] at hs
  | returned => simp [Threads.threadMain, hpc] at hs
  | entered =>
    simp only [Threads.threadMain, hpc] at hs
    obtain ⟨hfree, rfl⟩ := Machine.guard_eq_some hs
    rw [hpc] at hloop
    refine h.of_current (x := id.platformThread) (bound_bindLoop h.bound hfree) ?_ ?_ ?_
    · intro y hy
      simp [Threads.setThread, bindLoop, hy]
    · intro id' hid'
      have hne : id' ≠ id := fun heq => hid' (heq ▸ rfl)
      simp [Threads.setThread, bindLoop, hne]
    · intro id' hid'
      obtain rfl := platformThread_injective hid'
      simpa [Threads.setThread, bindLoop, agrees_sub hid, ThreadMain.hasPointer,
        ThreadMain.hasLoop] using hloop
  | loopCreated =>
    simp only [Threads.threadMain, hpc, Option.some.injEq] at hs
    rw [hpc] at hcur
    exact hs ▸ h.setThread ((agrees_sub hid).mpr ⟨rfl, hcur⟩)
  | init =>
    simp only [Threads.threadMain, hpc, Option.some.injEq] at hs
    exact hs ▸ h.update ht hid rfl (by rw [hpc]; rfl) (by rw [hpc]; rfl)
  | run =>
    simp only [Threads.threadMain, hpc, Option.some.injEq] at hs
    exact hs ▸ h.update ht hid rfl (by rw [hpc]; rfl) (by rw [hpc]; rfl)
  | cleanUp =>
    simp only [Threads.threadMain, hpc, Option.some.injEq] at hs
    rw [hpc] at hcur
    exact hs ▸ h.setThread ((agrees_sub hid).mpr ⟨rfl, hcur⟩)
  | loopCleared =>
    simp only [Threads.threadMain, hpc] at hs
    obtain ⟨b, hb, rfl⟩ := Option.map_eq_some_iff.mp hs
    rw [hpc] at hloop
    refine h.of_current (x := id.platformThread) (bound_unbindLoop h.bound hb) ?_ ?_ ?_
    · intro y hy
      simp [Threads.setThread, unbindLoop, hy]
    · intro id' hid'
      have hne : id' ≠ id := fun heq => hid' (heq ▸ rfl)
      simp [Threads.setThread, unbindLoop, hne]
    · intro id' hid'
      obtain rfl := platformThread_injective hid'
      simpa [Threads.setThread, unbindLoop, agrees_sub hid, ThreadMain.hasPointer,
        ThreadMain.hasLoop] using hloop

theorem inv_step (h : s.Inv) {a : Action} (hs : s.step a = some s') : s'.Inv := by
  cases a with
  | newMessageLoop x a =>
    obtain ⟨⟨hx, hnone, hfree⟩, rfl⟩ := Machine.guard_eq_some hs
    refine h.of_current (x := x) (bound_bindLoop h.bound hfree) ?_ (fun id _ => rfl) ?_
    · intro y hy
      simp [bindLoop, hy]
    · intro id hid
      obtain rfl := platformThread_of_not_isBrowser hx hid
      have hA := h.agrees .ui
      rw [hid, hnone] at hA
      cases ht : s.threads .ui with
      | none => simp [bindLoop, ht, Agrees]
      | some t => simp [ht, Agrees] at hA
  | deleteMessageLoop x =>
    obtain ⟨⟨hx, hui⟩, hs⟩ := Option.ite_none_right_eq_some.mp hs
    obtain ⟨a, ha, rfl⟩ := Option.map_eq_some_iff.mp hs
    refine h.of_current (x := x) (bound_unbindLoop h.bound ha) ?_ (fun id _ => rfl) ?_
    · intro y hy
      simp [unbindLoop, hy]
    · intro id hid
      obtain rfl := platformThread_of_not_isBrowser hx hid
      simp [unbindLoop, hui hid.symm, Agrees]
  | construct id =>
    have hA := h.agrees id
    cases ht : s.threads id with
    | some t => simp [step, ht] at hs
    | none =>
      by_cases hid : id = .ui
      · subst hid
        simp only [step, ht] at hs
        obtain ⟨a, ha, rfl⟩ := Option.map_eq_some_iff.mp hs
        apply h.setThread
        simp [Agrees, ID.platformThread, ha]
      · have hs' : s.setThread id (some ⟨false, false, none, .absent⟩) = s' := by
          cases id <;> simp_all [step]
        rw [ht] at hA
        have hcur := hA.resolve_left hid
        exact hs' ▸ h.setThread ((agrees_sub hid).mpr ⟨rfl, by simp [hcur, ThreadMain.hasLoop]⟩)
  | create id =>
    obtain ⟨t, ht, hs⟩ := Option.bind_eq_some_iff.mp hs
    obtain ⟨⟨-, hpc, hloop⟩, rfl⟩ := Machine.guard_eq_some hs
    exact h.update ht (h.ne_ui ht (.inr (.inr hloop))) rfl (by rw [hpc]; rfl) (by rw [hpc]; rfl)
  | startReturns id =>
    obtain ⟨t, ht, hs⟩ := Option.bind_eq_some_iff.mp hs
    obtain ⟨⟨-, hpc⟩, rfl⟩ := Machine.guard_eq_some hs
    refine h.update ht (h.ne_ui ht (.inr (.inl ?_))) rfl rfl rfl
    intro habsent
    rw [habsent] at hpc
    cases hpc
  | stopSoon id =>
    obtain ⟨t, ht, hs⟩ := Option.bind_eq_some_iff.mp hs
    obtain ⟨hstarted, hs⟩ := Option.ite_none_right_eq_some.mp hs
    split at hs
    · exact Option.some.inj hs ▸ h
    · exact Option.some.inj hs ▸ h.update ht (h.ne_ui ht (.inl hstarted)) rfl rfl rfl
  | join id =>
    obtain ⟨t, ht, hs⟩ := Option.bind_eq_some_iff.mp hs
    obtain ⟨⟨hstarted, hpc⟩, rfl⟩ := Machine.guard_eq_some hs
    exact h.update ht (h.ne_ui ht (.inl hstarted)) rfl (by rw [hpc]; rfl) (by rw [hpc]; rfl)
  | destroy id =>
    obtain ⟨t, ht, hs⟩ := Option.bind_eq_some_iff.mp hs
    obtain ⟨⟨-, hpc⟩, rfl⟩ := Machine.guard_eq_some hs
    apply h.setThread
    have hA := h.agrees id
    by_cases hid : id = .ui
    · exact .inl hid
    · rw [ht, agrees_sub hid, hpc] at hA
      exact .inr (by simpa [ThreadMain.hasLoop] using hA.2)
  | threadMain id a =>
    obtain ⟨t, ht, hs⟩ := Option.bind_eq_some_iff.mp hs
    exact h.threadMain ht hs

theorem inv_reach (h : threadsMachine.Reachable s) : s.Inv := by
  refine h.invariant (I := Inv) ?_ fun s a s' hI _ hs => inv_step (a := a) hI hs
  rintro _ rfl
  refine ⟨?_, fun id => .inr rfl⟩
  rintro x a ⟨⟩

/-! ## Thread identity -/

def RunsLoopOf (s : Threads) (x : PlatformThread) (id : ID) : Prop :=
  ∃ t a, s.threads id = some t ∧ t.messageLoop = some a ∧ s.loops a = some x

/-- The thread `x` is taken for no other. -/
structure Identified (s : Threads) (x : PlatformThread) : Prop where
  currentlyOn : ∀ id, s.currentlyOn x id = true → s.RunsLoopOf x id
  identifier : ∀ id, s.getCurrentThreadIdentifier x = some id → s.RunsLoopOf x id
  unique : ∀ id id', s.currentlyOn x id = true → s.currentlyOn x id' = true → id = id'
  lockFree : ∀ target, (s.postTaskHelper x target).lockFree = true → ∃ id, s.RunsLoopOf x id
  inline : ∀ id, s.destruct x id = .inline → s.RunsLoopOf x id

theorem currentlyOn_iff : s.currentlyOn x id = true ↔
    ∃ t, s.threads id = some t ∧ t.messageLoop = s.current x := by
  cases ht : s.threads id <;> simp [currentlyOn, ht]

/-- A registered pointer is the loop of the thread of that identifier. -/
theorem Inv.messageLoop (h : s.Inv) {t : BrowserThreadImpl} (ht : s.threads id = some t)
    {a : Address} (ha : t.messageLoop = some a) : s.current id.platformThread = some a := by
  have hA := h.agrees id
  rw [ht] at hA
  by_cases hid : id = .ui
  · subst hid
    exact hA.2.2.1 ▸ ha
  · rw [agrees_sub hid, ha] at hA
    cases hp : t.threadMain.hasPointer
    · simp [hp] at hA
    · simpa [hp, eq_comm] using hA.1

/-- A thread with a loop of its own that is on `id` is the thread of `id`. -/
theorem Inv.runsLoopOf (h : s.Inv) {a : Address} (ha : s.current x = some a)
    (hon : s.currentlyOn x id = true) : s.RunsLoopOf x id ∧ x = id.platformThread := by
  obtain ⟨t, ht, hloop⟩ := currentlyOn_iff.mp hon
  rw [ha] at hloop
  have hx := h.bound x a ha
  have hid := h.bound _ a (h.messageLoop ht hloop)
  exact ⟨⟨t, a, ht, hloop, hx⟩, Option.some.inj (hx.symm.trans hid)⟩

theorem getCurrentThreadIdentifier_on (h : s.getCurrentThreadIdentifier x = some id) :
    s.currentlyOn x id = true := by
  simpa using List.find?_some h

theorem identified_of_on (hon : ∀ id, s.currentlyOn x id = true →
    s.RunsLoopOf x id ∧ x = id.platformThread) : s.Identified x where
  currentlyOn id h := (hon id h).1
  identifier id h := (hon id (getCurrentThreadIdentifier_on h)).1
  unique id id' h h' := platformThread_injective ((hon id h).2.symm.trans (hon id' h').2)
  lockFree target h := by
    cases hc : s.getCurrentThreadIdentifier x with
    | none => simp [postTaskHelper, hc] at h
    | some id => exact ⟨id, (hon id (getCurrentThreadIdentifier_on hc)).1⟩
  inline id h := by
    by_cases hc : s.currentlyOn x id = true
    · exact (hon id hc).1
    · rw [destruct, if_neg hc] at h
      split at h <;> cases h

/-- **Thread identity**: a thread is taken for no other exactly when it has a
`MessageLoop` of its own or every registered object has a `message_loop()`. -/
theorem identity_iff (hr : threadsMachine.Reachable s) (x : PlatformThread) :
    s.Identified x ↔ (s.current x).isSome = true ∨
      ∀ id t, s.threads id = some t → t.messageLoop.isSome = true := by
  constructor
  · intro h
    refine or_iff_not_imp_left.mpr fun hx id t ht => ?_
    by_contra hloop
    rw [Bool.not_eq_true, Option.isSome_eq_false_iff, Option.isNone_iff_eq_none] at hx hloop
    -- both pointers are null
    obtain ⟨t', a, ht', ha, -⟩ :=
      h.currentlyOn id (currentlyOn_iff.mpr ⟨t, ht, hloop.trans hx.symm⟩)
    obtain rfl := Option.some.inj (ht.symm.trans ht')
    rw [hloop] at ha
    cases ha
  · intro h
    have hI := inv_reach hr
    refine identified_of_on fun id hon => ?_
    obtain ⟨t, ht, hloop⟩ := currentlyOn_iff.mp hon
    obtain ⟨a, ha⟩ : ∃ a, s.current x = some a := by
      rw [← Option.isSome_iff_exists]
      rcases h with h | h
      · exact h
      · exact hloop ▸ h id t ht
    exact hI.runsLoopOf ha hon

/-- While the object of `DB` is not started, the main thread is taken for itself only, and a thread
without a `MessageLoop` is taken for `DB`. -/
theorem identity_main : ∃ s, threadsMachine.Reachable s ∧ s.currentlyOn .main .ui = true ∧
    s.Identified .main ∧ ¬ s.Identified (.other 0) := by
  obtain ⟨s, hr, hs⟩ := Machine.exists_reachable (M := threadsMachine) rfl
    [.newMessageLoop .main 1, .construct .ui, .construct .db]
    (p := fun s => (s.current .main).isSome && s.currentlyOn .main .ui &&
      (s.current (.other 0)).isNone && (s.threads .db).any (·.messageLoop.isNone)) (by decide)
  simp only [Bool.and_eq_true, Option.isNone_iff_eq_none, Option.any_eq_true] at hs
  obtain ⟨⟨⟨hcur, hon⟩, hother⟩, t, ht, hnone⟩ := hs
  refine ⟨s, hr, hon, (identity_iff hr .main).mpr (.inl hcur), fun h => ?_⟩
  rcases (identity_iff hr (.other 0)).mp h with h | h
  · simp [hother] at h
  · have hsome := h .db t ht
    simp [hnone] at hsome

/-- A worker thread asks while the object of `DB` is not started yet. -/
theorem not_identity : ¬ ∀ s, threadsMachine.Reachable s → ∀ x, s.Identified x := by
  intro h
  obtain ⟨s, hr, hs⟩ := Machine.exists_reachable (M := threadsMachine) rfl
    [.newMessageLoop .main 1, .construct .ui, .construct .db]
    (p := fun s => s.currentlyOn (.other 0) .db && (s.threads .db).all (·.messageLoop.isNone))
    (by decide)
  obtain ⟨hon, hnone⟩ := Bool.and_eq_true_iff.mp hs
  obtain ⟨t, a, ht, ha, -⟩ := (h s hr (.other 0)).currentlyOn .db hon
  simp [ht, ha] at hnone

end Threads

end Mdgate.Content
