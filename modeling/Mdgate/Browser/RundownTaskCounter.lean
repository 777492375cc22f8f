import Mathlib.Algebra.Ring.Int.Defs
import Mathlib.Algebra.Ring.Nat
import Mdgate.Lib.Machine

/-!
# The rundown counter of `EndSession`

`RundownTaskCounter` counts the `Decrement` tasks it posts, one more for
`TimedWait`, and signals its event when the count gets to zero. `Post` counts a
task before it asks the task runner, and does not look at the answer: a task
that was rejected stays counted. `rundown_signals_iff` says that this and the
width of the count are all that can go wrong.

The threads take their steps in any order; a call is split where another thread
can come between.
-/

namespace Mdgate.Browser

open Mdgate.Lib

/-- `NoBarrier_AtomicIncrement` on an `Atomic32`. -/
def atomicIncrement (value increment : Int) : Int := (value + increment).bmod (2 ^ 32)

structure RundownTaskCounter where
  count : Int
  signals : Nat
  /-- The calls of `Post` that have counted their task and not posted it yet. -/
  posting : Nat
  pending : Nat
  rejected : Nat
  /-- The calls of `Decrement` that have found zero and not signalled yet. -/
  signalling : Nat
  waited : Bool
  deriving DecidableEq, Repr

namespace RundownTaskCounter

/-- `RundownTaskCounter::RundownTaskCounter`. -/
def new : RundownTaskCounter := ⟨1, 0, 0, 0, 0, 0, false⟩

/-- `Decrement`, up to the call of `Signal`. -/
def decrement (c : RundownTaskCounter) : RundownTaskCounter :=
  let count := atomicIncrement c.count (-1)
  { c with
    count := count
    signalling := if count != 0 then c.signalling else c.signalling + 1 }

inductive Action where
  /-- `Post` counts its task. -/
  | count
  /-- `PostNonNestableTask` returns. -/
  | post (accepted : Bool)
  | runTask
  /-- A call of `Decrement` signals. -/
  | signal
  | timedWait
  deriving DecidableEq, Repr

/-- One step of one thread. `TimedWait` is called once, after the calls of `Post`. -/
def step (c : RundownTaskCounter) : Action → Option RundownTaskCounter
  | .count =>
    if c.waited = false then
      some { c with count := atomicIncrement c.count 1, posting := c.posting + 1 }
    else none
  | .post accepted =>
    if 0 < c.posting then
      some { c with
        posting := c.posting - 1
        pending := if accepted then c.pending + 1 else c.pending
        rejected := if accepted then c.rejected else c.rejected + 1 }
    else none
  | .runTask => if 0 < c.pending then some { c with pending := c.pending - 1 }.decrement else none
  | .signal =>
    if 0 < c.signalling then
      some { c with signalling := c.signalling - 1, signals := c.signals + 1 }
    else none
  | .timedWait =>
    if c.waited = false ∧ c.posting = 0 then some { c with waited := true }.decrement else none

end RundownTaskCounter

def rundownMachine : Machine RundownTaskCounter RundownTaskCounter.Action :=
  ⟨(· = .new), RundownTaskCounter.step⟩

namespace RundownTaskCounter

/-! ## What it is for -/

/-- `TimedWait` has been entered, every accepted task has run, and no call of
`Decrement` is under way. -/
def Finished (c : RundownTaskCounter) : Prop :=
  c.waited = true ∧ c.pending = 0 ∧ c.signalling = 0

structure Good (c : RundownTaskCounter) : Prop where
  nonneg : 0 ≤ c.count
  once : c.signals ≤ 1
  notEarly : 0 < c.signals → c.waited = true ∧ c.pending = 0
  complete : c.Finished → c.signals = 1

def counted (c : RundownTaskCounter) : Nat := c.posting + c.pending + c.rejected

/-- There is room for another task in the count. -/
def Fits (c : RundownTaskCounter) (a : Action) : Prop := a = .count → c.counted < 2 ^ 31 - 2

/-! ## The invariant -/

structure Inv (c : RundownTaskCounter) : Prop where
  count : c.count = c.counted + if c.waited then 0 else 1
  width : c.counted < 2 ^ 31 - 1
  posted : c.waited = true → c.posting = 0
  signals : c.signals + c.signalling = if c.count = 0 then 1 else 0

variable {c c' : RundownTaskCounter}

theorem atomicIncrement_eq {value increment : Int} (hlo : -2 ^ 31 ≤ value + increment)
    (hhi : value + increment < 2 ^ 31) : atomicIncrement value increment = value + increment := by
  unfold atomicIncrement
  rw [Int.bmod_def]
  split <;> omega

theorem decrement_eq (hpos : 0 < c.count) (hwidth : c.count < 2 ^ 31) : c.decrement =
    { c with
      count := c.count - 1
      signalling := if c.count = 1 then c.signalling + 1 else c.signalling } := by
  have hcount : atomicIncrement c.count (-1) = c.count - 1 := by
    rw [atomicIncrement_eq] <;> omega
  by_cases h1 : c.count = 1
  · rw [h1] at hcount
    simp [decrement, hcount, h1]
  · have hne : c.count - 1 ≠ 0 := by omega
    simp [decrement, hcount, h1, hne]

theorem inv_new : new.Inv := ⟨rfl, by decide, (nomatch ·), rfl⟩

theorem inv_step {a : Action} (h : c.Inv) (hf : c.Fits a) (hs : c.step a = some c') : c'.Inv := by
  obtain ⟨hcount, hwidth, hposted, hsignals⟩ := h
  unfold counted at hcount hwidth
  cases a with
  | count =>
    obtain ⟨hw, rfl⟩ := Machine.guard_eq_some hs
    have hfit := hf rfl
    unfold counted at hfit
    rw [hw] at hcount
    simp only [Bool.false_eq_true, if_false] at hcount
    have hne : c.count ≠ 0 := by omega
    rw [if_neg hne] at hsignals
    have hnext : atomicIncrement c.count 1 = c.count + 1 := by
      rw [atomicIncrement_eq] <;> omega
    refine ⟨?_, ?_, fun hw' => ?_, ?_⟩
    · show atomicIncrement c.count 1 = _
      rw [hnext, hw, hcount]
      simp [counted]
      omega
    · show c.posting + 1 + c.pending + c.rejected < _
      omega
    · exact absurd (hw.symm.trans hw') Bool.false_ne_true
    · show c.signals + c.signalling = if atomicIncrement c.count 1 = 0 then 1 else 0
      rw [hnext, hsignals, if_neg (by omega)]
  | post accepted =>
    obtain ⟨hp, rfl⟩ := Machine.guard_eq_some hs
    refine ⟨?_, ?_, fun hw => absurd (hposted hw) (by omega), hsignals⟩
    · cases accepted <;> simp [counted, hcount] <;> omega
    · cases accepted <;> simp [counted] <;> omega
  | runTask =>
    obtain ⟨hp, rfl⟩ := Machine.guard_eq_some hs
    have hb : (0 : Int) ≤ if c.waited = true then 0 else 1 := by split <;> omega
    have hb' : (if c.waited = true then 0 else 1 : Int) ≤ 1 := by split <;> omega
    have hpos : 0 < c.count := by omega
    rw [if_neg (by omega)] at hsignals
    rw [decrement_eq (c := { c with pending := c.pending - 1 }) hpos (by show c.count < _; omega)]
    refine ⟨?_, ?_, hposted, ?_⟩
    · show c.count - 1 = ((c.posting + (c.pending - 1) + c.rejected : Nat) : Int) +
        if c.waited = true then 0 else 1
      omega
    · show c.posting + (c.pending - 1) + c.rejected < _
      omega
    · show c.signals + (if c.count = 1 then c.signalling + 1 else c.signalling) =
        if c.count - 1 = 0 then 1 else 0
      split <;> split <;> omega
  | signal =>
    obtain ⟨hp, rfl⟩ := Machine.guard_eq_some hs
    refine ⟨hcount, hwidth, hposted, ?_⟩
    rw [← hsignals]
    show c.signals + 1 + (c.signalling - 1) = _
    omega
  | timedWait =>
    obtain ⟨⟨hw, hp⟩, rfl⟩ := Machine.guard_eq_some hs
    rw [hw] at hcount
    simp only [Bool.false_eq_true, if_false] at hcount
    have hpos : 0 < c.count := by omega
    rw [if_neg (by omega)] at hsignals
    rw [decrement_eq (c := { c with waited := true }) hpos (by show c.count < _; omega)]
    refine ⟨?_, hwidth, fun _ => hp, ?_⟩
    · show c.count - 1 = ((c.posting + c.pending + c.rejected : Nat) : Int) + 0
      omega
    · show c.signals + (if c.count = 1 then c.signalling + 1 else c.signalling) =
        if c.count - 1 = 0 then 1 else 0
      split <;> split <;> omega

theorem inv_reach (h : rundownMachine.Reach Fits c) : c.Inv :=
  h.invariant (fun _ h0 => h0 ▸ inv_new) fun _ _ _ hI hf hs => inv_step hI hf hs

/-! ## When the event is signalled -/

theorem Inv.count_eq_zero_iff (h : c.Inv) :
    c.count = 0 ↔ c.waited = true ∧ c.pending = 0 ∧ c.rejected = 0 := by
  have hcount := h.count
  unfold counted at hcount
  cases hw : c.waited with
  | false =>
    rw [hw] at hcount
    simp only [Bool.false_eq_true, if_false, false_and, iff_false] at hcount ⊢
    omega
  | true =>
    have hp := h.posted hw
    rw [hw] at hcount
    simp only [if_true, true_and] at hcount ⊢
    omega

/-- **The rundown**: while the count fits, the event is signalled exactly when
nothing is outstanding, unless a task runner has rejected a task; and one task
more makes the count negative. -/
theorem rundown_signals_iff (hr : rundownMachine.Reach Fits c) :
    (c.Good ↔ (c.Finished → c.rejected = 0)) ∧
      ∀ a c', c.step a = some c' → ¬ c.Fits a → ¬ c'.Good := by
  have h := inv_reach hr
  have hzero := h.count_eq_zero_iff
  have hsignals := h.signals
  refine ⟨⟨fun hg hf => ?_, fun hf => ?_⟩, fun a c' hs hfit hg => ?_⟩
  · have h1 := hg.complete hf
    by_contra hrej
    rw [if_neg fun h0 => hrej (hzero.mp h0).2.2] at hsignals
    omega
  · refine ⟨?_, ?_, fun hpos => ?_, fun hfin => ?_⟩
    · rw [h.count]
      split <;> omega
    · split at hsignals <;> omega
    · have h0 : c.count = 0 := by
        by_contra hne
        rw [if_neg hne] at hsignals
        omega
      exact ⟨(hzero.mp h0).1, (hzero.mp h0).2.1⟩
    · obtain ⟨hw, hp, hs⟩ := hfin
      rw [if_pos (hzero.mpr ⟨hw, hp, hf ⟨hw, hp, hs⟩⟩), hs] at hsignals
      exact hsignals
  · obtain ⟨rfl, hlarge⟩ := Classical.not_imp.mp hfit
    obtain ⟨hw, rfl⟩ := Machine.guard_eq_some hs
    have hneg := hg.nonneg
    have hcount := h.count
    have hwidth := h.width
    rw [hw] at hcount
    simp only [Bool.false_eq_true, if_false] at hcount
    have hmax : c.count = 2 ^ 31 - 1 := by omega
    -- the increment wraps
    have hwrap : atomicIncrement (2 ^ 31 - 1) 1 < 0 := by decide
    have hneg' : 0 ≤ atomicIncrement c.count 1 := hneg
    rw [hmax] at hneg'
    omega

/-- One task, accepted and run before `TimedWait`. -/
theorem rundown_signals_one : ∃ c, rundownMachine.Reach Fits c ∧ c.Finished ∧ c.Good := by
  have h1 : rundownMachine.Reach Fits ⟨2, 0, 1, 0, 0, 0, false⟩ :=
    .step (a := .count) (.init rfl) (fun _ => by decide) rfl
  have h2 : rundownMachine.Reach Fits ⟨2, 0, 0, 1, 0, 0, false⟩ :=
    .step (a := .post true) h1 (fun h => nomatch h) rfl
  have h3 : rundownMachine.Reach Fits ⟨1, 0, 0, 0, 0, 0, false⟩ :=
    .step (a := .runTask) h2 (fun h => nomatch h) rfl
  have h4 : rundownMachine.Reach Fits ⟨0, 0, 0, 0, 0, 1, true⟩ :=
    .step (a := .timedWait) h3 (fun h => nomatch h) rfl
  have h5 : rundownMachine.Reach Fits ⟨0, 1, 0, 0, 0, 0, true⟩ :=
    .step (a := .signal) h4 (fun h => nomatch h) rfl
  exact ⟨_, h5, ⟨rfl, rfl, rfl⟩, (rundown_signals_iff h5).1.mpr fun _ => rfl⟩

/-- A task runner rejects the task, as it does once its thread has gone. -/
theorem not_rundown_signals : ¬ ∀ c, rundownMachine.Reachable c → c.Good := by
  intro h
  obtain ⟨c, hr, hc⟩ := Machine.exists_reachable (M := rundownMachine) rfl
    [.count, .post false, .timedWait]
    (p := fun c => c.waited && c.pending == 0 && c.signalling == 0 && c.signals == 0) (by decide)
  simp only [Bool.and_eq_true, beq_iff_eq] at hc
  obtain ⟨⟨⟨hw, hp⟩, hs⟩, h0⟩ := hc
  have h1 := (h c hr).complete ⟨hw, hp, hs⟩
  omega

end RundownTaskCounter

end Mdgate.Browser
