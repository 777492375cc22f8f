import Mathlib.Logic.Function.Basic
import Mdgate.Lib.Machine

/-!
# Nested run loops

A `RunLoop` runs the pump of its `MessageLoop`, and a task that the pump runs may
run another `RunLoop`. `MessagePump` asks of a pump that each `Run` serves its
delegate until `Quit` is called for it, and that `Quit` ends the most recent
`Run` only: `contract` is that as a stack of runs.

`MessagePumpForUIQt` runs the event loop of the application. Qt does not run that
twice: a second `exec` returns at once, and `quit` ends the one that is running.
So the contract is kept as long as no `RunLoop` is run while another is running,
and by no other run: `run_contract`.
-/

namespace Mdgate.Ui.RunLoops

open Mdgate.Lib

/-! ## The contract -/

/-- What happens at a pump. -/
inductive PumpCall where
  | run
  | service
  | quit
  | returned
  deriving DecidableEq, Repr

/-- The runs of a pump that have not returned, the most recent first, and for each whether
`Quit` was called for it. -/
def contractStep : List Bool → PumpCall → Option (List Bool)
  | runs, .run => some (false :: runs)
  | false :: runs, .service => some (false :: runs)
  | _ :: runs, .quit => some (true :: runs)
  | true :: runs, .returned => some runs
  | _, _ => none

/-- The runs that have not returned after these calls, if all were as they should be. -/
def contract (calls : List PumpCall) : Option (List Bool) := calls.foldlM contractStep []

theorem contract_append (calls : List PumpCall) (c : PumpCall) :
    contract (calls ++ [c]) = (contract calls).bind (contractStep · c) := by
  unfold contract
  rw [List.foldlM_append]
  cases calls.foldlM contractStep [] with
  | none => rfl
  | some runs => exact bind_pure (contractStep runs c)

/-! ## `RunLoop` -/

abbrev RunLoopId := Nat

structure RunLoop where
  previousRunLoop : Option RunLoopId
  runDepth : Nat
  runCalled : Bool
  quitCalled : Bool
  running : Bool
  quitWhenIdleReceived : Bool
  deriving DecidableEq, Repr

/-- `RunLoop::RunLoop`. -/
def RunLoop.new : RunLoop := ⟨none, 0, false, false, false, false⟩

inductive Frame where
  /-- `QCoreApplication::exec`, called by `Run` for the loop `r`, and whether it was told to
  exit. -/
  | exec (r : RunLoopId) (exiting : Bool)
  | task
  deriving DecidableEq, Repr

/-- Qt tells an event loop to exit. -/
def Frame.exit : Frame → Frame
  | exec r _ => exec r true
  | task => task

def Frame.exiting? : Frame → Option Bool
  | exec _ exiting => some exiting
  | task => none

structure State where
  loops : RunLoopId → RunLoop
  runLoop : Option RunLoopId
  stack : List Frame
  pending : Nat
  calls : List PumpCall

namespace State

def start : State := ⟨fun _ => .new, none, [], 0, []⟩

/-- The event loops that are running, and whether they have been told to exit. -/
def exiting (s : State) : List Bool := s.stack.filterMap Frame.exiting?

/-- Code on the UI thread may call into a `RunLoop`: a task, or the code that starts the thread. -/
def inCode (s : State) : Bool :=
  match s.stack with
  | .exec _ _ :: _ => false
  | _ => true

@[simp] def call (s : State) (c : PumpCall) : State := { s with calls := s.calls ++ [c] }

@[simp] def setLoop (s : State) (r : RunLoopId) (l : RunLoop) : State :=
  { s with loops := Function.update s.loops r l }

/-- `MessagePumpForUIQt::Quit`: every event loop of the thread is told to exit. -/
def pumpQuit (s : State) : State := { s.call .quit with stack := s.stack.map Frame.exit }

def quitNow (s : State) : State := if s.runLoop.isSome then s.pumpQuit else s

def quit (s : State) (r : RunLoopId) : State :=
  let s := s.setLoop r { s.loops r with quitCalled := true }
  if (s.loops r).running ∧ s.runLoop = some r then s.quitNow else s

/-- `RunLoop::BeforeRun`, where `Quit` was not called. -/
def beforeRun (s : State) (r : RunLoopId) : State :=
  { s.setLoop r { s.loops r with
      runCalled := true
      previousRunLoop := s.runLoop
      runDepth := s.runLoop.elim 1 fun p => (s.loops p).runDepth + 1
      running := true } with
    runLoop := some r }

def afterRun (s : State) (r : RunLoopId) : State :=
  let s := { s.setLoop r { s.loops r with running := false } with
    runLoop := (s.loops r).previousRunLoop }
  if s.runLoop.any fun p => (s.loops p).quitCalled then s.quitNow else s

/-- `MessagePumpForUIQt::Run`, and `AfterRun` where it returns: `exec` returns at once when an
event loop is running. -/
def pumpRun (s : State) (r : RunLoopId) : State :=
  let s := s.call .run
  if s.exiting ≠ [] then (s.call .returned).afterRun r
  else { s with stack := .exec r false :: s.stack }

def run (s : State) (r : RunLoopId) : State :=
  if (s.loops r).quitCalled then s.setLoop r { s.loops r with runCalled := true }
  else (s.beforeRun r).pumpRun r

def runUntilIdle (s : State) (r : RunLoopId) : State :=
  (s.setLoop r { s.loops r with quitWhenIdleReceived := true }).run r

def quitWhenIdle (s : State) : State :=
  match s.runLoop with
  | some r => s.setLoop r { s.loops r with quitWhenIdleReceived := true }
  | none => s

def doIdleWork (s : State) : State :=
  if s.runLoop.any fun r => (s.loops r).quitWhenIdleReceived then s.pumpQuit else s

end State

/-! ## The machine -/

inductive Action where
  | post
  | service
  | taskReturns
  | idle
  | exitLoop
  | run (r : RunLoopId)
  | runUntilIdle (r : RunLoopId)
  | quit (r : RunLoopId)
  | quitNow
  | quitWhenIdle
  deriving DecidableEq, Repr

/-- A `RunLoop` is run once only. -/
def step (s : State) : Action → Option State
  | .post => some { s with pending := s.pending + 1 }
  | .service =>
    match s.stack with
    | .exec _ false :: _ =>
      if 0 < s.pending then
        some { s.call .service with pending := s.pending - 1, stack := .task :: s.stack }
      else none
    | _ => none
  | .taskReturns =>
    match s.stack with
    | .task :: rest => some { s with stack := rest }
    | _ => none
  | .idle =>
    match s.stack with
    | .exec _ false :: _ => some s.doIdleWork
    | _ => none
  | .exitLoop =>
    match s.stack with
    | .exec r true :: rest => some (({ s with stack := rest }.call .returned).afterRun r)
    | _ => none
  | .run r => if s.inCode ∧ (s.loops r).runCalled = false then some (s.run r) else none
  | .runUntilIdle r =>
    if s.inCode ∧ (s.loops r).runCalled = false then some (s.runUntilIdle r) else none
  | .quit r => if s.inCode then some (s.quit r) else none
  | .quitNow => if s.inCode then some s.quitNow else none
  | .quitWhenIdle => if s.inCode then some s.quitWhenIdle else none

def runLoopMachine : Machine State Action where
  init s := s = .start
  step := step

/-- The guard of a step: no `RunLoop` is run while another one is running. -/
def NoNestedRun (s : State) (a : Action) : Prop :=
  ∀ r, a = .run r ∨ a = .runUntilIdle r → (s.loops r).quitCalled = false → s.runLoop = none

/-! ## One run at a time -/

/-- The only event loop there may be is the one of the `RunLoop` that is running. -/
structure Inv (s : State) : Prop where
  accepted : contract s.calls = some s.exiting
  shape : s.stack = [] ∧ s.runLoop = none ∨
    ∃ r exiting, (s.stack = [.exec r exiting] ∨ s.stack = [.task, .exec r exiting]) ∧
      s.runLoop = some r ∧ (s.loops r).previousRunLoop = none

namespace Inv

variable {s s' : State} {r : RunLoopId}

theorem start : Inv .start := ⟨rfl, .inl ⟨rfl, rfl⟩⟩

theorem frame (h : Inv s) (hc : s'.calls = s.calls) (hs : s'.stack = s.stack)
    (hr : s'.runLoop = s.runLoop)
    (hl : ∀ r, (s'.loops r).previousRunLoop = (s.loops r).previousRunLoop) : Inv s' := by
  refine ⟨?_, ?_⟩
  · unfold State.exiting
    rw [hc, hs]
    exact h.accepted
  · rw [hs, hr]
    apply h.shape.imp_right
    rintro ⟨r, b, hst, hrun, hp⟩
    exact ⟨r, b, hst, hrun, (hl r).trans hp⟩

theorem setLoop (h : Inv s) {l : RunLoop}
    (hl : l.previousRunLoop = (s.loops r).previousRunLoop) : Inv (s.setLoop r l) := by
  refine h.frame rfl rfl rfl fun x => ?_
  by_cases hx : x = r
  · subst hx
    simp only [State.setLoop, Function.update_self]
    exact hl
  · simp only [State.setLoop, Function.update_of_ne hx]

/-- `Quit` while a loop is running: it is told to exit, and there is no other. -/
theorem pumpQuit (h : Inv s) (hr : s.runLoop ≠ none) : Inv s.pumpQuit := by
  rcases h.shape with ⟨-, hnone⟩ | ⟨r, b, hst, hrun, hp⟩
  · exact absurd hnone hr
  · have hacc := h.accepted
    refine ⟨?_, .inr ⟨r, true, ?_, hrun, hp⟩⟩
    · rcases hst with hst | hst <;>
      simp only [State.pumpQuit, State.call, contract_append, hacc, State.exiting, hst] <;> rfl
    · rcases hst with hst | hst
      · exact .inl (by simp [State.pumpQuit, hst, Frame.exit])
      · exact .inr (by simp [State.pumpQuit, hst, Frame.exit])

theorem quitNow (h : Inv s) : Inv s.quitNow := by
  unfold State.quitNow
  split
  · next hsome => exact h.pumpQuit (Option.isSome_iff_ne_none.mp hsome)
  · exact h

theorem quit (h : Inv s) : Inv (s.quit r) := by
  have hset : Inv (s.setLoop r { s.loops r with quitCalled := true }) := h.setLoop rfl
  unfold State.quit
  simp only
  split
  · exact hset.quitNow
  · exact hset

theorem quitWhenIdle (h : Inv s) : Inv s.quitWhenIdle := by
  unfold State.quitWhenIdle
  split
  · exact h.setLoop rfl
  · exact h

theorem doIdleWork (h : Inv s) : Inv s.doIdleWork := by
  unfold State.doIdleWork
  split
  · next hany =>
    refine h.pumpQuit fun hnone => ?_
    rw [hnone] at hany
    cases hany
  · exact h

theorem of_exec {b : Bool} {rest : List Frame} (h : Inv s) (hs : s.stack = .exec r b :: rest) :
    rest = [] ∧ s.runLoop = some r ∧ (s.loops r).previousRunLoop = none := by
  rcases h.shape with ⟨hst, -⟩ | ⟨x, c, hst | hst, hrun, hp⟩
  · rw [hs] at hst
    cases hst
  · rw [hs] at hst
    obtain ⟨⟨rfl, rfl⟩, rfl⟩ : (r = x ∧ b = c) ∧ rest = [] := by simpa using hst
    exact ⟨rfl, hrun, hp⟩
  · rw [hs] at hst
    cases hst

theorem of_task {rest : List Frame} (h : Inv s) (hs : s.stack = .task :: rest) :
    ∃ r b, rest = [.exec r b] ∧ s.runLoop = some r ∧ (s.loops r).previousRunLoop = none := by
  rcases h.shape with ⟨hst, -⟩ | ⟨x, c, hst | hst, hrun, hp⟩
  · rw [hs] at hst
    cases hst
  · rw [hs] at hst
    cases hst
  · rw [hs] at hst
    exact ⟨x, c, (List.cons.inj hst).2, hrun, hp⟩

theorem service {rest : List Frame} (h : Inv s) (hs : s.stack = .exec r false :: rest) :
    Inv { s.call .service with pending := s.pending - 1, stack := .task :: s.stack } := by
  obtain ⟨rfl, hrun, hp⟩ := h.of_exec hs
  refine ⟨?_, .inr ⟨r, false, .inr ?_, hrun, hp⟩⟩
  · have hacc := h.accepted
    unfold State.exiting at hacc ⊢
    rw [hs] at hacc
    show contract (s.calls ++ [.service]) = _
    rw [contract_append, hacc]
    simp only [hs]
    rfl
  · simp only [hs]

theorem taskReturns {rest : List Frame} (h : Inv s) (hs : s.stack = .task :: rest) :
    Inv { s with stack := rest } := by
  obtain ⟨r, b, rfl, hrun, hp⟩ := h.of_task hs
  refine ⟨?_, .inr ⟨r, b, .inl rfl, hrun, hp⟩⟩
  have hacc := h.accepted
  unfold State.exiting at hacc
  rw [hs] at hacc
  exact hacc

/-- The event loop exits, and nothing is left to be quit. -/
theorem exitLoop {rest : List Frame} (h : Inv s) (hs : s.stack = .exec r true :: rest) :
    Inv (({ s with stack := rest }.call .returned).afterRun r) := by
  obtain ⟨rfl, hrun, hp⟩ := h.of_exec hs
  have hacc := h.accepted
  unfold State.exiting at hacc
  rw [hs] at hacc
  have hafter : ({ s with stack := [] }.call .returned).afterRun r =
      { ({ s with stack := [] }.call .returned).setLoop r { s.loops r with running := false } with
        runLoop := none } := by
    simp [State.afterRun, hp]
  rw [hafter]
  refine ⟨?_, .inl ⟨rfl, rfl⟩⟩
  show contract (s.calls ++ [.returned]) = some []
  rw [contract_append, hacc]
  rfl

/-- `Run` with no loop running: the event loop is entered. -/
theorem run (h : Inv s) (hok : (s.loops r).quitCalled = false → s.runLoop = none) :
    Inv (s.run r) := by
  unfold State.run
  split
  · exact h.setLoop rfl
  · next hq =>
    have hnone := hok (Bool.eq_false_iff.mpr hq)
    rcases h.shape with ⟨hst, -⟩ | ⟨x, b, -, hrun, -⟩
    · have hacc := h.accepted
      have hempty : s.exiting = [] := by
        unfold State.exiting
        rw [hst]
        rfl
      have hrun : (s.beforeRun r).pumpRun r =
          { (s.beforeRun r).call .run with stack := [.exec r false] } := by
        show (if s.exiting ≠ [] then _ else _) = _
        rw [if_neg (not_not.mpr hempty)]
        simp [State.beforeRun, hst]
      rw [hrun]
      refine ⟨?_, .inr ⟨r, false, .inl rfl, rfl, ?_⟩⟩
      · show contract (s.calls ++ [.run]) = some [false]
        rw [contract_append, hacc, hempty]
        rfl
      · simp [State.beforeRun, hnone]
    · rw [hnone] at hrun
      cases hrun

theorem step {a : Action} (h : Inv s) (hok : NoNestedRun s a) (hst : step s a = some s') :
    Inv s' := by
  cases a with
  | post =>
    obtain rfl := Option.some.inj hst
    exact h.frame rfl rfl rfl fun _ => rfl
  | service =>
    simp only [RunLoops.step] at hst
    split at hst
    · next x rest hs =>
      obtain ⟨-, rfl⟩ := Machine.guard_eq_some hst
      exact h.service hs
    · cases hst
  | taskReturns =>
    simp only [RunLoops.step] at hst
    split at hst
    · next rest hs =>
      obtain rfl := Option.some.inj hst
      exact h.taskReturns hs
    · cases hst
  | idle =>
    simp only [RunLoops.step] at hst
    split at hst
    · obtain rfl := Option.some.inj hst
      exact h.doIdleWork
    · cases hst
  | exitLoop =>
    simp only [RunLoops.step] at hst
    split at hst
    · next x rest hs =>
      obtain rfl := Option.some.inj hst
      exact h.exitLoop hs
    · cases hst
  | run r =>
    obtain ⟨-, rfl⟩ := Machine.guard_eq_some hst
    exact h.run (hok r (.inl rfl))
  | runUntilIdle r =>
    obtain ⟨-, rfl⟩ := Machine.guard_eq_some hst
    have hset : Inv (s.setLoop r { s.loops r with quitWhenIdleReceived := true }) := h.setLoop rfl
    refine hset.run fun hq => hok r (.inr rfl) ?_
    simpa using hq
  | quit r =>
    obtain ⟨-, rfl⟩ := Machine.guard_eq_some hst
    exact h.quit
  | quitNow =>
    obtain ⟨-, rfl⟩ := Machine.guard_eq_some hst
    exact h.quitNow
  | quitWhenIdle =>
    obtain ⟨-, rfl⟩ := Machine.guard_eq_some hst
    exact h.quitWhenIdle

end Inv

theorem inv_reach {s : State} (hr : runLoopMachine.Reach NoNestedRun s) : Inv s := by
  refine hr.invariant ?_ ?_
  · rintro _ rfl
    exact Inv.start
  · intro s a s' h hok hst
    exact h.step hok hst

end Mdgate.Ui.RunLoops
