import Mathlib.Data.List.Basic
import Mdgate.Lib.Machine

/-!
# `PostTaskAndReply`

A `PostTaskAndReplyRelay` carries a task to a task runner and its reply back to the thread that
posted it. The relay is a heap object that only the closures posted with it know; it deletes itself
once the reply has run. Task runners run what they accept in any order, or delete it unrun.
-/

namespace Mdgate.Base

open Mdgate.Lib

/-- The task runners of a process. -/
structure TaskRunners where
  /-- `RunsTasksOnCurrentThread`, of a runner on a thread. -/
  runsTasksOn : Nat → Nat → Bool
  /-- `ThreadTaskRunnerHandle::Get`. -/
  handle : Nat → Option Nat
  /-- The runner of a handle is a `SingleThreadTaskRunner` that belongs to the thread. -/
  single : ∀ {t o : Nat}, handle t = some o → ∀ t', runsTasksOn o t' = true ↔ t' = t

def messageLoops : TaskRunners where
  runsTasksOn r t := r == t
  handle := some
  single h t' := by
    obtain rfl := Option.some.inj h
    rw [beq_iff_eq]
    exact eq_comm

structure PostTaskAndReplyRelay where
  originLoop : Nat
  /-- `task_` is not reset. -/
  task : Bool
  /-- `reply_` is not reset. -/
  reply : Bool
  deriving DecidableEq, Repr

/-- The closures that are posted with a relay. -/
inductive RelayTask where
  | run (relay : Nat)
  | runReplyAndSelfDestruct (relay : Nat)
  deriving DecidableEq, Repr

namespace RelayTask

def relay : RelayTask → Nat
  | run n | runReplyAndSelfDestruct n => n

@[simp] theorem relay_run (n : Nat) : (run n).relay = n := rfl

@[simp] theorem relay_runReplyAndSelfDestruct (n : Nat) :
    (runReplyAndSelfDestruct n).relay = n := rfl

end RelayTask

inductive RelayEvent where
  | posted (relay thread runner : Nat)
  | rejected (relay thread runner : Nat)
  | taskRun (relay thread : Nat)
  | taskReturned (relay thread : Nat)
  | taskReset (relay thread : Nat)
  | replyRun (relay thread : Nat)
  | replyReturned (relay thread : Nat)
  | replyReset (relay thread : Nat)
  | replyRejected (relay thread : Nat)
  /-- A runner deletes a closure that it has accepted, unrun. -/
  | dropped (relay : Nat)
  /-- A `DCHECK` fails, a closure is run after it was reset, or a deleted relay is used. -/
  | fault (relay thread : Nat)
  deriving DecidableEq, Repr

namespace RelayEvent

def relay : RelayEvent → Nat
  | posted n .. | rejected n .. | taskRun n _ | taskReturned n _ | taskReset n _ | replyRun n _
  | replyReturned n _ | replyReset n _ | replyRejected n _ | dropped n | fault n _ => n

end RelayEvent

structure RelayState where
  /-- The relays, oldest first; `none` is deleted. -/
  relays : List (Option PostTaskAndReplyRelay)
  pending : List (Nat × RelayTask)
  /-- What the threads run, the innermost of a thread first. -/
  running : List (Nat × RelayTask)
  log : List RelayEvent
  deriving DecidableEq, Repr

namespace PostTaskAndReplyRelay

def resetTask (r : PostTaskAndReplyRelay) (n t : Nat) : List RelayEvent :=
  if r.task then [.taskReset n t] else []

def resetReply (r : PostTaskAndReplyRelay) (n t : Nat) : List RelayEvent :=
  if r.reply then [.replyReset n t] else []

def checkOrigin (R : TaskRunners) (r : PostTaskAndReplyRelay) (n t : Nat) : List RelayEvent :=
  if R.runsTasksOn r.originLoop t then [] else [.fault n t]

/-- `~PostTaskAndReplyRelay`. -/
def destroy (R : TaskRunners) (r : PostTaskAndReplyRelay) (n t : Nat) : List RelayEvent :=
  r.checkOrigin R n t ++ r.resetTask n t ++ r.resetReply n t

/-- `Run`, up to the body of the task. -/
def run (r : PostTaskAndReplyRelay) (n t : Nat) : List RelayEvent :=
  if r.task then [.taskRun n t] else [.fault n t]

/-- `RunReplyAndSelfDestruct`, up to the body of the reply. -/
def runReply (R : TaskRunners) (r : PostTaskAndReplyRelay) (n t : Nat) : List RelayEvent :=
  r.checkOrigin R n t ++ r.resetTask n t ++
    if r.reply then [.replyRun n t] else [.fault n t]

end PostTaskAndReplyRelay

namespace RelayState

def use (s : RelayState) (n t : Nat) (f : PostTaskAndReplyRelay → RelayState) : RelayState :=
  match s.relays[n]? with
  | some (some r) => f r
  | _ => { s with log := s.log ++ [.fault n t] }

/-- `PostTaskAndReplyImpl::PostTaskAndReply`, by `t` on the runner `d`; `accepted` is what its
`PostTask` returns. -/
def postTaskAndReply (R : TaskRunners) (s : RelayState) (t d : Nat) (accepted : Bool) :
    Option RelayState :=
  (R.handle t).map fun o =>
    let n := s.relays.length
    let r : PostTaskAndReplyRelay := ⟨o, true, true⟩
    if accepted then
      { s with
        relays := s.relays ++ [some r]
        pending := s.pending ++ [(d, .run n)]
        log := s.log ++ [.posted n t d] }
    else
      { s with
        relays := s.relays ++ [none]
        log := s.log ++ .rejected n t d :: r.destroy R n t }

/-- A closure starts on `t`. -/
def start (R : TaskRunners) (s : RelayState) (t : Nat) : RelayTask → RelayState
  | .run n => s.use n t fun r => { s with log := s.log ++ r.run n t }
  | .runReplyAndSelfDestruct n => s.use n t fun r =>
    { s with
      relays := s.relays.set n (some { r with task := false })
      log := s.log ++ r.runReply R n t }

/-- The body of the task or of the reply returns on `t`; `accepted` is what `PostTask` of the origin
loop returns. -/
def return_ (R : TaskRunners) (s : RelayState) (t : Nat) (accepted : Bool) :
    RelayTask → RelayState
  | .run n => s.use n t fun r =>
    if accepted then
      { s with
        pending := s.pending ++ [(r.originLoop, .runReplyAndSelfDestruct n)]
        log := s.log ++ [.taskReturned n t] }
    else { s with log := s.log ++ [.taskReturned n t, .replyRejected n t] }
  | .runReplyAndSelfDestruct n => s.use n t fun r =>
    { s with
      relays := s.relays.set n none
      log := s.log ++ .replyReturned n t :: r.destroy R n t }

end RelayState

inductive RelayAction where
  | postTaskAndReply (t d : Nat) (accepted : Bool)
  | take (j t : Nat)
  /-- The closure `k` that runs returns; `accepted` is what `PostTask` of the origin loop says. -/
  | finish (k : Nat) (accepted : Bool)
  | drop (j : Nat)
  deriving DecidableEq, Repr

namespace RelayState

def take (R : TaskRunners) (s : RelayState) (j t : Nat) : Option RelayState :=
  s.pending[j]?.bind fun x =>
    if R.runsTasksOn x.1 t then
      some <| start R { s with
        pending := s.pending.eraseIdx j
        running := (t, x.2) :: s.running } t x.2
    else none

/-- The closure that returns is the innermost of its thread. -/
def finish (R : TaskRunners) (s : RelayState) (k : Nat) (accepted : Bool) : Option RelayState :=
  s.running[k]?.bind fun x =>
    if ∀ y ∈ s.running.take k, y.1 ≠ x.1 then
      some <| return_ R { s with running := s.running.eraseIdx k } x.1 accepted x.2
    else none

def drop (s : RelayState) (j : Nat) : Option RelayState :=
  s.pending[j]?.map fun x =>
    { s with pending := s.pending.eraseIdx j, log := s.log ++ [.dropped x.2.relay] }

def step (R : TaskRunners) (s : RelayState) : RelayAction → Option RelayState
  | .postTaskAndReply t d accepted => s.postTaskAndReply R t d accepted
  | .take j t => s.take R j t
  | .finish k accepted => s.finish R k accepted
  | .drop j => s.drop j

def empty : RelayState := ⟨[], [], [], []⟩

end RelayState

def relayMachine (R : TaskRunners) : Machine RelayState RelayAction where
  init s := s = RelayState.empty
  step := RelayState.step R

end Mdgate.Base
