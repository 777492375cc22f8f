import Mdgate.Base.PostTaskAndReply

/-!
# `CancelableTaskTracker`

A tracker lives on one thread and hands out ids of tasks that run elsewhere. Each id has a
`CancellationFlag` on the heap. The flag of a `PostTaskAndReply` call is owned by the reply of the
call, and the task has a bare pointer to it; the flag of `NewTrackedTaskId` is deleted by the
closure that runs when the last copy of the `IsCanceledCallback` goes. The thread of the tracker may
destroy it at any time.
-/

namespace Mdgate.Base

open Mdgate.Lib

/-- Which closure is to delete the flag of a task. -/
inductive FlagOwner where
  | reply (relay : Nat)
  /-- The cleanup of an `IsCanceledCallback` with that many copies. -/
  | callback (copies : Nat)
  | posted
  | gone
  | leaked
  deriving DecidableEq, Repr

structure TrackedTask where
  id : Nat
  /-- The `CancellationFlag`; `none` is deleted. -/
  flag : Option Bool
  owner : FlagOwner
  deriving DecidableEq, Repr

inductive TrackerEvent where
  /-- `RunIfNotCanceled` reads the flag of a task, for the reply or for the task itself, and runs
  the closure or skips it. -/
  | checked (task : Nat) (reply runs : Bool)
  | isCanceled (task : Nat) (answer : Bool)
  | canceled (task : Nat)
  | untracked (task : Nat)
  | flagDeleted (task thread : Nat)
  | destroyed
  /-- A `DCHECK` of the tracker fails, or a deleted flag is used. -/
  | fault (task : Nat)
  deriving DecidableEq, Repr

structure TrackerState where
  relay : RelayState
  alive : Bool
  nextId : Nat
  /-- `task_flags_`: the ids with (the numbers of) their flags. -/
  taskFlags : List (Nat × Nat)
  tasks : List TrackedTask
  /-- Which task a relay was made for. -/
  calls : List Nat
  log : List TrackerEvent
  deriving DecidableEq, Repr

inductive TrackerAction where
  | postTaskAndReply (d : Nat) (accepted : Bool)
  | newTrackedTaskId
  | tryCancel (id : Nat)
  | tryCancelAll
  | destroy
  | take (j t : Nat)
  | finish (k : Nat) (accepted : Bool)
  | drop (j : Nat)
  /-- The `IsCanceledCallback` of a task is copied, run, or a copy is deleted on `t`. -/
  | copyCallback (task : Nat)
  | runCallback (task : Nat)
  | deleteCallback (task t : Nat) (accepted : Bool)
  /-- The origin loop runs the cleanup posted for a task, or deletes it. -/
  | runCleanup (task : Nat)
  | dropCleanup (task : Nat)
  deriving DecidableEq, Repr

namespace TrackerState

def logs (s : TrackerState) (e : TrackerEvent) : TrackerState := { s with log := s.log ++ [e] }

/-- `CancellationFlag::IsSet` of the flag of `i`, told to `e`. -/
def isSet (s : TrackerState) (i : Nat) (e : Bool → TrackerEvent) : TrackerState :=
  match s.tasks[i]? with
  | some ⟨_, some flag, _⟩ => s.logs (e flag)
  | _ => s.logs (.fault i)

def set (s : TrackerState) (i : Nat) : TrackerState :=
  match s.tasks[i]? with
  | some ⟨id, some _, owner⟩ =>
    { s with tasks := s.tasks.set i ⟨id, some true, owner⟩, log := s.log ++ [.canceled i] }
  | _ => s.logs (.fault i)

def deleteFlag (s : TrackerState) (i t : Nat) : TrackerState :=
  match s.tasks[i]? with
  | some ⟨id, some _, owner⟩ =>
    { s with tasks := s.tasks.set i ⟨id, none, owner⟩, log := s.log ++ [.flagDeleted i t] }
  | _ => s.logs (.fault i)

def setOwner (s : TrackerState) (i : Nat) (owner : FlagOwner) : TrackerState :=
  { s with tasks := s.tasks.modify i fun x => { x with owner } }

def track (s : TrackerState) (id i : Nat) : TrackerState :=
  if s.taskFlags.any (·.1 == id) then s.logs (.fault i)
  else { s with taskFlags := s.taskFlags ++ [(id, i)] }

/-- `Untrack`, bound to a weak pointer. -/
def untrack (s : TrackerState) (i : Nat) : TrackerState :=
  match s.tasks[i]? with
  | none => s
  | some x =>
    if s.alive then
      if s.taskFlags.countP (·.1 == x.id) = 1 then
        { s with
          taskFlags := s.taskFlags.filter (·.1 != x.id)
          log := s.log ++ [.untracked i] }
      else s.logs (.fault i)
    else s

/-- `RunAndDeleteFlag` with `Untrack`, on `t`. -/
def cleanup (s : TrackerState) (i t : Nat) : TrackerState :=
  ((s.untrack i).deleteFlag i t).setOwner i .gone

/-! ## The members, on the thread `t` of the tracker -/

/-- `PostTaskAndReply`. No reply runs between its `PostTask` and `Track`, which are on the thread of
the replies. -/
def postTaskAndReply (R : TaskRunners) (t : Nat) (s : TrackerState) (d : Nat) (accepted : Bool) :
    Option TrackerState :=
  if s.alive then
    (s.relay.postTaskAndReply R t d accepted).map fun relay =>
      let i := s.tasks.length
      let s' : TrackerState :=
        { s with
          relay
          nextId := s.nextId + 1
          tasks := s.tasks ++ [⟨s.nextId, some false, .reply s.relay.relays.length⟩]
          calls := s.calls ++ [i] }
      if accepted then s'.track s.nextId i else s'.deleteFlag i t
  else none

def newTrackedTaskId (R : TaskRunners) (t : Nat) (s : TrackerState) : Option TrackerState :=
  if s.alive ∧ (R.handle t).isSome then
    let i := s.tasks.length
    let s' : TrackerState :=
      { s with
        nextId := s.nextId + 1
        tasks := s.tasks ++ [⟨s.nextId, some false, .callback 1⟩] }
    some (s'.track s.nextId i)
  else none

def tryCancel (s : TrackerState) (id : Nat) : Option TrackerState :=
  if s.alive then
    some <| match s.taskFlags.find? (·.1 == id) with
      | none => s
      | some x => s.set x.2
  else none

/-- The loop of `TryCancelAll`. -/
def setAll (s : TrackerState) : List (Nat × Nat) → TrackerState
  | [] => s
  | x :: l => setAll (s.set x.2) l

def tryCancelAll (s : TrackerState) : Option TrackerState :=
  if s.alive then some (s.setAll s.taskFlags) else none

/-- `~CancelableTaskTracker`; the weak pointers go with `weak_factory_`. -/
def destroy (s : TrackerState) : Option TrackerState :=
  s.tryCancelAll.map fun s =>
    { s with alive := false, taskFlags := [], log := s.log ++ [.destroyed] }

/-! ## The closures -/

/-- The body of the task or of the reply of a relay is reached. -/
def check (s : TrackerState) : RelayTask → TrackerState
  | .run n => match s.calls[n]? with
    | some i => s.isSet i fun flag => .checked i false !flag
    | none => s
  | .runReplyAndSelfDestruct n => match s.calls[n]? with
    | some i => s.isSet i fun flag => .checked i true !flag
    | none => s

def take (R : TaskRunners) (s : TrackerState) (j t : Nat) : Option TrackerState :=
  s.relay.pending[j]?.bind fun x =>
    (s.relay.take R j t).map fun relay => check { s with relay } x.2

/-- The reply unregisters the task as its last act, and then takes the flag with it. -/
def finish (R : TaskRunners) (s : TrackerState) (k : Nat) (accepted : Bool) :
    Option TrackerState :=
  s.relay.running[k]?.bind fun x =>
    (s.relay.finish R k accepted).map fun relay =>
      let s' : TrackerState := { s with relay }
      match x.2 with
      | .run _ => s'
      | .runReplyAndSelfDestruct n => match s.calls[n]? with
        | some i => (s'.untrack i).deleteFlag i x.1
        | none => s'

def drop (s : TrackerState) (j : Nat) : Option TrackerState :=
  (s.relay.drop j).map fun relay => { s with relay }

/-! ## The callbacks of `NewTrackedTaskId` -/

def copyCallback (s : TrackerState) (i : Nat) : Option TrackerState :=
  match s.tasks[i]? with
  | some ⟨_, _, .callback c⟩ => some (s.setOwner i (.callback (c + 1)))
  | _ => none

def runCallback (s : TrackerState) (i : Nat) : Option TrackerState :=
  match s.tasks[i]? with
  | some ⟨_, _, .callback _⟩ => some (s.isSet i fun flag => .isCanceled i flag)
  | _ => none

/-- A copy is deleted on `u`, the last one with `RunOrPostToTaskRunner`. -/
def deleteCallback (R : TaskRunners) (t : Nat) (s : TrackerState) (i u : Nat) (accepted : Bool) :
    Option TrackerState :=
  (R.handle t).bind fun o =>
    match s.tasks[i]? with
    | some ⟨_, _, .callback c⟩ =>
      if 1 < c then some (s.setOwner i (.callback (c - 1)))
      else if R.runsTasksOn o u then some (s.cleanup i u)
      else some (s.setOwner i (if accepted then .posted else .leaked))
    | _ => none

def runCleanup (t : Nat) (s : TrackerState) (i : Nat) : Option TrackerState :=
  match s.tasks[i]? with
  | some ⟨_, _, .posted⟩ => some (s.cleanup i t)
  | _ => none

def dropCleanup (s : TrackerState) (i : Nat) : Option TrackerState :=
  match s.tasks[i]? with
  | some ⟨_, _, .posted⟩ => some (s.setOwner i .leaked)
  | _ => none

def step (R : TaskRunners) (t : Nat) (s : TrackerState) : TrackerAction → Option TrackerState
  | .postTaskAndReply d accepted => s.postTaskAndReply R t d accepted
  | .newTrackedTaskId => s.newTrackedTaskId R t
  | .tryCancel id => s.tryCancel id
  | .tryCancelAll => s.tryCancelAll
  | .destroy => s.destroy
  | .take j u => s.take R j u
  | .finish k accepted => s.finish R k accepted
  | .drop j => s.drop j
  | .copyCallback i => s.copyCallback i
  | .runCallback i => s.runCallback i
  | .deleteCallback i u accepted => s.deleteCallback R t i u accepted
  | .runCleanup i => s.runCleanup t i
  | .dropCleanup i => s.dropCleanup i

/-- A new tracker; `kBadTaskId` is 0. -/
def start : TrackerState := ⟨RelayState.empty, true, 1, [], [], [], []⟩

end TrackerState

def trackerMachine (R : TaskRunners) (t : Nat) : Machine TrackerState TrackerAction where
  init s := s = TrackerState.start
  step := TrackerState.step R t

end Mdgate.Base
