import Mathlib.Logic.Function.Basic
import Mdgate.Lib.CriticalSection
import Mdgate.Lib.Machine

/-!
# `ExceptionHandler`

How the threads of a process crash. `g_breakpad` is on the static handler stack, and
`g_dumphandler_no_crash` is not; each object has a thread of its own that writes its dumps. A
crashing thread goes through `HandleException` (or the handler of an invalid parameter or of a pure
virtual call), which puts the previous handlers back while it runs, and hands the exception over to
the handler thread of the object.
-/

namespace Mdgate.Crash

open Mdgate.Lib

/-- The two objects of `InitCrashReporter`. -/
inductive HandlerId where
  | breakpad
  | dumphandlerNoCrash
  deriving DecidableEq, Repr

inductive Thread where
  | app (n : Nat)
  | handler (h : HandlerId)
  deriving DecidableEq, Repr

/-- Which of the three handlers is called. -/
inductive Entry where
  | handleException (code : UInt32)
  | handleInvalidParameter
  | handlePureVirtualCall
  deriving DecidableEq, Repr

def exceptionBreakpoint : UInt32 := 0x80000003
def exceptionSingleStep : UInt32 := 0x80000004
def exceptionInvalidHandle : UInt32 := 0xC0000008
def statusInvalidParameter : UInt32 := 0xC000000D
def statusNoncontinuableException : UInt32 := 0xC0000025

inductive AssertionType where
  | invalidParameter
  | pureVirtualCall
  deriving DecidableEq, Repr

/-- The `EXCEPTION_POINTERS` and the `MDRawAssertionInfo` of a dump. -/
structure ExceptionInfo where
  code : UInt32
  assertion : Option AssertionType
  deriving DecidableEq, Repr

/-- What a thread asks a dump for; `none` is `WriteMinidump`. -/
def exceptionInfo : Option Entry → ExceptionInfo
  | some (.handleException code) => ⟨code, none⟩
  | some .handleInvalidParameter => ⟨statusInvalidParameter, some .invalidParameter⟩
  | some .handlePureVirtualCall => ⟨statusNoncontinuableException, some .pureVirtualCall⟩
  | none => ⟨statusNoncontinuableException, none⟩

/-- `requesting_thread_id_`, `exception_info_` and `assertion_`. -/
structure Request where
  requestingThread : Thread
  info : ExceptionInfo
  deriving DecidableEq, Repr

/-- Where `ExceptionHandlerThreadMain` is. -/
inductive HandlerThread where
  /-- `CreateThread` failed. -/
  | absent
  | waiting
  | filter (r : Option Request)
  /-- In the `Sleep(INFINITE)` of `FilterCallback`. -/
  | asleep
  | writeMinidump (r : Option Request)
  | callback (r : Option Request) (succeeded : Bool)
  | releasing
  deriving DecidableEq, Repr

structure ExceptionHandler where
  handlerCriticalSection : CriticalSection Thread
  handlerStartSemaphore : Nat
  handlerFinishSemaphore : Nat
  request : Option Request
  handlerReturnValue : Bool
  handlerThread : HandlerThread
  nextMinidumpId : Nat
  handleDebugExceptions : Bool
  consumeInvalidHandleExceptions : Bool
  previousPch : Bool
  deriving DecidableEq, Repr

/-- `ReleaseSemaphore` of a semaphore with the maximum count 1. -/
def releaseSemaphore (count : Nat) : Nat := if count < 1 then count + 1 else count

/-- Which of the three handlers of the process are Breakpad's. -/
structure Installed where
  exception : Bool
  invalidParameter : Bool
  purecall : Bool
  deriving DecidableEq, Repr

namespace Installed

def all (ours : Bool) : Installed := ⟨ours, ours, ours⟩

def get (i : Installed) : Entry → Bool
  | .handleException _ => i.exception
  | .handleInvalidParameter => i.invalidParameter
  | .handlePureVirtualCall => i.purecall

def set (i : Installed) (n : Nat) (ours : Bool) : Installed :=
  match n with
  | 0 => { i with exception := ours }
  | 1 => { i with invalidParameter := ours }
  | _ => { i with purecall := ours }

end Installed

/-- What an exception filter returns. -/
inductive FilterAction where
  | executeHandler
  | continueSearch
  | continueExecution
  deriving DecidableEq, Repr

/-- Where a thread is in `WriteMinidumpOnHandlerThread`. -/
inductive Call where
  | entering
  | preparing
  | starting
  | waiting
  | collecting
  | done (status : Bool)
  deriving DecidableEq, Repr

def Call.inside : Call → Bool
  | .preparing | .starting | .waiting | .collecting => true
  | _ => false

/-- Where a thread is. -/
inductive Pc where
  | running
  /-- About to call a handler, Breakpad's or the previous one. -/
  | raised (entry : Entry) (ours : Bool)
  /-- In `AutoExceptionHandler()`, which has set `n` handlers. -/
  | switching (h : HandlerId) (entry : Entry) (n : Nat)
  | handling (h : HandlerId) (entry : Entry)
  /-- In `WriteMinidumpOnHandlerThread`, called by a handler or by `WriteMinidump`. -/
  | writing (h : HandlerId) (entry : Option Entry) (call : Call)
  /-- In `~AutoExceptionHandler()`, which has set `n` handlers. -/
  | restoring (action : FilterAction) (n : Nat)
  | returned (action : FilterAction)
  /-- In the `exit(0)` of a handler. -/
  | exiting
  deriving DecidableEq, Repr

/-- Between the constructor and the destructor of an `AutoExceptionHandler`. -/
def Pc.inScope : Pc → Bool
  | switching .. | handling .. | writing _ (some _) _ | restoring .. | exiting => true
  | _ => false

inductive CrashEvent where
  | requested (h : HandlerId) (r : Request)
  | approved (h : HandlerId) (r : Option Request)
  /-- Whether the file was there already, and `success`. -/
  | dumped (h : HandlerId) (r : Option Request) (id : Nat) (exists_ success : Bool)
  | calledBack (h : HandlerId) (r : Option Request) (succeeded : Bool)
  | answered (h : HandlerId) (t : Thread) (status : Bool)
  /-- `UpdateNextID`. -/
  | renamed (h : HandlerId) (id : Nat)
  | outOfRange (t : Thread)
  deriving DecidableEq, Repr

structure CrashState where
  threads : Thread → Pc
  handlers : HandlerId → ExceptionHandler
  handlerStack : List HandlerId
  handlerStackIndex : Nat
  handlerStackCriticalSection : CriticalSection Thread
  installed : Installed
  handlingException : Bool
  files : List Nat
  log : List CrashEvent
  ended : Bool

namespace CrashState

def setThread (s : CrashState) (t : Thread) (pc : Pc) : CrashState :=
  { s with threads := Function.update s.threads t pc }

def setHandler (s : CrashState) (h : HandlerId) (o : ExceptionHandler) : CrashState :=
  { s with handlers := Function.update s.handlers h o }

def record (s : CrashState) (e : CrashEvent) : CrashState := { s with log := s.log ++ [e] }

/-! ## The handlers -/

/-- `handler_stack_->at(handler_stack_->size() - index)`: the difference wraps around when `index`
is too large, and `at` throws. -/
def handlerAt (stack : List HandlerId) (index : Nat) : Option HandlerId :=
  if index ≤ stack.length then stack[stack.length - index]? else none

/-- `AutoExceptionHandler()` up to the handler that it finds. -/
def autoExceptionHandler (s : CrashState) (t : Thread) (entry : Entry) : Option CrashState :=
  (s.handlerStackCriticalSection.enter t).map fun c =>
    let index := s.handlerStackIndex + 1
    let s := { s with handlerStackCriticalSection := c, handlerStackIndex := index }
    match handlerAt s.handlerStack index with
    | some h => s.setThread t (.switching h entry 0)
    | none => (s.record (.outOfRange t)).setThread t .exiting

def isDebugException (code : UInt32) : Bool :=
  code == exceptionBreakpoint || code == exceptionSingleStep

/-- `HandleException`, `HandleInvalidParameter` and `HandlePureVirtualCall` up to the dump;
`previous` is what `previous_filter_` returns, or `EXCEPTION_CONTINUE_SEARCH` without one. -/
def handle (o : ExceptionHandler) (h : HandlerId) (previous : FilterAction) : Entry → Pc
  | .handleException code =>
    if code == exceptionInvalidHandle && o.consumeInvalidHandleExceptions then
      .restoring .continueExecution 0
    else if !isDebugException code || o.handleDebugExceptions then
      .writing h (some (.handleException code)) .entering
    else .restoring previous 0
  | entry => .writing h (some entry) .entering

def afterDump (o : ExceptionHandler) (previous : FilterAction) (status : Bool) : Entry → Pc
  | .handleException _ => .restoring (if status then .executeHandler else previous) 0
  | .handleInvalidParameter => .exiting
  | .handlePureVirtualCall =>
    if status || o.previousPch then .exiting else .restoring .continueSearch 0

/-- A step of `WriteMinidumpOnHandlerThread`, and of what is after it. -/
def write (s : CrashState) (t : Thread) (h : HandlerId) (entry : Option Entry) (uuid : Nat)
    (previous : FilterAction) : Call → Option CrashState
  | .entering => ((s.handlers h).handlerCriticalSection.enter t).map fun c =>
    let o := { s.handlers h with handlerCriticalSection := c }
    if o.handlerThread = .absent then
      (s.setHandler h { o with handlerCriticalSection := c.leave }).setThread t
        (.writing h entry (.done false))
    else (s.setHandler h o).setThread t (.writing h entry .preparing)
  | .preparing =>
    let o := s.handlers h
    some <| (s.setHandler h { o with request := some ⟨t, exceptionInfo entry⟩ }).setThread t
      (.writing h entry .starting)
  | .starting =>
    let o := s.handlers h
    some <| ((s.setHandler h { o with
      handlerStartSemaphore := releaseSemaphore o.handlerStartSemaphore }).record
        (.requested h ⟨t, exceptionInfo entry⟩)).setThread t (.writing h entry .waiting)
  | .waiting =>
    let o := s.handlers h
    if 0 < o.handlerFinishSemaphore then
      some <| (s.setHandler h { o with
        handlerFinishSemaphore := o.handlerFinishSemaphore - 1 }).setThread t
          (.writing h entry .collecting)
    else none
  | .collecting =>
    let o := s.handlers h
    some <| ((s.setHandler h { o with
      request := none, handlerCriticalSection := o.handlerCriticalSection.leave }).record
        (.answered h t o.handlerReturnValue)).setThread t
          (.writing h entry (.done o.handlerReturnValue))
  | .done status =>
    match entry with
    | some entry => some (s.setThread t (afterDump (s.handlers h) previous status entry))
    | none => some <| ((s.setHandler h { s.handlers h with nextMinidumpId := uuid }).record
        (.renamed h uuid)).setThread t .running

/-- The next step of a thread in a handler; `uuid` is what `UuidCreate` returns and `previous`
what a previous handler does. -/
def advance (s : CrashState) (t : Thread) (uuid : Nat) (previous : FilterAction) :
    Option CrashState :=
  match s.threads t with
  | .running => none
  | .raised _ false => some (s.setThread t (.returned previous))
  | .raised entry true => s.autoExceptionHandler t entry
  | .switching h entry n =>
    if n < 3 then
      some ({ s with installed := s.installed.set n false }.setThread t
        (.switching h entry (n + 1)))
    else some (s.setThread t (.handling h entry))
  | .handling h entry => some (s.setThread t (handle (s.handlers h) h previous entry))
  | .writing h entry call => s.write t h entry uuid previous call
  | .restoring action n =>
    if n < 3 then
      some ({ s with installed := s.installed.set n true }.setThread t
        (.restoring action (n + 1)))
    else some ({ s with
      handlerStackIndex := s.handlerStackIndex - 1
      handlerStackCriticalSection := s.handlerStackCriticalSection.leave }.setThread t
        (.returned action))
  | .returned action =>
    if action = .continueExecution then some (s.setThread t .running)
    else some { s with ended := true }
  | .exiting => some { s with ended := true }

/-! ## The handler threads -/

/-- `FilterCallback` and `FilterCallbackWhenNoCrash`; `false` when it does not return. -/
def filterCallback (s : CrashState) : HandlerId → Bool
  | .breakpad => !s.handlingException
  | .dumphandlerNoCrash => true

/-- `DumpDoneCallback` and `DumpDoneCallbackWhenNoCrash`. -/
def dumpDoneCallback (_succeeded : Bool) : Bool := true

/-- The `CREATE_NEW` of `WriteMinidumpWithExceptionForProcess`; `created` says that `dbghelp.dll` is
there and that nothing but a file of that name is in the way. -/
def canCreate (s : CrashState) (id : Nat) (created : Bool) : Bool := !s.files.contains id && created

/-- A step of `ExceptionHandlerThreadMain`; `written` is what `MiniDumpWriteDump` returns. -/
def serve (s : CrashState) (h : HandlerId) (created written : Bool) : Option CrashState :=
  let o := s.handlers h
  let goto (o : ExceptionHandler) (pc : HandlerThread) := s.setHandler h { o with
    handlerThread := pc }
  match o.handlerThread with
  | .absent | .asleep => none
  | .waiting =>
    if 0 < o.handlerStartSemaphore then
      some (goto { o with handlerStartSemaphore := o.handlerStartSemaphore - 1 }
        (.filter o.request))
    else none
  | .filter r =>
    if s.filterCallback h then
      some { (goto o (.writeMinidump r)).record (.approved h r) with
        handlingException := s.handlingException || h = .breakpad }
    else some (goto o .asleep)
  | .writeMinidump r =>
    let id := o.nextMinidumpId
    let success := s.canCreate id created && written
    some { (goto o (.callback r success)).record
        (.dumped h r id (s.files.contains id) success) with
      files := if s.canCreate id created then s.files ++ [id] else s.files }
  | .callback r succeeded =>
    some ((goto { o with handlerReturnValue := dumpDoneCallback succeeded } .releasing).record
      (.calledBack h r succeeded))
  | .releasing => some (goto { o with
      handlerFinishSemaphore := releaseSemaphore o.handlerFinishSemaphore } .waiting)

end CrashState

/-! ## The process -/

inductive CrashAction where
  /-- The thread raises an exception, which nothing but the handlers of the process handles. -/
  | raise (t : Thread) (entry : Entry)
  | dumpProcessWithoutCrash (n : Nat)
  | advance (t : Thread) (uuid : Nat) (previous : FilterAction)
  | serve (h : HandlerId) (created written : Bool)
  | setHandleDebugExceptions (h : HandlerId) (b : Bool)
  | setConsumeInvalidHandleExceptions (h : HandlerId) (b : Bool)
  deriving DecidableEq, Repr

def CrashAction.thread? : CrashAction → Option Thread
  | .raise t _ | .advance t _ _ => some t
  | .dumpProcessWithoutCrash n => some (.app n)
  | _ => none

namespace CrashState

def canRaise (s : CrashState) (t : Thread) : Bool :=
  s.threads t = .running && match t with
    | .app _ => true
    | .handler h => match (s.handlers h).handlerThread with
      | .filter _ | .writeMinidump _ | .callback .. => true
      | _ => false

def step (s : CrashState) (a : CrashAction) : Option CrashState :=
  if s.ended then none
  else match a with
    | .raise t entry =>
      if s.canRaise t then some (s.setThread t (.raised entry (s.installed.get entry))) else none
    | .dumpProcessWithoutCrash n =>
      if s.threads (.app n) = .running then
        some (s.setThread (.app n) (.writing .dumphandlerNoCrash none .entering))
      else none
    | .advance t uuid previous => s.advance t uuid previous
    | .serve h created written =>
      if s.threads (.handler h) = .running then s.serve h created written else none
    | .setHandleDebugExceptions h b =>
      some (s.setHandler h { s.handlers h with handleDebugExceptions := b })
    | .setConsumeInvalidHandleExceptions h b =>
      some (s.setHandler h { s.handlers h with consumeInvalidHandleExceptions := b })

/-- After `InitCrashReporter`, with the ids of the first dumps. -/
structure Initial (s : CrashState) : Prop where
  threads : ∀ t, s.threads t = .running
  free : ∀ h, (s.handlers h).handlerCriticalSection = .free
  start : ∀ h, (s.handlers h).handlerStartSemaphore = 0
  finish : ∀ h, (s.handlers h).handlerFinishSemaphore = 0
  handlerThread : ∀ h, (s.handlers h).handlerThread = .waiting ∨
    (s.handlers h).handlerThread = .absent
  handlerStack : s.handlerStack = [.breakpad]
  handlerStackIndex : s.handlerStackIndex = 0
  handlerStackFree : s.handlerStackCriticalSection = .free
  installed : s.installed = .all true
  handlingException : s.handlingException = false
  log : s.log = []
  ended : s.ended = false

end CrashState

def crashMachine : Machine CrashState CrashAction := ⟨CrashState.Initial, CrashState.step⟩

/-- An object that was just made. -/
def ExceptionHandler.start (id : Nat) : ExceptionHandler :=
  ⟨.free, 0, 0, none, false, .waiting, id, true, false, false⟩

def crashStart : CrashState where
  threads _ := .running
  handlers
    | .breakpad => .start 0
    | .dumphandlerNoCrash => .start 1
  handlerStack := [.breakpad]
  handlerStackIndex := 0
  handlerStackCriticalSection := .free
  installed := .all true
  handlingException := false
  files := []
  log := []
  ended := false

theorem crashStart_initial : crashStart.Initial :=
  ⟨fun _ => rfl, fun h => by cases h <;> rfl, fun h => by cases h <;> rfl,
    fun h => by cases h <;> rfl, fun h => by cases h <;> exact .inl rfl, rfl, rfl, rfl, rfl, rfl,
    rfl, rfl⟩

end Mdgate.Crash
