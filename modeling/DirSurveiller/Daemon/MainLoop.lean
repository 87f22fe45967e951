/-
  DirSurveiller.Daemon.MainLoop — the event loop of `main`.

  Two parser threads write events to the command queue and the open queue; the main thread takes them
  from there, merges them by their time stamps while both queues have something, and hands them to
  the process index.  A step of the main thread goes from one access of a flag, or one operation on a
  ring, to the next: between two steps the parsers may write and the flags may change.  An operation on
  a ring is one step; its accesses are taken apart in `Containers.SharedRing`.

  `acceptedExecs`, `handedExecs` and their counterparts for open calls are history.  `sleep`, the log
  lines and the status text are left out.
-/
import DirSurveiller.Daemon.Operations

namespace DirSurveiller

open CMachine Outcome

/-! ## §1. The main thread. -/

/-- Where the main thread is in its loop. -/
inductive Pc where
  | top
  | merge
  | hasNext
  | readNext
  | handOther
  | sizeExec
  | sizeOpen
  | readBothExec
  | readBothOpen
  | readOpen
  | readExec
  | testShutting
  | testOpenSocket
  | testExecSocket
  | testOpenQueue
  | testCommandQueue
  | flush
  | dispatch
  | done
  deriving Repr, DecidableEq

/-- `surv` and the variables of `main`.  A pointer that was never set is `none`. -/
structure Daemon where
  surv : Surveiller
  pc : Pc
  dead : Bool
  readyCalls : Bool
  ecallFirst : Bool
  compMode : Bool
  counter : UInt64
  tempEcall : Option ExecRef
  tempOcall : Option OpenRef
  acceptedExecs : List ExecRef
  acceptedOpens : List OpenRef
  handedExecs : List ExecRef
  handedOpens : List OpenRef

/-- The main thread before its loop. -/
def Daemon.initial (surv : Surveiller) : Daemon :=
  { surv := surv, pc := .top, dead := false, readyCalls := false, ecallFirst := false
    compMode := false, counter := 1, tempEcall := none, tempOcall := none, acceptedExecs := []
    acceptedOpens := [], handedExecs := [], handedOpens := [] }

/-- What a step of the main thread is told: the answers of `realloc` and `kill`, and what the
dispatch finds on the stack. -/
structure MainEnv where
  granted : Nat → Bool
  again : Nat → Bool
  opencall : OpencallAlloc
  gone : Nat → Bool
  dispatch : Nat → DispatchEnv

namespace Daemon

/-- `surv_addExecCall(&surv, tempEcall);` -/
def addExecCall (env : MainEnv) (d : Daemon) : Except Fault Daemon :=
  match d.tempEcall with
  | none => .error .uninitRead
  | some e => do
      let (_, surv) ← survAddExecCall env.granted env.again d.surv e
      return { d with surv := surv, handedExecs := d.handedExecs ++ [e] }

/-- `procindex_add(&surv.procs, tempEcall);` -/
def add (env : MainEnv) (d : Daemon) : Except Fault Daemon :=
  match d.tempEcall with
  | none => .error .uninitRead
  | some e => do
      let (_, surv) ← survProcindexAdd env.granted d.surv e
      return { d with surv := surv, handedExecs := d.handedExecs ++ [e] }

/-- `procindex_opencall_add(&surv.procs, tempOcall);` -/
def opencallAdd (env : MainEnv) (d : Daemon) : Except Fault Daemon :=
  match d.tempOcall with
  | none => .error .uninitRead
  | some o => do
      let (_, surv) ← survOpencallAdd env.opencall d.surv o
      return { d with surv := surv, handedOpens := d.handedOpens ++ [o] }

/-- `ecall_first = timercmp(&tempEcall->time_stamp, &tempOcall->time_stamp, <=);` -/
def compareStamps (d : Daemon) : Except Fault Bool :=
  match d.tempEcall, d.tempOcall with
  | some e, some o => do
      let c ← d.surv.heap.exec e
      let oc ← d.surv.heap.openCall o
      return timercmpLe c.timeStamp oc.timeStamp
  | _, _ => .error .uninitRead

/-- Hand over one of the two calls of the merge. -/
def handOver (env : MainEnv) (d : Daemon) (exec : Bool) : Except Fault Daemon :=
  if exec then d.addExecCall env else d.opencallAdd env

/-- `g_ringBuffer_read(&surv.commandQueue, (void**) &tempEcall);` -/
def readCommand (d : Daemon) : Daemon :=
  let (_, queue, temp) := gRingBufferRead d.surv.commandQueue d.tempEcall
  { d with surv := { d.surv with commandQueue := queue }, tempEcall := temp }

/-- `g_ringBuffer_read(&surv.openQueue, (void**) &tempOcall);` -/
def readOpen (d : Daemon) : Daemon :=
  let (_, queue, temp) := gRingBufferRead d.surv.openQueue d.tempOcall
  { d with surv := { d.surv with openQueue := queue }, tempOcall := temp }

/-- `if(counter >= 424242) surv.shutting_down = 1;` -/
def checkCounter (d : Daemon) : Surveiller :=
  if 424242 ≤ d.counter then { d.surv with shuttingDown := true } else d.surv

/-- `if(!(counter % 1024)) surv_check_proc_vitals(&surv);` -/
def checkVitals (env : MainEnv) (d : Daemon) : Except Fault Surveiller :=
  if d.counter % 1024 = 0 then survCheckProcVitals env.gone d.checkCounter
  else .ok d.checkCounter

/-- Either of the tests that guard the exit: on to the next one, or to the end of the round. -/
def test (d : Daemon) (passed : Bool) (next : Pc) : Daemon :=
  { d with pc := if passed then next else .dispatch }

/-- `if(dead || !(counter % 512)) { … }` -/
def dispatchCalls (env : MainEnv) (d : Daemon) : Except Fault Surveiller :=
  if d.dead ∨ d.counter % 512 = 0 then dispatchBatch env.dispatch d.surv else .ok d.surv

/-- A step of the main thread. -/
def mainStep (env : MainEnv) (d : Daemon) : Except Fault Daemon :=
  match d.pc with
  | .top => do
      let surv ← d.checkVitals env
      return { d with surv := surv, pc := if d.compMode then .merge else .sizeExec }
  | .merge => do
      -- the earlier of the two calls is handed over, the other one is kept
      let first ← d.compareStamps
      let d ← d.handOver env first
      return { d with ecallFirst := first, pc := .hasNext }
  | .hasNext =>
      let next := (d.ecallFirst ∧ gRingBufferSize d.surv.commandQueue ≠ 0)
        ∨ (¬ d.ecallFirst ∧ gRingBufferSize d.surv.openQueue ≠ 0)
      return { d with pc := if next then .readNext else .handOther }
  | .readNext =>
      return { (if d.ecallFirst then d.readCommand else d.readOpen) with pc := .testShutting }
  | .handOther => do
      -- no call to compare the other one with: it is handed over too, and the merge ends
      let d ← d.handOver env !d.ecallFirst
      return { d with readyCalls := false, compMode := false, pc := .testShutting }
  | .sizeExec =>
      -- `ready_calls` is only ever reset by a branch that hands a call over
      return { d with
        readyCalls := d.readyCalls || gRingBufferSize d.surv.commandQueue != 0, pc := .sizeOpen }
  | .sizeOpen =>
      let pc := if gRingBufferSize d.surv.openQueue ≠ 0 then
          if d.readyCalls then .readBothExec else .readOpen
        else if d.readyCalls then .readExec else .testShutting
      return { d with pc := pc }
  | .readBothExec => return { d.readCommand with pc := .readBothOpen }
  | .readBothOpen =>
      -- `continue`: neither the exit test nor the counter is reached
      return { d.readOpen with compMode := true, pc := .top }
  | .readOpen => do
      let d ← d.readOpen.opencallAdd env
      return { d with readyCalls := false, pc := .testShutting }
  | .readExec => do
      -- `procindex_add`, not `surv_addExecCall`: a pid in use is not replaced
      let d ← d.readCommand.add env
      return { d with readyCalls := false, pc := .testShutting }
  -- the five tests of the exit condition, one access each
  | .testShutting => return d.test d.surv.shuttingDown .testOpenSocket
  | .testOpenSocket =>
      return d.test (d.surv.processingOpencallSocket ≠ .running) .testExecSocket
  | .testExecSocket =>
      return d.test (d.surv.processingExeccallSocket ≠ .running) .testOpenQueue
  | .testOpenQueue => return d.test (gRingBufferEmpty d.surv.openQueue) .testCommandQueue
  | .testCommandQueue =>
      let empty := gRingBufferEmpty d.surv.commandQueue
      -- `compMode` is not among the conditions
      return { d.test empty .flush with dead := empty }
  | .flush => do
      let surv ← survFlushProcindex d.surv
      return { d with surv := surv, pc := .dispatch }
  | .dispatch => do
      let surv ← d.dispatchCalls env
      return { d with
        surv := surv, counter := d.counter + 1, pc := if d.dead then .done else .top }
  | .done => return d

end Daemon

/-! ## §2. The other threads. -/

/-- What happens to the daemon: a step of the main thread, an event that a parser writes to its queue,
or a change of a flag. -/
inductive Act where
  | main (env : MainEnv)
  | writeExec (e : ExecEvent)
  | writeOpen (o : OpenEvent)
  | execSocket (phase : ParserPhase)
  | openSocket (phase : ParserPhase)
  | shutDown

namespace Daemon

/-- `g_ringBuffer_write(&surv->commandQueue, eCall)` of a parsed call; while the queue is full the
parser holds the call back, and in the end destroys it. -/
def writeExec (d : Daemon) (e : ExecEvent) : Daemon :=
  let (full, queue) := gRingBufferWrite d.surv.commandQueue (some d.surv.heap.nextExec)
  if full then d
  else
    { d with
      surv := { d.surv with heap := d.surv.heap.mallocExec false e.call, commandQueue := queue }
      acceptedExecs := d.acceptedExecs ++ [d.surv.heap.nextExec] }

/-- `g_ringBuffer_write(&surv->openQueue, oCall)` of a parsed call -/
def writeOpen (d : Daemon) (o : OpenEvent) : Daemon :=
  let (full, queue) := gRingBufferWrite d.surv.openQueue (some d.surv.heap.nextOpen)
  if full then d
  else
    { d with
      surv := { d.surv with heap := d.surv.heap.mallocOpen o.call, openQueue := queue }
      acceptedOpens := d.acceptedOpens ++ [d.surv.heap.nextOpen] }

def act (d : Daemon) : Act → Except Fault Daemon
  | .main env => d.mainStep env
  | .writeExec e => return d.writeExec e
  | .writeOpen o => return d.writeOpen o
  | .execSocket phase => return { d with surv := { d.surv with processingExeccallSocket := phase } }
  | .openSocket phase => return { d with surv := { d.surv with processingOpencallSocket := phase } }
  | .shutDown => return { d with surv := { d.surv with shuttingDown := true } }

/-- Any interleaving. -/
def run (d : Daemon) (acts : List Act) : Except Fault Daemon := acts.foldlM act d

end Daemon

end DirSurveiller
