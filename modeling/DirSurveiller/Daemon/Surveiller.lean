/-
  DirSurveiller.Daemon.Surveiller — the `surveiller` struct and what the main thread does to it.

  The struct holds the process index, the three queues and the databases.  Here are the functions
  that take execCalls out of the index: `surv_addExecCall` when a pid is used again,
  `surv_check_proc_vitals` when a process is gone, and `surv_flush_procindex` at the end; and the
  dispatch, which archives what the dispatch queue holds.

  Fields that no modelled function reads (sockets, log files, thread ids, the status text) are left
  out, and so are the log lines.
-/
import DirSurveiller.Containers.RingBuffer
import DirSurveiller.Index.Procindex
import DirSurveiller.Database.Store

namespace DirSurveiller

open CMachine Outcome

/-! ## §1. The struct. -/

/-- What a parser thread goes through; its `processing_…_socket` flag is set while it is
`running`. -/
inductive ParserPhase where
  | notStarted
  | running
  | exited
  deriving Repr, DecidableEq

/-- `surveiller`.  `dispatched` is history: what `surv_database_dispatch` has been given, and what
it held then. -/
structure Surveiller where
  heap : Heap
  procs : Procindex
  commandQueue : GRingBuffer ExecRef
  openQueue : GRingBuffer OpenRef
  dispatchQueue : GRingBuffer ExecRef
  dbMan : DbManager
  bootTime : UInt32
  shuttingDown : Bool
  processingExeccallSocket : ParserPhase
  processingOpencallSocket : ParserPhase
  dispatched : List (ExecRef × ExecCall)

/-- The struct as `surv_init` leaves it, with this index. -/
def Surveiller.initial (procs : Procindex) (bootTime : UInt32) : Surveiller :=
  { heap := .empty, procs := procs, commandQueue := gRingBufferInit
    openQueue := gRingBufferInit, dispatchQueue := gRingBufferInit, dbMan := .empty
    bootTime := bootTime, shuttingDown := false, processingExeccallSocket := .notStarted
    processingOpencallSocket := .notStarted, dispatched := [] }

/-- `surv_init`, as far as it concerns these fields; `none` when the index is refused. -/
def survInit (getMaxPID ownPID : Int) (bootTime : UInt32) : Except Fault (Option Surveiller) := do
  let (ret, procs) ← procindexInit getMaxPID true ownPID
  if ret = NOMINAL then return some (.initial procs bootTime) else return none

/-! ## §2. Leaving the index. -/

/-- `g_ringBuffer_write(&this->dispatchQueue, eCall)`; nobody looks at the answer. -/
def Surveiller.send (this : Surveiller) (eCall : Option ExecRef) : Surveiller :=
  { this with dispatchQueue := (gRingBufferWrite this.dispatchQueue eCall).2 }

/-- `surv_addExecCall`; the answers of `realloc` in the two calls of `procindex_add` come first. -/
def survAddExecCall (granted again : Nat → Bool) (this : Surveiller) (ecall : ExecRef) :
    Except Fault (Int × Surveiller) := do
  let (ret, heap, procs) ← procindexAdd granted this.heap this.procs ecall
  let this := { this with heap := heap, procs := procs }
  if ret = ALREADY_EXISTS_IN_CONTAINER then
    -- the entry of the old process makes way, whether the queue has room for it or not
    let (retrieved, procs) ← procindexRetrieve this.procs (← this.heap.exec ecall).pid.toInt
    let this := { this with procs := procs }.send retrieved
    let (ret, heap, procs) ← procindexAdd again this.heap this.procs ecall
    return (ret, { this with heap := heap, procs := procs })
  else
    return (ret, this)

/-- The body of the loop of `surv_flush_procindex`. -/
def flushPid (this : Surveiller) (i : Nat) : Except Fault Surveiller := do
  let (currProc, procs) ← procindexRetrieve this.procs i
  let this := { this with procs := procs }
  match currProc with
  | none => return this
  | some currProc =>
    if (← this.heap.exec currProc).tracked then
      -- it has left the index: a full queue loses it
      return this.send (some currProc)
    else
      return { this with heap := ← this.heap.execCallDestroy currProc }

/-- `surv_flush_procindex`.  With an empty table `size-1` becomes the largest `size_t`, and the
loop runs until the pid overflows. -/
def survFlushProcindex (this : Surveiller) : Except Fault Surveiller :=
  if this.procs.size < 1 then .error .intOverflow
  else (List.range (this.procs.size - 1).toNat).foldlM flushPid this

/-- The body of the loop of `surv_check_proc_vitals`; `gone` is the answer of `kill`. -/
def checkSlot (gone : Nat → Bool) (this : Surveiller) (i : Nat) : Except Fault Surveiller := do
  match ← this.procs.slot i with
  | none => return this
  | some currProc =>
    let c ← this.heap.exec currProc
    if gone i then
      -- a tracked process is archived at once, an untracked one is forgotten on its fourth turn
      if c.tracked then
        return { this.send (some currProc) with procs := ← this.procs.setSlot i .null }
      else if c.deadness > 2 then
        let heap ← this.heap.execCallDestroy currProc
        return { this with heap := heap, procs := ← this.procs.setSlot i .null }
      else
        return { this with heap := this.heap.setExec currProc { c with deadness := c.deadness + 1 } }
    else
      return this

/-- `surv_check_proc_vitals`.  A negative size would be a huge `size_t`. -/
def survCheckProcVitals (gone : Nat → Bool) (this : Surveiller) : Except Fault Surveiller :=
  if this.procs.size < 0 then .error .outOfRange
  else (List.range this.procs.size.toNat).foldlM (checkSlot gone) this

/-! ## §3. The dispatch. -/

/-- What one dispatch depends on: the allocator, the padding of the keys on the stack, and what the
stack held where the key of the `i`-th open call is built. -/
structure DispatchEnv where
  mem : Allocator
  pad : UInt32
  prior : Nat → Bytes

/-- `time_stamp.tv_sec += this->boot_time` -/
def bootShift (bootTime : UInt32) (t : Timeval) : Except Fault Timeval :=
  if t.tvSec.toInt + bootTime.toNat < 2 ^ 63 then
    .ok { t with tvSec := t.tvSec + Int64.ofNat bootTime.toNat }
  else .error .intOverflow

/-- `record` of `surv_database_dispatch` -/
def execRecord (env : DispatchEnv) (eCall : ExecCall) (timeStamp : Timeval) : ECallRecord :=
  { cmdName := some eCall.cmdName, timeStamp := timeStamp, ppid := eCall.ppid, pid := eCall.pid
    envArgs := some [], args := some eCall.args
    parentEcall := { pid := eCall.ppid, timeStamp := eCall.ptimeStamp, pad := env.pad } }

/-- `oCrecord` of `surv_database_dispatch` -/
def openRecord (env : DispatchEnv) (record : ECallRecord) (oCall : OpenCall)
    (timeStamp : Timeval) : OCallRecord :=
  { timeStamp := timeStamp, flag := oCall.flag, filepath := some oCall.filepath
    eCallKey := dbExecCallGenKey ⟨⟨0, 0⟩, 0, env.pad⟩ record }

/-- The body of the loop over `callBuff` of `surv_database_dispatch`. -/
def dispatchOpen (env : DispatchEnv) (this : Surveiller) (issuer : ExecRef) (eCall : ExecCall)
    (record : ECallRecord) (db : Int × DbManager) (i : Nat) : Except Fault (Int × DbManager) := do
  let o ← Heap.callBuffAt eCall i
  let oCall ← this.heap.openCall o
  let timeStamp ← bootShift this.bootTime oCall.timeStamp
  dbAddOpenCall env.mem (i + 1) (env.prior i) db.2 (openRecord env record oCall timeStamp) issuer o

/-- `surv_database_dispatch` -/
def survDatabaseDispatch (env : DispatchEnv) (this : Surveiller) (eCall : Option ExecRef) :
    Except Fault (Int × Surveiller) :=
  match eCall with
  | none => .error .nullDeref
  | some r => do
      let c ← this.heap.exec r
      let timeStamp ← bootShift this.bootTime c.timeStamp
      let record := execRecord env c timeStamp
      -- a refused record is logged; its open calls are added all the same
      let db ← dbAddExecCall env.mem 0 env.pad this.dbMan record r
      let db ← (List.range c.callNum).foldlM (dispatchOpen env this r c record) db
      return (db.1, { this with dbMan := db.2, dispatched := this.dispatched ++ [(r, c)] })

/-- The body of the dispatch loop of `main`. -/
def dispatchOne (env : DispatchEnv) (this : Surveiller) : Except Fault Surveiller := do
  let (_, queue, dispatchCall) := gRingBufferRead this.dispatchQueue none
  -- the call is destroyed below, whatever the database answers
  let (_, this) ← survDatabaseDispatch env { this with dispatchQueue := queue } dispatchCall
  match dispatchCall with
  | none => .error .nullDeref
  | some r => return { this with heap := ← this.heap.execCallDestroy r }

/-- `for( int i =0; i<dispatch_batch; i++)` -/
def dispatchBatch (env : Nat → DispatchEnv) (this : Surveiller) : Except Fault Surveiller :=
  (List.range (gRingBufferSize this.dispatchQueue).toNat).foldlM
    (fun this i => dispatchOne (env i) this) this

end DirSurveiller
