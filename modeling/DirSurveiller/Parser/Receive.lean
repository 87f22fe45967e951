/-
  DirSurveiller.Parser.Receive — the receive loops of the two parser threads.

  `surv_handleExecCallSocket` and `surv_handleOpenCallSocket` differ in what they do with a finished
  line and in nothing else: both append what `recv` delivers to `sbuf`, scan the whole buffer up to
  and including `string[end_pos]`, cut fields at tabs, finish a line at a newline, and delete what
  they have consumed.  The loop is one definition with the handler of a finished line as its
  parameter; each thread is that loop with its own handler.

  `scanByte` is the body of the scan for one index; the index is an `int`, the bound `end_pos` a
  `u_int32_t`.
-/
import DirSurveiller.Calls

namespace DirSurveiller

open CMachine Outcome

/-! ## §1. The state of a parser thread. -/

def NEWLINE : UInt8 := 10

def TAB : UInt8 := 9

/-- `int field_num = 5` -/
def fieldNum : Nat := 5

/-- The locals of a parser thread.  `exited` is set when the thread has left its loop.  `inits`
and `queued` are history variables: the field contents of every call of the constructor so far,
and the objects the ring buffer has accepted. -/
structure Parser (ρ : Type) where
  sbuf : StringBuffer
  fields : List StringBuffer
  currField : Nat
  lfieldStart : Nat
  exited : Bool
  inits : List (List Bytes)
  queued : List ρ

/-- The allocators behind `sbuf` and behind each of the field buffers. -/
structure ParserMem where
  sbuf : Allocator
  field : Nat → Allocator

/-- What the handler of a finished line leaves: the field buffers, the object the ring accepted,
and whether the thread has to give up because the ring stayed full. -/
structure Handled (ρ : Type) where
  fields : List StringBuffer
  queued : Option ρ
  refused : Bool

/-- The handler of a finished line: the number of the line and the five field buffers. -/
abbrev Handler (ρ : Type) := Nat → List StringBuffer → Except Fault (Handled ρ)

/-- What the loop head sees: the loop condition or `select` ends the loop, or `recv` delivers a
chunk, 0, or -1. -/
inductive Recv where
  | leave
  | chunk (bytes : Bytes)
  | closed
  | failed
  deriving Repr, DecidableEq

/-! ## §2. The loop. -/

section Loop

variable {ρ : Type} (mem : ParserMem) (handle : Handler ρ)

/-- `sb_append(fields+curr_field, sbuf.string+lfield_start)`; the returned value is dropped. -/
def appendField (p : Parser ρ) : Except Fault (Parser ρ) :=
  match p.fields[p.currField]? with
  | none => .error .outOfRange
  | some field => do
      let (_, field) ← sbAppend (mem.field p.currField) field (p.sbuf.string.drop p.lfieldStart)
      return { p with fields := p.fields.set p.currField field }

/-- Overwrite the delimiter at index `i` with NUL. -/
def cutAt (p : Parser ρ) (i : Nat) : Except Fault (Parser ρ) := do
  let block ← store p.sbuf.string i 0
  return { p with sbuf := { p.sbuf with string := block } }

/-- The body of `if (curr_field == field_num - 1)`. -/
def finishLine (p : Parser ρ) (i : Nat) : Except Fault (Parser ρ) := do
  let p ← cutAt p i
  let p ← appendField mem p
  let r ← handle p.inits.length p.fields
  -- a ring that stays full ends the thread
  return { p with
    fields := r.fields
    inits := p.inits ++ [p.fields.map StringBuffer.content]
    queued := p.queued ++ r.queued.toList
    exited := r.refused }

/-- `case '\n'` -/
def scanNewline (p : Parser ρ) (i : Nat) : Except Fault (Parser ρ) := do
  -- a line with another number of fields is dropped, but its fields are flushed all the same
  let p ← if p.currField = fieldNum - 1 then finishLine mem handle p i else .ok p
  if p.exited then
    return p
  else
    let fields ← p.fields.mapM sbFlush
    return { p with fields := fields, lfieldStart := i + 1, currField := 0 }

/-- `case '\t'` -/
def scanTab (p : Parser ρ) (i : Nat) : Except Fault (Parser ρ) := do
  let p ← cutAt p i
  let p ← appendField mem p
  -- nothing bounds the index
  return { p with currField := p.currField + 1, lfieldStart := i + 1 }

/-- `switch (sbuf.string[i])` -/
def scanByte (p : Parser ρ) (i : Nat) : Except Fault (Parser ρ) := do
  let c ← load p.sbuf.string i
  if c = NEWLINE then scanNewline mem handle p i
  else if c = TAB then scanTab mem p i
  else return p

/-- `for (int i=0; i<=sbuf.end_pos; i++)`: the first argument counts the indices left. -/
def scan : Nat → Nat → Parser ρ → Except Fault (Parser ρ)
  | 0, _, p => .ok p
  | left + 1, i, p => do
      let p ← scanByte mem handle p i
      if p.exited then
        return p
      else if i = INT_MAX then
        .error .intOverflow
      else scan left (i + 1) p

/-- What follows a `recv` that delivered `rlen`: append, scan, delete. -/
def consume (p : Parser ρ) (buf : Bytes) (rlen : Nat) : Except Fault (Parser ρ) := do
  let (ret, sbuf) ← sbAppendl mem.sbuf p.sbuf buf rlen
  let p := { p with sbuf := sbuf }
  if ret ≠ 0 then
    return { p with exited := true }
  else
    -- the scan begins at 0 each time, and reads `string[end_pos]` as well
    let p ← scan mem handle (sbuf.endPos + 1) 0 p
    if p.exited then
      return p
    else
      let sbuf ← sbDeletehead p.sbuf p.lfieldStart
      return { p with sbuf := sbuf, lfieldStart := 0 }

/-- One round of the receive loop.  The `ssize_t` -1 becomes the largest `size_t`. -/
def receive (p : Parser ρ) (r : Recv) : Except Fault (Parser ρ) :=
  if p.exited then .ok p
  else
    match r with
    | .leave => .ok { p with exited := true }
    | .closed => .ok { p with exited := true }
    | .failed => consume mem handle p [] (2 ^ 64 - 1)
    | .chunk bytes => consume mem handle p bytes bytes.length

/-- The state before the loop: `sbuf` of 512 bytes and five field buffers. -/
def parserInit (fieldSizes : List Nat) : Parser ρ :=
  { sbuf := sbInit 512
    fields := fieldSizes.map sbInit
    currField := 0
    lfieldStart := 0
    exited := false
    inits := []
    queued := [] }

end Loop

/-! ## §3. The two threads. -/

/-- The environment of a parser thread, by the number of the line: the allocations of the
constructor, whether `malloc` grants the object, and whether one of the (at most four) attempts at
`g_ringBuffer_write` finds room. -/
structure ParserEnv where
  alloc : Nat → Nat → Bool
  malloc : Nat → Bool
  accepts : Nat → Bool

/-- All requests are granted and every object is accepted. -/
def ParserEnv.granting : ParserEnv :=
  { alloc := fun _ _ => true, malloc := fun _ => true, accepts := fun _ => true }

/-- What `surv_handleExecCallSocket` does with a finished line.  `fresh` is the uninitialised
object `malloc` delivers. -/
def handleExecLine (env : ParserEnv) (fresh : Nat → ExecCall) : Handler ExecCall :=
  fun line fields =>
    match fields with
    | [oTime, cmd, pid, ppid, args] =>
        if env.malloc line then do
          let (ret, eCall, oTime) ←
            execCallInit (env.alloc line) (fresh line) oTime cmd pid ppid args
          let fields := [oTime, cmd, pid, ppid, args]
          if ret = 1 ∨ ret = 2 then
            -- the object is neither queued nor freed
            return { fields := fields, queued := none, refused := false }
          else if env.accepts line then
            return { fields := fields, queued := some eCall, refused := false }
          else
            return { fields := fields, queued := none, refused := true }
        else .error .nullDeref
    | _ => .error .outOfRange

/-- What `surv_handleOpenCallSocket` does with a finished line.  `filter` is the answer of
`openCall_filter__filter` for the path. -/
def handleOpenLine (env : ParserEnv) (stat : Bytes → Option Nat) (filter : Bytes → Bool) :
    Handler OpenCall :=
  fun line fields =>
    match fields with
    | [oTime, cmd, pid, rval, path] =>
        if env.malloc line then do
          let (ret, oCall, oTime) ←
            openCallInit (env.alloc line) stat OpenCall.zero oTime cmd pid rval path
          let fields := [oTime, cmd, pid, rval, path]
          if ret = 1 ∨ ret = 2 then
            return { fields := fields, queued := none, refused := false }
          else if filter oCall.filepath then
            if env.accepts line then
              return { fields := fields, queued := some oCall, refused := false }
            else
              return { fields := fields, queued := none, refused := true }
          else
            return { fields := fields, queued := none, refused := false }
        else .error .nullDeref
    | _ => .error .outOfRange

def execFieldSizes : List Nat := [64, 32, 16, 16, 128]

def openFieldSizes : List Nat := [64, 32, 16, 8, 128]

/-- The receive loop of `surv_handleExecCallSocket` over what the loop head sees. -/
def survHandleExecCallSocket (mem : ParserMem) (env : ParserEnv) (fresh : Nat → ExecCall)
    (rs : List Recv) : Except Fault (Parser ExecCall) :=
  rs.foldlM (receive mem (handleExecLine env fresh)) (parserInit execFieldSizes)

/-- The receive loop of `surv_handleOpenCallSocket`. -/
def survHandleOpenCallSocket (mem : ParserMem) (env : ParserEnv) (stat : Bytes → Option Nat)
    (filter : Bytes → Bool) (rs : List Recv) : Except Fault (Parser OpenCall) :=
  rs.foldlM (receive mem (handleOpenLine env stat filter)) (parserInit openFieldSizes)

/-! ## §4. What the simulation needs to know about a handler. -/

/-- A handler that neither faults nor gives up, and leaves five sound buffers. -/
def HandlerOk {ρ : Type} (handle : Handler ρ) : Prop :=
  ∀ line fields, fields.length = fieldNum → (∀ f ∈ fields, FieldOk f) →
    ∃ r, handle line fields = .ok r ∧ r.refused = false
      ∧ r.fields.length = fieldNum ∧ ∀ f ∈ r.fields, f.Wf

/-- A list of five fields, taken apart. -/
private theorem five_fields {fields : List StringBuffer} (h : fields.length = fieldNum) :
    ∃ a b c d e, fields = [a, b, c, d, e] := by
  match fields, h with
  | [a, b, c, d, e], _ => exact ⟨a, b, c, d, e, rfl⟩

theorem handleExecLine_ok (fresh : Nat → ExecCall) :
    HandlerOk (handleExecLine ParserEnv.granting fresh) := by
  intro line fields hlen hok
  obtain ⟨oTime, cmd, pid, ppid, args, rfl⟩ := five_fields hlen
  simp only [List.forall_mem_cons] at hok
  obtain ⟨h1, h2, h3, h4, h5, -⟩ := hok
  obtain ⟨ret, call, oTime', hinit, hret, hwf⟩ := execCallInit_ok h1 h2 h3 h4 h5 (fresh line)
  have hall : ∀ f ∈ [oTime', cmd, pid, ppid, args], f.Wf := by
    simp only [List.forall_mem_cons]
    exact ⟨hwf, h2.1, h3.1, h4.1, h5.1, by simp⟩
  rcases hret with rfl | rfl
  · refine ⟨{ fields := [oTime', cmd, pid, ppid, args], queued := some call, refused := false },
      ?_, rfl, rfl, hall⟩
    simp only [handleExecLine, ParserEnv.granting, if_true, hinit, ok_bind]
    rfl
  · refine ⟨{ fields := [oTime', cmd, pid, ppid, args], queued := none, refused := false },
      ?_, rfl, rfl, hall⟩
    simp only [handleExecLine, ParserEnv.granting, if_true, hinit, ok_bind]
    rfl

theorem handleOpenLine_ok (stat : Bytes → Option Nat) (filter : Bytes → Bool) :
    HandlerOk (handleOpenLine ParserEnv.granting stat filter) := by
  intro line fields hlen hok
  obtain ⟨oTime, cmd, pid, rval, path, rfl⟩ := five_fields hlen
  simp only [List.forall_mem_cons] at hok
  obtain ⟨h1, h2, h3, h4, h5, -⟩ := hok
  obtain ⟨ret, call, oTime', hinit, hret, hwf⟩ :=
    openCallInit_ok h1 h2 h3 h4 h5 stat OpenCall.zero
  have hall : ∀ f ∈ [oTime', cmd, pid, rval, path], f.Wf := by
    simp only [List.forall_mem_cons]
    exact ⟨hwf, h2.1, h3.1, h4.1, h5.1, by simp⟩
  have hhandle : handleOpenLine ParserEnv.granting stat filter line [oTime, cmd, pid, rval, path]
      = .ok { fields := [oTime', cmd, pid, rval, path]
              queued := if ret = 1 ∨ ret = 2 then none
                else if filter call.filepath then some call else none
              refused := false } := by
    simp only [handleOpenLine, ParserEnv.granting, if_true, hinit, ok_bind]
    split
    · rfl
    · split <;> rfl
  exact ⟨_, hhandle, rfl, rfl, hall⟩

end DirSurveiller
