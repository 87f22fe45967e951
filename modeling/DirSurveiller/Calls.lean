/-
  DirSurveiller.Calls — the two events the daemon deals in: open calls and exec calls.

  A parser thread builds an `openCall` or an `execCall` from the five field buffers of a line
  (`openCall_init`, `execCall_init`); the index, the queues and the database pass them on.
-/
import DirSurveiller.Containers.StringBuffer

namespace DirSurveiller

open CMachine Outcome

/-! ## §1. Numbers in text. -/

/-- `isspace` -/
def isSpace (b : UInt8) : Bool := b == 32 || (9 ≤ b && b ≤ 13)

def isDigit (b : UInt8) : Bool := 48 ≤ b && b ≤ 57

/-- The value of the leading digits. -/
def digitsValue (s : Bytes) : Nat :=
  (s.takeWhile isDigit).foldl (fun n d => 10 * n + (d.toNat - 48)) 0

/-- `strtol(s, NULL, 10)`: white space, a sign, digits; out of range it delivers the nearest
`long`. -/
def strtol (s : Bytes) : Int :=
  let value : Int :=
    match s.dropWhile isSpace with
    | 45 :: rest => -(digitsValue rest : Int)
    | 43 :: rest => digitsValue rest
    | rest => digitsValue rest
  max (-(2 ^ 63)) (min (2 ^ 63 - 1) value)

def atol (s : Bytes) : Int64 := Int64.ofInt (strtol s)

/-- `(int) strtol(s, NULL, 10)` -/
def atoi (s : Bytes) : Int32 := Int32.ofInt (strtol s)

/-! ## §2. The structs. -/

/-- `struct timeval` -/
structure Timeval where
  tvSec : Int64
  tvUsec : Int64
  deriving Repr, DecidableEq

/-- `timercmp(a, b, <=)` -/
def timercmpLe (a b : Timeval) : Bool :=
  if a.tvSec = b.tvSec then a.tvUsec ≤ b.tvUsec else a.tvSec ≤ b.tvSec

/-- `timercmp(a, b, <)` -/
def timercmpLt (a b : Timeval) : Bool :=
  if a.tvSec = b.tvSec then a.tvUsec < b.tvUsec else a.tvSec < b.tvSec

/-- The address of an `openCall` object. -/
abbrev OpenRef := Nat

/-- The address of an `execCall` object. -/
abbrev ExecRef := Nat

/-- `openCall` -/
structure OpenCall where
  pid : Int32
  flag : Int32
  cmdName : Bytes
  filepath : Bytes
  inode : Nat
  timeStamp : Timeval
  deriving Repr, DecidableEq

/-- `execCall`.  `callBuff` lists the allocated slots; a slot that was never written is `none`. -/
structure ExecCall where
  pid : Int32
  ppid : Int32
  deadness : Nat
  tracked : Bool
  callNum : Nat
  cmdName : Bytes
  args : Bytes
  callBuffSize : Nat
  callBuff : List (Option OpenRef)
  timeStamp : Timeval
  ptimeStamp : Timeval
  deriving Repr, DecidableEq

/-- What a call is known by; it never changes. -/
structure Identity where
  pid : Int32
  timeStamp : Timeval
  cmdName : Bytes
  args : Bytes
  deriving Repr, DecidableEq

def ExecCall.identity (c : ExecCall) : Identity :=
  { pid := c.pid, timeStamp := c.timeStamp, cmdName := c.cmdName, args := c.args }

/-- A string as the parsers deliver it: no NUL inside, and an `int` can count its bytes. -/
def Text (s : Bytes) : Prop := (0 : UInt8) ∉ s ∧ s.length ≤ INT_MAX

instance (s : Bytes) : Decidable (Text s) := inferInstanceAs (Decidable (_ ∧ _))

theorem Text.nil : Text [] := by decide

/-- `(openCall) {0}` -/
def OpenCall.zero : OpenCall :=
  { pid := 0, flag := 0, cmdName := [], filepath := [], inode := 0, timeStamp := ⟨0, 0⟩ }

/-- `(execCall) {0}` -/
def ExecCall.zero : ExecCall :=
  { pid := 0, ppid := 0, deadness := 0, tracked := false, callNum := 0, cmdName := [], args := [],
    callBuffSize := 0, callBuff := [], timeStamp := ⟨0, 0⟩, ptimeStamp := ⟨0, 0⟩ }

/-! ## §3. The constructors. -/

/-- `'.'` -/
def DOT : UInt8 := 46

/-- The loop both constructors begin with: look for the dot of the time stamp in
`string[0..end_pos)`, overwrite it with NUL, and read the two numbers around it.  `none` when the
loop reaches `end_pos`; the index is an `int`. -/
def splitTimeStamp (stamp : StringBuffer) : Except Fault (Option (Timeval × StringBuffer)) :=
  let timedot := stamp.content.idxOf DOT
  if timedot > INT_MAX then .error .intOverflow
  else if timedot = stamp.endPos then .ok none
  else do
    let block ← store stamp.string timedot 0
    let sec ← cstring block
    let usec ← cstring (block.drop (1 + timedot))
    return some (⟨atol sec, atol usec⟩, { stamp with string := block })

/-- `openCall_init`.  `stat` answers the system call with the inode; the copies are granted as
`alloc` says.  The first component is the returned value, the last the time stamp buffer, whose
dot has been overwritten. -/
def openCallInit (alloc : Nat → Bool) (stat : Bytes → Option Nat) (this : OpenCall)
    (openTimeStamp cmdName pid returnVal path : StringBuffer) :
    Except Fault (Int × OpenCall × StringBuffer) := do
  let this := { this with inode := 0 }
  match ← splitTimeStamp openTimeStamp with
  | none => return (2, this, openTimeStamp)
  | some (timeStamp, openTimeStamp) =>
    let cmd ← sbStringCpy (alloc 0) cmdName
    let filepath ← sbStringCpy (alloc 1) path
    let flag ← cstring returnVal.string
    let pid ← cstring pid.string
    let this := { this with
      timeStamp := timeStamp, cmdName := cmd, filepath := filepath
      flag := atoi flag, pid := atoi pid }
    let name ← cstring path.string
    match stat name with
    | none => return (-1, this, openTimeStamp)
    | some inode => return (0, { this with inode := inode }, openTimeStamp)

/-- `execCall_init` -/
def execCallInit (alloc : Nat → Bool) (this : ExecCall)
    (execTimeStamp cmdName pid ppid args : StringBuffer) :
    Except Fault (Int × ExecCall × StringBuffer) := do
  let this := { this with tracked := false, deadness := 0, ptimeStamp := ⟨0, 0⟩ }
  match ← splitTimeStamp execTimeStamp with
  | none => return (2, this, execTimeStamp)
  | some (timeStamp, execTimeStamp) =>
    let cmd ← sbStringCpy (alloc 0) cmdName
    let args ← sbStringCpy (alloc 1) args
    let ppid ← cstring ppid.string
    let pid ← cstring pid.string
    let this := { this with
      timeStamp := timeStamp, cmdName := cmd, args := args, ppid := atoi ppid, pid := atoi pid }
    if alloc 2 then
      return (0, { this with
        callBuff := List.replicate 8 none, tracked := false, callNum := 0, callBuffSize := 8 },
        execTimeStamp)
    else
      return (1, this, execTimeStamp)

/-! ## §4. The constructors do not fault on field buffers of the parser. -/

/-- The state of a field buffer when a line has been read. -/
def FieldOk (f : StringBuffer) : Prop := f.Wf ∧ f.Terminated ∧ f.endPos ≤ INT_MAX

/-- `sb_stringCpy` copies such a field. -/
theorem FieldOk.copied {f : StringBuffer} (h : FieldOk f) : sbStringCpy true f = .ok f.content := by
  have hsmall : f.endPos ≤ 2147483647 := h.2.2
  exact StringBuffer.stringCpy_content h.1.inside h.2.1 (by omega)

/-- A dot in the content: the numbers are read from what stands around it. -/
theorem splitTimeStamp_dot {stamp : StringBuffer} (h : FieldOk stamp) {k : Nat}
    (hk : stamp.content.idxOf DOT = k) (hlt : k < stamp.endPos) :
    splitTimeStamp stamp
      = .ok (some (⟨atol (stamp.content.take k), atol (stamp.content.drop (k + 1))⟩,
          { stamp with string := stamp.string.set k 0 })) := by
  obtain ⟨hwf, hterm, hsmall⟩ := h
  have hroom := hwf.room
  have hsize := hwf.length
  have hks : k < stamp.string.length := by omega
  -- overwriting the dot leaves a NUL at it and the old NUL at `end_pos`
  have hset : stamp.string.set k 0 = stamp.content.take k ++ 0 :: stamp.string.drop (k + 1) := by
    rw [List.set_eq_take_append_cons_drop, if_pos hks, StringBuffer.content, List.take_take,
      Nat.min_eq_left (by omega)]
  have hsec : cstring (stamp.string.set k 0) = .ok (stamp.content.take k) := by
    rw [hset]
    exact cstring_terminated fun hm => hterm.clean (List.mem_of_mem_take hm)
  have hrest : (stamp.string.set k 0).drop (1 + k)
      = stamp.content.drop (k + 1) ++ 0 :: stamp.string.drop (stamp.endPos + 1) := by
    rw [hset, Nat.add_comm 1 k, List.drop_append, List.length_take, hwf.content_length,
      Nat.min_eq_left (by omega), List.drop_of_length_le
        (by rw [List.length_take, hwf.content_length]; omega),
      show k + 1 - k = 1 by omega, List.drop_succ_cons, List.drop_zero, List.nil_append]
    conv_lhs => rw [StringBuffer.string_eq_terminated hwf.inside hterm]
    rw [List.drop_append_of_le_length (by rw [hwf.content_length]; omega)]
  have husec : cstring ((stamp.string.set k 0).drop (1 + k))
      = .ok (stamp.content.drop (k + 1)) := by
    rw [hrest]
    exact cstring_terminated fun hm => hterm.clean (List.mem_of_mem_drop hm)
  simp only [splitTimeStamp, hk]
  rw [if_neg (by omega), if_neg (by omega), store_ok hks]
  simp only [ok_bind, hsec, husec]
  rfl

theorem splitTimeStamp_ok {stamp : StringBuffer} (h : FieldOk stamp) :
    splitTimeStamp stamp = .ok none
      ∨ ∃ t stamp', splitTimeStamp stamp = .ok (some (t, stamp')) ∧ stamp'.Wf := by
  have hlen : stamp.content.idxOf DOT ≤ stamp.endPos := by
    rw [← h.1.content_length]
    exact List.idxOf_le_length
  by_cases hdot : stamp.content.idxOf DOT = stamp.endPos
  · left
    have hsmall := h.2.2
    rw [splitTimeStamp, if_neg (by omega), if_pos hdot]
  · right
    refine ⟨_, _, splitTimeStamp_dot h rfl (by omega), ?_, h.1.room, h.1.small⟩
    show (stamp.string.set _ 0).length = stamp.size
    rw [List.length_set]
    exact h.1.length

section Init

variable {stamp cmdName pid other text : StringBuffer}

/-- Granted all requests, `execCall_init` returns 0 or 2. -/
theorem execCallInit_ok (hs : FieldOk stamp) (hc : FieldOk cmdName) (hp : FieldOk pid)
    (ho : FieldOk other) (ht : FieldOk text) (this : ExecCall) :
    ∃ ret call stamp', execCallInit (fun _ => true) this stamp cmdName pid other text
        = .ok (ret, call, stamp') ∧ (ret = 0 ∨ ret = 2) ∧ stamp'.Wf := by
  rcases splitTimeStamp_ok hs with h | ⟨t, stamp', h, hwf⟩
  · simp only [execCallInit, h, ok_bind]
    exact ⟨2, _, stamp, rfl, Or.inr rfl, hs.1⟩
  · simp only [execCallInit, h, ok_bind, hc.copied,
      ht.copied, StringBuffer.cstring_eq hp.1 hp.2.1,
      StringBuffer.cstring_eq ho.1 ho.2.1, if_true]
    exact ⟨0, _, stamp', rfl, Or.inl rfl, hwf⟩

/-- Granted all requests, `openCall_init` returns 0, 2 or, without the file, -1. -/
theorem openCallInit_ok (hs : FieldOk stamp) (hc : FieldOk cmdName) (hp : FieldOk pid)
    (ho : FieldOk other) (ht : FieldOk text) (stat : Bytes → Option Nat) (this : OpenCall) :
    ∃ ret call stamp', openCallInit (fun _ => true) stat this stamp cmdName pid other text
        = .ok (ret, call, stamp') ∧ (ret = 0 ∨ ret = 2 ∨ ret = -1) ∧ stamp'.Wf := by
  rcases splitTimeStamp_ok hs with h | ⟨t, stamp', h, hwf⟩
  · simp only [openCallInit, h, ok_bind]
    exact ⟨2, _, stamp, rfl, Or.inr (Or.inl rfl), hs.1⟩
  · cases hstat : stat text.content with
    | none =>
        simp only [openCallInit, h, ok_bind, hc.copied,
          ht.copied, StringBuffer.cstring_eq hp.1 hp.2.1,
          StringBuffer.cstring_eq ho.1 ho.2.1, StringBuffer.cstring_eq ht.1 ht.2.1, hstat]
        exact ⟨-1, _, stamp', rfl, Or.inr (Or.inr rfl), hwf⟩
    | some inode =>
        simp only [openCallInit, h, ok_bind, hc.copied,
          ht.copied, StringBuffer.cstring_eq hp.1 hp.2.1,
          StringBuffer.cstring_eq ho.1 ho.2.1, StringBuffer.cstring_eq ht.1 ht.2.1, hstat]
        exact ⟨0, _, stamp', rfl, Or.inl rfl, hwf⟩

/-! ## §5. What the constructors deliver. -/

/-- What `execCall_init` takes from a line. -/
structure ExecEvent where
  pid : Int32
  ppid : Int32
  timeStamp : Timeval
  cmdName : Bytes
  args : Bytes
  cmdName_text : Text cmdName
  args_text : Text args

/-- The object `execCall_init` leaves. -/
def ExecEvent.call (e : ExecEvent) : ExecCall :=
  { pid := e.pid, ppid := e.ppid, deadness := 0, tracked := false, callNum := 0
    cmdName := e.cmdName, args := e.args, callBuffSize := 8, callBuff := List.replicate 8 none
    timeStamp := e.timeStamp, ptimeStamp := ⟨0, 0⟩ }

/-- What `openCall_init` takes from a line. -/
structure OpenEvent where
  call : OpenCall
  cmdName_text : Text call.cmdName
  filepath_text : Text call.filepath

/-- The event of a line whose texts are empty. -/
def ExecEvent.blank (pid ppid : Int32) (timeStamp : Timeval) : ExecEvent :=
  ⟨pid, ppid, timeStamp, [], [], .nil, .nil⟩

def OpenEvent.blank (pid : Int32) (timeStamp : Timeval) : OpenEvent :=
  ⟨{ OpenCall.zero with pid := pid, timeStamp := timeStamp }, .nil, .nil⟩

theorem fieldOk_text {f : StringBuffer} (h : FieldOk f) : Text f.content :=
  ⟨h.2.1.clean, by rw [h.1.content_length]; exact h.2.2⟩

end Init

end DirSurveiller
