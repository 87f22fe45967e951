/-
  DirSurveiller.Tracer.Script — the awk script of bashtrace.sh.

  The script reads the trace line by line.  Three arrays outlive a line: `lastfile` holds the name
  that a thread has handed to the kernel and not yet opened, `getppid` the parent of a process that
  was forked, `seen` the processes whose exec has been printed.  Its standard output is the socket of
  the openCalls, its standard error the one of the execCalls.

    * `Script.step`       — the rules of the script for one line, in their order,
    * `eventsOf`          — what a line tells, and `Script.note`, what is done about it,
    * `step_events`       — a step is what is done about the events of its line.
-/
import DirSurveiller.Lib.Awk
import DirSurveiller.Lib.Strtok
import DirSurveiller.Parser.Stream

namespace DirSurveiller

open CMachine Awk Fields

/-! ## §1. The regular expressions of the script. -/

/-- `.` -/
def anyByte : UInt8 → Bool := fun _ => true

/-- The text `t`, anywhere. -/
def textPattern (t : Bytes) : Pattern UInt8 := ⟨literal t, false⟩

/-- Everything up to the last `t`: `.*t`. -/
def throughPattern (t : Bytes) : Pattern UInt8 := ⟨.many anyByte :: literal t, false⟩

/-- `-[0-9][0-9]*` -/
def dashNumber : Pattern UInt8 := ⟨literal (ascii "-") ++ [.one isDigit, .many isDigit], false⟩

/-- `"$` -/
def endQuote : Pattern UInt8 := ⟨literal (ascii "\""), true⟩

/-- ` .*` -/
def fromBlank : Pattern UInt8 := ⟨literal (ascii " ") ++ [.many anyByte], false⟩

/-- `arg[0-9]*=\(fault\)` -/
def argFault : Pattern UInt8 :=
  ⟨literal (ascii "arg") ++ .many isDigit :: literal (ascii "=(fault)"), false⟩

/-- `" arg[0-9]*="` -/
def argBetween : Pattern UInt8 :=
  ⟨literal (ascii "\" arg") ++ .many isDigit :: literal (ascii "=\""), false⟩

/-- `LOST.*EVENT[S]` -/
def lostEvents : Pattern UInt8 :=
  ⟨literal (ascii "LOST") ++ .many anyByte :: literal (ascii "EVENTS"), false⟩

/-! ## §2. Fields. -/

/-- What separates the fields of a record: blanks and tabs. -/
def isBlank (b : UInt8) : Bool := b == 32 || b == TAB

/-- `$n`, the empty string where there is none. -/
def field (n : Nat) (line : Bytes) : Bytes := ((fields isBlank line)[n - 1]?).getD []

/-- `$NF`; without any field it is `$0`. -/
def lastField (line : Bytes) : Bytes := ((fields isBlank line).getLast?).getD line

/-- `comm`: `$1` without its first dash that has digits behind it, and those digits. -/
def commOf (line : Bytes) : Bytes := dashNumber.sub [] (field 1 line)

/-- `pid`: `$1` behind its last dash. -/
def pidOf (line : Bytes) : Bytes := (throughPattern (ascii "-")).sub [] (field 1 line)

/-- `time`: `$(3+o)` without its first colon. -/
def timeOf (o : Nat) (line : Bytes) : Bytes := (textPattern (ascii ":")).sub [] (field (3 + o) line)

/-- `filename`: `$NF` without a quote at its end, and behind the last quote of what remains. -/
def filenameOf (line : Bytes) : Bytes :=
  (throughPattern (ascii "\"")).sub [] (endQuote.sub [] (lastField line))

/-- `rval`: `$NF`, or -1 where it matches `0xfffff`. -/
def rvalOf (line : Bytes) : Bytes :=
  if (textPattern (ascii "0xfffff")).occurs (lastField line) then ascii "-1" else lastField line

/-- `cpid`: `$0` behind the last ` child_pid=`, up to a blank. -/
def childOf (line : Bytes) : Bytes :=
  fromBlank.sub [] ((throughPattern (ascii " child_pid=")).sub [] line)

/-- The arguments of an exec, as the script prints them. -/
def argsOf (line : Bytes) : Bytes :=
  if (textPattern (ascii "arg1=\"\"")).occurs line then
    commOf line ++ ascii " [?]"
  else
    let args := (throughPattern (ascii "arg1=(fault)")).sub [] line
    let args := (throughPattern (ascii "arg1=\"")).sub [] args
    let args := argFault.gsub [] args
    let args := argBetween.gsub (ascii " ") args
    let args := endQuote.sub [] args
    if (textPattern (ascii "(fault)")).occurs line then args else args ++ ascii " [...]"

/-! ## §3. The script. -/

/-- The arrays of the script (an index without an element reads as the empty string), and what it has
printed. -/
structure Script where
  lastfile : Bytes → Bytes
  getppid : Bytes → Bytes
  seen : Bytes → Bool
  out : Bytes
  err : Bytes

/-- `printf "%s\t%s\t%s\t%s\t%s\n"` -/
def printf (columns : List Bytes) : Bytes := encode TAB NEWLINE columns

/-- `print`, line by line. -/
def printLines (lines : List Bytes) : Bytes := (lines.map (· ++ [NEWLINE])).flatten

/-- `"WARNING: " $0`, for a line that matches. -/
def warningsOf (line : Bytes) : List Bytes :=
  if lostEvents.occurs line then [ascii "WARNING: " ++ line] else []

/-- `$1 != "#"` -/
def isEntry (line : Bytes) : Bool := field 1 line != ascii "#"

namespace Script

/-- Before the first line. -/
def initial : Script :=
  { lastfile := fun _ => [], getppid := fun _ => [], seen := fun _ => false, out := [], err := [] }

section Rules

variable (o : Nat) (kname : Bytes)

/-- `$(5+o) ~ /do_sys_open/` -/
def doSysOpen (line : Bytes) (s : Script) : Script :=
  if (textPattern (ascii "do_sys_open")).occurs (field (5 + o) line) then
    { s with lastfile := Function.update s.lastfile (pidOf line) (filenameOf line) }
  else s

/-- `$(4+o) == "sys_open"`; `opt_file` and `opt_fail` are not set. -/
def sysOpen (line : Bytes) (s : Script) : Script :=
  if field (4 + o) line = ascii "sys_open" then
    { s with
      lastfile := Function.update s.lastfile (pidOf line) []
      out := s.out ++ printf [timeOf o line, commOf line, pidOf line,
        rvalOf line, s.lastfile (pidOf line)] }
  else s

/-- `$(4+o) ~ /sched_process_fork/` -/
def schedProcessFork (line : Bytes) (s : Script) : Script :=
  if (textPattern (ascii "sched_process_fork")).occurs (field (4 + o) line) then
    { s with
      getppid := Function.update s.getppid (childOf line) (pidOf line)
      seen := Function.update s.seen (pidOf line) false }
  else s

/-- The rule of `$(4+o) ~ kname`, for a process that has not been seen. -/
def printExec (line : Bytes) (s : Script) : Script :=
  { s with
    err := s.err ++ printf [timeOf o line, commOf line, pidOf line,
      s.getppid (pidOf line), argsOf line]
    seen := Function.update s.seen (pidOf line) true
    getppid := Function.update s.getppid (pidOf line) [] }

/-- `$0 ~ /LOST.*EVENT[S]/` -/
def warn (line : Bytes) (s : Script) : Script := { s with err := s.err ++ printLines (warningsOf line) }

/-- The rules for one line of the trace. -/
def step (s : Script) (line : Bytes) : Script :=
  if isEntry line then
    let s := ((s.doSysOpen o line).sysOpen o line).schedProcessFork o line
    if (textPattern kname).occurs (field (4 + o) line) then
      -- `next`
      if s.seen (pidOf line) then s else (s.printExec o line).warn line
    else s.warn line
  else s.warn line

/-- The script on a trace. -/
def run (lines : List Bytes) : Script := lines.foldl (step o kname) initial

end Rules

end Script

/-! ## §4. What a line tells. -/

/-- What a line of the trace tells about a thread or a process. -/
inductive Event where
  /-- `getname` took a file name over from the thread -/
  | named (pid filename : Bytes)
  /-- `open` returned -/
  | opened (pid time comm rval : Bytes)
  | forked (pid child : Bytes)
  /-- with a warning, if the line is one about lost events as well -/
  | execed (pid time comm args : Bytes) (warnings : List Bytes)
  | warned (warnings : List Bytes)
  deriving DecidableEq

section Events

variable (o : Nat) (kname : Bytes)

/-- The event of the last two rules. -/
def lastEventOf (line : Bytes) : Event :=
  if isEntry line && (textPattern kname).occurs (field (4 + o) line) then
    .execed (pidOf line) (timeOf o line) (commOf line) (argsOf line) (warningsOf line)
  else .warned (warningsOf line)

/-- What a line tells, in the order of the rules. -/
def eventsOf (line : Bytes) : List Event :=
  (if isEntry line && (textPattern (ascii "do_sys_open")).occurs (field (5 + o) line) then
    [.named (pidOf line) (filenameOf line)] else [])
  ++ (if isEntry line && field (4 + o) line == ascii "sys_open" then
    [.opened (pidOf line) (timeOf o line) (commOf line) (rvalOf line)] else [])
  ++ (if isEntry line && (textPattern (ascii "sched_process_fork")).occurs (field (4 + o) line) then
    [.forked (pidOf line) (childOf line)] else [])
  ++ [lastEventOf o kname line]

/-- An exec of a process that has not been seen is printed. -/
def Script.noteExec (s : Script) (pid time comm args : Bytes) (warnings : List Bytes) : Script :=
  { s with
    err := s.err ++ printf [time, comm, pid, s.getppid pid, args] ++ printLines warnings
    seen := Function.update s.seen pid true
    getppid := Function.update s.getppid pid [] }

/-- What the script does about an event. -/
def Script.note (s : Script) : Event → Script
  | .named pid filename => { s with lastfile := Function.update s.lastfile pid filename }
  | .opened pid time comm rval =>
      { s with
        lastfile := Function.update s.lastfile pid []
        out := s.out ++ printf [time, comm, pid, rval, s.lastfile pid] }
  | .forked pid child =>
      { s with
        getppid := Function.update s.getppid child pid
        seen := Function.update s.seen pid false }
  | .execed pid time comm args warnings =>
      if s.seen pid then s else s.noteExec pid time comm args warnings
  | .warned warnings => { s with err := s.err ++ printLines warnings }

theorem note_seen_exec {s : Script} {pid time comm args : Bytes} {warnings : List Bytes}
    (h : s.seen pid = true) :
    s.note (.execed pid time comm args warnings) = s := if_pos h

theorem note_new_exec {s : Script} {pid time comm args : Bytes} {warnings : List Bytes}
    (h : s.seen pid = false) :
    s.note (.execed pid time comm args warnings) = s.noteExec pid time comm args warnings :=
  if_neg (by rw [h]; exact Bool.false_ne_true)

theorem note_when (s : Script) (p : Prop) [Decidable p] (e : Event) :
    (if p then [e] else []).foldl Script.note s = if p then s.note e else s := by
  split <;> rfl

/-- **A step is what is done about the events of its line.** -/
theorem step_events (s : Script) (line : Bytes) :
    s.step o kname line = (eventsOf o kname line).foldl Script.note s := by
  have hlast : ∀ x : Script, x.note (lastEventOf o kname line)
      = if isEntry line && (textPattern kname).occurs (field (4 + o) line) then
          if x.seen (pidOf line) then x else (x.printExec o line).warn line
        else x.warn line := by
    intro x
    unfold lastEventOf
    split <;> rfl
  unfold Script.step eventsOf
  rw [List.foldl_append, List.foldl_append, List.foldl_append, note_when, note_when, note_when]
  show _ = Script.note _ (lastEventOf o kname line)
  rw [hlast]
  cases hentry : isEntry line with
  | false => rfl
  | true =>
      simp only [Bool.true_and, beq_iff_eq]
      rfl

/-- What a trace tells. -/
def traceEvents (lines : List Bytes) : List Event := lines.flatMap (eventsOf o kname)

theorem run_events (lines : List Bytes) :
    Script.run o kname lines = (traceEvents o kname lines).foldl Script.note .initial := by
  unfold Script.run traceEvents
  rw [List.foldl_flatMap]
  congr 1
  funext s line
  exact step_events o kname s line

end Events

end DirSurveiller
