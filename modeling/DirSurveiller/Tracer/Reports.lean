/-
  DirSurveiller.Tracer.Reports — what the script prints, read off the history of the trace.

  The script keeps three arrays and answers each line at once.  Here nothing is kept: what is printed
  about an event is looked up in the events before it.

    * `fileAt`, `seenAt`, `parentAt` — the last event that concerns a name, an exec or a parent,
    * `openReports`, `errRecords`    — the lines of the two streams,
    * `run_reports`                  — the script prints these lines, in order.
-/
import DirSurveiller.Lib.History
import DirSurveiller.Tracer.Script

namespace DirSurveiller

open CMachine Awk Fields History

/-! ## §1. Looking back. -/

/-- What an event does to `lastfile[pid]`. -/
def fileEvent (pid : Bytes) : Event → Option Bytes
  | .named p filename => if p = pid then some filename else none
  | .opened p _ _ _ => if p = pid then some [] else none
  | _ => none

/-- What an event does to `seen[pid]`. -/
def seenEvent (pid : Bytes) : Event → Option Bool
  | .execed p _ _ _ _ => if p = pid then some true else none
  | .forked p _ => if p = pid then some false else none
  | _ => none

/-- The name that the thread handed over last, unless it has opened it. -/
def fileAt (past : List Event) (pid : Bytes) : Bytes := (lastSome (fileEvent pid) past).getD []

/-- An exec of the process has been printed, and it has not forked since. -/
def seenAt (past : List Event) (pid : Bytes) : Bool := (lastSome (seenEvent pid) past).getD false

/-- The exec is printed. -/
def isPrinted (past : List Event) : Event → Bool
  | .execed pid _ _ _ _ => !seenAt past pid
  | _ => false

/-- The events with whether an exec was printed for them. -/
def printedEvents (es : List Event) : List (Event × Bool) :=
  collect (fun past e => [(e, isPrinted past e)]) es

/-- What an event does to `getppid[pid]`. -/
def parentEvent (pid : Bytes) : Event × Bool → Option Bytes
  | (.forked parent child, _) => if child = pid then some parent else none
  | (.execed p _ _ _ _, true) => if p = pid then some [] else none
  | _ => none

/-- The process that forked this one last, unless an exec has been printed since. -/
def parentAt (past : List Event) (pid : Bytes) : Bytes :=
  (lastSome (parentEvent pid) (printedEvents past)).getD []

/-- The record of an `open`. -/
def openReport (past : List Event) : Event → List (List Bytes)
  | .opened pid time comm rval => [[time, comm, pid, rval, fileAt past pid]]
  | _ => []

/-- The record of an exec. -/
def execReport (past : List Event) : Event → List (List Bytes)
  | .execed pid time comm args _ =>
      if seenAt past pid then [] else [[time, comm, pid, parentAt past pid, args]]
  | _ => []

/-- The lines on the standard error: a warning is a line of one field. -/
def errRecord (past : List Event) : Event → List (List Bytes)
  | .execed pid time comm args warnings =>
      if seenAt past pid then []
      else [time, comm, pid, parentAt past pid, args] :: warnings.map ([·])
  | .warned warnings => warnings.map ([·])
  | _ => []

def openReports (es : List Event) : List (List Bytes) := collect openReport es

def execReports (es : List Event) : List (List Bytes) := collect execReport es

def errRecords (es : List Event) : List (List Bytes) := collect errRecord es

/-! ## §2. The script looks nothing up, and prints the same. -/

/-- The arrays hold what looking back would find. -/
structure Recalls (s : Script) (es : List Event) : Prop where
  lastfile : s.lastfile = fileAt es
  seen : s.seen = seenAt es
  getppid : s.getppid = parentAt es
  out : s.out = wire (openReports es)
  err : s.err = wire (errRecords es)

theorem recalls_initial : Recalls .initial [] := ⟨rfl, rfl, rfl, rfl, rfl⟩

theorem wire_concat (records : List (List Bytes)) (more : List (List Bytes)) :
    wire (records ++ more) = wire records ++ wire more := by
  unfold wire
  rw [List.map_append, List.flatten_append]

theorem wire_singleton (record : List Bytes) : wire [record] = printf record := by
  unfold wire
  rw [List.map_singleton, List.flatten_singleton]
  rfl

theorem printLines_eq (lines : List Bytes) : printLines lines = wire (lines.map ([·])) := by
  unfold wire printLines
  rw [List.map_map]
  refine congrArg List.flatten (List.map_congr_left fun l _ => ?_)
  show _ = [TAB].intercalate [l] ++ [NEWLINE]
  rw [List.intercalate_singleton]

theorem parentAt_concat (es : List Event) (e : Event) (pid : Bytes) :
    parentAt (es ++ [e]) pid = (parentEvent pid (e, isPrinted es e)).getD (parentAt es pid) := by
  unfold parentAt printedEvents
  rw [collect_concat]
  exact lastSome_getD_concat _ _ _ _

theorem update_eq {β : Type} (f : Bytes → β) (key : Bytes) (v : β) :
    Function.update f key v = fun x => (if key = x then some v else none).getD (f x) := by
  funext x
  by_cases h : key = x
  · subst h
    rw [Function.update_self, if_pos rfl]
    rfl
  · rw [Function.update_of_ne (Ne.symm h), if_neg h]
    rfl

section Note

variable {s : Script} {es : List Event}

theorem note_lastfile (s : Script) (e : Event) :
    (s.note e).lastfile = fun pid => (fileEvent pid e).getD (s.lastfile pid) := by
  cases e with
  | named pid filename => exact update_eq _ _ _
  | opened pid time comm rval => exact update_eq _ _ _
  | execed pid time comm args warnings =>
      cases hseen : s.seen pid with
      | true => rw [note_seen_exec hseen]; rfl
      | false => rw [note_new_exec hseen]; rfl
  | forked pid child => rfl
  | warned warnings => rfl

theorem note_seen (s : Script) (e : Event) :
    (s.note e).seen = fun pid => (seenEvent pid e).getD (s.seen pid) := by
  cases e with
  | forked pid child => exact update_eq _ _ _
  | execed pid time comm args warnings =>
      have hset := update_eq s.seen pid true
      cases hseen : s.seen pid with
      | true =>
          -- what is set already stays set
          rw [note_seen_exec hseen]
          rw [← hseen, Function.update_eq_self, hseen] at hset
          exact hset
      | false =>
          rw [note_new_exec hseen]
          exact hset
  | named pid filename => rfl
  | opened pid time comm rval => rfl
  | warned warnings => rfl

theorem Recalls.note_getppid (h : Recalls s es) (e : Event) :
    (s.note e).getppid = fun pid => (parentEvent pid (e, isPrinted es e)).getD (s.getppid pid) := by
  cases e with
  | forked pid child => exact update_eq _ _ _
  | execed pid time comm args warnings =>
      show _ = fun x => (parentEvent x (_, !seenAt es pid)).getD _
      rw [← h.seen]
      cases hseen : s.seen pid with
      | true => rw [note_seen_exec hseen]; rfl
      | false =>
          rw [note_new_exec hseen]
          exact update_eq _ _ _
  | named pid filename => rfl
  | opened pid time comm rval => rfl
  | warned warnings => rfl

theorem Recalls.note_out (h : Recalls s es) (e : Event) :
    (s.note e).out = s.out ++ wire (openReport es e) := by
  cases e with
  | opened pid time comm rval =>
      show s.out ++ printf [time, comm, pid, rval, s.lastfile pid] = _
      rw [h.lastfile]
      show _ = s.out ++ wire [_]
      rw [wire_singleton]
  | execed pid time comm args warnings =>
      cases hseen : s.seen pid with
      | true => rw [note_seen_exec hseen]; exact (List.append_nil _).symm
      | false => rw [note_new_exec hseen]; exact (List.append_nil _).symm
  | named pid filename => exact (List.append_nil _).symm
  | forked pid child => exact (List.append_nil _).symm
  | warned warnings => exact (List.append_nil _).symm

theorem Recalls.note_err (h : Recalls s es) (e : Event) :
    (s.note e).err = s.err ++ wire (errRecord es e) := by
  cases e with
  | execed pid time comm args warnings =>
      show _ = _ ++ wire (if seenAt es pid then _ else _)
      rw [← h.seen, ← h.getppid]
      cases hseen : s.seen pid with
      | true => rw [note_seen_exec hseen]; exact (List.append_nil _).symm
      | false =>
          rw [note_new_exec hseen]
          show (s.err ++ printf _) ++ printLines warnings = s.err ++ wire ([_] ++ warnings.map ([·]))
          rw [wire_concat, wire_singleton, ← printLines_eq, List.append_assoc]
  | warned warnings =>
      show s.err ++ printLines warnings = _
      rw [printLines_eq]
      rfl
  | named pid filename => exact (List.append_nil _).symm
  | opened pid time comm rval => exact (List.append_nil _).symm
  | forked pid child => exact (List.append_nil _).symm

theorem Recalls.note (h : Recalls s es) (e : Event) : Recalls (s.note e) (es ++ [e]) := by
  refine ⟨?_, ?_, ?_, ?_, ?_⟩
  · rw [note_lastfile, h.lastfile]
    funext pid
    exact (lastSome_getD_concat _ _ _ _).symm
  · rw [note_seen, h.seen]
    funext pid
    exact (lastSome_getD_concat _ _ _ _).symm
  · rw [h.note_getppid, h.getppid]
    funext pid
    exact (parentAt_concat es e pid).symm
  · rw [openReports, collect_concat, wire_concat, ← openReports, ← h.out]
    exact h.note_out e
  · rw [errRecords, collect_concat, wire_concat, ← errRecords, ← h.err]
    exact h.note_err e

theorem recalls_run (es : List Event) : Recalls (es.foldl Script.note .initial) es := by
  induction es using List.reverseRecOn with
  | nil => exact recalls_initial
  | append_singleton es e ih =>
      rw [List.foldl_append]
      exact ih.note e

end Note

/-- A record of an exec. -/
theorem mem_execReport {past : List Event} {e : Event} {r : List Bytes} (h : r ∈ execReport past e) :
    ∃ pid time comm args warnings, e = .execed pid time comm args warnings ∧ seenAt past pid = false
      ∧ r = [time, comm, pid, parentAt past pid, args] := by
  cases e with
  | execed pid time comm args warnings =>
      rw [execReport] at h
      split at h
      · cases h
      · next hseen =>
          exact ⟨pid, time, comm, args, warnings, rfl, Bool.eq_false_of_not_eq_true hseen,
            List.mem_singleton.mp h⟩
  | named | opened | forked | warned => cases h

/-- The warnings of an event. -/
def Event.warnings : Event → List Bytes
  | .execed _ _ _ _ warnings | .warned warnings => warnings
  | _ => []

theorem mem_errRecord {past : List Event} {e : Event} {r : List Bytes} (h : r ∈ errRecord past e) :
    r ∈ execReport past e ∨ ∃ w ∈ e.warnings, r = [w] := by
  have hwarnings : ∀ {warnings : List Bytes}, r ∈ warnings.map ([·]) → ∃ w ∈ warnings, r = [w] := by
    intro warnings hr
    obtain ⟨w, hw, rfl⟩ := List.mem_map.mp hr
    exact ⟨w, hw, rfl⟩
  cases e with
  | execed pid time comm args warnings =>
      rw [errRecord] at h
      rw [execReport]
      split at h
      · cases h
      · next hseen =>
          rw [if_neg hseen]
          exact (List.mem_cons.mp h).imp List.mem_singleton.mpr hwarnings
  | warned warnings => exact .inr (hwarnings h)
  | named | opened | forked => cases h

theorem errRecord_quiet {past : List Event} {e : Event} (h : e.warnings = []) :
    errRecord past e = execReport past e := by
  cases e with
  | execed pid time comm args warnings =>
      obtain rfl : warnings = [] := h
      rfl
  | warned warnings =>
      obtain rfl : warnings = [] := h
      rfl
  | named | opened | forked => rfl

/-- **The script prints what the history of the trace says**, each record at its place: for an `open`
the name the thread handed over last, for an exec, unless an exec of the process has been printed
since it last forked, the parent that forked it since. -/
theorem run_reports (o : Nat) (kname : Bytes) (lines : List Bytes) :
    (Script.run o kname lines).out = wire (openReports (traceEvents o kname lines))
      ∧ (Script.run o kname lines).err = wire (errRecords (traceEvents o kname lines)) := by
  rw [run_events]
  have h := recalls_run (traceEvents o kname lines)
  exact ⟨h.out, h.err⟩

end DirSurveiller
