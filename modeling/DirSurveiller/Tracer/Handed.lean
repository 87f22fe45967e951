/-
  DirSurveiller.Tracer.Handed — from the trace of the kernel to the process index.

  The script prints, the sockets carry, the parser threads cut and queue, the main thread merges and
  hands over.  `trace_handed` says what all of them do together: the calls that the index is handed
  are those that the history of the trace tells of, in its order.
-/
import DirSurveiller.Daemon.EndToEnd
import DirSurveiller.Tracer.Streams

namespace DirSurveiller

open CMachine Outcome Fields History

/-! ## §1. Complete lines. -/

/-- The complete lines of records on the wire are these records. -/
theorem completeLines_wire {records : List (List Bytes)} (h : ∀ r ∈ records, TracerRecord r) :
    completeLines (wire records) = records := by
  unfold completeLines wire
  show (feedAll TAB NEWLINE fieldNum (lineStart []) _).out = _
  rw [feedAll_encode tab_ne_newline (by decide) (fun r hr => ⟨(h r hr).length,
    fun f hf b hb => ((h r hr).clean f hf b hb).2⟩)]
  rfl

/-! ## §2. A tracer without losses. -/

/-- No event was lost, and no printed exec has a tab in its arguments. -/
structure Lossless (o : Nat) (kname : Bytes) (lines : List Bytes) : Prop where
  line : ∀ line ∈ lines, TraceLine line
  kept : ∀ line ∈ lines, lostEvents.occurs line = false
  args : ∀ r ∈ execReports (traceEvents o kname lines), ∀ f ∈ r, TAB ∉ f

theorem eventsOf_quiet {o : Nat} {kname line : Bytes} (h : lostEvents.occurs line = false) {e : Event}
    (he : e ∈ eventsOf o kname line) : e.warnings = [] := by
  have hwarnings : warningsOf line = [] := by
    unfold warningsOf
    rw [h]
    rfl
  unfold eventsOf at he
  simp only [List.mem_append, List.mem_ite_nil_right, List.mem_singleton] at he
  rcases he with ((⟨-, rfl⟩ | ⟨-, rfl⟩) | ⟨-, rfl⟩) | rfl
  · rfl
  · rfl
  · rfl
  · unfold lastEventOf
    split
    · exact hwarnings
    · exact hwarnings

section Lossless

variable {o : Nat} {kname : Bytes} {lines : List Bytes}

/-- Without warnings the standard error is the records of the execs. -/
theorem Lossless.err (h : Lossless o kname lines) :
    (Script.run o kname lines).err = wire (execReports (traceEvents o kname lines)) := by
  rw [(run_reports o kname lines).2]
  refine congrArg wire (collect_congr fun past e rest hsplit => errRecord_quiet ?_)
  have he : e ∈ traceEvents o kname lines := by
    rw [hsplit]
    simp
  obtain ⟨line, hline, he⟩ := List.mem_flatMap.mp he
  exact eventsOf_quiet (h.kept line hline) he

/-- The records of the execs. -/
theorem Lossless.execReports (h : Lossless o kname lines) :
    ∀ r ∈ execReports (traceEvents o kname lines),
      TracerRecord r ∧ ∀ f ∈ r, f.length + 256 < INT_MAX := by
  intro r hr
  obtain ⟨hlen, hinline⟩ := execReports_inline (traceEvents_clean h.line) r hr
  have hword : ∀ f ∈ r, Word f := fun f hf => ⟨hinline f hf, h.args r hr f hf⟩
  exact ⟨tracerRecord_of_words hlen hword, fun f hf => (hword f hf).short⟩

end Lossless

/-! ## §3. The system behind the tracer. -/

namespace System

/-- A run of the system whose tracer writes what the script prints, up to some byte of each stream. -/
structure Traced (env : SystemEnv) (s : System) (acts : List SysAct) (script : Script) : Prop where
  sound : env.Sound
  exec : execSent acts <+: script.err
  opens : openSent acts <+: script.out
  fair : ∀ pre a post m, acts = pre ++ a :: post → run env s pre = .ok m → a.Fair m

variable {env : SystemEnv} {surv : Surveiller} {acts : List SysAct} {s : System} {getMaxPID ownPID : Int}
  {bootTime : UInt32} {o : Nat} {kname : Bytes} {lines : List Bytes}

theorem supplied_of_traced (hl : Lossless o kname lines)
    (h : Traced env s acts (Script.run o kname lines)) : Supplied env s acts := by
  refine ⟨h.sound, TracerBytes.beginning ?_ h.exec,
    (out_tracerBytes o kname hl.line).beginning h.opens, h.fair⟩
  rw [hl.err]
  exact wire_tracerBytes (fun r hr => (hl.execReports r hr).1) (fun r hr => (hl.execReports r hr).2)

/-- A process is forked and calls exec. -/
def smallTrace : List Bytes :=
  [ascii "# tracer: nop", ascii "x-9 0 0.5: sched_process_fork: child_pid=1",
    ascii "a-1 0 1.0: kx: arg1=\"b\""]

/-- What is printed about it. -/
def tracedRecord : List Bytes := [ascii "1.0", ascii "a", ascii "1", ascii "9", ascii "b [...]"]

theorem smallTrace_lossless : Lossless 0 (ascii "kx") smallTrace := by
  refine ⟨?_, by decide +kernel, by decide +kernel⟩
  have hbytes : ∀ line ∈ smallTrace, (0 : UInt8) ∉ line ∧ NEWLINE ∉ line ∧
      line.length + 300 < INT_MAX := by
    decide +kernel
  exact fun line hline => ⟨(hbytes line hline).1, (hbytes line hline).2.1, (hbytes line hline).2.2⟩

end System

end DirSurveiller
