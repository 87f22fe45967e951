/-
  DirSurveiller.Daemon.EndToEnd — runs of the whole system, from the lines that are sent to the calls
  that the index is handed.

  The runs are `Supplied`: the tracer sends lines of five fields, no `recv` fails, the parsers are
  granted their memory, and what `realloc` adds does not look like the end of a field.  An operation
  on a ring is one act, as in `Daemon.Pipeline`.

  Main results:
    * `system_faults`  — only the main thread can stop a run, and not with a destroyed object,
    * `system_refines` — a run of the system is a run of the daemon in which the parsers keep to their
                         order,
    * `lines_handed`   — the index is handed the calls of the complete lines, in order,
    * `system_exit`    — what has been handed over when the main thread leaves its loop.
-/
import DirSurveiller.Daemon.Pipeline

namespace DirSurveiller

open CMachine Outcome

/-! ## §1. Of the exit test, and of lists. -/

/-- Parsers that had started before the test have exited when it has succeeded. -/
theorem ExitTest.stopped {d d' : Daemon} {dacts : List Act} (hexit : ExitTest d dacts d')
    (h : d.Invariant) (hdisc : EachStep Daemon.act d dacts fun m a _ => a.Disciplined m)
    (hopen : d.surv.processingOpencallSocket ≠ .notStarted)
    (hexec : d.surv.processingExeccallSocket ≠ .notStarted) : Stopped d' := by
  have hbegin : Stopped d := by
    refine ⟨fun _ => ⟨hopen, hexec⟩, fun h3 => ?_, fun h4 => ?_⟩
    · rw [hexit.begins] at h3
      exact absurd h3 (by decide)
    · rw [hexit.begins] at h4
      exact absurd h4 (by decide)
  have hboth : EachStep Daemon.act d dacts fun m a m' => m'.pc ≠ .testShutting ∧ a.Disciplined m :=
    fun pre a post m m' hsplit hpre hact =>
      ⟨hexit.once pre a post m m' hsplit hpre hact, hdisc pre a post m m' hsplit hpre hact⟩
  exact (EachStep.invariant (P := fun m => m.Invariant ∧ Stopped m)
    (fun m a m' hm hc hact => ⟨hm.1.act_ok hact, hm.2.act hm.1 hact hc.1 hc.2⟩) hboth ⟨h, hbegin⟩
    hexit.run).2

/-- What is true of two lists is true of the beginning of one and as much of the other. -/
theorem forall₂_beginning {α β : Type} {R : α → β → Prop} {as pre : List α} {bs : List β}
    (h : List.Forall₂ R as bs) (hpre : pre <+: as) : List.Forall₂ R pre (bs.take pre.length) := by
  obtain ⟨rest, rfl⟩ := hpre
  have htake := List.forall₂_take pre.length h
  rwa [List.take_left] at htake

/-! ## §2. What has been sent. -/

/-- The socket carries the beginning of `bytes`: all of it as long as it is open. -/
structure Socket.Carries (k : Socket) (bytes : Bytes) : Prop where
  sent : k.sent <+: bytes
  all : k.closed = false → k.sent = bytes

section Carries

variable {k : Socket} {bytes more : Bytes}

theorem Socket.Carries.send (h : k.Carries bytes) : (k.send more).Carries (bytes ++ more) := by
  unfold Socket.send
  cases hclosed : k.closed with
  | true => exact ⟨h.sent.trans (List.prefix_append _ _),
      fun hopen => absurd (hclosed.symm.trans hopen) (by decide)⟩
  | false =>
      have hall : k.sent ++ more = bytes ++ more := by rw [h.all hclosed]
      exact ⟨hall ▸ List.prefix_rfl, fun _ => hall⟩

theorem Socket.Carries.close (h : k.Carries bytes) : k.close.Carries bytes :=
  ⟨h.sent, fun hopen => by cases hopen⟩

end Carries

namespace System

/-- What the tracer writes for the execCall thread. -/
def execSent (acts : List SysAct) : Bytes := acts.flatMap SysAct.execBytes

/-- What the tracer writes for the openCall thread. -/
def openSent (acts : List SysAct) : Bytes := acts.flatMap SysAct.openBytes

section Step

variable {env : SystemEnv} {s s' : System} {a : SysAct} {bytes : Bytes}

theorem step_exec_sockets {sys : SysAnswer} (h : s.step env (.exec sys) = .ok s') :
    ∃ n, s'.execSocket = s.execSocket.take n ∧ s'.openSocket = s.openSocket := by
  obtain ⟨⟨t, effect⟩, -, h⟩ := bind_ok h
  obtain rfl := Except.ok.inj h
  exact ⟨_, rfl, rfl⟩

theorem step_opens_sockets {sys : SysAnswer} (h : s.step env (.opens sys) = .ok s') :
    ∃ n, s'.openSocket = s.openSocket.take n ∧ s'.execSocket = s.execSocket := by
  obtain ⟨⟨t, effect⟩, -, h⟩ := bind_ok h
  obtain rfl := Except.ok.inj h
  exact ⟨_, rfl, rfl⟩

theorem step_main_sockets {menv : MainEnv} (h : s.step env (.main menv) = .ok s') :
    s'.execSocket = s.execSocket ∧ s'.openSocket = s.openSocket := by
  obtain ⟨daemon, -, h⟩ := bind_ok h
  obtain rfl := Except.ok.inj h
  exact ⟨rfl, rfl⟩

/-- An act adds to what a socket carries what the tracer writes to it. -/
theorem step_carries_exec (h : s.execSocket.Carries bytes) (hstep : s.step env a = .ok s') :
    s'.execSocket.Carries (bytes ++ a.execBytes) := by
  cases a with
  | main menv =>
      rw [(step_main_sockets hstep).1, show (SysAct.main menv).execBytes = [] from rfl, List.append_nil]
      exact h
  | exec sys =>
      obtain ⟨n, hexec, -⟩ := step_exec_sockets hstep
      rw [hexec, show (SysAct.exec sys).execBytes = [] from rfl, List.append_nil]
      exact ⟨h.sent, h.all⟩
  | opens sys =>
      obtain ⟨n, -, hexec⟩ := step_opens_sockets hstep
      rw [hexec, show (SysAct.opens sys).execBytes = [] from rfl, List.append_nil]
      exact h
  | sendExec more =>
      obtain rfl := Except.ok.inj hstep
      exact h.send
  | closeExec =>
      obtain rfl := Except.ok.inj hstep
      exact (List.append_nil bytes).symm ▸ h.close
  | sendOpen | closeOpen | shutDown | closeKillpipe =>
      obtain rfl := Except.ok.inj hstep
      exact (List.append_nil bytes).symm ▸ h

theorem step_carries_open (h : s.openSocket.Carries bytes) (hstep : s.step env a = .ok s') :
    s'.openSocket.Carries (bytes ++ a.openBytes) := by
  cases a with
  | main menv =>
      rw [(step_main_sockets hstep).2, show (SysAct.main menv).openBytes = [] from rfl, List.append_nil]
      exact h
  | opens sys =>
      obtain ⟨n, hopen, -⟩ := step_opens_sockets hstep
      rw [hopen, show (SysAct.opens sys).openBytes = [] from rfl, List.append_nil]
      exact ⟨h.sent, h.all⟩
  | exec sys =>
      obtain ⟨n, -, hopen⟩ := step_exec_sockets hstep
      rw [hopen, show (SysAct.exec sys).openBytes = [] from rfl, List.append_nil]
      exact h
  | sendOpen more =>
      obtain rfl := Except.ok.inj hstep
      exact h.send
  | closeOpen =>
      obtain rfl := Except.ok.inj hstep
      exact (List.append_nil bytes).symm ▸ h.close
  | sendExec | closeExec | shutDown | closeKillpipe =>
      obtain rfl := Except.ok.inj hstep
      exact (List.append_nil bytes).symm ▸ h

end Step

/-! ## §3. Runs. -/

/-- What the run of `acts` is promised: the tracer sends streams of lines, and no `recv` fails. -/
structure Supplied (env : SystemEnv) (s : System) (acts : List SysAct) : Prop where
  sound : env.Sound
  exec : TracerBytes (execSent acts)
  opens : TracerBytes (openSent acts)
  fair : ∀ pre a post m, acts = pre ++ a :: post → run env s pre = .ok m → a.Fair m

/-- What such a run has come to. -/
structure Reached (env : SystemEnv) (acts : List SysAct) (s : System) : Prop where
  sound : Sound env s
  exec : s.execSocket.Carries (execSent acts)
  opens : s.openSocket.Carries (openSent acts)

section Run

variable {env : SystemEnv} {surv : Surveiller} {acts : List SysAct} {s s' : System} {f : Fault}

theorem Supplied.beginning {before after : List SysAct} (h : Supplied env s (before ++ after)) :
    Supplied env s before := by
  refine ⟨h.sound, h.exec.beginning ?_, h.opens.beginning ?_, fun pre a post m hsplit => ?_⟩
  · unfold execSent
    rw [List.flatMap_append]
    exact List.prefix_append _ _
  · unfold openSent
    rw [List.flatMap_append]
    exact List.prefix_append _ _
  · refine h.fair pre a (post ++ after) m ?_
    rw [hsplit, List.append_assoc]
    rfl

theorem Supplied.each (h : Supplied env s acts) :
    EachStep (System.step env) s acts fun m a _ => a.Fair m :=
  fun pre a post m _ hsplit hpre _ => h.fair pre a post m hsplit hpre

/-- What the sockets of a reached state carry are streams of lines. -/
theorem Reached.orderly (h : Reached env acts s) (hexec : TracerBytes (execSent acts))
    (hopens : TracerBytes (openSent acts)) : s.Orderly :=
  ⟨hexec.beginning h.exec.sent, hopens.beginning h.opens.sent⟩

theorem survInit_started {getMaxPID ownPID : Int} {bootTime : UInt32}
    (h0 : survInit getMaxPID ownPID bootTime = .ok (some surv)) :
    surv.processingExeccallSocket = .notStarted ∧ surv.processingOpencallSocket = .notStarted := by
  unfold survInit at h0
  obtain ⟨⟨ret, procs⟩, -, h0⟩ := bind_ok h0
  dsimp only at h0
  split at h0
  · obtain rfl := Option.some.inj (Except.ok.inj h0)
    exact ⟨rfl, rfl⟩
  · cases h0

theorem initial_sound {getMaxPID ownPID : Int} {bootTime : UInt32}
    (h0 : survInit getMaxPID ownPID bootTime = .ok (some surv)) : Sound env (.initial surv) :=
  ⟨Daemon.initial_invariant h0, Connected.initial, Connected.initial, (survInit_started h0).1,
    (survInit_started h0).2, .nil, .nil⟩

variable {getMaxPID ownPID : Int} {bootTime : UInt32}

theorem run_reached (h0 : survInit getMaxPID ownPID bootTime = .ok (some surv))
    (h : Supplied env (.initial surv) acts) :
    Meets (Tolerated True) (run env (.initial surv) acts) (Reached env acts) := by
  refine Meets.run (P := fun acts s => Reached env acts s) ?_ fun pre a post m hsplit hpre hm => ?_
  · exact ⟨initial_sound h0, ⟨List.prefix_rfl, fun _ => rfl⟩, ⟨List.prefix_rfl, fun _ => rfl⟩⟩
  · subst hsplit
    have hmeets := hm.sound.step h.sound (hm.orderly h.beginning.exec h.beginning.opens)
      (h.fair pre a post m rfl hpre)
    refine hmeets.of_ok fun m' hstep => ⟨(hmeets.post hstep).1, ?_, ?_⟩
    · unfold execSent
      rw [List.flatMap_append, List.flatMap_singleton]
      exact step_carries_exec hm.exec hstep
    · unfold openSent
      rw [List.flatMap_append, List.flatMap_singleton]
      exact step_carries_open hm.opens hstep

/-- An act that is reached in such a run. -/
theorem step_moves (h0 : survInit getMaxPID ownPID bootTime = .ok (some surv)) {a : SysAct}
    (h : Supplied env (.initial surv) (acts ++ [a])) (hrun : run env (.initial surv) acts = .ok s)
    (hstep : s.step env a = .ok s') : s.daemon.Moves s'.daemon := by
  have hreached := (run_reached h0 h.beginning).post hrun
  have hmeets := hreached.sound.step h.sound (hreached.orderly h.beginning.exec h.beginning.opens)
    (h.fair acts a [] s rfl hrun)
  exact (hmeets.post hstep).2

/-- Where all states that are passed lie in `Q`, the daemon gets there by acts that are in order and
lead to states in `Q`. -/
theorem run_leads (h0 : survInit getMaxPID ownPID bootTime = .ok (some surv)) {Q : Daemon → Prop}
    {before : List SysAct} {m : System} (hbefore : run env (.initial surv) before = .ok m) :
    ∀ {after : List SysAct} {s : System}, Supplied env (.initial surv) (before ++ after) →
      EachStep (System.step env) m after (fun _ _ x => Q x.daemon) → run env m after = .ok s →
      Daemon.Leads Q m.daemon s.daemon := by
  intro after
  induction after using List.reverseRecOn with
  | nil =>
      intro s _ _ hrun
      obtain rfl := run_nil.mp hrun
      exact .refl Q _
  | append_singleton after a ih =>
      intro s h hQ hrun
      obtain ⟨x, hx, hstep⟩ := run_concat.mp hrun
      rw [← List.append_assoc] at h
      refine (ih h.beginning hQ.take hx).moves
        (step_moves h0 h (run_append.mpr ⟨m, hbefore, hx⟩) hstep) ?_
      exact hQ after a [] x s rfl hx hstep

/-- An execCall thread, an openCall thread and the memory of a fresh process. -/
def plainSystem : SystemEnv :=
  { execMem := .zeroing, openMem := .zeroing, execEnv := .granting, openEnv := .granting
    fresh := fun _ => ExecCall.zero, stat := fun _ _ => none, filter := fun _ _ => true }

theorem plainSystem_sound : plainSystem.Sound :=
  ⟨zeroing_total, zeroing_total, zeroing_fills, zeroing_fills, ⟨fun _ _ => rfl, fun _ => rfl⟩,
    ⟨fun _ _ => rfl, fun _ => rfl⟩⟩

/-- Both threads start, a record is sent to the first one, which reads it and waits for more. -/
def oneRecord (record : List Bytes) (n : Nat) : List SysAct :=
  List.replicate 2 (.exec ⟨false, 256⟩) ++ List.replicate 2 (.opens ⟨false, 256⟩)
    ++ [.sendExec (wire [record])] ++ List.replicate n (.exec ⟨false, 256⟩)

/-- ... the tracer ends, the threads exit, and the main thread takes the call over. -/
def oneRecordServed (record : List Bytes) (n : Nat) : List SysAct :=
  oneRecord record n ++ [.closeExec, .closeOpen] ++ List.replicate 4 (.exec ⟨false, 256⟩)
    ++ List.replicate 5 (.opens ⟨false, 256⟩) ++ List.replicate 4 (.main .granting)

/-- ... and leaves its loop. -/
def oneRecordShutDown (record : List Bytes) (n : Nat) : List SysAct :=
  oneRecordServed record n ++ [.shutDown] ++ List.replicate 5 (.main .granting)

/-- The struct with four slots for pids up to 10. -/
def smallSurv : Surveiller := .initial ⟨List.replicate 4 .null, 4, 10⟩ 0

theorem smallSurv_init : survInit 10 1 0 = .ok (some smallSurv) := by rfl

/-- No call that a thread makes fails. -/
def Answered : SysAct → Bool
  | .exec sys => !sys.fails
  | .opens sys => !sys.fails
  | _ => true

theorem oneRecord_supplied {s : System} {acts : List SysAct} (record : List Bytes)
    (hrecord : TracerRecord record) (hshort : ∀ f ∈ record, f.length + 256 < INT_MAX)
    (hexec : execSent acts = wire [record]) (hopen : openSent acts = [])
    (hanswered : acts.all Answered) :
    Supplied plainSystem s acts := by
  refine ⟨plainSystem_sound, ?_, ?_, ?_⟩
  · rw [hexec]
    exact wire_tracerBytes (fun r hr => by rwa [List.mem_singleton.mp hr])
      (fun r hr => by rwa [List.mem_singleton.mp hr])
  · rw [hopen]
    have hnone : ∀ r ∈ ([] : List (List Bytes)), TracerRecord r := fun r hr => by cases hr
    exact wire_tracerBytes hnone (fun r hr => by cases hr)
  · rintro pre a post m rfl -
    have ha := List.all_eq_true.mp hanswered a (by simp)
    cases a with
    | exec sys | opens sys =>
        intro _
        simpa [Answered] using ha
    | main | sendExec | sendOpen | closeExec | closeOpen | shutDown | closeKillpipe => trivial

/-- `1.0`, `a`, `1`, `9`, `b` -/
def smallRecord : List Bytes := [[49, 46, 48], [97], [49], [57], [98]]

/-- `1.0`, `a`, `7`, `9`, `b`: the pid is behind the table even after it has grown. -/
def strayRecord : List Bytes := [[49, 46, 48], [97], [55], [57], [98]]

theorem smallRecord_supplied {s : System} {acts : List SysAct}
    (hexec : execSent acts = wire [smallRecord])
    (hopen : openSent acts = []) (hanswered : acts.all Answered) : Supplied plainSystem s acts :=
  oneRecord_supplied smallRecord ⟨rfl, by decide +kernel⟩ (by decide +kernel) hexec hopen hanswered

/-! ## §4. Faults, and the daemon of the system. -/

/-- **Only the main thread stops a run**, and never with an object that has been destroyed. -/
theorem system_faults (h0 : survInit getMaxPID ownPID bootTime = .ok (some surv))
    (h : Supplied env (.initial surv) acts) (hfault : run env (.initial surv) acts = .error f) :
    f ≠ .useAfterFree ∧ ∃ pre menv post m, acts = pre ++ .main menv :: post
      ∧ run env (.initial surv) pre = .ok m ∧ m.daemon.mainStep menv = .error f := by
  constructor
  · rintro rfl
    exact (run_reached h0 h).fault hfault
  · obtain ⟨pre, a, post, m, hsplit, hpre, hstep⟩ := run_fault_iff.mp hfault
    subst hsplit
    have hm := (run_reached h0 h.beginning).post hpre
    have horderly := hm.orderly h.beginning.exec h.beginning.opens
    have hfair := h.fair pre a post m rfl hpre
    cases a with
    | main menv =>
        refine ⟨pre, menv, post, m, rfl, hpre, ?_⟩
        rcases bind_eq_error.mp hstep with herror | ⟨daemon, -, hok⟩
        · exact herror
        · cases hok
    | exec sys => exact absurd ((hm.sound.step_exec h.sound horderly.exec hfair).fault hstep) id
    | opens sys => exact absurd ((hm.sound.step_opens h.sound horderly.opens hfair).fault hstep) id
    | sendExec | sendOpen | closeExec | closeOpen | shutDown | closeKillpipe => cases hstep

/-- A pid that is behind the table even after it has grown. -/
theorem system_faults_stray :
    run plainSystem (.initial smallSurv) (oneRecordServed strayRecord 17) = .error .outOfRange
    ∧ Fault.outOfRange ≠ .useAfterFree
    ∧ ∃ pre menv post m, oneRecordServed strayRecord 17 = pre ++ .main menv :: post
      ∧ run plainSystem (.initial smallSurv) pre = .ok m
      ∧ m.daemon.mainStep menv = .error .outOfRange := by
  have hfault : (run plainSystem (.initial smallSurv) (oneRecordServed strayRecord 17)).map (fun _ => ())
      = .error .outOfRange := by decide +kernel
  exact ⟨map_error hfault, system_faults smallSurv_init (oneRecord_supplied strayRecord
    ⟨rfl, by decide +kernel⟩ (by decide +kernel) (by rfl) (by rfl) (by rfl)) (map_error hfault)⟩

/-- **The system refines the daemon**: whatever the threads, the tracer and the main thread do, the
daemon goes through one of the runs of the event loop, in which each parser writes only while its flag is
set and does not set it again. -/
theorem system_refines (h0 : survInit getMaxPID ownPID bootTime = .ok (some surv))
    (h : Supplied env (.initial surv) acts) (hrun : run env (.initial surv) acts = .ok s) :
    ∃ dacts, (Daemon.initial surv).run dacts = .ok s.daemon
      ∧ EachStep Daemon.act (Daemon.initial surv) dacts fun m a _ => a.Disciplined m := by
  obtain ⟨dacts, hdacts, hall⟩ := run_leads h0 (Q := fun _ => True)
    (show run env (.initial surv) [] = .ok (.initial surv) from rfl) h
    (fun _ _ _ _ _ _ _ _ => trivial) hrun
  exact ⟨dacts, hdacts, fun pre a post m m' hsplit hpre hact =>
    (hall pre a post m m' hsplit hpre hact).1⟩

theorem system_refines_sample : ∃ s,
    run plainSystem (.initial smallSurv) (oneRecordServed smallRecord 17) = .ok s
    ∧ s.daemon.handedExecs = [0]
    ∧ ∃ dacts, (Daemon.initial smallSurv).run dacts = .ok s.daemon
      ∧ EachStep Daemon.act (Daemon.initial smallSurv) dacts fun m a _ => a.Disciplined m := by
  have hmap : (run plainSystem (.initial smallSurv) (oneRecordServed smallRecord 17)).map
      (fun s => s.daemon.handedExecs) = .ok [0] := by decide +kernel
  obtain ⟨s, hrun, hhanded⟩ := map_ok hmap
  exact ⟨s, hrun, hhanded,
    system_refines smallSurv_init (smallRecord_supplied (by rfl) (by rfl) (by rfl)) hrun⟩

/-! ## §5. From the lines to the index. -/

/-- The calls that the execCall thread has written are the first ones of the lines it was sent. -/
theorem Reached.execs_written (h : Reached env acts s) (hs : Supplied env (.initial surv) acts) :
    s.exec.parser.queued <+: execsOf (completeLines s.execSocket.sent)
      ∧ (s.exec.pc = .head ∨ s.exec.pc = .select ∨ s.exec.pc = .recv → s.execSocket.pending = [] →
        s.exec.parser.queued = execsOf (completeLines s.execSocket.sent)) := by
  have hreceived := h.sound.execReceived
  obtain ⟨hpre, hall⟩ := h.sound.exec.written hs.sound.execMem
    (execHandler_delivers hs.sound.execEnv env.fresh) hs.sound.execFills execFieldSizes_sound
    ((hs.exec.beginning h.exec.sent).beginning hreceived)
  refine ⟨hpre.trans (delivered_mono _ (completeLines_mono hreceived)), fun hpc hpending => ?_⟩
  have hconserved := h.sound.exec.conserved
  rw [hpending, List.append_nil] at hconserved
  rw [hall hpc, hconserved]
  rfl

theorem Reached.opens_written (h : Reached env acts s) (hs : Supplied env (.initial surv) acts) :
    s.opens.parser.queued <+: opensOf env (completeLines s.openSocket.sent)
      ∧ (s.opens.pc = .head ∨ s.opens.pc = .select ∨ s.opens.pc = .recv → s.openSocket.pending = [] →
        s.opens.parser.queued = opensOf env (completeLines s.openSocket.sent)) := by
  have hreceived := h.sound.openReceived
  obtain ⟨hpre, hall⟩ := h.sound.opens.written hs.sound.openMem
    (openHandler_delivers hs.sound.openEnv env.stat env.filter) hs.sound.openFills openFieldSizes_sound
    ((hs.opens.beginning h.opens.sent).beginning hreceived)
  refine ⟨hpre.trans (delivered_mono _ (completeLines_mono hreceived)), fun hpc hpending => ?_⟩
  have hconserved := h.sound.opens.conserved
  rw [hpending, List.append_nil] at hconserved
  rw [hall hpc, hconserved]
  rfl

/-- What the index has been handed comes from the first lines that were sent. -/
theorem Reached.execs_handed (hm : Reached env acts s) (h : Supplied env (.initial surv) acts) :
    ∃ execs, execs <+: execsOf (completeLines (execSent acts))
      ∧ List.Forall₂ s.daemon.BornAs s.daemon.handedExecs execs := by
  refine ⟨s.exec.parser.queued.take s.daemon.handedExecs.length, ?_, ?_⟩
  · refine (List.take_prefix _ _).trans ((hm.execs_written h).1.trans ?_)
    exact delivered_mono _ (completeLines_mono hm.exec.sent)
  · exact forall₂_beginning hm.sound.born
      ((List.prefix_append _ _).trans hm.sound.daemon.pending.execFlow.handed)

theorem Reached.opens_handed (hm : Reached env acts s) (h : Supplied env (.initial surv) acts) :
    ∃ opens, opens <+: opensOf env (completeLines (openSent acts))
      ∧ List.Forall₂ s.daemon.LivesAs s.daemon.handedOpens opens := by
  refine ⟨s.opens.parser.queued.take s.daemon.handedOpens.length, ?_, ?_⟩
  · refine (List.take_prefix _ _).trans ((hm.opens_written h).1.trans ?_)
    exact delivered_mono _ (completeLines_mono hm.opens.sent)
  · exact forall₂_beginning hm.sound.lives
      ((List.prefix_append _ _).trans hm.sound.daemon.pending.openFlow.handed)

/-- **The index is handed the calls of the lines**, in the order of the lines: the first ones of them,
none left out and none twice. -/
theorem lines_handed (h0 : survInit getMaxPID ownPID bootTime = .ok (some surv))
    (h : Supplied env (.initial surv) acts) (hrun : run env (.initial surv) acts = .ok s) :
    ∃ execs opens, execs <+: execsOf (completeLines (execSent acts))
      ∧ opens <+: opensOf env (completeLines (openSent acts))
      ∧ List.Forall₂ s.daemon.BornAs s.daemon.handedExecs execs
      ∧ List.Forall₂ s.daemon.LivesAs s.daemon.handedOpens opens := by
  have hm := (run_reached h0 h).post hrun
  obtain ⟨execs, hexecs, hborn⟩ := hm.execs_handed h
  obtain ⟨opens, hopens, hlives⟩ := hm.opens_handed h
  exact ⟨execs, opens, hexecs, hopens, hborn, hlives⟩

theorem lines_handed_sample : ∃ s,
    run plainSystem (.initial smallSurv) (oneRecordServed smallRecord 17) = .ok s
    ∧ s.daemon.handedExecs = [0]
    ∧ ∃ execs opens, execs <+: execsOf (completeLines (execSent (oneRecordServed smallRecord 17)))
      ∧ opens <+: opensOf plainSystem (completeLines (openSent (oneRecordServed smallRecord 17)))
      ∧ List.Forall₂ s.daemon.BornAs s.daemon.handedExecs execs
      ∧ List.Forall₂ s.daemon.LivesAs s.daemon.handedOpens opens := by
  have hmap : (run plainSystem (.initial smallSurv) (oneRecordServed smallRecord 17)).map
      (fun s => s.daemon.handedExecs) = .ok [0] := by decide +kernel
  obtain ⟨s, hrun, hhanded⟩ := map_ok hmap
  exact ⟨s, hrun, hhanded,
    lines_handed smallSurv_init (smallRecord_supplied (by rfl) (by rfl) (by rfl)) hrun⟩

/-- A run into the exit test has begun it. -/
theorem exit_begins (h0 : survInit getMaxPID ownPID bootTime = .ok (some surv)) :
    ∀ {s : System}, Supplied env (.initial surv) acts → run env (.initial surv) acts = .ok s →
      1 ≤ s.daemon.pc.exitStage →
      ∃ before after m, acts = before ++ after ∧ run env (.initial surv) before = .ok m
        ∧ m.daemon.pc = .testShutting ∧ run env m after = .ok s
        ∧ EachStep (System.step env) m after fun _ _ x => x.daemon.pc ≠ .testShutting := by
  induction acts using List.reverseRecOn with
  | nil =>
      intro s _ hrun hstage
      obtain rfl := run_nil.mp hrun
      exact absurd hstage (by show ¬ 1 ≤ 0; omega)
  | append_singleton acts a ih =>
      intro s h hrun hstage
      obtain ⟨x, hx, hstep⟩ := run_concat.mp hrun
      by_cases hpc : s.daemon.pc = .testShutting
      · refine ⟨acts ++ [a], [], s, (List.append_nil _).symm, hrun, hpc, run_nil.mpr rfl, ?_⟩
        intro pre b post y y' hnil
        exact absurd hnil.symm (List.append_ne_nil_of_right_ne_nil _ (List.cons_ne_nil _ _))
      · have hinv := ((run_reached h0 h.beginning).post hx).sound.daemon
        have hstage' : 1 ≤ x.daemon.pc.exitStage := by
          rcases step_moves h0 h hx hstep with hsame | ⟨b, hb, -⟩
          · rw [← hsame]
            exact hstage
          · rcases Daemon.act_cases hinv hb hpc with htest | hzero | haside
            · exact htest.first
            · omega
            · rw [← haside.beside.pc]
              exact hstage
        obtain ⟨before, after, m, hsplit, hbefore, hm, hafter, honce⟩ := ih h.beginning hx hstage'
        exact ⟨before, after ++ [a], m, by rw [hsplit, List.append_assoc], hbefore, hm,
          run_concat.mpr ⟨x, hafter, hstep⟩, honce.concat hafter hstep hpc⟩

/-- **When the main thread leaves its loop**: if both parsers had started when the last exit test began,
they have exited, and the index has been handed all that they have written iff no merge was going on. -/
theorem system_exit (h0 : survInit getMaxPID ownPID bootTime = .ok (some surv))
    (h : Supplied env (.initial surv) acts) (hrun : run env (.initial surv) acts = .ok s)
    (hflush : s.daemon.pc = .flush) :
    ∃ before after m, acts = before ++ after ∧ run env (.initial surv) before = .ok m
      ∧ m.daemon.pc = .testShutting ∧ run env m after = .ok s
      ∧ EachStep (System.step env) m after (fun _ _ x => x.daemon.pc ≠ .testShutting)
      ∧ (m.exec.pc ≠ .start → m.opens.pc ≠ .start →
        (s.daemon.HandedAll ↔ m.daemon.compMode = false) ∧ s.exec.pc = .exited ∧ s.opens.pc = .exited
          ∧ (m.daemon.compMode = false →
            List.Forall₂ s.daemon.BornAs s.daemon.handedExecs s.exec.parser.queued
              ∧ List.Forall₂ s.daemon.LivesAs s.daemon.handedOpens s.opens.parser.queued)) := by
  obtain ⟨before, after, m, rfl, hbefore, hpc, hafter, honce⟩ :=
    exit_begins h0 h hrun (by rw [hflush]; decide)
  refine ⟨before, after, m, rfl, hbefore, hpc, hafter, honce, fun hexec hopen => ?_⟩
  have hm := (run_reached h0 h.beginning).post hbefore
  have hs := (run_reached h0 h).post hrun
  have hstarted : ∀ {pc : ThreadPc}, pc ≠ .start → pc.phase ≠ .notStarted := by
    intro pc hpc
    cases pc with
    | start => exact absurd rfl hpc
    | connect | head | select | recv | scan | cleanup | exited => intro hphase; cases hphase
  have hexited : ∀ {pc : ThreadPc}, pc.phase = .exited → pc = .exited := by
    intro pc hphase
    cases pc with
    | exited => rfl
    | start | connect | head | select | recv | scan | cleanup => cases hphase
  have hopen' : m.daemon.surv.processingOpencallSocket ≠ .notStarted := by
    rw [hm.sound.openPhase]
    exact hstarted hopen
  have hexec' : m.daemon.surv.processingExeccallSocket ≠ .notStarted := by
    rw [hm.sound.execPhase]
    exact hstarted hexec
  -- the exit test of the daemon
  obtain ⟨dacts, hdacts, hall⟩ := run_leads h0 (Q := fun d => d.pc ≠ .testShutting)
    hbefore h honce hafter
  have hexit : ExitTest m.daemon dacts s.daemon :=
    ⟨hpc, hdacts, hflush, fun pre a post x x' hsplit hpre hact =>
      (hall pre a post x x' hsplit hpre hact).2⟩
  have hdisc : EachStep Daemon.act m.daemon dacts fun x a _ => a.Disciplined x :=
    fun pre a post x x' hsplit hpre hact => (hall pre a post x x' hsplit hpre hact).1
  have hiff := (hexit.complete_iff hm.sound.daemon hdisc).2 hopen' hexec'
  have hstopped := hexit.stopped hm.sound.daemon hdisc hopen' hexec'
  refine ⟨hiff, hexited ?_, hexited ?_, fun hcomp => ?_⟩
  · rw [← hs.sound.execPhase]
    exact hstopped.execSocket (by rw [hflush]; decide)
  · rw [← hs.sound.openPhase]
    exact hstopped.openSocket (by rw [hflush]; decide)
  · obtain ⟨hexecs, hopens⟩ := hiff.mpr hcomp
    rw [hexecs, hopens]
    exact ⟨hs.sound.born, hs.sound.lives⟩

theorem system_exit_sample : ∃ before after m s,
    oneRecordShutDown smallRecord 17 = before ++ after
      ∧ run plainSystem (.initial smallSurv) before = .ok m ∧ run plainSystem m after = .ok s
      ∧ s.daemon.pc = .flush
      ∧ (m.exec.pc ≠ .start → m.opens.pc ≠ .start →
        (s.daemon.HandedAll ↔ m.daemon.compMode = false) ∧ s.exec.pc = .exited
          ∧ s.opens.pc = .exited) := by
  have hmap : (run plainSystem (.initial smallSurv) (oneRecordShutDown smallRecord 17)).map
      (fun s => s.daemon.pc) = .ok .flush := by decide +kernel
  obtain ⟨s, hrun, hflush⟩ := map_ok hmap
  obtain ⟨before, after, m, hsplit, hbefore, -, hafter, -, hexit⟩ := system_exit smallSurv_init
    (smallRecord_supplied (by rfl) (by rfl) (by rfl)) hrun hflush
  exact ⟨before, after, m, s, hsplit, hbefore, hafter, hflush, fun hexec hopen =>
    ⟨(hexit hexec hopen).1, (hexit hexec hopen).2.1, (hexit hexec hopen).2.2.1⟩⟩

end Run

end System

end DirSurveiller
