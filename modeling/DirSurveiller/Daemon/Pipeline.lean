/-
  DirSurveiller.Daemon.Pipeline — the daemon as a whole: the tracer's sockets, both parser threads, and
  the main thread.

  The results about the event loop are about any events, written at any time.  Here the events are
  written by the two threads, which read them from their sockets.  An act is one access of a flag, a
  socket or a pipe by one of the parties, or one operation on a ring, and a run is any interleaving of
  acts.  In the code an operation on a ring is several accesses, and `write` is incremented before the
  cell is stored; `Containers.SharedRing` says what a reader finds in between.

  Main result:
    * `System.Sound.step` — what every act keeps, and that no parser faults.
-/
import DirSurveiller.Daemon.Kept
import DirSurveiller.Daemon.Shutdown
import DirSurveiller.Parser.Delivery

namespace DirSurveiller

open CMachine Outcome

/-! ## §1. The system. -/

/-- What the two threads depend on: their allocators, what a fresh object holds, the answers of the file
system and of the filter, by the number of the line. -/
structure SystemEnv where
  execMem : ParserMem
  openMem : ParserMem
  execEnv : ParserEnv
  openEnv : ParserEnv
  fresh : Nat → ExecCall
  stat : Nat → Bytes → Option Nat
  filter : Nat → Bytes → Bool

/-- `killed`: `killpipe_fd[1]` has been closed. -/
structure System where
  daemon : Daemon
  exec : Thread ExecCall
  opens : Thread OpenCall
  execSocket : Socket
  openSocket : Socket
  killed : Bool

/-- The threads have been created and have not begun. -/
def System.initial (surv : Surveiller) : System :=
  { daemon := .initial surv, exec := .initial execFieldSizes, opens := .initial openFieldSizes
    execSocket := .fresh, openSocket := .fresh, killed := false }

/-- What happens: a step of one of the threads, something the tracer does, or one of the two things
that `surv_shutdown` does when it has caught its signal. -/
inductive SysAct where
  | main (env : MainEnv)
  | exec (sys : SysAnswer)
  | opens (sys : SysAnswer)
  | sendExec (bytes : Bytes)
  | sendOpen (bytes : Bytes)
  | closeExec
  | closeOpen
  | shutDown
  | closeKillpipe

namespace Daemon

/-- `g_ringBuffer_write(&surv->commandQueue, eCall)` -/
def enqueueExec (d : Daemon) (eCall : ExecCall) : Daemon :=
  let (full, queue) := gRingBufferWrite d.surv.commandQueue (some d.surv.heap.nextExec)
  if full then d
  else
    { d with
      surv := { d.surv with heap := d.surv.heap.mallocExec false eCall, commandQueue := queue }
      acceptedExecs := d.acceptedExecs ++ [d.surv.heap.nextExec] }

/-- `g_ringBuffer_write(&surv->openQueue, oCall)` -/
def enqueueOpen (d : Daemon) (oCall : OpenCall) : Daemon :=
  let (full, queue) := gRingBufferWrite d.surv.openQueue (some d.surv.heap.nextOpen)
  if full then d
  else
    { d with
      surv := { d.surv with heap := d.surv.heap.mallocOpen oCall, openQueue := queue }
      acceptedOpens := d.acceptedOpens ++ [d.surv.heap.nextOpen] }

/-- `surv->processing_execcall_socket = value;` -/
def flagExec (d : Daemon) (value : Bool) : Daemon :=
  { d with surv := { d.surv with
      processingExeccallSocket := if value then .running else .exited } }

/-- `surv->processing_opencall_socket = value;` -/
def flagOpen (d : Daemon) (value : Bool) : Daemon :=
  { d with surv := { d.surv with
      processingOpencallSocket := if value then .running else .exited } }

/-- `surv->shutting_down = 1;` of `surv_shutdown` -/
def shutDown (d : Daemon) : Daemon := { d with surv := { d.surv with shuttingDown := true } }

/-- What a step of the execCall thread does to the daemon. -/
def execEffect (d : Daemon) (effect : Effect ExecCall) : Daemon :=
  effect.written.foldl enqueueExec (effect.flag.elim d d.flagExec)

/-- What a step of the openCall thread does to the daemon. -/
def openEffect (d : Daemon) (effect : Effect OpenCall) : Daemon :=
  effect.written.foldl enqueueOpen (effect.flag.elim d d.flagOpen)

end Daemon

namespace System

/-- What the execCall thread sees. -/
def execView (s : System) : View :=
  { shuttingDown := s.daemon.surv.shuttingDown, socket := s.execSocket, killed := s.killed
    room := !gRingBufferFull s.daemon.surv.commandQueue }

/-- What the openCall thread sees. -/
def openView (s : System) : View :=
  { shuttingDown := s.daemon.surv.shuttingDown, socket := s.openSocket, killed := s.killed
    room := !gRingBufferFull s.daemon.surv.openQueue }

/-- The system after a step of the execCall thread. -/
def execDid (s : System) (t : Thread ExecCall) (effect : Effect ExecCall) : System :=
  { s with
    exec := t, daemon := s.daemon.execEffect effect, execSocket := s.execSocket.take effect.taken }

/-- The system after a step of the openCall thread. -/
def openDid (s : System) (t : Thread OpenCall) (effect : Effect OpenCall) : System :=
  { s with
    opens := t, daemon := s.daemon.openEffect effect, openSocket := s.openSocket.take effect.taken }

def step (env : SystemEnv) (s : System) : SysAct → Except Fault System
  | .main menv => do
      let daemon ← s.daemon.mainStep menv
      return { s with daemon := daemon }
  | .exec sys => do
      let (t, effect) ← threadStep env.execMem (execHandler env.execEnv env.fresh) s.execView sys s.exec
      return s.execDid t effect
  | .opens sys => do
      let (t, effect) ← threadStep env.openMem (openHandler env.openEnv env.stat env.filter) s.openView
        sys s.opens
      return s.openDid t effect
  | .sendExec bytes => return { s with execSocket := s.execSocket.send bytes }
  | .sendOpen bytes => return { s with openSocket := s.openSocket.send bytes }
  | .closeExec => return { s with execSocket := s.execSocket.close }
  | .closeOpen => return { s with openSocket := s.openSocket.close }
  | .shutDown => return { s with daemon := s.daemon.shutDown }
  | .closeKillpipe => return { s with killed := true }

/-- Any interleaving. -/
def run (env : SystemEnv) (s : System) (acts : List SysAct) : Except Fault System :=
  acts.foldlM (step env) s

end System

/-! ## §2. What a parser does to the daemon. -/

/-- The flag of a parser, by where the thread is. -/
def ThreadPc.phase : ThreadPc → ParserPhase
  | .start => .notStarted
  | .exited => .exited
  | _ => .running

theorem ThreadPc.phase_running {pc : ThreadPc} (h : pc.stage = 1) : pc.phase = .running := by
  cases pc with
  | start | exited => exact absurd h (by decide)
  | connect | head | select | recv | scan | cleanup => rfl

theorem ThreadPc.phase_of_stage {pc pc' : ThreadPc} (h : pc'.stage = pc.stage) :
    pc'.phase = pc.phase := by
  cases pc with
  | connect | head | select | recv | scan | cleanup => exact ThreadPc.phase_running h
  | start =>
      cases pc' with
      | start => rfl
      | connect | head | select | recv | cleanup | exited => exact absurd h (by decide)
      | scan i => cases h
  | exited => rw [ThreadPc.stage_exited h]

/-- The phase that a value of the flag means. -/
def ParserPhase.ofFlag (value : Bool) : ParserPhase := if value then .running else .exited

/-- What others see of a step of a thread. -/
inductive Tells {ρ : Type} (view : View) (phase phase' : ParserPhase) (effect : Effect ρ) : Prop where
  | nothing : effect.flag = none → effect.written = [] → phase' = phase → Tells view phase phase' effect
  | flags (value : Bool) : effect.flag = some value → effect.written = [] → phase' = .ofFlag value →
      phase.rank ≤ phase'.rank → Tells view phase phase' effect
  | writes (object : ρ) : effect.flag = none → effect.written = [object] → phase = .running →
      phase' = .running → view.room = true → Tells view phase phase' effect

theorem Acts.tells {ρ : Type} {view : View} {sys : SysAnswer} {t t' : Thread ρ} {effect : Effect ρ}
    (h : Acts view sys t t' effect) : Tells view t.pc.phase t'.pc.phase effect := by
  cases h with
  | quiet _ hstage => exact .nothing rfl rfl (ThreadPc.phase_of_stage hstage)
  | leaves r _ hpc hpc' =>
      refine .nothing rfl rfl ?_
      rw [hpc']
      rcases hpc with hpc | hpc | hpc <;> rw [hpc] <;> rfl
  | failed hpc _ hstage =>
      refine .nothing rfl rfl ?_
      rw [ThreadPc.phase_running hstage, hpc]
      rfl
  | takes bytes hpc hstage =>
      refine .nothing rfl rfl ?_
      rw [ThreadPc.phase_running hstage, hpc]
      rfl
  | started hpc hpc' =>
      refine .flags true rfl rfl (by rw [hpc']; rfl) ?_
      rw [hpc, hpc']
      decide
  | stopped hpc hpc' =>
      refine .flags false rfl rfl (by rw [hpc']; rfl) ?_
      rw [hpc']
      rcases hpc with hpc | hpc <;> rw [hpc] <;> decide
  | writes objects i hpc hpc' _ hlen hroom =>
      match objects, hlen, hroom with
      | [], _, _ =>
          refine .nothing rfl rfl ?_
          rw [hpc, hpc']
          rfl
      | [c], _, hroom =>
          exact .writes c rfl rfl (by rw [hpc]; rfl) (by rw [hpc']; rfl) (hroom (List.cons_ne_nil _ _))

namespace Daemon

/-- Nothing, or an act that is in order. -/
def Moves (d d' : Daemon) : Prop := d' = d ∨ ∃ a, d.act a = .ok d' ∧ a.Disciplined d

theorem Moves.invariant {d d' : Daemon} (h : d.Moves d') (hd : d.Invariant) : d'.Invariant := by
  rcases h with rfl | ⟨a, ha, -⟩
  · exact hd
  · exact (hd.act a).post ha

/-- `d'` comes of `d` by acts that are in order and lead to states in `Q`. -/
def Leads (Q : Daemon → Prop) (d d' : Daemon) : Prop :=
  ∃ acts, d.run acts = .ok d' ∧ EachStep act d acts fun m a m' => a.Disciplined m ∧ Q m'

theorem Leads.refl (Q : Daemon → Prop) (d : Daemon) : Leads Q d d := by
  refine ⟨[], run_nil.mpr rfl, fun pre b post m m' hsplit => ?_⟩
  exact absurd hsplit.symm (List.append_ne_nil_of_right_ne_nil _ (List.cons_ne_nil _ _))

theorem Leads.moves {Q : Daemon → Prop} {d m d' : Daemon} (h : Leads Q d m) (hmoves : m.Moves d')
    (hQ : Q d') : Leads Q d d' := by
  rcases hmoves with rfl | ⟨a, ha, hdisc⟩
  · exact h
  · obtain ⟨acts, hrun, hall⟩ := h
    exact ⟨acts ++ [a], run_concat.mpr ⟨m, hrun, ha⟩, hall.concat hrun ha ⟨hdisc, hQ⟩⟩

/-- `r` was born as the call `c`. -/
def BornAs (d : Daemon) (r : ExecRef) (c : ExecCall) : Prop :=
  d.surv.heap.births[r]? = some (false, c.identity)

theorem BornAs.kept {d d' : Daemon} {r : ExecRef} {c : ExecCall} (h : d.BornAs r c)
    (hbirths : d.surv.heap.births <+: d'.surv.heap.births) : d'.BornAs r c := by
  obtain ⟨new, hnew⟩ := hbirths
  unfold BornAs
  rw [← hnew, List.getElem?_append_left (List.getElem?_eq_some_iff.mp h).1]
  exact h

/-- As long as `o` lives it is the call `c`. -/
def LivesAs (d : Daemon) (o : OpenRef) (c : OpenCall) : Prop :=
  ∀ c', d.surv.heap.opens o = some c' → c' = c

/-- What a step of the execCall thread does: it is in order, it leaves to the openCall thread what is
its, and the objects that are accepted are the calls that are written. -/
structure ExecStepped (d d' : Daemon) (phase : ParserPhase) (written : List ExecCall) : Prop where
  moves : d.Moves d'
  execSocket : d'.surv.processingExeccallSocket = phase
  openSocket : d'.surv.processingOpencallSocket = d.surv.processingOpencallSocket
  acceptedOpens : d'.acceptedOpens = d.acceptedOpens
  opens : d'.surv.heap.opens = d.surv.heap.opens
  shutting : d'.surv.shuttingDown = d.surv.shuttingDown
  pc : d'.pc = d.pc
  born : ∀ calls, List.Forall₂ d.BornAs d.acceptedExecs calls →
    List.Forall₂ d'.BornAs d'.acceptedExecs (calls ++ written)

/-- What a step of the openCall thread does. -/
structure OpenStepped (d d' : Daemon) (phase : ParserPhase) (written : List OpenCall) : Prop where
  moves : d.Moves d'
  openSocket : d'.surv.processingOpencallSocket = phase
  execSocket : d'.surv.processingExeccallSocket = d.surv.processingExeccallSocket
  acceptedExecs : d'.acceptedExecs = d.acceptedExecs
  births : d'.surv.heap.births = d.surv.heap.births
  shutting : d'.surv.shuttingDown = d.surv.shuttingDown
  pc : d'.pc = d.pc
  lives : ∀ calls, List.Forall₂ d.LivesAs d.acceptedOpens calls →
    List.Forall₂ d'.LivesAs d'.acceptedOpens (calls ++ written)

section Parsers

variable {d : Daemon} {view : View} {phase phase' : ParserPhase}

/-- Where there is room the object is accepted. -/
theorem enqueueExec_room {eCall : ExecCall} (hroom : gRingBufferFull d.surv.commandQueue = false) :
    d.enqueueExec eCall = { d with
      surv := { d.surv with
        heap := d.surv.heap.mallocExec false eCall
        commandQueue := (gRingBufferWrite d.surv.commandQueue (some d.surv.heap.nextExec)).2 }
      acceptedExecs := d.acceptedExecs ++ [d.surv.heap.nextExec] } := by
  unfold enqueueExec gRingBufferWrite
  rw [hroom]
  rfl

theorem enqueueOpen_room {oCall : OpenCall} (hroom : gRingBufferFull d.surv.openQueue = false) :
    d.enqueueOpen oCall = { d with
      surv := { d.surv with
        heap := d.surv.heap.mallocOpen oCall
        openQueue := (gRingBufferWrite d.surv.openQueue (some d.surv.heap.nextOpen)).2 }
      acceptedOpens := d.acceptedOpens ++ [d.surv.heap.nextOpen] } := by
  unfold enqueueOpen gRingBufferWrite
  rw [hroom]
  rfl

/-- **A step of the execCall thread** is nothing to the daemon, or one of the acts of a parser, in
order. -/
theorem execEffect_stepped (view : View) {effect : Effect ExecCall} (h : d.Invariant)
    (hphase : d.surv.processingExeccallSocket = phase)
    (hview : view.room = !gRingBufferFull d.surv.commandQueue) (htells : Tells view phase phase' effect)
    (hevents : ∀ c ∈ effect.written, ∃ e : ExecEvent, c = e.call) :
    d.ExecStepped (d.execEffect effect) phase' effect.written := by
  cases htells with
  | nothing hflag hwritten hsame =>
      have heq : d.execEffect effect = d := by
        unfold execEffect
        rw [hflag, hwritten]
        rfl
      rw [heq, hwritten]
      exact ⟨.inl rfl, hphase.trans hsame.symm, rfl, rfl, rfl, rfl, rfl, fun calls hcalls => by
        rwa [List.append_nil]⟩
  | flags value hflag hwritten hnew hrank =>
      have heq : d.execEffect effect = d.flagExec value := by
        unfold execEffect
        rw [hflag, hwritten]
        rfl
      rw [heq, hwritten, hnew]
      refine ⟨.inr ⟨.execSocket (.ofFlag value), rfl, ?_⟩, rfl, rfl, rfl, rfl, rfl, rfl,
        fun calls hcalls => by rwa [List.append_nil]⟩
      show d.surv.processingExeccallSocket.rank ≤ _
      rw [hphase, ← hnew]
      exact hrank
  | writes c hflag hwritten hold hnew hroom =>
      obtain ⟨e, rfl⟩ := hevents c (hwritten ▸ List.mem_singleton.mpr rfl)
      have hfull : gRingBufferFull d.surv.commandQueue = false := by
        rw [hview] at hroom
        simpa using hroom
      have heq : d.execEffect effect = d.enqueueExec e.call := by
        unfold execEffect
        rw [hflag, hwritten]
        rfl
      have hmoves : d.Moves (d.enqueueExec e.call) := .inr ⟨.writeExec e, rfl, hphase.trans hold⟩
      rw [heq, hwritten]
      rw [enqueueExec_room hfull] at hmoves ⊢
      refine ⟨hmoves, hphase.trans (hold.trans hnew.symm), rfl, rfl, rfl, rfl, rfl,
        fun calls hcalls => ?_⟩
      -- the new object is the last one
      obtain ⟨execs, opens, hd, -⟩ := h.holding
      obtain ⟨hand, openHand, hinv, -⟩ := hd.owned
      have hbirths : d.surv.heap.births.length = d.surv.heap.nextExec := hinv.sound.objects.births
      refine List.rel_append (hcalls.imp fun r x hx => ?_) (.cons ?_ .nil)
      · show (d.surv.heap.births ++ _)[r]? = _
        rw [List.getElem?_append_left (List.getElem?_eq_some_iff.mp hx).1]
        exact hx
      · show (d.surv.heap.births ++ _)[d.surv.heap.nextExec]? = _
        rw [← hbirths, List.getElem?_concat_length]

/-- **A step of the openCall thread** likewise. -/
theorem openEffect_stepped (view : View) {effect : Effect OpenCall} (h : d.Invariant)
    (hphase : d.surv.processingOpencallSocket = phase)
    (hview : view.room = !gRingBufferFull d.surv.openQueue) (htells : Tells view phase phase' effect)
    (hevents : ∀ c ∈ effect.written, ∃ o : OpenEvent, c = o.call) :
    d.OpenStepped (d.openEffect effect) phase' effect.written := by
  cases htells with
  | nothing hflag hwritten hsame =>
      have heq : d.openEffect effect = d := by
        unfold openEffect
        rw [hflag, hwritten]
        rfl
      rw [heq, hwritten]
      exact ⟨.inl rfl, hphase.trans hsame.symm, rfl, rfl, rfl, rfl, rfl, fun calls hcalls => by
        rwa [List.append_nil]⟩
  | flags value hflag hwritten hnew hrank =>
      have heq : d.openEffect effect = d.flagOpen value := by
        unfold openEffect
        rw [hflag, hwritten]
        rfl
      rw [heq, hwritten, hnew]
      refine ⟨.inr ⟨.openSocket (.ofFlag value), rfl, ?_⟩, rfl, rfl, rfl, rfl, rfl, rfl,
        fun calls hcalls => by rwa [List.append_nil]⟩
      show d.surv.processingOpencallSocket.rank ≤ _
      rw [hphase, ← hnew]
      exact hrank
  | writes c hflag hwritten hold hnew hroom =>
      obtain ⟨o, rfl⟩ := hevents c (hwritten ▸ List.mem_singleton.mpr rfl)
      have hfull : gRingBufferFull d.surv.openQueue = false := by
        rw [hview] at hroom
        simpa using hroom
      have heq : d.openEffect effect = d.enqueueOpen o.call := by
        unfold openEffect
        rw [hflag, hwritten]
        rfl
      have hmoves : d.Moves (d.enqueueOpen o.call) := .inr ⟨.writeOpen o, rfl, hphase.trans hold⟩
      rw [heq, hwritten]
      rw [enqueueOpen_room hfull] at hmoves ⊢
      refine ⟨hmoves, hphase.trans (hold.trans hnew.symm), rfl, rfl, rfl, rfl, rfl,
        fun calls hcalls => ?_⟩
      -- an accepted call is older than the new object
      obtain ⟨execs, opens, hd, -⟩ := h.holding
      have hknown := (List.forall₂_and_left _ _).mpr ⟨hd.known.2, hcalls⟩
      refine List.rel_append (hknown.imp fun r x hx => ?_) (.cons ?_ .nil)
      · intro c' hc'
        refine hx.2 c' ?_
        rw [← hc']
        exact (Function.update_of_ne hx.1.ne _ _).symm
      · intro c' hc'
        replace hc' := (Function.update_self _ _ _).symm.trans hc'
        exact (Option.some.inj hc').symm

end Parsers

end Daemon

/-! ## §3. What every act keeps. -/

/-- Memory is granted, and what it held before does not look like the end of a field. -/
structure SystemEnv.Sound (env : SystemEnv) : Prop where
  execMem : env.execMem.Total
  openMem : env.openMem.Total
  execFills : env.execMem.sbuf.Fills PlainByte
  openFills : env.openMem.sbuf.Fills PlainByte
  execEnv : env.execEnv.Granted
  openEnv : env.openEnv.Granted

namespace SysAct

/-- What the tracer writes to the socket of the execCall thread. -/
def execBytes : SysAct → Bytes
  | .sendExec bytes => bytes
  | _ => []

/-- What the tracer writes to the socket of the openCall thread. -/
def openBytes : SysAct → Bytes
  | .sendOpen bytes => bytes
  | _ => []

/-- No call of `recv` fails. -/
def Fair (s : System) : SysAct → Prop
  | .exec sys => sys.Fair s.exec
  | .opens sys => sys.Fair s.opens
  | _ => True

end SysAct

namespace System

/-- The objects that the execCall thread makes of a list of lines. -/
def execsOf (lines : List (List Bytes)) : List ExecCall := delivered (fun _ => execOfLine) lines

/-- The objects that the openCall thread makes of a list of lines. -/
def opensOf (env : SystemEnv) (lines : List (List Bytes)) : List OpenCall :=
  delivered (fun line => openOfLine (env.stat line) (env.filter line)) lines

/-- The invariant of the system. -/
structure Sound (env : SystemEnv) (s : System) : Prop where
  daemon : s.daemon.Invariant
  exec : Connected env.execMem (execHandler env.execEnv env.fresh) execFieldSizes s.exec s.execSocket
  opens : Connected env.openMem (openHandler env.openEnv env.stat env.filter) openFieldSizes s.opens
    s.openSocket
  execPhase : s.daemon.surv.processingExeccallSocket = s.exec.pc.phase
  openPhase : s.daemon.surv.processingOpencallSocket = s.opens.pc.phase
  born : List.Forall₂ s.daemon.BornAs s.daemon.acceptedExecs s.exec.parser.queued
  lives : List.Forall₂ s.daemon.LivesAs s.daemon.acceptedOpens s.opens.parser.queued

/-- What has been sent is a stream of the tracer's lines. -/
structure Orderly (s : System) : Prop where
  exec : TracerBytes s.execSocket.sent
  opens : TracerBytes s.openSocket.sent

/-- The system after an act, and what the act is to the daemon. -/
def Stepped (env : SystemEnv) (s s' : System) : Prop := Sound env s' ∧ s.daemon.Moves s'.daemon

section Step

variable {env : SystemEnv} {s s' : System} {sys : SysAnswer}

/-- What the execCall thread has received is the beginning of what has been sent. -/
theorem Sound.execReceived (h : Sound env s) : receivedBytes s.exec.recvs <+: s.execSocket.sent :=
  ⟨_, h.exec.conserved⟩

theorem Sound.openReceived (h : Sound env s) : receivedBytes s.opens.recvs <+: s.openSocket.sent :=
  ⟨_, h.opens.conserved⟩

theorem Sound.step_main (h : Sound env s) (menv : MainEnv) :
    Meets (Tolerated True) (s.step env (.main menv)) (s.Stepped env) := by
  refine Meets.bind ((h.daemon.mainStep menv).of_ok fun daemon hrun => ?_) fun daemon hd => hd
  have hinv := (h.daemon.mainStep menv).post hrun
  have hkept := h.daemon.mainStep_kept hrun
  refine ⟨⟨hinv, h.exec, h.opens, hkept.kept.execSocket.trans h.execPhase,
    hkept.kept.openSocket.trans h.openPhase, ?_, ?_⟩, .inr ⟨.main menv, hrun, trivial⟩⟩
  · show List.Forall₂ daemon.BornAs daemon.acceptedExecs s.exec.parser.queued
    rw [hkept.acceptedExecs]
    exact h.born.imp fun r c hr => hr.kept hkept.kept.unaltered.births
  · show List.Forall₂ daemon.LivesAs daemon.acceptedOpens s.opens.parser.queued
    rw [hkept.acceptedOpens]
    exact h.lives.imp fun o c ho c' hc' => ho c' (hkept.kept.unaltered.openCalls o c' hc')

theorem Sound.step_exec (henv : env.Sound) (h : Sound env s) (hsent : TracerBytes s.execSocket.sent)
    (hfair : sys.Fair s.exec) : Meets (fun _ => False) (s.step env (.exec sys)) (s.Stepped env) := by
  have hroom := execHandler_room env.execEnv env.fresh
  have hdelivers := execHandler_delivers henv.execEnv env.fresh
  obtain ⟨t, effect, hstep⟩ := h.exec.steps s.execView hroom henv.execMem hdelivers henv.execFills
    execFieldSizes_sound hsent rfl hfair
  obtain ⟨hconnected, hqueued⟩ := h.exec.step hroom rfl hfair hstep
  -- what is written is the object of a line
  have hevents : ∀ c ∈ effect.written, ∃ e : ExecEvent, c = e.call := by
    intro c hc
    have hreceived : TracerBytes (receivedBytes t.recvs) := hsent.beginning ⟨_, hconnected.conserved⟩
    have hwritten := (hconnected.written henv.execMem hdelivers henv.execFills execFieldSizes_sound
      hreceived).1.subset (hqueued ▸ List.mem_append_right _ hc)
    obtain ⟨i, line, hline, hcall⟩ := mem_delivered hwritten
    exact execOfLine_event (hreceived.texts line hline).2 hcall
  have hstepped := Daemon.execEffect_stepped s.execView h.daemon h.execPhase rfl
    (threadStep_acts hroom hstep).tells hevents
  rw [show s.step env (.exec sys) = .ok (s.execDid t effect) by simp only [step, hstep]; rfl]
  have hlives : ∀ o c, s.daemon.LivesAs o c → (s.daemon.execEffect effect).LivesAs o c :=
    fun o c ho c' hc' => ho c' (hstepped.opens ▸ hc')
  refine ⟨⟨hstepped.moves.invariant h.daemon, hconnected, h.opens, hstepped.execSocket,
    hstepped.openSocket.trans h.openPhase, ?_, ?_⟩, hstepped.moves⟩
  · show List.Forall₂ _ (s.daemon.execEffect effect).acceptedExecs t.parser.queued
    rw [hqueued]
    exact hstepped.born _ h.born
  · show List.Forall₂ _ (s.daemon.execEffect effect).acceptedOpens s.opens.parser.queued
    rw [hstepped.acceptedOpens]
    exact h.lives.imp hlives

theorem Sound.step_opens (henv : env.Sound) (h : Sound env s) (hsent : TracerBytes s.openSocket.sent)
    (hfair : sys.Fair s.opens) : Meets (fun _ => False) (s.step env (.opens sys)) (s.Stepped env) := by
  have hroom := openHandler_room env.openEnv env.stat env.filter
  have hdelivers := openHandler_delivers henv.openEnv env.stat env.filter
  obtain ⟨t, effect, hstep⟩ := h.opens.steps s.openView hroom henv.openMem hdelivers henv.openFills
    openFieldSizes_sound hsent rfl hfair
  obtain ⟨hconnected, hqueued⟩ := h.opens.step hroom rfl hfair hstep
  have hevents : ∀ c ∈ effect.written, ∃ o : OpenEvent, c = o.call := by
    intro c hc
    have hreceived : TracerBytes (receivedBytes t.recvs) := hsent.beginning ⟨_, hconnected.conserved⟩
    have hwritten := (hconnected.written henv.openMem hdelivers henv.openFills openFieldSizes_sound
      hreceived).1.subset (hqueued ▸ List.mem_append_right _ hc)
    obtain ⟨i, line, hline, hcall⟩ := mem_delivered hwritten
    exact openOfLine_event (hreceived.texts line hline).2 hcall
  have hstepped := Daemon.openEffect_stepped s.openView h.daemon h.openPhase rfl
    (threadStep_acts hroom hstep).tells hevents
  rw [show s.step env (.opens sys) = .ok (s.openDid t effect) by simp only [step, hstep]; rfl]
  refine ⟨⟨hstepped.moves.invariant h.daemon, h.exec, hconnected,
    hstepped.execSocket.trans h.execPhase, hstepped.openSocket, ?_, ?_⟩, hstepped.moves⟩
  · show List.Forall₂ _ (s.daemon.openEffect effect).acceptedExecs s.exec.parser.queued
    rw [hstepped.acceptedExecs]
    have hbirths : s.daemon.surv.heap.births <+: (s.daemon.openEffect effect).surv.heap.births := by
      rw [hstepped.births]
    exact h.born.imp fun r c hr => hr.kept hbirths
  · show List.Forall₂ _ (s.daemon.openEffect effect).acceptedOpens t.parser.queued
    rw [hqueued]
    exact hstepped.lives _ h.lives

/-- **Every act keeps the invariant**, and only the main thread can fault. -/
theorem Sound.step (henv : env.Sound) (h : Sound env s) (hsent : s.Orderly) {a : SysAct}
    (hfair : a.Fair s) : Meets (Tolerated True) (s.step env a) (s.Stepped env) := by
  cases a with
  | main menv => exact h.step_main menv
  | exec sys => exact (h.step_exec henv hsent.exec hfair).weaken fun _ hf => hf.elim
  | opens sys => exact (h.step_opens henv hsent.opens hfair).weaken fun _ hf => hf.elim
  | sendExec bytes =>
      exact ⟨⟨h.daemon, h.exec.send bytes, h.opens, h.execPhase, h.openPhase, h.born, h.lives⟩, .inl rfl⟩
  | sendOpen bytes =>
      exact ⟨⟨h.daemon, h.exec, h.opens.send bytes, h.execPhase, h.openPhase, h.born, h.lives⟩, .inl rfl⟩
  | closeExec =>
      exact ⟨⟨h.daemon, h.exec.close, h.opens, h.execPhase, h.openPhase, h.born, h.lives⟩, .inl rfl⟩
  | closeOpen =>
      exact ⟨⟨h.daemon, h.exec, h.opens.close, h.execPhase, h.openPhase, h.born, h.lives⟩, .inl rfl⟩
  | shutDown =>
      have hmoves : s.daemon.Moves s.daemon.shutDown := .inr ⟨.shutDown, rfl, trivial⟩
      exact ⟨⟨hmoves.invariant h.daemon, h.exec, h.opens, h.execPhase, h.openPhase, h.born, h.lives⟩,
        hmoves⟩
  | closeKillpipe =>
      exact ⟨⟨h.daemon, h.exec, h.opens, h.execPhase, h.openPhase, h.born, h.lives⟩, .inl rfl⟩

end Step

end System

end DirSurveiller
