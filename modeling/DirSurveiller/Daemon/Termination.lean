/-
  DirSurveiller.Daemon.Termination — what ends the parsers and the loop of the main thread.

  A parser ends when the other end of its socket is closed: it has only so much to do then, whatever
  the others do.  The kill pipe, which is there to free it from `select`, does not: behind `select`
  the parser reads its socket whether the socket or the pipe is ready.  The main thread ends once both
  parsers have, and it has been told to shut down.

  Main results:
    * `closed_socket_ends`    — a parser whose socket is closed exits within a bound of its own steps,
    * `killpipe_frees_nobody` — a parser on a silent socket stays, and so does the main thread,
    * `main_ends`             — the main thread leaves its loop within a bound of its own steps.
-/
import DirSurveiller.Daemon.SortedMerge
import DirSurveiller.Daemon.EndToEnd

namespace DirSurveiller

open CMachine Outcome

/-! ## §1. What a parser has still to do. -/

theorem sbAppendl_endPos {mem : Allocator} {this sbuf : StringBuffer} {buf : Bytes} {len ret : Nat}
    (h : sbAppendl mem this buf len = .ok (ret, sbuf)) : sbuf.endPos ≤ this.endPos + len := by
  unfold sbAppendl at h
  obtain ⟨⟨grown, g⟩, hgrow, h⟩ := bind_ok h
  have hend : g.endPos = this.endPos :=
    (sbGrow_inv (P := fun _ => True) (fun _ _ _ _ _ => trivial) 64 this g grown (fun _ _ => trivial)
      hgrow).1
  cases grown with
  | true =>
      obtain ⟨block, -, h⟩ := bind_ok h
      obtain ⟨-, rfl⟩ := Prod.mk.inj (Except.ok.inj h)
      show (g.endPos + len) % 2 ^ 32 ≤ _
      rw [hend]
      exact Nat.mod_le _ _
  | false =>
      obtain ⟨-, rfl⟩ := Prod.mk.inj (Except.ok.inj h)
      omega

/-- Enough steps for what is still to be received, in chunks of a byte. -/
def Socket.work (socket : Socket) : Nat := socket.pending.length * (4 * socket.sent.length + 10)

/-- A chunk less. -/
theorem Socket.work_take {socket : Socket} {n : Nat} (hn : 1 ≤ n) (hle : n ≤ socket.pending.length) :
    (socket.take n).work + (4 * socket.sent.length + 10) ≤ socket.work := by
  show (socket.pending.drop n).length * (4 * socket.sent.length + 10) + _ ≤ _
  rw [List.length_drop, ← Nat.succ_mul]
  exact Nat.mul_le_mul_right _ (by omega)

namespace Thread

variable {ρ : Type}

/-- What a parser needs to get on: the set of descriptors is not empty for ever, the buffer holds no
more than has been sent, and the tries are counted. -/
structure Ready (killed : Bool) (socket : Socket) (t : Thread ρ) : Prop where
  awake : t.rfds.socket = true ∨ t.rfds.killpipe = true ∧ killed = true
  held : t.pc = .cleanup ∨ t.pc = .exited
    ∨ t.parser.sbuf.endPos + socket.pending.length ≤ socket.sent.length
  tries : t.tries ≤ maxtriesEnqueue

/-- A bound on the steps that a parser takes until it has exited, once its socket has been closed. -/
def stepsLeft (socket : Socket) (t : Thread ρ) : Nat :=
  match t.pc with
  | .start => socket.work + 6
  | .connect => socket.work + 5
  | .head => socket.work + 4
  | .select => socket.work + 3
  | .recv => socket.work + 2
  | .scan i => socket.work + 5 + (4 * (t.parser.sbuf.endPos + 1 - i) - t.tries)
  | .cleanup => 1
  | .exited => 0

section Steps

variable {mem : ParserMem} {handle : Bool → Handler ρ} {t t' : Thread ρ} {view : View} {sys : SysAnswer}
  {effect : Effect ρ}

theorem Ready.send {killed : Bool} {socket : Socket} (h : Ready killed socket t) (bytes : Bytes) :
    Ready killed (socket.send bytes) t := by
  refine ⟨h.awake, h.held.imp id (Or.imp id fun hheld => ?_), h.tries⟩
  unfold Socket.send
  split
  · exact hheld
  · show t.parser.sbuf.endPos + (socket.pending ++ bytes).length ≤ (socket.sent ++ bytes).length
    rw [List.length_append, List.length_append]
    omega

/-- Outside of the end the buffer holds no more than has been sent. -/
theorem Ready.bound {killed : Bool} {socket : Socket} (h : Ready killed socket t)
    (hpc : t.pc.stage = 1) (hpc' : t.pc ≠ .cleanup) :
    t.parser.sbuf.endPos + socket.pending.length ≤ socket.sent.length := by
  rcases h.held with hend | hend | hheld
  · exact absurd hend hpc'
  · rw [hend] at hpc
    cases hpc
  · exact hheld

/-- What a step leaves: the thread is ready, and behind a closed socket it has less to do. -/
def Spends (view : View) (t t' : Thread ρ) (taken : Nat) : Prop :=
  Ready view.killed (view.socket.take taken) t'
    ∧ (view.socket.closed = true → t'.stepsLeft (view.socket.take taken) ≤ t.stepsLeft view.socket - 1)

/-- What `select` leaves in the set is ready, and behind a closed socket something is. -/
theorem Ready.select (h : Ready view.killed view.socket t) (hpc : t.pc = .select) :
    Spends view t (t.select view sys) 0 := by
  have hheld := h.bound (by rw [hpc]; rfl) (by rw [hpc]; decide)
  unfold Thread.select Spends
  dsimp only
  by_cases hfails : sys.fails = true
  · rw [if_pos hfails]
    refine ⟨⟨h.awake, .inl rfl, h.tries⟩, fun _ => ?_⟩
    unfold stepsLeft
    rw [hpc]
    show 1 ≤ _ + 3 - 1
    omega
  · rw [if_neg hfails]
    by_cases hready : (t.rfds.socket && view.socket.readable || t.rfds.killpipe && view.killed) = true
    · rw [if_pos hready]
      refine ⟨⟨?_, .inr (.inr hheld), h.tries⟩, fun _ => ?_⟩
      · rcases (Bool.or_eq_true _ _).mp hready with hsocket | hkill
        · exact .inl hsocket
        · exact .inr ⟨hkill, ((Bool.and_eq_true _ _).mp hkill).2⟩
      · unfold stepsLeft
        rw [hpc]
        exact Nat.le_refl _
    · rw [if_neg hready]
      refine ⟨h, fun hclosed => absurd ?_ hready⟩
      -- a closed socket is readable, and without the socket in the set there is the pipe
      have hreadable : view.socket.readable = true := by
        unfold Socket.readable
        rw [hclosed, Bool.or_true]
      rw [hreadable]
      rcases h.awake with hsocket | ⟨hpipe, hkilled⟩
      · rw [hsocket]
        rfl
      · rw [hpipe, hkilled, Bool.or_comm]
        rfl

/-- A `recv` takes at least one byte, or finds that there will be none. -/
theorem Ready.recv (h : Ready view.killed view.socket t) (hpc : t.pc = .recv) (hfair : sys.fails = false)
    (hstep : t.recv mem view sys = .ok (t', effect)) : Spends view t t' effect.taken := by
  have hheld := h.bound (by rw [hpc]; rfl) (by rw [hpc]; decide)
  unfold Thread.recv at hstep
  rw [if_neg (by rw [hfair]; decide)] at hstep
  by_cases hempty : view.socket.pending = []
  · rw [if_pos hempty] at hstep
    obtain ⟨rfl, rfl⟩ := Prod.mk.inj (Except.ok.inj hstep)
    unfold Spends
    cases hclosed : view.socket.closed with
    | true =>
        refine ⟨⟨h.awake, .inl rfl, h.tries⟩, fun _ => ?_⟩
        unfold stepsLeft
        rw [hpc]
        show 1 ≤ _ + 2 - 1
        omega
    | false => exact ⟨h, fun hfalse => by cases hfalse⟩
  · rw [if_neg hempty] at hstep
    obtain ⟨t1, ht1, hstep⟩ := bind_ok hstep
    obtain ⟨rfl, rfl⟩ := Prod.mk.inj (Except.ok.inj hstep)
    have htaken : 1 ≤ (sys.chunk view.socket.pending).length
        ∧ (sys.chunk view.socket.pending).length ≤ view.socket.pending.length := by
      have hpos := List.length_pos_iff.mpr hempty
      unfold SysAnswer.chunk
      rw [List.length_take]
      omega
    have hpending : (view.socket.take (sys.chunk view.socket.pending).length).pending.length
        = view.socket.pending.length - (sys.chunk view.socket.pending).length := List.length_drop
    unfold Thread.append at ht1
    obtain ⟨⟨ret, sbuf⟩, hsbuf, ht1⟩ := bind_ok ht1
    have hend := sbAppendl_endPos hsbuf
    by_cases hret : ret ≠ 0
    · replace ht1 := (if_pos hret).symm.trans ht1
      obtain rfl := Except.ok.inj ht1
      refine ⟨⟨h.awake, .inl rfl, h.tries⟩, fun _ => ?_⟩
      unfold stepsLeft
      rw [hpc]
      show 1 ≤ _ + 2 - 1
      omega
    · replace ht1 := (if_neg hret).symm.trans ht1
      obtain rfl := Except.ok.inj ht1
      have hheld' : sbuf.endPos
          + (view.socket.take (sys.chunk view.socket.pending).length).pending.length
            ≤ view.socket.sent.length := by
        rw [hpending]
        omega
      refine ⟨⟨h.awake, .inr (.inr hheld'), h.tries⟩, fun _ => ?_⟩
      unfold stepsLeft
      rw [hpc]
      show (view.socket.take (sys.chunk view.socket.pending).length).work + 5
        + (4 * (sbuf.endPos + 1 - 0) - t.tries) ≤ view.socket.work + 2 - 1
      -- one chunk less pays for the scan
      have hwork := Socket.work_take htaken.1 htaken.2
      omega

/-- An index of the scan is passed, or tried once more. -/
theorem Ready.scan {i : Nat} (h : Ready view.killed view.socket t) (hpc : t.pc = .scan i)
    (hstep : t.scan mem handle view i = .ok (t', effect)) : Spends view t t' effect.taken := by
  have hheld := h.bound (by rw [hpc]; rfl) (by rw [hpc]; simp)
  have htries := h.tries
  unfold maxtriesEnqueue at htries
  unfold Thread.scan at hstep
  by_cases hin : i ≤ t.parser.sbuf.endPos
  · rw [if_pos hin] at hstep
    obtain ⟨p, hp, hstep⟩ := bind_ok hstep
    by_cases hexit : p.exited = true
    · rw [if_pos hexit] at hstep
      by_cases htry : t.tries < maxtriesEnqueue
      · rw [if_pos htry] at hstep
        obtain ⟨rfl, rfl⟩ := Prod.mk.inj (Except.ok.inj hstep)
        refine ⟨⟨h.awake, .inr (.inr hheld), htry⟩, fun _ => ?_⟩
        unfold maxtriesEnqueue at htry
        unfold stepsLeft
        rw [hpc]
        show view.socket.work + 5 + (4 * (t.parser.sbuf.endPos + 1 - i) - (t.tries + 1))
          ≤ view.socket.work + 5 + (4 * (t.parser.sbuf.endPos + 1 - i) - t.tries) - 1
        omega
      · rw [if_neg htry] at hstep
        obtain ⟨rfl, rfl⟩ := Prod.mk.inj (Except.ok.inj hstep)
        refine ⟨⟨h.awake, .inl rfl, h.tries⟩, fun _ => ?_⟩
        unfold stepsLeft
        rw [hpc]
        show 1 ≤ _ + 5 + _ - 1
        omega
    · rw [if_neg hexit] at hstep
      split at hstep
      · cases hstep
      · obtain ⟨rfl, rfl⟩ := Prod.mk.inj (Except.ok.inj hstep)
        obtain ⟨b, -, hscans⟩ := scanByte_inv hp (by simpa using hexit)
        have hend := hscans.endPos
        refine ⟨⟨h.awake, .inr (.inr ?_), Nat.zero_le _⟩, fun _ => ?_⟩
        · show p.sbuf.endPos + view.socket.pending.length ≤ _
          rw [hend]
          exact hheld
        · unfold stepsLeft
          rw [hpc]
          show view.socket.work + 5 + (4 * (p.sbuf.endPos + 1 - (i + 1)) - 0)
            ≤ view.socket.work + 5 + (4 * (t.parser.sbuf.endPos + 1 - i) - t.tries) - 1
          rw [hend]
          omega
  · rw [if_neg hin] at hstep
    obtain ⟨sbuf, hsbuf, hstep⟩ := bind_ok hstep
    obtain ⟨rfl, rfl⟩ := Prod.mk.inj (Except.ok.inj hstep)
    have hend := (sbDeletehead_inv hsbuf).1
    refine ⟨⟨h.awake, .inr (.inr ?_), h.tries⟩, fun _ => ?_⟩
    · show sbuf.endPos + view.socket.pending.length ≤ view.socket.sent.length
      omega
    · unfold stepsLeft
      rw [hpc]
      show view.socket.work + 4 ≤ view.socket.work + 5 + _ - 1
      omega

/-- **A step of a parser** behind a closed socket takes it nearer to its end. -/
theorem Ready.step (view : View) (h : Ready view.killed view.socket t) (hfair : sys.Fair t)
    (hstep : threadStep mem handle view sys t = .ok (t', effect)) : Spends view t t' effect.taken := by
  unfold threadStep at hstep
  cases hpc : t.pc with
  | select =>
      rw [hpc] at hstep
      obtain ⟨rfl, rfl⟩ := Prod.mk.inj (Except.ok.inj hstep)
      exact h.select hpc
  | recv =>
      rw [hpc] at hstep
      exact h.recv hpc (hfair hpc) hstep
  | scan i =>
      rw [hpc] at hstep
      exact h.scan hpc hstep
  | start =>
      rw [hpc] at hstep
      have hheld : t.parser.sbuf.endPos + view.socket.pending.length ≤ view.socket.sent.length := by
        rcases h.held with hend | hend | hheld
        · exact absurd (hpc.symm.trans hend) (by decide)
        · exact absurd (hpc.symm.trans hend) (by decide)
        · exact hheld
      unfold Spends stepsLeft
      by_cases hfails : sys.fails = true
      · replace hstep := (congrArg Except.ok (if_pos hfails)).symm.trans hstep
        obtain ⟨rfl, rfl⟩ := Prod.mk.inj (Except.ok.inj hstep)
        exact ⟨⟨h.awake, .inr (.inl rfl), h.tries⟩, fun _ => Nat.zero_le _⟩
      · replace hstep := (congrArg Except.ok (if_neg hfails)).symm.trans hstep
        obtain ⟨rfl, rfl⟩ := Prod.mk.inj (Except.ok.inj hstep)
        rw [hpc]
        exact ⟨⟨h.awake, .inr (.inr hheld), h.tries⟩, fun _ => Nat.le_refl _⟩
  | connect =>
      rw [hpc] at hstep
      obtain ⟨rfl, rfl⟩ := Prod.mk.inj (Except.ok.inj hstep)
      have hheld := h.bound (by rw [hpc]; rfl) (by rw [hpc]; decide)
      unfold Spends stepsLeft
      rw [hpc]
      cases sys.fails with
      | true =>
          refine ⟨⟨h.awake, .inl rfl, h.tries⟩, fun _ => ?_⟩
          show 1 ≤ _ + 5 - 1
          omega
      | false => exact ⟨⟨h.awake, .inr (.inr hheld), h.tries⟩, fun _ => Nat.le_refl _⟩
  | head =>
      rw [hpc] at hstep
      have hheld := h.bound (by rw [hpc]; rfl) (by rw [hpc]; decide)
      unfold Spends stepsLeft
      rw [hpc]
      cases hshut : view.shuttingDown with
      | true =>
          rw [hshut] at hstep
          obtain ⟨rfl, rfl⟩ := Prod.mk.inj (Except.ok.inj hstep)
          refine ⟨⟨h.awake, .inl rfl, h.tries⟩, fun _ => ?_⟩
          show 1 ≤ _ + 4 - 1
          omega
      | false =>
          rw [hshut] at hstep
          obtain ⟨rfl, rfl⟩ := Prod.mk.inj (Except.ok.inj hstep)
          exact ⟨⟨h.awake, .inr (.inr hheld), h.tries⟩, fun _ => Nat.le_refl _⟩
  | cleanup =>
      rw [hpc] at hstep
      obtain ⟨rfl, rfl⟩ := Prod.mk.inj (Except.ok.inj hstep)
      exact ⟨⟨h.awake, .inr (.inl rfl), h.tries⟩, fun _ => Nat.zero_le _⟩
  | exited =>
      rw [hpc] at hstep
      obtain ⟨rfl, rfl⟩ := Prod.mk.inj (Except.ok.inj hstep)
      refine ⟨⟨h.awake, .inr (.inl hpc), h.tries⟩, fun _ => ?_⟩
      unfold stepsLeft
      rw [hpc]
      exact Nat.zero_le _

end Steps

end Thread

theorem Thread.exited_of_stepsLeft {ρ : Type} {t : Thread ρ} (socket : Socket)
    (h : t.stepsLeft socket = 0) : t.pc = .exited := by
  unfold Thread.stepsLeft at h
  cases hpc : t.pc with
  | exited => rfl
  | start | connect | head | select | recv | scan | cleanup =>
      rw [hpc] at h
      simp at h

/-! ## §2. The parsers among the others. -/

namespace SysAct

/-- A step of the execCall thread. -/
def isExec : SysAct → Bool
  | .exec _ => true
  | _ => false

/-- A step of the openCall thread. -/
def isOpens : SysAct → Bool
  | .opens _ => true
  | _ => false

/-- A step of the main thread. -/
def isMain : SysAct → Bool
  | .main _ => true
  | _ => false

end SysAct

namespace System

/-- Both parsers can get on. -/
structure Ready (s : System) : Prop where
  exec : s.exec.Ready s.killed s.execSocket
  opens : s.opens.Ready s.killed s.openSocket

/-- What an act leaves to the parsers: they can get on, and behind a closed socket a parser has at least
one step less to do after its own. -/
structure Passes (s : System) (a : SysAct) (s' : System) : Prop where
  ready : s'.Ready
  exec : s.execSocket.closed = true → s'.execSocket.closed = true
    ∧ s'.exec.stepsLeft s'.execSocket ≤ s.exec.stepsLeft s.execSocket - if a.isExec then 1 else 0
  opens : s.openSocket.closed = true → s'.openSocket.closed = true
    ∧ s'.opens.stepsLeft s'.openSocket ≤ s.opens.stepsLeft s.openSocket - if a.isOpens then 1 else 0

section Ends

variable {env : SystemEnv} {surv : Surveiller} {before after acts : List SysAct} {m s s' : System}
  {a : SysAct}

theorem initial_ready : (initial surv).Ready :=
  ⟨⟨.inl rfl, .inr (.inr (Nat.le_refl _)), Nat.zero_le _⟩,
    ⟨.inl rfl, .inr (.inr (Nat.le_refl _)), Nat.zero_le _⟩⟩

theorem send_closed {socket : Socket} (h : socket.closed = true) (bytes : Bytes) :
    socket.send bytes = socket := by
  unfold Socket.send
  rw [if_pos h]

theorem Ready.passes (h : s.Ready) (hfair : a.Fair s) (hstep : s.step env a = .ok s') :
    s.Passes a s' := by
  cases a with
  | main menv =>
      obtain ⟨daemon, -, hstep⟩ := bind_ok hstep
      obtain rfl := Except.ok.inj hstep
      exact ⟨⟨h.exec, h.opens⟩, fun hc => ⟨hc, Nat.le_refl _⟩, fun hc => ⟨hc, Nat.le_refl _⟩⟩
  | exec sys =>
      obtain ⟨⟨t, effect⟩, ht, hstep⟩ := bind_ok hstep
      obtain rfl := Except.ok.inj hstep
      obtain ⟨hready, hspent⟩ := Thread.Ready.step s.execView h.exec hfair ht
      exact ⟨⟨hready, h.opens⟩, fun hc => ⟨hc, hspent hc⟩, fun hc => ⟨hc, Nat.le_refl _⟩⟩
  | opens sys =>
      obtain ⟨⟨t, effect⟩, ht, hstep⟩ := bind_ok hstep
      obtain rfl := Except.ok.inj hstep
      obtain ⟨hready, hspent⟩ := Thread.Ready.step s.openView h.opens hfair ht
      exact ⟨⟨h.exec, hready⟩, fun hc => ⟨hc, Nat.le_refl _⟩, fun hc => ⟨hc, hspent hc⟩⟩
  | sendExec bytes =>
      obtain rfl := Except.ok.inj hstep
      refine ⟨⟨h.exec.send bytes, h.opens⟩, fun hc => ?_, fun hc => ⟨hc, Nat.le_refl _⟩⟩
      rw [send_closed hc]
      exact ⟨hc, Nat.le_refl _⟩
  | sendOpen bytes =>
      obtain rfl := Except.ok.inj hstep
      refine ⟨⟨h.exec, h.opens.send bytes⟩, fun hc => ⟨hc, Nat.le_refl _⟩, fun hc => ?_⟩
      rw [send_closed hc]
      exact ⟨hc, Nat.le_refl _⟩
  | closeExec =>
      obtain rfl := Except.ok.inj hstep
      exact ⟨⟨⟨h.exec.awake, h.exec.held, h.exec.tries⟩, h.opens⟩, fun _ => ⟨rfl, Nat.le_refl _⟩,
        fun hc => ⟨hc, Nat.le_refl _⟩⟩
  | closeOpen =>
      obtain rfl := Except.ok.inj hstep
      exact ⟨⟨h.exec, ⟨h.opens.awake, h.opens.held, h.opens.tries⟩⟩, fun hc => ⟨hc, Nat.le_refl _⟩,
        fun _ => ⟨rfl, Nat.le_refl _⟩⟩
  | shutDown =>
      obtain rfl := Except.ok.inj hstep
      exact ⟨⟨h.exec, h.opens⟩, fun hc => ⟨hc, Nat.le_refl _⟩, fun hc => ⟨hc, Nat.le_refl _⟩⟩
  | closeKillpipe =>
      obtain rfl := Except.ok.inj hstep
      exact ⟨⟨⟨h.exec.awake.imp id fun hk => ⟨hk.1, rfl⟩, h.exec.held, h.exec.tries⟩,
          ⟨h.opens.awake.imp id fun hk => ⟨hk.1, rfl⟩, h.opens.held, h.opens.tries⟩⟩,
        fun hc => ⟨hc, Nat.le_refl _⟩, fun hc => ⟨hc, Nat.le_refl _⟩⟩

/-- Both parsers can always get on. -/
theorem run_ready (hfair : EachStep (System.step env) (.initial surv) acts fun m a _ => a.Fair m)
    (hrun : run env (.initial surv) acts = .ok s) : s.Ready :=
  EachStep.invariant (P := Ready)
    (fun m a _ (hm : m.Ready) (hf : a.Fair m) hstep => (hm.passes hf hstep).ready)
    hfair initial_ready hrun

/-- **A parser whose socket has been closed exits** after so many of its own steps, in any interleaving:
whatever is still pending, however often the queue is full, and whether it is told to shut down or
not. -/
theorem closed_socket_ends
    (hfair : EachStep (System.step env) (.initial surv) (before ++ after) fun m a _ => a.Fair m)
    (hbefore : run env (.initial surv) before = .ok m) (hafter : run env m after = .ok s) :
    (m.execSocket.closed = true → m.exec.stepsLeft m.execSocket ≤ after.countP SysAct.isExec →
      s.exec.pc = .exited)
    ∧ (m.openSocket.closed = true → m.opens.stepsLeft m.openSocket ≤ after.countP SysAct.isOpens →
      s.opens.pc = .exited) := by
  have hready := run_ready hfair.take hbefore
  have hrest := hfair.drop hbefore
  constructor
  · intro hclosed hsteps
    have hspent := (EachStep.spends (P := fun s => s.Ready ∧ s.execSocket.closed = true)
      (fun s => s.exec.stepsLeft s.execSocket) SysAct.isExec
      (fun x b y hx hb hstep => by
        have hpass := hx.1.passes hb hstep
        exact ⟨⟨hpass.ready, (hpass.exec hx.2).1⟩, (hpass.exec hx.2).2⟩)
        hrest ⟨hready, hclosed⟩ hafter).2
    exact Thread.exited_of_stepsLeft s.execSocket (by omega)
  · intro hclosed hsteps
    have hspent := (EachStep.spends (P := fun s => s.Ready ∧ s.openSocket.closed = true)
      (fun s => s.opens.stepsLeft s.openSocket) SysAct.isOpens
      (fun x b y hx hb hstep => by
        have hpass := hx.1.passes hb hstep
        exact ⟨⟨hpass.ready, (hpass.opens hx.2).1⟩, (hpass.opens hx.2).2⟩)
        hrest ⟨hready, hclosed⟩ hafter).2
    exact Thread.exited_of_stepsLeft s.openSocket (by omega)

/-- The tracer has written a record and gone. -/
def oneRecordGone : List SysAct := oneRecord smallRecord 7 ++ [.closeExec, .closeOpen]

theorem closed_socket_ends_sample : ∃ m s, run plainSystem (.initial smallSurv) oneRecordGone = .ok m
    ∧ run plainSystem m (List.replicate 41 (.exec ⟨false, 256⟩)) = .ok s ∧ m.exec.pc = .scan 4
    ∧ s.exec.pc = .exited := by
  have hmap : ((run plainSystem (.initial smallSurv) oneRecordGone).map
      fun m => (m.exec.pc, m.execSocket.closed, m.exec.stepsLeft m.execSocket))
        = .ok (.scan 4, true, 41) := by
    decide +kernel
  have hmap' : (run plainSystem (.initial smallSurv)
      (oneRecordGone ++ List.replicate 41 (.exec ⟨false, 256⟩))).map (fun _ => ()) = .ok () := by
    decide +kernel
  obtain ⟨m, hm, hstate⟩ := map_ok hmap
  obtain ⟨s, hrun, -⟩ := map_ok hmap'
  obtain ⟨m1, hm1, hs⟩ := run_append.mp hrun
  obtain rfl := Except.ok.inj (hm.symm.trans hm1)
  obtain ⟨hpc, hrest⟩ := Prod.mk.inj hstate
  obtain ⟨hclosed, hleft⟩ := Prod.mk.inj hrest
  refine ⟨m, s, hm, hs, hpc, (closed_socket_ends
    (smallRecord_supplied (by rfl) (by rfl) (by rfl)).each hm hs).1 hclosed ?_⟩
  rw [hleft]
  decide

end Ends

end System

/-! ## §3. A parser on a silent socket. -/

/-- With nothing to receive, and the other end open, a parser at `select` or `recv` stays there, whatever
it finds the flag or the pipe to be. -/
theorem Thread.waits {ρ : Type} {mem : ParserMem} {handle : Bool → Handler ρ} {t t' : Thread ρ}
    (view : View) {sys : SysAnswer} {effect : Effect ρ} (hpc : t.pc = .select ∨ t.pc = .recv)
    (hpending : view.socket.pending = []) (hopen : view.socket.closed = false)
    (hfails : sys.fails = false) (hstep : threadStep mem handle view sys t = .ok (t', effect)) :
    (t'.pc = .select ∨ t'.pc = .recv) ∧ t'.parser = t.parser ∧ t'.recvs = t.recvs ∧ effect = .quiet := by
  unfold threadStep at hstep
  rcases hpc with hpc | hpc
  · rw [hpc] at hstep
    obtain ⟨rfl, rfl⟩ := Prod.mk.inj (Except.ok.inj hstep)
    unfold Thread.select
    dsimp only
    rw [if_neg (by rw [hfails]; decide)]
    split
    · exact ⟨.inr rfl, rfl, rfl, rfl⟩
    · exact ⟨.inl hpc, rfl, rfl, rfl⟩
  · rw [hpc] at hstep
    replace hstep : t.recv mem view sys = .ok (t', effect) := hstep
    unfold Thread.recv at hstep
    rw [if_neg (by rw [hfails]; decide), if_pos hpending, if_neg (by rw [hopen]; decide)] at hstep
    obtain ⟨rfl, rfl⟩ := Prod.mk.inj (Except.ok.inj hstep)
    exact ⟨.inr hpc, rfl, rfl, rfl⟩

namespace Daemon

/-- The main thread has not got past the `k`-th place of its exit test. -/
structure Before (k : Nat) (d : Daemon) : Prop where
  stage : d.pc.exitStage ≤ k
  dead : d.dead = false
  pc : d.pc ≠ .done

section Before

variable {d d' : Daemon} {env : MainEnv} {k : Nat}

/-- Where the main thread has found the loop not to end, it goes on. -/
theorem Goes.before (h : d.Goes d') (hd : d.Before k) (hk : k ≤ 3) :
    d'.dead = false ∧ d'.pc ≠ .done := by
  have hdead := hd.dead
  have hstage := hd.stage
  cases h with
  | top _ hpc' hsame | next _ hpc' hsame | other _ hpc' hsame | readNext _ hpc' hsame
  | sizeExec _ hpc' hsame | both _ hpc' hsame | openOnly _ hpc' hsame | execOnly _ hpc' hsame
  | neither _ hpc' hsame | readBothExec _ hpc' hsame | readBothOpen _ hpc' _ hsame
  | shutting _ hpc' hsame | openSocket _ hpc' hsame | execSocket _ hpc' hsame | openQueue _ hpc' hsame
  | flush _ hpc' hsame =>
      refine ⟨hsame.trans hdead, ?_⟩
      rw [hpc']
      first
        | decide
        | split <;> decide
  | hands _ hpc' hsame =>
      refine ⟨hsame.trans hdead, ?_⟩
      rcases hpc' with hpc' | hpc' <;> rw [hpc'] <;> decide
  | stays _ hpc' hsame =>
      refine ⟨hsame hdead, ?_⟩
      rw [hpc']
      decide
  | dispatch _ hpc' hsame =>
      refine ⟨hsame.trans hdead, ?_⟩
      rw [hpc', hdead]
      decide
  | commandQueue hpc =>
      rw [hpc] at hstage
      exact absurd (hstage.trans hk) (by decide)
  | done hpc => exact absurd hpc hd.pc

/-- As long as the execCall thread runs, the test of its flag is not passed. -/
theorem Before.exec (h : d.Before 3) (hflag : d.surv.processingExeccallSocket = .running)
    (hrun : d.mainStep env = .ok d') : d'.Before 3 := by
  obtain ⟨hdead, hpc⟩ := (mainStep_goes hrun).before h (Nat.le_refl 3)
  refine ⟨?_, hdead, hpc⟩
  by_contra hlt
  have htested := mainStep_tested hrun (by omega)
  have hstage := htested.stage
  have hle := h.stage
  exact htested.execSocket (by omega) hflag

/-- As long as the openCall thread runs, the test of its flag is not passed. -/
theorem Before.opens (h : d.Before 2) (hflag : d.surv.processingOpencallSocket = .running)
    (hrun : d.mainStep env = .ok d') : d'.Before 2 := by
  obtain ⟨hdead, hpc⟩ := (mainStep_goes hrun).before h (by omega)
  refine ⟨?_, hdead, hpc⟩
  by_contra hlt
  have htested := mainStep_tested hrun (by omega)
  have hstage := htested.stage
  have hle := h.stage
  exact htested.openSocket (by omega) hflag

end Before

/-- What a parser does to the daemon does not move the main thread. -/
theorem execEffect_loop (d : Daemon) (effect : Effect ExecCall) :
    (d.execEffect effect).pc = d.pc ∧ (d.execEffect effect).dead = d.dead := by
  have hfold : ∀ (calls : List ExecCall) (d : Daemon), (calls.foldl enqueueExec d).pc = d.pc
      ∧ (calls.foldl enqueueExec d).dead = d.dead := by
    intro calls
    induction calls with
    | nil => exact fun d => ⟨rfl, rfl⟩
    | cons c calls ih =>
        intro d
        obtain ⟨hpc, hdead⟩ := ih (d.enqueueExec c)
        refine ⟨hpc.trans ?_, hdead.trans ?_⟩ <;>
        · unfold enqueueExec
          split
          split <;> rfl
  unfold execEffect
  cases effect.flag with
  | none => exact hfold effect.written d
  | some value => exact hfold effect.written (d.flagExec value)

theorem openEffect_loop (d : Daemon) (effect : Effect OpenCall) :
    (d.openEffect effect).pc = d.pc ∧ (d.openEffect effect).dead = d.dead := by
  have hfold : ∀ (calls : List OpenCall) (d : Daemon), (calls.foldl enqueueOpen d).pc = d.pc
      ∧ (calls.foldl enqueueOpen d).dead = d.dead := by
    intro calls
    induction calls with
    | nil => exact fun d => ⟨rfl, rfl⟩
    | cons c calls ih =>
        intro d
        obtain ⟨hpc, hdead⟩ := ih (d.enqueueOpen c)
        refine ⟨hpc.trans ?_, hdead.trans ?_⟩ <;>
        · unfold enqueueOpen
          split
          split <;> rfl
  unfold openEffect
  cases effect.flag with
  | none => exact hfold effect.written d
  | some value => exact hfold effect.written (d.flagOpen value)

theorem Before.of_loop {d d' : Daemon} {k : Nat} (h : d.Before k)
    (hloop : d'.pc = d.pc ∧ d'.dead = d.dead) :
    d'.Before k :=
  ⟨by rw [hloop.1]; exact h.stage, hloop.2.trans h.dead, by rw [hloop.1]; exact h.pc⟩

end Daemon

namespace SysAct

/-- The tracer does nothing on the socket of the execCall thread, and no call of the thread fails. -/
def SilentExec : SysAct → Prop
  | .sendExec _ | .closeExec => False
  | .exec sys => sys.fails = false
  | _ => True

/-- The tracer does nothing on the socket of the openCall thread, and no call of the thread fails. -/
def SilentOpen : SysAct → Prop
  | .sendOpen _ | .closeOpen => False
  | .opens sys => sys.fails = false
  | _ => True

end SysAct

namespace System

/-- The execCall thread waits on its socket, and the main thread has not found it to have exited. -/
structure WaitsExec (s : System) : Prop where
  pc : s.exec.pc = .select ∨ s.exec.pc = .recv
  pending : s.execSocket.pending = []
  closed : s.execSocket.closed = false
  main : s.daemon.Before 3

/-- The openCall thread waits on its socket, and the main thread has not found it to have exited. -/
structure WaitsOpen (s : System) : Prop where
  pc : s.opens.pc = .select ∨ s.opens.pc = .recv
  pending : s.openSocket.pending = []
  closed : s.openSocket.closed = false
  main : s.daemon.Before 2

section Silent

variable {env : SystemEnv} {surv : Surveiller} {before after : List SysAct}
  {m s s' : System} {a : SysAct}

theorem WaitsExec.step (h : s.WaitsExec) (hs : Sound env s) (hsilent : a.SilentExec)
    (hstep : s.step env a = .ok s') : s'.WaitsExec := by
  have hflag : s.daemon.surv.processingExeccallSocket = .running := by
    rw [hs.execPhase]
    rcases h.pc with hpc | hpc <;> rw [hpc] <;> rfl
  cases a with
  | main menv =>
      obtain ⟨daemon, hrun, hstep⟩ := bind_ok hstep
      obtain rfl := Except.ok.inj hstep
      exact ⟨h.pc, h.pending, h.closed, h.main.exec hflag hrun⟩
  | exec sys =>
      obtain ⟨⟨t, effect⟩, ht, hstep⟩ := bind_ok hstep
      obtain rfl := Except.ok.inj hstep
      obtain ⟨hpc, -, -, rfl⟩ := Thread.waits s.execView h.pc h.pending h.closed hsilent ht
      exact ⟨hpc, h.pending, h.closed, h.main⟩
  | opens sys =>
      obtain ⟨⟨t, effect⟩, ht, hstep⟩ := bind_ok hstep
      obtain rfl := Except.ok.inj hstep
      exact ⟨h.pc, h.pending, h.closed, h.main.of_loop (s.daemon.openEffect_loop effect)⟩
  | sendExec | closeExec => exact hsilent.elim
  | sendOpen | closeOpen | shutDown | closeKillpipe =>
      obtain rfl := Except.ok.inj hstep
      exact ⟨h.pc, h.pending, h.closed, ⟨h.main.stage, h.main.dead, h.main.pc⟩⟩

theorem WaitsOpen.step (h : s.WaitsOpen) (hs : Sound env s) (hsilent : a.SilentOpen)
    (hstep : s.step env a = .ok s') : s'.WaitsOpen := by
  have hflag : s.daemon.surv.processingOpencallSocket = .running := by
    rw [hs.openPhase]
    rcases h.pc with hpc | hpc <;> rw [hpc] <;> rfl
  cases a with
  | main menv =>
      obtain ⟨daemon, hrun, hstep⟩ := bind_ok hstep
      obtain rfl := Except.ok.inj hstep
      exact ⟨h.pc, h.pending, h.closed, h.main.opens hflag hrun⟩
  | opens sys =>
      obtain ⟨⟨t, effect⟩, ht, hstep⟩ := bind_ok hstep
      obtain rfl := Except.ok.inj hstep
      obtain ⟨hpc, -, -, rfl⟩ := Thread.waits s.openView h.pc h.pending h.closed hsilent ht
      exact ⟨hpc, h.pending, h.closed, h.main⟩
  | exec sys =>
      obtain ⟨⟨t, effect⟩, ht, hstep⟩ := bind_ok hstep
      obtain rfl := Except.ok.inj hstep
      exact ⟨h.pc, h.pending, h.closed, h.main.of_loop (s.daemon.execEffect_loop effect)⟩
  | sendOpen | closeOpen => exact hsilent.elim
  | sendExec | closeExec | shutDown | closeKillpipe =>
      obtain rfl := Except.ok.inj hstep
      exact ⟨h.pc, h.pending, h.closed, ⟨h.main.stage, h.main.dead, h.main.pc⟩⟩

variable {getMaxPID ownPID : Int} {bootTime : UInt32}

/-- **The kill pipe frees nobody**: as long as the tracer neither writes nor closes, a parser that waits
on its socket goes on waiting, and the main thread, if it has not got past the test of its flag, does
not leave its loop, whether the daemon is told to shut down or not, and whether the kill pipe is closed
or not. -/
theorem killpipe_frees_nobody (h0 : survInit getMaxPID ownPID bootTime = .ok (some surv))
    (h : Supplied env (.initial surv) (before ++ after))
    (hbefore : run env (.initial surv) before = .ok m)
    (hafter : run env m after = .ok s) :
    (m.WaitsExec → (∀ a ∈ after, a.SilentExec) → s.WaitsExec)
      ∧ (m.WaitsOpen → (∀ a ∈ after, a.SilentOpen) → s.WaitsOpen) := by
  have hsound : ∀ {pre : List SysAct} {a : SysAct} {post : List SysAct} {x : System},
      after = pre ++ a :: post → run env m pre = .ok x → Sound env x := by
    rintro pre a post x rfl hpre
    rw [← List.append_assoc] at h
    exact ((run_reached h0 h.beginning).post (run_append.mpr ⟨m, hbefore, hpre⟩)).sound
  constructor
  · intro hwaits hsilent
    have heach : EachStep (System.step env) m after fun x a _ => Sound env x ∧ a.SilentExec :=
      fun pre a post x x' hsplit hpre _ => ⟨hsound hsplit hpre, hsilent a (by rw [hsplit]; simp)⟩
    exact EachStep.invariant (P := WaitsExec)
      (fun x a _ (hx : x.WaitsExec) hc hstep => hx.step hc.1 hc.2 hstep) heach hwaits hafter
  · intro hwaits hsilent
    have heach : EachStep (System.step env) m after fun x a _ => Sound env x ∧ a.SilentOpen :=
      fun pre a post x x' hsplit hpre _ => ⟨hsound hsplit hpre, hsilent a (by rw [hsplit]; simp)⟩
    exact EachStep.invariant (P := WaitsOpen)
      (fun x a _ (hx : x.WaitsOpen) hc hstep => hx.step hc.1 hc.2 hstep) heach hwaits hafter

/-- The daemon is told to shut down while nothing comes, and everybody takes some steps. -/
def shutDownInSilence : List SysAct :=
  [.shutDown, .closeKillpipe] ++ List.replicate 3 (.exec ⟨false, 256⟩)
    ++ List.replicate 3 (.opens ⟨false, 256⟩)
    ++ List.replicate 12 (.main .granting)

theorem killpipe_frees_nobody_sample : ∃ m s,
    run plainSystem (.initial smallSurv) (oneRecord smallRecord 18) = .ok m
      ∧ run plainSystem m shutDownInSilence = .ok s ∧ m.exec.pc = .select ∧ s.WaitsExec := by
  have hmap : ((run plainSystem (.initial smallSurv) (oneRecord smallRecord 18)).map
      fun m => (m.exec.pc, m.execSocket.pending, m.execSocket.closed, m.daemon.pc, m.daemon.dead))
        = .ok (.select, [], false, .top, false) := by decide +kernel
  have hmap' : (run plainSystem (.initial smallSurv) (oneRecord smallRecord 18 ++ shutDownInSilence)).map
      (fun _ => ()) = .ok () := by decide +kernel
  obtain ⟨m, hm, hstate⟩ := map_ok hmap
  obtain ⟨s, hrun, -⟩ := map_ok hmap'
  obtain ⟨m1, hm1, hs⟩ := run_append.mp hrun
  obtain rfl := Except.ok.inj (hm.symm.trans hm1)
  simp only [Prod.mk.injEq] at hstate
  obtain ⟨hpc, hpending, hclosed, hmain, hdead⟩ := hstate
  refine ⟨m, s, hm, hs, hpc, (killpipe_frees_nobody smallSurv_init
    (smallRecord_supplied (by rfl) (by rfl) (by rfl)) hm hs).1 ?_ ?_⟩
  · exact ⟨.inl hpc, hpending, hclosed, by rw [hmain]; decide, hdead, by rw [hmain]; decide⟩
  · intro a ha
    simp only [shutDownInSilence, List.mem_append, List.mem_cons, List.mem_replicate,
      List.not_mem_nil, or_false] at ha
    rcases ha with (((rfl | rfl) | ⟨-, rfl⟩) | ⟨-, rfl⟩) | ⟨-, rfl⟩
    · trivial
    · trivial
    · rfl
    · trivial
    · trivial

end Silent

end System

/-! ## §4. The end of the main thread. -/

namespace Daemon

/-- The command queue was empty when its size was read, and is no longer. -/
def Missed (d : Daemon) : Prop := d.readyCalls = false ∧ d.surv.commandQueue.held ≠ []

instance (d : Daemon) : Decidable d.Missed := inferInstanceAs (Decidable (_ ∧ _))

/-- A bound on the steps of the main thread to the end of its loop, once both parsers have exited and it
has been told to shut down.  A round hands over a call, as long as there is one that it has not missed;
with none left it goes through the exit test. -/
def stepsLeft (d : Daemon) : Nat :=
  let calls := 30 * d.left
  let idle := if d.left = 0 then 10 else 0
  match d.pc with
  | .hasNext => calls + 21
  | .readNext => calls + 20
  | .handOther => calls + 19
  | .testShutting => calls + 18
  | .testOpenSocket => calls + 17
  | .testExecSocket => calls + 16
  | .testOpenQueue => calls + 15
  | .testCommandQueue => calls + 14
  | .dispatch => if d.dead then 1 else calls + idle + 13
  | .top => calls + if d.compMode then 7 else idle + 12
  | .sizeExec => calls + idle + 11
  | .sizeOpen => calls + if d.left = 0 ∨ d.Missed then 20 else 10
  | .readBothExec => calls + 9
  | .readBothOpen => calls + 8
  | .merge => calls + 6
  | .readOpen => calls + 5
  | .readExec => calls + 5
  | .flush => 2
  | .done => 0

/-- The main thread has been told to shut down, and no parser runs.  Only the last test of the exit
leads to the flush. -/
structure Closing (d : Daemon) : Prop where
  shutting : d.surv.shuttingDown = true
  openSocket : d.surv.processingOpencallSocket ≠ .running
  execSocket : d.surv.processingExeccallSocket ≠ .running
  flushing : d.pc = .flush → d.dead = true

section Ends

variable {d d' : Daemon} {env : MainEnv}

/-- A step that hands over a call leaves one less, any other step as many. -/
theorem MainStepped.left (h : d.MainStepped d') :
    (d.pc.hands = true ∧ d'.left + 1 = d.left) ∨ (d.pc.hands = false ∧ d'.left = d.left) := by
  unfold Daemon.left execsLeft opensLeft
  rw [h.acceptedExecs, h.acceptedOpens]
  cases h.hands with
  | nothing hpc hexecs hopens =>
      rw [hexecs, hopens]
      exact .inr ⟨hpc, rfl⟩
  | exec hpc hleft hexecs hopens =>
      refine .inl ⟨hpc, ?_⟩
      have hlen := congrArg List.length hleft
      unfold execsLeft at hlen
      rw [hexecs, hopens]
      simp only [List.length_drop, List.length_append, List.length_cons, List.length_nil] at hlen ⊢
      omega
  | opened hpc hleft hopens hexecs =>
      refine .inl ⟨hpc, ?_⟩
      have hlen := congrArg List.length hleft
      unfold opensLeft at hlen
      rw [hexecs, hopens]
      simp only [List.length_drop, List.length_append, List.length_cons, List.length_nil] at hlen ⊢
      omega

/-- What waits in a queue is left. -/
theorem Invariant.left_pos (h : d.Invariant)
    (hheld : d.surv.openQueue.held ≠ [] ∨ d.surv.commandQueue.held ≠ []) : d.left ≠ 0 := by
  have hd := h.pending
  have hexecs := congrArg List.length hd.execFlow.left
  have hopens := congrArg List.length hd.openFlow.left
  rw [List.length_map, List.length_append, List.length_map] at hexecs hopens
  unfold Daemon.left execsLeft opensLeft
  rcases hheld with hheld | hheld <;>
  · have hpos := List.length_pos_iff.mpr hheld
    omega

/-- The flags do not stop a daemon that is closing at the exit test. -/
theorem Closing.passes (h : d.Closing) (hrun : d.mainStep env = .ok d')
    (hpc : d.pc = .testShutting ∨ d.pc = .testOpenSocket ∨ d.pc = .testExecSocket) :
    d'.pc = (if d.pc = .testShutting then .testOpenSocket else if d.pc = .testOpenSocket then
      .testExecSocket else .testOpenQueue) ∧ d'.left = d.left := by
  rw [Daemon.mainStep] at hrun
  rcases hpc with hpc | hpc | hpc
  · rw [hpc] at hrun
    obtain rfl := Except.ok.inj hrun
    rw [h.shutting, hpc]
    exact ⟨rfl, rfl⟩
  · rw [hpc] at hrun
    obtain rfl := Except.ok.inj hrun
    rw [decide_eq_true h.openSocket, hpc]
    exact ⟨rfl, rfl⟩
  · rw [hpc] at hrun
    obtain rfl := Except.ok.inj hrun
    rw [decide_eq_true h.execSocket, hpc]
    exact ⟨rfl, rfl⟩

/-- **A step of the main thread** takes a daemon that is closing nearer to its end. -/
theorem Closing.mainStep (hclosing : d.Closing) (h : d.Invariant) (hrun : d.mainStep env = .ok d') :
    d'.stepsLeft ≤ d.stepsLeft - 1 := by
  have hleft := (h.stepped hrun).left
  have hgoes := mainStep_goes hrun
  by_cases hflag : d.pc = .testShutting ∨ d.pc = .testOpenSocket ∨ d.pc = .testExecSocket
  · obtain ⟨hpc', hsame⟩ := hclosing.passes hrun hflag
    unfold stepsLeft
    rw [hpc', hsame]
    rcases hflag with hpc | hpc | hpc <;> rw [hpc] <;> exact Nat.le_refl _
  · have hnot : ∀ {pc : Pc}, d.pc = pc → pc.hands = false → d'.left = d.left := by
      intro pc hpc hhands
      rcases hleft with ⟨hhands', -⟩ | ⟨-, hsame⟩
      · rw [hpc, hhands] at hhands'
        cases hhands'
      · exact hsame
    cases hgoes with
    | top hpc hpc' _ hcomp =>
        have hsame := hnot hpc rfl
        unfold stepsLeft
        rw [hpc, hpc', hsame]
        cases hc : d.compMode with
        | true => exact Nat.le_refl _
        | false =>
            show 30 * d.left + _ + 11 ≤ 30 * d.left + (_ + 12) - 1
            omega
    | hands hpc hpc' =>
        have hless : d'.left + 1 = d.left := by
          rcases hleft with ⟨-, hless⟩ | ⟨hno, -⟩
          · exact hless
          · rw [hpc] at hno
            cases hno
        have hlow : 30 * d.left + 5 ≤ d.stepsLeft := by
          unfold stepsLeft
          cases hpc0 : d.pc with
          | merge | handOther | readOpen | readExec =>
              dsimp only
              omega
          | _ =>
              rw [hpc0] at hpc
              cases hpc
        have hhigh : d'.stepsLeft ≤ 30 * d'.left + 21 := by
          unfold stepsLeft
          rcases hpc' with hpc' | hpc'
          · rw [hpc']
          · rw [hpc']
            dsimp only
            omega
        omega
    | next hpc hpc' | other hpc hpc' | readNext hpc hpc' | readBothExec hpc hpc'
    | openQueue hpc hpc' | commandQueue hpc hpc' =>
        have hsame := hnot hpc rfl
        unfold stepsLeft
        rw [hpc, hpc', hsame]
        dsimp only
        omega
    | both hpc hpc' | openOnly hpc hpc' | execOnly hpc hpc' =>
        have hsame := hnot hpc rfl
        unfold stepsLeft
        rw [hpc, hpc', hsame]
        dsimp only
        split <;> omega
    | sizeExec hpc hpc' _ hempty =>
        have hsame := hnot hpc rfl
        have hseen : ¬ d'.Missed := fun hmissed => hmissed.2 (hempty hmissed.1)
        unfold stepsLeft
        rw [hpc, hpc', hsame]
        simp only [hseen, or_false]
        split <;> omega
    | readBothOpen hpc hpc' hcomp =>
        have hsame := hnot hpc rfl
        unfold stepsLeft
        rw [hpc, hpc', hsame, hcomp]
        exact Nat.le_refl _
    | neither hpc hpc' _ hopen hready =>
        have hsame := hnot hpc rfl
        have hloc := h.located
        rw [Located, hpc] at hloc
        -- both queues are empty, or a call has come since the first one was looked at
        have hround : d.left = 0 ∨ d.Missed := by
          by_cases hheld : d.surv.commandQueue.held = []
          · exact .inl (h.left_zero hloc.1 (by rw [hpc]; decide) hheld hopen)
          · exact .inr ⟨hready, hheld⟩
        unfold stepsLeft
        rw [hpc, hpc', hsame]
        simp only [hround, if_true]
        omega
    | shutting hpc | openSocket hpc | execSocket hpc => exact absurd (by simp [hpc]) hflag
    | stays hpc hpc' hdead =>
        have hqueue : (d.pc = .testOpenQueue ∧ d.surv.openQueue.held ≠ [])
            ∨ (d.pc = .testCommandQueue ∧ d.surv.commandQueue.held ≠ []) := by
          rcases hpc with hpc | hpc | hpc | hpc | hpc
          · exact absurd (.inl hpc) hflag
          · exact absurd (.inr (.inl hpc)) hflag
          · exact absurd (.inr (.inr hpc)) hflag
          · exact .inl hpc
          · exact .inr hpc
        -- there is something left to hand over
        have hpos := h.left_pos (hqueue.imp And.right And.right)
        have hsame : d'.left = d.left := by
          rcases hqueue with ⟨hpc, -⟩ | ⟨hpc, -⟩ <;> exact hnot hpc rfl
        have hlow : 30 * d.left + 14 ≤ d.stepsLeft := by
          unfold stepsLeft
          rcases hqueue with ⟨hpc, -⟩ | ⟨hpc, -⟩
          · rw [hpc]
            dsimp only
            omega
          · rw [hpc]
        have hhigh : d'.stepsLeft ≤ 30 * d.left + 13 := by
          unfold stepsLeft
          rw [hpc', hsame, if_neg hpos]
          dsimp only
          split <;> omega
        omega
    | flush hpc hpc' hdead =>
        unfold stepsLeft
        rw [hpc, hpc', hdead, hclosing.flushing hpc]
        exact Nat.le_refl _
    | dispatch hpc hpc' _ hcomp =>
        have hsame := hnot hpc rfl
        unfold stepsLeft
        rw [hpc, hpc', hsame]
        cases hdead : d.dead with
        | true => exact Nat.le_refl _
        | false =>
            simp only [Bool.false_eq_true, if_false]
            split <;> omega
    | done hpc hpc' =>
        unfold stepsLeft
        rw [hpc']
        exact Nat.zero_le _

/-- Only the last of the tests leads to the flush, and it ends the loop. -/
theorem Goes.flushing (h : d.Goes d') (hpc : d'.pc = .flush) : d'.dead = true := by
  cases h with
  | commandQueue _ _ hdead => exact hdead
  | top _ hpc' =>
      rw [hpc'] at hpc
      split at hpc <;> cases hpc
  | hands _ hpc' => rcases hpc' with hpc' | hpc' <;> rw [hpc'] at hpc <;> cases hpc
  | dispatch _ hpc' =>
      rw [hpc'] at hpc
      split at hpc <;> cases hpc
  | next _ hpc' | other _ hpc' | readNext _ hpc' | sizeExec _ hpc' | both _ hpc' | openOnly _ hpc'
  | execOnly _ hpc' | neither _ hpc' | readBothExec _ hpc' | readBothOpen _ hpc' | shutting _ hpc'
  | openSocket _ hpc' | execSocket _ hpc' | openQueue _ hpc' | stays _ hpc' | flush _ hpc'
  | done _ hpc' =>
      rw [hpc'] at hpc
      cases hpc

/-- The main thread does not take back that it is to end. -/
theorem Closing.kept (hclosing : d.Closing) (h : d.Invariant) (hrun : d.mainStep env = .ok d') :
    d'.Closing := by
  have hkept := (h.mainStep_kept hrun).kept
  exact ⟨hkept.shutting hclosing.shutting, hkept.openSocket ▸ hclosing.openSocket,
    hkept.execSocket ▸ hclosing.execSocket, (mainStep_goes hrun).flushing⟩

theorem done_of_stepsLeft (h : d.stepsLeft = 0) : d.pc = .done := by
  unfold stepsLeft at h
  cases hpc : d.pc with
  | done => rfl
  | dispatch =>
      rw [hpc] at h
      dsimp only at h
      split at h <;> omega
  | top | sizeOpen =>
      rw [hpc] at h
      dsimp only at h
      split at h <;> omega
  | _ =>
      rw [hpc] at h
      dsimp only at h
      omega

end Ends

end Daemon

namespace System

/-- Both parsers have exited, and the main thread has been told to shut down. -/
structure Closing (s : System) : Prop where
  exec : s.exec.pc = .exited
  opens : s.opens.pc = .exited
  main : s.daemon.Closing

section Ends

variable {env : SystemEnv} {surv : Surveiller} {before after : List SysAct}
  {m s s' : System} {a : SysAct}

theorem Closing.step (h : s.Closing) (hs : Sound env s) (hstep : s.step env a = .ok s') :
    s'.Closing ∧ s'.daemon.stepsLeft ≤ s.daemon.stepsLeft - if a.isMain then 1 else 0 := by
  cases a with
  | main menv =>
      obtain ⟨daemon, hrun, hstep⟩ := bind_ok hstep
      obtain rfl := Except.ok.inj hstep
      exact ⟨⟨h.exec, h.opens, h.main.kept hs.daemon hrun⟩, h.main.mainStep hs.daemon hrun⟩
  | exec sys =>
      -- a parser that has exited does nothing more
      have hquiet : s.step env (.exec sys) = .ok (s.execDid s.exec .quiet) := by
        simp only [System.step, threadStep, h.exec]
        rfl
      obtain rfl := Except.ok.inj (hquiet.symm.trans hstep)
      exact ⟨⟨h.exec, h.opens, h.main⟩, Nat.le_refl _⟩
  | opens sys =>
      have hquiet : s.step env (.opens sys) = .ok (s.openDid s.opens .quiet) := by
        simp only [System.step, threadStep, h.opens]
        rfl
      obtain rfl := Except.ok.inj (hquiet.symm.trans hstep)
      exact ⟨⟨h.exec, h.opens, h.main⟩, Nat.le_refl _⟩
  | shutDown =>
      obtain rfl := Except.ok.inj hstep
      exact ⟨⟨h.exec, h.opens, ⟨rfl, h.main.openSocket, h.main.execSocket, h.main.flushing⟩⟩,
        Nat.le_refl _⟩
  | sendExec | sendOpen | closeExec | closeOpen | closeKillpipe =>
      obtain rfl := Except.ok.inj hstep
      exact ⟨⟨h.exec, h.opens, h.main⟩, Nat.le_refl _⟩

/-- In every state of a run the main thread flushes the index only after it has found the loop to end. -/
theorem run_flushing (hrun : run env (.initial surv) before = .ok m) :
    m.daemon.pc = .flush → m.daemon.dead = true := by
  refine run_induction (P := fun _ s => s.daemon.pc = .flush → s.daemon.dead = true)
    (fun hpc => ?_) ?_ hrun
  · cases hpc
  · intro acts a s s' _ hs hstep
    cases a with
    | main menv =>
        obtain ⟨daemon, hmain, hstep⟩ := bind_ok hstep
        obtain rfl := Except.ok.inj hstep
        exact (Daemon.mainStep_goes hmain).flushing
    | exec sys =>
        obtain ⟨⟨t, effect⟩, -, hstep⟩ := bind_ok hstep
        obtain rfl := Except.ok.inj hstep
        obtain ⟨hpc, hdead⟩ := s.daemon.execEffect_loop effect
        exact fun hflush => hdead.trans (hs (hpc.symm.trans hflush))
    | opens sys =>
        obtain ⟨⟨t, effect⟩, -, hstep⟩ := bind_ok hstep
        obtain rfl := Except.ok.inj hstep
        obtain ⟨hpc, hdead⟩ := s.daemon.openEffect_loop effect
        exact fun hflush => hdead.trans (hs (hpc.symm.trans hflush))
    | sendExec | sendOpen | closeExec | closeOpen | shutDown | closeKillpipe =>
        obtain rfl := Except.ok.inj hstep
        exact hs

variable {getMaxPID ownPID : Int} {bootTime : UInt32}

/-- **The main thread ends**, wherever in its loop it is, after so many of its own steps once both
parsers have exited and it has been told to shut down: thirty for each call that it has still to hand
over, and one round. -/
theorem main_ends (h0 : survInit getMaxPID ownPID bootTime = .ok (some surv))
    (h : Supplied env (.initial surv) (before ++ after))
    (hbefore : run env (.initial surv) before = .ok m)
    (hafter : run env m after = .ok s) (hexec : m.exec.pc = .exited) (hopens : m.opens.pc = .exited)
    (hshutting : m.daemon.surv.shuttingDown = true)
    (hsteps : m.daemon.stepsLeft ≤ after.countP SysAct.isMain) : s.daemon.pc = .done := by
  have hm := ((run_reached h0 h.beginning).post hbefore).sound
  have hclosing : m.Closing := by
    refine ⟨hexec, hopens, ⟨hshutting, ?_, ?_, run_flushing hbefore⟩⟩
    · rw [hm.openPhase, hopens]
      decide
    · rw [hm.execPhase, hexec]
      decide
  have heach : EachStep (System.step env) m after fun x _ _ => Sound env x := by
    rintro pre a post x x' rfl hpre -
    rw [← List.append_assoc] at h
    exact ((run_reached h0 h.beginning).post (run_append.mpr ⟨m, hbefore, hpre⟩)).sound
  have hspent := (EachStep.spends (P := Closing) (fun x => x.daemon.stepsLeft) SysAct.isMain
    (fun x a _ (hx : x.Closing) hs hstep => hx.step hs hstep) heach hclosing hafter).2
  exact Daemon.done_of_stepsLeft (by omega)

/-- The main thread has found the command queue empty before the tracer writes a record and goes; then
both threads exit, and the daemon is told to shut down. -/
def oneRecordMissed : List SysAct :=
  List.replicate 2 (.main .granting) ++ oneRecordGone ++ List.replicate 15 (.exec ⟨false, 256⟩)
    ++ List.replicate 5 (.opens ⟨false, 256⟩) ++ [.shutDown]

theorem main_ends_sample : ∃ m s, run plainSystem (.initial smallSurv) oneRecordMissed = .ok m
    ∧ run plainSystem m (List.replicate 50 (.main .granting)) = .ok s ∧ m.daemon.pc = .sizeOpen
    ∧ m.daemon.left = 1 ∧ s.daemon.pc = .done := by
  have hmap : ((run plainSystem (.initial smallSurv) oneRecordMissed).map fun m => (m.exec.pc,
      m.opens.pc, m.daemon.surv.shuttingDown, m.daemon.pc, m.daemon.left, m.daemon.stepsLeft))
        = .ok (.exited, .exited, true, .sizeOpen, 1, 50) := by decide +kernel
  have hmap' : (run plainSystem (.initial smallSurv) (oneRecordMissed
      ++ List.replicate 50 (.main .granting))).map (fun _ => ()) = .ok () := by decide +kernel
  obtain ⟨m, hm, hstate⟩ := map_ok hmap
  obtain ⟨s, hrun, -⟩ := map_ok hmap'
  obtain ⟨m1, hm1, hs⟩ := run_append.mp hrun
  obtain rfl := Except.ok.inj (hm.symm.trans hm1)
  simp only [Prod.mk.injEq] at hstate
  obtain ⟨hexec, hopens, hshutting, hpc, hone, hleft⟩ := hstate
  refine ⟨m, s, hm, hs, hpc, hone, main_ends smallSurv_init
    (smallRecord_supplied (by rfl) (by rfl) (by rfl)) hm hs hexec hopens hshutting ?_⟩
  rw [hleft]
  decide

end Ends

end System

end DirSurveiller
