/-
  DirSurveiller.Control.Server — the control thread and its clients, one system call at a time.

  `surv_handleAccess` serves all its clients with one buffer for what it reads and one for its
  answer.  `select` tells it which descriptors are ready; a connection that waits at the listening
  socket is accepted before anything else is read.  What `read` returns is tested for 0 only: where it
  fails, the buffer is handled again as it is.  Nothing ignores `SIGPIPE`: a write to a client that has
  hung up ends the daemon.

    * `accessStep`         — the thread, between two system calls,
    * `ControlSystem.step` — the thread, its clients, `surv_shutdown` and the main thread,
    * `accessStep_moves`   — what a step of the thread can do.
-/
import DirSurveiller.Control.Safety

namespace DirSurveiller

open CMachine Outcome

/-! ## §1. The clients. -/

/-- A client and its connection.  `sent` and `received` are history. -/
structure Peer where
  connected : Bool
  /-- written by the client, not yet read -/
  unread : Bytes
  /-- written by the daemon, not yet read -/
  answers : Bytes
  closed : Bool
  /-- the client has hung up before it had read everything: the next `read` fails -/
  reset : Bool
  sent : List Bytes
  received : Bytes
  deriving DecidableEq

namespace Peer

def stranger : Peer :=
  { connected := false, unread := [], answers := [], closed := false, reset := false, sent := []
    received := [] }

def connect (p : Peer) : Peer := { p with connected := true }

/-- The client can use its connection. -/
def isOpen (p : Peer) : Bool := p.connected && !p.closed

/-- `write` of the client. -/
def send (p : Peer) (block : Bytes) : Peer :=
  if p.isOpen then { p with unread := p.unread ++ block, sent := p.sent ++ [block] } else p

/-- `read` of the client, of at most `n` bytes. -/
def recv (p : Peer) (n : Nat) : Peer :=
  if p.isOpen then
    { p with answers := p.answers.drop n, received := p.received ++ p.answers.take n }
  else p

/-- `close` of the client. -/
def hangUp (p : Peer) : Peer :=
  if p.isOpen then { p with closed := true, reset := p.answers ≠ [] } else p

/-- The daemon has read what fits its buffer. -/
def taken (p : Peer) : Peer := { p with unread := p.unread.drop accessSize }

/-- The error of the connection has been reported. -/
def reported (p : Peer) : Peer := { p with reset := false }

/-- The daemon has written. -/
def told (p : Peer) (bytes : Bytes) : Peer := { p with answers := p.answers ++ bytes }

end Peer

/-! ## §2. The thread. -/

/-- Where `surv_handleAccess` is.  Behind `read` it knows whether it was given anything. -/
inductive AccessPc where
  | start
  | head
  | select
  | accept
  | scan (i : Nat)
  | handle (i : Nat) (block : Option Bytes)
  | answer (i : Nat)
  | exited
  deriving DecidableEq

/-- The local variables of `surv_handleAccess`. -/
structure AccessThread where
  pc : AccessPc
  opSockets : Nat → Bool
  rdSockets : Nat → Bool
  buf : Bytes
  answer : Bytes

/-- What the control server has done for its clients, and what others have done to its state
meanwhile. -/
inductive Served where
  /-- the request of a client, and the answer to it -/
  | request (c : Nat) (block answer : Bytes)
  /-- the buffer was handled once more, for a client -/
  | again (c : Nat) (answer : Bytes)
  | shutDown
  | status (msg : Bytes)
  deriving DecidableEq

/-- The descriptors that the thread is given: of the listening socket, of the kill pipe, and how
many there can be. -/
structure AccessEnv where
  rcFd : Nat
  killFd : Nat
  fdSize : Nat

/-- How the system answers a call of the thread: whether it fails, the descriptor of a new
connection, whether the client's buffer has room, and what the two functions called for a request
return. -/
structure AccessAnswer where
  fails : Bool
  fd : Nat
  room : Bool
  env : ControlEnv

structure ControlSystem where
  control : Control
  /-- `killpipe_fd[1]` has been closed -/
  killClosed : Bool
  peers : Nat → Peer
  /-- the clients that wait at the listening socket -/
  backlog : List Nat
  /-- the client behind a descriptor -/
  conns : Nat → Option Nat
  thread : AccessThread
  /-- `SIGPIPE` has ended the daemon -/
  dead : Bool
  /-- history -/
  history : List Served

/-- The buffer after the two calls of `strtok`. -/
def cutRequest (request : Bytes) : Except Fault Bytes := do
  let (_, block, next) ← strtok DOLLAR request 0
  let (_, block, _) ← strtok DOLLAR block next
  return block

namespace ControlSystem

def initial (control : Control) (buf : Bytes) : ControlSystem :=
  { control := control, killClosed := false, peers := fun _ => Peer.stranger, backlog := []
    conns := fun _ => none
    thread :=
      { pc := .start, opSockets := fun _ => false, rdSockets := fun _ => false, buf := buf
        answer := [] }
    dead := false, history := [] }

section Setters

variable (s : ControlSystem)

def goto (pc : AccessPc) : ControlSystem := { s with thread := { s.thread with pc := pc } }

def setPeer (c : Nat) (p : Peer) : ControlSystem := { s with peers := Function.update s.peers c p }

/-- `FD_SET`, `FD_CLR` -/
def setOp (fd : Nat) (value : Bool) : ControlSystem :=
  { s with thread := { s.thread with opSockets := Function.update s.thread.opSockets fd value } }

def setConn (fd : Nat) (c : Option Nat) : ControlSystem :=
  { s with conns := Function.update s.conns fd c }

def setBuf (buf : Bytes) : ControlSystem := { s with thread := { s.thread with buf := buf } }

def log (entry : Served) : ControlSystem := { s with history := s.history ++ [entry] }

end Setters

section Thread

variable (env : AccessEnv) (s : ControlSystem)

/-- `read` or `accept` would not block. -/
def readable (i : Nat) : Bool :=
  if i = env.rcFd then s.backlog ≠ []
  else if i = env.killFd then s.killClosed
  else match s.conns i with
    | none => false
    | some c => (s.peers c).unread ≠ [] || (s.peers c).closed

/-- `select` reports these descriptors and the thread goes on to them. -/
def selected (rd : Nat → Bool) : ControlSystem :=
  { s with thread := { s.thread with
      rdSockets := rd, pc := if rd env.rcFd then .accept else .scan 0 } }

/-- A descriptor that a new connection can have. -/
def isFree (fd : Nat) : Bool := fd ≠ env.rcFd && fd ≠ env.killFd && s.conns fd = none

/-- A client has been accepted. -/
def accepted (c : Nat) (rest : List Nat) (fd : Nat) : ControlSystem :=
  (({ s with backlog := rest }.setConn fd (some c)).setOp fd true).goto .head

/-- `close(i); FD_CLR(i, &op_sockets);` -/
def closed (i : Nat) : ControlSystem := ((s.setConn i none).setOp i false).goto (.scan (i + 1))

/-- `read(i, buf, sizeof(buf))` and the test of what it returns. -/
def readFrom (i : Nat) : ControlSystem :=
  if i = env.killFd then
    -- nothing is ever written to the pipe
    if s.killClosed then s.closed i else s
  else match s.conns i with
    | none => s.goto (.handle i none)
    | some c =>
      let p := s.peers c
      if p.unread ≠ [] then
        ((s.setBuf (readInto s.thread.buf p.unread)).setPeer c p.taken).goto
          (.handle i (some (p.unread.take accessSize)))
      else if p.reset then (s.setPeer c p.reported).goto (.handle i none)
      else if p.closed then s.closed i
      else s

/-- What is recorded about a request. -/
def recorded (i : Nat) (block : Option Bytes) (answer : Bytes) : ControlSystem :=
  match s.conns i, block with
  | some c, some block => s.log (.request c block answer)
  | some c, none => s.log (.again c answer)
  | none, _ => s

/-- `surv_handleRequest(surv, buf, answer);` -/
def handled (env : ControlEnv) (i : Nat) (block : Option Bytes) : Except Fault ControlSystem := do
  let (control, answer) ← survHandleRequest env s.control s.thread.buf
  let buf ← cutRequest s.thread.buf
  return { s.recorded i block answer with
    control := control
    thread := { s.thread with pc := .answer i, buf := buf, answer := answer } }

/-- `write(i, answer, strlen(answer)+1);` -/
def written (room : Bool) (i : Nat) : ControlSystem :=
  match s.conns i with
  | none => s.goto (.scan (i + 1))
  | some c =>
      if (s.peers c).closed then { s with dead := true }
      else if room then
        (s.setPeer c ((s.peers c).told (withNul s.thread.answer))).goto (.scan (i + 1))
      else s

/-- `surv_handleAccess`, up to its next system call. -/
def accessStep (ans : AccessAnswer) : Except Fault ControlSystem :=
  match s.thread.pc with
  | .start =>
      -- `socket`, `setsockopt`, `bind` and `listen`
      if ans.fails then .ok (s.goto .exited)
      else .ok (((s.setOp env.rcFd true).setOp env.killFd true).goto .head)
  | .head => .ok (s.goto (if s.control.shuttingDown then .exited else .select))
  | .select =>
      -- a `select` that fails leaves the copy of `op_sockets` as it is
      if ans.fails then .ok (s.selected env s.thread.opSockets)
      else if (List.range env.fdSize).any fun i => s.thread.opSockets i && s.readable env i then
        .ok (s.selected env fun i => s.thread.opSockets i && s.readable env i)
      else .ok s
  | .accept =>
      if ans.fails then .ok (s.goto .head)
      else match s.backlog with
        | [] => .ok s
        | c :: rest => .ok (if s.isFree env ans.fd then s.accepted c rest ans.fd else s)
  | .scan i =>
      if i < env.fdSize then
        if i ≠ env.rcFd ∧ s.thread.rdSockets i then .ok (s.readFrom env i)
        else .ok (s.goto (.scan (i + 1)))
      else .ok (s.goto .head)
  | .handle i block => s.handled ans.env i block
  | .answer i => .ok (s.written ans.room i)
  | .exited => .ok s

end Thread

end ControlSystem

/-! ## §3. The system. -/

inductive AccessAct where
  | thread (ans : AccessAnswer)
  | connect (c : Nat)
  | send (c : Nat) (block : Bytes)
  | recv (c : Nat) (n : Nat)
  | close (c : Nat)
  /-- `surv->shutting_down = 1;`, of `surv_shutdown` behind a signal or of the main thread -/
  | shutDown
  /-- `close(surv->killpipe_fd[1]);` -/
  | closeKillpipe
  /-- `sprintf(surv.status_msg, …);` of the main thread -/
  | status (msg : Bytes)

namespace ControlSystem

/-- The socket at which clients can wait has been set up and is not closed. -/
def listening (s : ControlSystem) : Bool :=
  match s.thread.pc with
  | .start | .exited => false
  | _ => true

/-- A client that has not been seen before connects. -/
def connected (s : ControlSystem) (c : Nat) : ControlSystem :=
  if (s.peers c).connected || !s.listening then s
  else { s.setPeer c (s.peers c).connect with backlog := s.backlog ++ [c] }

/-- `surv->shutting_down = 1;` -/
def shutDown (s : ControlSystem) : ControlSystem :=
  { s with control := { s.control with shuttingDown := true } }.log .shutDown

def setStatus (s : ControlSystem) (msg : Bytes) : ControlSystem :=
  { s with control := { s.control with statusMsg := msg } }.log (.status msg)

def step (env : AccessEnv) (s : ControlSystem) (act : AccessAct) : Except Fault ControlSystem :=
  if s.dead then .ok s
  else match act with
    | .thread ans => s.accessStep env ans
    | .connect c => .ok (s.connected c)
    | .send c block => .ok (s.setPeer c ((s.peers c).send block))
    | .recv c n => .ok (s.setPeer c ((s.peers c).recv n))
    | .close c => .ok (s.setPeer c (s.peers c).hangUp)
    | .shutDown => .ok s.shutDown
    | .closeKillpipe => .ok (if s.control.shuttingDown then { s with killClosed := true } else s)
    | .status msg => .ok (s.setStatus msg)

/-- Any interleaving. -/
def run (env : AccessEnv) (s : ControlSystem) (acts : List AccessAct) :
    Except Fault ControlSystem :=
  acts.foldlM (step env) s

end ControlSystem

/-! ## §4. What a step of the thread can do. -/

namespace AccessPc

/-- The thread has no request in hand. -/
def quiet : AccessPc → Bool
  | .handle .. | .answer _ => false
  | _ => true

/-- The descriptor has still to be looked at in this round. -/
def ahead (i : Nat) : AccessPc → Prop
  | .scan k => k ≤ i
  | .handle k _ | .answer k => k < i
  | _ => False

/-- The ways on which the thread does nothing else. -/
inductive Next : AccessPc → AccessPc → Prop where
  | refused : Next .start .exited
  | enter : Next .head .select
  | leave : Next .head .exited
  | missed : Next .accept .head
  | skip (i : Nat) : Next (.scan i) (.scan (i + 1))
  | wrap (i : Nat) : Next (.scan i) .head

theorem Next.quiet {pc pc' : AccessPc} (h : Next pc pc') : pc.quiet = true ∧ pc'.quiet = true := by
  cases h <;> exact ⟨rfl, rfl⟩

theorem Next.ahead {pc pc' : AccessPc} (h : Next pc pc') {i : Nat} (hi : pc'.ahead i) :
    pc.ahead i := by
  cases h with
  | skip k => exact Nat.le_of_succ_le hi
  | refused | enter | leave | missed | wrap => exact hi.elim

end AccessPc

namespace ControlSystem

/-- The thread has handled the request in its buffer. -/
def replied (s : ControlSystem) (i : Nat) (block : Option Bytes) (control : Control)
    (answer buf : Bytes) : ControlSystem :=
  { s.recorded i block answer with
    control := control
    thread := { s.thread with pc := .answer i, buf := buf, answer := answer } }

/-- What was read of a connection. -/
def readFor (s : ControlSystem) (i c : Nat) : ControlSystem :=
  ((s.setBuf (readInto s.thread.buf (s.peers c).unread)).setPeer c (s.peers c).taken).goto
    (.handle i (some ((s.peers c).unread.take accessSize)))

/-- The answer has been written to a client. -/
def toldTo (s : ControlSystem) (i c : Nat) : ControlSystem :=
  (s.setPeer c ((s.peers c).told (withNul s.thread.answer))).goto (.scan (i + 1))

/-- A step of the thread. -/
inductive Moves (env : AccessEnv) (s : ControlSystem) (ans : AccessAnswer) :
    ControlSystem → Prop where
  /-- in a call that blocks, or when it has ended -/
  | stands : Moves env s ans s
  | goes (pc : AccessPc) : s.thread.pc.Next pc → Moves env s ans (s.goto pc)
  | listens : s.thread.pc = .start →
      Moves env s ans (((s.setOp env.rcFd true).setOp env.killFd true).goto .head)
  | selects (rd : Nat → Bool) : s.thread.pc = .select →
      (∀ i, rd i = true → s.thread.opSockets i = true) → Moves env s ans (s.selected env rd)
  | accepts (c : Nat) (rest : List Nat) : s.thread.pc = .accept → s.backlog = c :: rest →
      Moves env s ans (s.accepted c rest ans.fd)
  | closes (i : Nat) : s.thread.pc = .scan i → Moves env s ans (s.closed i)
  | reads (i c : Nat) : s.thread.pc = .scan i → s.conns i = some c → (s.peers c).unread ≠ [] →
      Moves env s ans (s.readFor i c)
  | fails (i c : Nat) : s.thread.pc = .scan i → s.conns i = some c → (s.peers c).reset = true →
      Moves env s ans ((s.setPeer c (s.peers c).reported).goto (.handle i none))
  | stray (i : Nat) : s.thread.pc = .scan i → s.thread.rdSockets i = true → i ≠ env.rcFd →
      i ≠ env.killFd → s.conns i = none → Moves env s ans (s.goto (.handle i none))
  | replies (i : Nat) (block : Option Bytes) (control : Control) (answer buf : Bytes) :
      s.thread.pc = .handle i block →
      survHandleRequest ans.env s.control s.thread.buf = .ok (control, answer) →
      cutRequest s.thread.buf = .ok buf → Moves env s ans (s.replied i block control answer buf)
  | forgets (i : Nat) : s.thread.pc = .answer i → s.conns i = none →
      Moves env s ans (s.goto (.scan (i + 1)))
  | dies (i c : Nat) : s.thread.pc = .answer i → s.conns i = some c → (s.peers c).closed = true →
      Moves env s ans { s with dead := true }
  | writes (i c : Nat) : s.thread.pc = .answer i → s.conns i = some c →
      Moves env s ans (s.toldTo i c)

section Moves

variable {env : AccessEnv} {s s' : ControlSystem} {ans : AccessAnswer}

theorem readFrom_moves {i : Nat} (hpc : s.thread.pc = .scan i) (hrc : i ≠ env.rcFd)
    (hrd : s.thread.rdSockets i = true) : Moves env s ans (s.readFrom env i) := by
  unfold readFrom
  by_cases hkill : i = env.killFd
  · rw [if_pos hkill]
    cases s.killClosed with
    | true => exact .closes i hpc
    | false => exact .stands
  · rw [if_neg hkill]
    cases hconn : s.conns i with
    | none => exact .stray i hpc hrd hrc hkill hconn
    | some c =>
        dsimp only
        by_cases hunread : (s.peers c).unread = []
        · rw [if_neg (not_not.mpr hunread)]
          cases hreset : (s.peers c).reset with
          | true => exact .fails i c hpc hconn hreset
          | false =>
              rw [if_neg Bool.false_ne_true]
              cases (s.peers c).closed with
              | true => exact .closes i hpc
              | false => exact .stands
        · rw [if_pos hunread]
          exact .reads i c hpc hconn hunread

/-- **What a step of the thread can do.** -/
theorem accessStep_moves (h : s.accessStep env ans = .ok s') : Moves env s ans s' := by
  unfold accessStep at h
  cases hpc : s.thread.pc with
  | start =>
      rw [hpc] at h
      dsimp only at h
      split at h
      · exact Except.ok.inj h ▸ .goes _ (hpc ▸ .refused)
      · exact Except.ok.inj h ▸ .listens hpc
  | head =>
      rw [hpc] at h
      obtain rfl := Except.ok.inj h
      cases s.control.shuttingDown with
      | true => exact .goes _ (hpc ▸ .leave)
      | false => exact .goes _ (hpc ▸ .enter)
  | select =>
      rw [hpc] at h
      dsimp only at h
      split at h
      · exact Except.ok.inj h ▸ .selects _ hpc fun _ hi => hi
      · split at h
        · exact Except.ok.inj h ▸ .selects _ hpc fun i hi => (Bool.and_eq_true _ _ ▸ hi).1
        · exact Except.ok.inj h ▸ .stands
  | accept =>
      rw [hpc] at h
      dsimp only at h
      split at h
      · exact Except.ok.inj h ▸ .goes _ (hpc ▸ .missed)
      · cases hback : s.backlog with
        | nil =>
            rw [hback] at h
            exact Except.ok.inj h ▸ .stands
        | cons c rest =>
            rw [hback] at h
            obtain rfl := Except.ok.inj h
            cases s.isFree env ans.fd with
            | true => exact .accepts c rest hpc hback
            | false => exact .stands
  | scan i =>
      rw [hpc] at h
      dsimp only at h
      split at h
      · split at h
        · next hready => exact Except.ok.inj h ▸ readFrom_moves hpc hready.1 hready.2
        · exact Except.ok.inj h ▸ .goes _ (hpc ▸ .skip i)
      · exact Except.ok.inj h ▸ .goes _ (hpc ▸ .wrap i)
  | handle i block =>
      rw [hpc] at h
      obtain ⟨⟨control, answer⟩, hhandle, h⟩ := bind_ok h
      obtain ⟨buf, hcut, h⟩ := bind_ok h
      exact Except.ok.inj h ▸ .replies i block control answer buf hpc hhandle hcut
  | answer i =>
      rw [hpc] at h
      obtain rfl := Except.ok.inj h
      unfold written
      cases hconn : s.conns i with
      | none => exact .forgets i hpc hconn
      | some c =>
          dsimp only
          cases hclosed : (s.peers c).closed with
          | true => exact .dies i c hpc hconn hclosed
          | false =>
              rw [if_neg Bool.false_ne_true]
              cases ans.room with
              | true => exact .writes i c hpc hconn
              | false => exact .stands
  | exited =>
      rw [hpc] at h
      exact Except.ok.inj h ▸ .stands

/-- Only the handling of a request can stop the thread. -/
theorem accessStep_faults {f : Fault} (h : s.accessStep env ans = .error f) :
    ∃ i block, s.thread.pc = .handle i block ∧ s.handled ans.env i block = .error f := by
  unfold accessStep at h
  cases hpc : s.thread.pc with
  | handle i block =>
      rw [hpc] at h
      exact ⟨i, block, rfl, h⟩
  | start =>
      rw [hpc] at h
      dsimp only at h
      split at h <;> cases h
  | head | answer | exited =>
      rw [hpc] at h
      cases h
  | select | accept =>
      rw [hpc] at h
      dsimp only at h
      split at h
      · cases h
      · split at h <;> cases h
  | scan =>
      rw [hpc] at h
      dsimp only at h
      split at h
      · split at h <;> cases h
      · cases h

/-- What the handler and `strtok` do, the thread does. -/
theorem handled_ok {i : Nat} {block : Option Bytes} {this : Control} {answer buf : Bytes}
    {env : ControlEnv} (hhandle : survHandleRequest env s.control s.thread.buf = .ok (this, answer))
    (hcut : cutRequest s.thread.buf = .ok buf) :
    s.handled env i block = .ok (s.replied i block this answer buf) := by
  unfold handled
  rw [hhandle, ok_bind]
  dsimp only
  rw [hcut]
  rfl

end Moves

end ControlSystem

end DirSurveiller
