/-
  DirSurveiller.Parser.Thread — a parser thread, one step at a time.

  `receive` is a whole round of the receive loop.  Here the thread is cut at what it shares with
  others: the flag `shutting_down`, `select`, `recv`, each index of the scan (which may write to a
  queue, in one step), and its own `processing_…` flag.  `rfds` is set up once before the loop; `select`
  overwrites it with the descriptors that are ready, and nothing restores it.

  Main results:
    * `threadStep_follows`, `threads_follow` — wherever a thread stands, finishing its round takes it
      to the state that `receive` computes from what the loop head has seen; a thread that gave up at
      a full queue stands where such a round stopped.
-/
import DirSurveiller.Parser.Bounds

namespace DirSurveiller

open CMachine Outcome

/-! ## §1. What a thread sees. -/

/-- The thread's end of a stream socket: what has been sent and not been received, and whether the
other end has been closed.  `sent` is history. -/
structure Socket where
  pending : Bytes
  closed : Bool
  sent : Bytes
  deriving Repr, DecidableEq

namespace Socket

def fresh : Socket := { pending := [], closed := false, sent := [] }

/-- `recv` would not block. -/
def readable (s : Socket) : Bool := s.pending ≠ [] || s.closed

/-- The other end writes; once it has been closed it cannot. -/
def send (s : Socket) (bytes : Bytes) : Socket :=
  if s.closed then s else { s with pending := s.pending ++ bytes, sent := s.sent ++ bytes }

/-- The other end is closed: what it has sent can still be received. -/
def close (s : Socket) : Socket := { s with closed := true }

/-- `n` bytes have been received. -/
def take (s : Socket) (n : Nat) : Socket := { s with pending := s.pending.drop n }

end Socket

/-- `fd_set rfds` -/
structure Rfds where
  socket : Bool
  killpipe : Bool
  deriving Repr, DecidableEq

/-- Where a parser thread is. -/
inductive ThreadPc where
  | start
  | connect
  | head
  | select
  | recv
  | scan (i : Nat)
  | cleanup
  | exited
  deriving Repr, DecidableEq

/-- What a step sees of the state that is shared.  `killed` says that the writing end of the kill
pipe has been closed, `room` that the queue of the thread is not full. -/
structure View where
  shuttingDown : Bool
  socket : Socket
  killed : Bool
  room : Bool

/-- How the system answers a call that is made in a step: whether it fails, and how much `recv`
delivers. -/
structure SysAnswer where
  fails : Bool
  amount : Nat
  deriving Repr, DecidableEq

/-- What a step does to the state that is shared: bytes taken from the socket, the `processing_…` flag,
an object written to the queue. -/
structure Effect (ρ : Type) where
  taken : Nat
  flag : Option Bool
  written : List ρ

namespace Effect

variable {ρ : Type}

def quiet : Effect ρ := { taken := 0, flag := none, written := [] }

def take (n : Nat) : Effect ρ := { taken := n, flag := none, written := [] }

def setFlag (value : Bool) : Effect ρ := { taken := 0, flag := some value, written := [] }

def write (objects : List ρ) : Effect ρ := { taken := 0, flag := none, written := objects }

end Effect

/-- A parser thread.  `tries` counts the refused writes of the current object; `recvs` is history:
what the loop head has seen. -/
structure Thread (ρ : Type) where
  parser : Parser ρ
  pc : ThreadPc
  rfds : Rfds
  tries : Nat
  recvs : List Recv

/-- `int maxtries_enqueue = 3` -/
def maxtriesEnqueue : Nat := 3

/-! ## §2. The code. -/

section Code

variable {ρ : Type} (mem : ParserMem) (handle : Bool → Handler ρ)

/-- The thread before it is started. -/
def Thread.initial (fieldSizes : List Nat) : Thread ρ :=
  { parser := parserInit fieldSizes, pc := .start, rfds := ⟨true, true⟩, tries := 0, recvs := [] }

/-- `break` at the loop head -/
def Thread.leave (t : Thread ρ) (r : Recv) : Thread ρ :=
  { t with parser := { t.parser with exited := true }, pc := .cleanup, recvs := t.recvs ++ [r] }

/-- `select(nfds, &rfds, NULL, NULL, NULL)`: it blocks until a member of the set is ready, and leaves
only the ready ones in it. -/
def Thread.select (view : View) (sys : SysAnswer) (t : Thread ρ) : Thread ρ :=
  let ready : Rfds :=
    { socket := t.rfds.socket && view.socket.readable, killpipe := t.rfds.killpipe && view.killed }
  if sys.fails then t.leave .leave
  else if ready.socket || ready.killpipe then { t with rfds := ready, pc := .recv }
  else t

/-- `sb_appendl(&sbuf, buf, rlen)` and the test of its answer -/
def Thread.append (t : Thread ρ) (r : Recv) (buf : Bytes) (rlen : Nat) :
    Except Fault (Thread ρ) := do
  let (ret, sbuf) ← sbAppendl mem.sbuf t.parser.sbuf buf rlen
  let p := { t.parser with sbuf := sbuf }
  if ret ≠ 0 then
    return { t with parser := { p with exited := true }, pc := .cleanup, recvs := t.recvs ++ [r] }
  else
    return { t with parser := p, pc := .scan 0, recvs := t.recvs ++ [r] }

/-- How much a `recv` into `char buf[256]` may deliver of what is pending. -/
def SysAnswer.chunk (sys : SysAnswer) (pending : Bytes) : Bytes :=
  pending.take (max 1 (min sys.amount 256))

/-- `recv(rc_fd, buf, sizeof(buf), 0)`: whichever descriptor `select` found ready, the socket is read,
and without data the call blocks. -/
def Thread.recv (view : View) (sys : SysAnswer) (t : Thread ρ) :
    Except Fault (Thread ρ × Effect ρ) :=
  if sys.fails then do
    let t ← t.append mem .failed [] (2 ^ 64 - 1)
    return (t, .quiet)
  else if view.socket.pending = [] then
    .ok (if view.socket.closed then t.leave .closed else t, .quiet)
  else do
    let bytes := sys.chunk view.socket.pending
    let t ← t.append mem (.chunk bytes) bytes bytes.length
    return (t, .take bytes.length)

/-- One index of the scan, or the `sb_deletehead` behind it. -/
def Thread.scan (view : View) (i : Nat) (t : Thread ρ) : Except Fault (Thread ρ × Effect ρ) :=
  if i ≤ t.parser.sbuf.endPos then do
    let p ← scanByte mem (handle view.room) t.parser i
    if p.exited then
      -- a refused object is written again, three times; between two tries the thread sleeps
      if t.tries < maxtriesEnqueue then
        return ({ t with tries := t.tries + 1 }, .quiet)
      else
        return ({ t with parser := p, pc := .cleanup }, .quiet)
    else if i = INT_MAX then
      .error .intOverflow
    else
      let written := p.queued.drop t.parser.queued.length
      return ({ t with parser := p, pc := .scan (i + 1), tries := 0 }, .write written)
  else do
    let sbuf ← sbDeletehead t.parser.sbuf t.parser.lfieldStart
    return ({ t with parser := { t.parser with sbuf := sbuf, lfieldStart := 0 }, pc := .head },
      .quiet)

/-- A step of `surv_handleExecCallSocket` or `surv_handleOpenCallSocket`. -/
def threadStep (view : View) (sys : SysAnswer) (t : Thread ρ) :
    Except Fault (Thread ρ × Effect ρ) :=
  match t.pc with
  | .start =>
      -- without a socket the flag is never set, and is cleared all the same
      .ok (if sys.fails then ({ t with pc := .exited }, .setFlag false)
        else ({ t with pc := .connect }, .setFlag true))
  | .connect => .ok ({ t with pc := if sys.fails then .cleanup else .head }, .quiet)
  | .head => .ok (if view.shuttingDown then t.leave .leave else { t with pc := .select }, .quiet)
  | .select => .ok (t.select view sys, .quiet)
  | .recv => t.recv mem view sys
  | .scan i => t.scan mem handle view i
  | .cleanup => .ok ({ t with pc := .exited }, .setFlag false)
  | .exited => .ok (t, .quiet)

/-- The thread over whatever it sees, step after step. -/
def threadRun (t : Thread ρ) (inputs : List (View × SysAnswer)) : Except Fault (Thread ρ) :=
  inputs.foldlM (fun t input => do
    let (t, _) ← threadStep mem handle input.1 input.2 t
    return t) t

end Code

/-! ## §3. A handler and the room in the queue. -/

/-- A handler by whether the queue has room: with room it does not give up, and without it does the
same, or nothing but give up.  Without room nothing is queued. -/
structure RoomHandler {ρ : Type} (handle : Bool → Handler ρ) : Prop where
  room : ∀ line fields r, handle true line fields = .ok r → r.refused = false
  full : ∀ line fields, handle false line fields = handle true line fields
    ∨ ∃ r, handle false line fields = .ok r ∧ r.refused = true
  none : ∀ line fields r, handle false line fields = .ok r → r.queued = none

section Room

variable {ρ : Type} {mem : ParserMem} {handle : Bool → Handler ρ} {p q : Parser ρ} {i : Nat}

theorem appendField_kept (h : appendField mem p = .ok q) :
    q.inits = p.inits ∧ q.queued = p.queued := by
  unfold appendField at h
  split at h
  · cases h
  · obtain ⟨r, -, h⟩ := bind_ok h
    obtain rfl := Except.ok.inj h
    exact ⟨rfl, rfl⟩

/-- What `finishLine` makes of what the handler leaves. -/
def Parser.finished (p : Parser ρ) (r : Handled ρ) : Parser ρ :=
  { p with
    fields := r.fields
    inits := p.inits ++ [p.fields.map StringBuffer.content]
    queued := p.queued ++ r.queued.toList
    exited := r.refused }

theorem finishLine_eq (handle : Handler ρ) (p : Parser ρ) (i : Nat) :
    finishLine mem handle p i = (do
      let p ← cutAt p i
      let p ← appendField mem p
      let r ← handle p.inits.length p.fields
      return p.finished r) := rfl

/-- With room a line that is finished does not end the thread. -/
theorem finishLine_room (hroom : RoomHandler handle)
    (h : finishLine mem (handle true) p i = .ok q) : q.exited = false := by
  rw [finishLine_eq] at h
  obtain ⟨p1, -, h⟩ := bind_ok h
  obtain ⟨p2, -, h⟩ := bind_ok h
  obtain ⟨r, hr, h⟩ := bind_ok h
  obtain rfl := Except.ok.inj h
  exact hroom.room _ _ r hr

/-- Without room it is finished as if there were room, or ends the thread. -/
theorem finishLine_full (hroom : RoomHandler handle) :
    finishLine mem (handle false) p i = finishLine mem (handle true) p i
      ∨ ∃ q, finishLine mem (handle false) p i = .ok q ∧ q.exited = true := by
  rw [finishLine_eq, finishLine_eq]
  cases cutAt p i with
  | error e => exact .inl rfl
  | ok p1 =>
      rw [ok_bind, ok_bind]
      cases appendField mem p1 with
      | error e => exact .inl rfl
      | ok p2 =>
          rw [ok_bind, ok_bind]
          rcases hroom.full p2.inits.length p2.fields with heq | ⟨r, hr, hrefused⟩
          · rw [heq]
            exact .inl rfl
          · exact .inr ⟨p2.finished r, by rw [hr]; rfl, hrefused⟩

theorem scanNewline_room (hroom : RoomHandler handle) (hp : p.exited = false)
    (h : scanNewline mem (handle true) p i = .ok q) : q.exited = false := by
  -- what follows the test of the number of fields keeps `exited`
  have hrest : ∀ p1 : Parser ρ, p1.exited = false → (do
      if p1.exited then return p1
      else
        let fields ← p1.fields.mapM sbFlush
        return { p1 with fields := fields, lfieldStart := i + 1, currField := 0 })
      = Except.ok q → q.exited = false := by
    intro p1 hp1 h
    rw [if_neg (by rw [hp1]; decide)] at h
    obtain ⟨fields, -, h⟩ := bind_ok h
    obtain rfl := Except.ok.inj h
    exact hp1
  unfold scanNewline at h
  by_cases hfull : p.currField = fieldNum - 1
  · rw [if_pos hfull] at h
    obtain ⟨p1, h1, h⟩ := bind_ok h
    exact hrest p1 (finishLine_room hroom h1) h
  · rw [if_neg hfull] at h
    exact hrest p hp h

/-- With room no byte ends the thread. -/
theorem scanByte_room (hroom : RoomHandler handle) (hp : p.exited = false)
    (h : scanByte mem (handle true) p i = .ok q) : q.exited = false := by
  unfold scanByte at h
  obtain ⟨c, -, h⟩ := bind_ok h
  by_cases hnl : c = NEWLINE
  · rw [if_pos hnl] at h
    exact scanNewline_room hroom hp h
  · rw [if_neg hnl] at h
    by_cases htab : c = TAB
    · rw [if_pos htab] at h
      unfold scanTab at h
      obtain ⟨p1, h1, h⟩ := bind_ok h
      obtain ⟨p2, h2, h⟩ := bind_ok h
      obtain rfl := Except.ok.inj h
      show p2.exited = false
      rw [(appendField_inv h2).2.2, cutAt_inv h1]
      exact hp
    · rw [if_neg htab] at h
      obtain rfl := Except.ok.inj h
      exact hp

/-- Without room a byte does what it does with room, or ends the thread. -/
theorem scanByte_full (hroom : RoomHandler handle) (mem : ParserMem) (p : Parser ρ) (i : Nat) :
    scanByte mem (handle false) p i = scanByte mem (handle true) p i
      ∨ ∃ q, scanByte mem (handle false) p i = .ok q ∧ q.exited = true := by
  unfold scanByte
  cases load p.sbuf.string i with
  | error e => exact .inl rfl
  | ok c =>
      rw [ok_bind, ok_bind]
      by_cases hnl : c = NEWLINE
      · rw [if_pos hnl, if_pos hnl]
        unfold scanNewline
        by_cases hfull : p.currField = fieldNum - 1
        · rw [if_pos hfull, if_pos hfull]
          rcases finishLine_full hroom (p := p) (i := i) with heq | ⟨q, hq, hexit⟩
          · rw [heq]
            exact .inl rfl
          · refine .inr ⟨q, ?_, hexit⟩
            rw [hq, ok_bind]
            exact if_pos hexit
        · rw [if_neg hfull, if_neg hfull]
          exact .inl rfl
      · rw [if_neg hnl, if_neg hnl]
        exact .inl rfl

end Room

/-! ## §4. What a line leaves in the history. -/

section Logs

variable {ρ : Type} {mem : ParserMem} {handle : Handler ρ} {p q : Parser ρ} {i : Nat}

/-- A step of the thread in its history: nothing, or one line with what the handler has made of it. -/
inductive Logs (handle : Handler ρ) (p q : Parser ρ) : Prop where
  | nothing (hinits : q.inits = p.inits) (hqueued : q.queued = p.queued)
  | line (fields : List StringBuffer) (r : Handled ρ)
      (hhandle : handle p.inits.length fields = .ok r)
      (hinits : q.inits = p.inits ++ [fields.map StringBuffer.content])
      (hqueued : q.queued = p.queued ++ r.queued.toList)

theorem finishLine_logs (h : finishLine mem handle p i = .ok q) : Logs handle p q := by
  rw [finishLine_eq] at h
  obtain ⟨p1, h1, h⟩ := bind_ok h
  obtain ⟨p2, h2, h⟩ := bind_ok h
  obtain ⟨r, hr, h⟩ := bind_ok h
  obtain rfl := Except.ok.inj h
  obtain ⟨hinits, hqueued⟩ := appendField_kept h2
  rw [cutAt_inv h1] at hinits hqueued
  replace hinits : p2.inits = p.inits := hinits
  replace hqueued : p2.queued = p.queued := hqueued
  rw [hinits] at hr
  exact .line p2.fields r hr (congrArg (· ++ _) hinits) (congrArg (· ++ _) hqueued)

theorem scanByte_logs (h : scanByte mem handle p i = .ok q) : Logs handle p q := by
  unfold scanByte at h
  obtain ⟨c, -, h⟩ := bind_ok h
  by_cases hnl : c = NEWLINE
  · rw [if_pos hnl] at h
    unfold scanNewline at h
    -- flushing the fields leaves no trace in the history
    have hrest : ∀ p1 : Parser ρ, Logs handle p p1 → (do
        if p1.exited then return p1
        else
          let fields ← p1.fields.mapM sbFlush
          return { p1 with fields := fields, lfieldStart := i + 1, currField := 0 })
        = Except.ok q → Logs handle p q := by
      intro p1 hp1 h
      by_cases hexit : p1.exited = true
      · rw [if_pos hexit] at h
        obtain rfl := Except.ok.inj h
        exact hp1
      · rw [if_neg hexit] at h
        obtain ⟨fields, -, h⟩ := bind_ok h
        obtain rfl := Except.ok.inj h
        cases hp1 with
        | nothing hinits hqueued => exact .nothing hinits hqueued
        | line fields r hr hinits hqueued => exact .line fields r hr hinits hqueued
    by_cases hfull : p.currField = fieldNum - 1
    · rw [if_pos hfull] at h
      obtain ⟨p1, h1, h⟩ := bind_ok h
      exact hrest p1 (finishLine_logs h1) h
    · rw [if_neg hfull] at h
      exact hrest p (.nothing rfl rfl) h
  · rw [if_neg hnl] at h
    by_cases htab : c = TAB
    · rw [if_pos htab] at h
      unfold scanTab at h
      obtain ⟨p1, h1, h⟩ := bind_ok h
      obtain ⟨p2, h2, h⟩ := bind_ok h
      obtain rfl := Except.ok.inj h
      obtain ⟨hinits, hqueued⟩ := appendField_kept h2
      rw [cutAt_inv h1] at hinits hqueued
      exact .nothing hinits hqueued
    · rw [if_neg htab] at h
      obtain rfl := Except.ok.inj h
      exact .nothing rfl rfl

/-- A handler that queues nothing. -/
theorem Logs.unqueued (h : Logs handle p q)
    (hnone : ∀ line fields r, handle line fields = .ok r → r.queued = none) : q.queued = p.queued := by
  cases h with
  | nothing _ hqueued => exact hqueued
  | line fields r hr _ hqueued =>
      rw [hqueued, hnone _ _ _ hr]
      exact List.append_nil _

theorem Logs.queued (h : Logs handle p q) :
    ∃ written, q.queued = p.queued ++ written ∧ written.length ≤ 1 := by
  cases h with
  | nothing _ hqueued => exact ⟨[], by rw [hqueued, List.append_nil], Nat.zero_le 1⟩
  | line _ r _ _ hqueued => exact ⟨r.queued.toList, hqueued, Option.length_toList_le⟩

end Logs

/-! ## §5. The rest of a round. -/

section Follows

variable {ρ : Type} (mem : ParserMem) (handle : Handler ρ)

/-- What is left of a round of the loop when its scan stands at index `i`. -/
def restOfRound (i : Nat) (p : Parser ρ) : Except Fault (Parser ρ) := do
  let p ← scan mem handle (p.sbuf.endPos + 1 - i) i p
  if p.exited then
    return p
  else
    let sbuf ← sbDeletehead p.sbuf p.lfieldStart
    return { p with sbuf := sbuf, lfieldStart := 0 }

/-- The rounds of the loop, by what the loop head has seen. -/
def rounds (fieldSizes : List Nat) (recvs : List Recv) : Except Fault (Parser ρ) :=
  recvs.foldlM (receive mem handle) (parserInit fieldSizes)

/-- Where a thread stands, seen from the rounds of `receive`. -/
inductive Follows (fieldSizes : List Nat) (t : Thread ρ) : Prop where
  /-- In front of the loop nothing has been received. -/
  | outside (hpc : t.pc = .start ∨ t.pc = .connect) (hrecvs : t.recvs = [])
      (hparser : t.parser = parserInit fieldSizes)
  /-- Between two rounds it stands where the last one ended. -/
  | between (hpc : t.pc = .head ∨ t.pc = .select ∨ t.pc = .recv) (hrun : t.parser.exited = false)
      (hrounds : rounds mem handle fieldSizes t.recvs = .ok t.parser)
  /-- Within a round, finishing it gives what the round gives. -/
  | within (i : Nat) (hpc : t.pc = .scan i) (hle : i ≤ t.parser.sbuf.endPos + 1)
      (hrun : t.parser.exited = false)
      (hrounds : rounds mem handle fieldSizes t.recvs = restOfRound mem handle i t.parser)
  /-- Behind the loop it stands where the last round ended. -/
  | behind (hpc : t.pc = .cleanup ∨ t.pc = .exited)
      (hrounds : rounds mem handle fieldSizes t.recvs = .ok t.parser)
  /-- ... or it has given up within a round, and what it has written is what was written then. -/
  | gaveUp (i : Nat) (p : Parser ρ) (hpc : t.pc = .cleanup ∨ t.pc = .exited)
      (hle : i ≤ p.sbuf.endPos + 1) (hrun : p.exited = false)
      (hrounds : rounds mem handle fieldSizes t.recvs = restOfRound mem handle i p)
      (hqueued : t.parser.queued = p.queued)

end Follows

section FollowsRules

variable {ρ : Type} {mem : ParserMem} {handle : Handler ρ} {p q : Parser ρ} {i : Nat}
  {fieldSizes : List Nat}

/-- A round is its `sb_appendl` and the rest. -/
theorem consume_rest {buf : Bytes} {rlen ret : Nat} {sbuf : StringBuffer}
    (h : sbAppendl mem.sbuf p.sbuf buf rlen = .ok (ret, sbuf)) :
    consume mem handle p buf rlen
      = if ret ≠ 0 then .ok { p with sbuf := sbuf, exited := true }
        else restOfRound mem handle 0 { p with sbuf := sbuf } := by
  unfold consume
  rw [h, ok_bind]
  rfl

/-- One index taken from the rest of a round. -/
theorem restOfRound_step (hle : i ≤ p.sbuf.endPos) (hstep : scanByte mem handle p i = .ok q)
    (hq : q.exited = false) (hi : i ≠ INT_MAX) :
    restOfRound mem handle i p = restOfRound mem handle (i + 1) q := by
  obtain ⟨b, -, hscans⟩ := scanByte_inv hstep hq
  unfold restOfRound
  rw [show p.sbuf.endPos + 1 - i = (p.sbuf.endPos - i) + 1 by omega, DirSurveiller.scan, hstep,
    ok_bind, if_neg (by rw [hq]; decide), if_neg hi, hscans.endPos,
    show p.sbuf.endPos + 1 - (i + 1) = p.sbuf.endPos - i by omega]

/-- Behind the last index only the delete is left. -/
theorem restOfRound_end (hlt : p.sbuf.endPos < i) (hp : p.exited = false) :
    restOfRound mem handle i p = (do
      let sbuf ← sbDeletehead p.sbuf p.lfieldStart
      return { p with sbuf := sbuf, lfieldStart := 0 }) := by
  unfold restOfRound
  rw [show p.sbuf.endPos + 1 - i = 0 by omega, DirSurveiller.scan, ok_bind,
    if_neg (by rw [hp]; decide)]

/-- One more round. -/
theorem rounds_concat {recvs : List Recv} (h : rounds mem handle fieldSizes recvs = .ok p) (r : Recv) :
    rounds mem handle fieldSizes (recvs ++ [r]) = receive mem handle p r := by
  unfold rounds at h ⊢
  rw [List.foldlM_append, h, ok_bind, List.foldlM_cons]
  cases receive mem handle p r with
  | error e => rfl
  | ok q => rfl

end FollowsRules

/-! ## §6. A step. -/

section Step

variable {ρ : Type} {mem : ParserMem} {handle : Bool → Handler ρ} {fieldSizes : List Nat}
  {t t' : Thread ρ} {view : View} {sys : SysAnswer} {effect : Effect ρ}

theorem Thread.initial_follows : Follows mem (handle true) fieldSizes (Thread.initial fieldSizes) :=
  .outside (.inl rfl) rfl rfl

/-- `break` at the loop head is a round that ends the loop. -/
theorem Thread.leave_follows {r : Recv} (hr : r.data = none) (hrun : t.parser.exited = false)
    (h : rounds mem (handle true) fieldSizes t.recvs = .ok t.parser) :
    Follows mem (handle true) fieldSizes (t.leave r) := by
  refine .behind (.inl rfl) ?_
  show rounds mem (handle true) fieldSizes (t.recvs ++ [r]) = _
  rw [rounds_concat h, receive_running mem _ hrun, hr]
  rfl

/-- What `recv` has delivered begins a round, and an append that fails ends it. -/
theorem Thread.append_follows {r : Recv} {buf : Bytes} {rlen : Nat} (hr : r.data = some (buf, rlen))
    (hrun : t.parser.exited = false)
    (h : rounds mem (handle true) fieldSizes t.recvs = .ok t.parser)
    (hstep : t.append mem r buf rlen = .ok t') :
    Follows mem (handle true) fieldSizes t' ∧ t'.parser.queued = t.parser.queued := by
  unfold Thread.append at hstep
  obtain ⟨⟨ret, sbuf⟩, happend, hstep⟩ := bind_ok hstep
  have hround : rounds mem (handle true) fieldSizes (t.recvs ++ [r])
      = consume mem (handle true) t.parser buf rlen := by
    rw [rounds_concat h, receive_running mem _ hrun, hr]
  rw [consume_rest happend] at hround
  by_cases hret : ret ≠ 0
  · replace hstep := (if_pos hret).symm.trans hstep
    obtain rfl := Except.ok.inj hstep
    rw [if_pos hret] at hround
    exact ⟨.behind (.inl rfl) hround, rfl⟩
  · replace hstep := (if_neg hret).symm.trans hstep
    obtain rfl := Except.ok.inj hstep
    rw [if_neg hret] at hround
    exact ⟨.within 0 rfl (Nat.zero_le _) hrun hround, rfl⟩

theorem Thread.recv_follows (hpc : t.pc = .recv) (hrun : t.parser.exited = false)
    (h : rounds mem (handle true) fieldSizes t.recvs = .ok t.parser)
    (hstep : t.recv mem view sys = .ok (t', effect)) :
    Follows mem (handle true) fieldSizes t' ∧ t'.parser.queued = t.parser.queued ++ effect.written := by
  unfold Thread.recv at hstep
  by_cases hfails : sys.fails = true
  · rw [if_pos hfails] at hstep
    obtain ⟨t1, h1, hstep⟩ := bind_ok hstep
    obtain ⟨rfl, rfl⟩ := Prod.mk.inj (Except.ok.inj hstep)
    obtain ⟨hfollows, hqueued⟩ := Thread.append_follows rfl hrun h h1
    exact ⟨hfollows, hqueued.trans (List.append_nil _).symm⟩
  · rw [if_neg hfails] at hstep
    by_cases hempty : view.socket.pending = []
    · rw [if_pos hempty] at hstep
      obtain ⟨rfl, rfl⟩ := Prod.mk.inj (Except.ok.inj hstep)
      by_cases hclosed : view.socket.closed = true
      · rw [if_pos hclosed]
        exact ⟨Thread.leave_follows rfl hrun h, (List.append_nil _).symm⟩
      · -- without data the call blocks
        rw [if_neg hclosed]
        exact ⟨.between (.inr (.inr hpc)) hrun h, (List.append_nil _).symm⟩
    · rw [if_neg hempty] at hstep
      obtain ⟨t1, h1, hstep⟩ := bind_ok hstep
      obtain ⟨rfl, rfl⟩ := Prod.mk.inj (Except.ok.inj hstep)
      obtain ⟨hfollows, hqueued⟩ := Thread.append_follows rfl hrun h h1
      exact ⟨hfollows, hqueued.trans (List.append_nil _).symm⟩

theorem Thread.scan_follows (hroom : RoomHandler handle) {i : Nat} (hpc : t.pc = .scan i)
    (hle : i ≤ t.parser.sbuf.endPos + 1) (hrun : t.parser.exited = false)
    (h : rounds mem (handle true) fieldSizes t.recvs = restOfRound mem (handle true) i t.parser)
    (hstep : t.scan mem handle view i = .ok (t', effect)) :
    Follows mem (handle true) fieldSizes t' ∧ t'.parser.queued = t.parser.queued ++ effect.written := by
  unfold Thread.scan at hstep
  by_cases hin : i ≤ t.parser.sbuf.endPos
  · rw [if_pos hin] at hstep
    obtain ⟨p, hp, hstep⟩ := bind_ok hstep
    by_cases hexit : p.exited = true
    · -- only a queue without room ends the thread here
      have hqueued : p.queued = t.parser.queued := by
        cases hroomv : view.room with
        | true =>
            rw [hroomv] at hp
            exact absurd ((scanByte_room hroom hrun hp).symm.trans hexit) (by decide)
        | false =>
            rw [hroomv] at hp
            exact (scanByte_logs hp).unqueued hroom.none
      rw [if_pos hexit] at hstep
      by_cases htries : t.tries < maxtriesEnqueue
      · rw [if_pos htries] at hstep
        obtain ⟨rfl, rfl⟩ := Prod.mk.inj (Except.ok.inj hstep)
        exact ⟨.within i hpc hle hrun h, (List.append_nil _).symm⟩
      · rw [if_neg htries] at hstep
        obtain ⟨rfl, rfl⟩ := Prod.mk.inj (Except.ok.inj hstep)
        exact ⟨.gaveUp i t.parser (.inl rfl) hle hrun h hqueued,
          hqueued.trans (List.append_nil _).symm⟩
    · have hp' : p.exited = false := by simpa using hexit
      -- a byte that does not end the thread does what it does with room
      have hsame : scanByte mem (handle true) t.parser i = .ok p := by
        cases hroomv : view.room with
        | true =>
            rw [hroomv] at hp
            exact hp
        | false =>
            rw [hroomv] at hp
            rcases scanByte_full hroom mem t.parser i with heq | ⟨q, hq, hqexit⟩
            · rw [← heq]
              exact hp
            · obtain rfl := Except.ok.inj (hq.symm.trans hp)
              exact absurd hqexit hexit
      rw [if_neg hexit] at hstep
      by_cases hmax : i = INT_MAX
      · rw [if_pos hmax] at hstep
        cases hstep
      · rw [if_neg hmax] at hstep
        obtain ⟨rfl, rfl⟩ := Prod.mk.inj (Except.ok.inj hstep)
        obtain ⟨b, -, hscans⟩ := scanByte_inv hsame hp'
        refine ⟨.within (i + 1) rfl ?_ hp' ?_, ?_⟩
        · show i + 1 ≤ p.sbuf.endPos + 1
          rw [hscans.endPos]
          exact Nat.succ_le_succ hin
        · exact h.trans (restOfRound_step hin hsame hp' hmax)
        · obtain ⟨written, hqueued, -⟩ := (scanByte_logs hsame).queued
          show p.queued = t.parser.queued ++ p.queued.drop t.parser.queued.length
          rw [hqueued, List.drop_left]
  · rw [if_neg hin] at hstep
    obtain ⟨sbuf, hsbuf, hstep⟩ := bind_ok hstep
    obtain ⟨rfl, rfl⟩ := Prod.mk.inj (Except.ok.inj hstep)
    refine ⟨.between (.inl rfl) hrun ?_, (List.append_nil _).symm⟩
    rw [h, restOfRound_end (Nat.lt_of_not_le hin) hrun, hsbuf]
    rfl

/-- **A step keeps a thread in step with the rounds**, and what it writes to the queue is what the
history of the parser gains. -/
theorem threadStep_follows (hroom : RoomHandler handle) (h : Follows mem (handle true) fieldSizes t)
    (hstep : threadStep mem handle view sys t = .ok (t', effect)) :
    Follows mem (handle true) fieldSizes t'
      ∧ t'.parser.queued = t.parser.queued ++ effect.written := by
  unfold threadStep at hstep
  cases h with
  | outside hpc hrecvs hparser =>
      have hrounds : rounds mem (handle true) fieldSizes t.recvs = .ok t.parser := by
        rw [hrecvs, hparser]
        rfl
      rcases hpc with hpc | hpc
      · rw [hpc] at hstep
        obtain hstep := Except.ok.inj hstep
        by_cases hfails : sys.fails = true
        · rw [if_pos hfails] at hstep
          obtain ⟨rfl, rfl⟩ := Prod.mk.inj hstep
          exact ⟨.behind (.inr rfl) hrounds, (List.append_nil _).symm⟩
        · rw [if_neg hfails] at hstep
          obtain ⟨rfl, rfl⟩ := Prod.mk.inj hstep
          exact ⟨.outside (.inr rfl) hrecvs hparser, (List.append_nil _).symm⟩
      · rw [hpc] at hstep
        obtain ⟨rfl, rfl⟩ := Prod.mk.inj (Except.ok.inj hstep)
        refine ⟨?_, (List.append_nil _).symm⟩
        by_cases hfails : sys.fails = true
        · exact .behind (.inl (if_pos hfails)) hrounds
        · refine .between (.inl (if_neg hfails)) ?_ hrounds
          show t.parser.exited = false
          rw [hparser]
          rfl
  | between hpc hrun hrounds =>
      rcases hpc with hpc | hpc | hpc
      · rw [hpc] at hstep
        obtain ⟨rfl, rfl⟩ := Prod.mk.inj (Except.ok.inj hstep)
        by_cases hshutting : view.shuttingDown = true
        · rw [if_pos hshutting]
          exact ⟨Thread.leave_follows rfl hrun hrounds, (List.append_nil _).symm⟩
        · rw [if_neg hshutting]
          exact ⟨.between (.inr (.inl rfl)) hrun hrounds, (List.append_nil _).symm⟩
      · rw [hpc] at hstep
        obtain ⟨rfl, rfl⟩ := Prod.mk.inj (Except.ok.inj hstep)
        unfold Thread.select
        dsimp only
        split
        · exact ⟨Thread.leave_follows rfl hrun hrounds, (List.append_nil _).symm⟩
        · split
          · exact ⟨.between (.inr (.inr rfl)) hrun hrounds, (List.append_nil _).symm⟩
          · exact ⟨.between (.inr (.inl hpc)) hrun hrounds, (List.append_nil _).symm⟩
      · rw [hpc] at hstep
        exact Thread.recv_follows hpc hrun hrounds hstep
  | within i hpc hle hrun hrounds =>
      rw [hpc] at hstep
      exact Thread.scan_follows hroom hpc hle hrun hrounds hstep
  | behind hpc hrounds =>
      rcases hpc with hpc | hpc
      · rw [hpc] at hstep
        obtain ⟨rfl, rfl⟩ := Prod.mk.inj (Except.ok.inj hstep)
        exact ⟨.behind (.inr rfl) hrounds, (List.append_nil _).symm⟩
      · rw [hpc] at hstep
        obtain ⟨rfl, rfl⟩ := Prod.mk.inj (Except.ok.inj hstep)
        exact ⟨.behind (.inr hpc) hrounds, (List.append_nil _).symm⟩
  | gaveUp i p hpc hle hrun hrounds hqueued =>
      rcases hpc with hpc | hpc
      · rw [hpc] at hstep
        obtain ⟨rfl, rfl⟩ := Prod.mk.inj (Except.ok.inj hstep)
        exact ⟨.gaveUp i p (.inr rfl) hle hrun hrounds hqueued, (List.append_nil _).symm⟩
      · rw [hpc] at hstep
        obtain ⟨rfl, rfl⟩ := Prod.mk.inj (Except.ok.inj hstep)
        exact ⟨.gaveUp i p (.inr hpc) hle hrun hrounds hqueued, (List.append_nil _).symm⟩

/-- **A run keeps a thread in step with the rounds**, whatever it sees. -/
theorem threadRun_follows (hroom : RoomHandler handle) {inputs : List (View × SysAnswer)}
    (h : Follows mem (handle true) fieldSizes t) (hrun : threadRun mem handle t inputs = .ok t') :
    Follows mem (handle true) fieldSizes t' := by
  refine run_induction (P := fun _ s => Follows mem (handle true) fieldSizes s) h ?_ hrun
  intro is input m m' _ hm hstep
  obtain ⟨⟨m1, effect⟩, hm1, hstep⟩ := bind_ok hstep
  obtain rfl := Except.ok.inj hstep
  exact (threadStep_follows hroom hm hm1).1

end Step

/-! ## §7. What a step does to others. -/

/-- Before its flag is set, while it is set, and after it has been cleared. -/
def ThreadPc.stage : ThreadPc → Nat
  | .start => 0
  | .exited => 2
  | _ => 1

/-- What a step does, by its effect on the state that is shared. -/
inductive Acts {ρ : Type} (view : View) (sys : SysAnswer) (t t' : Thread ρ) : Effect ρ → Prop where
  | quiet (hpc : t.pc ≠ .cleanup) (hstage : t'.pc.stage = t.pc.stage) (hrecvs : t'.recvs = t.recvs) :
      Acts view sys t t' .quiet
  /-- The loop is left at its head. -/
  | leaves (r : Recv) (hr : r = .leave ∨ r = .closed)
      (hpc : t.pc = .head ∨ t.pc = .select ∨ t.pc = .recv) (hpc' : t'.pc = .cleanup)
      (hrecvs : t'.recvs = t.recvs ++ [r]) : Acts view sys t t' .quiet
  | failed (hpc : t.pc = .recv) (hfails : sys.fails = true) (hstage : t'.pc.stage = 1)
      (hrecvs : t'.recvs = t.recvs ++ [.failed]) : Acts view sys t t' .quiet
  | takes (bytes : Bytes) (hpc : t.pc = .recv) (hstage : t'.pc.stage = 1) (hlen : bytes.length ≤ 256)
      (hpre : bytes <+: view.socket.pending) (hrecvs : t'.recvs = t.recvs ++ [.chunk bytes]) :
      Acts view sys t t' (.take bytes.length)
  | started (hpc : t.pc = .start) (hpc' : t'.pc = .connect) (hrecvs : t'.recvs = t.recvs) :
      Acts view sys t t' (.setFlag true)
  | stopped (hpc : t.pc = .start ∨ t.pc = .cleanup) (hpc' : t'.pc = .exited)
      (hrecvs : t'.recvs = t.recvs) : Acts view sys t t' (.setFlag false)
  | writes (objects : List ρ) (i : Nat) (hpc : t.pc = .scan i) (hpc' : t'.pc = .scan (i + 1))
      (hrecvs : t'.recvs = t.recvs) (hone : objects.length ≤ 1)
      (hroom : objects ≠ [] → view.room = true) : Acts view sys t t' (.write objects)

section Acts

variable {ρ : Type} {mem : ParserMem} {handle : Bool → Handler ρ} {t t' : Thread ρ} {view : View}
  {sys : SysAnswer} {effect : Effect ρ}

theorem Thread.append_recvs {r : Recv} {buf : Bytes} {rlen : Nat}
    (h : t.append mem r buf rlen = .ok t') : t'.recvs = t.recvs ++ [r] ∧ t'.pc.stage = 1 := by
  unfold Thread.append at h
  obtain ⟨⟨ret, sbuf⟩, -, h⟩ := bind_ok h
  by_cases hret : ret ≠ 0
  · replace h := (if_pos hret).symm.trans h
    obtain rfl := Except.ok.inj h
    exact ⟨rfl, rfl⟩
  · replace h := (if_neg hret).symm.trans h
    obtain rfl := Except.ok.inj h
    exact ⟨rfl, rfl⟩

theorem Thread.recv_acts (hpc : t.pc = .recv) (h : t.recv mem view sys = .ok (t', effect)) :
    Acts view sys t t' effect := by
  unfold Thread.recv at h
  by_cases hfails : sys.fails = true
  · rw [if_pos hfails] at h
    obtain ⟨t1, h1, h⟩ := bind_ok h
    obtain ⟨rfl, rfl⟩ := Prod.mk.inj (Except.ok.inj h)
    obtain ⟨hrecvs, hstage'⟩ := Thread.append_recvs h1
    exact .failed hpc hfails hstage' hrecvs
  · rw [if_neg hfails] at h
    by_cases hempty : view.socket.pending = []
    · rw [if_pos hempty] at h
      obtain ⟨rfl, rfl⟩ := Prod.mk.inj (Except.ok.inj h)
      by_cases hclosed : view.socket.closed = true
      · rw [if_pos hclosed]
        exact .leaves .closed (.inr rfl) (.inr (.inr hpc)) rfl rfl
      · rw [if_neg hclosed]
        exact .quiet (by rw [hpc]; decide) rfl rfl
    · rw [if_neg hempty] at h
      obtain ⟨t1, h1, h⟩ := bind_ok h
      obtain ⟨rfl, rfl⟩ := Prod.mk.inj (Except.ok.inj h)
      obtain ⟨hrecvs, hstage'⟩ := Thread.append_recvs h1
      refine .takes _ hpc hstage' ?_ (List.take_prefix _ _) hrecvs
      unfold SysAnswer.chunk
      rw [List.length_take]
      omega

theorem Thread.scan_acts (hroom : RoomHandler handle) {i : Nat} (hpc : t.pc = .scan i)
    (h : t.scan mem handle view i = .ok (t', effect)) : Acts view sys t t' effect := by
  have hstage : t.pc.stage = 1 ∧ t.pc ≠ .cleanup := by
    rw [hpc]
    exact ⟨rfl, by simp⟩
  unfold Thread.scan at h
  by_cases hin : i ≤ t.parser.sbuf.endPos
  · rw [if_pos hin] at h
    obtain ⟨p, hp, h⟩ := bind_ok h
    by_cases hexit : p.exited = true
    · rw [if_pos hexit] at h
      by_cases htries : t.tries < maxtriesEnqueue
      · rw [if_pos htries] at h
        obtain ⟨rfl, rfl⟩ := Prod.mk.inj (Except.ok.inj h)
        exact .quiet hstage.2 rfl rfl
      · rw [if_neg htries] at h
        obtain ⟨rfl, rfl⟩ := Prod.mk.inj (Except.ok.inj h)
        exact .quiet hstage.2 hstage.1.symm rfl
    · rw [if_neg hexit] at h
      by_cases hmax : i = INT_MAX
      · rw [if_pos hmax] at h
        cases h
      · rw [if_neg hmax] at h
        obtain ⟨rfl, rfl⟩ := Prod.mk.inj (Except.ok.inj h)
        obtain ⟨written, hqueued, hone⟩ := (scanByte_logs hp).queued
        refine .writes _ i hpc rfl rfl ?_ fun hne => ?_
        · rw [hqueued, List.drop_left]
          exact hone
        · -- what is written has found room
          cases hroomv : view.room with
          | true => rfl
          | false =>
              rw [hroomv] at hp
              rw [(scanByte_logs hp).unqueued hroom.none, List.drop_length] at hne
              exact absurd rfl hne
  · rw [if_neg hin] at h
    obtain ⟨sbuf, -, h⟩ := bind_ok h
    obtain ⟨rfl, rfl⟩ := Prod.mk.inj (Except.ok.inj h)
    exact .quiet hstage.2 hstage.1.symm rfl

/-- **What a step can do to others.** -/
theorem threadStep_acts (hroom : RoomHandler handle)
    (h : threadStep mem handle view sys t = .ok (t', effect)) : Acts view sys t t' effect := by
  unfold threadStep at h
  cases hpc : t.pc with
  | start =>
      rw [hpc] at h
      obtain h := Except.ok.inj h
      by_cases hfails : sys.fails = true
      · rw [if_pos hfails] at h
        obtain ⟨rfl, rfl⟩ := Prod.mk.inj h
        exact .stopped (.inl hpc) rfl rfl
      · rw [if_neg hfails] at h
        obtain ⟨rfl, rfl⟩ := Prod.mk.inj h
        exact .started hpc rfl rfl
  | connect =>
      rw [hpc] at h
      obtain ⟨rfl, rfl⟩ := Prod.mk.inj (Except.ok.inj h)
      refine .quiet (by rw [hpc]; decide) ?_ rfl
      show (if sys.fails = true then ThreadPc.cleanup else .head).stage = t.pc.stage
      rw [hpc]
      split <;> rfl
  | head =>
      rw [hpc] at h
      obtain ⟨rfl, rfl⟩ := Prod.mk.inj (Except.ok.inj h)
      split
      · exact .leaves .leave (.inl rfl) (.inl hpc) rfl rfl
      · exact .quiet (by rw [hpc]; decide) (by rw [hpc]; rfl) rfl
  | select =>
      rw [hpc] at h
      obtain ⟨rfl, rfl⟩ := Prod.mk.inj (Except.ok.inj h)
      unfold Thread.select
      dsimp only
      split
      · exact .leaves .leave (.inl rfl) (.inr (.inl hpc)) rfl rfl
      · split
        · exact .quiet (by rw [hpc]; decide) (by rw [hpc]; rfl) rfl
        · exact .quiet (by rw [hpc]; decide) rfl rfl
  | recv =>
      rw [hpc] at h
      exact Thread.recv_acts hpc h
  | scan i =>
      rw [hpc] at h
      exact Thread.scan_acts hroom hpc h
  | cleanup =>
      rw [hpc] at h
      obtain ⟨rfl, rfl⟩ := Prod.mk.inj (Except.ok.inj h)
      exact .stopped (.inr hpc) rfl rfl
  | exited =>
      rw [hpc] at h
      obtain ⟨rfl, rfl⟩ := Prod.mk.inj (Except.ok.inj h)
      exact .quiet (by rw [hpc]; decide) rfl rfl

end Acts

/-! ## §8. What the queue has been given. -/

section Queued

variable {ρ : Type} {mem : ParserMem} {handle : Handler ρ} {p q : Parser ρ} {t : Thread ρ}
  {fieldSizes : List Nat}

theorem Logs.grows {i : Nat} (h : scanByte mem handle p i = .ok q) : p.queued <+: q.queued := by
  obtain ⟨written, hqueued, -⟩ := (scanByte_logs h).queued
  rw [hqueued]
  exact List.prefix_append _ _

theorem scan_grows : ∀ {left i : Nat} {p q : Parser ρ}, scan mem handle left i p = .ok q →
    p.queued <+: q.queued := by
  intro left
  induction left with
  | zero =>
      intro i p q h
      obtain rfl := Except.ok.inj h
      exact List.prefix_refl _
  | succ left ih =>
      intro i p q h
      rw [scan] at h
      obtain ⟨p1, h1, h⟩ := bind_ok h
      have hfirst := Logs.grows h1
      by_cases hexit : p1.exited = true
      · rw [if_pos hexit] at h
        obtain rfl := Except.ok.inj h
        exact hfirst
      · rw [if_neg hexit] at h
        by_cases hmax : i = INT_MAX
        · rw [if_pos hmax] at h
          cases h
        · rw [if_neg hmax] at h
          exact hfirst.trans (ih h)

theorem restOfRound_grows {i : Nat} (h : restOfRound mem handle i p = .ok q) :
    p.queued <+: q.queued := by
  unfold restOfRound at h
  obtain ⟨p1, h1, h⟩ := bind_ok h
  have hscan := scan_grows h1
  by_cases hexit : p1.exited = true
  · rw [if_pos hexit] at h
    obtain rfl := Except.ok.inj h
    exact hscan
  · rw [if_neg hexit] at h
    obtain ⟨sbuf, -, h⟩ := bind_ok h
    obtain rfl := Except.ok.inj h
    exact hscan

/-- What a thread has written are the first of the objects that the rounds write. -/
theorem Follows.grows (h : Follows mem handle fieldSizes t)
    (hrounds : rounds mem handle fieldSizes t.recvs = .ok q) : t.parser.queued <+: q.queued := by
  cases h with
  | outside hpc hrecvs hparser =>
      rw [hparser]
      exact List.nil_prefix
  | between hpc hrun h =>
      obtain rfl := Except.ok.inj (h.symm.trans hrounds)
      exact List.prefix_refl _
  | within i hpc hle hrun h => exact restOfRound_grows (h.symm.trans hrounds)
  | behind hpc h =>
      obtain rfl := Except.ok.inj (h.symm.trans hrounds)
      exact List.prefix_refl _
  | gaveUp i p hpc hle hrun h hqueued =>
      rw [hqueued]
      exact restOfRound_grows (h.symm.trans hrounds)

end Queued

/-! ## §9. The two threads. -/

/-- The handler of the execCall thread, by whether `commandQueue` has room. -/
def execHandler (env : ParserEnv) (fresh : Nat → ExecCall) (room : Bool) : Handler ExecCall :=
  handleExecLine { env with accepts := fun _ => room } fresh

/-- The handler of the openCall thread, by whether `openQueue` has room.  The file system and the
filter may answer each line differently. -/
def openHandler (env : ParserEnv) (stat : Nat → Bytes → Option Nat) (filter : Nat → Bytes → Bool)
    (room : Bool) : Handler OpenCall := fun line =>
  handleOpenLine { env with accepts := fun _ => room } (stat line) (filter line) line

/-- A line whose object finds no room. -/
def Handled.refuse {ρ : Type} (r : Handled ρ) : Handled ρ :=
  if r.queued.isSome then { r with queued := none, refused := true } else r

/-- It is enough that a handler is refused exactly where it would have queued an object. -/
theorem RoomHandler.of_refuse {ρ : Type} {handle : Bool → Handler ρ}
    (hroom : ∀ line fields r, handle true line fields = .ok r → r.refused = false)
    (hfull : ∀ line fields, handle false line fields = (handle true line fields).map Handled.refuse) :
    RoomHandler handle := by
  refine ⟨hroom, fun line fields => ?_, fun line fields r h => ?_⟩
  · rw [hfull]
    cases handle true line fields with
    | error e => exact .inl rfl
    | ok r =>
        cases hqueued : r.queued.isSome with
        | true => exact .inr ⟨r.refuse, rfl, by rw [Handled.refuse, hqueued]; rfl⟩
        | false =>
            refine .inl ?_
            show Except.ok r.refuse = Except.ok r
            rw [Handled.refuse, hqueued]
            rfl
  · rw [hfull] at h
    obtain ⟨r', -, rfl⟩ := map_ok h
    unfold Handled.refuse
    cases hqueued : r'.queued with
    | none => exact hqueued
    | some x => rfl

theorem execHandler_room (env : ParserEnv) (fresh : Nat → ExecCall) :
    RoomHandler (execHandler env fresh) := by
  refine .of_refuse (fun line fields r h => ?_) fun line fields => ?_
  · unfold execHandler handleExecLine at h
    split at h
    next oTime cmd pid ppid args =>
      by_cases hmalloc : env.malloc line = true
      · replace h := (if_pos hmalloc).symm.trans h
        obtain ⟨⟨ret, eCall, oTime'⟩, -, h⟩ := bind_ok h
        by_cases hret : ret = 1 ∨ ret = 2
        · replace h := (if_pos hret).symm.trans h
          obtain rfl := Except.ok.inj h
          rfl
        · replace h := (if_neg hret).symm.trans h
          obtain rfl := Except.ok.inj h
          rfl
      · replace h := (if_neg hmalloc).symm.trans h
        cases h
    · cases h
  · unfold execHandler handleExecLine
    split
    next oTime cmd pid ppid args =>
      by_cases hmalloc : env.malloc line = true
      · simp only [if_pos hmalloc]
        cases hinit : execCallInit (env.alloc line) (fresh line) oTime cmd pid ppid args with
        | error e => rfl
        | ok made =>
            obtain ⟨ret, eCall, oTime'⟩ := made
            simp only [ok_bind]
            by_cases hret : ret = 1 ∨ ret = 2
            · simp only [if_pos hret]
              rfl
            · simp only [if_neg hret]
              rfl
      · simp only [if_neg hmalloc]
        rfl
    · rfl

theorem openHandler_room (env : ParserEnv) (stat : Nat → Bytes → Option Nat)
    (filter : Nat → Bytes → Bool) : RoomHandler (openHandler env stat filter) := by
  refine .of_refuse (fun line fields r h => ?_) fun line fields => ?_
  · unfold openHandler handleOpenLine at h
    split at h
    next oTime cmd pid rval path =>
      by_cases hmalloc : env.malloc line = true
      · replace h := (if_pos hmalloc).symm.trans h
        obtain ⟨⟨ret, oCall, oTime'⟩, -, h⟩ := bind_ok h
        by_cases hret : ret = 1 ∨ ret = 2
        · replace h := (if_pos hret).symm.trans h
          obtain rfl := Except.ok.inj h
          rfl
        · replace h := (if_neg hret).symm.trans h
          by_cases hfilter : filter line oCall.filepath = true
          · replace h := (if_pos hfilter).symm.trans h
            obtain rfl := Except.ok.inj h
            rfl
          · replace h := (if_neg hfilter).symm.trans h
            obtain rfl := Except.ok.inj h
            rfl
      · replace h := (if_neg hmalloc).symm.trans h
        cases h
    · cases h
  · unfold openHandler handleOpenLine
    split
    next oTime cmd pid rval path =>
      by_cases hmalloc : env.malloc line = true
      · simp only [if_pos hmalloc]
        cases hinit : openCallInit (env.alloc line) (stat line)
            OpenCall.zero oTime cmd pid rval path with
        | error e => rfl
        | ok made =>
            obtain ⟨ret, oCall, oTime'⟩ := made
            simp only [ok_bind]
            by_cases hret : ret = 1 ∨ ret = 2
            · simp only [if_pos hret]
              rfl
            · simp only [if_neg hret]
              by_cases hfilter : filter line oCall.filepath = true
              · simp only [if_pos hfilter]
                rfl
              · simp only [if_neg hfilter]
                rfl
      · simp only [if_neg hmalloc]
        rfl
    · rfl

/-- **The threads keep in step with the rounds of the receive loop**, whatever they see at each of their
accesses. -/
theorem threads_follow (mem : ParserMem) (env : ParserEnv) (fresh : Nat → ExecCall)
    (stat : Nat → Bytes → Option Nat) (filter : Nat → Bytes → Bool) (inputs : List (View × SysAnswer)) :
    (∀ t, threadRun mem (execHandler env fresh) (.initial execFieldSizes) inputs = .ok t →
      Follows mem (execHandler env fresh true) execFieldSizes t)
    ∧ ∀ t, threadRun mem (openHandler env stat filter) (.initial openFieldSizes) inputs = .ok t →
      Follows mem (openHandler env stat filter true) openFieldSizes t :=
  ⟨fun _ => threadRun_follows (execHandler_room env fresh) Thread.initial_follows,
    fun _ => threadRun_follows (openHandler_room env stat filter) Thread.initial_follows⟩

/-- A thread that finds the same three bytes whenever it looks. -/
theorem threads_follow_sample : ∃ t,
    threadRun .zeroing (execHandler .granting fun _ => ExecCall.zero) (.initial execFieldSizes)
        (List.replicate 7 (⟨false, ⟨[97, 9, 98], false, [97, 9, 98]⟩, false, true⟩, ⟨false, 3⟩)) = .ok t
      ∧ t.pc = .scan 2
      ∧ Follows .zeroing (execHandler .granting (fun _ => ExecCall.zero) true) execFieldSizes t := by
  have hmap : (threadRun .zeroing (execHandler .granting fun _ => ExecCall.zero)
    (.initial execFieldSizes)
      (List.replicate 7 (⟨false, ⟨[97, 9, 98], false, [97, 9, 98]⟩, false, true⟩, ⟨false, 3⟩))).map
        Thread.pc = .ok (.scan 2) := by decide +kernel
  obtain ⟨t, hrun, hpc⟩ := map_ok hmap
  exact ⟨t, hrun, hpc, (threads_follow _ _ _ (fun _ _ => none) (fun _ _ => true) _).1 t hrun⟩

end DirSurveiller
