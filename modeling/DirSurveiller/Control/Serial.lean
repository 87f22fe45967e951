/-
  DirSurveiller.Control.Serial — every client is answered as if the requests came one at a time.

  All clients share two buffers, and what a client has sent is read as it comes.  If every client
  waits for the answer to a request before it sends the next one, and hangs up only when it has read
  all its answers, this does no harm: there is one history of requests, handled one after the other,
  and each client is told what the history tells it.

  Main results:
    * `handle_tail`                — what was in the buffer before a request does not matter,
    * `ControlSystem.Serving.step` — what every step of the thread and of its clients keeps,
    * `served_serially`            — the history.
-/
import DirSurveiller.Control.Server

namespace DirSurveiller

open CMachine Outcome

/-! ## §1. Requests. -/

/-- What `watchdog_ctrl` may write: a string with its NUL that has a command, and an argument that
leaves room for the words around it. -/
structure IsRequest (block : Bytes) : Prop where
  fits : block.length ≤ accessSize
  string : ∃ text, block = withNul text ∧ (0 : UInt8) ∉ text ∧ ∀ env, Answerable env text

theorem IsRequest.ne_nil {block : Bytes} (h : IsRequest block) : block ≠ [] := by
  obtain ⟨text, rfl, -, -⟩ := h.string
  exact List.append_ne_nil_of_right_ne_nil _ (List.cons_ne_nil _ _)

/-- A text for `status_msg`; `ReachedStatus.fits` says that the daemon has no other. -/
def StatusFits (msg : Bytes) : Prop := msg.length < statusSize ∧ (0 : UInt8) ∉ msg

instance (msg : Bytes) : Decidable (StatusFits msg) := inferInstanceAs (Decidable (_ ∧ _))

section Handle

variable {env : ControlEnv} {this this' : Control} {text tail request answer : Bytes}

/-- **What was in the buffer before does not matter.** -/
theorem handle_tail (hnul : (0 : UInt8) ∉ text) :
    survHandleRequest env this (text ++ 0 :: tail) = survHandleRequest env this (withNul text) := by
  unfold survHandleRequest withNul
  rw [recognise_eq hnul, recognise_eq hnul]

theorem returned {m : Except Fault Bytes}
    (h : (do return (this, ← m)) = Except.ok (this', answer)) : this' = this := by
  obtain ⟨a, -, h⟩ := bind_ok h
  exact (Prod.mk.inj (Except.ok.inj h)).1.symm

/-- A request does not change the status text. -/
theorem handle_status (h : survHandleRequest env this request = .ok (this', answer)) :
    this'.statusMsg = this.statusMsg := by
  unfold survHandleRequest at h
  obtain ⟨⟨command, args⟩, -, h⟩ := bind_ok h
  cases command with
  | none => cases h
  | some command =>
      dsimp only at h
      -- in each branch an answer is printed; two of them change another field
      repeat' split at h
      all_goals rw [returned h]

theorem strtok_length {delim : UInt8} {block block' : Bytes} {pos next : Nat} {start : Option Nat}
    (h : strtok delim block pos = .ok (start, block', next)) : block'.length = block.length := by
  rcases strtok_writes h with rfl | ⟨k, -, rfl⟩
  · rfl
  · exact List.length_set

/-- What was recognised was cut, and is as long as before. -/
theorem cutRequest_ok (h : survHandleRequest env this request = .ok (this', answer)) :
    ∃ cut, cutRequest request = .ok cut ∧ cut.length = request.length := by
  unfold survHandleRequest at h
  obtain ⟨p, hrec, -⟩ := bind_ok h
  unfold recognise at hrec
  obtain ⟨⟨start, block, next⟩, hfirst, hrec⟩ := bind_ok hrec
  obtain ⟨⟨start', block', next'⟩, hsecond, -⟩ := bind_ok hrec
  refine ⟨block', ?_, (strtok_length hsecond).trans (strtok_length hfirst)⟩
  unfold cutRequest
  rw [hfirst, ok_bind]
  dsimp only
  rw [hsecond]
  rfl

variable {block : Bytes}

/-- A request is answered, by a string. -/
theorem IsRequest.answered (h : IsRequest block) (hstatus : StatusFits this.statusMsg)
    (hkill : -2 ^ 31 ≤ env.kill ∧ env.kill < 2 ^ 31) : AnswersSafely env this block := by
  obtain ⟨text, rfl, hnul, hanswerable⟩ := h.string
  obtain ⟨command, more, hfirst, hfits⟩ := hanswerable env
  exact (answered_command hstatus hkill hnul hfirst).mpr hfits

/-- A request is handled alike in front of whatever was in the buffer. -/
theorem IsRequest.handle_append (h : IsRequest block) (rest : Bytes) :
    survHandleRequest env this (block ++ rest) = survHandleRequest env this block := by
  obtain ⟨text, rfl, hnul, -⟩ := h.string
  show survHandleRequest env this ((text ++ [0]) ++ rest) = _
  rw [List.append_assoc]
  exact handle_tail hnul

/-- A request is read as a whole. -/
theorem IsRequest.readInto (h : IsRequest block) (prior : Bytes) :
    readInto prior block = block ++ prior.drop block.length := by
  unfold DirSurveiller.readInto
  rw [List.take_of_length_le h.fits]

theorem readInto_length {prior : Bytes} (h : prior.length = accessSize) :
    (readInto prior block).length = accessSize := by
  unfold readInto
  rw [List.length_append, List.length_drop, List.length_take, h]
  omega

end Handle

/-! ## §2. A server without clients. -/

/-- The history is one of requests that are handled one at a time, from the state `this` of the
daemon on, and the second state is the one after it. -/
inductive Serially (this : Control) : List Served → Control → Prop where
  | start : Serially this [] this
  | request {h : List Served} {now next : Control} (env : ControlEnv) (c : Nat)
      {block answer : Bytes} :
      Serially this h now → survHandleRequest env now block = .ok (next, answer) →
      Serially this (h ++ [.request c block answer]) next
  | shutDown {h : List Served} {now : Control} :
      Serially this h now → Serially this (h ++ [.shutDown]) { now with shuttingDown := true }
  | status {h : List Served} {now : Control} (msg : Bytes) :
      Serially this h now → Serially this (h ++ [.status msg]) { now with statusMsg := msg }

/-- The request of a client that an entry is about. -/
def Served.requestOf (c : Nat) : Served → List Bytes
  | .request c' block _ => if c' = c then [block] else []
  | _ => []

/-- The answer to a client that an entry is about, with its NUL. -/
def Served.answerOf (c : Nat) : Served → Bytes
  | .request c' _ answer | .again c' answer => if c' = c then withNul answer else []
  | _ => []

def requestsOf (c : Nat) (h : List Served) : List Bytes := h.flatMap (Served.requestOf c)

def answersOf (c : Nat) (h : List Served) : Bytes := h.flatMap (Served.answerOf c)

section History

variable {c d : Nat} {h : List Served} {entry : Served} {block answer : Bytes}

@[simp] theorem requestOf_self : (Served.request c block answer).requestOf c = [block] := if_pos rfl

@[simp] theorem answerOf_self : (Served.request c block answer).answerOf c = withNul answer :=
  if_pos rfl

theorem requestOf_other (hd : c ≠ d) : (Served.request c block answer).requestOf d = [] := if_neg hd

theorem answerOf_other (hd : c ≠ d) : (Served.request c block answer).answerOf d = [] := if_neg hd

theorem requestsOf_concat : requestsOf c (h ++ [entry]) = requestsOf c h ++ entry.requestOf c := by
  unfold requestsOf
  rw [List.flatMap_append, List.flatMap_singleton]

theorem answersOf_concat : answersOf c (h ++ [entry]) = answersOf c h ++ entry.answerOf c := by
  unfold answersOf
  rw [List.flatMap_append, List.flatMap_singleton]

theorem Served.answerOf_ended (entry : Served) :
    entry.answerOf c = [] ∨ ∃ answer, entry.answerOf c = withNul answer := by
  cases entry with
  | request c' block answer | again c' answer =>
      by_cases hc : c' = c
      · exact .inr ⟨answer, if_pos hc⟩
      · exact .inl (if_neg hc)
  | shutDown | status => exact .inl rfl

/-- What a client is told ends with a NUL, so no NUL-free piece is left at its end. -/
theorem answersOf_suffix {rest : Bytes} (hrest : (0 : UInt8) ∉ rest)
    (hend : rest <:+ answersOf c h) : rest = [] := by
  induction h using List.reverseRecOn with
  | nil => exact List.suffix_nil.mp hend
  | append_singleton h entry ih =>
      rw [answersOf_concat] at hend
      rcases entry.answerOf_ended (c := c) with hnone | ⟨answer, hsome⟩
      · rw [hnone, List.append_nil] at hend
        exact ih hend
      · rw [hsome, withNul, ← List.append_assoc] at hend
        rcases List.suffix_concat_iff.mp hend with hnil | ⟨t, rfl, -⟩
        · exact hnil
        · exact absurd (List.mem_append_right _ (List.mem_singleton.mpr rfl)) hrest

end History

/-! ## §3. The connection of a client. -/

/-- What the thread has in hand for a client: a request that it has read, or the answer to one. -/
inductive InHand where
  | nothing
  | request (block : Bytes)
  | answer (text : Bytes)

def InHand.requests : InHand → List Bytes
  | .request block => [block]
  | _ => []

/-- What has to be written. -/
def InHand.due : InHand → Bytes
  | .answer text => withNul text
  | _ => []

/-- The request that waits on the connection. -/
def Peer.waiting (p : Peer) : List Bytes := if p.unread = [] then [] else [p.unread]

/-- The client has read the answer to each of its requests. -/
def Peer.Answered (p : Peer) : Prop := p.received.count 0 = p.sent.length

instance (p : Peer) : Decidable p.Answered := inferInstanceAs (Decidable (_ = _))

/-- The connection of a client, by what the thread has in hand for it; `asked` and `told` are the
requests and answers of the history. -/
structure Channel (p : Peer) (hand : InHand) (asked : List Bytes) (told : Bytes) : Prop where
  requests : p.sent = asked ++ hand.requests ++ p.waiting
  answers : told = p.received ++ p.answers ++ hand.due
  alone : hand ≠ .nothing → p.unread = []
  request : p.unread ≠ [] → IsRequest p.unread
  whole : p.reset = false
  gone : p.closed = true → hand = .nothing ∧ p.unread = [] ∧ p.answers = []

section Channel

variable {p : Peer} {hand : InHand} {asked : List Bytes} {told block answer : Bytes}

theorem Channel.stranger : Channel Peer.stranger .nothing [] [] :=
  ⟨rfl, rfl, fun h => absurd rfl h, fun h => absurd rfl h, rfl, fun h => Bool.noConfusion h⟩

theorem Channel.connect (h : Channel p hand asked told) : Channel p.connect hand asked told :=
  ⟨h.requests, h.answers, h.alone, h.request, h.whole, h.gone⟩

/-- **A client that has all its answers** has nothing under way. -/
theorem Channel.idle (h : Channel p hand asked told) (hcounted : told.count 0 = asked.length)
    (hanswered : p.Answered) : hand = .nothing ∧ p.unread = [] ∧ (0 : UInt8) ∉ p.answers := by
  have hsent : p.sent.length = asked.length + hand.requests.length + p.waiting.length := by
    rw [h.requests, List.length_append, List.length_append]
  have htold : told.count 0 = p.received.count 0 + p.answers.count 0 + hand.due.count 0 := by
    rw [h.answers, List.count_append, List.count_append]
  have heven : p.received.count 0 = p.sent.length := hanswered
  have hunread : p.waiting.length = 0 → p.unread = [] := by
    unfold Peer.waiting
    intro hlen
    by_contra hne
    rw [if_neg hne] at hlen
    cases hlen
  cases hand with
  | nothing =>
      have hrequests : InHand.nothing.requests.length = 0 := rfl
      exact ⟨rfl, hunread (by omega), List.count_eq_zero.mp (by omega)⟩
  | request block =>
      have hrequests : (InHand.request block).requests.length = 1 := rfl
      omega
  | answer text =>
      have hdue : 0 < (InHand.answer text).due.count 0 :=
        List.count_pos_iff.mpr (List.mem_append_right _ (List.mem_singleton.mpr rfl))
      omega

/-- The client sends its next request. -/
theorem Channel.send (h : Channel p .nothing asked told) (hunread : p.unread = [])
    (hblock : IsRequest block) : Channel (p.send block) .nothing asked told := by
  unfold Peer.send
  split
  · next hopen =>
      have hclosed : p.closed = false := by
        rw [Peer.isOpen, Bool.and_eq_true, Bool.not_eq_true'] at hopen
        exact hopen.2
      have hrequests := h.requests
      unfold Peer.waiting at hrequests
      rw [if_pos hunread, List.append_nil] at hrequests
      refine ⟨?_, h.answers, fun h => absurd rfl h, fun _ => ?_, h.whole, fun hc => ?_⟩
      · show p.sent ++ [block]
          = asked ++ [] ++ if p.unread ++ block = [] then [] else [p.unread ++ block]
        rw [hunread, List.nil_append, if_neg hblock.ne_nil, hrequests]
        rfl
      · show IsRequest (p.unread ++ block)
        rwa [hunread, List.nil_append]
      · exact Bool.noConfusion (hclosed.symm.trans hc)
  · exact h

theorem Channel.recv (h : Channel p hand asked told) (n : Nat) :
    Channel (p.recv n) hand asked told := by
  unfold Peer.recv
  split
  · refine ⟨h.requests, ?_, h.alone, h.request, h.whole, fun hc => ?_⟩
    · rw [h.answers]
      show _ = p.received ++ p.answers.take n ++ p.answers.drop n ++ hand.due
      rw [List.append_assoc p.received (p.answers.take n), List.take_append_drop]
    · obtain ⟨hhand, hunread, hanswers⟩ := h.gone hc
      refine ⟨hhand, hunread, ?_⟩
      show p.answers.drop n = []
      rw [hanswers, List.drop_nil]
  · exact h

/-- The client hangs up. -/
theorem Channel.hangUp (h : Channel p .nothing asked told) (hunread : p.unread = [])
    (hanswers : p.answers = []) : Channel p.hangUp .nothing asked told := by
  unfold Peer.hangUp
  split
  · refine ⟨h.requests, h.answers, h.alone, h.request, ?_, fun _ => ⟨rfl, hunread, hanswers⟩⟩
    show decide (p.answers ≠ []) = false
    rw [hanswers]
    rfl
  · exact h

/-- The daemon reads the request ... -/
theorem Channel.taken (h : Channel p .nothing asked told) (hunread : p.unread ≠ []) :
    Channel p.taken (.request p.unread) asked told := by
  have hdrop : p.unread.drop accessSize = [] := List.drop_eq_nil_of_le (h.request hunread).fits
  have hrequests := h.requests
  unfold Peer.waiting at hrequests
  rw [if_neg hunread] at hrequests
  refine ⟨?_, h.answers, fun _ => hdrop, fun hne => absurd hdrop hne, h.whole, fun hc => ?_⟩
  · show p.sent = asked ++ [p.unread] ++ if p.unread.drop accessSize = [] then [] else _
    rw [if_pos hdrop, hrequests, List.append_nil]
    exact congrArg (· ++ [p.unread]) (List.append_nil asked)
  · exact absurd (h.gone hc).2.1 hunread

/-- ... handles it ... -/
theorem Channel.handled (h : Channel p (.request block) asked told) (answer : Bytes) :
    Channel p (.answer answer) (asked ++ [block]) (told ++ withNul answer) := by
  have hunread := h.alone InHand.noConfusion
  refine ⟨?_, ?_, fun _ => hunread, h.request, h.whole, fun hc => ?_⟩
  · rw [h.requests]
    show asked ++ [block] ++ p.waiting = asked ++ [block] ++ [] ++ p.waiting
    rw [List.append_nil]
  · rw [h.answers]
    show p.received ++ p.answers ++ [] ++ withNul answer = p.received ++ p.answers ++ withNul answer
    rw [List.append_nil]
  · exact InHand.noConfusion (h.gone hc).1

/-- ... and writes the answer. -/
theorem Channel.written (h : Channel p (.answer answer) asked told) :
    p.closed = false ∧ Channel (p.told (withNul answer)) .nothing asked told := by
  have hclosed : p.closed = false := by
    cases hc : p.closed with
    | false => rfl
    | true => exact InHand.noConfusion (h.gone hc).1
  refine ⟨hclosed, h.requests, ?_, fun h => absurd rfl h, h.request, h.whole, fun hc => ?_⟩
  · rw [h.answers]
    show p.received ++ p.answers ++ withNul answer
      = p.received ++ (p.answers ++ withNul answer) ++ []
    rw [List.append_nil, List.append_assoc]
  · exact Bool.noConfusion (hclosed.symm.trans hc)

end Channel

/-! ## §4. The server and its clients. -/

namespace ControlSystem

/-- What the thread has in hand for a client. -/
def inHand (s : ControlSystem) (c : Nat) : InHand :=
  match s.thread.pc with
  | .handle i (some block) => if s.conns i = some c then .request block else .nothing
  | .answer i => if s.conns i = some c then .answer s.thread.answer else .nothing
  | _ => .nothing

/-- What the thread is given by its clients and by the system: a client sends a request, or hangs
up, only when it has all its answers; `pthread_kill` returns an `int`. -/
def Polite (s : ControlSystem) : AccessAct → Prop
  | .thread ans => -2 ^ 31 ≤ ans.env.kill ∧ ans.env.kill < 2 ^ 31
  | .send c block => IsRequest block ∧ (s.peers c).Answered
  | .close c => (s.peers c).Answered
  | .status msg => StatusFits msg
  | _ => True

/-- The descriptor stands for something. -/
def Known (env : AccessEnv) (s : ControlSystem) (i : Nat) : Prop :=
  i = env.rcFd ∨ i = env.killFd ∨ s.conns i ≠ none

/-- A request in hand is that of a client, and stands at the beginning of the buffer. -/
def Busy (s : ControlSystem) : Prop :=
  match s.thread.pc with
  | .handle i block => ∃ c text, s.conns i = some c ∧ block = some text ∧ IsRequest text
      ∧ text <+: s.thread.buf
  | .answer i => ∃ c, s.conns i = some c
  | _ => True

/-- What every interleaving with polite clients keeps; `this` is the state of the daemon at its
beginning. -/
structure Serving (env : AccessEnv) (this : Control) (s : ControlSystem) : Prop where
  alive : s.dead = false
  buffer : s.thread.buf.length = accessSize
  status : StatusFits s.control.statusMsg
  serially : Serially this s.history s.control
  counted : ∀ c, (answersOf c s.history).count 0 = (requestsOf c s.history).length
  watched : ∀ i, s.thread.opSockets i = true → s.Known env i
  ahead : ∀ i, s.thread.pc.ahead i → s.thread.rdSockets i = true → s.Known env i
  busy : s.Busy
  channel : ∀ c, Channel (s.peers c) (s.inHand c) (requestsOf c s.history) (answersOf c s.history)

section Serving

variable {env : AccessEnv} {this : Control} {s s' : ControlSystem} {c i : Nat} {p : Peer}

theorem inHand_quiet (h : s.thread.pc.quiet = true) : s.inHand c = .nothing := by
  unfold inHand
  cases hpc : s.thread.pc with
  | handle | answer =>
      rw [hpc] at h
      cases h
  | start | head | select | accept | scan | exited => rfl

theorem busy_quiet (h : s.thread.pc.quiet = true) : s.Busy := by
  unfold Busy
  cases hpc : s.thread.pc with
  | handle | answer =>
      rw [hpc] at h
      cases h
  | start | head | select | accept | scan | exited => trivial

theorem initial_serving {buf : Bytes} (hbuf : buf.length = accessSize)
    (hstatus : StatusFits this.statusMsg) : Serving env this (initial this buf) :=
  { alive := rfl, buffer := hbuf, status := hstatus, serially := .start, counted := fun _ => rfl
    watched := fun _ h => Bool.noConfusion h, ahead := fun _ h => h.elim, busy := trivial
    channel := fun _ => .stranger }

/-- A step between two calls, with no request in hand. -/
theorem Serving.between (h : Serving env this s) (hquiet : s.thread.pc.quiet = true)
    (hquiet' : s'.thread.pc.quiet = true)
    (hsame : s'.control = s.control ∧ s'.history = s.history ∧ s'.peers = s.peers
      ∧ s'.dead = s.dead ∧ s'.thread.buf = s.thread.buf)
    (hwatched : ∀ i, s'.thread.opSockets i = true → s'.Known env i)
    (hahead : ∀ i, s'.thread.pc.ahead i → s'.thread.rdSockets i = true → s'.Known env i) :
    Serving env this s' := by
  obtain ⟨hcontrol, hhistory, hpeers, hdead, hbuf⟩ := hsame
  refine ⟨hdead.trans h.alive, ?_, ?_, ?_, fun c => ?_, hwatched, hahead, busy_quiet hquiet',
    fun c => ?_⟩
  · rw [hbuf]
    exact h.buffer
  · rw [hcontrol]
    exact h.status
  · rw [hcontrol, hhistory]
    exact h.serially
  · rw [hhistory]
    exact h.counted c
  · rw [hpeers, hhistory, inHand_quiet hquiet', ← inHand_quiet (c := c) hquiet]
    exact h.channel c

/-- Something has happened to the connection of a client. -/
theorem Serving.setPeer (h : Serving env this s)
    (hp : Channel p (s.inHand c) (requestsOf c s.history) (answersOf c s.history)) :
    Serving env this (s.setPeer c p) := by
  refine ⟨h.alive, h.buffer, h.status, h.serially, h.counted, h.watched, h.ahead, h.busy,
    fun d => ?_⟩
  show Channel (Function.update s.peers c p d) (s.inHand d) _ _
  by_cases hd : d = c
  · rw [hd, Function.update_self]
    exact hp
  · rw [Function.update_of_ne hd]
    exact h.channel d

/-- Somebody else has changed the state of the daemon. -/
theorem Serving.note (h : Serving env this s) {control : Control} {entry : Served}
    (hserially : Serially this (s.history ++ [entry]) control)
    (hstatus : StatusFits control.statusMsg) (hrequest : ∀ c, entry.requestOf c = [])
    (hanswer : ∀ c, entry.answerOf c = []) :
    Serving env this ({ s with control := control }.log entry) := by
  have hrequests : ∀ c, requestsOf c (s.history ++ [entry]) = requestsOf c s.history := fun c => by
    rw [requestsOf_concat, hrequest, List.append_nil]
  have hanswers : ∀ c, answersOf c (s.history ++ [entry]) = answersOf c s.history := fun c => by
    rw [answersOf_concat, hanswer, List.append_nil]
  refine ⟨h.alive, h.buffer, hstatus, hserially, fun c => ?_, h.watched, h.ahead, h.busy,
    fun c => ?_⟩
  · show (answersOf c (s.history ++ [entry])).count 0 = (requestsOf c (s.history ++ [entry])).length
    rw [hrequests, hanswers]
    exact h.counted c
  · show Channel (s.peers c) (s.inHand c) (requestsOf c (s.history ++ [entry]))
      (answersOf c (s.history ++ [entry]))
    rw [hrequests, hanswers]
    exact h.channel c

theorem inHand_handle {block : Bytes} (h : s.thread.pc = .handle i (some block)) :
    s.inHand c = if s.conns i = some c then .request block else .nothing := by
  unfold inHand
  rw [h]

theorem inHand_answer (h : s.thread.pc = .answer i) :
    s.inHand c = if s.conns i = some c then .answer s.thread.answer else .nothing := by
  unfold inHand
  rw [h]

/-- The thread reads a request. -/
theorem Serving.readFor (h : Serving env this s) (hpc : s.thread.pc = .scan i)
    (hconn : s.conns i = some c) (hunread : (s.peers c).unread ≠ []) :
    Serving env this (s.readFor i c) := by
  have hquiet : s.thread.pc.quiet = true := by rw [hpc]; rfl
  have hrequest := (h.channel c).request hunread
  have hwhole : (s.peers c).unread.take accessSize = (s.peers c).unread :=
    List.take_of_length_le hrequest.fits
  have hnow : (s.readFor i c).thread.pc = .handle i (some (s.peers c).unread) :=
    congrArg (fun block => AccessPc.handle i (some block)) hwhole
  refine ⟨h.alive, readInto_length h.buffer, h.status, h.serially, h.counted, h.watched,
    fun j hj => ?_, ?_, fun d => ?_⟩
  · refine h.ahead j ?_
    rw [hpc]
    exact Nat.le_of_lt hj
  · unfold Busy
    rw [hnow]
    exact ⟨c, _, hconn, rfl, hrequest, _, (hrequest.readInto _).symm⟩
  · rw [inHand_handle hnow]
    show Channel (Function.update s.peers c (s.peers c).taken d)
      (if s.conns i = some d then .request (s.peers c).unread else .nothing) _ _
    have hidle := h.channel d
    rw [inHand_quiet hquiet] at hidle
    by_cases hd : d = c
    · subst hd
      rw [Function.update_self, if_pos hconn]
      exact hidle.taken hunread
    · rw [Function.update_of_ne hd, if_neg fun hd' => hd (Option.some.inj (hd'.symm.trans hconn))]
      exact hidle

/-- The thread handles the request. -/
theorem Serving.replied (h : Serving env this s) {answers : ControlEnv} {block : Option Bytes}
    {control : Control} {answer buf : Bytes}
    (hkill : -2 ^ 31 ≤ answers.kill ∧ answers.kill < 2 ^ 31) (hpc : s.thread.pc = .handle i block)
    (hhandle : survHandleRequest answers s.control s.thread.buf = .ok (control, answer))
    (hcut : cutRequest s.thread.buf = .ok buf) :
    Serving env this (s.replied i block control answer buf) := by
  have hbusy := h.busy
  unfold Busy at hbusy
  rw [hpc] at hbusy
  obtain ⟨c, text, hconn, rfl, hrequest, rest, hrest⟩ := hbusy
  have hlogged : s.recorded i (some text) answer = s.log (.request c text answer) := by
    unfold recorded
    rw [hconn]
  have halone : survHandleRequest answers s.control text = .ok (control, answer) := by
    rw [← hhandle, ← hrest]
    exact (hrequest.handle_append rest).symm
  -- the answer is a string, so the client will find one NUL more
  have hnul : (0 : UInt8) ∉ answer := by
    obtain ⟨control', answer', heq, hnul, -⟩ := hrequest.answered h.status hkill
    obtain ⟨-, rfl⟩ := Prod.mk.inj (Except.ok.inj (heq.symm.trans halone))
    exact hnul
  obtain ⟨cut, hcut', hlen⟩ := cutRequest_ok hhandle
  obtain rfl := Except.ok.inj (hcut.symm.trans hcut')
  unfold ControlSystem.replied
  rw [hlogged]
  refine ⟨h.alive, hlen.trans h.buffer, ?_, h.serially.request answers c halone, fun d => ?_,
    h.watched, fun j hj => h.ahead j (by rw [hpc]; exact hj), ⟨c, hconn⟩, fun d => ?_⟩
  · show StatusFits control.statusMsg
    rw [handle_status hhandle]
    exact h.status
  · show (answersOf d (s.history ++ [.request c text answer])).count 0
      = (requestsOf d (s.history ++ [.request c text answer])).length
    rw [answersOf_concat, requestsOf_concat, List.count_append, List.length_append, h.counted d]
    congr 1
    by_cases hd : c = d
    · subst hd
      rw [answerOf_self, requestOf_self, withNul, List.count_append, List.count_eq_zero.mpr hnul]
      rfl
    · rw [answerOf_other hd, requestOf_other hd]
      rfl
  · rw [inHand_answer rfl]
    show Channel (s.peers d) (if s.conns i = some d then .answer answer else .nothing)
      (requestsOf d (s.history ++ [.request c text answer]))
      (answersOf d (s.history ++ [.request c text answer]))
    have hbefore := h.channel d
    rw [inHand_handle hpc] at hbefore
    rw [answersOf_concat, requestsOf_concat]
    by_cases hd : c = d
    · subst hd
      rw [if_pos hconn] at hbefore ⊢
      rw [answerOf_self, requestOf_self]
      exact hbefore.handled answer
    · have hother : s.conns i ≠ some d := fun hd' => hd (Option.some.inj (hconn.symm.trans hd'))
      rw [if_neg hother] at hbefore ⊢
      rw [answerOf_other hd, requestOf_other hd, List.append_nil, List.append_nil]
      exact hbefore

/-- The client that the thread answers has not hung up. -/
theorem Serving.answered (h : Serving env this s) (hpc : s.thread.pc = .answer i)
    (hconn : s.conns i = some c) : (s.peers c).closed = false
      ∧ Channel ((s.peers c).told (withNul s.thread.answer)) .nothing (requestsOf c s.history)
        (answersOf c s.history) := by
  have hchannel := h.channel c
  rw [inHand_answer hpc, if_pos hconn] at hchannel
  exact hchannel.written

/-- The thread writes the answer. -/
theorem Serving.toldTo (h : Serving env this s) (hpc : s.thread.pc = .answer i)
    (hconn : s.conns i = some c) : Serving env this (s.toldTo i c) := by
  have hquiet : (s.toldTo i c).thread.pc.quiet = true := rfl
  refine ⟨h.alive, h.buffer, h.status, h.serially, h.counted, h.watched,
    fun j hj => h.ahead j (by rw [hpc]; exact hj), busy_quiet hquiet, fun d => ?_⟩
  rw [inHand_quiet hquiet]
  show Channel (Function.update s.peers c ((s.peers c).told (withNul s.thread.answer)) d) .nothing
    _ _
  by_cases hd : d = c
  · subst hd
    rw [Function.update_self]
    exact (h.answered hpc hconn).2
  · have hother := h.channel d
    rw [inHand_answer hpc, if_neg fun hd' => hd (Option.some.inj (hd'.symm.trans hconn))] at hother
    rw [Function.update_of_ne hd]
    exact hother

theorem Known.update {o : Option Nat} {j : Nat} (h : s.Known env j) (hj : j ≠ i ∨ o ≠ none) :
    (s.setConn i o).Known env j := by
  rcases h with hrc | hkill | hconn
  · exact .inl hrc
  · exact .inr (.inl hkill)
  · refine .inr (.inr ?_)
    show Function.update s.conns i o j ≠ none
    by_cases hi : j = i
    · rw [hi, Function.update_self]
      exact hj.resolve_left (not_not.mpr hi)
    · rwa [Function.update_of_ne hi]

/-- The step of the thread. -/
theorem Serving.moves {ans : AccessAnswer} (h : Serving env this s)
    (hkill : -2 ^ 31 ≤ ans.env.kill ∧ ans.env.kill < 2 ^ 31) (hmoves : Moves env s ans s') :
    Serving env this s' := by
  have hsame : s.control = s.control ∧ s.history = s.history ∧ s.peers = s.peers ∧ s.dead = s.dead
      ∧ s.thread.buf = s.thread.buf := ⟨rfl, rfl, rfl, rfl, rfl⟩
  cases hmoves with
  | stands => exact h
  | goes pc hnext =>
      exact h.between hnext.quiet.1 hnext.quiet.2 hsame h.watched
        fun j hj => h.ahead j (hnext.ahead hj)
  | listens hpc =>
      refine h.between (by rw [hpc]; rfl) rfl hsame (fun j hj => ?_) fun j hj => hj.elim
      change Function.update (Function.update s.thread.opSockets env.rcFd true) env.killFd true j
        = true at hj
      by_cases hkillFd : j = env.killFd
      · exact .inr (.inl hkillFd)
      · rw [Function.update_of_ne hkillFd] at hj
        by_cases hrcFd : j = env.rcFd
        · exact .inl hrcFd
        · rw [Function.update_of_ne hrcFd] at hj
          exact h.watched j hj
  | selects rd hpc hrd =>
      refine h.between (by rw [hpc]; rfl) ?_ hsame h.watched fun j _ hj => h.watched j (hrd j hj)
      show (if rd env.rcFd then AccessPc.accept else .scan 0).quiet = true
      split <;> rfl
  | accepts c rest hpc hback =>
      refine h.between (by rw [hpc]; rfl) rfl hsame (fun j hj => ?_) fun j hj => hj.elim
      change Function.update s.thread.opSockets ans.fd true j = true at hj
      by_cases hfd : j = ans.fd
      · refine .inr (.inr ?_)
        show Function.update s.conns ans.fd (some c) j ≠ none
        rw [hfd, Function.update_self]
        exact Option.some_ne_none c
      · rw [Function.update_of_ne hfd] at hj
        exact (h.watched j hj).update (.inl hfd)
  | closes i hpc =>
      refine h.between (by rw [hpc]; rfl) rfl hsame (fun j hj => ?_) fun j hj hrd => ?_
      · change Function.update s.thread.opSockets i false j = true at hj
        by_cases hi : j = i
        · rw [hi, Function.update_self] at hj
          exact Bool.noConfusion hj
        · rw [Function.update_of_ne hi] at hj
          exact (h.watched j hj).update (.inl hi)
      · -- the scan has passed the descriptor
        have hle : i + 1 ≤ j := hj
        refine (h.ahead j ?_ hrd).update (.inl (by omega))
        rw [hpc]
        exact Nat.le_of_succ_le hle
  | reads i c hpc hconn hunread => exact h.readFor hpc hconn hunread
  | fails i c hpc hconn hreset => exact Bool.noConfusion ((h.channel c).whole.symm.trans hreset)
  | stray i hpc hrd hrc hkillFd hconn =>
      have hknown := h.ahead i (by rw [hpc]; exact Nat.le_refl i) hrd
      exact absurd hconn ((hknown.resolve_left hrc).resolve_left hkillFd)
  | replies i block control answer buf hpc hhandle hcut => exact h.replied hkill hpc hhandle hcut
  | forgets i hpc hconn =>
      have hbusy := h.busy
      unfold Busy at hbusy
      rw [hpc] at hbusy
      obtain ⟨c, hc⟩ := hbusy
      exact absurd (hconn.symm.trans hc) (Option.some_ne_none c).symm
  | dies i c hpc hconn hclosed =>
      exact Bool.noConfusion ((h.answered hpc hconn).1.symm.trans hclosed)
  | writes i c hpc hconn => exact h.toldTo hpc hconn

/-- A request in hand is answered. -/
theorem Serving.handled_ok (h : Serving env this s) {answers : ControlEnv} {block : Option Bytes}
    (hkill : -2 ^ 31 ≤ answers.kill ∧ answers.kill < 2 ^ 31) (hpc : s.thread.pc = .handle i block) :
    ∃ s', s.handled answers i block = .ok s' := by
  have hbusy := h.busy
  unfold Busy at hbusy
  rw [hpc] at hbusy
  obtain ⟨c, text, -, -, hrequest, rest, hrest⟩ := hbusy
  obtain ⟨control, answer, hhandle, -⟩ := hrequest.answered h.status hkill
  rw [← hrequest.handle_append rest, hrest] at hhandle
  obtain ⟨cut, hcut, -⟩ := cutRequest_ok hhandle
  exact ⟨_, ControlSystem.handled_ok hhandle hcut⟩

/-- A client that has all its answers has nothing under way. -/
theorem Serving.idle (h : Serving env this s) (hanswered : (s.peers c).Answered) :
    s.inHand c = .nothing ∧ (s.peers c).unread = [] ∧ (s.peers c).answers = [] := by
  obtain ⟨hhand, hunread, hnul⟩ := (h.channel c).idle (h.counted c) hanswered
  refine ⟨hhand, hunread, answersOf_suffix (c := c) (h := s.history) hnul ?_⟩
  rw [(h.channel c).answers, hhand]
  exact ⟨(s.peers c).received, (List.append_nil _).symm⟩

/-- **What every step keeps**: with polite clients none stops the daemon. -/
theorem Serving.step {act : AccessAct} (h : Serving env this s) (hact : s.Polite act) :
    Outcome.Meets (fun _ => False) (s.step env act) (Serving env this) := by
  have halive : ¬ s.dead = true := Bool.eq_false_iff.mp h.alive
  unfold ControlSystem.step
  rw [if_neg halive]
  cases act with
  | thread ans =>
      dsimp only
      cases hstep : s.accessStep env ans with
      | ok s' => exact h.moves hact (accessStep_moves hstep)
      | error f =>
          obtain ⟨i, block, hpc, hfault⟩ := accessStep_faults hstep
          obtain ⟨s', hok⟩ := h.handled_ok hact hpc
          cases hfault.symm.trans hok
  | connect c =>
      show Serving env this (s.connected c)
      unfold connected
      split
      · exact h
      · have hp := h.setPeer (h.channel c).connect
        exact ⟨hp.alive, hp.buffer, hp.status, hp.serially, hp.counted, hp.watched, hp.ahead,
          hp.busy, hp.channel⟩
  | send c block =>
      obtain ⟨hblock, hanswered⟩ := hact
      obtain ⟨hhand, hunread, -⟩ := h.idle hanswered
      have hchannel := h.channel c
      rw [hhand] at hchannel
      refine h.setPeer ?_
      rw [hhand]
      exact hchannel.send hunread hblock
  | recv c n => exact h.setPeer ((h.channel c).recv n)
  | close c =>
      obtain ⟨hhand, hunread, hanswers⟩ := h.idle hact
      have hchannel := h.channel c
      rw [hhand] at hchannel
      refine h.setPeer ?_
      rw [hhand]
      exact hchannel.hangUp hunread hanswers
  | shutDown => exact h.note h.serially.shutDown h.status (fun _ => rfl) fun _ => rfl
  | closeKillpipe =>
      show Serving env this (if s.control.shuttingDown then { s with killClosed := true } else s)
      split
      · exact ⟨h.alive, h.buffer, h.status, h.serially, h.counted, h.watched, h.ahead, h.busy,
          h.channel⟩
      · exact h
  | status msg => exact h.note (h.serially.status msg) hact (fun _ => rfl) fun _ => rfl

end Serving

/-- `add_filter$/home` and `get_status$` -/
def homeRequest : Bytes := withNul (ascii "add_filter$/home")

def statusRequest : Bytes := withNul (ascii "get_status$")

theorem homeRequest_ok : IsRequest homeRequest := by
  refine ⟨by decide, _, rfl, by decide, fun env =>
    ⟨ascii "add_filter", ascii "/home", by decide, ?_⟩⟩
  have hfirst : firstToken DOLLAR (ascii "/home") = some (ascii "/home", []) := by decide
  refine (argumentFits_add hfirst).mpr ?_
  split <;> decide

theorem statusRequest_ok : IsRequest statusRequest :=
  ⟨by decide, _, rfl, by decide, fun _ => ⟨ascii "get_status", [], by decide,
    argumentFits_other (by decide) (by decide)⟩⟩

/-- Steps of the thread; a connection that it accepts gets the descriptor `fd`. -/
def threadSteps (n fd : Nat) : List AccessAct :=
  List.replicate n (.thread ⟨false, fd, true, .obliging⟩)

/-- Two clients connect and send their requests.  The thread reads the first one, the main thread
writes a new status text, and the thread goes on to the second one. -/
def twoClients : List AccessAct :=
  threadSteps 1 0 ++ [.connect 7, .connect 9] ++ threadSteps 3 5 ++ threadSteps 3 6
    ++ [.send 7 homeRequest, .send 9 statusRequest] ++ threadSteps 9 0 ++ [.status (ascii "busy\n")]
    ++ threadSteps 5 0 ++ [.recv 7 256, .recv 9 256, .close 7]

/-- What is to be checked of an act in the state in which it is taken. -/
def checkPolite (s : ControlSystem) : AccessAct → Bool
  | .thread ans => decide (-2 ^ 31 ≤ ans.env.kill ∧ ans.env.kill < 2 ^ 31)
  | .send c block => decide ((block = homeRequest ∨ block = statusRequest) ∧ (s.peers c).Answered)
  | .close c => decide (s.peers c).Answered
  | .status msg => decide (StatusFits msg)
  | _ => true

theorem Polite.of_check {s : ControlSystem} {act : AccessAct} (h : s.checkPolite act = true) :
    s.Polite act := by
  cases act with
  | thread ans =>
      have hkill : -2 ^ 31 ≤ ans.env.kill ∧ ans.env.kill < 2 ^ 31 := of_decide_eq_true h
      exact hkill
  | send c block =>
      obtain ⟨hblock, hanswered⟩ : (block = homeRequest ∨ block = statusRequest)
        ∧ (s.peers c).Answered := of_decide_eq_true h
      refine ⟨?_, hanswered⟩
      rcases hblock with rfl | rfl
      · exact homeRequest_ok
      · exact statusRequest_ok
  | close c =>
      have hanswered : (s.peers c).Answered := of_decide_eq_true h
      exact hanswered
  | status msg =>
      have hfits : StatusFits msg := of_decide_eq_true h
      exact hfits
  | connect | recv | shutDown | closeKillpipe => trivial

/-- A client that hangs up before it has its answer ends the daemon. -/
example : (run ⟨3, 4, 8⟩ (initial .starting (List.replicate 256 0))
    (threadSteps 1 0 ++ [.connect 7] ++ threadSteps 3 5 ++ [.send 7 homeRequest, .close 7]
      ++ threadSteps 10 0)).map (fun s => s.dead) = .ok true := by decide +kernel

end ControlSystem

end DirSurveiller
