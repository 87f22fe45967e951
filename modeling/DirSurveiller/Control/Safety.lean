/-
  DirSurveiller.Control.Safety — which control requests are handled safely.

  A request is cut at `$` into a command and its argument, each `NULL` when there is none; the command
  is compared with `strcmp` unseen.  The answer goes into 256 bytes: its templates add up to 33 bytes
  to an argument that is limited only by the size of the request.  The status text is written by the
  main loop into 200 bytes.

    * `requests_safe_iff` — which requests are answered within the buffer, and that the status text
      always fits.
-/
import DirSurveiller.Control.Request
import DirSurveiller.Daemon.Merge

namespace DirSurveiller

open CMachine Outcome

/-! ## §1. The status text. -/

/-- `char status_msg[200]` -/
def statusSize : Nat := 200

/-- `running ? "running":"exited"` -/
def socketText (running : Bool) : Bytes := if running then ascii "running" else ascii "exited"

/-- The line for a socket handler that has exited. -/
def hintText (hint : Bool) : Bytes :=
  if hint then
    ascii "\nIf you are sure that the server is running,\ntry restarting the watchdog daemon daemon"
  else []

/-- The text that `main` writes to `status_msg` with each dispatch; the flags are read once for the
two lines and once more for the hint. -/
def statusText (dispatchBatch oQueue eQueue : UInt32) (openRunning execRunning hint : Bool) : Bytes :=
  ascii "\nlast_dispatch:" ++ Decimal.intText dispatchBatch.toInt32.toInt
    ++ ascii ";oQueue:" ++ Decimal.intText oQueue.toInt32.toInt
    ++ ascii ";eQueue:" ++ Decimal.intText eQueue.toInt32.toInt ++ ascii "\n"
    ++ ascii "openSockethandler:" ++ socketText openRunning ++ ascii "\n"
    ++ ascii "execSockethandler:" ++ socketText execRunning ++ ascii "\n"
    ++ hintText hint ++ ascii "\n"

/-- `"starting up...\n"` -/
def startText : Bytes := ascii "starting up...\n"

/-- A state of the daemon in some interleaving. -/
def Daemon.ReachedFrom (s : Surveiller) (d : Daemon) : Prop :=
  ∃ acts, (Daemon.initial s).run acts = .ok d

/-- The texts `status_msg` can have: `surv_init`'s, and those of the dispatches, whose sizes and flags
are read one after the other while the parsers go on. -/
inductive ReachedStatus (s : Surveiller) : Bytes → Prop where
  | start : ReachedStatus s startText
  | dispatch {d d' d'' : Daemon} (openRunning execRunning hint : Bool) :
      d.ReachedFrom s → d'.ReachedFrom s → d''.ReachedFrom s →
      ReachedStatus s (statusText (gRingBufferSize d.surv.dispatchQueue)
        (gRingBufferSize d'.surv.openQueue) (gRingBufferSize d''.surv.commandQueue) openRunning
        execRunning hint)

section Status

variable {s : Surveiller}

/-- The size of a queue takes at most four digits. -/
theorem size_text_length {n : UInt32} (h : n.toNat ≤ 1024) :
    (Decimal.intText n.toInt32.toInt).length ≤ 5 := by
  apply Decimal.intText_length (by omega)
  show n.toBitVec.toInt.natAbs < 10 ^ 4
  have hn : n.toBitVec.toNat = n.toNat := rfl
  rw [BitVec.toInt_eq_toNat_of_lt (by omega), hn]
  omega

theorem socketText_length (running : Bool) : (socketText running).length ≤ 7 := by
  cases running <;> decide

theorem socketText_nul (running : Bool) : (0 : UInt8) ∉ socketText running := by
  cases running <;> decide

theorem hintText_length (hint : Bool) : (hintText hint).length ≤ 86 := by
  cases hint <;> decide

theorem hintText_nul (hint : Bool) : (0 : UInt8) ∉ hintText hint := by
  cases hint <;> decide

/-- Three sizes of at most four digits leave room in the 200 bytes. -/
theorem statusText_fits {a b c : UInt32} (ha : a.toNat ≤ 1024) (hb : b.toNat ≤ 1024)
    (hc : c.toNat ≤ 1024) (openRunning execRunning hint : Bool) :
    (statusText a b c openRunning execRunning hint).length < statusSize
      ∧ (0 : UInt8) ∉ statusText a b c openRunning execRunning hint := by
  have hla := size_text_length ha
  have hlb := size_text_length hb
  have hlc := size_text_length hc
  have hlo := socketText_length openRunning
  have hle := socketText_length execRunning
  have hlh := hintText_length hint
  constructor
  · -- 71 bytes of literals, 15 for the sizes, 14 for the flags, 86 for the hint
    have h1 : (ascii "\nlast_dispatch:").length = 15 := rfl
    have h2 : (ascii ";oQueue:").length = 8 := rfl
    have h3 : (ascii ";eQueue:").length = 8 := rfl
    have h4 : (ascii "\n").length = 1 := rfl
    have h5 : (ascii "openSockethandler:").length = 18 := rfl
    have h6 : (ascii "execSockethandler:").length = 18 := rfl
    unfold statusText statusSize
    simp only [List.length_append]
    omega
  · unfold statusText
    simp only [List.mem_append, not_or]
    exact ⟨⟨⟨⟨⟨⟨⟨⟨⟨⟨⟨⟨⟨⟨by decide, Decimal.intText_nul _⟩, by decide⟩, Decimal.intText_nul _⟩,
      by decide⟩, Decimal.intText_nul _⟩, by decide⟩, by decide⟩, socketText_nul _⟩, by decide⟩,
      by decide⟩, socketText_nul _⟩, by decide⟩, hintText_nul _⟩, by decide⟩

/-- No ring holds more than 1024 elements. -/
theorem Daemon.ReachedFrom.sizes {getMaxPID ownPID : Int} {bootTime : UInt32} {d : Daemon}
    (h0 : survInit getMaxPID ownPID bootTime = .ok (some s)) (h : d.ReachedFrom s) :
    (gRingBufferSize d.surv.dispatchQueue).toNat ≤ 1024
      ∧ (gRingBufferSize d.surv.openQueue).toNat ≤ 1024
      ∧ (gRingBufferSize d.surv.commandQueue).toNat ≤ 1024 := by
  obtain ⟨acts, hrun⟩ := h
  obtain ⟨hand, openHand, hinv, -⟩ :=
    (((Daemon.initial_invariant h0).run acts).post hrun).pending.owned
  exact ⟨hinv.dispatchWf, hinv.openWf, hinv.commandWf⟩

/-- **The status text fits** its array, in every state of every interleaving. -/
theorem ReachedStatus.fits {getMaxPID ownPID : Int} {bootTime : UInt32} {msg : Bytes}
    (h0 : survInit getMaxPID ownPID bootTime = .ok (some s)) (h : ReachedStatus s msg) :
    msg.length < statusSize ∧ (0 : UInt8) ∉ msg := by
  cases h with
  | start => decide
  | dispatch openRunning execRunning hint hd hd' hd'' =>
      exact statusText_fits (hd.sizes h0).1 (hd'.sizes h0).2.1 (hd''.sizes h0).2.2 _ _ _

end Status

/-! ## §2. The request. -/

section Request

variable {text tail : Bytes}

theorem tokenText_some {block tok : Bytes} {p : Nat} (h : cstring (block.drop p) = .ok tok) :
    tokenText block (some p) = .ok (some tok) := by
  show (cstring (block.drop p)).map some = .ok (some tok)
  rw [h]
  rfl

/-- **What is recognised of a request**: its first two tokens, as far as there are any. -/
theorem recognise_eq (hnul : (0 : UInt8) ∉ text) :
    recognise (text ++ 0 :: tail)
      = .ok ((firstToken DOLLAR text).map Prod.fst,
          (firstToken DOLLAR text).bind fun p => (firstToken DOLLAR p.2).map Prod.fst) := by
  have hd : DOLLAR ≠ 0 := by decide
  have hblock : (text ++ 0 :: tail).drop 0 = text ++ 0 :: tail := List.drop_zero
  unfold recognise
  cases hfirst : firstToken DOLLAR text with
  | none =>
      -- the second call begins at the end of the string and finds nothing either
      rw [strtok_none hd hfirst hblock]
      simp only [ok_bind]
      have hend : (text ++ 0 :: tail).drop (0 + text.length) = [] ++ 0 :: tail := by
        rw [Nat.zero_add, List.drop_left, List.nil_append]
      rw [strtok_none hd rfl hend]
      rfl
  | some p =>
      obtain ⟨command, more⟩ := p
      obtain ⟨start, block, next, behind, hcall, hcnul, hmnul, hle, hfront, hback⟩ :=
        strtok_some hd hnul hfirst hblock
      rw [hcall]
      simp only [ok_bind]
      cases hsecond : firstToken DOLLAR more with
      | none =>
          rw [strtok_none hd hsecond hback]
          simp only [ok_bind]
          have hread : cstring (block.drop start) = .ok command := by
            rw [hfront]
            exact cstring_terminated hcnul
          rw [tokenText_some hread]
          show (Except.ok (some command, none) : Except Fault _) = _
          rw [Option.bind_some, hsecond]
          rfl
      | some q =>
          obtain ⟨args, rest⟩ := q
          obtain ⟨start', block', next', behind', hcall', hanul, -, -, hfront', -⟩ :=
            strtok_some hd hmnul hsecond hback
          rw [hcall']
          simp only [ok_bind]
          have hread : cstring (block'.drop start') = .ok args := by
            rw [hfront']
            exact cstring_terminated hanul
          rw [tokenText_some (strtok_keeps hcall' hcnul hfront hle), tokenText_some hread]
          show (Except.ok (some command, some args) : Except Fault _) = _
          rw [Option.bind_some, hsecond]
          rfl

/-- A string's tokens have no NUL in them. -/
theorem firstToken_nul {tok more : Bytes} (hnul : (0 : UInt8) ∉ text)
    (h : firstToken DOLLAR text = some (tok, more)) : (0 : UInt8) ∉ tok ∧ (0 : UInt8) ∉ more := by
  obtain ⟨seps, -, -, -, hshape⟩ := firstToken_some h
  rcases hshape with rfl | ⟨rfl, rfl⟩
  · simp only [List.mem_append, List.mem_cons, not_or] at hnul
    exact ⟨hnul.1.2, hnul.2.2⟩
  · simp only [List.mem_append, not_or] at hnul
    exact ⟨hnul.2, List.not_mem_nil⟩

/-! ## §3. The answer. -/

/-- There is an answer, and it is a string in its array. -/
def Answered (m : Except Fault (Control × Bytes)) : Prop :=
  ∃ this answer, m = .ok (this, answer) ∧ (0 : UInt8) ∉ answer ∧ answer.length + 1 ≤ accessSize

/-- `surv_handleRequest` compares no `NULL`, and its answer fits the caller's buffer. -/
def AnswersSafely (env : ControlEnv) (this : Control) (request : Bytes) : Prop :=
  Answered (survHandleRequest env this request)

/-- The argument of a filter command leaves room for the words around it. -/
def ArgumentFits (env : ControlEnv) (command more : Bytes) : Prop :=
  ∀ args rest, firstToken DOLLAR more = some (args, rest) →
    (command = ascii "add_filter" → args.length ≤ if env.add args = 0 then 232 else 226)
    ∧ (command = ascii "remove_filter" → args.length ≤ 222)

/-- The requests that have a command, and an argument that fits. -/
def Answerable (env : ControlEnv) (text : Bytes) : Prop :=
  ∃ command more, firstToken DOLLAR text = some (command, more) ∧ ArgumentFits env command more

variable {env : ControlEnv} {this : Control}

theorem answered_sprintf (answer : Bytes) :
    Answered (do return (this, ← sprintf accessSize answer))
      ↔ (0 : UInt8) ∉ answer ∧ answer.length < accessSize := by
  unfold Answered sprintf
  by_cases hlen : answer.length < accessSize
  · rw [if_pos hlen]
    constructor
    · intro h
      obtain ⟨this', answer', heq, hnul, hfits⟩ := h
      cases heq
      exact ⟨hnul, hlen⟩
    · intro h
      exact ⟨this, answer, rfl, h.1, hlen⟩
  · rw [if_neg hlen]
    constructor
    · intro h
      obtain ⟨this', answer', heq, -⟩ := h
      cases heq
    · intro h
      exact absurd h.2 hlen

/-- The answer of `pthread_kill` takes at most eleven characters. -/
theorem answered_signal (hkill : -2 ^ 31 ≤ env.kill ∧ env.kill < 2 ^ 31) {done : Bytes}
    (hdone : (0 : UInt8) ∉ done ∧ done.length < accessSize) :
    Answered (do return (this, ← signalShutdown env done)) := by
  unfold signalShutdown
  split
  next =>
    have hnum : (Decimal.intText env.kill).length ≤ 11 :=
      Decimal.intText_length (by omega) (by omega)
    apply (answered_sprintf _).mpr
    constructor
    · simp only [List.mem_append, not_or]
      exact ⟨⟨by decide, Decimal.intText_nul _⟩, by decide⟩
    · have hwords : (ascii
          "tried signaling termination and failed!\npthread_kill returned: ").length = 63 := by decide
      have hend : (ascii "\n").length = 1 := rfl
      unfold accessSize
      rw [List.length_append, List.length_append]
      omega
  next => exact (answered_sprintf done).mpr hdone

/-- Words around an argument. -/
theorem answered_around {before behind args : Bytes} (hbefore : (0 : UInt8) ∉ before)
    (hbehind : (0 : UInt8) ∉ behind) (hargs : (0 : UInt8) ∉ args) :
    Answered (do return (this, ← sprintf accessSize (before ++ args ++ behind)))
      ↔ before.length + args.length + behind.length < accessSize := by
  rw [answered_sprintf, List.length_append, List.length_append]
  simp only [List.mem_append, not_or]
  exact and_iff_right ⟨⟨hbefore, hargs⟩, hbehind⟩

section Fits

variable {command more args rest : Bytes}

theorem argumentFits_other (hadd : command ≠ ascii "add_filter")
    (hremove : command ≠ ascii "remove_filter") : ArgumentFits env command more := by
  intro args rest _
  exact ⟨fun h => absurd h hadd, fun h => absurd h hremove⟩

theorem argumentFits_none (h : firstToken DOLLAR more = none) : ArgumentFits env command more := by
  intro args rest hsome
  rw [h] at hsome
  cases hsome

theorem argumentFits_add (h : firstToken DOLLAR more = some (args, rest)) :
    ArgumentFits env (ascii "add_filter") more
      ↔ args.length ≤ if env.add args = 0 then 232 else 226 := by
  constructor
  · intro hfits
    exact (hfits args rest h).1 rfl
  · intro hle args' rest' h'
    rw [h] at h'
    cases h'
    exact ⟨fun _ => hle, fun hremove => absurd hremove (by decide)⟩

theorem argumentFits_remove (h : firstToken DOLLAR more = some (args, rest)) :
    ArgumentFits env (ascii "remove_filter") more ↔ args.length ≤ 222 := by
  constructor
  · intro hfits
    exact (hfits args rest h).2 rfl
  · intro hle args' rest' h'
    rw [h] at h'
    cases h'
    exact ⟨fun hadd => absurd hadd (by decide), fun _ => hle⟩

/-- **The answer to a command**: only the argument of the two filter commands can be too long. -/
theorem answered_command
    (hmsg : this.statusMsg.length < statusSize ∧ (0 : UInt8) ∉ this.statusMsg)
    (hkill : -2 ^ 31 ≤ env.kill ∧ env.kill < 2 ^ 31) (hnul : (0 : UInt8) ∉ text)
    (hfirst : firstToken DOLLAR text = some (command, more)) :
    AnswersSafely env this (text ++ 0 :: tail) ↔ ArgumentFits env command more := by
  have hmore := (firstToken_nul hnul hfirst).2
  unfold AnswersSafely survHandleRequest
  rw [recognise_eq hnul, ok_bind, hfirst]
  simp only [Option.map_some, Option.bind_some]
  -- the branches of the handler, in its order; only the last two print what the client has sent
  by_cases hshutdown : command = ascii "shutdown"
  · rw [if_pos hshutdown, hshutdown]
    apply iff_of_true _ (argumentFits_other (by decide) (by decide))
    split
    · exact (answered_sprintf _).mpr (by decide)
    · exact answered_signal hkill (by decide)
  · rw [if_neg hshutdown]
    by_cases hrestart : command = ascii "restart"
    · rw [if_pos hrestart, hrestart]
      apply iff_of_true _ (argumentFits_other (by decide) (by decide))
      split
      · exact (answered_sprintf _).mpr (by decide)
      · exact answered_signal hkill (by decide)
    · rw [if_neg hrestart]
      by_cases hstatus : command = ascii "get_status"
      · rw [if_pos hstatus, hstatus]
        apply iff_of_true _ (argumentFits_other (by decide) (by decide))
        apply (answered_sprintf _).mpr
        exact ⟨hmsg.2, Nat.lt_of_lt_of_le hmsg.1 (by decide)⟩
      · rw [if_neg hstatus]
        by_cases hadd : command = ascii "add_filter"
        · rw [if_pos hadd, hadd]
          cases hsecond : firstToken DOLLAR more with
          | none =>
              exact iff_of_true ((answered_sprintf _).mpr (by decide)) (argumentFits_none hsecond)
          | some q =>
              obtain ⟨args, rest⟩ := q
              have hargs := (firstToken_nul hmore hsecond).1
              rw [argumentFits_add hsecond]
              simp only [Option.map_some]
              by_cases hok : env.add args = 0
              · rw [if_neg (not_not.mpr hok), if_pos hok, answered_around (by decide) (by decide) hargs]
                show 7 + args.length + 16 < 256 ↔ _
                omega
              · rw [if_pos hok, if_neg hok, answered_around (by decide) (by decide) hargs]
                show 14 + args.length + 15 < 256 ↔ _
                omega
        · rw [if_neg hadd]
          by_cases hremove : command = ascii "remove_filter"
          · rw [if_pos hremove, hremove]
            cases hsecond : firstToken DOLLAR more with
            | none =>
                exact iff_of_true ((answered_sprintf _).mpr (by decide)) (argumentFits_none hsecond)
            | some q =>
                obtain ⟨args, rest⟩ := q
                have hargs := (firstToken_nul hmore hsecond).1
                rw [argumentFits_remove hsecond]
                simp only [Option.map_some]
                rw [answered_around (by decide) (by decide) hargs]
                show 16 + args.length + 17 < 256 ↔ _
                omega
          · rw [if_neg hremove]
            exact iff_of_true ((answered_sprintf _).mpr (by decide)) (argumentFits_other hadd hremove)

end Fits

end Request

/-- **Which requests are handled safely.**  The status text always fits its 200 bytes; a request of
at most 256 bytes is answered, and within the buffer, exactly if it has a command and the argument of
a filter command leaves room for the words around it. -/
theorem requests_safe_iff {getMaxPID ownPID : Int} {bootTime : UInt32} {s : Surveiller}
    (h0 : survInit getMaxPID ownPID bootTime = .ok (some s)) :
    (∀ msg, ReachedStatus s msg → msg.length + 1 ≤ statusSize ∧ (0 : UInt8) ∉ msg)
    ∧ ∀ (env : ControlEnv) (this : Control) (text tail : Bytes),
        -2 ^ 31 ≤ env.kill → env.kill < 2 ^ 31 → ReachedStatus s this.statusMsg →
        (0 : UInt8) ∉ text → text.length + 1 ≤ accessSize →
        (AnswersSafely env this (text ++ 0 :: tail) ↔ Answerable env text) := by
  constructor
  · intro msg hmsg
    exact hmsg.fits h0
  · intro env this text tail hlow hhigh hmsg hnul _
    have hfits := hmsg.fits h0
    unfold Answerable
    cases hfirst : firstToken DOLLAR text with
    | none =>
        constructor
        · -- there is nothing to compare with
          intro h
          obtain ⟨this', answer, heq, -⟩ := h
          unfold survHandleRequest at heq
          rw [recognise_eq hnul, hfirst] at heq
          cases heq
        · intro h
          obtain ⟨command, more, heq, -⟩ := h
          cases heq
    | some p =>
        obtain ⟨command, more⟩ := p
        rw [answered_command hfits ⟨hlow, hhigh⟩ hnul hfirst]
        constructor
        · intro h
          exact ⟨command, more, rfl, h⟩
        · intro h
          obtain ⟨command', more', heq, h⟩ := h
          cases heq
          exact h

/-- A daemon that adds every filter and can be signalled. -/
def ControlEnv.obliging : ControlEnv := ⟨0, fun _ => 0⟩

/-- A daemon that is starting up. -/
def Control.starting : Control := ⟨false, false, startText, []⟩

theorem requests_safe_sample :
    AnswersSafely .obliging .starting (ascii "add_filter$/home" ++ [0]) := by
  have h0 : survInit 10 1 0 = .ok (some (.initial ⟨List.replicate 4 .null, 4, 10⟩ 0)) := by rfl
  apply ((requests_safe_iff h0).2 .obliging .starting (ascii "add_filter$/home") [] (by decide)
    (by decide) .start (by decide) (by decide)).mpr
  have hsecond : firstToken DOLLAR (ascii "/home") = some (ascii "/home", []) := by decide
  exact ⟨ascii "add_filter", ascii "/home", by decide, (argumentFits_add hsecond).mpr (by decide)⟩

theorem not_answered {f : Fault} : ¬ Answered (.error f) := by
  intro h
  obtain ⟨this, answer, heq, -⟩ := h
  cases heq

/-- A request of nothing but a separator, and an argument that fits the request and not the
answer. -/
theorem requests_unsafe :
    (survHandleRequest .obliging .starting (ascii "$" ++ [0]) = .error .nullDeref
      ∧ ¬ AnswersSafely .obliging .starting (ascii "$" ++ [0]))
    ∧ ∃ path : Bytes, (ascii "add_filter$" ++ path).length + 1 ≤ accessSize
        ∧ ¬ AnswersSafely .obliging .starting (ascii "add_filter$" ++ path ++ [0]) := by
  have hnull : survHandleRequest .obliging .starting (ascii "$" ++ [0]) = .error .nullDeref := by rfl
  have hlen : (ascii "add_filter$" ++ List.replicate 233 97).length + 1 ≤ accessSize := by
    rw [List.length_append, List.length_replicate]
    decide
  refine ⟨⟨hnull, ?_⟩, List.replicate 233 97, hlen, ?_⟩
  · unfold AnswersSafely
    rw [hnull]
    exact not_answered
  · have hpath : IsToken DOLLAR (List.replicate 233 97) := by
      refine ⟨List.cons_ne_nil _ _, ?_, ?_⟩ <;>
        (intro hm; exact absurd (List.eq_of_mem_replicate hm) (by decide))
    have hfirst : firstToken DOLLAR (ascii "add_filter$" ++ List.replicate 233 97)
        = some (ascii "add_filter", List.replicate 233 97) :=
      firstToken_delimited add_filter_token
    have hnul : (0 : UInt8) ∉ ascii "add_filter$" ++ List.replicate 233 97 := by
      rw [List.mem_append, not_or]
      exact ⟨by decide, hpath.nul⟩
    intro hsafe
    have hfits := (answered_command (by decide) (by decide) hnul hfirst).mp hsafe
    have hroom := (argumentFits_add (firstToken_last hpath)).mp hfits
    rw [List.length_replicate] at hroom
    exact absurd hroom (by decide)

end DirSurveiller
