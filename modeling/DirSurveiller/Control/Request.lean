/-
  DirSurveiller.Control.Request — control requests, from `watchdog_ctrl` to the daemon.

  The client formats one request into 300 bytes and writes it; `surv_handleAccess` reads at most 256
  bytes of it into a buffer that still holds what was there before; `surv_handleRequest` cuts the
  buffer at `$` into a command and its argument.

  Main result:
    * `request_survives_iff` — which paths arrive as they were sent.
-/
import DirSurveiller.Lib.Decimal
import DirSurveiller.Lib.Strtok

namespace DirSurveiller

open CMachine Outcome

/-! ## §1. The client. -/

/-- `struct arguments`, as far as `main` reads it, once `argp_parse` has filled it; the two paths
are `realpath`'s, empty if the option is not given. -/
structure Arguments where
  start : Bool
  stop : Bool
  restart : Bool
  status : Bool
  get : Bool
  abort : Bool
  addFile : Bytes
  removeFile : Bytes
  deriving Repr, DecidableEq

/-- No option is given. -/
def Arguments.none : Arguments :=
  { start := false, stop := false, restart := false, status := false, get := false, abort := false
    addFile := [], removeFile := [] }

/-- `sprintf` into an array of `size` bytes. -/
def sprintf (size : Nat) (text : Bytes) : Except Fault Bytes :=
  if text.length < size then .ok text else .error .outOfRange

/-- `write(so_fd, request, strlen(request)+1)` -/
def withNul (request : Bytes) : Bytes := request ++ [0]

/-- `char request[300]` -/
def requestSize : Nat := 300

/-- `main` of `watchdog_ctrl`: the blocks it writes to the daemon it has connected to.  `reached i`
says whether the `i`-th `write` succeeds. -/
def watchdogCtrl (reached : Nat → Bool) (args : Arguments) : Except Fault (List Bytes) :=
  if args.abort ∨ (args.start ∧ args.stop) ∨ (args.stop ∧ args.restart) ∨ args.get then .ok []
  else
    let status := args.status ∨ ¬ (args.stop ∨ args.start ∨ args.addFile ≠ []
      ∨ args.removeFile ≠ [] ∨ args.restart)
    let sent := if status then [withNul (ascii "get_status$")] else []
    if args.start then .ok []
    -- a `write` that fails ends the client
    else if status ∧ ¬ reached 0 then .ok sent
    else if args.stop then do
      let request ← sprintf requestSize (ascii "shutdown$")
      return sent ++ [withNul request]
    else if args.restart then do
      let request ← sprintf requestSize (ascii "restart$")
      return sent ++ [withNul request]
    else if args.addFile ≠ [] then do
      let request ← sprintf requestSize (ascii "add_filter$" ++ args.addFile)
      return sent ++ [withNul request]
    -- the same test again, where the other path is meant
    else if args.addFile ≠ [] then do
      let request ← sprintf requestSize (ascii "remove_filter$" ++ args.removeFile)
      return sent ++ [withNul request]
    else .ok sent

/-! ## §2. The daemon. -/

/-- `char buf[256]` and `char answer[256]` of `surv_handleAccess` -/
def accessSize : Nat := 256

/-- `read(i, buf, sizeof(buf))` of a block that has arrived; the rest of the buffer stays. -/
def readInto (prior block : Bytes) : Bytes :=
  block.take accessSize ++ prior.drop (block.take accessSize).length

/-- `'$'` -/
def DOLLAR : UInt8 := 36

/-- The string a token pointer stands for, `none` for `NULL`. -/
def tokenText (block : Bytes) : Option Nat → Except Fault (Option Bytes)
  | none => .ok none
  | some p => (cstring (block.drop p)).map some

/-- The two calls of `strtok`: the command and its argument, `none` for `NULL`. -/
def recognise (request : Bytes) : Except Fault (Option Bytes × Option Bytes) := do
  let (command, block, next) ← strtok DOLLAR request 0
  let (args, block, _) ← strtok DOLLAR block next
  return (← tokenText block command, ← tokenText block args)

/-- What a request reads or changes of the `surveiller`.  `openFilter` lists what has been
inserted into the trie. -/
structure Control where
  shuttingDown : Bool
  restart : Bool
  statusMsg : Bytes
  openFilter : List Bytes
  deriving Repr, DecidableEq

/-- The answers of the environment: `pthread_kill`, and `openCall_filter__add`. -/
structure ControlEnv where
  kill : Int
  add : Bytes → Int

/-- `pthread_kill(*this->shutdownThreadId, SIGINT)` and the answer to it. -/
def signalShutdown (env : ControlEnv) (done : Bytes) : Except Fault Bytes :=
  if env.kill ≠ 0 then
    sprintf accessSize (ascii "tried signaling termination and failed!\npthread_kill returned: "
      ++ Decimal.intText env.kill ++ ascii "\n")
  else sprintf accessSize done

/-- `surv_handleRequest`: the state it leaves and the text in `answer`. -/
def survHandleRequest (env : ControlEnv) (this : Control) (request : Bytes) :
    Except Fault (Control × Bytes) := do
  let (command, args) ← recognise request
  match command with
  -- `strcmp(NULL, "shutdown")`
  | none => .error .nullDeref
  | some command =>
    if command = ascii "shutdown" then
      if this.shuttingDown then
        return (this, ← sprintf accessSize (ascii "already in the process of shutting down!\n"))
      else
        return (this, ← signalShutdown env (ascii "shutting watchdog down...\n"))
    else if command = ascii "restart" then
      if this.shuttingDown then
        return (this, ← sprintf accessSize (ascii "already in the process of shutting down!\n"))
      else
        -- the flag is set before the signal is sent, and stays if that fails
        return ({ this with restart := true },
          ← signalShutdown env (ascii "restarting now...\n"))
    else if command = ascii "get_status" then
      return (this, ← sprintf accessSize this.statusMsg)
    else if command = ascii "add_filter" then
      match args with
      | none =>
          return (this, ← sprintf accessSize (ascii "Error: Need something to add to filter list!\n"))
      | some args =>
          let filtered := { this with openFilter := this.openFilter ++ [args] }
          if env.add args ≠ 0 then
            return (filtered,
              ← sprintf accessSize (ascii "Error adding\n " ++ args ++ ascii "\nto filter list"))
          else
            return (filtered,
              ← sprintf accessSize (ascii "Added\n " ++ args ++ ascii "\n to filter list"))
    else if command = ascii "remove_filter" then
      match args with
      | none =>
          return (this, ← sprintf accessSize (ascii "Error: Need something to add to filter list!\n"))
      | some args =>
          -- `ret = 1;`: nothing is ever removed
          return (this,
            ← sprintf accessSize (ascii "Error removing\n " ++ args ++ ascii "\nfrom filter list"))
    else
      return (this, ← sprintf accessSize (ascii "Request not recognized!!"))

/-! ## §3. The trip of a path. -/

/-- `--add` and `--delete` -/
inductive FilterOption where
  | add
  | delete
  deriving Repr, DecidableEq

/-- The arguments when the option is given alone. -/
def FilterOption.arguments (p : Bytes) : FilterOption → Arguments
  | .add => { Arguments.none with addFile := p }
  | .delete => { Arguments.none with removeFile := p }

/-- The command the daemon should recognise. -/
def FilterOption.command : FilterOption → Bytes
  | .add => ascii "add_filter"
  | .delete => ascii "remove_filter"

/-- The client writes one request, and the daemon reads the command and the path from it. -/
def Survives (reached : Nat → Bool) (prior : Bytes) (option : FilterOption) (p : Bytes) : Prop :=
  ∃ request, watchdogCtrl reached (option.arguments p) = .ok [request]
    ∧ recognise (readInto prior request) = .ok (some option.command, some p)

section Survives

variable {reached : Nat → Bool} {prior p : Bytes}

theorem watchdogCtrl_add (hp : p ≠ []) :
    watchdogCtrl reached (FilterOption.add.arguments p)
      = (sprintf requestSize (ascii "add_filter$" ++ p)).map fun request => [withNul request] := by
  unfold watchdogCtrl FilterOption.arguments Arguments.none
  simp only [Bool.false_eq_true, false_or, or_false, and_self, if_false, ne_eq, hp,
    not_false_eq_true, not_true_eq_false, if_true, false_and]
  cases sprintf requestSize (ascii "add_filter$" ++ p) with
  | error e => rfl
  | ok request => rfl

/-- `--delete` writes nothing: its branch tests the path of the other option. -/
theorem watchdogCtrl_delete (hp : p ≠ []) :
    watchdogCtrl reached (FilterOption.delete.arguments p) = .ok [] := by
  unfold watchdogCtrl FilterOption.arguments Arguments.none
  simp [hp]

theorem add_filter_token : IsToken DOLLAR (ascii "add_filter") :=
  ⟨by decide, by decide, by decide⟩

/-- The first token of an `add_filter` request, and what is left for the second. -/
theorem strtok_command (block rest : Bytes) (hblock : block = ascii "add_filter" ++ DOLLAR :: rest) :
    strtok DOLLAR block 0 = .ok (some 0, block.set 10 0, 11)
      ∧ (block.set 10 0).drop 11 = rest
      ∧ ∃ tail, block.set 10 0 = ascii "add_filter" ++ 0 :: tail := by
  have hdrop : block.drop 0 = ascii "add_filter" ++ DOLLAR :: rest := hblock
  have hset := set_delimited hdrop
  exact ⟨strtok_delimited add_filter_token (by decide) hdrop, hset.2, rest, hset.1⟩

/-- The second `strtok` leaves the command alone. -/
theorem command_after {block tail block' : Bytes} {start : Option Nat} {next : Nat}
    (hblock : block = ascii "add_filter" ++ 0 :: tail)
    (h : strtok DOLLAR block 11 = .ok (start, block', next)) :
    cstring block' = .ok (ascii "add_filter") := by
  rw [← List.drop_zero (l := block)] at hblock
  have hkept := strtok_keeps h add_filter_token.nul hblock (by decide)
  rwa [List.drop_zero] at hkept

/-- What is recognised of an `add_filter` request depends on the second token only. -/
theorem recognise_add {block rest q : Bytes} (hblock : block = ascii "add_filter" ++ DOLLAR :: rest) :
    recognise block = .ok (some (ascii "add_filter"), some q)
      ↔ ∃ start block' next, strtok DOLLAR (block.set 10 0) 11 = .ok (some start, block', next)
          ∧ cstring (block'.drop start) = .ok q := by
  obtain ⟨hfirst, -, tail, htail⟩ := strtok_command block rest hblock
  unfold recognise
  rw [hfirst]
  simp only [ok_bind]
  -- the second call goes on behind the NUL that the first has put over the delimiter
  cases hsecond : strtok DOLLAR (block.set 10 0) 11 with
  | error e =>
      constructor
      · intro h
        cases h
      · rintro ⟨start, block', next, h, -⟩
        cases h
  | ok result =>
    obtain ⟨start, block', next⟩ := result
    have hcommand : tokenText block' (some 0) = .ok (some (ascii "add_filter")) := by
      show (cstring (block'.drop 0)).map some = .ok (some (ascii "add_filter"))
      rw [List.drop_zero, command_after htail hsecond]
      rfl
    simp only [ok_bind, hcommand]
    cases start with
    | none =>
        constructor
        · intro h
          cases h
        · rintro ⟨start, block'', next', h, -⟩
          cases h
    | some start =>
        have hread : tokenText block' (some start) = (cstring (block'.drop start)).map some := rfl
        rw [hread]
        cases hargs : cstring (block'.drop start) with
        | error e =>
            constructor
            · intro h
              cases h
            · rintro ⟨start', block'', next', h, h'⟩
              cases h
              rw [hargs] at h'
              cases h'
        | ok args =>
            constructor
            · intro h
              cases h
              exact ⟨start, block', next, rfl, hargs⟩
            · rintro ⟨start', block'', next', h, h'⟩
              cases h
              rw [hargs] at h'
              cases h'
              rfl

/-- What the daemon reads of an `add_filter` request: the buffer's size cuts it. -/
theorem readInto_add (hprior : prior.length = accessSize) :
    ∃ rest, readInto prior (withNul (ascii "add_filter$" ++ p)) = ascii "add_filter" ++ DOLLAR :: rest
      ∧ (p.length ≤ 244 → ∃ tail, rest = p ++ 0 :: tail)
      ∧ (244 < p.length → rest = p.take 245) := by
  have hword : ascii "add_filter$" = ascii "add_filter" ++ [DOLLAR] := by decide
  have hten : (ascii "add_filter").length = 10 := by decide
  have hblock : withNul (ascii "add_filter$" ++ p) = ascii "add_filter" ++ DOLLAR :: (p ++ [0]) := by
    unfold withNul
    rw [hword]
    simp
  have htake : (ascii "add_filter" ++ DOLLAR :: (p ++ [0])).take accessSize
      = ascii "add_filter" ++ DOLLAR :: (p ++ [0]).take 245 := by
    rw [List.take_append, hten, List.take_of_length_le (by rw [hten]; decide)]
    rfl
  refine ⟨(p ++ [0]).take 245
    ++ prior.drop (ascii "add_filter" ++ DOLLAR :: (p ++ [0]).take 245).length, ?_, ?_, ?_⟩
  · unfold readInto
    rw [hblock, htake]
    simp
  · intro hshort
    refine ⟨prior.drop (ascii "add_filter" ++ DOLLAR :: (p ++ [0]).take 245).length, ?_⟩
    rw [List.take_of_length_le (by simp only [List.length_append, List.length_singleton]; omega)]
    simp
  · intro hlong
    rw [List.take_append_of_le_length (by omega), List.drop_eq_nil_of_le, List.append_nil]
    rw [hprior, List.length_append, List.length_cons, List.length_take, hten]
    unfold accessSize
    omega

/-- The daemon recognises the path it is sent if the path fits and has no separator. -/
theorem recognise_add_iff (hp : p ≠ []) (hnul : 0 ∉ p) (hprior : prior.length = accessSize) :
    recognise (readInto prior (withNul (ascii "add_filter$" ++ p)))
        = .ok (some (ascii "add_filter"), some p)
      ↔ DOLLAR ∉ p ∧ p.length ≤ 244 := by
  obtain ⟨rest, hread, hshort, hlong⟩ := readInto_add (p := p) hprior
  rw [recognise_add hread]
  obtain ⟨-, hrest, -⟩ := strtok_command _ _ hread
  constructor
  · rintro ⟨start, block', next, hsecond, hargs⟩
    have hdollar : DOLLAR ∉ p := strtok_delim_notMem hsecond hargs
    refine ⟨hdollar, ?_⟩
    by_contra hlen
    -- neither separator nor NUL is left in the buffer: the scan leaves it
    have hleft : ∀ b ∈ ((readInto prior (withNul (ascii "add_filter$" ++ p))).set 10 0).drop 11,
        b ≠ DOLLAR ∧ b ≠ 0 := by
      intro b hb
      rw [hrest, hlong (by omega)] at hb
      have hmem := List.mem_of_mem_take hb
      exact ⟨fun e => hdollar (e ▸ hmem), fun e => hnul (e ▸ hmem)⟩
    rw [strtok_unterminated hleft] at hsecond
    cases hsecond
  · rintro ⟨hdollar, hlen⟩
    obtain ⟨tail, htail⟩ := hshort hlen
    rw [htail] at hrest
    exact ⟨11, _, _, strtok_last ⟨hp, hdollar, hnul⟩ hrest, by
      rw [hrest]
      exact cstring_terminated hnul⟩

/-- **Requests survive the trip.**  A path arrives as it was sent exactly if it is sent with
`--add`, has no `$` in it and leaves room for its NUL in the daemon's buffer. -/
theorem request_survives_iff (reached : Nat → Bool) (prior p : Bytes) (option : FilterOption)
    (hp : p ≠ []) (hnul : 0 ∉ p) (hprior : prior.length = accessSize) :
    Survives reached prior option p ↔ option = .add ∧ DOLLAR ∉ p ∧ p.length ≤ 244 := by
  unfold Survives
  cases option with
  | delete =>
      constructor
      · rintro ⟨request, hsent, -⟩
        rw [watchdogCtrl_delete hp] at hsent
        cases hsent
      · rintro ⟨h, -⟩
        cases h
  | add =>
      rw [watchdogCtrl_add hp]
      have hlen : (ascii "add_filter$" ++ p).length = 11 + p.length := by
        rw [List.length_append]
        rfl
      constructor
      · rintro ⟨request, hsent, hrec⟩
        unfold sprintf at hsent
        split at hsent
        · cases hsent
          exact ⟨rfl, (recognise_add_iff hp hnul hprior).mp hrec⟩
        · cases hsent
      · rintro ⟨-, hfits⟩
        refine ⟨withNul (ascii "add_filter$" ++ p), ?_, (recognise_add_iff hp hnul hprior).mpr hfits⟩
        unfold sprintf requestSize
        rw [if_pos (by omega)]
        rfl

end Survives

theorem request_survives_etc :
    Survives (fun _ => true) (List.replicate 256 0) .add (ascii "/etc")
      ↔ FilterOption.add = .add ∧ DOLLAR ∉ ascii "/etc" ∧ (ascii "/etc").length ≤ 244 :=
  request_survives_iff _ _ _ _ (by decide) (by decide) List.length_replicate

/-- `--delete /etc` alone: nothing is written. -/
theorem delete_not_sent :
    ascii "/etc" ≠ [] ∧ 0 ∉ ascii "/etc" ∧ (ascii "/etc").length < 4096
      ∧ ¬ Survives (fun _ => true) (List.replicate 256 0) .delete (ascii "/etc") := by
  refine ⟨by decide, by decide, by decide, ?_⟩
  intro h
  obtain ⟨request, hsent, -⟩ := h
  cases hsent

end DirSurveiller
