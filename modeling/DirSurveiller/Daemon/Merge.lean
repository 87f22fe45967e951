/-
  DirSurveiller.Daemon.Merge — what the event loop does with the events it takes.

  `Daemon.Invariant` says which of `tempEcall` and `tempOcall` is pending at each place of the loop,
  what `main` knows about the queues there, and where each accepted event is.  A step of the main
  thread keeps it, one lemma for each place, and so does every other thread.

  Main result:
    * `events_conserved` — in every state of every interleaving, what the queues have accepted is what
      has been handed to the index, what is pending in the merge, and what is still queued, in this
      order.
-/
import DirSurveiller.Daemon.MainLoop

namespace DirSurveiller

open CMachine Outcome

/-! ## §1. The queues of the parsers. -/

section Queues

variable {s : Surveiller} {hand : List ExecRef} {openHand : List OpenRef}

/-- An accepted execCall. -/
theorem Surveiller.Invariant.receive (h : s.Invariant hand openHand) (e : ExecEvent)
    {queue : GRingBuffer ExecRef} (hwf : queue.Wf)
    (hheld : queue.held = s.commandQueue.held ++ [some s.heap.nextExec]) :
    Surveiller.Invariant
      { s with heap := s.heap.mallocExec false e.call, commandQueue := queue } hand openHand := by
  have hsound := (Arrival.receive (l := s.ledger hand openHand) e.fresh).sound h.sound
  refine ⟨?_, hwf, h.openWf, h.dispatchWf, ?_, h.opens, h.archived, h.once, fun p hp => ?_, h.links⟩
  · unfold Surveiller.ledger at hsound ⊢
    dsimp only at hsound ⊢
    rw [hheld, List.filterMap_append]
    exact hsound
  · show none ∉ queue.held
    rw [hheld]
    simpa using h.command
  · obtain ⟨d, hd⟩ := h.born p hp
    refine ⟨d, ?_⟩
    show (s.heap.births ++ [(false, e.call.identity)])[p.1]? = some (d, p.2.identity)
    rw [List.getElem?_append_left (List.getElem?_eq_some_iff.mp hd).1, hd]

/-- An accepted openCall. -/
theorem Surveiller.Invariant.receiveOpen (h : s.Invariant hand openHand) (o : OpenEvent)
    {queue : GRingBuffer OpenRef} (hwf : queue.Wf)
    (hheld : queue.held = s.openQueue.held ++ [some s.heap.nextOpen]) :
    Surveiller.Invariant
      { s with heap := s.heap.mallocOpen o.call, openQueue := queue } hand openHand := by
  have hsound := (Arrival.receiveOpen (l := s.ledger hand openHand) o.openText).sound h.sound
  refine ⟨?_, h.commandWf, hwf, h.dispatchWf, h.command, ?_, h.archived, h.once, h.born, h.links⟩
  · unfold Surveiller.ledger at hsound ⊢
    dsimp only at hsound ⊢
    rw [hheld, List.filterMap_append]
    exact hsound
  · show none ∉ queue.held
    rw [hheld]
    simpa using h.opens

/-- An execCall taken from its queue is in hand. -/
theorem Surveiller.Invariant.pop (h : s.Invariant hand openHand) {r : ExecRef}
    {rest : List (Option ExecRef)} {queue : GRingBuffer ExecRef}
    (hheld : s.commandQueue.held = some r :: rest) (hwf : queue.Wf) (hrest : queue.held = rest) :
    Surveiller.Invariant { s with commandQueue := queue } (r :: hand) openHand := by
  have hout : (s.ledger hand openHand).outside = r :: rest.filterMap id := by
    show s.commandQueue.held.filterMap id = _
    rw [hheld]
    rfl
  have hsound := (Arrival.pop hout).sound h.sound
  refine ⟨?_, hwf, h.openWf, h.dispatchWf, ?_, h.opens, h.archived, h.once, h.born, h.links⟩
  · unfold Surveiller.ledger at hsound ⊢
    dsimp only at hsound ⊢
    rw [hrest]
    exact hsound
  · show none ∉ queue.held
    rw [hrest]
    intro hnone
    exact h.command (by rw [hheld]; exact List.mem_cons_of_mem _ hnone)

/-- An openCall taken from its queue is in hand. -/
theorem Surveiller.Invariant.popOpen (h : s.Invariant hand openHand) {o : OpenRef}
    {rest : List (Option OpenRef)} {queue : GRingBuffer OpenRef}
    (hheld : s.openQueue.held = some o :: rest) (hwf : queue.Wf) (hrest : queue.held = rest) :
    Surveiller.Invariant { s with openQueue := queue } hand (o :: openHand) := by
  have hout : (s.ledger hand openHand).openOutside = o :: rest.filterMap id := by
    show s.openQueue.held.filterMap id = _
    rw [hheld]
    rfl
  have hsound := (Arrival.popOpen hout).sound h.sound
  refine ⟨?_, h.commandWf, hwf, h.dispatchWf, h.command, ?_, h.archived, h.once, h.born, h.links⟩
  · unfold Surveiller.ledger at hsound ⊢
    dsimp only at hsound ⊢
    rw [hrest]
    exact hsound
  · show none ∉ queue.held
    rw [hrest]
    intro hnone
    exact h.opens (by rw [hheld]; exact List.mem_cons_of_mem _ hnone)

/-- The flags do not matter. -/
theorem Surveiller.Invariant.flags (h : s.Invariant hand openHand) (shutting : Bool)
    (execSocket openSocket : ParserPhase) :
    Surveiller.Invariant { s with
      shuttingDown := shutting, processingExeccallSocket := execSocket
      processingOpencallSocket := openSocket } hand openHand :=
  ⟨h.sound, h.commandWf, h.openWf, h.dispatchWf, h.command, h.opens, h.archived, h.once, h.born,
    h.links⟩

end Queues

/-! ## §2. What the main thread does to the index. -/

/-- The main thread has worked on the index and the archive: the queues of the parsers and the flags
are as they were, and what it holds in hand and is not `lost`, it still holds. -/
structure Worked (s : Surveiller) (hand : List ExecRef) (openHand : List OpenRef)
    (lost : ExecRef → Prop) (openLost : OpenRef → Prop) (s' : Surveiller) : Prop where
  command : s'.commandQueue = s.commandQueue
  opens : s'.openQueue = s.openQueue
  execSocket : s'.processingExeccallSocket = s.processingExeccallSocket
  openSocket : s'.processingOpencallSocket = s.processingOpencallSocket
  next : s.heap.nextExec ≤ s'.heap.nextExec
  nextOpen : s'.heap.nextOpen = s.heap.nextOpen
  invariant : ∃ hand' openHand', (∀ x ∈ hand, ¬ lost x → x ∈ hand')
    ∧ (∀ y ∈ openHand, ¬ openLost y → y ∈ openHand') ∧ s'.Invariant hand' openHand'

section Worked

variable {s s' : Surveiller} {hand : List ExecRef} {openHand : List OpenRef}

theorem Worked.refl (h : s.Invariant hand openHand) :
    Worked s hand openHand (fun _ => False) (fun _ => False) s :=
  ⟨rfl, rfl, rfl, rfl, Nat.le_refl _, rfl, hand, openHand, fun _ hx _ => hx, fun _ hy _ => hy, h⟩

/-- The functions of the index. -/
theorem Worked.index {hand' : List ExecRef} {openHand' : List OpenRef} {lost : ExecRef → Prop}
    {openLost : OpenRef → Prop} (h : s.Invariant hand openHand) (ho : IndexOnly s s')
    (hworks : Works (s.ledger hand openHand) (s'.ledger hand' openHand'))
    (hinv : s'.Invariant hand' openHand') (hhand : ∀ x ∈ hand, ¬ lost x → x ∈ hand')
    (hopen : ∀ y ∈ openHand, ¬ openLost y → y ∈ openHand') :
    Worked s hand openHand lost openLost s' :=
  ⟨ho.commandQueue, ho.openQueue, ho.processingExeccallSocket, ho.processingOpencallSocket,
    hworks.next_le h.sound, hworks.nextOpen,
    hand', openHand', hhand,
    hopen, hinv⟩

theorem survAddExecCall_worked {granted again : Nat → Bool} {e : ExecRef}
    (h : s.Invariant hand openHand) (he : e ∈ hand) :
    Meets (Tolerated True) (survAddExecCall granted again s e) fun p =>
      Worked s hand openHand (· = e) (fun _ => False) p.2 := by
  obtain ⟨c, hc⟩ := h.sound.hand_live he
  replace hc : s.heap.execs e = some c := hc
  refine (survAddExecCall_meets hc h.sound.table.sane fun _ _ => trivial).mono fun p hp => ?_
  obtain ⟨hand', hkept, hworks, hinv⟩ := hp.invariant h he hc
  have hi : IndexOnly s p.2 := by
    cases hp with
    | direct => rfl
    | replaced => rfl
  exact .index h hi hworks hinv hkept fun y hy _ => hy

theorem survProcindexAdd_worked {granted : Nat → Bool} {e : ExecRef}
    (h : s.Invariant hand openHand) (he : e ∈ hand) :
    Meets (Tolerated True) (survProcindexAdd granted s e) fun p =>
      Worked s hand openHand (· = e) (fun _ => False) p.2 := by
  obtain ⟨c, hc⟩ := h.sound.hand_live he
  replace hc : s.heap.execs e = some c := hc
  refine (survProcindexAdd_meets h hc fun _ => trivial).mono fun p hp => ?_
  obtain ⟨q, hq, rfl⟩ := hp
  have hworks := hq.works (l := s.ledger hand openHand) he hc
  refine .index h rfl hworks (h.index rfl h.dispatchWf hworks) (fun x hx hne => ?_) fun y hy _ => hy
  split
  · exact (List.mem_erase_of_ne hne).mpr hx
  · exact hx

theorem survOpencallAdd_worked {alloc : OpencallAlloc} {o : OpenRef}
    (h : s.Invariant hand openHand) (ho : o ∈ openHand) :
    Meets (Tolerated True) (survOpencallAdd alloc s o) fun p =>
      Worked s hand openHand (fun _ => False) (· = o) p.2 := by
  obtain ⟨oc, hoc⟩ := h.sound.openHand_live ho
  replace hoc : s.heap.opens o = some oc := hoc
  refine (survOpencallAdd_meets h ho hoc fun _ => trivial).mono fun p hp => ?_
  obtain ⟨q, hq, rfl⟩ := hp
  obtain ⟨hand', openHand', hhand, hopen, hworks, hinv⟩ := hq.invariant h
  exact .index h rfl hworks hinv (fun x hx _ => hhand x hx) hopen

theorem survCheckProcVitals_worked (h : s.Invariant hand openHand) (gone : Nat → Bool) :
    Meets (Tolerated True) (survCheckProcVitals gone s) fun s' =>
      Worked s hand openHand (fun _ => False) (fun _ => False) s' := by
  refine (survCheckProcVitals_meets h.sound h.dispatchWf gone).mono fun s' hs' => ?_
  obtain ⟨hand', hkept, hworks, hinv⟩ := hs'.invariant h
  exact .index h hs'.only hworks hinv (fun x hx _ => hkept x hx) fun y hy _ => hy

theorem survFlushProcindex_worked (h : s.Invariant hand openHand) :
    Meets (Tolerated True) (survFlushProcindex s) fun s' =>
      Worked s hand openHand (fun _ => False) (fun _ => False) s' := by
  refine (survFlushProcindex_meets h.sound h.dispatchWf).mono fun s' hs' => ?_
  obtain ⟨hand', hkept, hworks, hinv⟩ := hs'.invariant h
  exact .index h hs'.only hworks hinv (fun x hx _ => hkept x hx) fun y hy _ => hy

theorem dispatchBatch_worked (h : s.Invariant hand openHand) (env : Nat → DispatchEnv) :
    Meets (Tolerated True) (dispatchBatch env s) fun s' =>
      Worked s hand openHand (fun _ => False) (fun _ => False) s' := by
  refine ((dispatchBatch_meets h).weaken fun f hf => hf.mono fun _ => trivial).mono fun s' hs' => ?_
  obtain ⟨hand', hkept, hworks, hinv⟩ := hs'.invariant
  exact ⟨hs'.only.commandQueue, hs'.only.openQueue, hs'.only.processingExeccallSocket,
    hs'.only.processingOpencallSocket, hworks.next_le h.sound,
    hworks.nextOpen, hand', openHand, fun x hx _ => hkept x hx, fun y hy _ => hy, hinv⟩

end Worked

/-! ## §3. The invariant of the loop. -/

/-- What was accepted is what was handed over, what is pending, and what is queued, in this order. -/
def Flow {α : Type} (accepted handed pending : List α) (queue : List (Option α)) : Prop :=
  accepted.map some = (handed ++ pending).map some ++ queue

section Flow

variable {α : Type} {accepted handed pending : List α} {queue : List (Option α)} {x : α}

theorem Flow.accept (h : Flow accepted handed pending queue) :
    Flow (accepted ++ [x]) handed pending (queue ++ [some x]) := by
  unfold Flow at *
  rw [List.map_append, h, List.append_assoc]
  rfl

theorem Flow.take (h : Flow accepted handed [] (some x :: queue)) :
    Flow accepted handed [x] queue := by
  unfold Flow at *
  rw [h, List.append_nil, List.map_append, List.append_assoc]
  rfl

theorem Flow.hand (h : Flow accepted handed [x] queue) :
    Flow accepted (handed ++ [x]) [] queue := by
  unfold Flow at *
  rw [h, List.append_nil]

end Flow

namespace Daemon

/-- `tempEcall` has been taken from its queue and not been handed over yet. -/
def execPending (d : Daemon) : Bool :=
  match d.pc with
  | .hasNext | .readNext | .handOther => !d.ecallFirst
  | .readBothOpen => true
  | _ => d.compMode

/-- `tempOcall` has been taken from its queue and not been handed over yet. -/
def openPending (d : Daemon) : Bool :=
  match d.pc with
  | .hasNext | .readNext | .handOther => d.ecallFirst
  | _ => d.compMode

/-- The execCall that has been taken from its queue and not been handed over yet. -/
def pendingExec (d : Daemon) : List ExecRef := if d.execPending then d.tempEcall.toList else []

/-- The openCall that has been taken from its queue and not been handed over yet. -/
def pendingOpen (d : Daemon) : List OpenRef := if d.openPending then d.tempOcall.toList else []

/-- The calls that a variable of `main` stands for: one while it is pending, and none otherwise,
whatever it still points to. -/
inductive Pending {α : Type} : Bool → Option α → List α → Prop
  | idle (temp : Option α) : Pending false temp []
  | held (x : α) : Pending true (some x) [x]

/-- What the variables of `main` say at each place of the loop. -/
def Located (d : Daemon) : Prop :=
  match d.pc with
  | .top => d.compMode = false → d.readyCalls = false
  | .merge | .hasNext | .handOther => d.compMode = true
  | .readNext => d.compMode = true ∧ (d.ecallFirst = true → d.surv.commandQueue.held ≠ [])
      ∧ (d.ecallFirst = false → d.surv.openQueue.held ≠ [])
  | .sizeExec => d.compMode = false ∧ d.readyCalls = false
  | .sizeOpen => d.compMode = false ∧ (d.readyCalls = true → d.surv.commandQueue.held ≠ [])
  | .readBothExec =>
      d.compMode = false ∧ d.surv.commandQueue.held ≠ [] ∧ d.surv.openQueue.held ≠ []
  | .readBothOpen => d.compMode = false ∧ d.surv.openQueue.held ≠ []
  | .readOpen => d.compMode = false ∧ d.surv.openQueue.held ≠ []
  | .readExec => d.compMode = false ∧ d.surv.commandQueue.held ≠ []
  | _ => d.compMode = false → d.readyCalls = false

/-- What holds while the calls in `execs` and `opens` are pending. -/
structure Holding (d : Daemon) (execs : List ExecRef) (opens : List OpenRef) : Prop where
  owned : ∃ hand openHand, d.surv.Invariant hand openHand
    ∧ (∀ e ∈ execs, e ∈ hand) ∧ ∀ o ∈ opens, o ∈ openHand
  execFlow : Flow d.acceptedExecs d.handedExecs execs d.surv.commandQueue.held
  openFlow : Flow d.acceptedOpens d.handedOpens opens d.surv.openQueue.held
  nodup : d.acceptedExecs.Nodup ∧ d.acceptedOpens.Nodup
  known : (∀ r ∈ d.acceptedExecs, r < d.surv.heap.nextExec)
    ∧ ∀ o ∈ d.acceptedOpens, o < d.surv.heap.nextOpen

/-- The invariant of the loop. -/
structure Invariant (d : Daemon) : Prop where
  holding : ∃ execs opens, d.Holding execs opens ∧ Pending d.execPending d.tempEcall execs
    ∧ Pending d.openPending d.tempOcall opens
  located : d.Located

end Daemon

theorem Daemon.Pending.eq {α : Type} {pending : Bool} {temp : Option α} {l : List α}
    (h : Daemon.Pending pending temp l) : l = if pending then temp.toList else [] := by
  cases h with
  | idle => rfl
  | held => rfl

theorem Daemon.Pending.of_true {α : Type} {temp : Option α} {l : List α}
    (h : Daemon.Pending true temp l) : ∃ x, temp = some x ∧ l = [x] := by
  cases h with
  | held x => exact ⟨x, rfl, rfl⟩

theorem Daemon.Pending.of_false {α : Type} {temp : Option α} {l : List α}
    (h : Daemon.Pending false temp l) : l = [] := by
  cases h with
  | idle => rfl

section Loop

variable {d : Daemon} {hand : List ExecRef} {openHand : List OpenRef} (env : MainEnv)

/-- The main thread starts with the invariant. -/
theorem Daemon.initial_invariant {getMaxPID ownPID : Int} {bootTime : UInt32} {s : Surveiller}
    (h0 : survInit getMaxPID ownPID bootTime = .ok (some s)) : (Daemon.initial s).Invariant := by
  obtain ⟨hinv, -⟩ := survInit_invariant h0
  have hqueues : s.commandQueue.held = [] ∧ s.openQueue.held = [] := by
    unfold survInit at h0
    obtain ⟨⟨ret, t⟩, -, h0⟩ := bind_ok h0
    by_cases hret : ret = NOMINAL
    · simp only [if_pos hret, pure_eq_ok, Except.ok.injEq, Option.some.injEq] at h0
      subst h0
      exact ⟨GRingBuffer.held_init, GRingBuffer.held_init⟩
    · simp only [if_neg hret, pure_eq_ok, Except.ok.injEq] at h0
      cases h0
  refine ⟨⟨[], [], ⟨⟨[], [], hinv, fun e he => he, fun o ho => ho⟩, ?_, ?_,
    ⟨List.nodup_nil, List.nodup_nil⟩, ?_, ?_⟩, .idle none, .idle none⟩, fun _ => rfl⟩
  · show Flow [] [] [] s.commandQueue.held
    rw [hqueues.1]
    rfl
  · show Flow [] [] [] s.openQueue.held
    rw [hqueues.2]
    rfl
  · exact fun r hr => absurd hr List.not_mem_nil
  · exact fun o ho => absurd ho List.not_mem_nil

/-! ## §4. Reading and handing over. -/

variable {execs : List ExecRef} {opens : List OpenRef}

/-- The main thread has worked on the index. -/
theorem Daemon.Holding.worked (h : d.Holding execs opens)
    {lost : ExecRef → Prop} {openLost : OpenRef → Prop} {surv : Surveiller}
    (hw : Worked d.surv hand openHand lost openLost surv)
    {handed : List ExecRef} {openHanded : List OpenRef} {execs' : List ExecRef}
    {opens' : List OpenRef} (hhand : ∀ e ∈ execs', e ∈ hand ∧ ¬ lost e)
    (hopen : ∀ o ∈ opens', o ∈ openHand ∧ ¬ openLost o)
    (hexecs : Flow d.acceptedExecs handed execs' d.surv.commandQueue.held)
    (hopens : Flow d.acceptedOpens openHanded opens' d.surv.openQueue.held) :
    ({ d with surv := surv, handedExecs := handed, handedOpens := openHanded } :
      Daemon).Holding execs' opens' := by
  obtain ⟨hand', openHand', hkept, hkept', hinv⟩ := hw.invariant
  refine ⟨⟨hand', openHand', hinv, fun e he => ?_, fun o ho => ?_⟩, ?_, ?_, h.nodup, ?_, ?_⟩
  · obtain ⟨hin, hstays⟩ := hhand e he
    exact hkept e hin hstays
  · obtain ⟨hin, hstays⟩ := hopen o ho
    exact hkept' o hin hstays
  · show Flow d.acceptedExecs handed execs' surv.commandQueue.held
    rw [hw.command]
    exact hexecs
  · show Flow d.acceptedOpens openHanded opens' surv.openQueue.held
    rw [hw.opens]
    exact hopens
  · intro r hr
    exact Nat.lt_of_lt_of_le (h.known.1 r hr) hw.next
  · intro o ho
    show o < surv.heap.nextOpen
    rw [hw.nextOpen]
    exact h.known.2 o ho

/-- `tempEcall` has been handed over: what changed is `surv`. -/
def HandedExec (d : Daemon) (e : ExecRef) (opens : List OpenRef) (d' : Daemon) : Prop :=
  d'.Holding [] opens
    ∧ ∃ surv, d' = { d with surv := surv, handedExecs := d.handedExecs ++ [e] }

/-- `tempOcall` has been handed over: what changed is `surv`. -/
def HandedOpen (d : Daemon) (o : OpenRef) (execs : List ExecRef) (d' : Daemon) : Prop :=
  d'.Holding execs []
    ∧ ∃ surv, d' = { d with surv := surv, handedOpens := d.handedOpens ++ [o] }

/-- Handing over `tempEcall` in the merge. -/
theorem Daemon.addExecCall_meets {e : ExecRef} (h : d.Holding [e] opens)
    (htemp : d.tempEcall = some e) :
    Meets (Tolerated True) (d.addExecCall env) (HandedExec d e opens) := by
  obtain ⟨hand, openHand, hinv, hhand, hopen⟩ := h.owned
  unfold Daemon.addExecCall
  split
  · next hnone =>
      rw [htemp] at hnone
      cases hnone
  · next x hsome =>
      obtain rfl : e = x := Option.some.inj (htemp.symm.trans hsome)
      refine (survAddExecCall_worked hinv (hhand e (List.mem_singleton.mpr rfl))).bind fun p hp => ?_
      refine ⟨h.worked hp (fun x hx => absurd hx List.not_mem_nil) (fun o ho => ⟨hopen o ho, id⟩)
        h.execFlow.hand h.openFlow, p.2, rfl⟩

/-- Handing over `tempEcall` outside of the merge. -/
theorem Daemon.add_meets {e : ExecRef} (h : d.Holding [e] opens) (htemp : d.tempEcall = some e) :
    Meets (Tolerated True) (d.add env) (HandedExec d e opens) := by
  obtain ⟨hand, openHand, hinv, hhand, hopen⟩ := h.owned
  unfold Daemon.add
  split
  · next hnone =>
      rw [htemp] at hnone
      cases hnone
  · next x hsome =>
      obtain rfl : e = x := Option.some.inj (htemp.symm.trans hsome)
      refine (survProcindexAdd_worked hinv (hhand e (List.mem_singleton.mpr rfl))).bind fun p hp => ?_
      refine ⟨h.worked hp (fun x hx => absurd hx List.not_mem_nil) (fun o ho => ⟨hopen o ho, id⟩)
        h.execFlow.hand h.openFlow, p.2, rfl⟩

/-- Handing over `tempOcall`. -/
theorem Daemon.opencallAdd_meets {o : OpenRef} (h : d.Holding execs [o])
    (htemp : d.tempOcall = some o) :
    Meets (Tolerated True) (d.opencallAdd env) (HandedOpen d o execs) := by
  obtain ⟨hand, openHand, hinv, hhand, hopen⟩ := h.owned
  unfold Daemon.opencallAdd
  split
  · next hnone =>
      rw [htemp] at hnone
      cases hnone
  · next x hsome =>
      obtain rfl : o = x := Option.some.inj (htemp.symm.trans hsome)
      refine (survOpencallAdd_worked hinv (hopen o (List.mem_singleton.mpr rfl))).bind fun p hp => ?_
      refine ⟨h.worked hp (fun e he => ⟨hhand e he, id⟩) (fun y hy => absurd hy List.not_mem_nil)
        h.execFlow h.openFlow.hand, p.2, rfl⟩

/-- Taking an execCall from its queue. -/
theorem Daemon.Holding.readCommand (h : d.Holding [] opens)
    (hne : d.surv.commandQueue.held ≠ []) :
    ∃ e queue, d.readCommand
        = { d with surv := { d.surv with commandQueue := queue }, tempEcall := some e }
      ∧ d.readCommand.Holding [e] opens := by
  obtain ⟨hand, openHand, hinv, -, hopen⟩ := h.owned
  obtain ⟨e, rest, hheld⟩ := GRingBuffer.held_cons hne hinv.command
  obtain ⟨queue, hread, hrest, -⟩ := GRingBuffer.read_cons hheld d.tempEcall
  have hwf := GRingBuffer.read_wf hinv.commandWf d.tempEcall
  rw [hread] at hwf
  have heq : d.readCommand
      = { d with surv := { d.surv with commandQueue := queue }, tempEcall := some e } := by
    unfold Daemon.readCommand
    rw [hread]
  have hflow := h.execFlow
  rw [hheld, ← hrest] at hflow
  refine ⟨e, queue, heq, ?_⟩
  rw [heq]
  exact ⟨⟨e :: hand, openHand, hinv.pop hheld hwf hrest, fun x hx => by
    rw [List.mem_singleton.mp hx]; exact List.mem_cons_self, hopen⟩, hflow.take, h.openFlow,
    h.nodup, h.known⟩

/-- Taking an openCall from its queue. -/
theorem Daemon.Holding.readOpen (h : d.Holding execs []) (hne : d.surv.openQueue.held ≠ []) :
    ∃ o queue, d.readOpen
        = { d with surv := { d.surv with openQueue := queue }, tempOcall := some o }
      ∧ d.readOpen.Holding execs [o] := by
  obtain ⟨hand, openHand, hinv, hhand, -⟩ := h.owned
  obtain ⟨o, rest, hheld⟩ := GRingBuffer.held_cons hne hinv.opens
  obtain ⟨queue, hread, hrest, -⟩ := GRingBuffer.read_cons hheld d.tempOcall
  have hwf := GRingBuffer.read_wf hinv.openWf d.tempOcall
  rw [hread] at hwf
  have heq : d.readOpen
      = { d with surv := { d.surv with openQueue := queue }, tempOcall := some o } := by
    unfold Daemon.readOpen
    rw [hread]
  have hflow := h.openFlow
  rw [hheld, ← hrest] at hflow
  refine ⟨o, queue, heq, ?_⟩
  rw [heq]
  exact ⟨⟨hand, o :: openHand, hinv.popOpen hheld hwf hrest, hhand, fun y hy => by
    rw [List.mem_singleton.mp hy]; exact List.mem_cons_self⟩, h.execFlow, hflow.take,
    h.nodup, h.known⟩

/-! ## §5. A step of the main thread. -/

/-- Places, flags and counters are not part of what the loop holds. -/
theorem Daemon.Holding.moved (h : d.Holding execs opens) (pc : Pc) (dead ready first comp : Bool)
    (counter : UInt64) :
    ({ d with pc := pc, dead := dead, readyCalls := ready, ecallFirst := first, compMode := comp
              counter := counter } : Daemon).Holding execs opens :=
  ⟨h.owned, h.execFlow, h.openFlow, h.nodup, h.known⟩

theorem Daemon.Invariant.of_holding {p q : Bool} (h : d.Holding execs opens)
    (hexec : d.execPending = p) (hopen : d.openPending = q)
    (hexecs : Daemon.Pending p d.tempEcall execs) (hopens : Daemon.Pending q d.tempOcall opens)
    (hloc : d.Located) : d.Invariant := by
  subst hexec hopen
  exact ⟨⟨execs, opens, h, hexecs, hopens⟩, hloc⟩

/-- What the invariant says at a place where it is known what is pending. -/
theorem Daemon.Invariant.holds (h : d.Invariant) {p q : Bool} (hexec : d.execPending = p)
    (hopen : d.openPending = q) : ∃ execs opens, d.Holding execs opens
      ∧ Daemon.Pending p d.tempEcall execs ∧ Daemon.Pending q d.tempOcall opens := by
  subst hexec hopen
  exact h.holding

/-- Only `surv` has changed, and by work on the index. -/
theorem Daemon.Holding.resting (h : d.Holding execs opens) (shutting : Bool)
    {m : Except Fault Surveiller}
    (hm : ∀ hand openHand, d.surv.Invariant hand openHand → Meets (Tolerated True) m fun s' =>
      Worked { d.surv with shuttingDown := shutting } hand openHand (fun _ => False)
        (fun _ => False) s') :
    Meets (Tolerated True) m fun surv => ({ d with surv := surv } : Daemon).Holding execs opens
      ∧ surv.commandQueue = d.surv.commandQueue ∧ surv.openQueue = d.surv.openQueue := by
  obtain ⟨hand, openHand, hinv, hhand, hopen⟩ := h.owned
  refine (hm hand openHand hinv).mono fun surv hw => ⟨?_, hw.command, hw.opens⟩
  have hd : ({ d with surv := { d.surv with shuttingDown := shutting } } : Daemon).Holding
      execs opens :=
    ⟨⟨hand, openHand, hinv.flags shutting _ _, hhand, hopen⟩, h.execFlow, h.openFlow, h.nodup,
      h.known⟩
  exact hd.worked hw (fun e he => ⟨hhand e he, id⟩) (fun o ho => ⟨hopen o ho, id⟩) hd.execFlow
    hd.openFlow

theorem Daemon.execPending_eq (hpc : d.pc ∉ [Pc.hasNext, .readNext, .handOther, .readBothOpen]) :
    d.execPending = d.compMode := by
  unfold Daemon.execPending
  split <;> simp_all

theorem Daemon.openPending_eq (hpc : d.pc ∉ [Pc.hasNext, .readNext, .handOther]) :
    d.openPending = d.compMode := by
  unfold Daemon.openPending
  split <;> simp_all

theorem Daemon.Invariant.mainStep_top (h : d.Invariant) (hpc : d.pc = .top) :
    Meets (Tolerated True) (d.mainStep env) Daemon.Invariant := by
  have hexec := d.execPending_eq (by rw [hpc]; decide)
  have hopen := d.openPending_eq (by rw [hpc]; decide)
  obtain ⟨execs, opens, hhold, hexecs, hopens⟩ := h.holds hexec hopen
  have hloc := h.located
  rw [Daemon.Located, hpc] at hloc
  have heq : d.checkCounter = { d.surv with shuttingDown := d.checkCounter.shuttingDown } := by
    unfold Daemon.checkCounter
    split <;> rfl
  have hvitals := hhold.resting d.checkCounter.shuttingDown (m := d.checkVitals env)
      fun hand openHand hinv => by
    have hcounter := hinv.flags d.checkCounter.shuttingDown d.surv.processingExeccallSocket
      d.surv.processingOpencallSocket
    rw [← heq]
    unfold Daemon.checkVitals
    split
    · exact survCheckProcVitals_worked (heq ▸ hcounter) env.gone
    · exact Worked.refl (heq ▸ hcounter)
  rw [Daemon.mainStep, hpc]
  refine hvitals.bind fun surv hsurv => ?_
  refine Daemon.Invariant.of_holding (p := d.compMode) (q := d.compMode)
    (hsurv.1.moved _ _ _ _ _ _) ?_ ?_ hexecs hopens ?_
  · unfold Daemon.execPending
    cases d.compMode <;> rfl
  · unfold Daemon.openPending
    cases d.compMode <;> rfl
  · unfold Daemon.Located
    cases hcomp : d.compMode with
    | true => rfl
    | false => exact ⟨rfl, hloc hcomp⟩

/-- The time stamps that the merge compares are those of live objects. -/
theorem Daemon.compareStamps_meets {e : ExecRef} {o : OpenRef} (h : d.Holding [e] [o])
    (htemp : d.tempEcall = some e) (htempOpen : d.tempOcall = some o) :
    Meets (Tolerated True) d.compareStamps fun _ => True := by
  obtain ⟨hand, openHand, hinv, hhand, hopen⟩ := h.owned
  obtain ⟨c, hc⟩ := hinv.sound.hand_live (hhand e (List.mem_singleton.mpr rfl))
  obtain ⟨oc, hoc⟩ := hinv.sound.openHand_live (hopen o (List.mem_singleton.mpr rfl))
  replace hc : d.surv.heap.execs e = some c := hc
  replace hoc : d.surv.heap.opens o = some oc := hoc
  unfold Daemon.compareStamps
  rw [htemp, htempOpen]
  show Meets (Tolerated True) (do
    let c ← d.surv.heap.exec e
    let oc ← d.surv.heap.openCall o
    return timercmpLe c.timeStamp oc.timeStamp) fun _ => True
  unfold Heap.exec Heap.openCall
  rw [hc, hoc]
  trivial

theorem Daemon.Invariant.mainStep_merge (h : d.Invariant) (hpc : d.pc = .merge) :
    Meets (Tolerated True) (d.mainStep env) Daemon.Invariant := by
  have hcomp := h.located
  rw [Daemon.Located, hpc] at hcomp
  have hexec := d.execPending_eq (by rw [hpc]; decide)
  have hopen := d.openPending_eq (by rw [hpc]; decide)
  obtain ⟨execs, opens, hhold, hexecs, hopens⟩ := h.holds (hexec.trans hcomp) (hopen.trans hcomp)
  obtain ⟨e, htemp, rfl⟩ := hexecs.of_true
  obtain ⟨o, htempOpen, rfl⟩ := hopens.of_true
  rw [Daemon.mainStep, hpc]
  refine (Daemon.compareStamps_meets hhold htemp htempOpen).bind fun first _ => ?_
  cases first with
  | true =>
      refine (Daemon.addExecCall_meets env hhold htemp).bind fun d1 h1 => ?_
      obtain ⟨hhold1, surv, rfl⟩ := h1
      exact .of_holding (hhold1.moved _ _ _ _ _ _) rfl rfl (.idle _) hopens hcomp
  | false =>
      refine (Daemon.opencallAdd_meets env hhold htempOpen).bind fun d1 h1 => ?_
      obtain ⟨hhold1, surv, rfl⟩ := h1
      exact .of_holding (hhold1.moved _ _ _ _ _ _) rfl rfl hexecs (.idle _) hcomp

theorem Daemon.Invariant.mainStep_hasNext (h : d.Invariant) (hpc : d.pc = .hasNext) :
    Meets (Tolerated True) (d.mainStep env) Daemon.Invariant := by
  have hcomp := h.located
  rw [Daemon.Located, hpc] at hcomp
  obtain ⟨execs, opens, hhold, hexecs, hopens⟩ := h.holds
    (show d.execPending = !d.ecallFirst by unfold Daemon.execPending; rw [hpc])
    (show d.openPending = d.ecallFirst by unfold Daemon.openPending; rw [hpc])
  rw [Daemon.mainStep, hpc]
  show Daemon.Invariant _
  split
  · next hnext =>
      refine .of_holding (hhold.moved _ _ _ _ _ _) rfl rfl hexecs hopens ⟨hcomp, ?_, ?_⟩
      · intro hfirst
        replace hfirst : d.ecallFirst = true := hfirst
        apply (GRingBuffer.size_ne_zero_iff _).mp
        simpa only [hfirst, true_and, not_true_eq_false, false_and, or_false] using hnext
      · intro hfirst
        replace hfirst : d.ecallFirst = false := hfirst
        apply (GRingBuffer.size_ne_zero_iff _).mp
        simpa only [hfirst, Bool.false_eq_true, not_false_eq_true, false_and, true_and,
          false_or] using hnext
  · exact .of_holding (hhold.moved _ _ _ _ _ _) rfl rfl hexecs hopens hcomp

theorem Daemon.Invariant.mainStep_readNext (h : d.Invariant) (hpc : d.pc = .readNext) :
    Meets (Tolerated True) (d.mainStep env) Daemon.Invariant := by
  have hloc := h.located
  rw [Daemon.Located, hpc] at hloc
  obtain ⟨hcomp, hexecQueue, hopenQueue⟩ := hloc
  obtain ⟨execs, opens, hhold, hexecs, hopens⟩ := h.holds
    (show d.execPending = !d.ecallFirst by unfold Daemon.execPending; rw [hpc])
    (show d.openPending = d.ecallFirst by unfold Daemon.openPending; rw [hpc])
  have hplain : d.compMode = false → d.readyCalls = false := fun hno => by
    rw [hcomp] at hno
    cases hno
  rw [Daemon.mainStep, hpc]
  cases hfirst : d.ecallFirst with
  | true =>
      rw [hfirst] at hexecs hopens
      obtain rfl := hexecs.of_false
      obtain ⟨e, queue, heq, hread⟩ := hhold.readCommand (hexecQueue hfirst)
      rw [heq] at hread
      show Daemon.Invariant { d.readCommand with pc := .testShutting }
      rw [heq]
      exact .of_holding (hread.moved _ _ _ _ _ _) hcomp hcomp (.held e) hopens hplain
  | false =>
      rw [hfirst] at hexecs hopens
      obtain rfl := hopens.of_false
      obtain ⟨o, queue, heq, hread⟩ := hhold.readOpen (hopenQueue hfirst)
      rw [heq] at hread
      show Daemon.Invariant { d.readOpen with pc := .testShutting }
      rw [heq]
      exact .of_holding (hread.moved _ _ _ _ _ _) hcomp hcomp hexecs (.held o) hplain

theorem Daemon.Invariant.mainStep_handOther (h : d.Invariant) (hpc : d.pc = .handOther) :
    Meets (Tolerated True) (d.mainStep env) Daemon.Invariant := by
  obtain ⟨execs, opens, hhold, hexecs, hopens⟩ := h.holds
    (show d.execPending = !d.ecallFirst by unfold Daemon.execPending; rw [hpc])
    (show d.openPending = d.ecallFirst by unfold Daemon.openPending; rw [hpc])
  rw [Daemon.mainStep, hpc]
  cases hfirst : d.ecallFirst with
  | true =>
      rw [hfirst] at hexecs hopens
      obtain rfl := hexecs.of_false
      obtain ⟨o, htemp, rfl⟩ := hopens.of_true
      refine (Daemon.opencallAdd_meets env hhold htemp).bind fun d1 h1 => ?_
      obtain ⟨hhold1, surv, rfl⟩ := h1
      exact .of_holding (hhold1.moved _ _ _ _ _ _) rfl rfl (.idle _) (.idle _) fun _ => rfl
  | false =>
      rw [hfirst] at hexecs hopens
      obtain rfl := hopens.of_false
      obtain ⟨e, htemp, rfl⟩ := hexecs.of_true
      refine (Daemon.addExecCall_meets env hhold htemp).bind fun d1 h1 => ?_
      obtain ⟨hhold1, surv, rfl⟩ := h1
      exact .of_holding (hhold1.moved _ _ _ _ _ _) rfl rfl (.idle _) (.idle _) fun _ => rfl

/-- Outside of the merge nothing is pending. -/
theorem Daemon.Invariant.idle (h : d.Invariant) (hcomp : d.compMode = false)
    (hpc : d.pc ∉ [Pc.hasNext, .readNext, .handOther, .readBothOpen]) : d.Holding [] [] := by
  have hexec := (d.execPending_eq hpc).trans hcomp
  have hopen := (d.openPending_eq fun hin => hpc (by simp at hin ⊢; tauto)).trans hcomp
  obtain ⟨execs, opens, hhold, hexecs, hopens⟩ := h.holds hexec hopen
  obtain rfl := hexecs.of_false
  obtain rfl := hopens.of_false
  exact hhold

theorem Daemon.Invariant.mainStep_sizeExec (h : d.Invariant) (hpc : d.pc = .sizeExec) :
    Meets (Tolerated True) (d.mainStep env) Daemon.Invariant := by
  have hloc := h.located
  rw [Daemon.Located, hpc] at hloc
  obtain ⟨hcomp, hready⟩ := hloc
  have hhold := h.idle hcomp (by rw [hpc]; decide)
  rw [Daemon.mainStep, hpc]
  refine .of_holding (hhold.moved _ _ _ _ _ _) hcomp hcomp (.idle _) (.idle _) ⟨hcomp, ?_⟩
  intro hsize
  apply (GRingBuffer.size_ne_zero_iff _).mp
  rw [hready] at hsize
  simpa using hsize

theorem Daemon.Invariant.mainStep_sizeOpen (h : d.Invariant) (hpc : d.pc = .sizeOpen) :
    Meets (Tolerated True) (d.mainStep env) Daemon.Invariant := by
  have hloc := h.located
  rw [Daemon.Located, hpc] at hloc
  obtain ⟨hcomp, hexecQueue⟩ := hloc
  have hhold := h.idle hcomp (by rw [hpc]; decide)
  rw [Daemon.mainStep, hpc]
  show Daemon.Invariant _
  by_cases hopen : gRingBufferSize d.surv.openQueue ≠ 0
  · have hne := (GRingBuffer.size_ne_zero_iff _).mp hopen
    rw [if_pos hopen]
    cases hready : d.readyCalls with
    | true =>
        exact .of_holding (hhold.moved _ _ _ _ _ _) hcomp hcomp (.idle _) (.idle _)
          ⟨hcomp, hexecQueue hready, hne⟩
    | false =>
        exact .of_holding (hhold.moved _ _ _ _ _ _) hcomp hcomp (.idle _) (.idle _) ⟨hcomp, hne⟩
  · rw [if_neg hopen]
    cases hready : d.readyCalls with
    | true =>
        exact .of_holding (hhold.moved _ _ _ _ _ _) hcomp hcomp (.idle _) (.idle _)
          ⟨hcomp, hexecQueue hready⟩
    | false =>
        exact .of_holding (hhold.moved _ _ _ _ _ _) hcomp hcomp (.idle _) (.idle _)
          fun _ => rfl

theorem Daemon.Invariant.mainStep_readBothExec (h : d.Invariant) (hpc : d.pc = .readBothExec) :
    Meets (Tolerated True) (d.mainStep env) Daemon.Invariant := by
  have hloc := h.located
  rw [Daemon.Located, hpc] at hloc
  obtain ⟨hcomp, hexecQueue, hopenQueue⟩ := hloc
  have hhold := h.idle hcomp (by rw [hpc]; decide)
  obtain ⟨e, queue, heq, hread⟩ := hhold.readCommand hexecQueue
  rw [heq] at hread
  rw [Daemon.mainStep, hpc]
  show Daemon.Invariant { d.readCommand with pc := .readBothOpen }
  rw [heq]
  exact .of_holding (hread.moved _ _ _ _ _ _) rfl hcomp (.held e) (.idle _) ⟨hcomp, hopenQueue⟩

theorem Daemon.Invariant.mainStep_readBothOpen (h : d.Invariant) (hpc : d.pc = .readBothOpen) :
    Meets (Tolerated True) (d.mainStep env) Daemon.Invariant := by
  have hloc := h.located
  rw [Daemon.Located, hpc] at hloc
  obtain ⟨hcomp, hopenQueue⟩ := hloc
  obtain ⟨execs, opens, hhold, hexecs, hopens⟩ := h.holds
    (show d.execPending = true by unfold Daemon.execPending; rw [hpc])
    (show d.openPending = false by unfold Daemon.openPending; rw [hpc]; exact hcomp)
  obtain rfl := hopens.of_false
  obtain ⟨o, queue, heq, hread⟩ := hhold.readOpen hopenQueue
  rw [heq] at hread
  rw [Daemon.mainStep, hpc]
  show Daemon.Invariant { d.readOpen with compMode := true, pc := .top }
  rw [heq]
  exact .of_holding (hread.moved _ _ _ _ _ _) rfl rfl hexecs (.held o) fun hno => by cases hno

theorem Daemon.Invariant.mainStep_readOpen (h : d.Invariant) (hpc : d.pc = .readOpen) :
    Meets (Tolerated True) (d.mainStep env) Daemon.Invariant := by
  have hloc := h.located
  rw [Daemon.Located, hpc] at hloc
  obtain ⟨hcomp, hopenQueue⟩ := hloc
  have hhold := h.idle hcomp (by rw [hpc]; decide)
  obtain ⟨o, queue, heq, hread⟩ := hhold.readOpen hopenQueue
  rw [Daemon.mainStep, hpc]
  refine (Daemon.opencallAdd_meets env hread (by rw [heq])).bind fun d1 h1 => ?_
  obtain ⟨hhold1, surv, rfl⟩ := h1
  rw [heq] at hhold1 ⊢
  exact .of_holding (hhold1.moved _ _ _ _ _ _) hcomp hcomp (.idle _) (.idle _) fun _ => rfl

theorem Daemon.Invariant.mainStep_readExec (h : d.Invariant) (hpc : d.pc = .readExec) :
    Meets (Tolerated True) (d.mainStep env) Daemon.Invariant := by
  have hloc := h.located
  rw [Daemon.Located, hpc] at hloc
  obtain ⟨hcomp, hexecQueue⟩ := hloc
  have hhold := h.idle hcomp (by rw [hpc]; decide)
  obtain ⟨e, queue, heq, hread⟩ := hhold.readCommand hexecQueue
  rw [Daemon.mainStep, hpc]
  refine (Daemon.add_meets env hread (by rw [heq])).bind fun d1 h1 => ?_
  obtain ⟨hhold1, surv, rfl⟩ := h1
  rw [heq] at hhold1 ⊢
  exact .of_holding (hhold1.moved _ _ _ _ _ _) hcomp hcomp (.idle _) (.idle _) fun _ => rfl

/-- The places behind the two branches, up to the next round. -/
def Pc.closing : Pc → Bool
  | .merge | .hasNext | .readNext | .handOther | .sizeExec | .sizeOpen | .readBothExec
  | .readBothOpen | .readOpen | .readExec => false
  | _ => true

theorem Daemon.located_closing (hpc : d.pc.closing = true) :
    d.Located ↔ (d.compMode = false → d.readyCalls = false) := by
  unfold Daemon.Located
  cases hd : d.pc with
  | merge | hasNext | readNext | handOther | sizeExec | sizeOpen | readBothExec | readBothOpen
  | readOpen | readExec =>
      rw [hd] at hpc
      cases hpc
  | top | testShutting | testOpenSocket | testExecSocket | testOpenQueue | testCommandQueue | flush
  | dispatch | done => exact Iff.rfl

theorem Daemon.pending_closing (hpc : d.pc.closing = true) :
    d.execPending = d.compMode ∧ d.openPending = d.compMode := by
  constructor
  · exact d.execPending_eq fun hin => by revert hpc hin; cases d.pc <;> decide
  · exact d.openPending_eq fun hin => by revert hpc hin; cases d.pc <;> decide

/-- From one of these places to another. -/
theorem Daemon.Invariant.closing (h : d.Invariant) (hpc : d.pc.closing = true) {d' : Daemon}
    (hpc' : d'.pc.closing = true) (hcomp : d'.compMode = d.compMode)
    (hready : d'.readyCalls = d.readyCalls) (htemp : d'.tempEcall = d.tempEcall)
    (htempOpen : d'.tempOcall = d.tempOcall)
    (hhold : ∀ execs opens, d.Holding execs opens → d'.Holding execs opens) : d'.Invariant := by
  obtain ⟨hexec, hopen⟩ := d.pending_closing hpc
  obtain ⟨hexec', hopen'⟩ := d'.pending_closing hpc'
  obtain ⟨execs, opens, hd, hexecs, hopens⟩ := h.holds hexec hopen
  have hloc := (d.located_closing hpc).mp h.located
  refine .of_holding (hhold execs opens hd) (hexec'.trans hcomp) (hopen'.trans hcomp) ?_ ?_ ?_
  · rw [htemp]
    exact hexecs
  · rw [htempOpen]
    exact hopens
  · apply (d'.located_closing hpc').mpr
    rw [hcomp, hready]
    exact hloc

/-- A test of the exit. -/
theorem Daemon.Invariant.test (h : d.Invariant) (hpc : d.pc.closing = true) (passed dead : Bool)
    {next : Pc} (hnext : next.closing = true) :
    Daemon.Invariant { d.test passed next with dead := dead } := by
  refine h.closing hpc ?_ rfl rfl rfl rfl fun execs opens hd => hd.moved _ _ _ _ _ _
  unfold Daemon.test
  cases passed with
  | true => exact hnext
  | false => rfl

/-- Work on the index behind the branches. -/
theorem Daemon.Invariant.rest (h : d.Invariant) (hpc : d.pc.closing = true)
    {m : Except Fault Surveiller}
    (hm : ∀ hand openHand, d.surv.Invariant hand openHand → Meets (Tolerated True) m fun s' =>
      Worked d.surv hand openHand (fun _ => False) (fun _ => False) s')
    (next : Pc) (hnext : next.closing = true) (counter : UInt64) :
    Meets (Tolerated True)
      (m >>= fun surv => return { d with surv := surv, counter := counter, pc := next })
      Daemon.Invariant := by
  obtain ⟨hexec, hopen⟩ := d.pending_closing hpc
  obtain ⟨execs, opens, hhold, hexecs, hopens⟩ := h.holds hexec hopen
  have hloc := (d.located_closing hpc).mp h.located
  refine (hhold.resting d.surv.shuttingDown hm).bind fun surv hsurv => ?_
  refine .of_holding (hsurv.1.moved _ _ _ _ _ _) ?_ ?_ hexecs hopens ?_
  · exact (Daemon.pending_closing hnext).1
  · exact (Daemon.pending_closing hnext).2
  · exact (Daemon.located_closing hnext).mpr hloc

theorem Daemon.Invariant.mainStep_flush (h : d.Invariant) (hpc : d.pc = .flush) :
    Meets (Tolerated True) (d.mainStep env) Daemon.Invariant := by
  have hrest := h.rest (by rw [hpc]; rfl) (fun hand openHand hinv => survFlushProcindex_worked hinv)
    .dispatch rfl d.counter
  rw [Daemon.mainStep, hpc]
  exact hrest

theorem Daemon.Invariant.mainStep_dispatch (h : d.Invariant) (hpc : d.pc = .dispatch) :
    Meets (Tolerated True) (d.mainStep env) Daemon.Invariant := by
  have hrest := h.rest (m := d.dispatchCalls env) (by rw [hpc]; rfl) (fun hand openHand hinv => by
      unfold Daemon.dispatchCalls
      split
      · exact dispatchBatch_worked hinv env.dispatch
      · exact Worked.refl hinv)
    (if d.dead then .done else .top) (by cases d.dead <;> rfl) (d.counter + 1)
  rw [Daemon.mainStep, hpc]
  exact hrest

/-- **A step of the main thread keeps the invariant**, and uses no destroyed object. -/
theorem Daemon.Invariant.mainStep (h : d.Invariant) :
    Meets (Tolerated True) (d.mainStep env) Daemon.Invariant := by
  cases hpc : d.pc with
  | top => exact h.mainStep_top env hpc
  | merge => exact h.mainStep_merge env hpc
  | hasNext => exact h.mainStep_hasNext env hpc
  | readNext => exact h.mainStep_readNext env hpc
  | handOther => exact h.mainStep_handOther env hpc
  | sizeExec => exact h.mainStep_sizeExec env hpc
  | sizeOpen => exact h.mainStep_sizeOpen env hpc
  | readBothExec => exact h.mainStep_readBothExec env hpc
  | readBothOpen => exact h.mainStep_readBothOpen env hpc
  | readOpen => exact h.mainStep_readOpen env hpc
  | readExec => exact h.mainStep_readExec env hpc
  | testShutting | testOpenSocket | testExecSocket | testOpenQueue | testCommandQueue =>
      rw [Daemon.mainStep, hpc]
      exact h.test (by rw [hpc]; rfl) _ _ rfl
  | flush => exact h.mainStep_flush env hpc
  | dispatch => exact h.mainStep_dispatch env hpc
  | done =>
      rw [Daemon.mainStep, hpc]
      exact h

/-! ## §6. Any interleaving. -/

/-- An execCall is refused, or it is the last in its queue. -/
theorem Daemon.Holding.writeExec (h : d.Holding execs opens) (e : ExecEvent) :
    (d.writeExec e).Holding execs opens := by
  obtain ⟨hand, openHand, hinv, hhand, hopen⟩ := h.owned
  unfold Daemon.writeExec
  rcases GRingBuffer.write_cases hinv.commandWf (some d.surv.heap.nextExec) with
    hrefused | ⟨queue, hwrite, hwf, hheld⟩
  · rw [hrefused]
    exact h
  · rw [hwrite]
    refine ⟨⟨hand, openHand, hinv.receive e hwf hheld, hhand, hopen⟩, ?_, h.openFlow,
      ⟨?_, h.nodup.2⟩, ?_, h.known.2⟩
    · show Flow _ _ _ queue.held
      rw [hheld]
      exact h.execFlow.accept
    · show (d.acceptedExecs ++ [d.surv.heap.nextExec]).Nodup
      rw [List.nodup_append]
      refine ⟨h.nodup.1, List.nodup_cons.mpr ⟨List.not_mem_nil, List.nodup_nil⟩,
        fun r hr x hx heq => ?_⟩
      -- the address is new: those of the accepted calls are below it
      rw [List.mem_singleton.mp hx] at heq
      have hlt := h.known.1 r hr
      rw [heq] at hlt
      exact Nat.lt_irrefl _ hlt
    · intro r hr
      rcases List.mem_append.mp hr with hr | hr
      · exact Nat.lt_succ_of_lt (h.known.1 r hr)
      · rw [List.mem_singleton.mp hr]
        exact Nat.lt_succ_self _

/-- An openCall is refused, or it is the last in its queue. -/
theorem Daemon.Holding.writeOpen (h : d.Holding execs opens) (o : OpenEvent) :
    (d.writeOpen o).Holding execs opens := by
  obtain ⟨hand, openHand, hinv, hhand, hopen⟩ := h.owned
  unfold Daemon.writeOpen
  rcases GRingBuffer.write_cases hinv.openWf (some d.surv.heap.nextOpen) with
    hrefused | ⟨queue, hwrite, hwf, hheld⟩
  · rw [hrefused]
    exact h
  · rw [hwrite]
    refine ⟨⟨hand, openHand, hinv.receiveOpen o hwf hheld, hhand, hopen⟩, h.execFlow, ?_,
      ⟨h.nodup.1, ?_⟩, h.known.1, ?_⟩
    · show Flow _ _ _ queue.held
      rw [hheld]
      exact h.openFlow.accept
    · show (d.acceptedOpens ++ [d.surv.heap.nextOpen]).Nodup
      rw [List.nodup_append]
      refine ⟨h.nodup.2, List.nodup_cons.mpr ⟨List.not_mem_nil, List.nodup_nil⟩,
        fun r hr x hx heq => ?_⟩
      rw [List.mem_singleton.mp hx] at heq
      have hlt := h.known.2 r hr
      rw [heq] at hlt
      exact Nat.lt_irrefl _ hlt
    · intro r hr
      rcases List.mem_append.mp hr with hr | hr
      · exact Nat.lt_succ_of_lt (h.known.2 r hr)
      · rw [List.mem_singleton.mp hr]
        exact Nat.lt_succ_self _

/-- A parser or a flag: the main thread stays where it is, and no queue loses what it holds. -/
structure Beside (d d' : Daemon) : Prop where
  pc : d'.pc = d.pc
  readyCalls : d'.readyCalls = d.readyCalls
  ecallFirst : d'.ecallFirst = d.ecallFirst
  compMode : d'.compMode = d.compMode
  tempEcall : d'.tempEcall = d.tempEcall
  tempOcall : d'.tempOcall = d.tempOcall
  command : d.surv.commandQueue.held ≠ [] → d'.surv.commandQueue.held ≠ []
  opens : d.surv.openQueue.held ≠ [] → d'.surv.openQueue.held ≠ []

theorem Daemon.writeExec_beside (hwf : d.surv.commandQueue.Wf) (e : ExecEvent) :
    Beside d (d.writeExec e) := by
  unfold Daemon.writeExec
  rcases GRingBuffer.write_cases hwf (some d.surv.heap.nextExec) with
    hrefused | ⟨queue, hwrite, -, hheld⟩
  · rw [hrefused]
    exact ⟨rfl, rfl, rfl, rfl, rfl, rfl, id, id⟩
  · rw [hwrite]
    refine ⟨rfl, rfl, rfl, rfl, rfl, rfl, fun _ => ?_, id⟩
    show queue.held ≠ []
    rw [hheld]
    exact List.append_ne_nil_of_right_ne_nil _ (List.cons_ne_nil _ _)

theorem Daemon.writeOpen_beside (hwf : d.surv.openQueue.Wf) (o : OpenEvent) :
    Beside d (d.writeOpen o) := by
  unfold Daemon.writeOpen
  rcases GRingBuffer.write_cases hwf (some d.surv.heap.nextOpen) with
    hrefused | ⟨queue, hwrite, -, hheld⟩
  · rw [hrefused]
    exact ⟨rfl, rfl, rfl, rfl, rfl, rfl, id, id⟩
  · rw [hwrite]
    refine ⟨rfl, rfl, rfl, rfl, rfl, rfl, id, fun _ => ?_⟩
    show queue.held ≠ []
    rw [hheld]
    exact List.append_ne_nil_of_right_ne_nil _ (List.cons_ne_nil _ _)

/-- What the main thread knows about the queues, no other thread makes false. -/
theorem Beside.located {d' : Daemon} (h : Beside d d') (hloc : d.Located) : d'.Located := by
  unfold Daemon.Located at hloc ⊢
  rw [h.pc, h.compMode, h.readyCalls, h.ecallFirst]
  cases hpc : d.pc with
  | readNext =>
      rw [hpc] at hloc
      exact ⟨hloc.1, fun hf => h.command (hloc.2.1 hf), fun hf => h.opens (hloc.2.2 hf)⟩
  | sizeOpen =>
      rw [hpc] at hloc
      exact ⟨hloc.1, fun hr => h.command (hloc.2 hr)⟩
  | readBothExec =>
      rw [hpc] at hloc
      exact ⟨hloc.1, h.command hloc.2.1, h.opens hloc.2.2⟩
  | readBothOpen | readOpen =>
      rw [hpc] at hloc
      exact ⟨hloc.1, h.opens hloc.2⟩
  | readExec =>
      rw [hpc] at hloc
      exact ⟨hloc.1, h.command hloc.2⟩
  | top | merge | hasNext | handOther | sizeExec | testShutting | testOpenSocket | testExecSocket
  | testOpenQueue | testCommandQueue | flush | dispatch | done =>
      rw [hpc] at hloc
      exact hloc

theorem Beside.invariant {d' : Daemon} (hb : Beside d d') (h : d.Invariant)
    (hhold : ∀ execs opens, d.Holding execs opens → d'.Holding execs opens) : d'.Invariant := by
  obtain ⟨execs, opens, hd, hexecs, hopens⟩ := h.holding
  have hexec : d'.execPending = d.execPending := by
    unfold Daemon.execPending
    rw [hb.pc, hb.ecallFirst, hb.compMode]
  have hopen : d'.openPending = d.openPending := by
    unfold Daemon.openPending
    rw [hb.pc, hb.ecallFirst, hb.compMode]
  refine .of_holding (hhold execs opens hd) hexec hopen ?_ ?_ (hb.located h.located)
  · rw [hb.tempEcall]
    exact hexecs
  · rw [hb.tempOcall]
    exact hopens

theorem Daemon.Invariant.flags (h : d.Invariant) (shutting : Bool)
    (execSocket openSocket : ParserPhase) :
    ({ d with surv := { d.surv with
      shuttingDown := shutting, processingExeccallSocket := execSocket
      processingOpencallSocket := openSocket } } : Daemon).Invariant := by
  have hb : Beside d { d with surv := { d.surv with
      shuttingDown := shutting, processingExeccallSocket := execSocket
      processingOpencallSocket := openSocket } } := ⟨rfl, rfl, rfl, rfl, rfl, rfl, id, id⟩
  refine hb.invariant h fun execs opens hd => ?_
  obtain ⟨hand, openHand, hinv, hhand, hopen⟩ := hd.owned
  exact ⟨⟨hand, openHand, hinv.flags shutting execSocket openSocket, hhand, hopen⟩, hd.execFlow,
    hd.openFlow, hd.nodup, hd.known⟩

/-- **Whatever happens next keeps the invariant**, and uses no destroyed object. -/
theorem Daemon.Invariant.act (h : d.Invariant) (a : Act) :
    Meets (Tolerated True) (d.act a) Daemon.Invariant := by
  obtain ⟨execs, opens, hd, -⟩ := h.holding
  obtain ⟨hand, openHand, hinv, -⟩ := hd.owned
  cases a with
  | main env => exact h.mainStep env
  | writeExec e =>
      exact (d.writeExec_beside hinv.commandWf e).invariant h fun _ _ hd => hd.writeExec e
  | writeOpen o =>
      exact (d.writeOpen_beside hinv.openWf o).invariant h fun _ _ hd => hd.writeOpen o
  | execSocket phase => exact h.flags _ _ _
  | openSocket phase => exact h.flags _ _ _
  | shutDown => exact h.flags _ _ _

/-- **Every interleaving keeps the invariant**, and uses no destroyed object. -/
theorem Daemon.Invariant.run (h : d.Invariant) (acts : List Act) :
    Meets (Tolerated True) (d.run acts) Daemon.Invariant :=
  Meets.foldlM (fun a _ _ hd => hd.act a) h

/-- What holds of the calls that are pending. -/
theorem Daemon.Invariant.pending (h : d.Invariant) : d.Holding d.pendingExec d.pendingOpen := by
  obtain ⟨execs, opens, hd, hexecs, hopens⟩ := h.holding
  unfold Daemon.pendingExec Daemon.pendingOpen
  rw [← hexecs.eq, ← hopens.eq]
  exact hd

/-- What has been handed over are the first of the accepted calls. -/
theorem Flow.handed {α : Type} {accepted handed pending : List α} {queue : List (Option α)}
    (h : Flow accepted handed pending queue) : handed ++ pending <+: accepted := by
  refine ⟨accepted.drop (handed ++ pending).length, ?_⟩
  have hlen : (handed ++ pending).map some = (accepted.take (handed ++ pending).length).map some := by
    rw [List.map_take, h, List.take_append_of_le_length (by simp), List.take_of_length_le (by simp)]
  have htake := List.map_injective_iff.mpr (Option.some_injective α) hlen
  calc handed ++ pending ++ accepted.drop (handed ++ pending).length
      = accepted.take (handed ++ pending).length ++ accepted.drop (handed ++ pending).length := by
        rw [← htake]
    _ = accepted := List.take_append_drop _ _

/-- **Conservation and order of the merge.** -/
theorem events_conserved {getMaxPID ownPID : Int} {bootTime : UInt32} {s : Surveiller}
    (h0 : survInit getMaxPID ownPID bootTime = .ok (some s)) {acts : List Act}
    (hrun : (Daemon.initial s).run acts = .ok d) :
    (d.acceptedExecs.map some
        = (d.handedExecs ++ d.pendingExec).map some ++ d.surv.commandQueue.held
      ∧ d.acceptedOpens.map some
        = (d.handedOpens ++ d.pendingOpen).map some ++ d.surv.openQueue.held)
    ∧ (d.pc = .top →
        d.pendingExec = (if d.compMode then d.tempEcall.toList else [])
        ∧ d.pendingOpen = (if d.compMode then d.tempOcall.toList else [])
        ∧ (d.compMode = true → d.tempEcall ≠ none ∧ d.tempOcall ≠ none))
    ∧ (d.handedExecs ++ d.pendingExec).Nodup ∧ d.handedExecs ++ d.pendingExec <+: d.acceptedExecs
    ∧ (d.handedOpens ++ d.pendingOpen).Nodup ∧ d.handedOpens ++ d.pendingOpen <+: d.acceptedOpens := by
  have h := ((Daemon.initial_invariant h0).run acts).post hrun
  have hd := h.pending
  have hexecs := hd.execFlow.handed
  have hopens := hd.openFlow.handed
  refine ⟨⟨hd.execFlow, hd.openFlow⟩, fun hpc => ?_, hd.nodup.1.sublist hexecs.sublist, hexecs,
    hd.nodup.2.sublist hopens.sublist, hopens⟩
  have hexec := d.execPending_eq (by rw [hpc]; decide)
  have hopen := d.openPending_eq (by rw [hpc]; decide)
  unfold Daemon.pendingExec Daemon.pendingOpen
  rw [hexec, hopen]
  refine ⟨rfl, rfl, fun hcomp => ?_⟩
  obtain ⟨execs, opens, -, hpe, hpo⟩ := h.holds (hexec.trans hcomp) (hopen.trans hcomp)
  obtain ⟨e, he, -⟩ := hpe.of_true
  obtain ⟨o, ho, -⟩ := hpo.of_true
  rw [he, ho]
  exact ⟨Option.some_ne_none e, Option.some_ne_none o⟩

end Loop

/-- Every allocation is granted, and no process has died. -/
def MainEnv.granting : MainEnv :=
  ⟨fun _ => true, fun _ => true, .granting, fun _ => false,
    fun _ => ⟨fun _ _ => some fun _ => 0, 0, fun _ => []⟩⟩

/-- One event of each kind, and the main thread goes into `compMode`. -/
def enterMerge : List Act :=
  [.writeExec (.blank 1 9 ⟨1, 0⟩), .writeOpen (.blank 1 ⟨2, 0⟩)]
    ++ List.replicate 5 (.main .granting)

theorem events_conserved_sample :
    ∃ s d, survInit 10 1 0 = .ok (some s) ∧ (Daemon.initial s).run enterMerge = .ok d
      ∧ d.pc = .top ∧ d.compMode = true
      ∧ d.acceptedExecs.map some
        = (d.handedExecs ++ d.tempEcall.toList).map some ++ d.surv.commandQueue.held := by
  have h0 : survInit 10 1 0 = .ok (some (.initial ⟨List.replicate 4 .null, 4, 10⟩ 0)) := by rfl
  obtain ⟨d, hrun, hpc, hcomp⟩ : ∃ d,
      (Daemon.initial (.initial ⟨List.replicate 4 .null, 4, 10⟩ 0)).run enterMerge = .ok d
        ∧ d.pc = .top ∧ d.compMode = true := ⟨_, by rfl, by rfl, by rfl⟩
  obtain ⟨⟨hexecs, -⟩, htop, -⟩ := events_conserved h0 hrun
  rw [(htop hpc).1, hcomp] at hexecs
  exact ⟨_, d, h0, hrun, hpc, hcomp, hexecs⟩

end DirSurveiller
