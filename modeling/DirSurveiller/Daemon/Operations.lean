/-
  DirSurveiller.Daemon.Operations — runs of the operations on the process index.

  An `Op` is one call of a function that touches the index, or one dispatch batch.  Every call
  object is new: an operation that takes one makes it first, as the parser threads do.  What memory
  is granted, which processes are gone and what lies on the stack is part of the operation, so a
  list of operations determines the run.

  `applyOp_done` says what a step can do, `applyOp_meets` is the step lemma, `runOps_ran` the run
  lemma; `index_invariant` reads off what they say about the table.
-/
import Mathlib.Data.List.Induction
import DirSurveiller.Daemon.Invariant

namespace DirSurveiller

open CMachine Outcome

/-! ## §1. Operations. -/

inductive Op where
  | addExecCall (granted again : Nat → Bool) (e : ExecEvent)
  | add (granted : Nat → Bool) (e : ExecEvent)
  | opencallAdd (alloc : OpencallAlloc) (o : OpenEvent)
  | retrieve (pid : Int32)
  | checkVitals (gone : Nat → Bool)
  | flush
  | dispatch (env : Nat → DispatchEnv)

/-- A new execCall object; its address is the `nextExec` of before. -/
def Surveiller.newExec (s : Surveiller) (e : ExecEvent) : Surveiller :=
  { s with heap := s.heap.mallocExec false e.call }

/-- A new openCall object. -/
def Surveiller.newOpen (s : Surveiller) (o : OpenEvent) : Surveiller :=
  { s with heap := s.heap.mallocOpen o.call }

/-- `procindex_add(&surv.procs, ecall)` -/
def survProcindexAdd (granted : Nat → Bool) (this : Surveiller) (ecall : ExecRef) :
    Except Fault (Int × Surveiller) := do
  let (ret, heap, procs) ← procindexAdd granted this.heap this.procs ecall
  return (ret, { this with heap := heap, procs := procs })

/-- `procindex_opencall_add(&surv.procs, ocall)` -/
def survOpencallAdd (alloc : OpencallAlloc) (this : Surveiller) (ocall : OpenRef) :
    Except Fault (Int × Surveiller) := do
  let (ret, heap, procs) ← procindexOpencallAdd alloc this.heap this.procs ocall
  return (ret, { this with heap := heap, procs := procs })

def applyOp (s : Surveiller) : Op → Except Fault Surveiller
  | .addExecCall granted again e => do
      let (_, s) ← survAddExecCall granted again (s.newExec e) s.heap.nextExec
      return s
  | .add granted e => do
      let (_, s) ← survProcindexAdd granted (s.newExec e) s.heap.nextExec
      return s
  | .opencallAdd alloc o => do
      let (_, s) ← survOpencallAdd alloc (s.newOpen o) s.heap.nextOpen
      return s
  | .retrieve pid => do
      let (_, procs) ← procindexRetrieve s.procs pid.toInt
      return { s with procs := procs }
  | .checkVitals gone => survCheckProcVitals gone s
  | .flush => survFlushProcindex s
  | .dispatch env => dispatchBatch env s

def runOps (s : Surveiller) (ops : List Op) : Except Fault Surveiller := ops.foldlM applyOp s

/-- All memory an operation asks for is granted. -/
def Op.Granted : Op → Prop
  | .addExecCall granted again _ => (∀ k, granted k = true) ∧ ∀ k, again k = true
  | .add granted _ => ∀ k, granted k = true
  | .opencallAdd alloc _ => alloc.Granted
  | .dispatch env => ∀ i, (env i).mem.Total
  | _ => True

/-- The operation calls `procindex_add` with a call whose parent is in the index, and that call
takes the branch that links the two. -/
def Op.Links (s : Surveiller) : Op → Prop
  | .addExecCall _ _ e => s.procs.InRange e.pid ∧ FindsParent s.procs e.call
  | .add _ e => LinksParent s.procs e.call
  | .opencallAdd _ o => LinksParent s.procs (dummyCall o.call)
  | _ => False

/-- The parsed call an operation brings. -/
def Op.event : Op → Option ExecEvent
  | .addExecCall _ _ e => some e
  | .add _ e => some e
  | _ => none

def ExecEvent.identity (e : ExecEvent) : Identity := e.call.identity

/-! ## §2. One operation. -/

theorem ExecEvent.fresh (e : ExecEvent) : Fresh e.call :=
  ⟨rfl, ⟨rfl, by show 0 + 2 ≤ 8; omega, by show 8 ≤ 2 ^ 33; omega⟩, e.cmdName_text, e.args_text⟩

theorem OpenEvent.openText (o : OpenEvent) : OpenText o.call := ⟨o.filepath_text, o.cmdName_text⟩

section Step

variable {s s' : Surveiller} {hand : List ExecRef} {openHand : List OpenRef} {crash : Prop}

theorem Surveiller.Invariant.newExec (h : s.Invariant hand openHand) (e : ExecEvent) :
    (s.newExec e).Invariant (s.heap.nextExec :: hand) openHand := by
  refine ⟨(Arrival.create e.fresh).sound h.sound, h.commandWf, h.openWf, h.dispatchWf, h.command,
    h.opens, h.archived, h.once, fun p hp => ?_, h.links⟩
  obtain ⟨d, hd⟩ := h.born p hp
  refine ⟨d, ?_⟩
  show (s.heap.births ++ [(false, e.call.identity)])[p.1]? = some (d, p.2.identity)
  rw [List.getElem?_append_left (List.getElem?_eq_some_iff.mp hd).1, hd]

theorem Surveiller.Invariant.newOpen (h : s.Invariant hand openHand) (o : OpenEvent) :
    (s.newOpen o).Invariant hand (s.heap.nextOpen :: openHand) :=
  ⟨(Arrival.createOpen o.openText).sound h.sound, h.commandWf, h.openWf, h.dispatchWf, h.command,
    h.opens, h.archived, h.once, h.born, h.links⟩

theorem real_newExec (s : Surveiller) (e : ExecEvent) :
    (s.newExec e).heap.real = s.heap.real ++ [e.identity] := by
  show ((s.heap.births ++ [(false, e.call.identity)]).filter _).map _ = _
  rw [List.filter_append, List.map_append]
  rfl

/-- What `procindex_opencall_add` leaves of the daemon. -/
theorem OpencallDone.invariant {alloc : OpencallAlloc} {o : OpenRef} {oc : OpenCall}
    {p : Int × Heap × Procindex} (hd : OpencallDone alloc (s.ledger hand openHand) o oc p)
    (h : s.Invariant hand openHand) :
    ∃ hand' openHand', (∀ x ∈ hand, x ∈ hand') ∧ (∀ x ∈ openHand, x ≠ o → x ∈ openHand')
      ∧ Works (s.ledger hand openHand)
          (Surveiller.ledger { s with heap := p.2.1, procs := p.2.2 } hand' openHand')
      ∧ Surveiller.Invariant { s with heap := p.2.1, procs := p.2.2 } hand' openHand' := by
  obtain ⟨hand', hsub, hworks⟩ := hd.works
  refine ⟨hand', _, hsub, fun x hx hne => ?_, hworks, h.index rfl h.dispatchWf hworks⟩
  split
  · exact (List.mem_erase_of_ne hne).mpr hx
  · exact hx

theorem survProcindexAdd_meets {granted : Nat → Bool} {e : ExecRef} {c : ExecCall}
    (h : s.Invariant hand openHand) (hc : s.heap.execs e = some c)
    (hcrash : LinksParent s.procs c → crash) :
    Meets (Tolerated crash) (survProcindexAdd granted s e) fun p =>
      ∃ p', AddOutcome granted s.heap s.procs e c p'
        ∧ p = (p'.1, { s with heap := p'.2.1, procs := p'.2.2 }) :=
  (procindexAdd_meets hc h.sound.table.sane hcrash).bind fun p' hp => ⟨p', hp, rfl⟩

theorem survOpencallAdd_meets {alloc : OpencallAlloc} {o : OpenRef} {oc : OpenCall}
    (h : s.Invariant hand openHand) (ho : o ∈ openHand) (hoc : s.heap.opens o = some oc)
    (hcrash : ¬ (alloc.Granted ∧ s.procs.Wf ∧ ¬ LinksParent s.procs (dummyCall oc)) → crash) :
    Meets (Tolerated crash) (survOpencallAdd alloc s o) fun p =>
      ∃ p', OpencallDone alloc (s.ledger hand openHand) o oc p'
        ∧ p = (p'.1, { s with heap := p'.2.1, procs := p'.2.2 }) :=
  (procindexOpencallAdd_meets (l := s.ledger hand openHand) h.sound ho hoc hcrash).bind
    fun p' hp => ⟨p', hp, rfl⟩

/-- What an operation leaves. -/
structure Stepped (s : Surveiller) (op : Op) (s' : Surveiller) : Prop where
  invariant : ∃ hand openHand, s'.Invariant hand openHand
  maxPid : s'.procs.maxPid = s.procs.maxPid
  wf : op.Granted → s.procs.Wf → s'.procs.Wf
  links : op.Granted → s.procs.Wf → ¬ op.Links s
  real : s'.heap.real = s.heap.real ++ (op.event.map ExecEvent.identity).toList
  bootTime : s'.bootTime = s.bootTime
  safe : ∀ r, some r ∈ s.dispatchQueue.held ∨ r ∈ s.dispatched.map Prod.fst →
    some r ∈ s'.dispatchQueue.held ∨ r ∈ s'.dispatched.map Prod.fst

/-- What a write leaves on the queue. -/
theorem mem_write_held {rb : GRingBuffer ExecRef} (hq : rb.Wf) {x : Option ExecRef}
    (l : List (Option ExecRef)) (hx : x ∈ rb.held) : x ∈ (rb.held ++ l).take 1024 := by
  have hlen : rb.held.length ≤ 1024 := by
    rw [GRingBuffer.held_length]
    exact hq
  rw [List.take_append, List.take_of_length_le hlen]
  exact List.mem_append_left _ hx

theorem AddOutcome.unlinked {granted : Nat → Bool} {h : Heap} {t : Procindex} {call : ExecRef}
    {c : ExecCall} {p : Int × Heap × Procindex} (ho : AddOutcome granted h t call c p)
    (hall : ∀ k, granted k = true) (hwf : t.Wf) : ¬ LinksParent t c := by
  rintro ⟨hin, hfree, hparent⟩
  cases ho with
  | rejected hout => exact hout hin
  | noMemory _ hg => exact Bool.noConfusion (hg.wf hall hwf).1
  | occupied _ hg hk hown => exact hfree ((Procindex.Holds.extend hg.grows).mp ⟨_, _, hk, hown⟩)
  | added _ hg hk hown hno => exact hno hparent

theorem SurvAddOutcome.unlinked {granted again : Nat → Bool} {e : ExecRef} {c : ExecCall}
    {p : Int × Surveiller} (ho : SurvAddOutcome granted again s e c p)
    (hall : ∀ k, granted k = true) (hall' : ∀ k, again k = true) (hwf : s.procs.Wf) :
    ¬ (s.procs.InRange c.pid ∧ FindsParent s.procs c) := by
  rintro ⟨hin, hparent⟩
  cases ho with
  | direct hp hret =>
      -- a slot that holds the pid makes the first try fail, and then it is not the last
      refine hp.unlinked hall hwf ⟨hin, fun hholds => ?_, hparent⟩
      cases hp with
      | rejected hout => exact hout hin
      | noMemory _ hg => exact Bool.noConfusion (hg.wf hall hwf).1
      | occupied _ hg hk hown => exact hret rfl
      | @added t' k _ hg hk hown hno =>
          obtain ⟨k', r, hk', hr⟩ := (Procindex.Holds.extend hg.grows).mpr hholds
          rw [show k' = k by omega, hown] at hr
          cases hr
  | @replaced t k own p' _ hg hk hown hp =>
      obtain ⟨hne, j, r, hj, hr⟩ := hparent
      -- the parent is another process: its slot is not the one that is emptied
      have hjk : j ≠ k := by
        rintro rfl
        exact hne (Int32.toInt_inj.mp (by omega))
      have hwf' := ((hg.wf hall hwf).2).withSlot k (s := .null) (by simp)
      refine hp.unlinked hall' hwf' ⟨⟨hin.1, ?_⟩, ?_, hne, j, r, hj, ?_⟩
      · show c.pid.toInt ≤ t.maxPid
        rw [hg.grows.maxPid]
        exact hin.2
      · rintro ⟨k', r', hk', hr'⟩
        rw [show k' = k by omega] at hr'
        replace hr' : (t.procs.set k .null)[k]? = _ := hr'
        rw [List.getElem?_set_self (List.getElem?_eq_some_iff.mp hown).1] at hr'
        cases hr'
      · show (t.procs.set k .null)[j]? = _
        rw [List.getElem?_set_ne (Ne.symm hjk)]
        exact hg.grows.get hr

/-- A call that replaces another one sends that one to the archive. -/
theorem SurvAddOutcome.stepped {granted again : Nat → Bool} {e : ExecEvent} {p : Int × Surveiller}
    (h : s.Invariant hand openHand)
    (hp : SurvAddOutcome granted again (s.newExec e) s.heap.nextExec e.call p) :
    Stepped s (.addExecCall granted again e) p.2 := by
  have h1 := h.newExec e
  have hc : (s.newExec e).heap.execs s.heap.nextExec = some e.call := Function.update_self _ _ _
  obtain ⟨hand', -, hworks, hinv⟩ := hp.invariant h1 List.mem_cons_self hc
  refine ⟨⟨hand', openHand, hinv⟩, ?_, ?_, fun hg hwf => hp.unlinked hg.1 hg.2 hwf, ?_, ?_, ?_⟩
  · cases hp with
    | direct hp => exact hp.keeps.maxPid
    | replaced _ hg _ _ hp => exact hp.keeps.maxPid.trans hg.grows.maxPid
  · intro hgranted hwf
    cases hp with
    | direct hp => exact hp.wf hgranted.1 hwf
    | replaced _ hg _ _ hp =>
        exact hp.wf hgranted.2 ((hg.wf hgranted.1 hwf).2.withSlot _ (by simp))
  · exact hworks.framed.real.trans (real_newExec s e)
  · cases hp with
    | direct => rfl
    | replaced => rfl
  · intro r hr
    cases hp with
    | direct => exact hr
    | @replaced _ _ own _ _ _ _ _ hp =>
        refine hr.imp_left fun hr => ?_
        show some r ∈ (gRingBufferWrite s.dispatchQueue (some own)).2.held
        rw [GRingBuffer.write_held h.dispatchWf]
        exact mem_write_held h.dispatchWf _ hr

/-- A sweep over the table, for an operation that makes no call. -/
theorem Swept.stepped {hit : Nat → Bool} {lo n : Nat} {s' : Surveiller} {op : Op}
    (h : s.Invariant hand openHand) (hs : Swept hit lo s hand openHand n s')
    (hevent : op.event = none) (hlinks : ¬ op.Links s) : Stepped s op s' := by
  obtain ⟨hand', -, hworks, hinv⟩ := hs.invariant h
  refine ⟨⟨hand', openHand, hinv⟩, hs.maxPid, fun _ => hs.wf, fun _ _ => hlinks, ?_,
    hs.only.bootTime, fun r hr => ?_⟩
  · rw [hevent]
    exact hworks.framed.real.trans (List.append_nil _).symm
  · rw [hs.queue, hs.only.dispatched]
    exact hr.imp_left (mem_write_held h.dispatchWf _)

/-- What waited has been dispatched. -/
theorem DispatchedBatch.stepped {env : Nat → DispatchEnv} {s' : Surveiller}
    (hs : DispatchedBatch s hand openHand s.dispatchQueue.held.length s') :
    Stepped s (.dispatch env) s' := by
  obtain ⟨hand', -, hworks, hinv⟩ := hs.invariant
  refine ⟨⟨hand', openHand, hinv⟩, by rw [hs.only.procs],
    fun _ hwf => by rw [hs.only.procs]; exact hwf, fun _ _ hf => hf,
    hworks.framed.real.trans (List.append_nil _).symm, hs.only.bootTime, fun r hr => .inr ?_⟩
  have hall : some r ∈ s'.dispatched.map (some ∘ Prod.fst) := by
    rw [hs.dispatched, List.take_length, List.mem_append]
    rcases hr with hr | hr
    · exact .inr hr
    · obtain ⟨p, hp, rfl⟩ := List.mem_map.mp hr
      exact .inl (List.mem_map_of_mem hp)
  obtain ⟨p, hp, hpr⟩ := List.mem_map.mp hall
  exact List.mem_map.mpr ⟨p, hp, Option.some_inj.mp hpr⟩

/-- **The step lemma.**  A step through `NULL` happens only when memory is refused or a parent is
found. -/
theorem applyOp_meets (h : s.Invariant hand openHand) (op : Op) :
    Meets (Tolerated (¬ (op.Granted ∧ s.procs.Wf ∧ ¬ op.Links s))) (applyOp s op)
      (Stepped s op) := by
  cases op with
  | addExecCall granted again e =>
      have h1 := h.newExec e
      have hc : (s.newExec e).heap.execs s.heap.nextExec = some e.call := Function.update_self _ _ _
      exact (survAddExecCall_meets hc h1.sound.table.sane fun hin hf hsafe =>
        hsafe.2.2 ⟨hin, hf⟩).bind fun p hp => hp.stepped h
  | add granted e =>
      have h1 := h.newExec e
      have hc : (s.newExec e).heap.execs s.heap.nextExec = some e.call := Function.update_self _ _ _
      refine (survProcindexAdd_meets h1 hc fun hl hsafe =>
        hsafe.2.2 hl).bind fun p hp => ?_
      obtain ⟨p, hp, rfl⟩ := hp
      have hworks := hp.works (l := (s.newExec e).ledger (s.heap.nextExec :: hand) openHand)
        List.mem_cons_self hc
      exact ⟨⟨_, openHand, h1.index rfl h1.dispatchWf hworks⟩, hp.keeps.maxPid,
        fun hg hwf => hp.wf hg hwf, fun hg hwf => hp.unlinked hg hwf,
        hworks.framed.real.trans (real_newExec s e), rfl, fun _ hr => hr⟩
  | opencallAdd alloc o =>
      have h1 := h.newOpen o
      have hoc : (s.newOpen o).heap.opens s.heap.nextOpen = some o.call := Function.update_self _ _ _
      refine (survOpencallAdd_meets h1 List.mem_cons_self hoc id).bind fun p hp => ?_
      obtain ⟨p, hp, rfl⟩ := hp
      obtain ⟨hand', openHand', -, -, hworks, hinv⟩ := hp.invariant h1
      refine ⟨⟨hand', openHand', hinv⟩, hp.keeps.maxPid, hp.wf, hp.links, ?_, rfl, fun _ hr => hr⟩
      exact hworks.framed.real.trans (List.append_nil _).symm
  | retrieve pid =>
      refine (procindexRetrieve_meets h.sound.table.sane pid.toInt).bind fun p hp => ?_
      cases hp with
      | absent =>
          exact ⟨⟨hand, openHand, h⟩, rfl, fun _ hwf => hwf, fun _ _ hf => hf,
            (List.append_nil _).symm, rfl, fun _ hr => hr⟩
      | @found k r hk hr =>
          have hwork : Work (s.ledger hand openHand)
              (Surveiller.ledger { s with procs := s.procs.withSlot k .null } (r :: hand) openHand) :=
            .remove hr
          exact ⟨⟨r :: hand, openHand, h.index rfl h.dispatchWf (.single hwork)⟩, rfl,
            fun _ hwf => hwf.withSlot _ (by simp), fun _ _ hf => hf,
            hwork.framed.real.trans (List.append_nil _).symm, rfl, fun _ hr => hr⟩
  | checkVitals gone =>
      exact (survCheckProcVitals_meets h.sound h.dispatchWf gone).mono fun s' hs' =>
        hs'.stepped h rfl id
  | flush =>
      exact (survFlushProcindex_meets h.sound h.dispatchWf).mono fun s' hs' =>
        hs'.stepped h rfl id
  | dispatch env =>
      have hbatch : Meets (Tolerated (¬ ((Op.dispatch env).Granted ∧ s.procs.Wf
          ∧ ¬ (Op.dispatch env).Links s))) (dispatchBatch env s)
          (DispatchedBatch s hand openHand s.dispatchQueue.held.length) :=
        (dispatchBatch_meets h).weaken fun f hf =>
          hf.mono fun ⟨i, hi⟩ hsafe => hi (hsafe.1 i)
      exact hbatch.mono fun s' hs' => hs'.stepped

/-- Everything an operation can do, by what the functions it calls can do. -/
inductive OpDone (s : Surveiller) (hand : List ExecRef) (openHand : List OpenRef) :
    Op → Surveiller → Prop
  | addExecCall {granted again : Nat → Bool} {e : ExecEvent} {p : Int × Surveiller} :
      SurvAddOutcome granted again (s.newExec e) s.heap.nextExec e.call p →
      OpDone s hand openHand (.addExecCall granted again e) p.2
  | add {granted : Nat → Bool} {e : ExecEvent} {p : Int × Heap × Procindex} :
      AddOutcome granted (s.newExec e).heap s.procs s.heap.nextExec e.call p →
      OpDone s hand openHand (.add granted e) { s.newExec e with heap := p.2.1, procs := p.2.2 }
  | opencallAdd {alloc : OpencallAlloc} {o : OpenEvent} {p : Int × Heap × Procindex} :
      procindexOpencallAdd alloc (s.newOpen o).heap s.procs s.heap.nextOpen = .ok p →
      OpencallDone alloc ((s.newOpen o).ledger hand (s.heap.nextOpen :: openHand)) s.heap.nextOpen
        o.call p →
      OpDone s hand openHand (.opencallAdd alloc o)
        { s.newOpen o with heap := p.2.1, procs := p.2.2 }
  | retrieve {pid : Int32} {p : Option ExecRef × Procindex} :
      RetrieveOutcome s.procs pid.toInt p →
      OpDone s hand openHand (.retrieve pid) { s with procs := p.2 }
  | checkVitals {gone : Nat → Bool} {s' : Surveiller} :
      Swept gone 0 s hand openHand s.procs.size.toNat s' →
      OpDone s hand openHand (.checkVitals gone) s'
  | flush {s' : Surveiller} :
      Swept (fun _ => true) 1 s hand openHand (s.procs.size - 1).toNat s' →
      OpDone s hand openHand .flush s'
  | dispatch {env : Nat → DispatchEnv} {s' : Surveiller} :
      DispatchedBatch s hand openHand s.dispatchQueue.held.length s' →
      OpDone s hand openHand (.dispatch env) s'

theorem applyOp_done (h : s.Invariant hand openHand) {op : Op} (hstep : applyOp s op = .ok s') :
    OpDone s hand openHand op s' := by
  cases op with
  | addExecCall granted again e =>
      have hc : (s.newExec e).heap.execs s.heap.nextExec = some e.call := Function.update_self _ _ _
      obtain ⟨p, hp, hstep⟩ := bind_ok hstep
      cases hstep
      have hmeets : Meets (Tolerated True) (survAddExecCall granted again _ _) _ :=
        survAddExecCall_meets hc (h.newExec e).sound.table.sane fun _ _ => trivial
      exact .addExecCall (hmeets.post hp)
  | add granted e =>
      have hc : (s.newExec e).heap.execs s.heap.nextExec = some e.call := Function.update_self _ _ _
      obtain ⟨p, hp, hstep⟩ := bind_ok hstep
      cases hstep
      have hmeets : Meets (Tolerated True) (survProcindexAdd granted _ _) _ :=
        survProcindexAdd_meets (h.newExec e) hc fun _ => trivial
      obtain ⟨q, hq, rfl⟩ := hmeets.post hp
      exact .add hq
  | opencallAdd alloc o =>
      have h1 := h.newOpen o
      have hoc : (s.newOpen o).heap.opens s.heap.nextOpen = some o.call := Function.update_self _ _ _
      obtain ⟨p, hp, hstep⟩ := bind_ok hstep
      obtain ⟨q, hq, hp⟩ := bind_ok hp
      cases hp
      cases hstep
      have hmeets : Meets (Tolerated True) (procindexOpencallAdd alloc _ _ _) _ :=
        procindexOpencallAdd_meets (l := (s.newOpen o).ledger hand (s.heap.nextOpen :: openHand))
          h1.sound List.mem_cons_self hoc fun _ => trivial
      exact .opencallAdd hq (hmeets.post hq)
  | retrieve pid =>
      obtain ⟨p, hp, hstep⟩ := bind_ok hstep
      cases hstep
      have hmeets : Meets (Tolerated True) (procindexRetrieve s.procs pid.toInt) _ :=
        procindexRetrieve_meets h.sound.table.sane pid.toInt
      exact .retrieve (hmeets.post hp)
  | checkVitals gone =>
      have hmeets : Meets (Tolerated True) (survCheckProcVitals gone s) _ :=
        survCheckProcVitals_meets h.sound h.dispatchWf gone
      exact .checkVitals (hmeets.post hstep)
  | flush =>
      have hmeets : Meets (Tolerated True) (survFlushProcindex s) _ :=
        survFlushProcindex_meets h.sound h.dispatchWf
      exact .flush (hmeets.post hstep)
  | dispatch env => exact .dispatch ((dispatchBatch_meets h).post hstep)

end Step

/-! ## §3. Runs. -/

section Run

variable {getMaxPID ownPID : Int} {bootTime : UInt32} {s0 s : Surveiller} {ops : List Op}

/-- What holds after every run of operations. -/
structure Ran (s0 : Surveiller) (ops : List Op) (s : Surveiller) : Prop where
  invariant : ∃ hand openHand, s.Invariant hand openHand
  maxPid : s.procs.maxPid = s0.procs.maxPid
  wf : (∀ op ∈ ops, op.Granted) → s.procs.Wf
  real : s.heap.real = (ops.filterMap Op.event).map ExecEvent.identity
  bootTime : s.bootTime = s0.bootTime

/-- **The run lemma.** -/
theorem runOps_ran (h0 : survInit getMaxPID ownPID bootTime = .ok (some s0))
    (hrun : runOps s0 ops = .ok s) : Ran s0 ops s := by
  refine run_induction (P := Ran s0) ?_ ?_ hrun
  · obtain ⟨hinv, hwf, -, -, hreal, -, -⟩ := survInit_invariant h0
    exact ⟨⟨[], [], hinv⟩, rfl, fun _ => hwf, hreal, rfl⟩
  · intro ops op m s' _ hran hstep
    obtain ⟨hand, openHand, hinv⟩ := hran.invariant
    have hs := (applyOp_meets hinv op).post hstep
    refine ⟨hs.invariant, hs.maxPid.trans hran.maxPid, fun hall => ?_, ?_,
      hs.bootTime.trans hran.bootTime⟩
    · exact hs.wf (hall op (by simp)) (hran.wf fun op hop => hall op (by simp [hop]))
    · rw [hs.real, hran.real, List.filterMap_append, List.map_append]
      congr 1
      cases op <;> rfl

end Run

/-- `op` is done in the run of `ops` from `s0`, and takes `s` to `s'`. -/
def StepOf (s0 : Surveiller) (ops : List Op) (s : Surveiller) (op : Op) (s' : Surveiller) : Prop :=
  ∃ pre post, ops = pre ++ op :: post ∧ runOps s0 pre = .ok s ∧ applyOp s op = .ok s'

/-! ## §4. The table after every run. -/

/-- The representation invariant of the process index.  `bufferOf r` lists the open calls that have
been attached to `r`, in the order in which that happened. -/
structure IndexInvariant (s : Surveiller) : Prop where
  zero : s.procs.procs[0]? = some .null
  initialised : .uninit ∉ s.procs.procs
  entry : ∀ (k : Nat) (r : ExecRef), s.procs.procs[k]? = some (.proc r) →
    ∃ c, s.heap.execs r = some c ∧ c.pid.toInt = k - 1
      ∧ c.callBuff.take c.callNum = (s.heap.bufferOf r).map some
      ∧ (∀ o ∈ s.heap.bufferOf r, ∃ oc, s.heap.opens o = some oc ∧ oc.pid = c.pid)
      ∧ c.callBuff.length = c.callBuffSize ∧ c.callNum + 2 ≤ c.callBuffSize
      ∧ (0 < c.callNum → c.tracked = true)
  apart : ∀ (r r' : ExecRef) (o : OpenRef),
    o ∈ s.heap.bufferOf r → o ∈ s.heap.bufferOf r' → r = r'
  once : ∀ r : ExecRef, (s.heap.bufferOf r).Nodup

/-- **The process index keeps its representation invariant** in every run in which memory is
granted and no step faults. -/
theorem index_invariant {getMaxPID ownPID : Int} {bootTime : UInt32} {s0 s : Surveiller}
    {ops : List Op} (h0 : survInit getMaxPID ownPID bootTime = .ok (some s0))
    (hgranted : ∀ op ∈ ops, op.Granted) (hrun : runOps s0 ops = .ok s) : IndexInvariant s := by
  have hran := runOps_ran h0 hrun
  obtain ⟨hand, openHand, hinv⟩ := hran.invariant
  have hsound := hinv.sound
  refine ⟨hsound.table.zero, (hran.wf hgranted).init, fun k r hk => ?_, fun r r' o ho ho' => ?_,
    hsound.buffer_nodup⟩
  · obtain ⟨c, hc, hpid⟩ := hsound.entry_live hk
    have hroom := hsound.objects.room r c hc
    exact ⟨c, hc, by omega, (hsound.objects.buffer r c hc).1, hsound.objects.pid r c hc,
      hroom.length, hroom.room, hsound.objects.tracked r c hc⟩
  · by_contra hne
    have hsum := Ledger.bufferOf_count_add (h := s.heap) (Ne.symm hne) o
    have hone := hsound.openOnce o
    have h1 := List.count_pos_iff.mpr ho
    have h2 := List.count_pos_iff.mpr ho'
    have hle : (s.heap.attached.map Prod.snd).count o ≤ 1 := by
      unfold Ledger.openTally at hone
      exact Nat.le_trans (Nat.le_add_left _ _) hone
    omega

theorem OpencallAlloc.granting_granted : OpencallAlloc.granting.Granted :=
  ⟨fun _ => rfl, rfl, rfl, rfl, rfl, rfl, fun _ => rfl⟩

/-- A table that has grown, with a dummy, a repeated pid, and two open calls of one process. -/
theorem index_invariant_sample :
    ∃ s0 s, survInit 10 1 0 = .ok (some s0)
      ∧ runOps s0 [.add (fun _ => true) (.blank 6 9 ⟨1, 0⟩), .opencallAdd .granting (.blank 6 ⟨2, 0⟩),
          .opencallAdd .granting (.blank 6 ⟨3, 0⟩), .opencallAdd .granting (.blank 5 ⟨4, 0⟩),
          .addExecCall (fun _ => true) (fun _ => true) (.blank 5 9 ⟨5, 0⟩)] = .ok s
      ∧ s.heap.attached = [(0, 0), (0, 1), (1, 2)] ∧ IndexInvariant s := by
  have h0 : survInit 10 1 0 = .ok (some (.initial ⟨List.replicate 4 .null, 4, 10⟩ 0)) := by rfl
  obtain ⟨s, hrun, hattached⟩ : ∃ s, runOps (.initial ⟨List.replicate 4 .null, 4, 10⟩ 0)
      [.add (fun _ => true) (.blank 6 9 ⟨1, 0⟩), .opencallAdd .granting (.blank 6 ⟨2, 0⟩),
        .opencallAdd .granting (.blank 6 ⟨3, 0⟩), .opencallAdd .granting (.blank 5 ⟨4, 0⟩),
        .addExecCall (fun _ => true) (fun _ => true) (.blank 5 9 ⟨5, 0⟩)] = .ok s
      ∧ s.heap.attached = [(0, 0), (0, 1), (1, 2)] := ⟨_, by rfl, by rfl⟩
  have hopen := OpencallAlloc.granting_granted
  refine ⟨_, s, h0, hrun, hattached, index_invariant h0 ?_ hrun⟩
  simp [Op.Granted, hopen]

end DirSurveiller
