/-
  DirSurveiller.Daemon.CallOrder — the order of the calls by their time stamps.

  Two calls are compared by the time stamps of their objects.  A constructor writes these, and what the
  dispatch adds the boot time to are copies: while no parser writes, no operation of the main thread
  makes an object anew or changes a time stamp.

    * `Surveiller.merged_sorted` — the merge of two sorted queues is sorted, and keeps their orders;
    * `Unaltered.exec_stamp`, `Unaltered.open_stamp` — time stamps stay as they are.
-/
import DirSurveiller.Lib.StableMerge
import DirSurveiller.Daemon.Merge

namespace DirSurveiller

open CMachine Outcome StableMerge

/-! ## §1. The order of the calls. -/

/-- A call in one of the queues. -/
inductive QueuedCall where
  | exec (e : ExecRef)
  | opened (o : OpenRef)
  deriving Repr, DecidableEq

def QueuedCall.exec? : QueuedCall → Option ExecRef
  | .exec e => some e
  | .opened _ => none

def QueuedCall.opened? : QueuedCall → Option OpenRef
  | .exec _ => none
  | .opened o => some o

/-- `time_stamp` of the object. -/
def Surveiller.stamp (s : Surveiller) : QueuedCall → Timeval
  | .exec e => ((s.heap.execs e).map ExecCall.timeStamp).getD ⟨0, 0⟩
  | .opened o => ((s.heap.opens o).map OpenCall.timeStamp).getD ⟨0, 0⟩

theorem Surveiller.stamp_exec {s : Surveiller} {e : ExecRef} {c : ExecCall}
    (hc : s.heap.execs e = some c) : s.stamp (.exec e) = c.timeStamp := by
  show ((s.heap.execs e).map ExecCall.timeStamp).getD ⟨0, 0⟩ = _
  rw [hc]
  rfl

theorem Surveiller.stamp_opened {s : Surveiller} {o : OpenRef} {c : OpenCall}
    (hc : s.heap.opens o = some c) : s.stamp (.opened o) = c.timeStamp := by
  show ((s.heap.opens o).map OpenCall.timeStamp).getD ⟨0, 0⟩ = _
  rw [hc]
  rfl

/-- `timercmp(&a->time_stamp, &b->time_stamp, <=)` -/
def Surveiller.notAfter (s : Surveiller) (a b : QueuedCall) : Bool :=
  timercmpLe (s.stamp a) (s.stamp b)

/-- The merge of two queues; of two calls with one time stamp the execCall comes first. -/
def Surveiller.merged (s : Surveiller) (execs : List ExecRef) (opens : List OpenRef) :
    List QueuedCall :=
  List.merge (execs.map .exec) (opens.map .opened) s.notAfter

namespace Daemon

/-- What `d'` has handed to the index and `d` had not. -/
def handedSince (d d' : Daemon) : List QueuedCall :=
  (d'.handedExecs.drop d.handedExecs.length).map .exec
    ++ (d'.handedOpens.drop d.handedOpens.length).map .opened

/-- A run, with the calls in the order in which it hands them over. -/
def handing (d : Daemon) : List Act → Except Fault (List QueuedCall × Daemon)
  | [] => return ([], d)
  | a :: acts => do
      let m ← d.act a
      let (later, last) ← m.handing acts
      return (d.handedSince m ++ later, last)

end Daemon

/-- The calls of `execs` and `opens` are handed over in the order of the merge by time stamps, and
each queue keeps its own order. -/
structure HandsMerged (s : Surveiller) (execs : List ExecRef) (opens : List OpenRef)
    (handed : List QueuedCall) : Prop where
  merge : handed = s.merged execs opens
  sorted : handed.Pairwise fun a b => s.notAfter a b = true
  execs : handed.filterMap QueuedCall.exec? = execs
  opens : handed.filterMap QueuedCall.opened? = opens

theorem timercmpLe_trans {a b c : Timeval} (hab : timercmpLe a b = true)
    (hbc : timercmpLe b c = true) : timercmpLe a c = true := by
  unfold timercmpLe at *
  simp only [Int64.le_iff_toInt_le, ← Int64.toInt_inj] at *
  split at hab <;> split at hbc <;> split <;> simp only [decide_eq_true_eq] at * <;> omega

theorem timercmpLe_total (a b : Timeval) : (timercmpLe a b || timercmpLe b a) = true := by
  rw [Bool.or_eq_true]
  unfold timercmpLe
  simp only [Int64.le_iff_toInt_le, ← Int64.toInt_inj]
  split <;> split <;> simp only [decide_eq_true_eq] <;> omega

/-- **The merge is the one that is meant**, if the queues are in the order of their time stamps. -/
theorem Surveiller.merged_sorted {s : Surveiller} {execs : List ExecRef} {opens : List OpenRef}
    (hexecs : (execs.map QueuedCall.exec).Pairwise fun a b => s.notAfter a b = true)
    (hopens : (opens.map QueuedCall.opened).Pairwise fun a b => s.notAfter a b = true) :
    HandsMerged s execs opens (s.merged execs opens) := by
  refine ⟨rfl, ?_, ?_, ?_⟩
  · apply List.pairwise_merge
    · exact fun a b c hab hbc => timercmpLe_trans hab hbc
    · exact fun a b => timercmpLe_total (s.stamp a) (s.stamp b)
    · exact hexecs
    · exact hopens
  · unfold Surveiller.merged
    rw [filterMap_merge_left, List.filterMap_map]
    · exact List.filterMap_some
    · intro c hc
      obtain ⟨o, -, rfl⟩ := List.mem_map.mp hc
      rfl
  · unfold Surveiller.merged
    rw [filterMap_merge_right, List.filterMap_map]
    · exact List.filterMap_some
    · intro c hc
      obtain ⟨e, -, rfl⟩ := List.mem_map.mp hc
      rfl

/-! ## §2. Time stamps do not change. -/

/-- No call object has been made anew, and no open call has been changed. -/
structure Unaltered (s s' : Surveiller) : Prop where
  births : s.heap.births <+: s'.heap.births
  openCalls : ∀ o c, s'.heap.opens o = some c → s.heap.opens o = some c

section Unaltered

variable {s s' s'' : Surveiller} {hand hand' : List ExecRef} {openHand openHand' : List OpenRef}

theorem Unaltered.of_heap (h : s'.heap = s.heap) : Unaltered s s' := by
  constructor
  · rw [h]
  · intro o c hc
    rw [← h]
    exact hc

theorem Unaltered.trans (h : Unaltered s s') (h' : Unaltered s' s'') : Unaltered s s'' :=
  ⟨h.births.trans h'.births, fun o c hc => h.openCalls o c (h'.openCalls o c hc)⟩

theorem Unaltered.of_works (h : Works (s.ledger hand openHand) (s'.ledger hand' openHand')) :
    Unaltered s s' :=
  ⟨h.framed.births, fun _ _ hc => h.opens hc⟩

/-- An execCall that is live before and after has the time stamp it was born with. -/
theorem Unaltered.exec_stamp (h : Unaltered s s') (hs : s.Invariant hand openHand)
    (hs' : s'.Invariant hand' openHand') {e : ExecRef} {c c' : ExecCall}
    (hc : s.heap.execs e = some c) (hc' : s'.heap.execs e = some c') :
    s'.stamp (.exec e) = s.stamp (.exec e) := by
  obtain ⟨b, hb⟩ := hs.sound.objects.born e c hc
  replace hb : s.heap.births[e]? = some (b, c.identity) := hb
  obtain ⟨b', hb'⟩ := hs'.sound.objects.born e c' hc'
  have hlater : s'.heap.births[e]? = some (b, c.identity) := by
    obtain ⟨tail, htail⟩ := h.births
    rw [← htail, List.getElem?_append_left (List.getElem?_eq_some_iff.mp hb).1]
    exact hb
  have hsame : (b, c.identity) = (b', c'.identity) := Option.some.inj (hlater.symm.trans hb')
  have hstamp : c.timeStamp = c'.timeStamp :=
    congrArg Identity.timeStamp (Prod.mk.inj hsame).2
  rw [Surveiller.stamp_exec hc, Surveiller.stamp_exec hc', hstamp]

/-- So has an open call that is live afterwards. -/
theorem Unaltered.open_stamp (h : Unaltered s s') {o : OpenRef} {c : OpenCall}
    (hc : s'.heap.opens o = some c) : s'.stamp (.opened o) = s.stamp (.opened o) := by
  rw [Surveiller.stamp_opened hc, Surveiller.stamp_opened (h.openCalls o c hc)]

theorem AddOutcome.kept {granted : Nat → Bool} {t : Procindex} {e : ExecRef} {c : ExecCall}
    {p : Int × Heap × Procindex} (hp : AddOutcome granted s.heap t e c p) (hs' : s'.heap = p.2.1) :
    Unaltered s s' := by
  constructor
  · rw [hs']
    cases hp with
    | rejected | noMemory | occupied | added => exact List.prefix_rfl
  · intro o oc
    rw [hs']
    cases hp with
    | rejected | noMemory | occupied | added => exact id

theorem survAddExecCall_unaltered {granted again : Nat → Bool} {e : ExecRef} {p : Int × Surveiller}
    (h : s.Invariant hand openHand) (he : e ∈ hand)
    (hrun : survAddExecCall granted again s e = .ok p) : Unaltered s p.2 := by
  obtain ⟨c, hc⟩ := h.sound.hand_live he
  have hmeets : Meets (Tolerated True) (survAddExecCall granted again s e) _ :=
    survAddExecCall_meets hc h.sound.table.sane fun _ _ => trivial
  cases hmeets.post hrun with
  | direct hp => exact hp.kept rfl
  | replaced _ _ _ _ hp => exact hp.kept rfl

theorem survProcindexAdd_unaltered {granted : Nat → Bool} {e : ExecRef} {p : Int × Surveiller}
    (h : s.Invariant hand openHand) (he : e ∈ hand)
    (hrun : survProcindexAdd granted s e = .ok p) : Unaltered s p.2 := by
  obtain ⟨c, hc⟩ := h.sound.hand_live he
  have hmeets : Meets (Tolerated True) (survProcindexAdd granted s e) _ :=
    survProcindexAdd_meets h hc fun _ => trivial
  obtain ⟨q, hq, heq⟩ := hmeets.post hrun
  rw [heq]
  exact hq.kept rfl

theorem survOpencallAdd_unaltered {alloc : OpencallAlloc} {o : OpenRef} {p : Int × Surveiller}
    (h : s.Invariant hand openHand) (ho : o ∈ openHand)
    (hrun : survOpencallAdd alloc s o = .ok p) : Unaltered s p.2 := by
  obtain ⟨oc, hoc⟩ := h.sound.openHand_live ho
  have hmeets : Meets (Tolerated True) (survOpencallAdd alloc s o) _ :=
    survOpencallAdd_meets h ho hoc fun _ => trivial
  obtain ⟨q, hq, heq⟩ := hmeets.post hrun
  obtain ⟨hand', openHand', -, -, hworks, -⟩ := hq.invariant h
  rw [heq]
  exact .of_works hworks

theorem survCheckProcVitals_unaltered {gone : Nat → Bool} (h : s.Invariant hand openHand)
    (hrun : survCheckProcVitals gone s = .ok s') : Unaltered s s' := by
  have hmeets : Meets (Tolerated True) (survCheckProcVitals gone s) _ :=
    survCheckProcVitals_meets h.sound h.dispatchWf gone
  obtain ⟨hand', -, hworks, -⟩ := (hmeets.post hrun).invariant h
  exact .of_works hworks

theorem survFlushProcindex_unaltered (h : s.Invariant hand openHand)
    (hrun : survFlushProcindex s = .ok s') : Unaltered s s' := by
  have hmeets : Meets (Tolerated True) (survFlushProcindex s) _ :=
    survFlushProcindex_meets h.sound h.dispatchWf
  obtain ⟨hand', -, hworks, -⟩ := (hmeets.post hrun).invariant h
  exact .of_works hworks

theorem dispatchBatch_unaltered {env : Nat → DispatchEnv} (h : s.Invariant hand openHand)
    (hrun : dispatchBatch env s = .ok s') : Unaltered s s' := by
  obtain ⟨hand', -, hworks, -⟩ := ((dispatchBatch_meets h).post hrun).invariant
  exact .of_works hworks

end Unaltered

end DirSurveiller
