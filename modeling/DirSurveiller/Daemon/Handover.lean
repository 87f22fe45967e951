/-
  DirSurveiller.Daemon.Handover — the call that one step of the main thread hands to the index.

  What has been accepted and not been handed over is pending or in a queue.  The event loop takes the
  next call of a queue only where it has found the other one empty, or where it has compared the two
  that are next; so a step hands over the head of the merge of what is left, or nothing.

    * `Daemon.Invariant.stepped` — what a step does to the calls.
-/
import DirSurveiller.Daemon.CallOrder

namespace DirSurveiller

open CMachine Outcome

/-! ## §1. What is left. -/

/-- What has been accepted and not handed over is pending or queued. -/
theorem Flow.left {α : Type} {accepted handed pending : List α} {queue : List (Option α)}
    (h : Flow accepted handed pending queue) :
    (accepted.drop handed.length).map some = pending.map some ++ queue := by
  unfold Flow at h
  rw [List.map_drop, h, List.map_append, List.append_assoc]
  exact List.drop_left' (List.length_map _)

/-- What is pending is the next one. -/
theorem Flow.next {α : Type} {accepted handed : List α} {x : α} {queue : List (Option α)}
    (h : Flow accepted handed [x] queue) : ∃ rest, accepted.drop handed.length = x :: rest := by
  obtain ⟨y, rest, hsplit, hy, -⟩ := List.map_eq_cons_iff.mp h.left
  obtain rfl := Option.some.inj hy
  exact ⟨rest, hsplit⟩

namespace Daemon

/-- The execCalls that have been accepted and not been handed over. -/
def execsLeft (d : Daemon) : List ExecRef := d.acceptedExecs.drop d.handedExecs.length

/-- The openCalls that have been accepted and not been handed over. -/
def opensLeft (d : Daemon) : List OpenRef := d.acceptedOpens.drop d.handedOpens.length

/-- How many calls are left. -/
def left (d : Daemon) : Nat := d.execsLeft.length + d.opensLeft.length

section Left

variable {d d' : Daemon}

/-- A pending execCall is the next one. -/
theorem Invariant.execsLeft_pending (h : d.Invariant) (hexec : d.execPending = true) :
    ∃ e rest, d.tempEcall = some e ∧ d.execsLeft = e :: rest
      ∧ ∃ c, d.surv.heap.execs e = some c := by
  obtain ⟨execs, opens, hd, hexecs, -⟩ := h.holding
  rw [hexec] at hexecs
  obtain ⟨e, htemp, rfl⟩ := hexecs.of_true
  obtain ⟨hand, openHand, hinv, hhand, -⟩ := hd.owned
  obtain ⟨rest, hleft⟩ := hd.execFlow.next
  exact ⟨e, rest, htemp, hleft, hinv.sound.hand_live (hhand e (List.mem_singleton.mpr rfl))⟩

/-- A pending openCall is the next one. -/
theorem Invariant.opensLeft_pending (h : d.Invariant) (hopen : d.openPending = true) :
    ∃ o rest, d.tempOcall = some o ∧ d.opensLeft = o :: rest
      ∧ ∃ c, d.surv.heap.opens o = some c := by
  obtain ⟨execs, opens, hd, -, hopens⟩ := h.holding
  rw [hopen] at hopens
  obtain ⟨o, htemp, rfl⟩ := hopens.of_true
  obtain ⟨hand, openHand, hinv, -, hhand⟩ := hd.owned
  obtain ⟨rest, hleft⟩ := hd.openFlow.next
  exact ⟨o, rest, htemp, hleft, hinv.sound.openHand_live (hhand o (List.mem_singleton.mpr rfl))⟩

/-- Where none is pending, the command queue holds what is left. -/
theorem Invariant.execsLeft_idle (h : d.Invariant) (hexec : d.execPending = false) :
    d.execsLeft.map some = d.surv.commandQueue.held := by
  obtain ⟨execs, opens, hd, hexecs, -⟩ := h.holding
  rw [hexec] at hexecs
  obtain rfl := hexecs.of_false
  exact hd.execFlow.left

/-- Where none is pending, the open queue holds what is left. -/
theorem Invariant.opensLeft_idle (h : d.Invariant) (hopen : d.openPending = false) :
    d.opensLeft.map some = d.surv.openQueue.held := by
  obtain ⟨execs, opens, hd, -, hopens⟩ := h.holding
  rw [hopen] at hopens
  obtain rfl := hopens.of_false
  exact hd.openFlow.left

/-- An execCall that is left is live. -/
theorem Invariant.execsLeft_live (h : d.Invariant) {e : ExecRef} (he : e ∈ d.execsLeft) :
    ∃ hand openHand c, d.surv.Invariant hand openHand ∧ d.surv.heap.execs e = some c := by
  obtain ⟨execs, opens, hd, -⟩ := h.holding
  obtain ⟨hand, openHand, hinv, hhand, -⟩ := hd.owned
  have hleft : d.execsLeft.map some = execs.map some ++ d.surv.commandQueue.held := hd.execFlow.left
  have hin : some e ∈ execs.map some ++ d.surv.commandQueue.held := by
    rw [← hleft]
    exact List.mem_map_of_mem he
  have hlive : ∃ c, d.surv.heap.execs e = some c := by
    rcases List.mem_append.mp hin with hpending | hqueued
    · obtain ⟨x, hx, hxe⟩ := List.mem_map.mp hpending
      obtain rfl := Option.some.inj hxe
      exact hinv.sound.hand_live (hhand x hx)
    · have hout : e ∈ (d.surv.ledger hand openHand).outside :=
        List.mem_filterMap.mpr ⟨some e, hqueued, rfl⟩
      have hcount := List.count_pos_iff.mpr hout
      exact hinv.sound.live (by omega)
  obtain ⟨c, hc⟩ := hlive
  exact ⟨hand, openHand, c, hinv, hc⟩

/-- An openCall that is left is live. -/
theorem Invariant.opensLeft_live (h : d.Invariant) {o : OpenRef} (ho : o ∈ d.opensLeft) :
    ∃ c, d.surv.heap.opens o = some c := by
  obtain ⟨execs, opens, hd, -⟩ := h.holding
  obtain ⟨hand, openHand, hinv, -, hhand⟩ := hd.owned
  have hleft : d.opensLeft.map some = opens.map some ++ d.surv.openQueue.held := hd.openFlow.left
  have hin : some o ∈ opens.map some ++ d.surv.openQueue.held := by
    rw [← hleft]
    exact List.mem_map_of_mem ho
  rcases List.mem_append.mp hin with hpending | hqueued
  · obtain ⟨x, hx, hxo⟩ := List.mem_map.mp hpending
    obtain rfl := Option.some.inj hxo
    exact hinv.sound.openHand_live (hhand x hx)
  · have hout : o ∈ (d.surv.ledger hand openHand).openOutside :=
      List.mem_filterMap.mpr ⟨some o, hqueued, rfl⟩
    have hcount := List.count_pos_iff.mpr hout
    exact hinv.sound.open_live (by omega)

end Left

end Daemon

/-! ## §2. One step. -/

/-- The places at which a call is handed to the index. -/
def Pc.hands : Pc → Bool
  | .merge | .handOther | .readOpen | .readExec => true
  | _ => false

namespace Daemon

/-- What the main thread has found out about a queue, while no parser writes. -/
def Foreseen (d : Daemon) : Prop :=
  match d.pc with
  | .handOther => (d.ecallFirst = true → d.surv.commandQueue.held = [])
      ∧ (d.ecallFirst = false → d.surv.openQueue.held = [])
  | .sizeOpen => d.readyCalls = false → d.surv.commandQueue.held = []
  | .readOpen => d.surv.commandQueue.held = []
  | .readExec | .testCommandQueue => d.surv.openQueue.held = []
  | _ => True

/-- What a step of the main thread hands over: nothing, or the first of the execCalls or openCalls that
are left.  That is the head of the merge of what is left, as far as what it has found out is true. -/
inductive Hands (d d' : Daemon) : Prop
  | nothing : d.pc.hands = false → d'.handedExecs = d.handedExecs →
      d'.handedOpens = d.handedOpens → Hands d d'
  | exec {e : ExecRef} {rest : List ExecRef} : d.pc.hands = true → d.execsLeft = e :: rest →
      d'.handedExecs = d.handedExecs ++ [e] → d'.handedOpens = d.handedOpens →
      (d.Foreseen → ∀ o ∈ d.opensLeft.head?, d.surv.notAfter (.exec e) (.opened o) = true) →
      Hands d d'
  | opened {o : OpenRef} {rest : List OpenRef} : d.pc.hands = true → d.opensLeft = o :: rest →
      d'.handedOpens = d.handedOpens ++ [o] → d'.handedExecs = d.handedExecs →
      (d.Foreseen → ∀ e ∈ d.execsLeft.head?, d.surv.notAfter (.exec e) (.opened o) = false) →
      Hands d d'

/-- What a step of the main thread does to the calls. -/
structure MainStepped (d d' : Daemon) : Prop where
  acceptedExecs : d'.acceptedExecs = d.acceptedExecs
  acceptedOpens : d'.acceptedOpens = d.acceptedOpens
  kept : Unaltered d.surv d'.surv
  hands : d.Hands d'

section Step

variable {d d' : Daemon} {env : MainEnv} {execs : List ExecRef} {opens : List OpenRef}
  {e : ExecRef} {o : OpenRef}

theorem addExecCall_unaltered (h : d.Holding [e] opens) (htemp : d.tempEcall = some e)
    (hrun : d.addExecCall env = .ok d') : Unaltered d.surv d'.surv := by
  obtain ⟨hand, openHand, hinv, hhand, -⟩ := h.owned
  unfold addExecCall at hrun
  rw [htemp] at hrun
  obtain ⟨p, hp, hrun⟩ := bind_ok hrun
  cases hrun
  exact survAddExecCall_unaltered hinv (hhand e (List.mem_singleton.mpr rfl)) hp

theorem add_unaltered (h : d.Holding [e] opens) (htemp : d.tempEcall = some e)
    (hrun : d.add env = .ok d') : Unaltered d.surv d'.surv := by
  obtain ⟨hand, openHand, hinv, hhand, -⟩ := h.owned
  unfold add at hrun
  rw [htemp] at hrun
  obtain ⟨p, hp, hrun⟩ := bind_ok hrun
  cases hrun
  exact survProcindexAdd_unaltered hinv (hhand e (List.mem_singleton.mpr rfl)) hp

theorem opencallAdd_unaltered (h : d.Holding execs [o]) (htemp : d.tempOcall = some o)
    (hrun : d.opencallAdd env = .ok d') : Unaltered d.surv d'.surv := by
  obtain ⟨hand, openHand, hinv, -, hhand⟩ := h.owned
  unfold opencallAdd at hrun
  rw [htemp] at hrun
  obtain ⟨p, hp, hrun⟩ := bind_ok hrun
  cases hrun
  exact survOpencallAdd_unaltered hinv (hhand o (List.mem_singleton.mpr rfl)) hp

/-- The comparison of the merge is that of the two calls that are next. -/
theorem compareStamps_ok {first : Bool} {c : ExecCall} {oc : OpenCall} (htemp : d.tempEcall = some e)
    (htempOpen : d.tempOcall = some o) (hc : d.surv.heap.execs e = some c)
    (hoc : d.surv.heap.opens o = some oc) (hrun : d.compareStamps = .ok first) :
    d.surv.notAfter (.exec e) (.opened o) = first := by
  unfold compareStamps at hrun
  rw [htemp, htempOpen] at hrun
  dsimp only at hrun
  rw [Heap.exec_some hc, ok_bind, Heap.openCall_some hoc, ok_bind] at hrun
  unfold Surveiller.notAfter
  rw [Surveiller.stamp_exec hc, Surveiller.stamp_opened hoc]
  exact Except.ok.inj hrun

theorem Invariant.stepped_merge (h : d.Invariant) (hpc : d.pc = .merge)
    (hrun : d.mainStep env = .ok d') : d.MainStepped d' := by
  -- at this place both calls have been read and neither has been handed over
  have hcomp := h.located
  rw [Located, hpc] at hcomp
  have hexec := (d.execPending_eq (by rw [hpc]; decide)).trans hcomp
  have hopen := (d.openPending_eq (by rw [hpc]; decide)).trans hcomp
  obtain ⟨e, rest, htemp, hleft, c, hc⟩ := h.execsLeft_pending hexec
  obtain ⟨o, restOpen, htempOpen, hleftOpen, oc, hoc⟩ := h.opensLeft_pending hopen
  obtain ⟨execs, opens, hhold, hexecs, hopens⟩ := h.holds hexec hopen
  rw [htemp] at hexecs
  rw [htempOpen] at hopens
  cases hexecs
  cases hopens
  rw [Daemon.mainStep, hpc] at hrun
  obtain ⟨first, hfirst, hrun⟩ := bind_ok hrun
  have hstamps := compareStamps_ok htemp htempOpen hc hoc hfirst
  obtain ⟨d1, hd1, hrun⟩ := bind_ok hrun
  cases hrun
  cases first with
  | true =>
      have hkept := addExecCall_unaltered hhold htemp hd1
      obtain ⟨-, surv, rfl⟩ := (addExecCall_meets env hhold htemp).post hd1
      refine ⟨rfl, rfl, hkept, .exec (by rw [hpc]; rfl) hleft rfl rfl fun _ => ?_⟩
      intro x hx
      rw [hleftOpen] at hx
      obtain rfl := Option.some.inj hx
      exact hstamps
  | false =>
      have hkept := opencallAdd_unaltered hhold htempOpen hd1
      obtain ⟨-, surv, rfl⟩ := (opencallAdd_meets env hhold htempOpen).post hd1
      refine ⟨rfl, rfl, hkept, .opened (by rw [hpc]; rfl) hleftOpen rfl rfl fun _ => ?_⟩
      intro x hx
      rw [hleft] at hx
      obtain rfl := Option.some.inj hx
      exact hstamps

theorem Invariant.stepped_handOther (h : d.Invariant) (hpc : d.pc = .handOther)
    (hrun : d.mainStep env = .ok d') : d.MainStepped d' := by
  have hexec : d.execPending = !d.ecallFirst := by
    unfold execPending
    rw [hpc]
  have hopen : d.openPending = d.ecallFirst := by
    unfold openPending
    rw [hpc]
  obtain ⟨execs, opens, hhold, hexecs, hopens⟩ := h.holds hexec hopen
  rw [Daemon.mainStep, hpc] at hrun
  obtain ⟨d1, hd1, hrun⟩ := bind_ok hrun
  cases hrun
  -- if the queue of the call handed over before was empty, nothing comes before the other one
  cases hfirst : d.ecallFirst with
  | true =>
      rw [hfirst] at hexec hopen hexecs hopens hd1
      obtain ⟨o, rest, htemp, hleft, -⟩ := h.opensLeft_pending hopen
      obtain rfl := hexecs.of_false
      rw [htemp] at hopens
      cases hopens
      have hkept := opencallAdd_unaltered hhold htemp hd1
      obtain ⟨-, surv, rfl⟩ := (opencallAdd_meets env hhold htemp).post hd1
      refine ⟨rfl, rfl, hkept, .opened (by rw [hpc]; rfl) hleft rfl rfl fun hf => ?_⟩
      rw [Foreseen, hpc] at hf
      have hnone := h.execsLeft_idle hexec
      rw [hf.1 hfirst] at hnone
      rw [List.map_eq_nil_iff.mp hnone]
      intro x hx
      cases hx
  | false =>
      rw [hfirst] at hexec hopen hexecs hopens hd1
      obtain ⟨e, rest, htemp, hleft, -⟩ := h.execsLeft_pending hexec
      obtain rfl := hopens.of_false
      rw [htemp] at hexecs
      cases hexecs
      have hkept := addExecCall_unaltered hhold htemp hd1
      obtain ⟨-, surv, rfl⟩ := (addExecCall_meets env hhold htemp).post hd1
      refine ⟨rfl, rfl, hkept, .exec (by rw [hpc]; rfl) hleft rfl rfl fun hf => ?_⟩
      rw [Foreseen, hpc] at hf
      have hnone := h.opensLeft_idle hopen
      rw [hf.2 hfirst] at hnone
      rw [List.map_eq_nil_iff.mp hnone]
      intro x hx
      cases hx

theorem Invariant.stepped_readOpen (h : d.Invariant) (hpc : d.pc = .readOpen)
    (hrun : d.mainStep env = .ok d') : d.MainStepped d' := by
  have hloc := h.located
  rw [Located, hpc] at hloc
  obtain ⟨hcomp, hopenQueue⟩ := hloc
  have hhold := h.idle hcomp (by rw [hpc]; decide)
  have hexec := (d.execPending_eq (by rw [hpc]; decide)).trans hcomp
  obtain ⟨o, queue, heq, hread⟩ := hhold.readOpen hopenQueue
  have htemp : d.readOpen.tempOcall = some o := by rw [heq]
  rw [Daemon.mainStep, hpc] at hrun
  obtain ⟨d1, hd1, hrun⟩ := bind_ok hrun
  cases hrun
  have hkept := opencallAdd_unaltered hread htemp hd1
  obtain ⟨-, surv, rfl⟩ := (opencallAdd_meets env hread htemp).post hd1
  -- what has been read is the next one
  obtain ⟨rest, hleft⟩ := hread.openFlow.next
  rw [heq] at hkept hleft ⊢
  refine ⟨rfl, rfl, ⟨hkept.births, hkept.openCalls⟩,
    .opened (by rw [hpc]; rfl) hleft rfl rfl fun hf => ?_⟩
  rw [Foreseen, hpc] at hf
  have hnone := h.execsLeft_idle hexec
  rw [hf] at hnone
  rw [List.map_eq_nil_iff.mp hnone]
  intro y hy
  cases hy

theorem Invariant.stepped_readExec (h : d.Invariant) (hpc : d.pc = .readExec)
    (hrun : d.mainStep env = .ok d') : d.MainStepped d' := by
  have hloc := h.located
  rw [Located, hpc] at hloc
  obtain ⟨hcomp, hexecQueue⟩ := hloc
  have hhold := h.idle hcomp (by rw [hpc]; decide)
  have hopen := (d.openPending_eq (by rw [hpc]; decide)).trans hcomp
  obtain ⟨e, queue, heq, hread⟩ := hhold.readCommand hexecQueue
  have htemp : d.readCommand.tempEcall = some e := by rw [heq]
  rw [Daemon.mainStep, hpc] at hrun
  obtain ⟨d1, hd1, hrun⟩ := bind_ok hrun
  cases hrun
  have hkept := add_unaltered hread htemp hd1
  obtain ⟨-, surv, rfl⟩ := (add_meets env hread htemp).post hd1
  obtain ⟨rest, hleft⟩ := hread.execFlow.next
  rw [heq] at hkept hleft ⊢
  refine ⟨rfl, rfl, ⟨hkept.births, hkept.openCalls⟩,
    .exec (by rw [hpc]; rfl) hleft rfl rfl fun hf => ?_⟩
  rw [Foreseen, hpc] at hf
  have hnone := h.opensLeft_idle hopen
  rw [hf] at hnone
  rw [List.map_eq_nil_iff.mp hnone]
  intro y hy
  cases hy

/-- The flags and the counter are looked at, and now and then the index is swept. -/
theorem checkVitals_unaltered {surv : Surveiller} (h : d.Invariant)
    (hrun : d.checkVitals env = .ok surv) : Unaltered d.surv surv := by
  obtain ⟨execs, opens, hd, -⟩ := h.holding
  obtain ⟨hand, openHand, hinv, -⟩ := hd.owned
  have hcounter : ∃ shutting, d.checkCounter = { d.surv with shuttingDown := shutting } := by
    unfold checkCounter
    split
    · exact ⟨true, rfl⟩
    · exact ⟨d.surv.shuttingDown, rfl⟩
  obtain ⟨shutting, hcounter⟩ := hcounter
  unfold checkVitals at hrun
  rw [hcounter] at hrun
  split at hrun
  · have hkept := survCheckProcVitals_unaltered (hinv.flags shutting _ _) hrun
    exact ⟨hkept.births, hkept.openCalls⟩
  · cases hrun
    exact .of_heap rfl

theorem dispatchCalls_unaltered {surv : Surveiller} (h : d.Invariant)
    (hrun : d.dispatchCalls env = .ok surv) : Unaltered d.surv surv := by
  obtain ⟨execs, opens, hd, -⟩ := h.holding
  obtain ⟨hand, openHand, hinv, -⟩ := hd.owned
  unfold dispatchCalls at hrun
  split at hrun
  · exact dispatchBatch_unaltered hinv hrun
  · cases hrun
    exact .of_heap rfl

/-- **A step of the main thread.** -/
theorem Invariant.stepped (h : d.Invariant) (hrun : d.mainStep env = .ok d') : d.MainStepped d' := by
  cases hpc : d.pc with
  | merge => exact h.stepped_merge hpc hrun
  | handOther => exact h.stepped_handOther hpc hrun
  | readOpen => exact h.stepped_readOpen hpc hrun
  | readExec => exact h.stepped_readExec hpc hrun
  | top =>
      rw [Daemon.mainStep, hpc] at hrun
      obtain ⟨surv, hsurv, hrun⟩ := bind_ok hrun
      cases hrun
      exact ⟨rfl, rfl, checkVitals_unaltered h hsurv, .nothing (by rw [hpc]; rfl) rfl rfl⟩
  | flush =>
      obtain ⟨execs, opens, hd, -⟩ := h.holding
      obtain ⟨hand, openHand, hinv, -⟩ := hd.owned
      rw [Daemon.mainStep, hpc] at hrun
      obtain ⟨surv, hsurv, hrun⟩ := bind_ok hrun
      cases hrun
      exact ⟨rfl, rfl, survFlushProcindex_unaltered hinv hsurv, .nothing (by rw [hpc]; rfl) rfl rfl⟩
  | dispatch =>
      rw [Daemon.mainStep, hpc] at hrun
      obtain ⟨surv, hsurv, hrun⟩ := bind_ok hrun
      cases hrun
      exact ⟨rfl, rfl, dispatchCalls_unaltered h hsurv, .nothing (by rw [hpc]; rfl) rfl rfl⟩
  | readNext =>
      rw [Daemon.mainStep, hpc] at hrun
      cases hfirst : d.ecallFirst with
      | true =>
          rw [hfirst] at hrun
          cases hrun
          exact ⟨rfl, rfl, .of_heap rfl, .nothing (by rw [hpc]; rfl) rfl rfl⟩
      | false =>
          rw [hfirst] at hrun
          cases hrun
          exact ⟨rfl, rfl, .of_heap rfl, .nothing (by rw [hpc]; rfl) rfl rfl⟩
  | hasNext | sizeExec | sizeOpen | readBothExec | readBothOpen | testShutting | testOpenSocket
  | testExecSocket | testOpenQueue | testCommandQueue | done =>
      rw [Daemon.mainStep, hpc] at hrun
      cases hrun
      exact ⟨rfl, rfl, .of_heap rfl, .nothing (by rw [hpc]; rfl) rfl rfl⟩

end Step

end Daemon

end DirSurveiller
