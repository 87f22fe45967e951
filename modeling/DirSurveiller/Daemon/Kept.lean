/-
  DirSurveiller.Daemon.Kept — what the main thread leaves to the other threads.

  Whatever a step of the main thread does, it does not touch the flags of the parsers, it does not
  take `shutting_down` back, and no call object that lives through it becomes another one.

  Main result:
    * `Daemon.Invariant.mainStep_kept`
-/
import DirSurveiller.Daemon.Handover

namespace DirSurveiller

open CMachine Outcome

/-! ## §1. The functions that the main thread calls. -/

/-- The flags of the parsers are as they were, `shutting_down` stays set, and the calls are the same. -/
structure Spared (s s' : Surveiller) : Prop where
  execSocket : s'.processingExeccallSocket = s.processingExeccallSocket
  openSocket : s'.processingOpencallSocket = s.processingOpencallSocket
  shutting : s.shuttingDown = true → s'.shuttingDown = true
  unaltered : Unaltered s s'

section Spared

variable {s s' s'' : Surveiller} {hand : List ExecRef} {openHand : List OpenRef}

theorem Spared.refl (s : Surveiller) : Spared s s := ⟨rfl, rfl, id, .of_heap rfl⟩

theorem Spared.trans (h : Spared s s') (h' : Spared s' s'') : Spared s s'' :=
  ⟨h'.execSocket.trans h.execSocket, h'.openSocket.trans h.openSocket,
    fun hs => h'.shutting (h.shutting hs), h.unaltered.trans h'.unaltered⟩

theorem Spared.index (ho : IndexOnly s s') (hu : Unaltered s s') : Spared s s' :=
  ⟨ho.processingExeccallSocket, ho.processingOpencallSocket, fun hs => ho.shuttingDown.trans hs, hu⟩

theorem survAddExecCall_kept {granted again : Nat → Bool} {e : ExecRef} {p : Int × Surveiller}
    (h : s.Invariant hand openHand) (he : e ∈ hand)
    (hrun : survAddExecCall granted again s e = .ok p) : Spared s p.2 := by
  obtain ⟨c, hc⟩ := h.sound.hand_live he
  have hmeets : Meets (Tolerated True) (survAddExecCall granted again s e) _ :=
    survAddExecCall_meets hc h.sound.table.sane fun _ _ => trivial
  refine .index ?_ (survAddExecCall_unaltered h he hrun)
  cases hmeets.post hrun with
  | direct => rfl
  | replaced => rfl

theorem survProcindexAdd_kept {granted : Nat → Bool} {e : ExecRef} {p : Int × Surveiller}
    (h : s.Invariant hand openHand) (he : e ∈ hand)
    (hrun : survProcindexAdd granted s e = .ok p) : Spared s p.2 := by
  refine .index ?_ (survProcindexAdd_unaltered h he hrun)
  unfold survProcindexAdd at hrun
  obtain ⟨q, -, hrun⟩ := bind_ok hrun
  obtain rfl := Except.ok.inj hrun
  rfl

theorem survOpencallAdd_kept {alloc : OpencallAlloc} {o : OpenRef} {p : Int × Surveiller}
    (h : s.Invariant hand openHand) (ho : o ∈ openHand)
    (hrun : survOpencallAdd alloc s o = .ok p) : Spared s p.2 := by
  refine .index ?_ (survOpencallAdd_unaltered h ho hrun)
  unfold survOpencallAdd at hrun
  obtain ⟨q, -, hrun⟩ := bind_ok hrun
  obtain rfl := Except.ok.inj hrun
  rfl

theorem survCheckProcVitals_kept {gone : Nat → Bool} (h : s.Invariant hand openHand)
    (hrun : survCheckProcVitals gone s = .ok s') : Spared s s' := by
  have hmeets : Meets (Tolerated True) (survCheckProcVitals gone s) _ :=
    survCheckProcVitals_meets h.sound h.dispatchWf gone
  exact .index (hmeets.post hrun).only (survCheckProcVitals_unaltered h hrun)

theorem survFlushProcindex_kept (h : s.Invariant hand openHand)
    (hrun : survFlushProcindex s = .ok s') : Spared s s' := by
  have hmeets : Meets (Tolerated True) (survFlushProcindex s) _ :=
    survFlushProcindex_meets h.sound h.dispatchWf
  exact .index (hmeets.post hrun).only (survFlushProcindex_unaltered h hrun)

theorem dispatchBatch_kept {env : Nat → DispatchEnv} (h : s.Invariant hand openHand)
    (hrun : dispatchBatch env s = .ok s') : Spared s s' := by
  have honly := ((dispatchBatch_meets h).post hrun).only
  refine ⟨honly.processingExeccallSocket, honly.processingOpencallSocket, fun hs => ?_,
    dispatchBatch_unaltered h hrun⟩
  rw [show s' = _ from honly]
  exact hs

end Spared

/-! ## §2. A step of the main thread. -/

namespace Daemon

/-- What a step of the main thread leaves to the parsers. -/
structure MainKept (d d' : Daemon) : Prop where
  acceptedExecs : d'.acceptedExecs = d.acceptedExecs
  acceptedOpens : d'.acceptedOpens = d.acceptedOpens
  kept : Spared d.surv d'.surv

section Step

variable {d d' : Daemon} {env : MainEnv} {execs : List ExecRef} {opens : List OpenRef}
  {e : ExecRef} {o : OpenRef}

theorem addExecCall_kept (h : d.Holding [e] opens) (htemp : d.tempEcall = some e)
    (hrun : d.addExecCall env = .ok d') : d.MainKept d' := by
  obtain ⟨hand, openHand, hinv, hhand, -⟩ := h.owned
  unfold addExecCall at hrun
  rw [htemp] at hrun
  obtain ⟨p, hp, hrun⟩ := bind_ok hrun
  obtain rfl := Except.ok.inj hrun
  exact ⟨rfl, rfl, survAddExecCall_kept hinv (hhand e (List.mem_singleton.mpr rfl)) hp⟩

theorem add_kept (h : d.Holding [e] opens) (htemp : d.tempEcall = some e)
    (hrun : d.add env = .ok d') : d.MainKept d' := by
  obtain ⟨hand, openHand, hinv, hhand, -⟩ := h.owned
  unfold add at hrun
  rw [htemp] at hrun
  obtain ⟨p, hp, hrun⟩ := bind_ok hrun
  obtain rfl := Except.ok.inj hrun
  exact ⟨rfl, rfl, survProcindexAdd_kept hinv (hhand e (List.mem_singleton.mpr rfl)) hp⟩

theorem opencallAdd_kept (h : d.Holding execs [o]) (htemp : d.tempOcall = some o)
    (hrun : d.opencallAdd env = .ok d') : d.MainKept d' := by
  obtain ⟨hand, openHand, hinv, -, hhand⟩ := h.owned
  unfold opencallAdd at hrun
  rw [htemp] at hrun
  obtain ⟨p, hp, hrun⟩ := bind_ok hrun
  obtain rfl := Except.ok.inj hrun
  exact ⟨rfl, rfl, survOpencallAdd_kept hinv (hhand o (List.mem_singleton.mpr rfl)) hp⟩

/-- Either of the two calls of the merge, where it is pending. -/
theorem handOver_kept (h : d.Invariant) {exec : Bool} (hexec : exec = true → d.execPending = true)
    (hopen : exec = false → d.openPending = true) (hrun : d.handOver env exec = .ok d') :
    d.MainKept d' := by
  obtain ⟨execs, opens, hd, hexecs, hopens⟩ := h.holding
  cases exec with
  | true =>
      rw [hexec rfl] at hexecs
      obtain ⟨e, htemp, rfl⟩ := hexecs.of_true
      exact addExecCall_kept hd htemp hrun
  | false =>
      rw [hopen rfl] at hopens
      obtain ⟨o, htemp, rfl⟩ := hopens.of_true
      exact opencallAdd_kept hd htemp hrun

/-- The flag may be set by the counter, and now and then the index is swept. -/
theorem checkVitals_kept {surv : Surveiller} (h : d.Invariant) (hrun : d.checkVitals env = .ok surv) :
    Spared d.surv surv := by
  obtain ⟨execs, opens, hd, -⟩ := h.holding
  obtain ⟨hand, openHand, hinv, -⟩ := hd.owned
  have hcounter : Spared d.surv d.checkCounter ∧ d.checkCounter.Invariant hand openHand := by
    unfold checkCounter
    split
    · exact ⟨⟨rfl, rfl, fun _ => rfl, .of_heap rfl⟩, hinv.flags true _ _⟩
    · exact ⟨.refl _, hinv⟩
  unfold checkVitals at hrun
  split at hrun
  · exact hcounter.1.trans (survCheckProcVitals_kept hcounter.2 hrun)
  · obtain rfl := Except.ok.inj hrun
    exact hcounter.1

/-- **Whatever the main thread does.** -/
theorem Invariant.mainStep_kept (h : d.Invariant) (hrun : d.mainStep env = .ok d') :
    d.MainKept d' := by
  have hstay : Spared d.surv d'.surv → d'.acceptedExecs = d.acceptedExecs →
      d'.acceptedOpens = d.acceptedOpens → d.MainKept d' := fun hk he ho => ⟨he, ho, hk⟩
  obtain ⟨execs, opens, hd, hexecs, hopens⟩ := h.holding
  obtain ⟨hand, openHand, hinv, -⟩ := hd.owned
  cases hpc : d.pc with
  | top =>
      rw [Daemon.mainStep, hpc] at hrun
      obtain ⟨surv, hsurv, hrun⟩ := bind_ok hrun
      obtain rfl := Except.ok.inj hrun
      exact hstay (checkVitals_kept h hsurv) rfl rfl
  | merge =>
      have hcomp := h.located
      rw [Located, hpc] at hcomp
      have hexec := (d.execPending_eq (by rw [hpc]; decide)).trans hcomp
      have hopen := (d.openPending_eq (by rw [hpc]; decide)).trans hcomp
      rw [Daemon.mainStep, hpc] at hrun
      obtain ⟨first, -, hrun⟩ := bind_ok hrun
      obtain ⟨d1, hd1, hrun⟩ := bind_ok hrun
      obtain rfl := Except.ok.inj hrun
      have hk := handOver_kept h (fun _ => hexec) (fun _ => hopen) hd1
      exact ⟨hk.acceptedExecs, hk.acceptedOpens, hk.kept⟩
  | handOther =>
      have hexec : d.execPending = !d.ecallFirst := by
        unfold execPending
        rw [hpc]
      have hopen : d.openPending = d.ecallFirst := by
        unfold openPending
        rw [hpc]
      rw [Daemon.mainStep, hpc] at hrun
      obtain ⟨d1, hd1, hrun⟩ := bind_ok hrun
      obtain rfl := Except.ok.inj hrun
      have hk := handOver_kept h (fun hf => hexec.trans hf)
        (fun hf => hopen.trans (by simpa using hf)) hd1
      exact ⟨hk.acceptedExecs, hk.acceptedOpens, hk.kept⟩
  | readOpen =>
      have hloc := h.located
      rw [Located, hpc] at hloc
      obtain ⟨o, queue, heq, hread⟩ := (h.idle hloc.1 (by rw [hpc]; decide)).readOpen hloc.2
      rw [Daemon.mainStep, hpc] at hrun
      obtain ⟨d1, hd1, hrun⟩ := bind_ok hrun
      obtain rfl := Except.ok.inj hrun
      have hk := opencallAdd_kept hread (by rw [heq]) hd1
      rw [heq] at hk
      exact ⟨hk.acceptedExecs, hk.acceptedOpens, hk.kept.execSocket, hk.kept.openSocket,
        hk.kept.shutting, hk.kept.unaltered.births, hk.kept.unaltered.openCalls⟩
  | readExec =>
      have hloc := h.located
      rw [Located, hpc] at hloc
      obtain ⟨e, queue, heq, hread⟩ := (h.idle hloc.1 (by rw [hpc]; decide)).readCommand hloc.2
      rw [Daemon.mainStep, hpc] at hrun
      obtain ⟨d1, hd1, hrun⟩ := bind_ok hrun
      obtain rfl := Except.ok.inj hrun
      have hk := add_kept hread (by rw [heq]) hd1
      rw [heq] at hk
      exact ⟨hk.acceptedExecs, hk.acceptedOpens, hk.kept.execSocket, hk.kept.openSocket,
        hk.kept.shutting, hk.kept.unaltered.births, hk.kept.unaltered.openCalls⟩
  | flush =>
      rw [Daemon.mainStep, hpc] at hrun
      obtain ⟨surv, hsurv, hrun⟩ := bind_ok hrun
      obtain rfl := Except.ok.inj hrun
      exact hstay (survFlushProcindex_kept hinv hsurv) rfl rfl
  | dispatch =>
      rw [Daemon.mainStep, hpc] at hrun
      obtain ⟨surv, hsurv, hrun⟩ := bind_ok hrun
      obtain rfl := Except.ok.inj hrun
      refine hstay ?_ rfl rfl
      unfold dispatchCalls at hsurv
      split at hsurv
      · exact dispatchBatch_kept hinv hsurv
      · obtain rfl := Except.ok.inj hsurv
        exact .refl _
  | readNext =>
      rw [Daemon.mainStep, hpc] at hrun
      cases hfirst : d.ecallFirst with
      | true =>
          rw [hfirst] at hrun
          obtain rfl := Except.ok.inj hrun
          exact hstay ⟨rfl, rfl, id, .of_heap rfl⟩ rfl rfl
      | false =>
          rw [hfirst] at hrun
          obtain rfl := Except.ok.inj hrun
          exact hstay ⟨rfl, rfl, id, .of_heap rfl⟩ rfl rfl
  | hasNext | sizeExec | sizeOpen | readBothExec | readBothOpen | testShutting | testOpenSocket
  | testExecSocket | testOpenQueue | testCommandQueue | done =>
      rw [Daemon.mainStep, hpc] at hrun
      obtain rfl := Except.ok.inj hrun
      exact hstay ⟨rfl, rfl, id, .of_heap rfl⟩ rfl rfl

end Step

end Daemon

end DirSurveiller
