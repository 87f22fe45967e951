/-
  DirSurveiller.Daemon.Invariant — the invariant of the daemon.

  `Surveiller.Invariant` puts together who owns which object, what the rings hold, and what the
  databases hold.  It is stated for the moment at which the main thread holds certain calls in hand.
  The lemmas say that it holds after `surv_init` and that each thing the main thread does keeps it;
  the runs of Operations and MainLoop are built from them.
-/
import DirSurveiller.Daemon.Dispatch

namespace DirSurveiller

open CMachine Outcome

/-- The invariant while the main thread holds `hand` and `openHand`. -/
structure Surveiller.Invariant (s : Surveiller) (hand : List ExecRef) (openHand : List OpenRef) :
    Prop where
  sound : (s.ledger hand openHand).Sound
  commandWf : s.commandQueue.Wf
  openWf : s.openQueue.Wf
  dispatchWf : s.dispatchQueue.Wf
  command : none ∉ s.commandQueue.held
  opens : none ∉ s.openQueue.held
  archived : Archived s.bootTime s.dispatched s.dbMan
  once : ∀ r, (s.dispatched.map Prod.fst).count r ≤ s.heap.freedExecs.count r
  born : ∀ p ∈ s.dispatched, ∃ d, s.heap.births[p.1]? = some (d, p.2.identity)
  links : s.heap.links = []

section Keep

variable {s s' : Surveiller} {hand hand' : List ExecRef} {openHand openHand' : List OpenRef}

/-! ## §1. The beginning. -/

/-- **The daemon starts with the invariant**, and with a table that is wholly initialised. -/
theorem survInit_invariant {getMaxPID ownPID : Int} {bootTime : UInt32}
    (h : survInit getMaxPID ownPID bootTime = .ok (some s)) :
    s.Invariant [] [] ∧ s.procs.Wf ∧ s.dispatchQueue.held = [] ∧ s.dispatched = []
      ∧ s.heap.real = [] ∧ s.bootTime = bootTime ∧ s.procs.maxPid = getMaxPID := by
  unfold survInit at h
  obtain ⟨⟨ret, t⟩, ht, h⟩ := bind_ok h
  by_cases hret : ret = NOMINAL
  · simp only [if_pos hret, pure_eq_ok, Except.ok.injEq, Option.some.injEq] at h
    subst h
    unfold Surveiller.initial
    obtain ⟨hprocs, hsize, -, -, hmax⟩ := procindexInit_spec ht hret
    have hlen : (t.procs.length : Int) = t.size := by
      rw [hprocs, List.length_replicate]
      omega
    -- `calloc` zeroes the block: nobody has an entry, so every tally is 0
    have hslots : ∀ (k : Nat) (r : ExecRef), t.procs[k]? ≠ some (.proc r) := by
      intro k r hk
      rw [hprocs, List.getElem?_replicate] at hk
      split at hk <;> cases hk
    have hentries : t.entries = [] := by
      refine List.eq_nil_iff_forall_not_mem.mpr fun r hr => ?_
      obtain ⟨k, hk⟩ := Procindex.mem_entries.mp hr
      exact hslots k r hk
    refine ⟨⟨⟨?_, ?_, ?_, ?_, by simp [Surveiller.ledger], ?_, ⟨Int.le_of_eq hlen, ?_, ?_⟩⟩,
      GRingBuffer.init_wf, GRingBuffer.init_wf, GRingBuffer.init_wf, by simp, by simp, .empty,
      by simp, by simp, rfl⟩, ⟨hlen, ?_⟩, by simp, rfl, rfl, rfl, hmax⟩
    · intro r
      simp [Ledger.tally, Surveiller.ledger, hentries, Heap.empty]
    · intro o
      simp [Ledger.openTally, Surveiller.ledger, Heap.empty]
    · intro r hr
      simp [Ledger.tally, Surveiller.ledger, hentries, Heap.empty] at hr
    · intro o ho
      simp [Ledger.openTally, Surveiller.ledger, Heap.empty] at ho
    · refine ⟨?_, ?_, ?_, ?_, ?_, ?_, ?_, ?_, ?_, ?_, ?_, ?_, ?_⟩ <;>
        simp [Surveiller.ledger, Heap.empty, Heap.bufferOf]
    · show t.procs[0]? = some .null
      rw [hprocs, List.getElem?_replicate, if_pos (by omega)]
    · exact fun k r hk => absurd hk (hslots k r)
    · rw [hprocs]
      intro hm
      cases List.eq_of_mem_replicate hm
  · simp only [if_neg hret, pure_eq_ok, Except.ok.injEq] at h
    cases h

/-! ## §2. What the main thread does. -/

/-- The functions of the index keep the invariant. -/
theorem Surveiller.Invariant.index (h : s.Invariant hand openHand) (ho : IndexOnly s s')
    (hq : s'.dispatchQueue.Wf)
    (hworks : Works (s.ledger hand openHand) (s'.ledger hand' openHand')) :
    s'.Invariant hand' openHand' := by
  have hframed := hworks.framed
  have hcommand := ho.commandQueue
  have hopen := ho.openQueue
  have hdb := ho.dbMan
  have hboot := ho.bootTime
  have hdisp := ho.dispatched
  refine ⟨hworks.sound h.sound, by rw [hcommand]; exact h.commandWf, by rw [hopen]; exact h.openWf,
    hq, by rw [hcommand]; exact h.command, by rw [hopen]; exact h.opens,
    by rw [hboot, hdisp, hdb]; exact h.archived, fun r => ?_, fun p hp => ?_,
    hframed.links.trans h.links⟩
  · rw [hdisp]
    exact Nat.le_trans (h.once r) (hframed.freed.sublist.count_le r)
  · rw [hdisp] at hp
    obtain ⟨d, hd⟩ := h.born p hp
    refine ⟨d, ?_⟩
    obtain ⟨extra, hextra⟩ := hframed.births
    replace hextra : s.heap.births ++ extra = s'.heap.births := hextra
    rw [← hextra, List.getElem?_append_left (List.getElem?_eq_some_iff.mp hd).1, hd]

theorem SurvAddOutcome.invariant {granted again : Nat → Bool} {e : ExecRef} {c : ExecCall}
    {p : Int × Surveiller} (ho : SurvAddOutcome granted again s e c p)
    (h : s.Invariant hand openHand) (he : e ∈ hand) (hc : s.heap.execs e = some c) :
    ∃ hand', (∀ x ∈ hand, x ≠ e → x ∈ hand')
      ∧ Works (s.ledger hand openHand) (p.2.ledger hand' openHand)
      ∧ p.2.Invariant hand' openHand := by
  obtain ⟨hand', hkept, hworks⟩ := ho.working he hc h.dispatchWf
  refine ⟨hand', hkept, hworks, ?_⟩
  cases ho with
  | direct hp hret => exact h.index rfl h.dispatchWf hworks
  | replaced hin hg hk hown hp => exact h.index rfl (GRingBuffer.write_wf h.dispatchWf _) hworks

theorem Swept.invariant {hit : Nat → Bool} {lo n : Nat} (hsw : Swept hit lo s hand openHand n s')
    (h : s.Invariant hand openHand) :
    ∃ hand', (∀ x ∈ hand, x ∈ hand') ∧ Works (s.ledger hand openHand) (s'.ledger hand' openHand)
      ∧ s'.Invariant hand' openHand := by
  obtain ⟨hand', hkept, hworks⟩ := hsw.working
  exact ⟨hand', fun x hx => hkept x hx trivial, hworks, h.index hsw.only hsw.queueWf hworks⟩

/-- One dispatch keeps the invariant. -/
theorem DispatchedOne.invariant {r : ExecRef} {rest : List (Option ExecRef)}
    (hd : DispatchedOne s hand openHand r rest s') (h : s.Invariant hand openHand) :
    ∃ hand', (∀ x ∈ hand, x ∈ hand') ∧ Works (s.ledger hand openHand) (s'.ledger hand' openHand)
      ∧ s'.Invariant hand' openHand := by
  obtain ⟨hand', hkept, hworks⟩ := hd.working
  refine ⟨hand', fun x hx => hkept x hx trivial, hworks, ?_⟩
  have hframed := hworks.framed
  obtain ⟨c, hc, hdisp, hfiled⟩ := hd.filed
  have hcommand := hd.only.commandQueue
  have hopen := hd.only.openQueue
  have hboot := hd.only.bootTime
  have hbirth : ∀ {x : Nat} {d}, s.heap.births[x]? = some d → s'.heap.births[x]? = some d := by
    intro x d hx
    obtain ⟨extra, hextra⟩ := hframed.births
    replace hextra : s.heap.births ++ extra = s'.heap.births := hextra
    rw [← hextra, List.getElem?_append_left (List.getElem?_eq_some_iff.mp hx).1, hx]
  obtain ⟨b, hb⟩ := h.sound.objects.born r c hc
  have htext := h.sound.objects.texts _ (List.mem_of_getElem? hb)
  refine ⟨hworks.sound h.sound, by rw [hcommand]; exact h.commandWf, by rw [hopen]; exact h.openWf,
    hd.queueWf, by rw [hcommand]; exact h.command, by rw [hopen]; exact h.opens,
    by rw [hboot, hdisp]; exact h.archived.file hfiled htext, fun x => ?_, fun p hp => ?_,
    hframed.links.trans h.links⟩
  · rw [hdisp, hd.freed, List.map_append, List.count_append, List.count_append]
    exact Nat.add_le_add_right (h.once x) _
  · rw [hdisp] at hp
    rcases List.mem_append.mp hp with hp | hp
    · obtain ⟨d, hd⟩ := h.born p hp
      exact ⟨d, hbirth hd⟩
    · rw [List.mem_singleton.mp hp]
      exact ⟨b, hbirth hb⟩

/-! ## §3. A whole dispatch batch. -/

/-- What the dispatch loop leaves after `n` rounds. -/
structure DispatchedBatch (s : Surveiller) (hand : List ExecRef) (openHand : List OpenRef)
    (n : Nat) (s' : Surveiller) : Prop where
  only : DispatchOnly s s'
  invariant : ∃ hand', (∀ x ∈ hand, x ∈ hand')
    ∧ Works (s.ledger hand openHand) (s'.ledger hand' openHand) ∧ s'.Invariant hand' openHand
  queue : s'.dispatchQueue.held = s.dispatchQueue.held.drop n
  dispatched : s'.dispatched.map (some ∘ Prod.fst)
    = s.dispatched.map (some ∘ Prod.fst) ++ s.dispatchQueue.held.take n

theorem dispatchBatch_meets {env : Nat → DispatchEnv} (h : s.Invariant hand openHand) :
    Meets (Tolerated (∃ i, ¬ (env i).mem.Total)) (dispatchBatch env s)
      (DispatchedBatch s hand openHand s.dispatchQueue.held.length) := by
  rw [dispatchBatch, GRingBuffer.held_toNat]
  refine Meets.foldlM_range (P := fun n s' => DispatchedBatch s hand openHand n s') ?_
    ⟨rfl, ⟨hand, fun _ hx => hx, .refl, h⟩, by simp, by simp⟩
  intro i hi s1 h1
  obtain ⟨hand1, hkept1, hworks1, hinv1⟩ := h1.invariant
  obtain ⟨x, hx⟩ : ∃ x, s.dispatchQueue.held[i]? = some x := ⟨_, List.getElem?_eq_getElem hi⟩
  -- nobody writes `NULL` to the queue, so `survDatabaseDispatch` gets a call
  obtain ⟨r, rfl⟩ : ∃ r, x = some r := by
    cases x with
    | some r => exact ⟨r, rfl⟩
    | none => exact absurd (List.mem_of_getElem? hx) h.sound.queue
  have hdrop : s1.dispatchQueue.held = some r :: s.dispatchQueue.held.drop (i + 1) := by
    rw [h1.queue, List.drop_eq_getElem_cons hi]
    rw [List.getElem?_eq_getElem hi, Option.some.injEq] at hx
    rw [hx]
  refine Meets.mono (P := DispatchedOne s1 hand1 openHand r (s.dispatchQueue.held.drop (i + 1)))
    ?_ fun s2 h2 => ?_
  · have hone := dispatchOne_meets (env i) hinv1.sound hinv1.dispatchWf hdrop
    cases hrun : dispatchOne (env i) s1 with
    | ok s2 => exact hone.post hrun
    | error e =>
        have hfault := hone.fault hrun
        cases e with
        | nullDeref => exact ⟨i, hfault⟩
        | useAfterFree => exact hfault
        | _ => trivial
  · obtain ⟨hand2, hkept2, hworks2, hinv2⟩ := h2.invariant hinv1
    obtain ⟨c, hc, hdisp, -⟩ := h2.filed
    refine ⟨?_, ⟨hand2, fun y hy => hkept2 y (hkept1 y hy), hworks1.trans hworks2, hinv2⟩,
      h2.queue, ?_⟩
    · exact h1.only.trans h2.only
    · rw [hdisp, List.map_append, h1.dispatched, List.append_assoc]
      congr 1
      rw [List.take_add_one, hx]
      rfl

end Keep

end DirSurveiller
