/-
  DirSurveiller.Daemon.Tracked — which calls are written to the dispatch queue.

  Three places take calls out of the index.  The death check and the flush look at `tracked`: they
  queue a tracked call and destroy any other.  `surv_addExecCall` does not look at it: whatever had
  the pid is queued.

  Main result:
    * `only_tracked_iff` — the runs in which only tracked calls are queued and every other call that
      leaves the index is destroyed.
-/
import DirSurveiller.Index.Attested
import DirSurveiller.Daemon.Reexec

namespace DirSurveiller

open CMachine Outcome

/-! ## §1. The policy. -/

/-- An exec while the queues are merged, an open call, the death check and the flush. -/
def Op.Driven : Op → Prop
  | .addExecCall _ _ _ => True
  | .opencallAdd _ _ => True
  | .checkVitals _ => True
  | .flush => True
  | _ => False

/-- An open call is in the buffer of `r`, or of a call that has it as an ancestor. -/
def Surveiller.Associated (s : Surveiller) (r : ExecRef) : Prop :=
  ∃ x, Relation.ReflTransGen (fun child parent => (child, parent) ∈ s.heap.links) x r
    ∧ s.heap.bufferOf x ≠ []

/-- From `s` to `s'` only tracked calls are queued, and the others that leave are destroyed. -/
structure ArchivesTracked (s s' : Surveiller) : Prop where
  written : ∀ r, some r ∈ s'.dispatchQueue.held →
    some r ∈ s.dispatchQueue.held ∨ (s.Tracks r ∧ s.Associated r)
  destroyed : ∀ r, Removed s s' r → ¬ s.Tracks r → r ∈ s'.heap.freedExecs

/-- An exec event whose pid is in use comes when its entry is tracked. -/
def Op.EvictsTracked (s : Surveiller) : Op → Prop
  | .addExecCall _ _ e => s.procs.InRange e.pid →
      ∀ r, s.procs.procs[(e.pid.toInt + 1).toNat]? = some (.proc r) → s.Tracks r
  | _ => True

/-- What `tracked` says of the daemon's index. -/
abbrev Surveiller.Attested (s : Surveiller) : Prop := DirSurveiller.Attested s.heap s.procs

theorem Surveiller.Attested.associated {s : Surveiller} (ha : s.Attested) {r : ExecRef}
    (ht : s.Tracks r) : s.Associated r := by
  obtain ⟨c, hc, htracked⟩ := ht
  exact ⟨r, .refl, ha.tracked r c hc htracked⟩

/-! ## §2. Sweeps. -/

/-- What a sweep has done to the entries of `s` so far: one is still there, or was tracked, or has
been destroyed. -/
structure Sifted (s s' : Surveiller) : Prop where
  attested : s'.Attested
  fate : ∀ r ∈ s.procs.entries, (r ∈ s'.procs.entries ∧ (s'.Tracks r → s.Tracks r))
    ∨ s.Tracks r ∨ r ∈ s'.heap.freedExecs

section Sweep

variable {s s1 s2 s' : Surveiller} {hand : List ExecRef} {openHand : List OpenRef}

/-- An entry other than the one whose slot is emptied stays. -/
theorem entries_withSlot {t : Procindex} {k : Nat} {own r : ExecRef}
    (hown : t.procs[k]? = some (.proc own)) (hr : r ∈ t.entries) (hne : r ≠ own) :
    r ∈ (t.withSlot k .null).entries := by
  obtain ⟨j, hj⟩ := Procindex.mem_entries.mp hr
  apply Procindex.mem_entries.mpr
  refine ⟨j, Procindex.withSlot_null.mpr ⟨?_, hj⟩⟩
  intro hjk
  rw [hjk, hown] at hj
  cases hj
  exact hne rfl

/-- **One slot.** -/
theorem SweepOutcome.sifted {hit : Bool} {k : Nat} (ho : SweepOutcome hit k s1 s2)
    (h : Sifted s s1) : Sifted s s2 := by
  have ha := h.attested
  cases ho with
  | idle => exact h
  | @aged x c hhit hnone hc =>
      refine ⟨ha.change hc id id, ?_⟩
      intro r hr
      rcases h.fate r hr with hstays | hgone
      · refine .inl ⟨hstays.1, ?_⟩
        intro ht
        apply hstays.2
        -- ageing a call does not make it tracked
        obtain ⟨d, hd, htracked⟩ := ht
        rcases Heap.update_eq_some hd with ⟨rfl, heq⟩ | ⟨-, hd⟩
        · cases heq
          exact ⟨c, hc, htracked⟩
        · exact ⟨d, hd, htracked⟩
      · exact .inr hgone
  | @sent x hhit hx =>
      -- the object lives on in the queue; what is tracked now was tracked at the beginning
      obtain ⟨hslot, htracks⟩ := trackedAt_eq_some.mp hx
      refine ⟨ha.clear k, ?_⟩
      intro r hr
      rcases h.fate r hr with hstays | hgone
      · by_cases hrx : r = x
        · subst hrx
          exact .inr (.inl (hstays.2 htracks))
        · exact .inl ⟨entries_withSlot hslot hstays.1 hrx, hstays.2⟩
      · exact .inr hgone
  | @dropped x c hhit hnone hslot hc =>
      refine ⟨(ha.release x _).clear k, ?_⟩
      intro r hr
      rcases h.fate r hr with hstays | htracks | hfreed
      · by_cases hrx : r = x
        · subst hrx
          exact .inr (.inr (List.mem_append_right _ (List.mem_singleton_self _)))
        · refine .inl ⟨entries_withSlot hslot hstays.1 hrx, ?_⟩
          intro ht
          apply hstays.2
          obtain ⟨d, hd, htracked⟩ := ht
          rcases Heap.update_eq_some hd with ⟨-, hd⟩ | ⟨-, hd⟩
          · cases hd
          · exact ⟨d, hd, htracked⟩
      -- what has been destroyed before stays so
      · exact .inr (.inl htracks)
      · exact .inr (.inr (List.mem_append_left _ hfreed))

/-- What has been swept follows the policy. -/
theorem Sifted.archives {hit : Nat → Bool} {lo n : Nat} (h : Sifted s s') (ha : s.Attested)
    (hswept : Swept hit lo s hand openHand n s') : ArchivesTracked s s' := by
  constructor
  · intro r hr
    rw [hswept.queue] at hr
    rcases List.mem_append.mp (List.mem_of_mem_take hr) with hold | hsent
    · exact .inl hold
    · obtain ⟨x, hx, hxr⟩ := List.mem_map.mp hsent
      cases hxr
      obtain ⟨k, -, -, -, hk⟩ := mem_sent.mp hx
      have htracks : s.Tracks r := (trackedAt_eq_some.mp hk).2
      exact .inr ⟨htracks, ha.associated htracks⟩
  · intro r hremoved hnot
    rcases h.fate r hremoved.1 with hstays | htracks | hfreed
    · exact absurd hstays.1 hremoved.2
    · exact absurd htracks hnot
    · exact hfreed

/-- A loop over slots. -/
theorem sweep_sifted (hit : Nat → Bool) (lo : Nat) {n : Nat}
    {body : Surveiller → Nat → Except Fault Surveiller}
    (h : s.Invariant hand openHand) (ha : s.Attested)
    (hbody : ∀ i < n, ∀ s' hand', (s'.ledger hand' openHand).Sound →
      Meets (Tolerated True) (body s' i) (SweepOutcome (hit (lo + i)) (lo + i) s'))
    (hrun : (List.range n).foldlM body s = .ok s') : Sifted s s' := by
  refine sweep_keeps hit (Q := fun _ s1 => Sifted s s1) h hbody ?_
    ⟨ha, fun r hr => .inl ⟨hr, id⟩⟩ hrun
  intro i hi s1 s2 hand' hs1 hstep hq
  exact ((hbody i hi s1 hand' hs1).post hstep).sifted hq

-- without this the elaborator evaluates the bounds of an `int` on terms with variables
attribute [local irreducible] toInt

/-- **`surv_check_proc_vitals`** -/
theorem checkVitals_sifted (h : s.Invariant hand openHand) (ha : s.Attested) {gone : Nat → Bool}
    (hrun : survCheckProcVitals gone s = .ok s') : Sifted s s' := by
  unfold survCheckProcVitals at hrun
  split at hrun
  next => cases hrun
  next =>
    refine sweep_sifted gone 0 h ha ?_ hrun
    intro i _ s' hand' hs'
    rw [Nat.zero_add]
    exact checkSlot_meets hs' gone i

/-- **`surv_flush_procindex`** -/
theorem flush_sifted (h : s.Invariant hand openHand) (ha : s.Attested)
    (hrun : survFlushProcindex s = .ok s') : Sifted s s' := by
  unfold survFlushProcindex at hrun
  split at hrun
  next => cases hrun
  next =>
    refine sweep_sifted (fun _ => true) 1 h ha ?_ hrun
    intro i _ s' hand' hs'
    rw [Nat.add_comm]
    exact flushPid_meets hs' i

end Sweep

/-! ## §3. One operation. -/

section Step

variable {s s' : Surveiller} {hand : List ExecRef} {openHand : List OpenRef}
  {granted again : Nat → Bool} {e : ExecEvent}

/-- Nothing is taken out or queued. -/
theorem archivesTracked_of_keeps (hkeeps : Keeps s.procs s'.procs)
    (hqueue : s'.dispatchQueue = s.dispatchQueue) : ArchivesTracked s s' := by
  constructor
  · intro r hr
    rw [hqueue] at hr
    exact .inl hr
  · intro r hremoved _
    exact absurd hremoved (not_removed hkeeps r)

theorem Surveiller.Attested.newExec (ha : s.Attested) (h : s.Invariant hand openHand)
    (e : ExecEvent) : (s.newExec e).Attested :=
  ha.malloc false rfl h.sound.next_new

theorem Surveiller.Attested.newOpen (ha : s.Attested) (o : OpenEvent) : (s.newOpen o).Attested :=
  ⟨ha.tracked, ha.orphans⟩

/-- `procindex_add` destroys nothing. -/
theorem AddOutcome.freedExecs {h : Heap} {t : Procindex} {call : ExecRef} {c : ExecCall}
    {p : Int × Heap × Procindex} (hp : AddOutcome granted h t call c p) :
    p.2.1.freedExecs = h.freedExecs := by
  cases hp with
  | rejected => rfl
  | noMemory => rfl
  | occupied => rfl
  | added => rfl

/-- **`surv_addExecCall`** keeps the flags true. -/
theorem SurvAddOutcome.attested {p : Int × Surveiller} (h : s.Invariant hand openHand)
    (ha : s.Attested)
    (ho : SurvAddOutcome granted again (s.newExec e) s.heap.nextExec e.call p) :
    p.2.Attested := by
  have hnew := ha.newExec h e
  have hc : (s.newExec e).heap.execs s.heap.nextExec = some e.call := Function.update_self _ _ _
  cases ho with
  | direct hp => exact hp.attested hnew hc
  | @replaced t k own p hin hg hk hown hp => exact hp.attested ((hnew.extend hg.grows).clear k) hc

/-- **`surv_addExecCall`** follows the policy iff the entry it takes out is tracked. -/
theorem SurvAddOutcome.archives_iff {p : Int × Surveiller} (h : s.Invariant hand openHand)
    (ha : s.Attested)
    (ho : SurvAddOutcome granted again (s.newExec e) s.heap.nextExec e.call p) :
    ArchivesTracked s p.2 ↔ (Op.addExecCall granted again e).EvictsTracked s := by
  cases ho with
  | @direct p hp hret =>
      -- the first `procindex_add` did not find the slot taken
      have hkeeps : Keeps s.procs p.2.2 := hp.keeps
      have hfree := hp.unheld h hret
      constructor
      · intro _ hin r hr
        have hpos := hin.1
        exact absurd ⟨hin, _, r, by omega, hr⟩ hfree
      · intro _
        exact archivesTracked_of_keeps hkeeps rfl
  | @replaced t k own p hin hg hk hown hp =>
      replace hk : e.pid.toInt + 1 = k := hk
      replace hin : s.procs.InRange e.pid := hin
      have hkn : (e.pid.toInt + 1).toNat = k := by omega
      have hslot : s.procs.procs[k]? = some (.proc own) := hg.grows.proc hown
      have hremoved : ∀ r, Removed s { (s.newExec e).send (some own) with
          heap := p.2.1, procs := p.2.2 } r ↔ r = own := fun r =>
        replaced_removed h hg.grows hown hp
      have hqueue : ∀ r, some r ∈ (gRingBufferWrite s.dispatchQueue (some own)).2.held →
          some r ∈ s.dispatchQueue.held ∨ r = own := by
        intro r hr
        rw [GRingBuffer.write_held h.dispatchWf] at hr
        rcases List.mem_append.mp (List.mem_of_mem_take hr) with hold | hnew
        · exact .inl hold
        · exact .inr (Option.some.inj (List.mem_singleton.mp hnew))
      constructor
      · intro harchives _ r hr
        rw [hkn, hslot] at hr
        cases hr
        by_contra hnot
        -- it has not been destroyed: it is as it was
        have hfreed := harchives.destroyed own ((hremoved own).mpr rfl) hnot
        replace hfreed : own ∈ p.2.1.freedExecs := hfreed
        rw [hp.freedExecs] at hfreed
        obtain ⟨c, hc, -⟩ := h.sound.entry_live hslot
        have hnone := (h.sound.objects.execs own).mpr (.inr hfreed)
        exact Option.some_ne_none c (hc.symm.trans hnone)
      · intro hevicts
        have htracks := hevicts hin own (by rw [hkn]; exact hslot)
        constructor
        · intro r hr
          rcases hqueue r hr with hold | hown'
          · exact .inl hold
          · rw [hown']
            exact .inr ⟨htracks, ha.associated htracks⟩
        · intro r hr hnot
          rw [(hremoved r).mp hr] at hnot
          exact absurd htracks hnot

/-- **The step lemma.** -/
theorem applyOp_archives_iff {op : Op} (h : s.Invariant hand openHand) (ha : s.Attested)
    (hdriven : op.Driven) (hstep : applyOp s op = .ok s') :
    s'.Attested ∧ (ArchivesTracked s s' ↔ op.EvictsTracked s) := by
  cases applyOp_done h hstep with
  | addExecCall hp => exact ⟨hp.attested h ha, hp.archives_iff h ha⟩
  | @opencallAdd alloc o p hrun hp =>
      have hattested := procindexOpencallAdd_attested
        (l := (s.newOpen o).ledger hand (s.heap.nextOpen :: openHand)) (h.newOpen o).sound
        (ha.newOpen o) hrun
      exact ⟨hattested, fun _ => trivial, fun _ => archivesTracked_of_keeps hp.keeps rfl⟩
  | checkVitals hswept =>
      have hsifted := checkVitals_sifted h ha hstep
      exact ⟨hsifted.attested, fun _ => trivial, fun _ => hsifted.archives ha hswept⟩
  | flush hswept =>
      have hsifted := flush_sifted h ha hstep
      exact ⟨hsifted.attested, fun _ => trivial, fun _ => hsifted.archives ha hswept⟩
  | add => exact hdriven.elim
  | retrieve => exact hdriven.elim
  | dispatch => exact hdriven.elim

end Step

/-! ## §4. Runs. -/

section Run

variable {getMaxPID ownPID : Int} {bootTime : UInt32} {s0 : Surveiller} {ops : List Op}

/-- The daemon starts without objects. -/
theorem survInit_attested (h0 : survInit getMaxPID ownPID bootTime = .ok (some s0)) :
    s0.Attested := by
  unfold survInit at h0
  obtain ⟨⟨ret, t⟩, -, h0⟩ := bind_ok h0
  have hempty : s0.heap = .empty := by
    dsimp only at h0
    split at h0
    next =>
      cases h0
      rfl
    next => cases h0
  constructor
  · intro r c hc
    rw [hempty] at hc
    cases hc
  · intro k r c _ hc
    rw [hempty] at hc
    cases hc

/-- **The run lemma.** -/
theorem runOps_attested (h0 : survInit getMaxPID ownPID bootTime = .ok (some s0))
    (hdriven : ∀ op ∈ ops, op.Driven) (hrun : runOps s0 ops = .ok s) : s.Attested := by
  refine run_induction (P := fun ops s => (∀ op ∈ ops, op.Driven) → s.Attested)
    (fun _ => survInit_attested h0) ?_ hrun hdriven
  intro ops op m s' hm hattested hstep hall
  obtain ⟨hand, openHand, hinv⟩ := (runOps_ran h0 hm).invariant
  have ha := hattested fun x hx => hall x (by simp [hx])
  exact (applyOp_archives_iff hinv ha (hall op (by simp)) hstep).1

/-- **Only tracked calls are archived**, and every other call that leaves the index is destroyed, iff
every exec event whose pid is in use comes when the entry of the pid is tracked. -/
theorem only_tracked_iff (h0 : survInit getMaxPID ownPID bootTime = .ok (some s0))
    (hdriven : ∀ op ∈ ops, op.Driven) :
    (∀ s1 op s2, StepOf s0 ops s1 op s2 → ArchivesTracked s1 s2)
      ↔ ∀ s1 op s2, StepOf s0 ops s1 op s2 → op.EvictsTracked s1 := by
  have hstep : ∀ s1 op s2, StepOf s0 ops s1 op s2 →
      (ArchivesTracked s1 s2 ↔ op.EvictsTracked s1) := by
    intro s1 op s2 hof
    obtain ⟨pre, post, hops, hpre, hstep⟩ := hof
    obtain ⟨hand, openHand, hinv⟩ := (runOps_ran h0 hpre).invariant
    have ha := runOps_attested h0 (fun x hx => hdriven x (by rw [hops]; simp [hx])) hpre
    exact (applyOp_archives_iff hinv ha (hdriven op (by rw [hops]; simp)) hstep).2
  constructor
  · intro h s1 op s2 hof
    exact (hstep s1 op s2 hof).mp (h s1 op s2 hof)
  · intro h s1 op s2 hof
    exact (hstep s1 op s2 hof).mpr (h s1 op s2 hof)

end Run

/-- One process: its exec, an open call, and an exec of the same pid. -/
theorem only_tracked_sample :
    ∃ s0 ops s, survInit 10 1 0 = .ok (some s0) ∧ runOps s0 ops = .ok s
      ∧ s.dispatchQueue.held = [some 0, some 1]
      ∧ ((∀ s1 op s2, StepOf s0 ops s1 op s2 → ArchivesTracked s1 s2)
        ↔ ∀ s1 op s2, StepOf s0 ops s1 op s2 → op.EvictsTracked s1) := by
  have h0 : survInit 10 1 0 = .ok (some (.initial ⟨List.replicate 4 .null, 4, 10⟩ 0)) := by rfl
  obtain ⟨s, hrun, hqueue⟩ : ∃ s, runOps (.initial ⟨List.replicate 4 .null, 4, 10⟩ 0)
      [reexec, .opencallAdd .granting (.blank 1 ⟨2, 0⟩), reexec,
        .opencallAdd .granting (.blank 1 ⟨3, 0⟩), .flush] = .ok s
      ∧ s.dispatchQueue.held = [some 0, some 1] := ⟨_, by rfl, by rfl⟩
  exact ⟨_, _, s, h0, hrun, hqueue, only_tracked_iff h0 (by simp [Op.Driven, reexec])⟩

/-- **An untracked call is archived**: pid 1 execs twice, and no file is opened in between. -/
theorem untracked_archived :
    ∃ s0 s, survInit 10 1 0 = .ok (some s0) ∧ (∀ op ∈ [reexec, reexec], op.Driven)
      ∧ runOps s0 [reexec, reexec] = .ok s
      ∧ ¬ ∀ s1 op s2, StepOf s0 [reexec, reexec] s1 op s2 → ArchivesTracked s1 s2 := by
  have h0 : survInit 10 1 0 = .ok (some (.initial ⟨List.replicate 4 .null, 4, 10⟩ 0)) := by rfl
  obtain ⟨s1, hfirst, hexec, hempty⟩ :
      ∃ s, applyOp (.initial ⟨List.replicate 4 .null, 4, 10⟩ 0) reexec = .ok s
        ∧ s.heap.execs 0 = some rootCall ∧ s.dispatchQueue.held = [] := ⟨_, by rfl, by rfl, by rfl⟩
  obtain ⟨s2, hsecond, hqueue⟩ : ∃ s2, runOps (.initial ⟨List.replicate 4 .null, 4, 10⟩ 0)
      [reexec, reexec] = .ok s2 ∧ s2.dispatchQueue.held = [some 0] := ⟨_, by rfl, by rfl⟩
  refine ⟨_, s2, h0, by simp [Op.Driven, reexec], hsecond, ?_⟩
  intro hall
  rw [runOps, run_cons] at hsecond
  obtain ⟨m, hm, hlast⟩ := hsecond
  have hstep := run_one.mp hlast
  have hsame : s1 = m := Except.ok.inj (hfirst.symm.trans hm)
  subst hsame
  have hbefore : runOps (.initial ⟨List.replicate 4 .null, 4, 10⟩ 0) [reexec] = .ok s1 :=
    run_one.mpr hfirst
  have harchives := hall s1 reexec _ ⟨[reexec], [], rfl, hbefore, hstep⟩
  rcases harchives.written 0 (by rw [hqueue]; simp) with hold | hnew
  · rw [hempty] at hold
    cases hold
  · obtain ⟨⟨c, hc, htracked⟩, -⟩ := hnew
    rw [hexec] at hc
    cases hc
    cases htracked

end DirSurveiller
