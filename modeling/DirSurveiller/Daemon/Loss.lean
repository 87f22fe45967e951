/-
  DirSurveiller.Daemon.Loss — tracked calls on their way from the index to the dispatch queue.

  Three operations take calls out of the index and write them to a ring of 1024 entries without
  looking at the answer.  A tracked call is lost exactly when the ring is full before its turn.

  Main result:
    * `tracked_archived_iff` — the runs in which every tracked call that leaves the index is queued,
      and so dispatched in the end.
-/
import Mathlib.Data.List.Nodup
import DirSurveiller.Index.Progress
import DirSurveiller.Daemon.Operations

namespace DirSurveiller

open CMachine Outcome

/-! ## §1. Bounded queues. -/

/-- A queue cut at `n` keeps what is appended iff all of it fits. -/
theorem take_keeps_iff {α : Type} {q l : List α} {n : Nat} (hq : q.length ≤ n) (hl : l.Nodup)
    (hnew : ∀ x ∈ l, x ∉ q) : (∀ x ∈ l, x ∈ (q ++ l).take n) ↔ q.length + l.length ≤ n := by
  constructor
  · intro h
    by_contra hover
    have hne : l ≠ [] := by
      intro hnil
      rw [hnil, List.length_nil] at hover
      omega
    -- what is cut is at least the last element
    have hlast := h _ (List.getLast_mem hne)
    have hsplit : q ++ l = (q ++ l.dropLast) ++ [l.getLast hne] := by
      rw [List.append_assoc, List.dropLast_concat_getLast]
    have hshort : n ≤ (q ++ l.dropLast).length := by
      rw [List.length_append, List.length_dropLast]
      omega
    rw [hsplit, List.take_append_of_le_length hshort] at hlast
    rcases List.mem_append.mp (List.mem_of_mem_take hlast) with hold | hbefore
    · exact hnew _ (List.getLast_mem hne) hold
    · rw [← List.dropLast_concat_getLast hne, List.nodup_append] at hl
      exact hl.2.2 _ hbefore _ (List.mem_singleton_self _) rfl
  · intro hfits x hx
    rw [List.take_of_length_le (by rw [List.length_append]; omega)]
    exact List.mem_append_right _ hx

/-! ## §2. What an operation takes. -/

/-- The operations of the main loop. -/
def Op.InLoop : Op → Prop
  | .retrieve _ => False
  | _ => True

instance (t : Procindex) (pid : Int32) : Decidable (t.InRange pid) :=
  inferInstanceAs (Decidable (_ ∧ _))

/-- The tracked calls the operation takes out of the index. -/
def Op.takes (s : Surveiller) : Op → List ExecRef
  | .addExecCall _ _ e =>
      if s.procs.InRange e.pid then (s.trackedAt (e.pid.toInt + 1).toNat).toList else []
  | .checkVitals gone => s.sent gone 0 s.procs.size.toNat
  | .flush => s.sent (fun _ => true) 1 (s.procs.size - 1).toNat
  | _ => []

theorem Op.takes_addExecCall (s : Surveiller) (granted again : Nat → Bool) (e : ExecEvent) :
    (Op.addExecCall granted again e).takes s =
      if s.procs.InRange e.pid then (s.trackedAt (e.pid.toInt + 1).toNat).toList else [] := rfl

/-- The dispatch queue has room for them. -/
def Op.HasRoom (s : Surveiller) (op : Op) : Prop :=
  s.dispatchQueue.held.length + (op.takes s).length ≤ 1024

/-- `r` was an entry of the index and is none any more. -/
def Removed (s s' : Surveiller) (r : ExecRef) : Prop :=
  r ∈ s.procs.entries ∧ r ∉ s'.procs.entries

/-- `r` is tracked. -/
def Surveiller.Tracks (s : Surveiller) (r : ExecRef) : Prop :=
  ∃ c, s.heap.execs r = some c ∧ c.tracked = true

/-- The tracked calls that have been removed are on the dispatch queue. -/
def KeepsTracked (s s' : Surveiller) : Prop :=
  ∀ r, Removed s s' r → s.Tracks r → some r ∈ s'.dispatchQueue.held

section Takes

variable {s s' : Surveiller} {hand : List ExecRef} {openHand : List OpenRef}

/-- An operation that removes exactly `taken`, new to the queue and in turn, loses some of them iff
they do not fit. -/
theorem keepsTracked_iff {taken : List ExecRef} (hq : s.dispatchQueue.Wf)
    (hqueue : s'.dispatchQueue.held = (s.dispatchQueue.held ++ taken.map some).take 1024)
    (hnodup : taken.Nodup) (hnew : ∀ r ∈ taken, some r ∉ s.dispatchQueue.held)
    (hremoved : ∀ r, Removed s s' r ∧ s.Tracks r ↔ r ∈ taken) :
    KeepsTracked s s' ↔ s.dispatchQueue.held.length + taken.length ≤ 1024 := by
  have hlen : s.dispatchQueue.held.length ≤ 1024 := by
    rw [GRingBuffer.held_length]
    exact hq
  have hkeeps := take_keeps_iff hlen (List.Nodup.map (fun _ _ h => Option.some.inj h) hnodup) (by
    intro x hx
    obtain ⟨r, hr, rfl⟩ := List.mem_map.mp hx
    exact hnew r hr)
  rw [List.length_map] at hkeeps
  rw [← hkeeps]
  unfold KeepsTracked
  rw [hqueue]
  constructor
  · intro h x hx
    obtain ⟨r, hr, rfl⟩ := List.mem_map.mp hx
    have := (hremoved r).mpr hr
    exact h r this.1 this.2
  · intro h r hr ht
    exact h _ (List.mem_map_of_mem ((hremoved r).mp ⟨hr, ht⟩))

/-- An operation that keeps all entries takes nothing. -/
theorem not_removed (hkeeps : Keeps s.procs s'.procs) (r : ExecRef) : ¬ Removed s s' r := by
  intro h
  obtain ⟨k, hk⟩ := Procindex.mem_entries.mp h.1
  exact h.2 (Procindex.mem_entries.mpr ⟨k, hkeeps.entries k r hk⟩)

/-- Two slots do not hold the same call. -/
theorem slot_unique (hs : (s.ledger hand openHand).Sound) {j k : Nat} {r : ExecRef}
    (hj : s.procs.procs[j]? = some (.proc r)) (hk : s.procs.procs[k]? = some (.proc r)) :
    j = k := by
  obtain ⟨c, hc, hcj⟩ := hs.entry_live hj
  obtain ⟨d, hd, hdk⟩ := hs.entry_live hk
  rw [hc] at hd
  cases hd
  omega

/-- An entry is not on the queue. -/
theorem entry_not_queued (hs : (s.ledger hand openHand).Sound) {k : Nat} {r : ExecRef}
    (hk : s.procs.procs[k]? = some (.proc r)) : some r ∉ s.dispatchQueue.held := by
  intro hqueued
  have honce := hs.once r
  have hentry := List.count_pos_iff.mpr (Procindex.mem_entries.mpr ⟨k, hk⟩)
  have hheld := List.count_pos_iff.mpr hqueued
  unfold Ledger.tally Surveiller.ledger at honce
  dsimp only at honce
  omega

theorem mem_sent {hit : Nat → Bool} {lo n : Nat} {r : ExecRef} :
    r ∈ s.sent hit lo n ↔ ∃ k, lo ≤ k ∧ k < lo + n ∧ hit k = true ∧ s.trackedAt k = some r := by
  unfold Surveiller.sent
  rw [List.mem_filterMap]
  constructor
  · intro h
    obtain ⟨k, hk, hr⟩ := h
    rw [List.mem_range'_1] at hk
    by_cases hhit : hit k = true
    · rw [if_pos hhit] at hr
      exact ⟨k, hk.1, hk.2, hhit, hr⟩
    · rw [if_neg hhit] at hr
      cases hr
  · intro h
    obtain ⟨k, hlo, hhi, hhit, hr⟩ := h
    exact ⟨k, List.mem_range'_1.mpr ⟨hlo, hhi⟩, by rw [if_pos hhit]; exact hr⟩

theorem sent_nodup (hs : (s.ledger hand openHand).Sound) (hit : Nat → Bool) (lo n : Nat) :
    (s.sent hit lo n).Nodup := by
  unfold Surveiller.sent
  refine List.Nodup.filterMap ?_ List.nodup_range'
  intro j k r hj hk
  have hslot : ∀ i, r ∈ (if hit i then s.trackedAt i else none) →
      s.procs.procs[i]? = some (.proc r) := by
    intro i hi
    by_cases hhit : hit i = true
    · rw [if_pos hhit] at hi
      exact (trackedAt_eq_some.mp hi).1
    · rw [if_neg hhit] at hi
      cases hi
  exact slot_unique hs (hslot j hj) (hslot k hk)

/-- **A sweep** loses nothing iff what it sends fits. -/
theorem Swept.keepsTracked_iff {hit : Nat → Bool} {lo n : Nat}
    (h : Swept hit lo s hand openHand n s') (hs : (s.ledger hand openHand).Sound)
    (hq : s.dispatchQueue.Wf) :
    KeepsTracked s s' ↔ s.dispatchQueue.held.length + (s.sent hit lo n).length ≤ 1024 := by
  apply DirSurveiller.keepsTracked_iff hq h.queue (sent_nodup hs hit lo n)
  · intro r hr
    obtain ⟨k, -, -, -, hk⟩ := mem_sent.mp hr
    exact entry_not_queued hs (trackedAt_eq_some.mp hk).1
  · intro r
    constructor
    · intro hr
      obtain ⟨⟨hin, hout⟩, htracks⟩ := hr
      obtain ⟨k, hk⟩ := Procindex.mem_entries.mp hin
      have htracked : s.trackedAt k = some r := trackedAt_eq_some.mpr ⟨hk, htracks⟩
      -- a slot outside the sweep would still hold the call
      have hswept : ¬ (k < lo ∨ lo + n ≤ k ∨ hit k = false) := by
        intro hspared
        apply hout
        rw [Procindex.mem_entries]
        exact ⟨k, by rw [h.spared k hspared]; exact hk⟩
      simp only [not_or, Nat.not_lt, Nat.not_le, Bool.not_eq_false] at hswept
      exact mem_sent.mpr ⟨k, hswept.1, hswept.2.1, hswept.2.2, htracked⟩
    · intro hr
      obtain ⟨k, hlo, hhi, hhit, htracked⟩ := mem_sent.mp hr
      obtain ⟨hk, htracks⟩ := trackedAt_eq_some.mp htracked
      refine ⟨⟨Procindex.mem_entries.mpr ⟨k, hk⟩, fun hout => ?_⟩, htracks⟩
      obtain ⟨j, hj⟩ := Procindex.mem_entries.mp hout
      have hjk := slot_unique hs (h.entries j r hj).1 hk
      rw [hjk, h.left k hlo hhi hhit r htracked] at hj
      cases hj

end Takes

/-! ## §3. One operation. -/

/-- `procindex_add` puts nothing but the new call into the table. -/
theorem AddOutcome.entry_or_call {granted : Nat → Bool} {h : Heap} {t : Procindex}
    {call r : ExecRef} {c : ExecCall} {p : Int × Heap × Procindex}
    (ho : AddOutcome granted h t call c p) {k : Nat} (hr : p.2.2.procs[k]? = some (.proc r)) :
    r = call ∨ t.procs[k]? = some (.proc r) := by
  cases ho with
  | rejected => exact .inr hr
  | noMemory _ hg => exact .inr (hg.grows.proc hr)
  | occupied _ hg => exact .inr (hg.grows.proc hr)
  | @added t' j _ hg _ _ _ =>
      rcases Procindex.withSlot_proc hr with ⟨-, hnew⟩ | ⟨-, hold⟩
      · exact .inl hnew
      · exact .inr (hg.grows.proc hold)

section Step

variable {s s' : Surveiller} {hand : List ExecRef} {openHand : List OpenRef}
  {granted again : Nat → Bool} {e : ExecEvent}

/-- An operation that takes nothing loses nothing. -/
theorem keepsTracked_of_keeps {op : Op} (hq : s.dispatchQueue.Wf) (hkeeps : Keeps s.procs s'.procs)
    (htakes : op.takes s = []) : KeepsTracked s s' ↔ op.HasRoom s := by
  unfold Op.HasRoom
  rw [htakes]
  constructor
  · intro _
    rw [GRingBuffer.held_length]
    exact hq
  · intro _ r hr
    exact absurd hr (not_removed hkeeps r)

/-- `surv_addExecCall` takes nothing where the pid has no entry. -/
theorem takes_free (hfree : ¬ s.procs.Holds e.pid) :
    (Op.addExecCall granted again e).takes s = [] := by
  rw [Op.takes_addExecCall]
  split
  next hin =>
    have hpos := hin.1
    have hnone : s.trackedAt (e.pid.toInt + 1).toNat = none := by
      rw [Option.eq_none_iff_forall_ne_some]
      intro r hr
      exact hfree ⟨_, r, by omega, (trackedAt_eq_some.mp hr).1⟩
    rw [hnone]
    rfl
  next => rfl

/-- A pid that is put off its slot is the only one that leaves. -/
theorem replaced_removed {t : Procindex} {k : Nat} {own r : ExecRef} {p : Int × Heap × Procindex}
    (h : s.Invariant hand openHand) (hg : s.procs.Extends t)
    (hown : t.procs[k]? = some (.proc own))
    (hp : AddOutcome again (s.newExec e).heap (t.withSlot k .null) s.heap.nextExec e.call p) :
    Removed s { s with heap := p.2.1, procs := p.2.2 } r ↔ r = own := by
  have hslot := hg.proc hown
  constructor
  · intro hremoved
    obtain ⟨hin, hout⟩ := hremoved
    obtain ⟨j, hj⟩ := Procindex.mem_entries.mp hin
    by_cases hjk : j = k
    · rw [hjk, hslot] at hj
      cases hj
      rfl
    · -- the slots of the other pids are as they were
      exact absurd (Procindex.mem_entries.mpr
        ⟨j, hp.keeps.entries j r (Procindex.withSlot_null.mpr ⟨hjk, hg.get hj⟩)⟩) hout
  · intro hr
    subst hr
    refine ⟨Procindex.mem_entries.mpr ⟨k, hslot⟩, fun hin => ?_⟩
    obtain ⟨j, hj⟩ := Procindex.mem_entries.mp hin
    rcases hp.entry_or_call hj with hnew | hold
    · -- the new call is at an address of its own
      obtain ⟨c, hc, -⟩ := h.sound.entry_live hslot
      have hnone := (h.sound.objects.execs r).mpr (.inl (Nat.le_of_eq hnew.symm))
      exact Option.some_ne_none c (hc.symm.trans hnone)
    · obtain ⟨hjk, hj'⟩ := Procindex.withSlot_null.mp hold
      exact hjk (slot_unique h.sound (hg.proc hj') hslot)

/-- Where `surv_addExecCall` takes nothing out, the pid had no entry. -/
theorem AddOutcome.unheld {p : Int × Heap × Procindex} (h : s.Invariant hand openHand)
    (hp : AddOutcome granted (s.newExec e).heap s.procs s.heap.nextExec e.call p)
    (hret : p.1 ≠ ALREADY_EXISTS_IN_CONTAINER) :
    ¬ (s.procs.InRange e.pid ∧ s.procs.Holds e.pid) := by
  intro hholds
  -- an entry of the table grown is one of the table
  cases hp with
  | rejected hout => exact absurd hholds.1 hout
  | @noMemory t hin hg =>
      obtain ⟨k, r, hk, hr⟩ := hholds.2
      have hlt := h.sound.table.sane.lt hr
      have hsmall := hg.refused rfl
      replace hlt : (k : Int) < s.procs.size := hlt
      replace hsmall : s.procs.size < e.pid.toInt + 1 := hsmall
      omega
  | occupied hin hg hk hown => exact absurd rfl hret
  | @added t k hin hg hk hown hparent =>
      obtain ⟨j, r, hj, hr⟩ := (Procindex.Holds.extend hg.grows).mpr hholds.2
      replace hk : e.pid.toInt + 1 = k := hk
      rw [show j = k by omega, hown] at hr
      cases hr

/-- **`surv_addExecCall`** loses a tracked call iff the queue is full. -/
theorem SurvAddOutcome.keepsTracked_iff {p : Int × Surveiller} (h : s.Invariant hand openHand)
    (ho : SurvAddOutcome granted again (s.newExec e) s.heap.nextExec e.call p) :
    KeepsTracked s p.2 ↔ (Op.addExecCall granted again e).HasRoom s := by
  cases ho with
  | @direct p hp hret =>
      -- the slot was free, so nothing is taken and nothing removed
      have hfree := hp.unheld h hret
      have hkeeps : Keeps s.procs p.2.2 := hp.keeps
      apply keepsTracked_of_keeps h.dispatchWf hkeeps
      by_cases hin : s.procs.InRange e.pid
      · exact takes_free fun hholds => hfree ⟨hin, hholds⟩
      · rw [Op.takes_addExecCall, if_neg hin]
  | @replaced t k own p hin hg hk hown hp =>
      replace hk : e.pid.toInt + 1 = k := hk
      replace hin : s.procs.InRange e.pid := hin
      have hkn : (e.pid.toInt + 1).toNat = k := by omega
      have hslot : s.procs.procs[k]? = some (.proc own) := hg.grows.proc hown
      have hremoved : ∀ r, Removed s ((s.newExec e).send (some own) |> fun q =>
          { q with heap := p.2.1, procs := p.2.2 }) r ↔ r = own := fun r =>
        replaced_removed h hg.grows hown hp
      have htakes : (Op.addExecCall granted again e).takes s = (s.trackedAt k).toList := by
        rw [Op.takes_addExecCall, if_pos hin, hkn]
      unfold Op.HasRoom
      rw [htakes]
      -- the entry that is replaced goes to the queue in any case; it counts if it has open calls
      cases htracked : s.trackedAt k with
      | none =>
          constructor
          · intro _
            rw [GRingBuffer.held_length]
            exact h.dispatchWf
          · intro _ r hr ht
            rw [(hremoved r).mp hr] at ht
            have hsome := trackedAt_eq_some.mpr ⟨hslot, ht⟩
            rw [htracked] at hsome
            cases hsome
      | some r =>
          have hr := (trackedAt_eq_some.mp htracked).1
          rw [hslot] at hr
          cases hr
          apply DirSurveiller.keepsTracked_iff h.dispatchWf
          · exact GRingBuffer.write_held h.dispatchWf _
          · exact List.nodup_singleton _
          · intro r hr
            rw [List.mem_singleton.mp hr]
            exact entry_not_queued h.sound hslot
          · intro r
            constructor
            · intro hboth
              exact List.mem_singleton.mpr ((hremoved r).mp hboth.1)
            · intro hr
              have heq := List.mem_singleton.mp hr
              subst heq
              exact ⟨(hremoved r).mpr rfl, (trackedAt_eq_some.mp htracked).2⟩

/-- **The step lemma.** -/
theorem applyOp_keepsTracked_iff {op : Op} (h : s.Invariant hand openHand) (hloop : op.InLoop)
    (hstep : applyOp s op = .ok s') : KeepsTracked s s' ↔ op.HasRoom s := by
  cases applyOp_done h hstep with
  | addExecCall hp => exact hp.keepsTracked_iff h
  | add hp => exact keepsTracked_of_keeps h.dispatchWf hp.keeps rfl
  | opencallAdd _ hp => exact keepsTracked_of_keeps h.dispatchWf hp.keeps rfl
  | retrieve => exact absurd hloop id
  | checkVitals hswept => exact hswept.keepsTracked_iff h.sound h.dispatchWf
  | flush hswept => exact hswept.keepsTracked_iff h.sound h.dispatchWf
  | dispatch hbatch =>
      apply keepsTracked_of_keeps h.dispatchWf
      · rw [hbatch.only.procs]
        exact ⟨rfl, fun _ _ hk => hk⟩
      · rfl

end Step

/-! ## §4. Runs. -/

section Run

variable {getMaxPID ownPID : Int} {bootTime : UInt32} {s0 s s' : Surveiller} {ops : List Op}

/-- What is on its way to the archive, or has arrived there, stays. -/
theorem runOps_safe {ops : List Op} {s s' : Surveiller}
    (hinv : ∃ hand openHand, s.Invariant hand openHand) (h : runOps s ops = .ok s') (r : ExecRef)
    (hr : some r ∈ s.dispatchQueue.held ∨ r ∈ s.dispatched.map Prod.fst) :
    some r ∈ s'.dispatchQueue.held ∨ r ∈ s'.dispatched.map Prod.fst := by
  refine (run_induction
    (P := fun _ s' => (∃ hand openHand, s'.Invariant hand openHand)
      ∧ (some r ∈ s'.dispatchQueue.held ∨ r ∈ s'.dispatched.map Prod.fst))
    ⟨hinv, hr⟩ ?_ h).2
  intro ops op m s' _ hm hop
  obtain ⟨⟨hand, openHand, hinv'⟩, hr'⟩ := hm
  have hstep := (applyOp_meets hinv' op).post hop
  exact ⟨hstep.invariant, hstep.safe r hr'⟩

/-- A dispatch leaves the queue empty. -/
theorem dispatch_drains {hand : List ExecRef} {openHand : List OpenRef} {env : Nat → DispatchEnv}
    (h : s.Invariant hand openHand) (hstep : applyOp s (.dispatch env) = .ok s') :
    s'.dispatchQueue.held = [] := by
  have hbatch := (dispatchBatch_meets h).post hstep
  rw [hbatch.queue, List.drop_length]

/-- Each tracked call is queued by the operation that removes it; and if the run ends with the flush
and the last dispatch, each has been dispatched. -/
structure TrackedArchived (s0 : Surveiller) (ops : List Op) (s : Surveiller) : Prop where
  queued : ∀ s1 op s2, StepOf s0 ops s1 op s2 → KeepsTracked s1 s2
  dispatched : ∀ pre env, ops = pre ++ [.flush, .dispatch env] →
    ∀ s1 op s2 r, StepOf s0 ops s1 op s2 → Removed s1 s2 r → s1.Tracks r →
      r ∈ s.dispatched.map Prod.fst

/-- **No tracked process is lost** iff no operation takes more calls out of the index than the
dispatch queue has room for. -/
theorem tracked_archived_iff (h0 : survInit getMaxPID ownPID bootTime = .ok (some s0))
    (hloop : ∀ op ∈ ops, op.InLoop) (hrun : runOps s0 ops = .ok s) :
    TrackedArchived s0 ops s ↔ ∀ s1 op s2, StepOf s0 ops s1 op s2 → op.HasRoom s1 := by
  have hkeeps : ∀ s1 op s2, StepOf s0 ops s1 op s2 → (KeepsTracked s1 s2 ↔ op.HasRoom s1) := by
    intro s1 op s2 hof
    obtain ⟨pre, post, hops, hpre, hstep⟩ := hof
    obtain ⟨hand, openHand, hinv⟩ := (runOps_ran h0 hpre).invariant
    exact applyOp_keepsTracked_iff hinv (hloop op (by rw [hops]; simp)) hstep
  constructor
  · intro h s1 op s2 hof
    exact (hkeeps s1 op s2 hof).mp (h.queued s1 op s2 hof)
  · intro hroom
    refine ⟨fun s1 op s2 hof => (hkeeps s1 op s2 hof).mpr (hroom s1 op s2 hof), ?_⟩
    intro init env hends s1 op s2 r hof hremoved htracks
    have hqueued := (hkeeps s1 op s2 hof).mpr (hroom s1 op s2 hof) r hremoved htracks
    obtain ⟨pre, post, hops, hpre, hstep⟩ := hof
    -- the call stays queued or dispatched to the end of the run
    have hsafe : some r ∈ s.dispatchQueue.held ∨ r ∈ s.dispatched.map Prod.fst := by
      rw [hops, runOps, run_append] at hrun
      obtain ⟨m, hm, hrest⟩ := hrun
      rw [run_cons] at hrest
      obtain ⟨m', hm', hrest⟩ := hrest
      have hsame : s1 = m := Except.ok.inj (hpre.symm.trans hm)
      subst hsame
      have hsame : s2 = m' := Except.ok.inj (hstep.symm.trans hm')
      subst hsame
      obtain ⟨hand, openHand, hinv⟩ := (runOps_ran h0 hpre).invariant
      exact runOps_safe ((applyOp_meets hinv op).post hstep).invariant hrest r (.inl hqueued)
    -- and at the end the queue is empty
    have hdrained : s.dispatchQueue.held = [] := by
      have hends' : ops = (init ++ [.flush]) ++ [.dispatch env] := by
        rw [hends, List.append_assoc]
        rfl
      rw [hends', runOps, run_concat] at hrun
      obtain ⟨m, hm, hlast⟩ := hrun
      obtain ⟨hand, openHand, hinv⟩ := (runOps_ran h0 hm).invariant
      exact dispatch_drains hinv hlast
    rw [hdrained] at hsafe
    exact hsafe.resolve_left (List.not_mem_nil)

end Run

/-- One tracked process, flushed and dispatched. -/
theorem tracked_archived_sample :
    ∃ s0 ops s, survInit 10 1 0 = .ok (some s0) ∧ runOps s0 ops = .ok s
      ∧ (TrackedArchived s0 ops s ↔ ∀ s1 op s2, StepOf s0 ops s1 op s2 → op.HasRoom s1) := by
  have h0 : survInit 10 1 0 = .ok (some (.initial ⟨List.replicate 4 .null, 4, 10⟩ 0)) := by rfl
  obtain ⟨s, hrun⟩ : ∃ s, runOps (.initial ⟨List.replicate 4 .null, 4, 10⟩ 0)
      [.addExecCall (fun _ => true) (fun _ => true) (.blank 1 9 ⟨1, 0⟩),
        .opencallAdd .granting (.blank 1 ⟨2, 0⟩), .flush,
        .dispatch fun _ => ⟨fun _ _ => some fun _ => 0, 0, fun _ => []⟩] = .ok s := ⟨_, by rfl⟩
  exact ⟨_, _, s, h0, hrun, tracked_archived_iff h0 (by simp [Op.InLoop]) hrun⟩

/-! ## §5. A pid that is used again and again. -/

/-- One more exec of pid 1. -/
def reexec : Op := .addExecCall (fun _ => true) (fun _ => true) (.blank 1 9 ⟨1, 0⟩)

/-- The table of a daemon with room for the pids to 2, where pid 1 has the entry `r`. -/
def crowdedTable (r : ExecRef) : Procindex := ⟨[.null, .null, .proc r, .null], 4, 10⟩

theorem crowdedTable_wf (r : ExecRef) : (crowdedTable r).Wf := by
  refine ⟨rfl, ?_⟩
  simp [crowdedTable]

/-- What `procindex_add` makes of the new call. -/
def rootCall : ExecCall := { (ExecEvent.blank 1 9 ⟨1, 0⟩).call with ppid := 0 }

/-- `n` calls wait, and pid 1 has an entry of contents `c`. -/
structure Crowded (s : Surveiller) (n : Nat) (r : ExecRef) (c : ExecCall) : Prop where
  procs : s.procs = crowdedTable r
  exec : s.heap.execs r = some c
  queue : s.dispatchQueue.held.length = n

theorem Crowded.reexec {s : Surveiller} {n : Nat} {r : ExecRef} {c : ExecCall}
    (h : Crowded s n r c) (hn : n ≤ 1024) :
    ∃ s', applyOp s reexec = .ok s' ∧ Crowded s' (min (n + 1) 1024) s.heap.nextExec
      rootCall := by
  have hc : (s.newExec (.blank 1 9 ⟨1, 0⟩)).heap.execs s.heap.nextExec
      = some (ExecEvent.blank 1 9 ⟨1, 0⟩).call := Function.update_self _ _ _
  -- the first try finds the slot taken; the second runs on the table without the old entry
  have hfirst : procindexAdd (fun _ => true) (s.newExec (.blank 1 9 ⟨1, 0⟩)).heap (crowdedTable r)
      s.heap.nextExec = .ok (ALREADY_EXISTS_IN_CONTAINER, (s.newExec (.blank 1 9 ⟨1, 0⟩)).heap,
        crowdedTable r) := by
    rw [procindexAdd, Heap.exec_some hc]
    rfl
  have hsecond : procindexAdd (fun _ => true) (s.newExec (.blank 1 9 ⟨1, 0⟩)).heap
      ⟨List.replicate 4 .null, 4, 10⟩ s.heap.nextExec
      = .ok (NOMINAL, (s.newExec (.blank 1 9 ⟨1, 0⟩)).heap.setExec s.heap.nextExec
        rootCall, crowdedTable s.heap.nextExec) := by
    rw [procindexAdd, Heap.exec_some hc]
    rfl
  refine ⟨{ (s.newExec (.blank 1 9 ⟨1, 0⟩)).send (some r) with
    heap := (s.newExec (.blank 1 9 ⟨1, 0⟩)).heap.setExec s.heap.nextExec
      rootCall
    procs := crowdedTable s.heap.nextExec }, ?_, rfl, Function.update_self _ _ _, ?_⟩
  · show (survAddExecCall _ _ (s.newExec (.blank 1 9 ⟨1, 0⟩)) s.heap.nextExec >>= _) = _
    have hprocs : (s.newExec (.blank 1 9 ⟨1, 0⟩)).procs = crowdedTable r := h.procs
    rw [survAddExecCall, hprocs, hfirst, ok_bind]
    simp only [if_true, Heap.exec_some hc, ok_bind]
    have hretrieve : procindexRetrieve (crowdedTable r)
        (ExecEvent.blank 1 9 ⟨1, 0⟩).call.pid.toInt
        = .ok (some r, ⟨List.replicate 4 .null, 4, 10⟩) := by rfl
    rw [hretrieve, ok_bind]
    simp only [Surveiller.send]
    rw [hsecond]
    rfl
  · show (gRingBufferWrite s.dispatchQueue (some r)).2.held.length = _
    have hwf : s.dispatchQueue.Wf := by
      unfold GRingBuffer.Wf
      rw [← GRingBuffer.held_length, h.queue]
      exact hn
    rw [GRingBuffer.write_held hwf, List.length_take, List.length_append, h.queue]
    exact Nat.min_comm _ _

/-- After `n` more execs `n` calls wait. -/
theorem crowded {s : Surveiller} {r : ExecRef} (h : Crowded s 0 r rootCall) :
    ∀ n ≤ 1024, ∃ s' r', runOps s (List.replicate n reexec) = .ok s'
      ∧ Crowded s' n r' rootCall := by
  intro n
  induction n with
  | zero => exact fun _ => ⟨s, r, rfl, h⟩
  | succ n ih =>
      intro hn
      obtain ⟨s', r', hrun, hcrowded⟩ := ih (by omega)
      obtain ⟨s'', hstep, hnext⟩ := hcrowded.reexec (by omega)
      rw [Nat.min_eq_left hn] at hnext
      refine ⟨s'', _, ?_, hnext⟩
      rw [List.replicate_succ', runOps, run_concat]
      exact ⟨s', hrun, hstep⟩

theorem crowdedTable_opens {h : Heap} {r : ExecRef} {o : OpenRef} (hc : h.execs r = some rootCall)
    (ho : h.opens o = some (OpenEvent.blank 1 ⟨2, 0⟩).call) :
    ∃ h', procindexOpencallAdd .granting h (crowdedTable r) o = .ok (NOMINAL, h', crowdedTable r)
      ∧ h'.execs r = some { rootCall.push o with tracked := true } := by
  obtain ⟨h', hexecs, hattach⟩ := attachOpen_orphan o (crowdedTable_wf r) hc
    (by decide) rfl (by decide) rfl ⟨by decide, by show (2 : Int) < 4; decide⟩ rfl
  refine ⟨h', ?_, by rw [hexecs, Function.update_self]⟩
  have hcount : toInt ((rootCall.callNum : Int) + 2) = .ok 2 :=
    toInt_eq_ok.mpr ⟨rfl, by decide, by decide⟩
  have hcount1 : toInt ((rootCall.callNum : Int) + 1) = .ok 1 :=
    toInt_eq_ok.mpr ⟨rfl, by decide, by decide⟩
  have hgrow : growCallBuff true h r = .ok (some h) := by
    rw [growCallBuff, Heap.exec_some hc, ok_bind, hcount]
    rfl
  rw [procindexOpencallAdd, Heap.openCall_some ho, ok_bind]
  show (growCallBuff true h r >>= _) = _
  rw [hgrow, ok_bind]
  show (attachOpen h (crowdedTable r) r o >>= fun h' => _) = _
  rw [hattach, hcount1]
  rfl

/-- An open call of pid 1 makes its entry tracked. -/
theorem Crowded.opens {s : Surveiller} {n : Nat} {r : ExecRef} (h : Crowded s n r rootCall) :
    ∃ s' c, applyOp s (.opencallAdd .granting (.blank 1 ⟨2, 0⟩)) = .ok s' ∧ Crowded s' n r c
      ∧ c.tracked = true := by
  obtain ⟨h', hrun, hexec⟩ := crowdedTable_opens
    (h := (s.newOpen (.blank 1 ⟨2, 0⟩)).heap) (o := s.heap.nextOpen) h.exec
    (Function.update_self _ _ _)
  refine ⟨{ s.newOpen (.blank 1 ⟨2, 0⟩) with heap := h', procs := crowdedTable r },
    { rootCall.push s.heap.nextOpen with tracked := true }, ?_, ⟨rfl, hexec, h.queue⟩, rfl⟩
  have hprocs : (s.newOpen (.blank 1 ⟨2, 0⟩)).procs = crowdedTable r := h.procs
  show (survOpencallAdd .granting (s.newOpen (.blank 1 ⟨2, 0⟩)) s.heap.nextOpen >>= _) = _
  rw [survOpencallAdd, hprocs, hrun]
  rfl

/-- `n + 1` execs of pid 1, an open call, and one more exec. -/
def crowdingOps (n : Nat) : List Op :=
  (reexec :: List.replicate n reexec ++ [.opencallAdd .granting (.blank 1 ⟨2, 0⟩)]) ++ [reexec]

theorem crowdingOps_inLoop (n : Nat) : ∀ op ∈ crowdingOps n, op.InLoop := by
  intro op hop
  unfold crowdingOps at hop
  simp only [List.mem_append, List.mem_cons, List.mem_replicate] at hop
  rcases hop with ((rfl | ⟨-, rfl⟩) | rfl | hnil) | rfl | hnil
  all_goals trivial

/-- The call that the last exec takes needs a place of its own. -/
theorem crowding {n : Nat} (hn : n ≤ 1024) :
    ∃ s0 s, survInit 10 1 0 = .ok (some s0) ∧ runOps s0 (crowdingOps n) = .ok s
      ∧ (TrackedArchived s0 (crowdingOps n) s → n + 1 ≤ 1024) := by
  have h0 : survInit 10 1 0 = .ok (some (.initial ⟨List.replicate 4 .null, 4, 10⟩ 0)) := by rfl
  obtain ⟨s1, hfirst, hprocs, hexec, hqueue⟩ :
      ∃ s, applyOp (.initial ⟨List.replicate 4 .null, 4, 10⟩ 0) reexec = .ok s
        ∧ s.procs = crowdedTable 0 ∧ s.heap.execs 0 = some rootCall
        ∧ s.dispatchQueue.held = [] := ⟨_, by rfl, by rfl, by rfl, by rfl⟩
  have hstart : Crowded s1 0 0 rootCall := ⟨hprocs, hexec, by rw [hqueue]; rfl⟩
  obtain ⟨s2, r, hfull, hcrowded⟩ := crowded hstart n hn
  obtain ⟨s3, c, hopen, htracks, htracked⟩ := hcrowded.opens
  obtain ⟨s4, hlast, -⟩ := htracks.reexec hn
  have hbefore : runOps (.initial ⟨List.replicate 4 .null, 4, 10⟩ 0)
      (reexec :: List.replicate n reexec ++ [.opencallAdd .granting (.blank 1 ⟨2, 0⟩)])
      = .ok s3 := by
    rw [runOps, run_concat]
    exact ⟨s2, run_cons.mpr ⟨s1, hfirst, hfull⟩, hopen⟩
  refine ⟨_, s4, h0, ?_, fun h => ?_⟩
  · rw [crowdingOps, runOps, run_concat]
    exact ⟨s3, hbefore, hlast⟩
  · have hkeeps := h.queued s3 reexec s4 ⟨_, [], rfl, hbefore, hlast⟩
    obtain ⟨hand, openHand, hinv⟩ := (runOps_ran h0 hbefore).invariant
    have hroom := (applyOp_keepsTracked_iff hinv (show reexec.InLoop from trivial) hlast).mp hkeeps
    -- what the last exec takes is the one entry, which the open call has made tracked
    have htakes : reexec.takes s3 = [r] := by
      have hin : s3.procs.InRange 1 := by
        rw [htracks.procs]
        show 0 ≤ (1 : Int32).toInt ∧ (1 : Int32).toInt ≤ 10
        decide
      have hat : s3.trackedAt 2 = some r := by
        refine trackedAt_eq_some.mpr ⟨?_, c, htracks.exec, htracked⟩
        rw [htracks.procs]
        rfl
      show (if s3.procs.InRange 1 then (s3.trackedAt 2).toList else []) = [r]
      rw [if_pos hin, hat]
      rfl
    unfold Op.HasRoom at hroom
    rw [htakes, htracks.queue] at hroom
    exact hroom

/-- **A full queue**: the last exec takes a tracked call out of the index, and it is nowhere. -/
theorem tracked_call_lost :
    ∃ s0 s, survInit 10 1 0 = .ok (some s0) ∧ (∀ op ∈ crowdingOps 1024, op.InLoop)
      ∧ runOps s0 (crowdingOps 1024) = .ok s ∧ ¬ TrackedArchived s0 (crowdingOps 1024) s := by
  obtain ⟨s0, s, h0, hrun, hroom⟩ := crowding (Nat.le_refl 1024)
  exact ⟨s0, s, h0, crowdingOps_inLoop 1024, hrun, fun h => absurd (hroom h) (by decide)⟩

end DirSurveiller
