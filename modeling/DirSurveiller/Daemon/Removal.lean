/-
  DirSurveiller.Daemon.Removal — how execCalls leave the index.

  There are three ways: another exec of the same pid (`surv_addExecCall`), a death check, and the
  final flush.  Each writes to the dispatch queue and does not look at the answer, so a full queue
  loses what it is given.

  The death check and the flush are one loop over slots with two bodies.  `SweepOutcome` says what
  either body does to one slot, `Swept` what the loop does to a range of slots.
-/
import DirSurveiller.Index.Outcomes
import DirSurveiller.Daemon.Surveiller

namespace DirSurveiller

open CMachine Outcome

/-! ## §1. The ledger of the daemon. -/

/-- The daemon's ledger, with what the running functions hold in hand. -/
def Surveiller.ledger (s : Surveiller) (hand : List ExecRef) (openHand : List OpenRef) : Ledger :=
  { heap := s.heap, procs := s.procs, queue := s.dispatchQueue.held, hand := hand
    openHand := openHand, outside := s.commandQueue.held.filterMap id
    openOutside := s.openQueue.held.filterMap id }

/-- Only the objects, the index and the dispatch queue have changed. -/
def IndexOnly (s s' : Surveiller) : Prop :=
  s' = { s with heap := s'.heap, procs := s'.procs, dispatchQueue := s'.dispatchQueue }

section IndexOnly

variable {s s' s'' : Surveiller}

theorem IndexOnly.trans (h : IndexOnly s s') (h' : IndexOnly s' s'') : IndexOnly s s'' := by
  unfold IndexOnly at *
  rw [h'] at ⊢
  rw [h]

theorem IndexOnly.commandQueue (h : IndexOnly s s') :
    s'.commandQueue = s.commandQueue := by
  rw [show s' = _ from h]

theorem IndexOnly.openQueue (h : IndexOnly s s') :
    s'.openQueue = s.openQueue := by
  rw [show s' = _ from h]

theorem IndexOnly.dbMan (h : IndexOnly s s') :
    s'.dbMan = s.dbMan := by
  rw [show s' = _ from h]

theorem IndexOnly.bootTime (h : IndexOnly s s') :
    s'.bootTime = s.bootTime := by
  rw [show s' = _ from h]

theorem IndexOnly.dispatched (h : IndexOnly s s') :
    s'.dispatched = s.dispatched := by
  rw [show s' = _ from h]

theorem IndexOnly.shuttingDown (h : IndexOnly s s') :
    s'.shuttingDown = s.shuttingDown := by
  rw [show s' = _ from h]

theorem IndexOnly.processingExeccallSocket (h : IndexOnly s s') :
    s'.processingExeccallSocket = s.processingExeccallSocket := by
  rw [show s' = _ from h]

theorem IndexOnly.processingOpencallSocket (h : IndexOnly s s') :
    s'.processingOpencallSocket = s.processingOpencallSocket := by
  rw [show s' = _ from h]

end IndexOnly

/-- The works of the main thread take `s` to `s'`; what is `kept` stays in hand. -/
def Working (s : Surveiller) (hand : List ExecRef) (openHand : List OpenRef)
    (kept : ExecRef → Prop) (s' : Surveiller) : Prop :=
  ∃ hand', (∀ x ∈ hand, kept x → x ∈ hand') ∧ Works (s.ledger hand openHand) (s'.ledger hand' openHand)

section Send

variable {s : Surveiller} {hand : List ExecRef} {openHand : List OpenRef} {r : ExecRef}

/-- A write to the dispatch queue: the call is on it, or it is left in hand. -/
theorem send_works (hq : s.dispatchQueue.Wf) (hr : r ∈ hand) :
    ∃ hand', (hand' = hand.erase r ∨ hand' = hand)
      ∧ Works (s.ledger hand openHand) ((s.send (some r)).ledger hand' openHand) := by
  rcases Nat.lt_or_ge s.dispatchQueue.fill 1024 with hlt | hge
  · refine ⟨hand.erase r, .inl rfl, .single ?_⟩
    have hheld := (GRingBuffer.write_room hlt (some r)).2.1
    have hwork := Work.enqueue (l := s.ledger hand openHand) hr
    show Work _ { s.ledger hand openHand with
      queue := (gRingBufferWrite s.dispatchQueue (some r)).2.held, hand := hand.erase r }
    rw [hheld]
    exact hwork
  · refine ⟨hand, .inr rfl, ?_⟩
    have hsame : s.send (some r) = s := by
      rw [Surveiller.send, GRingBuffer.write_full (Nat.le_antisymm hq hge)]
    rw [hsame]

/-- Cutting a list twice at the same place. -/
theorem take_take_append {α : Type} (l m : List α) (n : Nat) :
    (l.take n ++ m).take n = (l ++ m).take n := by
  rw [List.take_append, List.take_append, List.take_take, Nat.min_self, List.length_take]
  congr 2
  omega

end Send

/-! ## §2. `surv_addExecCall`. -/

/-- Everything `surv_addExecCall` can do. -/
inductive SurvAddOutcome (granted again : Nat → Bool) (s : Surveiller) (e : ExecRef)
    (c : ExecCall) : Int × Surveiller → Prop where
  | direct {p : Int × Heap × Procindex} :
      AddOutcome granted s.heap s.procs e c p → p.1 ≠ ALREADY_EXISTS_IN_CONTAINER →
      SurvAddOutcome granted again s e c (p.1, { s with heap := p.2.1, procs := p.2.2 })
  | replaced {t : Procindex} {k : Nat} {own : ExecRef} {p : Int × Heap × Procindex} :
      s.procs.InRange c.pid → Grown granted c.pid.toInt s.procs true t →
      c.pid.toInt + 1 = k → t.procs[k]? = some (.proc own) →
      AddOutcome again s.heap (t.withSlot k .null) e c p →
      SurvAddOutcome granted again s e c
        (p.1, { s.send (some own) with heap := p.2.1, procs := p.2.2 })

section AddExecCall

variable {crash : Prop} {granted again : Nat → Bool} {s : Surveiller} {e : ExecRef} {c : ExecCall}

theorem survAddExecCall_meets (hc : s.heap.execs e = some c) (hsane : s.procs.Sane)
    (hcrash : s.procs.InRange c.pid → FindsParent s.procs c → crash) :
    Meets (Tolerated crash) (survAddExecCall granted again s e)
      (SurvAddOutcome granted again s e c) := by
  refine (procindexAdd_meets hc hsane fun hl => hcrash hl.1 hl.2.2).bind fun p hp => ?_
  obtain ⟨ret, h, t⟩ := p
  by_cases hret : ret = ALREADY_EXISTS_IN_CONTAINER
  · subst hret
    -- of all outcomes only a taken slot reports `ALREADY_EXISTS_IN_CONTAINER`
    cases hp with
    | @occupied _ k own hin hg hk hown =>
      simp only [if_true, Heap.exec_some hc, ok_bind]
      refine (procindexRetrieve_meets hg.sane c.pid.toInt).bind fun p hp => ?_
      cases hp with
      | @absent j hj hnone =>
          rw [show j = k by omega] at hnone
          exact absurd hown (hnone own)
      | @found j r hj hr =>
          rw [show j = k by omega, hown] at hr
          cases hr
          rw [show j = k by omega]
          refine (procindexAdd_meets (t := t.withSlot k .null) hc (hg.sane.withSlot _ _)
            fun hl => hcrash hin ⟨hl.2.2.1, ?_⟩).bind fun p hp => ?_
          · -- an entry of the table without `own` is one of the table
            obtain ⟨j', r', hj', hr'⟩ := hl.2.2.2
            exact ⟨j', r', hj', hg.grows.proc (Procindex.withSlot_null.mp hr').2⟩
          · exact .replaced hin hg hk hown hp
  · show Meets (Tolerated crash) (if ret = ALREADY_EXISTS_IN_CONTAINER then _ else _) _
    rw [if_neg hret]
    exact .direct hp hret

/-- The works of `surv_addExecCall` with a call in hand. -/
theorem SurvAddOutcome.working {hand : List ExecRef} {openHand : List OpenRef}
    {p : Int × Surveiller} (ho : SurvAddOutcome granted again s e c p) (he : e ∈ hand)
    (hc : s.heap.execs e = some c) (hq : s.dispatchQueue.Wf) :
    Working s hand openHand (· ≠ e) p.2 := by
  have hkept : ∀ (ret : Int) (hand' : List ExecRef), (∀ x ∈ hand, x ≠ e → x ∈ hand') →
      ∀ x ∈ hand, x ≠ e → x ∈ if ret = NOMINAL then hand'.erase e else hand' := by
    intro ret hand' hsub x hx hne
    split
    · exact (List.mem_erase_of_ne hne).mpr (hsub x hx hne)
    · exact hsub x hx hne
  cases ho with
  | @direct p hp hret =>
      exact ⟨_, hkept p.1 hand fun x hx _ => hx, hp.works (l := s.ledger hand openHand) he hc⟩
  | @replaced t k own p hin hg hk hown hp =>
      have hextend : Work (s.ledger hand openHand) { s.ledger hand openHand with procs := t } :=
        .extend hg.grows hg.sane
      have hremove : Work { s.ledger hand openHand with procs := t }
          { s.ledger (own :: hand) openHand with procs := t.withSlot k .null } := .remove hown
      obtain ⟨hand', hhand', hsend⟩ :=
        send_works (s := { s with procs := t.withSlot k .null }) hq
          (List.mem_cons_self (a := own) (l := hand))
      have hsub : ∀ x ∈ hand, x ∈ hand' := by
        rcases hhand' with rfl | rfl
        · rw [List.erase_cons_head]
          exact fun _ hx => hx
        · exact fun _ hx => List.mem_cons_of_mem _ hx
      have hadd := hp.works
        (l := (Surveiller.send { s with procs := t.withSlot k .null } (some own)).ledger hand' openHand)
        (hsub e he) hc
      exact ⟨_, hkept p.1 hand' fun x hx _ => hsub x hx,
        (Relation.ReflTransGen.head hextend (.head hremove hsend)).trans hadd⟩

end AddExecCall

/-! ## §3. One slot of a death check or a flush. -/

/-- The tracked call in slot `k`. -/
def Surveiller.trackedAt (s : Surveiller) (k : Nat) : Option ExecRef :=
  match s.procs.procs[k]? with
  | some (.proc r) => if (s.heap.execs r).any ExecCall.tracked then some r else none
  | _ => none

theorem trackedAt_eq_some {s : Surveiller} {k : Nat} {r : ExecRef} :
    s.trackedAt k = some r
      ↔ s.procs.procs[k]? = some (.proc r) ∧ ∃ c, s.heap.execs r = some c ∧ c.tracked = true := by
  unfold Surveiller.trackedAt
  split
  next r' hr' =>
    rw [hr']
    cases hc : s.heap.execs r' with
    | none => simp; rintro rfl; simp [hc]
    | some c =>
        by_cases ht : c.tracked = true
        · simp [ht]
          rintro rfl
          exact ⟨c, hc, ht⟩
        · simp [ht]
          rintro rfl c' hc'
          rw [hc] at hc'
          cases hc'
          simpa using ht
  next hno =>
    constructor
    · intro h
      cases h
    · rintro ⟨h, -⟩
      exact absurd h (hno r)

/-- An entry without open calls is not one the sweep sends. -/
theorem trackedAt_untracked {s : Surveiller} {k : Nat} {r : ExecRef} {c : ExecCall}
    (hr : s.procs.procs[k]? = some (.proc r)) (hc : s.heap.execs r = some c)
    (ht : ¬ c.tracked = true) : s.trackedAt k = none := by
  rw [Option.eq_none_iff_forall_ne_some]
  intro r' hr'
  obtain ⟨hr', c', hc', ht'⟩ := trackedAt_eq_some.mp hr'
  rw [hr] at hr'
  cases hr'
  rw [hc] at hc'
  cases hc'
  exact ht ht'

/-- What a death check or a flush does to slot `k`; `hit` if the process counts as gone. -/
inductive SweepOutcome (hit : Bool) (k : Nat) (s : Surveiller) : Surveiller → Prop where
  | idle : (hit = true → s.trackedAt k = none) → SweepOutcome hit k s s
  | aged {r : ExecRef} {c : ExecCall} :
      hit = true → s.trackedAt k = none → s.heap.execs r = some c →
      SweepOutcome hit k s
        { s with heap := s.heap.setExec r { c with deadness := c.deadness + 1 } }
  | sent {r : ExecRef} :
      hit = true → s.trackedAt k = some r →
      SweepOutcome hit k s ({ s with procs := s.procs.withSlot k .null }.send (some r))
  | dropped {r : ExecRef} {c : ExecCall} :
      hit = true → s.trackedAt k = none → s.procs.procs[k]? = some (.proc r) →
      s.heap.execs r = some c →
      SweepOutcome hit k s { s with
        heap := s.heap.release r (s.heap.bufferOf r), procs := s.procs.withSlot k .null }

-- without this the elaborator evaluates the bounds of an `int` on terms with variables
attribute [local irreducible] toInt

section Slot

variable {crash : Prop} {s : Surveiller} {hand : List ExecRef} {openHand : List OpenRef}

theorem flushPid_meets (hs : (s.ledger hand openHand).Sound) (i : Nat) :
    Meets (Tolerated crash) (flushPid s i) (SweepOutcome true (i + 1) s) := by
  have hsane : s.procs.Sane := hs.table.sane
  refine (procindexRetrieve_meets hsane (i : Int)).bind fun p hp => ?_
  cases hp with
  | @absent k hk hnone =>
      obtain rfl : k = i + 1 := by omega
      refine .idle fun _ => ?_
      rw [Option.eq_none_iff_forall_ne_some]
      exact fun r hr => hnone r (trackedAt_eq_some.mp hr).1
  | @found k r hk hr =>
      obtain rfl : k = i + 1 := by omega
      obtain ⟨c, hc, -⟩ := hs.entry_live hr
      replace hc : s.heap.execs r = some c := hc
      simp only [Heap.exec_some hc, ok_bind]
      split
      next ht => exact .sent rfl (trackedAt_eq_some.mpr ⟨hr, c, hc, ht⟩)
      next ht =>
        rw [show s.heap.execCallDestroy r = _ from hs.destroy_ok hc]
        exact .dropped rfl (trackedAt_untracked hr hc ht) hr hc

theorem checkSlot_meets (hs : (s.ledger hand openHand).Sound) (gone : Nat → Bool) (i : Nat) :
    Meets (Tolerated crash) (checkSlot gone s i) (SweepOutcome (gone i) i s) := by
  refine (s.procs.slot_meets i).bind fun o ho => ?_
  obtain ⟨k, hk, ho⟩ := ho
  obtain rfl : k = i := by omega
  cases o with
  | none =>
      refine .idle fun _ => ?_
      rw [Option.eq_none_iff_forall_ne_some]
      intro r hr
      have := (trackedAt_eq_some.mp hr).1
      rw [ho] at this
      cases this
  | some r =>
      replace ho : s.procs.procs[k]? = some (.proc r) := ho
      obtain ⟨c, hc, -⟩ := hs.entry_live ho
      replace hc : s.heap.execs r = some c := hc
      have hset : s.procs.setSlot k .null = .ok (s.procs.withSlot k .null) :=
        Procindex.setSlot_ok (by omega) ho .null
      simp only [Heap.exec_some hc, ok_bind]
      -- the branches of the source: alive, gone and tracked, gone without an open call
      by_cases hgone : gone k = true
      · rw [if_pos hgone]
        by_cases ht : c.tracked = true
        · rw [if_pos ht, hset]
          exact .sent hgone (trackedAt_eq_some.mpr ⟨ho, c, hc, ht⟩)
        · have hnone := trackedAt_untracked ho hc ht
          rw [if_neg ht]
          split
          · rw [show s.heap.execCallDestroy r = _ from hs.destroy_ok hc, ok_bind, hset]
            exact .dropped hgone hnone ho hc
          · exact .aged hgone hnone hc
      · rw [if_neg hgone]
        exact .idle fun h => absurd h hgone

theorem SweepOutcome.working {hit : Bool} {k : Nat} {s' : Surveiller}
    (ho : SweepOutcome hit k s s') (hq : s.dispatchQueue.Wf) :
    Working s hand openHand (fun _ => True) s' := by
  cases ho with
  | idle => exact ⟨hand, fun _ hx _ => hx, .refl⟩
  | aged hhit hnone hc =>
      exact ⟨hand, fun _ hx _ => hx, .single (.change (l := s.ledger hand openHand) hc
        ⟨rfl, rfl, fun _ hb => hb, fun hr => ⟨hr.1, hr.2, hr.3⟩, id⟩)⟩
  | @sent r hhit hr =>
      have hremove : Work (s.ledger hand openHand)
          { s.ledger (r :: hand) openHand with procs := s.procs.withSlot k .null } :=
        .remove (trackedAt_eq_some.mp hr).1
      obtain ⟨hand', hhand', hsend⟩ :=
        send_works (s := { s with procs := s.procs.withSlot k .null }) hq
          (List.mem_cons_self (a := r) (l := hand))
      refine ⟨hand', fun x hx _ => ?_, .head hremove hsend⟩
      rcases hhand' with rfl | rfl
      · rwa [List.erase_cons_head]
      · exact List.mem_cons_of_mem _ hx
  | @dropped r c hhit hnone hr hc =>
      have hremove : Work (s.ledger hand openHand)
          { s.ledger (r :: hand) openHand with procs := s.procs.withSlot k .null } := .remove hr
      have hdestroy := Work.destroy
        (l := { s.ledger (r :: hand) openHand with procs := s.procs.withSlot k .null })
        (List.mem_cons_self (a := r) (l := hand)) hc
      refine ⟨(r :: hand).erase r, fun x hx _ => ?_, .head hremove (.single hdestroy)⟩
      rwa [List.erase_cons_head]

end Slot

/-! ## §4. A range of slots. -/

/-- The tracked calls that a sweep over the slots `lo..lo+n` sends, in the order of the slots. -/
def Surveiller.sent (s : Surveiller) (hit : Nat → Bool) (lo n : Nat) : List ExecRef :=
  (List.range' lo n).filterMap fun k => if hit k then s.trackedAt k else none

/-- What a sweep over the slots `lo..lo+n` leaves. -/
structure Swept (hit : Nat → Bool) (lo : Nat) (s : Surveiller) (hand : List ExecRef)
    (openHand : List OpenRef) (n : Nat) (s' : Surveiller) : Prop where
  only : IndexOnly s s'
  working : Working s hand openHand (fun _ => True) s'
  queueWf : s'.dispatchQueue.Wf
  queue : s'.dispatchQueue.held
    = (s.dispatchQueue.held ++ (s.sent hit lo n).map some).take 1024
  maxPid : s'.procs.maxPid = s.procs.maxPid
  wf : s.procs.Wf → s'.procs.Wf
  left : ∀ k, lo ≤ k → k < lo + n → hit k = true → ∀ r, s.trackedAt k = some r →
    s'.procs.procs[k]? = some .null
  spared : ∀ k, (k < lo ∨ lo + n ≤ k ∨ hit k = false) →
    s'.procs.procs[k]? = s.procs.procs[k]?
  entries : ∀ (k : Nat) (r : ExecRef), s'.procs.procs[k]? = some (.proc r) →
    s.procs.procs[k]? = some (.proc r) ∧ ∃ c c', s.heap.execs r = some c
      ∧ s'.heap.execs r = some c' ∧ c'.tracked = c.tracked

section Sweep

variable {crash : Prop} {s : Surveiller} {hand : List ExecRef} {openHand : List OpenRef}
  {hit : Nat → Bool} {lo n : Nat}

theorem Swept.start (hs : (s.ledger hand openHand).Sound) (hq : s.dispatchQueue.Wf) :
    Swept hit lo s hand openHand 0 s := by
  refine ⟨rfl, ⟨hand, fun _ hx _ => hx, .refl⟩, hq, ?_, rfl, id, ?_, fun _ _ => rfl, ?_⟩
  · have hlen : s.dispatchQueue.held.length ≤ 1024 := by
      rw [GRingBuffer.held_length]
      exact hq
    simp [Surveiller.sent, List.take_of_length_le hlen]
  · intro k h1 h2
    omega
  · intro k r hr
    obtain ⟨c, hc, -⟩ := hs.entry_live hr
    exact ⟨hr, c, c, hc, hc, rfl⟩

/-- A slot that has not been swept yet holds what it held. -/
theorem Swept.trackedAt {s' : Surveiller} (h : Swept hit lo s hand openHand n s') {k : Nat}
    (hk : lo + n ≤ k) :
    s'.trackedAt k = s.trackedAt k := by
  have hslot := h.spared k (.inr (.inl hk))
  refine Option.ext fun r => ?_
  rw [trackedAt_eq_some, trackedAt_eq_some, hslot]
  refine and_congr_right fun hr => ?_
  obtain ⟨-, c, c', hc, hc', ht⟩ := h.entries k r (by rw [hslot]; exact hr)
  rw [hc, hc']
  simp [ht]

theorem Swept.sent_succ (s : Surveiller) (hit : Nat → Bool) (lo n : Nat) :
    s.sent hit lo (n + 1)
      = s.sent hit lo n ++ (if hit (lo + n) then s.trackedAt (lo + n) else none).toList := by
  unfold Surveiller.sent
  rw [List.range'_1_concat, List.filterMap_append]
  cases h : (if hit (lo + n) then s.trackedAt (lo + n) else none) with
  | none => simp [h]
  | some r => simp [h]

/-- A slot from which nothing is sent. -/
theorem Swept.sent_quiet {s' : Surveiller} (h : Swept hit lo s hand openHand n s')
    (hnone : hit (lo + n) = true → s'.trackedAt (lo + n) = none) :
    s.sent hit lo (n + 1) = s.sent hit lo n := by
  rw [Swept.sent_succ]
  by_cases hh : hit (lo + n) = true
  · rw [if_pos hh, ← h.trackedAt (Nat.le_refl (lo + n)), hnone hh]
    simp
  · simp [hh]

/-- A table that differs from the swept one in the next slot only, and there is right, is swept one
slot further. -/
theorem Swept.left_next {s' : Surveiller} (h : Swept hit lo s hand openHand n s') {procs : List Slot}
    (hother : ∀ k, k ≠ lo + n → procs[k]? = s'.procs.procs[k]?)
    (hhere : hit (lo + n) = true → ∀ r, s.trackedAt (lo + n) = some r →
      procs[lo + n]? = some .null) :
    ∀ k, lo ≤ k → k < lo + (n + 1) → hit k = true → ∀ r, s.trackedAt k = some r →
      procs[k]? = some .null := by
  intro k h1 h2 hh r hr
  by_cases hk : k = lo + n
  · subst hk
    exact hhere hh r hr
  · rw [hother k hk]
    exact h.left k h1 (by omega) hh r hr

theorem Swept.spared_next {s' : Surveiller} (h : Swept hit lo s hand openHand n s')
    {procs : List Slot} (hother : ∀ k, k ≠ lo + n → procs[k]? = s'.procs.procs[k]?)
    (hhere : hit (lo + n) = false → procs[lo + n]? = s'.procs.procs[lo + n]?) :
    ∀ k, (k < lo ∨ lo + (n + 1) ≤ k ∨ hit k = false) → procs[k]? = s.procs.procs[k]? := by
  intro k hk
  by_cases hk' : k = lo + n
  · subst hk'
    have hh : hit (lo + n) = false := by
      rcases hk with hk | hk | hk
      · omega
      · omega
      · exact hk
    rw [hhere hh]
    exact h.spared _ (.inr (.inr hh))
  · rw [hother k hk']
    exact h.spared k (hk.imp_right (Or.imp_left (by omega)))

/-- **One more slot.** -/
theorem Swept.step {s' s'' : Surveiller} (h : Swept hit lo s hand openHand n s')
    (hs : (s.ledger hand openHand).Sound) (ho : SweepOutcome (hit (lo + n)) (lo + n) s' s'') :
    Swept hit lo s hand openHand (n + 1) s'' := by
  obtain ⟨hand', hsub, hworks⟩ := h.working
  have hs' := hworks.sound hs
  have htracked := h.trackedAt (Nat.le_refl (lo + n))
  obtain ⟨hand'', hsub', hworks'⟩ := ho.working h.queueWf
  have hworking : Working s hand openHand (fun _ => True) s'' :=
    ⟨hand'', fun x hx _ => hsub' x (hsub x hx trivial) trivial, hworks.trans hworks'⟩
  have hset : ∀ k, k ≠ lo + n →
      (s'.procs.withSlot (lo + n) .null).procs[k]? = s'.procs.procs[k]? := by
    intro k hk
    show (s'.procs.procs.set (lo + n) .null)[k]? = _
    rw [List.getElem?_set_ne (Ne.symm hk)]
  have hnull : ∀ r, s'.procs.procs[lo + n]? = some (.proc r) →
      (s'.procs.withSlot (lo + n) .null).procs[lo + n]? = some .null := by
    intro r hr
    exact List.getElem?_set_self (List.getElem?_eq_some_iff.mp hr).1
  cases ho with
  | idle hnone =>
      refine ⟨h.only, h.working, h.queueWf, by rw [h.sent_quiet hnone]; exact h.queue, h.maxPid, h.wf,
        h.left_next (fun _ _ => rfl) ?_, h.spared_next (fun _ _ => rfl) (fun _ => rfl), h.entries⟩
      intro hh r hr
      rw [← htracked, hnone hh] at hr
      cases hr
  | @aged r c hh hnone hc =>
      refine ⟨h.only.trans rfl, hworking, h.queueWf, by rw [h.sent_quiet fun _ => hnone]; exact h.queue,
        h.maxPid, h.wf, h.left_next (fun _ _ => rfl) ?_,
        h.spared_next (fun _ _ => rfl) (fun _ => rfl), ?_⟩
      · intro hh r hr
        rw [← htracked, hnone] at hr
        cases hr
      · intro k x hx
        obtain ⟨hx', d, d', hd, hd', ht⟩ := h.entries k x hx
        refine ⟨hx', d, ?_⟩
        by_cases hxr : x = r
        · subst hxr
          rw [hc] at hd'
          cases hd'
          exact ⟨_, hd, Function.update_self _ _ _, ht⟩
        · refine ⟨d', hd, ?_, ht⟩
          show Function.update s'.heap.execs r _ x = some d'
          rw [Function.update_of_ne hxr]
          exact hd'
  | @sent r hh hr =>
      have hslot := (trackedAt_eq_some.mp hr).1
      refine ⟨h.only.trans rfl, hworking, GRingBuffer.write_wf h.queueWf _, ?_, h.maxPid,
        fun hwf => (h.wf hwf).withSlot _ (by simp), h.left_next hset fun _ _ _ => hnull r hslot,
        h.spared_next hset fun hf => ?_, ?_⟩
      · show (gRingBufferWrite s'.dispatchQueue (some r)).2.held = _
        rw [GRingBuffer.write_held h.queueWf, h.queue, take_take_append, Swept.sent_succ, if_pos hh,
          ← htracked, hr]
        simp
      · rw [hh] at hf
        cases hf
      · intro k x hx
        have hk : k ≠ lo + n := by
          rintro rfl
          cases (hnull r hslot).symm.trans hx
        exact h.entries k x ((hset k hk).symm.trans hx)
  | @dropped r c hh hnone hslot hc =>
      refine ⟨h.only.trans rfl, hworking, h.queueWf, by rw [h.sent_quiet fun _ => hnone]; exact h.queue,
        h.maxPid, fun hwf => (h.wf hwf).withSlot _ (by simp),
        h.left_next hset fun _ _ _ => hnull r hslot, h.spared_next hset fun hf => ?_, ?_⟩
      · rw [hh] at hf
        cases hf
      · intro k x hx
        have hk : k ≠ lo + n := by
          rintro rfl
          cases (hnull r hslot).symm.trans hx
        have hx' := (hset k hk).symm.trans hx
        obtain ⟨hx'', d, d', hd, hd', ht⟩ := h.entries k x hx'
        refine ⟨hx'', d, d', hd, ?_, ht⟩
        -- `x` is in another slot, so it is another call
        have hxr : x ≠ r := by
          rintro rfl
          obtain ⟨e, he, hek⟩ := hs'.entry_live hx'
          obtain ⟨f, hf, hfk⟩ := hs'.entry_live hslot
          rw [he] at hf
          cases hf
          omega
        show Function.update s'.heap.execs r none x = some d'
        rw [Function.update_of_ne hxr]
        exact hd'

/-- **The sweep**: a loop whose body does to each slot what `SweepOutcome` says. -/
theorem sweep_meets {body : Surveiller → Nat → Except Fault Surveiller}
    (hs : (s.ledger hand openHand).Sound) (hq : s.dispatchQueue.Wf)
    (hbody : ∀ i < n, ∀ s' hand', (s'.ledger hand' openHand).Sound →
      Meets (Tolerated crash) (body s' i) (SweepOutcome (hit (lo + i)) (lo + i) s')) :
    Meets (Tolerated crash) ((List.range n).foldlM body s) (Swept hit lo s hand openHand n) := by
  refine Meets.foldlM_range (P := fun i s' => Swept hit lo s hand openHand i s') ?_ (.start hs hq)
  intro i hi s' hs'
  obtain ⟨hand', -, hworks⟩ := hs'.working
  exact (hbody i hi s' hand' (hworks.sound hs)).mono fun s'' ho => hs'.step hs ho

/-- **`surv_check_proc_vitals`** -/
theorem survCheckProcVitals_meets (hs : (s.ledger hand openHand).Sound)
    (hq : s.dispatchQueue.Wf) (gone : Nat → Bool) :
    Meets (Tolerated crash) (survCheckProcVitals gone s)
      (Swept gone 0 s hand openHand s.procs.size.toNat) := by
  unfold survCheckProcVitals
  split
  · trivial
  · refine sweep_meets hs hq fun i _ s' hand' hs' => ?_
    rw [Nat.zero_add]
    exact checkSlot_meets hs' gone i

/-- **`surv_flush_procindex`** -/
theorem survFlushProcindex_meets (hs : (s.ledger hand openHand).Sound)
    (hq : s.dispatchQueue.Wf) :
    Meets (Tolerated crash) (survFlushProcindex s)
      (Swept (fun _ => true) 1 s hand openHand (s.procs.size - 1).toNat) := by
  unfold survFlushProcindex
  split
  · trivial
  · refine sweep_meets hs hq fun i _ s' hand' hs' => ?_
    rw [Nat.add_comm]
    exact flushPid_meets hs' i

end Sweep

end DirSurveiller
