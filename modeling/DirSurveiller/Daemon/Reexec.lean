/-
  DirSurveiller.Daemon.Reexec — one exec event, two ways into the index.

  The main loop hands an execCall to the index in two places: while it merges the two queues, through
  `surv_addExecCall`, and otherwise through `procindex_add` alone.  The first makes room for a pid
  that is used again, the second does not look at what `procindex_add` answers.

  Main result:
    * `exec_handed_iff` — when an exec takes effect, and when the later open calls of its pid are
      attached to it.
-/
import DirSurveiller.Index.Linking
import DirSurveiller.Daemon.Loss

namespace DirSurveiller

open CMachine Outcome

section Reexec

attribute [local irreducible] toInt

/-! ## §1. Handing an exec to the index. -/

/-- The operations of the branch that merges the two queues. -/
def Op.Merges : Op → Prop
  | .addExecCall _ _ _ => True
  | _ => False

/-- The answers to the requests for a larger table. -/
def Op.growth : Op → Nat → Bool
  | .addExecCall granted _ _ => granted
  | .add granted _ => granted
  | _ => fun _ => true

/-- Every slot that handing `c` to the index looks at exists. -/
structure SlotsExist (granted : Nat → Bool) (t : Procindex) (c : ExecCall) : Prop where
  wf : t.Wf
  slots : ∀ n, t.growsTo granted c.pid.toInt = .ok (some n) → Procindex.Within n c.pid.toInt
    ∧ Procindex.Guarded n c.ppid.toInt ∧ c.ppid.toInt < 2147483647

/-- The slot of an exec's pid. -/
def ExecEvent.slot (e : ExecEvent) : Nat := (e.pid.toInt + 1).toNat

/-- The exec has taken effect: its new call is the entry, the call that was there is queued once, and
the other entries are as they were. -/
structure TookEffect (s : Surveiller) (e : ExecEvent) (s' : Surveiller) : Prop where
  entry : s'.procs.callAt e.slot = some s.heap.nextExec
  occupant : ∀ own, s.procs.callAt e.slot = some own →
    s'.dispatchQueue.held.count (some own) = 1
  others : ∀ k, k ≠ e.slot → s'.procs.callAt k = s.procs.callAt k

/-- What an exec needs in order to take effect. -/
structure TakesEffect (s : Surveiller) (op : Op) (e : ExecEvent) : Prop where
  grows : ∃ n, s.procs.growsTo op.growth e.pid.toInt = .ok (some n)
  branch : op.Merges ∨ ¬ s.procs.Holds e.pid
  orphan : ¬ FindsParent s.procs e.call

section Free

variable {granted : Nat → Bool} {h : Heap} {t : Procindex} {call : ExecRef} {c : ExecCall}

/-- A call that was nowhere in the table and is in its slot now has been added. -/
theorem AddOutcome.added_of_entry {p : Int × Heap × Procindex}
    (ho : AddOutcome granted h t call c p) (hnew : call ∉ t.entries) {k : Nat}
    (hentry : p.2.2.callAt k = some call) :
    p.1 = NOMINAL ∧ ¬ t.Holds c.pid ∧ ¬ FindsParent t c := by
  have hin := Procindex.callAt_eq_some.mp hentry
  have habsent : ∀ {t' : Procindex}, t.Extends t' → t'.procs[k]? ≠ some (.proc call) := by
    intro t' hext hk
    exact hnew (Procindex.mem_entries.mpr ⟨k, hext.proc hk⟩)
  cases ho with
  | rejected => exact absurd hin (habsent (.refl _))
  | noMemory _ hg => exact absurd hin (habsent hg.grows)
  | occupied _ hg => exact absurd hin (habsent hg.grows)
  | @added t' j _ hg hj hnull hparent =>
      refine ⟨rfl, fun hholds => ?_, hparent⟩
      obtain ⟨j', r, hj', hr⟩ := (Procindex.Holds.extend hg.grows).mpr hholds
      rw [show j' = j by omega, hnull] at hr
      cases hr

/-- What is known when `procindex_add` has made the call an entry. -/
theorem add_needs (hwf : t.Wf) (hc : h.execs call = some c) (hin : t.InRange c.pid)
    (hnew : call ∉ t.entries) {p : Int × Heap × Procindex}
    (hrun : procindexAdd granted h t call = .ok p) {k : Nat} (hentry : p.2.2.callAt k = some call) :
    (∃ n, t.growsTo granted c.pid.toInt = .ok (some n)) ∧ ¬ t.Holds c.pid ∧ ¬ FindsParent t c := by
  have hmeets : Meets (Tolerated True) (procindexAdd granted h t call)
      (AddOutcome granted h t call c) :=
    procindexAdd_meets hc (Int.le_of_eq hwf.size) fun _ => trivial
  obtain ⟨hret, hno⟩ := (hmeets.post hrun).added_of_entry hnew hentry
  obtain ⟨hfails, hrefused⟩ := procindexAdd_not_grown granted hc hwf hin
  refine ⟨?_, hno⟩
  cases hg : t.growsTo granted c.pid.toInt with
  | error e =>
      rw [hfails e hg] at hrun
      cases hrun
  | ok o =>
    cases o with
    | none =>
        obtain ⟨u, hu⟩ := hrefused hg
        rw [hu] at hrun
        cases hrun
        cases hret
    | some n => exact ⟨n, rfl⟩

/-- **An empty slot**: `procindex_add` makes the call the entry if the table can grow and has no entry
for the parent. -/
theorem add_free (hsafe : SlotsExist granted t c) (hc : h.execs call = some c)
    (hin : t.InRange c.pid) (hfree : ¬ t.Holds c.pid)
    (hgrows : ∃ n, t.growsTo granted c.pid.toInt = .ok (some n)) (hno : ¬ FindsParent t c) :
    ∃ h' t', procindexAdd granted h t call = .ok (NOMINAL, h', t') ∧ Linked h t call c h' t' := by
  obtain ⟨n, hn⟩ := hgrows
  obtain ⟨hslot, hguard, hmax⟩ := hsafe.slots n hn
  apply (add_linked_iff hsafe.wf hc hin hfree).mpr
  refine ⟨⟨n, hn, hslot, hguard, hmax⟩, fun hholds => hno ⟨fun heq => hfree ?_, hholds⟩⟩
  rw [← heq]
  exact hholds

/-- **An occupied slot**, once `procindex_retrieve` has emptied it: the table has grown already. -/
theorem SlotsExist.emptied (hsafe : SlotsExist granted t c) (again : Nat → Bool) {n : Int}
    (hin : t.InRange c.pid) (hn : t.growsTo granted c.pid.toInt = .ok (some n)) (k : Nat) :
    ((t.padded n).withSlot k .null).growsTo again c.pid.toInt = .ok (some n)
      ∧ SlotsExist again ((t.padded n).withSlot k .null) c := by
  have hpadded : (t.padded n).growsTo again c.pid.toInt = .ok (some n) :=
    Procindex.growsTo_padded hn
  have hgrown : ((t.padded n).withSlot k .null).growsTo again c.pid.toInt = .ok (some n) := hpadded
  refine ⟨hgrown, (hsafe.wf.grown hin hn).withSlot k (by simp), fun m hm => ?_⟩
  rw [hgrown] at hm
  cases hm
  exact hsafe.slots n hn

/-- `procindex_retrieve` of a pid with an entry. -/
theorem procindexRetrieve_present {n : Int} {own : ExecRef} (hwf : (t.padded n).Wf) {pid : Int}
    (hint : toInt (pid + 1) = .ok (pid + 1)) (hslot : Procindex.Within n pid)
    (hown : t.callAt (pid + 1).toNat = some own) :
    procindexRetrieve (t.padded n) pid
      = .ok (some own, (t.padded n).withSlot (pid + 1).toNat .null) := by
  have hnot : ¬ (t.padded n).size < pid + 1 := by
    have hlt := hslot.2
    show ¬ n < pid + 1
    omega
  have hin : Procindex.Within (t.padded n).size pid := hslot
  have hread : (t.padded n).callAt (pid + 1).toNat = some own := by
    rw [Procindex.padded_callAt, hown]
  unfold procindexRetrieve
  rw [hwf.entry_eq hint, if_neg hnot, if_pos hin, hread, ok_bind]
  show (toInt (pid + 1) >>= fun i => _) = _
  rw [hint, ok_bind, Procindex.setSlot_ok hslot.1 (Procindex.callAt_eq_some.mp hread), ok_bind]
  rfl

end Free

section Hand

variable {s s' : Surveiller} {hand : List ExecRef} {openHand : List OpenRef}
  {granted again : Nat → Bool} {e : ExecEvent}

/-- The new call is not in the table. -/
theorem newExec_absent (h : s.Invariant hand openHand) : s.heap.nextExec ∉ s.procs.entries := by
  intro hin
  obtain ⟨k, hk⟩ := Procindex.mem_entries.mp hin
  obtain ⟨c, hc, -⟩ := h.sound.entry_live hk
  have hnone := (h.sound.objects.execs s.heap.nextExec).mpr (.inl (Nat.le_refl _))
  exact Option.some_ne_none c (hc.symm.trans hnone)

/-- What is known when `surv_addExecCall` has made the call an entry. -/
theorem survAdd_needs (h : s.Invariant hand openHand) (hwf : s.procs.Wf)
    (hin : s.procs.InRange e.pid) {p : Int × Surveiller}
    (hrun : survAddExecCall granted again (s.newExec e) s.heap.nextExec = .ok p)
    (hentry : p.2.procs.callAt e.slot = some s.heap.nextExec) :
    (∃ n, s.procs.growsTo granted e.pid.toInt = .ok (some n)) ∧ ¬ FindsParent s.procs e.call := by
  have hc : (s.newExec e).heap.execs s.heap.nextExec = some e.call := Function.update_self _ _ _
  have hnew := newExec_absent h
  have hmeets : Meets (Tolerated True) (survAddExecCall granted again (s.newExec e) s.heap.nextExec)
      (SurvAddOutcome granted again (s.newExec e) s.heap.nextExec e.call) :=
    survAddExecCall_meets hc (Int.le_of_eq hwf.size) fun _ _ => trivial
  have hadded : p.1 = NOMINAL ∧ ¬ FindsParent s.procs e.call := by
    cases hmeets.post hrun with
    | direct hp hret =>
        obtain ⟨hok, -, hno⟩ := hp.added_of_entry hnew hentry
        exact ⟨hok, hno⟩
    | @replaced t k own p _ hg hk hown hp =>
        have hnew' : s.heap.nextExec ∉ (t.withSlot k .null).entries := by
          intro hmem
          obtain ⟨j, hj⟩ := Procindex.mem_entries.mp hmem
          exact hnew (Procindex.mem_entries.mpr
            ⟨j, hg.grows.proc (Procindex.withSlot_null.mp hj).2⟩)
        obtain ⟨hok, -, hno⟩ := hp.added_of_entry hnew' hentry
        refine ⟨hok, fun hfinds => hno ?_⟩
        -- the parent has another slot than the one that was emptied
        obtain ⟨hne, j, r, hj, hr⟩ := hfinds
        replace hk : e.call.pid.toInt + 1 = k := hk
        refine ⟨hne, j, r, hj, Procindex.withSlot_null.mpr ⟨fun hjk => hne ?_, hg.grows.get hr⟩⟩
        apply Int32.toInt_inj.mp
        omega
  refine ⟨?_, hadded.2⟩
  obtain ⟨hfails, hrefused⟩ := procindexAdd_not_grown granted hc hwf hin
  cases hg : s.procs.growsTo granted e.pid.toInt with
  | error f =>
      have hadd := hfails f hg
      replace hadd : procindexAdd granted (s.newExec e).heap (s.newExec e).procs s.heap.nextExec
        = .error f := hadd
      unfold survAddExecCall at hrun
      rw [hadd] at hrun
      cases hrun
  | ok o =>
    cases o with
    | none =>
        obtain ⟨u, hadd⟩ := hrefused hg
        replace hadd : procindexAdd granted (s.newExec e).heap (s.newExec e).procs s.heap.nextExec
          = .ok (MEMORY_ALLOCATION_ERROR, (s.newExec e).heap, u) := hadd
        unfold survAddExecCall at hrun
        rw [hadd] at hrun
        cases hrun
        cases hadded.1
    | some n => exact ⟨n, rfl⟩

/-- **The plain branch** puts an exec into effect only if its pid is free. -/
theorem plain_handled_iff (h : s.Invariant hand openHand)
    (hin : s.procs.InRange e.pid) (hsafe : SlotsExist granted s.procs e.call) :
    (∃ s', applyOp s (.add granted e) = .ok s' ∧ TookEffect s e s')
      ↔ TakesEffect s (.add granted e) e := by
  have hc : (s.newExec e).heap.execs s.heap.nextExec = some e.call := Function.update_self _ _ _
  constructor
  · intro hrun
    obtain ⟨s', hrun, htook⟩ := hrun
    obtain ⟨p, hp, hrun⟩ := bind_ok hrun
    cases hrun
    obtain ⟨q, hq, hp⟩ := bind_ok hp
    cases hp
    obtain ⟨hgrows, hfree, hno⟩ :=
      add_needs hsafe.wf hc hin (newExec_absent h) hq htook.entry
    exact ⟨hgrows, .inr hfree, hno⟩
  · intro hcond
    have hfree : ¬ s.procs.Holds e.pid := hcond.branch.resolve_left id
    obtain ⟨h', t', hadd, hlinked⟩ := add_free hsafe hc hin hfree hcond.grows hcond.orphan
    refine ⟨{ s.newExec e with heap := h', procs := t' }, ?_, hlinked.stored, fun own hown => ?_,
      hlinked.others⟩
    · show (survProcindexAdd granted (s.newExec e) s.heap.nextExec >>= _) = _
      unfold survProcindexAdd
      rw [show procindexAdd granted (s.newExec e).heap (s.newExec e).procs s.heap.nextExec = _
        from hadd]
      rfl
    · exact absurd ((Procindex.holds_iff (by have := hin.1; omega)).mpr ⟨own, hown⟩) hfree

/-- A free pid, in the branch that merges: one call of `procindex_add` is all there is. -/
theorem merge_free (hin : s.procs.InRange e.pid) (hsafe : SlotsExist granted s.procs e.call)
    (hfree : ¬ s.procs.Holds e.pid)
    (hgrows : ∃ n, s.procs.growsTo granted e.pid.toInt = .ok (some n))
    (hno : ¬ FindsParent s.procs e.call) :
    ∃ s', applyOp s (.addExecCall granted again e) = .ok s' ∧ TookEffect s e s' := by
  have hc : (s.newExec e).heap.execs s.heap.nextExec = some e.call := Function.update_self _ _ _
  obtain ⟨h', t', hadd, hlinked⟩ := add_free hsafe hc hin hfree hgrows hno
  replace hadd : procindexAdd granted (s.newExec e).heap (s.newExec e).procs s.heap.nextExec
    = .ok (NOMINAL, h', t') := hadd
  refine ⟨{ s.newExec e with heap := h', procs := t' }, ?_, hlinked.stored, fun own hown => ?_,
    hlinked.others⟩
  · show (survAddExecCall granted again (s.newExec e) s.heap.nextExec >>= _) = _
    unfold survAddExecCall
    rw [hadd]
    rfl
  · exact absurd ((Procindex.holds_iff (by have := hin.1; omega)).mpr ⟨own, hown⟩) hfree

/-- A pid that is used again, in the branch that merges: its entry is sent, and the second
`procindex_add` finds the slot empty. -/
theorem merge_occupied (h : s.Invariant hand openHand) (hin : s.procs.InRange e.pid)
    (hroom : s.dispatchQueue.held.length < 1024) (hsafe : SlotsExist granted s.procs e.call)
    (hholds : s.procs.Holds e.pid)
    (hgrows : ∃ n, s.procs.growsTo granted e.pid.toInt = .ok (some n))
    (hno : ¬ FindsParent s.procs e.call) :
    ∃ s', applyOp s (.addExecCall granted again e) = .ok s' ∧ TookEffect s e s' := by
  have hc : (s.newExec e).heap.execs s.heap.nextExec = some e.call := Function.update_self _ _ _
  have hpos : 0 ≤ e.pid.toInt + 1 := by
    have := hin.1
    omega
  obtain ⟨n, hn⟩ := hgrows
  obtain ⟨hslot, -⟩ := hsafe.slots n hn
  obtain ⟨own, hown⟩ := (Procindex.holds_iff hpos).mp hholds
  have hgrown := hsafe.wf.grown (c := e.call) hin hn
  have hread : (s.procs.padded n).procs[e.slot]? = some (.proc own) := by
    apply Procindex.callAt_eq_some.mp
    rw [Procindex.padded_callAt]
    exact hown
  -- the three calls, one after the other
  have hfirst : procindexAdd granted (s.newExec e).heap (s.newExec e).procs s.heap.nextExec
      = .ok (ALREADY_EXISTS_IN_CONTAINER, (s.newExec e).heap, s.procs.padded n) :=
    procindexAdd_present hc hsafe.wf hin hn hslot hholds
  have hint : toInt (e.pid.toInt + 1) = .ok (e.pid.toInt + 1) := by
    obtain ⟨-, hmax, -⟩ := Procindex.grownSize_spec _ _ _ hn
    exact toInt_eq_ok.mpr ⟨rfl, by omega, hmax⟩
  have hretrieve : procindexRetrieve (s.procs.padded n) e.call.pid.toInt
      = .ok (some own, (s.procs.padded n).withSlot e.slot .null) :=
    procindexRetrieve_present hgrown hint hslot hown
  obtain ⟨hagain, hsafe'⟩ := hsafe.emptied again hin hn e.slot
  have hfree' : ¬ ((s.procs.padded n).withSlot e.slot .null).Holds e.pid := by
    intro hholds'
    obtain ⟨k, r, hk, hr⟩ := hholds'
    refine (Procindex.withSlot_null.mp hr).1 ?_
    show k = (e.pid.toInt + 1).toNat
    omega
  have hno' : ¬ FindsParent ((s.procs.padded n).withSlot e.slot .null) e.call := by
    intro hfinds
    obtain ⟨hne, k, r, hk, hr⟩ := hfinds
    exact hno ⟨hne, k, r, hk, Procindex.padded_proc.mp (Procindex.withSlot_null.mp hr).2⟩
  obtain ⟨h', t', hsecond, hlinked⟩ := add_free hsafe' hc hin hfree' ⟨n, hagain⟩ hno'
  refine ⟨{ (s.newExec e).send (some own) with heap := h', procs := t' }, ?_, hlinked.stored,
    fun own' hown' => ?_, fun k hk => ?_⟩
  · show (survAddExecCall granted again (s.newExec e) s.heap.nextExec >>= _) = _
    unfold survAddExecCall
    rw [hfirst, ok_bind]
    simp only [if_true, Heap.exec_some hc, ok_bind]
    rw [hretrieve, ok_bind]
    unfold Surveiller.send
    dsimp only
    rw [hsecond]
    rfl
  · replace hown' : s.procs.callAt (e.pid.toInt + 1).toNat = some own' := hown'
    rw [hown] at hown'
    cases hown'
    have hqueued := entry_not_queued h.sound (Procindex.callAt_eq_some.mp hown)
    show (gRingBufferWrite s.dispatchQueue (some own)).2.held.count (some own) = 1
    rw [GRingBuffer.write_held h.dispatchWf, List.take_of_length_le, List.count_append,
      List.count_eq_zero.mpr hqueued, List.count_singleton_self]
    rw [List.length_append, List.length_singleton]
    omega
  · show t'.callAt k = _
    rw [hlinked.others k hk, Procindex.withSlot_callAt_ne hk, Procindex.padded_callAt]

/-- **One exec**: which branch of the main loop takes it, matters for a pid that is used again. -/
theorem handled_iff (h : s.Invariant hand openHand) {op : Op} (hop : op.event = some e)
    (hin : s.procs.InRange e.pid) (hroom : s.dispatchQueue.held.length < 1024)
    (hsafe : SlotsExist op.growth s.procs e.call) :
    (∃ s', applyOp s op = .ok s' ∧ TookEffect s e s') ↔ TakesEffect s op e := by
  cases op with
  | add granted e' =>
      cases hop
      exact plain_handled_iff h hin hsafe
  | addExecCall granted again e' =>
      cases hop
      constructor
      · intro hrun
        obtain ⟨s', hrun, htook⟩ := hrun
        obtain ⟨p, hp, hrun⟩ := bind_ok hrun
        cases hrun
        obtain ⟨hgrows, hno⟩ := survAdd_needs h hsafe.wf hin hp htook.entry
        exact ⟨hgrows, .inl trivial, hno⟩
      · intro hcond
        by_cases hholds : s.procs.Holds e.pid
        · exact merge_occupied h hin hroom hsafe hholds hcond.grows hcond.orphan
        · exact merge_free hin hsafe hholds hcond.grows hcond.orphan
  | opencallAdd => cases hop
  | retrieve => cases hop
  | checkVitals => cases hop
  | flush => cases hop
  | dispatch => cases hop

end Hand

/-! ## §2. How long an entry stays. -/

/-- The operation takes the entry of `pid` out of the index, and hands over no other. -/
def Op.Removes (s : Surveiller) (pid : Int32) : Op → Prop
  | .checkVitals gone => gone (pid.toInt + 1).toNat = true
      ∧ ∃ r c, s.procs.callAt (pid.toInt + 1).toNat = some r ∧ s.heap.execs r = some c
        ∧ (c.tracked = true ∨ 2 < c.deadness)
  | .flush => True
  | .retrieve p => p = pid
  | _ => False

/-- Slot `k` holds `r`, whose contents are `c`. -/
def Occupied (s : Surveiller) (k : Nat) (r : ExecRef) (c : ExecCall) : Prop :=
  s.procs.procs[k]? = some (.proc r) ∧ s.heap.execs r = some c

section Sweeps

variable {s s' : Surveiller} {hand : List ExecRef} {openHand : List OpenRef} {hit : Nat → Bool}
  {lo n : Nat}

variable (hit) in
/-- What a loop over slots keeps besides. -/
theorem sweep_keeps {body : Surveiller → Nat → Except Fault Surveiller}
    {Q : Nat → Surveiller → Prop} (h : s.Invariant hand openHand)
    (hbody : ∀ i < n, ∀ s' hand', (s'.ledger hand' openHand).Sound →
      Meets (Tolerated True) (body s' i) (SweepOutcome (hit (lo + i)) (lo + i) s'))
    (hkeeps : ∀ i < n, ∀ s1 s2 hand', (s1.ledger hand' openHand).Sound → body s1 i = .ok s2 →
      Q i s1 → Q (i + 1) s2)
    (hstart : Q 0 s) (hrun : (List.range n).foldlM body s = .ok s') : Q n s' := by
  have hmeets : Meets (Tolerated True) ((List.range n).foldlM body s)
      (fun s' => Swept hit lo s hand openHand n s' ∧ Q n s') := by
    refine Meets.foldlM_range (P := fun i s' => Swept hit lo s hand openHand i s' ∧ Q i s') ?_
      ⟨.start h.sound h.dispatchWf, hstart⟩
    intro i hi s1 h1
    obtain ⟨hswept, hq⟩ := h1
    obtain ⟨hand', -, hworks⟩ := hswept.working
    have hsound := hworks.sound h.sound
    apply (hbody i hi s1 hand' hsound).of_ok
    intro s2 hstep
    exact ⟨hswept.step h.sound ((hbody i hi s1 hand' hsound).post hstep),
      hkeeps i hi s1 s2 hand' hsound hstep hq⟩
  exact (hmeets.post hrun).2

/-- The death check of one slot leaves the others alone. -/
theorem checkSlot_other (hs : (s.ledger hand openHand).Sound) {gone : Nat → Bool} {i k : Nat}
    {r : ExecRef} {c : ExecCall} (hik : i ≠ k) (hrun : checkSlot gone s i = .ok s')
    (h : Occupied s k r c) : Occupied s' k r c := by
  obtain ⟨hr, hc⟩ := h
  unfold checkSlot at hrun
  obtain ⟨o, ho, hrun⟩ := bind_ok hrun
  cases o with
  | none =>
      cases hrun
      exact ⟨hr, hc⟩
  | some x =>
      have hx : s.procs.procs[i]? = some (.proc x) := (Procindex.slot_eq_some.mp ho).2
      -- a call is in one slot: the one that goes here is not `r`
      have hne : r ≠ x := by
        intro heq
        subst heq
        exact hik (slot_unique hs hx hr)
      obtain ⟨d, hd, hrun⟩ := bind_ok hrun
      rw [Heap.exec_ok] at hd
      have hset : ∀ {t : Procindex}, s.procs.setSlot i .null = .ok t →
          t.procs[k]? = some (.proc r) := by
        intro t ht
        obtain ⟨-, -, rfl⟩ := Procindex.setSlot_eq_ok.mp ht
        exact Procindex.withSlot_null.mpr ⟨Ne.symm hik, hr⟩
      dsimp only at hrun
      split at hrun
      · split at hrun
        · obtain ⟨t, ht, hrun⟩ := bind_ok hrun
          cases hrun
          exact ⟨hset ht, hc⟩
        · split at hrun
          · rw [show s.heap.execCallDestroy x = _ from hs.destroy_ok hd, ok_bind] at hrun
            obtain ⟨t, ht, hrun⟩ := bind_ok hrun
            cases hrun
            refine ⟨hset ht, ?_⟩
            show Function.update s.heap.execs x none r = some c
            rw [Function.update_of_ne hne]
            exact hc
          · cases hrun
            refine ⟨hr, ?_⟩
            show Function.update s.heap.execs x _ r = some c
            rw [Function.update_of_ne hne]
            exact hc
      · cases hrun
        exact ⟨hr, hc⟩

/-- The death check of a slot empties it iff the process is gone and was tracked, or has been found
gone often enough. -/
theorem checkSlot_self (hs : (s.ledger hand openHand).Sound) {gone : Nat → Bool} {k : Nat}
    {r : ExecRef} {c : ExecCall} (hrun : checkSlot gone s k = .ok s') (h : Occupied s k r c) :
    s'.procs.procs[k]? = some (.proc r) ↔
      ¬ (gone k = true ∧ (c.tracked = true ∨ 2 < c.deadness)) := by
  obtain ⟨hr, hc⟩ := h
  have hslot : s.procs.slot k = .ok (some r) := Procindex.slot_eq_some.mpr ⟨by omega, hr⟩
  have hset : s.procs.setSlot k .null = .ok (s.procs.withSlot k .null) :=
    Procindex.setSlot_ok (by omega) hr .null
  have hgone : (s.procs.withSlot k .null).procs[k]? ≠ some (.proc r) := fun hk =>
    (Procindex.withSlot_null.mp hk).1 rfl
  unfold checkSlot at hrun
  rw [hslot, ok_bind] at hrun
  simp only [Heap.exec_some hc, ok_bind] at hrun
  by_cases hhit : gone k = true
  · rw [if_pos hhit] at hrun
    by_cases ht : c.tracked = true
    · rw [if_pos ht, hset] at hrun
      cases hrun
      exact ⟨fun hk => absurd hk hgone, fun hnot => absurd ⟨hhit, .inl ht⟩ hnot⟩
    · rw [if_neg ht] at hrun
      by_cases hdead : c.deadness > 2
      · rw [if_pos hdead, show s.heap.execCallDestroy r = _ from hs.destroy_ok hc, ok_bind,
          hset] at hrun
        cases hrun
        exact ⟨fun hk => absurd hk hgone, fun hnot => absurd ⟨hhit, .inr hdead⟩ hnot⟩
      · rw [if_neg hdead] at hrun
        cases hrun
        exact ⟨fun _ hboth => hboth.2.elim ht hdead, fun _ => hr⟩
  · rw [if_neg hhit] at hrun
    cases hrun
    exact ⟨fun _ hboth => hhit hboth.1, fun _ => hr⟩

/-- A sweep changes a slot when it is its turn. -/
theorem SweepOutcome.others {k i : Nat} {b : Bool} (ho : SweepOutcome b i s s') (hki : k ≠ i) :
    s'.procs.procs[k]? = s.procs.procs[k]? := by
  cases ho with
  | idle => rfl
  | aged => rfl
  | sent => exact List.getElem?_set_ne (Ne.symm hki)
  | dropped => exact List.getElem?_set_ne (Ne.symm hki)

/-- **`surv_check_proc_vitals`** and one entry. -/
theorem checkVitals_entry (h : s.Invariant hand openHand) {gone : Nat → Bool} {k : Nat}
    {r : ExecRef} {c : ExecCall} (hocc : Occupied s k r c)
    (hrun : survCheckProcVitals gone s = .ok s') :
    s'.procs.procs[k]? = some (.proc r) ↔
      ¬ (gone k = true ∧ (c.tracked = true ∨ 2 < c.deadness)) := by
  have hlt := h.sound.table.sane.lt hocc.1
  replace hlt : (k : Int) < s.procs.size := hlt
  unfold survCheckProcVitals at hrun
  rw [if_neg (by omega)] at hrun
  have hbody : ∀ i < s.procs.size.toNat, ∀ s' hand', (s'.ledger hand' openHand).Sound →
      Meets (Tolerated True) (checkSlot gone s' i) (SweepOutcome (gone (0 + i)) (0 + i) s') := by
    intro i _ s' hand' hs'
    rw [Nat.zero_add]
    exact checkSlot_meets hs' gone i
  -- up to its turn the entry is what it was; from then on the slot says what the check decided
  have hboth := sweep_keeps gone (Q := fun i s1 => (i ≤ k → Occupied s1 k r c)
      ∧ (k < i → (s1.procs.procs[k]? = some (.proc r) ↔
        ¬ (gone k = true ∧ (c.tracked = true ∨ 2 < c.deadness))))) h hbody ?_
    ⟨fun _ => hocc, fun hk => absurd hk (Nat.not_lt_zero k)⟩ hrun
  · exact hboth.2 (by omega)
  · intro i _ s1 s2 hand' hs1 hstep hq
    rcases Nat.lt_trichotomy i k with hik | hik | hik
    · exact ⟨fun _ => checkSlot_other hs1 (Nat.ne_of_lt hik) hstep (hq.1 (Nat.le_of_lt hik)),
        fun hki => by omega⟩
    · subst hik
      exact ⟨fun hki => by omega, fun _ => checkSlot_self hs1 hstep (hq.1 (Nat.le_refl _))⟩
    · refine ⟨fun hki => by omega, fun _ => ?_⟩
      have hmeets : Meets (Tolerated True) (checkSlot gone s1 i) (SweepOutcome (gone i) i s1) :=
        checkSlot_meets hs1 gone i
      rw [(hmeets.post hstep).others (Nat.ne_of_lt hik)]
      exact hq.2 hik

/-- **`surv_flush_procindex`** leaves no entry of a pid. -/
theorem flush_entry (h : s.Invariant hand openHand) {k : Nat} {r : ExecRef} (hk : 0 < k)
    (hr : s.procs.procs[k]? = some (.proc r)) (hrun : survFlushProcindex s = .ok s') :
    s'.procs.procs[k]? ≠ some (.proc r) := by
  have hlt := h.sound.table.sane.lt hr
  replace hlt : (k : Int) < s.procs.size := hlt
  unfold survFlushProcindex at hrun
  rw [if_neg (by omega)] at hrun
  have hbody : ∀ i < (s.procs.size - 1).toNat, ∀ s' hand', (s'.ledger hand' openHand).Sound →
      Meets (Tolerated True) (flushPid s' i) (SweepOutcome true (1 + i) s') := by
    intro i _ s' hand' hs'
    rw [Nat.add_comm]
    exact flushPid_meets hs' i
  have hgone := sweep_keeps (fun _ => true)
      (Q := fun i s1 => k ≤ i → s1.procs.procs[k]? ≠ some (.proc r)) h hbody ?_
    (fun hk0 => by omega) hrun
  · exact hgone (by omega)
  · intro i hi s1 s2 hand' hs1 hstep hq hki
    by_cases hik : k = i + 1
    · -- its own turn: `procindex_retrieve` empties the slot
      unfold flushPid at hstep
      obtain ⟨q, hq1, hstep⟩ := bind_ok hstep
      have hmeets : Meets (Tolerated True) (procindexRetrieve s1.procs i)
          (RetrieveOutcome s1.procs i) := procindexRetrieve_meets hs1.table.sane i
      have hprocs : s2.procs = q.2 := by
        cases hq2 : q.1 with
        | none =>
            simp only [hq2] at hstep
            cases hstep
            rfl
        | some x =>
            simp only [hq2] at hstep
            obtain ⟨d, -, hstep⟩ := bind_ok hstep
            split at hstep
            · cases hstep
              rfl
            · obtain ⟨heap, -, hstep⟩ := bind_ok hstep
              cases hstep
              rfl
      rw [hprocs]
      cases hmeets.post hq1 with
      | @found j x hj hx =>
          intro hr'
          exact (Procindex.withSlot_null.mp hr').1 (by omega)
      | @absent j hj hnone =>
          rw [show k = j by omega]
          exact hnone r
    · rw [((hbody i hi s1 hand' hs1).post hstep).others (by omega)]
      exact hq (by omega)

end Sweeps

/-! ## §3. One operation and one entry. -/

section Entry

variable {s s' : Surveiller} {hand : List ExecRef} {openHand : List OpenRef}

/-- `procindex_opencall_add` puts nothing but a new dummy into the table. -/
theorem opencallAdd_newcomer {alloc : OpencallAlloc} {h : Heap} {t : Procindex} {o : OpenRef}
    {p : Int × Heap × Procindex} (hsane : t.Sane)
    (hrun : procindexOpencallAdd alloc h t o = .ok p) {k : Nat} {r : ExecRef}
    (hr : p.2.2.procs[k]? = some (.proc r)) :
    t.procs[k]? = some (.proc r) ∨ r = h.nextExec := by
  unfold procindexOpencallAdd at hrun
  obtain ⟨oc, -, hrun⟩ := bind_ok hrun
  dsimp only at hrun
  split at hrun
  · cases hrun
    exact .inl hr
  next hin =>
    obtain ⟨⟨ready, t'⟩, hgrow, hrun⟩ := bind_ok hrun
    have hmeets : Meets (Tolerated True) (openGrow alloc.grow oc.pid.toInt growRounds t)
        (fun p => Grown alloc.grow oc.pid.toInt t p.1 p.2) := openGrow_grown hsane (by omega)
    have hgrown := hmeets.post hgrow
    have hold : t'.procs[k]? = some (.proc r) → t.procs[k]? = some (.proc r) ∨ r = h.nextExec :=
      fun hk => .inl (hgrown.grows.proc hk)
    cases ready with
    | false =>
        cases hrun
        exact hold hr
    | true =>
      obtain ⟨entry, -, hrun⟩ := bind_ok hrun
      cases entry with
      | some target =>
          obtain ⟨grown, -, hrun⟩ := bind_ok hrun
          cases grown with
          | none =>
              cases hrun
              exact hold hr
          | some h' =>
              obtain ⟨h'', -, hrun⟩ := bind_ok hrun
              cases hrun
              exact hold hr
      | none =>
          obtain ⟨dummy, hdummy, hrun⟩ := bind_ok hrun
          cases dummy with
          | none =>
              cases hrun
              exact hold hr
          | some q =>
              obtain ⟨h', t''⟩ := q
              have htable : p.2.2 = t'' := by
                obtain ⟨pid1, -, hrun⟩ := bind_ok hrun
                obtain ⟨x, -, hrun⟩ := bind_ok hrun
                cases x with
                | none => cases hrun
                | some target =>
                    obtain ⟨h'', -, hrun⟩ := bind_ok hrun
                    cases hrun
                    rfl
              rw [htable] at hr
              -- the table is what `procindex_add` of the dummy leaves
              unfold addDummy at hdummy
              split at hdummy
              · cases hdummy
              split at hdummy
              · obtain ⟨q, hq, hdummy⟩ := bind_ok hdummy
                cases hdummy
                have hadd : Meets (Tolerated True) (procindexAdd alloc.add _ t' h.nextExec)
                    (AddOutcome alloc.add (h.mallocExec true (dummyCall oc)) t' h.nextExec
                      (dummyCall oc)) :=
                  procindexAdd_meets (Function.update_self _ _ _) hgrown.sane fun _ => trivial
                rcases (hadd.post hq).entry_or_call hr with hnew | hmem
                · exact .inr hnew
                · exact hold hmem
              · cases hdummy

/-- What comes into the index has a new address. -/
structure Newcomers (s s' : Surveiller) : Prop where
  next : s.heap.nextExec ≤ s'.heap.nextExec
  entries : ∀ (k : Nat) (r : ExecRef), s'.procs.procs[k]? = some (.proc r) →
    s.procs.procs[k]? = some (.proc r) ∨ s.heap.nextExec ≤ r

theorem applyOp_newcomers (h : s.Invariant hand openHand) {op : Op}
    (hstep : applyOp s op = .ok s') : Newcomers s s' := by
  cases applyOp_done h hstep with
  | @addExecCall granted again e p ho =>
      have h1 := h.newExec e
      obtain ⟨hand', -, hworks, -⟩ := ho.invariant h1 List.mem_cons_self (Function.update_self _ _ _)
      refine ⟨Nat.le_of_succ_le (hworks.next_le h1.sound), fun k r hr => ?_⟩
      cases ho with
      | direct hadd _ =>
          rcases hadd.entry_or_call hr with hnew | hold
          · exact .inr (Nat.le_of_eq hnew.symm)
          · exact .inl hold
      | replaced _ hg _ hown hadd =>
          -- the second try runs on the table without the old entry
          rcases hadd.entry_or_call hr with hnew | hold
          · exact .inr (Nat.le_of_eq hnew.symm)
          · exact .inl (hg.grows.proc (Procindex.withSlot_null.mp hold).2)
  | @add granted e p hp =>
      have hworks := hp.works (l := (s.newExec e).ledger (s.heap.nextExec :: hand) openHand)
        List.mem_cons_self (Function.update_self _ _ _)
      refine ⟨Nat.le_of_succ_le (hworks.next_le (h.newExec e).sound), fun k r hr => ?_⟩
      rcases hp.entry_or_call hr with hnew | hold
      · exact .inr (Nat.le_of_eq hnew.symm)
      · exact .inl hold
  | @opencallAdd alloc o p hrun hp =>
      have h1 := h.newOpen o
      obtain ⟨hand', openHand', -, -, hworks, -⟩ := hp.invariant h1
      refine ⟨hworks.next_le h1.sound, fun k r hr => ?_⟩
      rcases opencallAdd_newcomer h1.sound.table.sane hrun hr with hold | hnew
      · exact .inl hold
      · exact .inr (Nat.le_of_eq hnew.symm)
  | retrieve hp =>
      refine ⟨Nat.le_refl _, fun k r hr => .inl ?_⟩
      cases hp with
      | absent => exact hr
      | found _ hx => exact (Procindex.withSlot_null.mp hr).2
  | checkVitals hswept | flush hswept =>
      obtain ⟨hand', -, hworks⟩ := hswept.working
      exact ⟨hworks.next_le h.sound, fun k r hr => .inl (hswept.entries k r hr).1⟩
  | dispatch hbatch =>
      obtain ⟨hand', -, hworks, -⟩ := hbatch.invariant
      refine ⟨hworks.next_le h.sound, fun k r hr => .inl ?_⟩
      rw [hbatch.only.procs] at hr
      exact hr

/-- **How long an entry stays**: until a death check, the flush, or `procindex_retrieve` takes it out,
or another exec of its pid. -/
theorem applyOp_entry (h : s.Invariant hand openHand) {op : Op} {pid : Int32} {k : Nat} {r : ExecRef}
    (hk : pid.toInt + 1 = k) (hpos : 0 ≤ pid.toInt) (hr : s.procs.procs[k]? = some (.proc r))
    (hother : ∀ e, op.event = some e → e.pid ≠ pid) (hstep : applyOp s op = .ok s') :
    s'.procs.procs[k]? = some (.proc r) ↔ ¬ op.Removes s pid := by
  have hkn : (pid.toInt + 1).toNat = k := by omega
  have hstays : ∀ {P : Prop}, P → ¬ op.Removes s pid → (P ↔ ¬ op.Removes s pid) :=
    fun hp hnot => ⟨fun _ => hnot, fun _ => hp⟩
  cases applyOp_done h hstep with
  | @addExecCall granted again e p ho =>
      apply hstays ?_ id
      cases ho with
      | direct hadd _ => exact hadd.keeps.entries k r hr
      | @replaced t j own q _ hg hj hown hadd =>
          -- the slot that was emptied is the one of the exec's own pid
          replace hj : e.pid.toInt + 1 = j := hj
          refine hadd.keeps.entries k r (Procindex.withSlot_null.mpr ⟨fun hkj => ?_, hg.grows.get hr⟩)
          exact hother e rfl (Int32.toInt_inj.mp (by omega))
  | add hp => exact hstays (hp.keeps.entries k r hr) id
  | opencallAdd _ hp => exact hstays (hp.keeps.entries k r hr) id
  | @retrieve p q hq =>
      have hsame : (Op.retrieve p).Removes s pid ↔ p.toInt = pid.toInt := Int32.toInt_inj.symm
      rw [hsame]
      cases hq with
      | @absent j hj hnone =>
          refine ⟨fun _ heq => hnone r ?_, fun _ => hr⟩
          rw [show j = k by omega]
          exact hr
      | @found j x hj hx =>
          show (s.procs.withSlot j .null).procs[k]? = _ ↔ _
          rw [Procindex.withSlot_null]
          exact ⟨fun hboth heq => hboth.1 (by omega), fun hne => ⟨fun hkj => hne (by omega), hr⟩⟩
  | checkVitals =>
      obtain ⟨c, hc, -⟩ := h.sound.entry_live hr
      replace hc : s.heap.execs r = some c := hc
      rw [checkVitals_entry h ⟨hr, hc⟩ hstep]
      apply not_congr
      unfold Op.Removes
      rw [hkn]
      have hat : s.procs.callAt k = some r := Procindex.callAt_eq_some.mpr hr
      constructor
      · intro hgone
        exact ⟨hgone.1, r, c, hat, hc, hgone.2⟩
      · intro hgone
        obtain ⟨hhit, r', c', hat', hc', hwhy⟩ := hgone
        rw [hat] at hat'
        cases hat'
        rw [hc] at hc'
        cases hc'
        exact ⟨hhit, hwhy⟩
  | flush =>
      have hgone := flush_entry h (by omega) hr hstep
      exact ⟨fun hk' => absurd hk' hgone, fun hnot => absurd trivial hnot⟩
  | dispatch hbatch =>
      rw [hbatch.only.procs]
      exact hstays hr id

/-- The larger buffer is granted to `r`, if it needs one for another open call. -/
def BufferGranted (alloc : OpencallAlloc) (s : Surveiller) (r : ExecRef) : Prop :=
  ∀ c, s.heap.execs r = some c → c.callNum + 2 = c.callBuffSize → alloc.callBuff = true

/-- `procindex_opencall_add` reports success, or has left the objects alone. -/
theorem opencallAdd_ret {alloc : OpencallAlloc} {h : Heap} {t : Procindex} {o : OpenRef}
    {p : Int × Heap × Procindex} (hrun : procindexOpencallAdd alloc h t o = .ok p) :
    p.1 = NOMINAL ∨ p.2.1 = h := by
  unfold procindexOpencallAdd at hrun
  obtain ⟨oc, -, hrun⟩ := bind_ok hrun
  dsimp only at hrun
  split at hrun
  · cases hrun
    exact .inr rfl
  obtain ⟨⟨ready, t'⟩, -, hrun⟩ := bind_ok hrun
  cases ready with
  | false =>
      cases hrun
      exact .inr rfl
  | true =>
    obtain ⟨entry, -, hrun⟩ := bind_ok hrun
    cases entry with
    | some target =>
        obtain ⟨grown, -, hrun⟩ := bind_ok hrun
        cases grown with
        | none =>
            cases hrun
            exact .inr rfl
        | some h' =>
            obtain ⟨h'', -, hrun⟩ := bind_ok hrun
            cases hrun
            exact .inl rfl
    | none =>
        obtain ⟨dummy, -, hrun⟩ := bind_ok hrun
        cases dummy with
        | none =>
            cases hrun
            exact .inr rfl
        | some q =>
            obtain ⟨h', t''⟩ := q
            obtain ⟨pid1, -, hrun⟩ := bind_ok hrun
            obtain ⟨x, -, hrun⟩ := bind_ok hrun
            cases x with
            | none => cases hrun
            | some target =>
                obtain ⟨h'', -, hrun⟩ := bind_ok hrun
                cases hrun
                exact .inl rfl

/-- With an entry for the pid, it succeeds iff a larger buffer is granted when it is needed. -/
theorem opencallAdd_nominal {alloc : OpencallAlloc} {h : Heap} {t : Procindex} {o : OpenRef}
    {oc : OpenCall} {r : ExecRef} {c : ExecCall} {k : Nat} {p : Int × Heap × Procindex}
    (hsane : t.Sane) (hoc : h.opens o = some oc) (hin : t.InRange oc.pid)
    (hk : oc.pid.toInt + 1 = k) (hr : t.procs[k]? = some (.proc r)) (hc : h.execs r = some c)
    (hrun : procindexOpencallAdd alloc h t o = .ok p) :
    p.1 = NOMINAL ↔ (c.callNum + 2 = c.callBuffSize → alloc.callBuff = true) := by
  have hlt := hsane.lt hr
  unfold procindexOpencallAdd at hrun
  rw [Heap.openCall_some hoc, ok_bind] at hrun
  have hnot : ¬ (oc.pid.toInt < 0 ∨ t.maxPid < oc.pid.toInt) := by
    have h0 := hin.1
    have h1 := hin.2
    omega
  dsimp only at hrun
  rw [if_neg hnot] at hrun
  obtain ⟨⟨ready, t'⟩, hgrow, hrun⟩ := bind_ok hrun
  have hmeets : Meets (Tolerated True) (openGrow alloc.grow oc.pid.toInt growRounds t)
      (fun p => Grown alloc.grow oc.pid.toInt t p.1 p.2) := openGrow_grown hsane hin.2
  have hgrown := hmeets.post hgrow
  cases ready with
  | false =>
      -- there is a slot for the pid already, so the loop asks for nothing
      have hsmall := hgrown.refused rfl
      omega
  | true =>
    obtain ⟨entry, hentry, hrun⟩ := bind_ok hrun
    have hread : Meets (Tolerated True) (t'.entry oc.pid.toInt) (fun o => ∃ k : Nat,
        oc.pid.toInt + 1 = k ∧ ∀ r, t'.procs[k]? = some (.proc r) ↔ o = some r) :=
      Procindex.entry_meets hgrown.sane oc.pid.toInt
    obtain ⟨j, hj, hall⟩ := hread.post hentry
    have htarget : entry = some r := by
      apply (hall r).mp
      rw [show j = k by omega]
      exact hgrown.grows.get hr
    rw [htarget] at hrun
    obtain ⟨grown, hgrow', hrun⟩ := bind_ok hrun
    unfold growCallBuff at hgrow'
    rw [Heap.exec_some hc, ok_bind] at hgrow'
    obtain ⟨n, hn, hgrow'⟩ := bind_ok hgrow'
    obtain ⟨rfl, -, -⟩ := toInt_eq_ok.mp hn
    by_cases hfull : c.callNum + 2 = c.callBuffSize
    · rw [if_pos (by exact_mod_cast hfull)] at hgrow'
      cases hg : alloc.callBuff with
      | false =>
          rw [hg] at hgrow'
          cases hgrow'
          cases hrun
          simp [hfull, NOMINAL, MEMORY_ALLOCATION_ERROR]
      | true =>
          rw [hg] at hgrow'
          cases hgrow'
          obtain ⟨h', -, hrun⟩ := bind_ok hrun
          cases hrun
          simp
    · rw [if_neg (by exact_mod_cast hfull)] at hgrow'
      cases hgrow'
      obtain ⟨h', -, hrun⟩ := bind_ok hrun
      cases hrun
      simp [hfull]

/-- **An open call is attached to `r`** iff `r` is the entry of its pid and has a place for it. -/
theorem opencall_attached_iff (h : s.Invariant hand openHand) {alloc : OpencallAlloc} {o : OpenEvent}
    {k : Nat} {r : ExecRef} (hin : s.procs.InRange o.call.pid) (hk : o.call.pid.toInt + 1 = k)
    (hlt : r < s.heap.nextExec) (hstep : applyOp s (.opencallAdd alloc o) = .ok s') :
    s'.heap.attached = s.heap.attached ++ [(r, s.heap.nextOpen)] ↔
      s.procs.procs[k]? = some (.proc r) ∧ BufferGranted alloc s r := by
  have hnew := applyOp_newcomers h hstep
  have hoc : (s.newOpen o).heap.opens s.heap.nextOpen = some o.call := Function.update_self _ _ _
  cases applyOp_done h hstep with
  | @opencallAdd _ _ q hrun hq =>
      have hnominal : s.procs.procs[k]? = some (.proc r) →
          (q.1 = NOMINAL ↔ BufferGranted alloc s r) := by
        intro hr
        obtain ⟨c, hc, -⟩ := h.sound.entry_live hr
        replace hc : s.heap.execs r = some c := hc
        rw [opencallAdd_nominal (h.newOpen o).sound.table.sane hoc hin hk hr hc hrun]
        unfold BufferGranted
        constructor
        · intro hgranted c' hc'
          rw [hc] at hc'
          cases hc'
          exact hgranted
        · intro hgranted
          exact hgranted c hc
      have hattached : q.1 = NOMINAL → ∃ r', q.2.2.procs[k]? = some (.proc r')
          ∧ q.2.1.attached = s.heap.attached ++ [(r', s.heap.nextOpen)] := by
        intro hok
        obtain ⟨j, r', hj, hr', hatt⟩ := hq.attached hok
        rw [show j = k by omega] at hr'
        exact ⟨r', hr', hatt⟩
      constructor
      · intro hatt
        replace hatt : q.2.1.attached = s.heap.attached ++ [(r, s.heap.nextOpen)] := hatt
        -- a failure attaches nothing, and the log has one pair more
        have hok : q.1 = NOMINAL := by
          rcases opencallAdd_ret hrun with hok | hsame
          · exact hok
          · rw [hsame] at hatt
            have hlen := congrArg List.length hatt
            rw [List.length_append, List.length_singleton] at hlen
            replace hlen : s.heap.attached.length = s.heap.attached.length + 1 := hlen
            omega
        obtain ⟨r', hr', hatt'⟩ := hattached hok
        rw [hatt] at hatt'
        have hsame := List.append_cancel_left hatt'
        obtain ⟨rfl, -⟩ := Prod.mk.inj (List.singleton_inj.mp hsame)
        -- `r` was there before the operation: it is no dummy of this one
        have hold : s.procs.procs[k]? = some (.proc r) := by
          rcases hnew.entries k r hr' with hold | hle
          · exact hold
          · exact absurd hle (Nat.not_le.mpr hlt)
        exact ⟨hold, (hnominal hold).mp hok⟩
      · intro hboth
        obtain ⟨hr, hgranted⟩ := hboth
        obtain ⟨r', hr', hatt⟩ := hattached ((hnominal hr).mpr hgranted)
        have hkept := hq.keeps.entries k r hr
        rw [hr'] at hkept
        cases hkept
        exact hatt

end Entry

/-! ## §4. Runs. -/

section Run

variable {getMaxPID ownPID : Int} {bootTime : UInt32} {s0 s s' : Surveiller} {ops : List Op}
  {pid : Int32} {k : Nat} {r : ExecRef}

/-- Every operation that a run does, keeps the invariant and the pids it accepts. -/
theorem runOps_invariant {ops : List Op} {s s' : Surveiller}
    (hinv : ∃ hand openHand, s.Invariant hand openHand) (h : runOps s ops = .ok s') :
    (∃ hand openHand, s'.Invariant hand openHand) ∧ s'.procs.maxPid = s.procs.maxPid
      ∧ s.heap.nextExec ≤ s'.heap.nextExec
      ∧ ∀ (k : Nat) (r : ExecRef), s'.procs.procs[k]? = some (.proc r) →
          s.procs.procs[k]? = some (.proc r) ∨ s.heap.nextExec ≤ r := by
  refine run_induction
    (P := fun _ s' => (∃ hand openHand, s'.Invariant hand openHand)
      ∧ s'.procs.maxPid = s.procs.maxPid ∧ s.heap.nextExec ≤ s'.heap.nextExec
      ∧ ∀ (k : Nat) (r : ExecRef), s'.procs.procs[k]? = some (.proc r) →
          s.procs.procs[k]? = some (.proc r) ∨ s.heap.nextExec ≤ r)
    ⟨hinv, rfl, Nat.le_refl _, fun _ _ hr => .inl hr⟩ ?_ h
  intro ops op m s' _ hm hop
  obtain ⟨⟨hand, openHand, hinv'⟩, hmax, hnext, hentries⟩ := hm
  have hstep := (applyOp_meets hinv' op).post hop
  have hnew := applyOp_newcomers hinv' hop
  refine ⟨hstep.invariant, hstep.maxPid.trans hmax, Nat.le_trans hnext hnew.next, fun k r hr => ?_⟩
  rcases hnew.entries k r hr with hold | hle
  · exact hentries k r hold
  · exact .inr (Nat.le_trans hnext hle)

/-- No operation of the run takes the entry of `pid` out. -/
def Undisturbed (s : Surveiller) (pid : Int32) (ops : List Op) : Prop :=
  ∀ pre op post s', ops = pre ++ op :: post → runOps s pre = .ok s' → ¬ op.Removes s' pid

/-- **How long an entry stays in a run** without another exec of its pid. -/
theorem runOps_entry (hk : pid.toInt + 1 = k) (hpos : 0 ≤ pid.toInt) :
    ∀ {ops : List Op} {s s' : Surveiller}, (∃ hand openHand, s.Invariant hand openHand) →
      (∀ op ∈ ops, ∀ e, op.event = some e → e.pid ≠ pid) → runOps s ops = .ok s' →
      s.procs.procs[k]? = some (.proc r) →
      (s'.procs.procs[k]? = some (.proc r) ↔ Undisturbed s pid ops) := by
  intro ops
  -- the first operation may end it; an entry that is gone does not come back
  induction ops with
  | nil =>
      intro s s' _ _ h hr
      rw [runOps, run_nil] at h
      subst h
      refine ⟨fun _ pre op post s' hops => ?_, fun _ => hr⟩
      have hlen := congrArg List.length hops
      rw [List.length_append, List.length_cons, List.length_nil] at hlen
      omega
  | cons op ops ih =>
      intro s s' hinv hother h hr
      rw [runOps, run_cons] at h
      obtain ⟨m, hm, h⟩ := h
      obtain ⟨hand, openHand, hinv⟩ := hinv
      have hstep := (applyOp_meets hinv op).post hm
      have hfirst := applyOp_entry hinv hk hpos hr (hother op (List.mem_cons_self)) hm
      have hrest : ∀ x ∈ ops, ∀ e, x.event = some e → e.pid ≠ pid :=
        fun x hx => hother x (List.mem_cons_of_mem _ hx)
      have hlt : r < s.heap.nextExec := by
        have hentry := List.count_pos_iff.mpr (Procindex.mem_entries.mpr ⟨k, hr⟩)
        apply hinv.sound.known
        unfold Ledger.tally Surveiller.ledger
        dsimp only
        omega
      constructor
      · intro hlast pre x post n hops hpre
        have hnow : m.procs.procs[k]? = some (.proc r) := by
          obtain ⟨-, -, -, hentries⟩ := runOps_invariant hstep.invariant h
          rcases hentries k r hlast with hnow | hle
          · exact hnow
          · have hnext := (applyOp_newcomers hinv hm).next
            exact absurd (Nat.le_trans hnext hle) (Nat.not_le.mpr hlt)
        cases pre with
        | nil =>
            rw [runOps, run_nil] at hpre
            subst hpre
            obtain ⟨rfl, -⟩ := List.cons.inj hops
            exact hfirst.mp hnow
        | cons y pre =>
            obtain ⟨rfl, htail⟩ := List.cons.inj hops
            rw [runOps, run_cons] at hpre
            obtain ⟨m', hm', hpre⟩ := hpre
            have hsame : m = m' := Except.ok.inj (hm.symm.trans hm')
            subst hsame
            exact (ih hstep.invariant hrest h hnow).mp hlast pre x post n htail hpre
      · intro hquiet
        have hnow := hfirst.mpr (hquiet [] op ops s rfl (run_nil.mpr rfl))
        apply (ih hstep.invariant hrest h hnow).mpr
        intro pre x post n hops hpre
        exact hquiet (op :: pre) x post n (by rw [hops]; rfl) (run_cons.mpr ⟨m, hm, hpre⟩)

/-- After `pre` an exec `e` is handed over by `op`: its pid is one the index accepts, the slots it
needs exist, and the dispatch queue has a free place. -/
structure HandedAt (s0 : Surveiller) (pre : List Op) (op : Op) (e : ExecEvent) (s : Surveiller) :
    Prop where
  reached : runOps s0 pre = .ok s
  event : op.event = some e
  inRange : s.procs.InRange e.pid
  room : s.dispatchQueue.held.length < 1024
  slots : SlotsExist op.growth s.procs e.call

/-- Among what follows is an open call of the same pid, and no exec of that pid is handed over before
it. -/
structure LaterOpen (s : Surveiller) (op : Op) (e : ExecEvent) (post mid : List Op)
    (alloc : OpencallAlloc) (o : OpenEvent) (m m' : Surveiller) : Prop where
  split : ∃ rest, post = mid ++ .opencallAdd alloc o :: rest
  pid : o.call.pid = e.pid
  last : ∀ x ∈ mid, ∀ e', x.event = some e' → e'.pid ≠ e.pid
  before : runOps s (op :: mid) = .ok m
  after : applyOp m (.opencallAdd alloc o) = .ok m'

/-- Every exec that a run hands over takes effect, and every later open call of its pid is attached to
it. -/
def ExecsTakeEffect (s0 : Surveiller) (ops : List Op) : Prop :=
  ∀ pre op post s e, ops = pre ++ op :: post → HandedAt s0 pre op e s →
    (∃ s', applyOp s op = .ok s' ∧ TookEffect s e s')
      ∧ ∀ mid alloc o m m', LaterOpen s op e post mid alloc o m m' →
        m'.heap.attached = m.heap.attached ++ [(s.heap.nextExec, m.heap.nextOpen)]

/-- Every exec has what it needs, and until a later open call nothing takes its entry out. -/
def ExecsUndisturbed (s0 : Surveiller) (ops : List Op) : Prop :=
  ∀ pre op post s e, ops = pre ++ op :: post → HandedAt s0 pre op e s →
    TakesEffect s op e
      ∧ ∀ mid alloc o m m' s', LaterOpen s op e post mid alloc o m m' → applyOp s op = .ok s' →
        Undisturbed s' e.pid mid ∧ BufferGranted alloc m s.heap.nextExec

/-- **An exec event takes effect**, and gets the later open calls of its pid, iff the branch that takes
it can make room for it, the code finds no parent, and nothing takes the entry out in between. -/
theorem exec_handed_iff (h0 : survInit getMaxPID ownPID bootTime = .ok (some s0)) :
    ExecsTakeEffect s0 ops ↔ ExecsUndisturbed s0 ops := by
  refine forall_congr' fun pre => forall_congr' fun op => forall_congr' fun post =>
    forall_congr' fun s => forall_congr' fun e => forall_congr' fun _ => forall_congr' fun hat => ?_
  obtain ⟨hand, openHand, hinv⟩ := (runOps_ran h0 hat.reached).invariant
  have hstep := handled_iff hinv hat.event hat.inRange hat.room hat.slots
  rw [hstep]
  -- given that the exec has taken effect, the later open calls are decided by its entry
  refine and_congr_right fun heffect => ?_
  obtain ⟨s', happly, htook⟩ := hstep.mpr heffect
  have hpos := hat.inRange.1
  have hk : e.pid.toInt + 1 = (e.slot : Int) := by
    unfold ExecEvent.slot
    omega
  have hentry : s'.procs.procs[e.slot]? = some (.proc s.heap.nextExec) :=
    Procindex.callAt_eq_some.mp htook.entry
  have hstepped := (applyOp_meets hinv op).post happly
  have hlater : ∀ mid alloc o m m', LaterOpen s op e post mid alloc o m m' →
      (m'.heap.attached = m.heap.attached ++ [(s.heap.nextExec, m.heap.nextOpen)] ↔
        Undisturbed s' e.pid mid ∧ BufferGranted alloc m s.heap.nextExec) := by
    intro mid alloc o m m' hlater
    have hrun := hlater.before
    rw [runOps, run_cons] at hrun
    obtain ⟨s1, hs1, hrun⟩ := hrun
    have hsame : s' = s1 := Except.ok.inj (happly.symm.trans hs1)
    subst hsame
    obtain ⟨⟨hand', openHand', hinv'⟩, hmax, hnext, -⟩ := runOps_invariant hstepped.invariant hrun
    have hin : m.procs.InRange o.call.pid := by
      rw [hlater.pid]
      refine ⟨hpos, ?_⟩
      rw [hmax, hstepped.maxPid]
      exact hat.inRange.2
    have hlt : s.heap.nextExec < m.heap.nextExec := by
      obtain ⟨hand1, openHand1, hinv1⟩ := hstepped.invariant
      obtain ⟨c, hc, -⟩ := hinv1.sound.entry_live hentry
      have hlive : ¬ s'.heap.nextExec ≤ s.heap.nextExec := fun hle =>
        Option.some_ne_none c (hc.symm.trans ((hinv1.sound.objects.execs _).mpr (.inl hle)))
      exact Nat.lt_of_lt_of_le (Nat.not_le.mp hlive) hnext
    rw [opencall_attached_iff hinv' hin (by rw [hlater.pid]; exact hk) hlt hlater.after,
      runOps_entry hk hpos hstepped.invariant hlater.last hrun hentry]
  constructor
  · intro hall mid alloc o m m' s1 hl hs1
    have hsame : s' = s1 := Except.ok.inj (happly.symm.trans hs1)
    subst hsame
    exact (hlater mid alloc o m m' hl).mp (hall mid alloc o m m' hl)
  · intro hall mid alloc o m m' hl
    exact (hlater mid alloc o m m' hl).mpr (hall mid alloc o m m' s' hl happly)

end Run

end Reexec

/-- Two execs of pid 1 through the branch that merges, and an open call. -/
theorem exec_handed_sample :
    ∃ s0, survInit 10 1 0 = .ok (some s0)
      ∧ (ExecsTakeEffect s0 [reexec, reexec, .opencallAdd .granting (.blank 1 ⟨2, 0⟩)]
        ↔ ExecsUndisturbed s0 [reexec, reexec, .opencallAdd .granting (.blank 1 ⟨2, 0⟩)]) := by
  have h0 : survInit 10 1 0 = .ok (some (.initial ⟨List.replicate 4 .null, 4, 10⟩ 0)) := by rfl
  exact ⟨_, h0, exec_handed_iff h0⟩

/-- **Two execs of pid 1 through the plain branch**: the second is dropped. -/
theorem second_exec_dropped :
    ∃ s0, survInit 10 1 0 = .ok (some s0)
      ∧ ¬ ExecsTakeEffect s0 [.add (fun _ => true) (.blank 1 9 ⟨1, 0⟩),
          .add (fun _ => true) (.blank 1 9 ⟨2, 0⟩)] := by
  have h0 : survInit 10 1 0 = .ok (some (.initial ⟨List.replicate 4 .null, 4, 10⟩ 0)) := by rfl
  refine ⟨_, h0, fun heffect => ?_⟩
  obtain ⟨s, hfirst, hprocs, hqueue⟩ :
      ∃ s, runOps (.initial ⟨List.replicate 4 .null, 4, 10⟩ 0)
          [.add (fun _ => true) (.blank 1 9 ⟨1, 0⟩)] = .ok s
        ∧ s.procs = crowdedTable 0 ∧ s.dispatchQueue.held = [] := ⟨_, by rfl, by rfl, by rfl⟩
  have hat : HandedAt (.initial ⟨List.replicate 4 .null, 4, 10⟩ 0)
      [.add (fun _ => true) (.blank 1 9 ⟨1, 0⟩)] (.add (fun _ => true) (.blank 1 9 ⟨2, 0⟩))
      (.blank 1 9 ⟨2, 0⟩) s := by
    refine ⟨hfirst, rfl, ?_, ?_, ?_, fun n hn => ?_⟩
    · rw [hprocs]
      show 0 ≤ (1 : Int32).toInt ∧ (1 : Int32).toInt ≤ 10
      decide
    · rw [hqueue]
      decide
    · rw [hprocs]
      exact crowdedTable_wf 0
    · rw [hprocs] at hn
      have hfour : (crowdedTable 0).growsTo (fun _ => true) 1 = .ok (some 4) := by rfl
      replace hn : (crowdedTable 0).growsTo (fun _ => true) 1 = .ok (some n) := hn
      rw [hfour] at hn
      cases hn
      show (0 ≤ (1 : Int) + 1 ∧ (1 : Int) + 1 < 4) ∧ (0 ≤ (9 : Int) + 1 ∧ (9 : Int) + 1 ≠ 4)
        ∧ (9 : Int) < 2147483647
      decide
  obtain ⟨htook, -⟩ := heffect _ _ [] s _ rfl hat
  obtain ⟨hand, openHand, hinv⟩ := (runOps_ran h0 hfirst).invariant
  have hcond := (handled_iff hinv hat.event hat.inRange hat.room hat.slots).mp htook
  -- the plain branch does not make room
  apply hcond.branch.resolve_left id
  rw [hprocs]
  exact ⟨2, 0, by decide, rfl⟩


end DirSurveiller
