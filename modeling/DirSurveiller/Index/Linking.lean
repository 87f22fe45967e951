/-
  DirSurveiller.Index.Linking — a new entry of the index and its parent.

  `Linked` says what storing a call should leave: the call is in its slot, no other entry and no
  other object has changed, and the call notes the time stamp of its parent if the parent is an
  entry, or the parent 0 if it is not.

  Main result:
    * `procindexAdd_linked_iff` — `procindex_add` does so exactly if there is no entry for the
      parent, and the same is true of the dummy of `procindex_opencall_add`.
-/
import DirSurveiller.Index.Progress

namespace DirSurveiller

open CMachine Outcome

/-! ## §1. A linked entry. -/

/-- From `h`, `t` to `h'`, `t'` the call, which held `c`, has become the entry of its pid, and its
parent is noted. -/
structure Linked (h : Heap) (t : Procindex) (call : ExecRef) (c : ExecCall) (h' : Heap)
    (t' : Procindex) : Prop where
  stored : t'.callAt (c.pid.toInt + 1).toNat = some call
  others : ∀ k, k ≠ (c.pid.toInt + 1).toNat → t'.callAt k = t.callAt k
  frame : ∀ r, r ≠ call → h'.execs r = h.execs r
  parent : ∃ c', h'.execs call = some c' ∧ c'.identity = c.identity
    ∧ (∀ (k : Nat) p pc, c.ppid.toInt + 1 = k → t.callAt k = some p → h.execs p = some pc →
        c'.ppid = c.ppid ∧ c'.ptimeStamp = pc.timeStamp)
    ∧ (¬ t.Holds c.ppid → c'.ppid = 0 ∧ c'.ptimeStamp = c.ptimeStamp)

/-- The slots of `pid` and of its parent are there once the table has grown, and no `realloc` on
the way is refused. -/
def Fitting (granted : Nat → Bool) (t : Procindex) (pid ppid : Int32) : Prop :=
  ∃ n, t.growsTo granted pid.toInt = .ok (some n) ∧ Procindex.Within n pid.toInt
    ∧ Procindex.Guarded n ppid.toInt ∧ ppid.toInt < 2147483647

section Linking

attribute [local irreducible] toInt

variable {h : Heap} {t : Procindex} {n : Int}

/-- The table with one more entry. -/
theorem stored_others {k : Nat} {r : ExecRef} (hk : k < (t.padded n).procs.length) :
    ((t.padded n).withSlot k (.proc r)).callAt k = some r
      ∧ ∀ j, j ≠ k → ((t.padded n).withSlot k (.proc r)).callAt j = t.callAt j := by
  refine ⟨Procindex.withSlot_callAt_self hk, fun j hj => ?_⟩
  rw [Procindex.withSlot_callAt_ne hj, Procindex.padded_callAt]

/-- What a read of the parent's slot says about the parent. -/
theorem entry_none_iff (hwf : t.Wf) {p : Int32} :
    t.entry p.toInt = .ok none
      ↔ Procindex.Guarded t.size p.toInt ∧ p.toInt < 2147483647 ∧ ¬ t.Holds p := by
  have hsize := hwf.size
  have hlow := p.le_toInt
  have hhigh := p.toInt_lt
  unfold Procindex.Guarded
  cases hint : toInt (p.toInt + 1) with
  | error e =>
      -- `ppid + 1` is no `int` for one pid alone: the read ends there, and no guard is asked
      have hmax : p.toInt = 2147483647 := by
        by_contra hne
        rw [toInt_eq_ok.mpr ⟨rfl, by omega, by omega⟩] at hint
        cases hint
      unfold Procindex.entry
      rw [hint]
      constructor
      · intro he
        cases he
      · rintro ⟨-, hlt, -⟩
        omega
  | ok m =>
      obtain ⟨rfl, -, hsmall⟩ := toInt_eq_ok.mp hint
      rw [hwf.entry_eq hint]
      by_cases hbeyond : t.size < p.toInt + 1
      · rw [if_pos hbeyond]
        -- the guard answers NULL, and a slot behind the end holds nobody
        refine ⟨fun _ => ⟨by omega, by omega, ?_⟩, fun _ => rfl⟩
        rintro ⟨k, r, hk, hr⟩
        have := (List.getElem?_eq_some_iff.mp hr).1
        omega
      · rw [if_neg hbeyond]
        by_cases hslot : Procindex.Within t.size p.toInt
        · rw [if_pos hslot, Except.ok.injEq]
          have h0 := hslot.1
          have h1 := hslot.2
          constructor
          · intro hnone
            refine ⟨by omega, by omega, fun hholds => ?_⟩
            obtain ⟨r, hr⟩ := (Procindex.holds_iff h0).mp hholds
            rw [hnone] at hr
            cases hr
          · rintro ⟨-, -, hfree⟩
            exact Procindex.callAt_of_not_holds h0 hfree
        · -- the guard lets one slot more through than there are
          rw [if_neg hslot]
          unfold Procindex.Within at hslot
          constructor
          · intro he
            cases he
          · rintro ⟨hguard, -, -⟩
            omega

/-- **`procindex_add` with an empty slot.** -/
theorem add_linked_iff {granted : Nat → Bool} {call : ExecRef} {c : ExecCall}
    (hwf : t.Wf) (hc : h.execs call = some c) (hin : t.InRange c.pid) (hfree : ¬ t.Holds c.pid) :
    (∃ h' t', procindexAdd granted h t call = .ok (NOMINAL, h', t') ∧ Linked h t call c h' t')
      ↔ Fitting granted t c.pid c.ppid ∧ ¬ t.Holds c.ppid := by
  obtain ⟨hfails, hrefused⟩ := procindexAdd_not_grown granted hc hwf hin
  unfold Fitting
  cases hg : t.growsTo granted c.pid.toInt with
  | error e =>
      rw [hfails e hg]
      constructor
      · rintro ⟨h', t', he, -⟩
        cases he
      · rintro ⟨⟨n, hn, -⟩, -⟩
        cases hn
  | ok o =>
    cases o with
    | none =>
        obtain ⟨u, hu⟩ := hrefused hg
        rw [hu]
        constructor
        · rintro ⟨h', t', he, -⟩
          cases he
        · rintro ⟨⟨n, hn, -⟩, -⟩
          cases hn
    | some n =>
      have hgrown := hwf.grown hin hg
      by_cases hslot : Procindex.Within n c.pid.toInt
      · -- the own slot is free, so the parent's slot decides: read after the growth, it holds
        -- whom it held before
        have hentry := entry_none_iff hgrown (p := c.ppid)
        replace hentry : _ ↔ Procindex.Guarded n c.ppid.toInt ∧ c.ppid.toInt < 2147483647
          ∧ ¬ (t.padded n).Holds c.ppid := hentry
        rw [Procindex.padded_holds] at hentry
        rw [procindexAdd_empty _ hc hwf hin hg hslot hfree]
        constructor
        · rintro ⟨h', t', hrun, -⟩
          obtain ⟨parent, hparent, hrun⟩ := bind_ok hrun
          -- a parent that is found is asked for its NULL child: the call does not end
          cases parent with
          | some r => cases hrun
          | none =>
              obtain ⟨hguard, hmax, hno⟩ := hentry.mp hparent
              exact ⟨⟨n, rfl, hslot, hguard, hmax⟩, hno⟩
        · rintro ⟨⟨m, hm, -, hguard, hmax⟩, hno⟩
          cases hm
          have hparent := hentry.mpr ⟨hguard, hmax, hno⟩
          have hlen : (((t.padded n).procs.length : Nat) : Int) = n := hgrown.size
          have hk : (c.pid.toInt + 1).toNat < (t.padded n).procs.length := by
            unfold Procindex.Within at hslot
            omega
          obtain ⟨hself, hothers⟩ := stored_others (r := call) hk
          rw [hparent, ok_bind]
          refine ⟨_, _, rfl, hself, hothers, fun r hr => Function.update_of_ne hr _ _,
            { c with ppid := 0 }, Function.update_self _ _ _, rfl, ?_, fun _ => ⟨rfl, rfl⟩⟩
          intro k p pc hk hp _
          exact absurd ⟨k, p, hk, Procindex.callAt_eq_some.mp hp⟩ hno
      · rw [procindexAdd_outside hc hwf hin hg hslot]
        constructor
        · rintro ⟨h', t', he, -⟩
          cases he
        · rintro ⟨⟨m, hm, hslot', -⟩, -⟩
          cases hm
          exact absurd hslot' hslot

/-- **The dummy of `procindex_opencall_add`.** -/
theorem dummy_linked_iff {alloc : OpencallAlloc} {ocall : OpenRef} {oc : OpenCall}
    (hwf : t.Wf) (hoc : h.opens ocall = some oc) (hin : t.InRange oc.pid)
    (hfree : ¬ t.Holds oc.pid) :
    (∃ h' t', procindexOpencallAdd alloc h t ocall = .ok (NOMINAL, h', t')
        ∧ Linked h t h.nextExec (dummyCall oc) h' t')
      ↔ (Fitting alloc.grow t oc.pid 0 ∧ alloc.newProc ∧ alloc.args ∧ alloc.cmdName
          ∧ alloc.calloc) ∧ ¬ t.Holds 0 := by
  obtain ⟨hfails, hrefused⟩ := procindexOpencallAdd_not_grown alloc hoc hwf hin
  unfold Fitting
  cases hg : t.growsTo alloc.grow oc.pid.toInt with
  | error e =>
      rw [hfails e hg]
      constructor
      · rintro ⟨h', t', he, -⟩
        cases he
      · rintro ⟨⟨⟨n, hn, -⟩, -⟩, -⟩
        cases hn
  | ok o =>
    cases o with
    | none =>
        obtain ⟨u, hu⟩ := hrefused hg
        rw [hu]
        constructor
        · rintro ⟨h', t', he, -⟩
          cases he
        · rintro ⟨⟨⟨n, hn, -⟩, -⟩, -⟩
          cases hn
    | some n =>
      have hgrown := (hwf.open_ready hin hg).wf
      by_cases hslot : Procindex.Within n oc.pid.toInt
      · have h0 := hin.1
        have hguard : Procindex.Guarded n (0 : Int32).toInt := by
          unfold Procindex.Within at hslot
          have : (0 : Int32).toInt = 0 := rfl
          unfold Procindex.Guarded
          omega
        have hzero : t.Holds 0 ↔ ∃ r, t.callAt 1 = some r :=
          Procindex.holds_iff (show 0 ≤ (0 : Int32).toInt + 1 by decide)
        obtain ⟨h', hexecs, hrun⟩ :=
          procindexOpencallAdd_dummy alloc hoc hwf hin hg hslot hfree
        rw [hrun]
        by_cases hnew : ¬ alloc.newProc
        · rw [if_pos hnew]
          constructor
          · rintro ⟨h', t', he, -⟩
            cases he
          · rintro ⟨⟨-, hyes, -⟩, -⟩
            exact absurd hyes hnew
        rw [if_neg hnew]
        by_cases hrest : alloc.args ∧ alloc.cmdName ∧ alloc.calloc
        · rw [if_pos hrest]
          -- the dummy's ppid is 0, so slot 1 is the one that `procindex_add` reads for its parent
          cases hone : t.callAt 1 with
          | some r =>
              constructor
              · rintro ⟨h', t', he, -⟩
                cases he
              · rintro ⟨-, hno⟩
                exact absurd (hzero.mpr ⟨r, hone⟩) hno
          | none =>
              have hno : ¬ t.Holds 0 := by
                rw [hzero, hone]
                rintro ⟨r, hr⟩
                cases hr
              have hlen : (((t.padded n).procs.length : Nat) : Int) = n := hgrown.size
              have hk : (oc.pid.toInt + 1).toNat < (t.padded n).procs.length := by
                unfold Procindex.Within at hslot
                omega
              obtain ⟨hself, hothers⟩ := stored_others (r := h.nextExec) hk
              refine ⟨fun _ => ⟨⟨⟨n, rfl, hslot, hguard, by decide⟩, not_not.mp hnew, hrest⟩, hno⟩,
                fun _ => ⟨_, _, rfl, hself, hothers, fun r hr => ?_, dummyWith oc ocall, ?_, rfl,
                  ?_, fun _ => ⟨rfl, rfl⟩⟩⟩
              · rw [hexecs, Function.update_of_ne hr]
              · rw [hexecs, Function.update_self]
              · intro k p pc hk hp _
                exact absurd ⟨k, p, hk, Procindex.callAt_eq_some.mp hp⟩ hno
        · rw [if_neg hrest]
          constructor
          · rintro ⟨h', t', he, -⟩
            cases he
          · rintro ⟨⟨-, -, hyes⟩, -⟩
            exact absurd hyes hrest
      · rw [procindexOpencallAdd_outside hoc hwf hin hg hslot]
        constructor
        · rintro ⟨h', t', he, -⟩
          cases he
        · rintro ⟨⟨⟨m, hm, hslot', -⟩, -⟩, -⟩
          cases hm
          exact absurd hslot' hslot

/-! ## §2. Parent linking. -/

/-- **A new entry is linked as it should be** exactly if there is no entry for its parent: a parent
that is there makes the code read the time stamp of the empty slot of the new entry. -/
theorem parent_linking_iff (hwf : t.Wf) :
    (∀ (granted : Nat → Bool) (call : ExecRef) (c : ExecCall), h.execs call = some c →
      t.InRange c.pid → ¬ t.Holds c.pid →
      ((∃ h' t', procindexAdd granted h t call = .ok (NOMINAL, h', t') ∧ Linked h t call c h' t')
        ↔ Fitting granted t c.pid c.ppid ∧ ¬ t.Holds c.ppid))
    ∧ ∀ (alloc : OpencallAlloc) (ocall : OpenRef) (oc : OpenCall), h.opens ocall = some oc →
      t.InRange oc.pid → ¬ t.Holds oc.pid →
      ((∃ h' t', procindexOpencallAdd alloc h t ocall = .ok (NOMINAL, h', t')
          ∧ Linked h t h.nextExec (dummyCall oc) h' t')
        ↔ (Fitting alloc.grow t oc.pid 0 ∧ alloc.newProc ∧ alloc.args ∧ alloc.cmdName
            ∧ alloc.calloc) ∧ ¬ t.Holds 0) :=
  ⟨fun _ _ _ hc hin hfree => add_linked_iff hwf hc hin hfree,
    fun _ _ _ hoc hin hfree => dummy_linked_iff hwf hoc hin hfree⟩

end Linking

/-- A call of `pid`, then one of pid 2 with the parent 1, and an open call of pid 2. -/
def familyHeap (pid : Int32) : Heap :=
  ((Heap.empty.mallocExec false (ExecEvent.blank pid 0 ⟨5, 0⟩).call).mallocExec false
    (ExecEvent.blank 2 1 ⟨6, 0⟩).call).mallocOpen (OpenEvent.blank 2 ⟨7, 0⟩).call

/-- An index in which only the first of them is an entry. -/
def familyTable (pid : Int32) : Procindex :=
  ⟨(List.replicate 5 Slot.null).set (pid.toInt + 1).toNat (.proc 0), 5, 10⟩

theorem familyTable_wf {pid : Int32} : (familyTable pid).Wf := by
  constructor
  · show (((List.replicate 5 Slot.null).set (pid.toInt + 1).toNat (.proc 0)).length : Int) = 5
    rw [List.length_set, List.length_replicate]
    rfl
  · intro hm
    rcases List.mem_or_eq_of_mem_set hm with hm | hm
    · cases List.eq_of_mem_replicate hm
    · cases hm

theorem familyTable_free {pid p : Int32} (hp : 0 ≤ p.toInt + 1)
    (hnone : (familyTable pid).callAt (p.toInt + 1).toNat = none) : ¬ (familyTable pid).Holds p := by
  rw [Procindex.holds_iff hp, hnone]
  intro h
  cases h with
  | intro r hr => cases hr

/-- Without its parent in the index, pid 2 is stored and linked; so is its dummy. -/
theorem parent_linking_sample :
    (∃ h' t', procindexAdd (fun _ => true) (familyHeap 3) (familyTable 3) 1 = .ok (NOMINAL, h', t')
        ∧ Linked (familyHeap 3) (familyTable 3) 1 (ExecEvent.blank 2 1 ⟨6, 0⟩).call h' t')
      ∧ ∃ h' t', procindexOpencallAdd .granting (familyHeap 3) (familyTable 3) 0
          = .ok (NOMINAL, h', t')
        ∧ Linked (familyHeap 3) (familyTable 3) 2 (dummyCall (OpenEvent.blank 2 ⟨7, 0⟩).call)
            h' t' := by
  have hfree (p : Int32) (hp : p = 0 ∨ p = 1 ∨ p = 2) : ¬ (familyTable 3).Holds p := by
    rcases hp with rfl | rfl | rfl
    · exact familyTable_free (by decide) (by decide)
    · exact familyTable_free (by decide) (by decide)
    · exact familyTable_free (by decide) (by decide)
  have hlinking := parent_linking_iff (h := familyHeap 3) (show (familyTable 3).Wf from familyTable_wf)
  constructor
  · apply (hlinking.1 (fun _ => true) 1 (ExecEvent.blank 2 1 ⟨6, 0⟩).call rfl ⟨by decide, by decide⟩
      (hfree 2 (by simp))).mpr
    exact ⟨⟨5, by rfl, by decide, by decide, by decide⟩, hfree 1 (by simp)⟩
  · apply (hlinking.2 .granting 0 (OpenEvent.blank 2 ⟨7, 0⟩).call rfl ⟨by decide, by decide⟩
      (hfree 2 (by simp))).mpr
    exact ⟨⟨⟨5, by rfl, by decide, by decide, by decide⟩, rfl, rfl, rfl, rfl⟩,
      hfree 0 (by simp)⟩

/-- With its parent in the index, pid 2 is not stored, and neither is its dummy when there is an
entry for the pid 0. -/
theorem present_parent_not_linked :
    (Fitting (fun _ => true) (familyTable 1) 2 1 ∧ ¬ (familyTable 1).Holds 2
        ∧ procindexAdd (fun _ => true) (familyHeap 1) (familyTable 1) 1 = .error .nullDeref
        ∧ ¬ ∃ h' t', procindexAdd (fun _ => true) (familyHeap 1) (familyTable 1) 1
            = .ok (NOMINAL, h', t')
          ∧ Linked (familyHeap 1) (familyTable 1) 1 (ExecEvent.blank 2 1 ⟨6, 0⟩).call h' t')
      ∧ Fitting (fun _ => true) (familyTable 0) 2 0 ∧ ¬ (familyTable 0).Holds 2
        ∧ procindexOpencallAdd .granting (familyHeap 0) (familyTable 0) 0 = .error .nullDeref := by
  have hadd : procindexAdd (fun _ => true) (familyHeap 1) (familyTable 1) 1 = .error .nullDeref := by
    rfl
  refine ⟨⟨⟨5, by rfl, by decide, by decide, by decide⟩, ?_, hadd, ?_⟩,
    ⟨5, by rfl, by decide, by decide, by decide⟩, ?_, by rfl⟩
  · exact familyTable_free (by decide) (by decide)
  · rw [hadd]
    intro ⟨h', t', he, _⟩
    cases he
  · exact familyTable_free (by decide) (by decide)

end DirSurveiller
