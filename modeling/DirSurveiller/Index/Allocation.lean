/-
  DirSurveiller.Index.Allocation — what a refused allocation leaves behind.

  `procindex_opencall_add` grows the table for its own, and writes the new size only once it has the
  memory.  `procindex_add` writes the size first, so a refused `realloc` leaves a size that is larger
  than the table.  A refused `malloc` of the dummy is dereferenced before it is tested.

    * `failed_growth_intact_iff` — which calls leave the index intact when an allocation fails.
-/
import DirSurveiller.Index.Growth

namespace DirSurveiller

open CMachine Outcome

/-! ## §1. The loops, refused. -/

section Refused

attribute [local irreducible] toInt

variable {granted : Nat → Bool} {pid n : Int} {t : Procindex}

/-- **The loop of `procindex_opencall_add`**, refused: the table has grown as far as the memory went,
and its size says so. -/
theorem openGrow_stopped (hpid : pid ≤ t.maxPid) :
    ∀ (rounds : Nat) (u : Procindex), u.Wf → u.maxPid = t.maxPid →
      grownSize granted t.maxPid pid rounds u.size = .ok none →
      ∃ m, openGrow granted pid rounds u = .ok (false, u.padded m) ∧ u.size ≤ m := by
  intro rounds
  induction rounds with
  | zero =>
      intro u hwf hmax h
      unfold grownSize at h
      obtain ⟨pid1, -, h⟩ := bind_ok h
      split at h
      · cases h
      · cases h
  | succ rounds ih =>
      intro u hwf hmax h
      unfold grownSize at h
      obtain ⟨pid1, hpid1, h⟩ := bind_ok h
      obtain ⟨rfl, -, -⟩ := toInt_eq_ok.mp hpid1
      split at h
      next hout =>
        obtain ⟨n, hn, h⟩ := bind_ok h
        have hdouble : doubledSize { procs := [], size := u.size, maxPid := t.maxPid }
            = doubledSize u := Procindex.doubledSize_congr rfl hmax.symm
        rw [hdouble] at hn
        have hsize := hwf.size
        have hge : u.size ≤ n := Procindex.doubledSize_ge (by rw [hmax]; exact hpid) (by omega) hout hn
        unfold openGrow
        rw [hpid1, ok_bind, if_pos hout, hn, ok_bind]
        -- a granted round leaves a well-formed table, a refused one the table it found
        by_cases hg : granted rounds = true
        · rw [if_pos hg] at h
          rw [if_pos hg, Procindex.nullFrom_padded hwf hge, ok_bind,
            show max u.size n = n by omega]
          obtain ⟨m, hrun, hle⟩ := ih (u.padded n) (hwf.padded hge) hmax h
          replace hle : n ≤ m := hle
          refine ⟨m, ?_, by omega⟩
          rwa [Procindex.padded_padded (show (u.procs.length : Int) ≤ n by omega) hle] at hrun
        · rw [if_neg hg]
          exact ⟨u.size, by rw [hwf.padded_self]; rfl, Int.le_refl _⟩
      next => cases h

/-- **The loop of `procindex_add`**, refused: the size is that of the table it did not get. -/
theorem addGrow_stopped (hpid : pid ≤ t.maxPid) :
    ∀ (rounds : Nat) (u : Procindex), u.Wf → u.Capped → u.maxPid = t.maxPid →
      grownSize granted t.maxPid pid rounds u.size = .ok none →
      ∃ v, addGrow granted pid rounds u.size u = .ok (false, v) ∧ (v.procs.length : Int) < v.size := by
  intro rounds
  induction rounds with
  | zero =>
      intro u hwf hcap hmax h
      unfold grownSize at h
      obtain ⟨pid1, -, h⟩ := bind_ok h
      split at h
      · cases h
      · cases h
  | succ rounds ih =>
      intro u hwf hcap hmax h
      unfold grownSize at h
      obtain ⟨pid1, hpid1, h⟩ := bind_ok h
      obtain ⟨rfl, -, -⟩ := toInt_eq_ok.mp hpid1
      split at h
      next hout =>
        obtain ⟨n, hn, h⟩ := bind_ok h
        have hdouble : doubledSize { procs := [], size := u.size, maxPid := t.maxPid }
            = doubledSize u := Procindex.doubledSize_congr rfl hmax.symm
        rw [hdouble] at hn
        have hsize := hwf.size
        obtain ⟨hpos, hge, hle⟩ := Procindex.doubledSize_capped hcap hn
        unfold addGrow
        rw [hpid1, ok_bind, if_pos hout, hn, ok_bind]
        by_cases hg : granted rounds = true
        · rw [if_pos hg] at h
          rw [if_pos hg, Procindex.nullFrom_padded hwf hge, ok_bind, show max u.size n = n by omega]
          exact ih (u.padded n) (hwf.padded hge) ⟨hpos, hle⟩ hmax h
        · rw [if_neg hg]
          refine ⟨{ u with size := n }, rfl, ?_⟩
          -- the size that was asked for is larger, since the pid did not fit
          show (u.procs.length : Int) < n
          have hgrows := Procindex.doubledSize_gt hcap (by rw [hmax]; exact hpid) hout hn
          omega
      next => cases h

end Refused

/-! ## §2. Which allocations a call runs into. -/

/-- The call of `procindex_add` is refused a `realloc` of its growth loop. -/
def AddRefused (granted : Nat → Bool) (t : Procindex) (c : ExecCall) : Prop :=
  t.growsTo granted c.pid.toInt = .ok none

/-- The call of `procindex_opencall_add` is refused memory: in its growth loop, for the larger buffer
of the entry, or for one of the four parts of a dummy. -/
inductive OpenRefused (alloc : OpencallAlloc) (h : Heap) (t : Procindex) (oc : OpenCall) : Prop where
  | grow : t.growsTo alloc.grow oc.pid.toInt = .ok none → OpenRefused alloc h t oc
  | callBuff {n : Int} {target : ExecRef} {c : ExecCall} :
      t.growsTo alloc.grow oc.pid.toInt = .ok (some n) →
      t.callAt (oc.pid.toInt + 1).toNat = some target → h.execs target = some c →
      toInt (c.callNum + 2) = .ok c.callBuffSize → alloc.callBuff = false → OpenRefused alloc h t oc
  | dummy {n : Int} :
      t.growsTo alloc.grow oc.pid.toInt = .ok (some n) → Procindex.Within n oc.pid.toInt →
      ¬ t.Holds oc.pid → ¬ (alloc.newProc ∧ alloc.args ∧ alloc.cmdName ∧ alloc.calloc) →
      OpenRefused alloc h t oc

/-- The `malloc` of the dummy itself is refused. -/
def DummyRefused (alloc : OpencallAlloc) (t : Procindex) (oc : OpenCall) : Prop :=
  ∃ n, t.growsTo alloc.grow oc.pid.toInt = .ok (some n) ∧ Procindex.Within n oc.pid.toInt
    ∧ ¬ t.Holds oc.pid ∧ alloc.newProc = false

/-- The call returns `MEMORY_ALLOCATION_ERROR` and goes through no `NULL`; no entry and no object has
changed, and the size is that of an initialised table. -/
def LeftIntact (h : Heap) (t : Procindex) (run : Except Fault (Int × Heap × Procindex)) : Prop :=
  ∃ u, run = .ok (MEMORY_ALLOCATION_ERROR, h, u) ∧ t.Extends u ∧ u.Wf

/-! ## §3. The two functions. -/

section Calls

variable {h : Heap} {t : Procindex}

theorem Procindex.extends_padded (t : Procindex) (n : Int) : t.Extends (t.padded n) :=
  ⟨rfl, _, rfl, fun _ hs => .inl (List.eq_of_mem_replicate hs)⟩

/-- **`procindex_add`**, refused: its size is wrong. -/
theorem procindexAdd_refused {granted : Nat → Bool} {call : ExecRef} {c : ExecCall} (hwf : t.Wf)
    (hcap : t.Capped) (hc : h.execs call = some c) (hin : t.InRange c.pid)
    (hrefused : AddRefused granted t c) : ¬ LeftIntact h t (procindexAdd granted h t call) := by
  obtain ⟨v, hgrow, hlt⟩ := addGrow_stopped hin.2 growRounds t hwf hcap rfl hrefused
  have hrun : procindexAdd granted h t call = .ok (MEMORY_ALLOCATION_ERROR, h, v) := by
    have h0 := hin.1
    have h1 := hin.2
    unfold procindexAdd
    rw [Heap.exec_some hc, ok_bind, if_neg (by omega), hgrow]
    rfl
  intro hintact
  obtain ⟨u, hu, -, hwf'⟩ := hintact
  rw [hrun] at hu
  obtain rfl : v = u := (Prod.mk.inj (Prod.mk.inj (Except.ok.inj hu)).2).2
  have hsize := hwf'.size
  omega

/-- **`procindex_opencall_add`**, refused anything but the dummy itself. -/
theorem procindexOpencallAdd_refused {alloc : OpencallAlloc} {ocall : OpenRef} {oc : OpenCall}
    (hwf : t.Wf) (hoc : h.opens ocall = some oc) (hin : t.InRange oc.pid)
    (hrefused : OpenRefused alloc h t oc) (hdummy : ¬ DummyRefused alloc t oc) :
    LeftIntact h t (procindexOpencallAdd alloc h t ocall) := by
  have h0 := hin.1
  have h1 := hin.2
  cases hrefused with
  | grow hnone =>
      obtain ⟨m, hgrow, hle⟩ := openGrow_stopped hin.2 growRounds t hwf rfl hnone
      refine ⟨t.padded m, ?_, t.extends_padded m, hwf.padded hle⟩
      unfold procindexOpencallAdd
      rw [Heap.openCall_some hoc, ok_bind, if_neg (by omega), hgrow]
      rfl
  | @callBuff n target c hn htarget hc hfull hno =>
      -- the entry was there before the table grew, and its buffer stays as large as it was
      have hready := hwf.open_ready hin hn
      have hslot : Procindex.Within (t.padded n).size oc.pid.toInt := by
        have hlt := (List.getElem?_eq_some_iff.mp (Procindex.callAt_eq_some.mp htarget)).1
        have hsize := hwf.size
        have hle := hready.notBeyond
        have hgrown := hwf.open_grows alloc hin
        rw [hn] at hgrown
        have hge := hgrown.2
        show Procindex.Within n oc.pid.toInt
        unfold Procindex.Within
        omega
      refine ⟨t.padded n, ?_, t.extends_padded n, hready.wf⟩
      have hbuff : growCallBuff alloc.callBuff h target = .ok none := by
        unfold growCallBuff
        rw [Heap.exec_some hc, ok_bind, hfull, ok_bind, if_pos rfl, hno]
        rfl
      rw [procindexOpencallAdd_grown hoc hwf hin hn, hready.wf.entry_eq hready.int,
        if_neg hready.notBeyond, if_pos hslot, Procindex.padded_callAt, htarget, ok_bind]
      dsimp only
      rw [hbuff]
      rfl
  | @dummy n hn hslot hfree hparts =>
      -- the parts that were granted are freed again
      have hready := hwf.open_ready hin hn
      obtain ⟨h', -, hrun⟩ := procindexOpencallAdd_dummy alloc hoc hwf hin hn hslot hfree
      have hnew : alloc.newProc = true := by
        by_contra hno
        exact hdummy ⟨n, hn, hslot, hfree, Bool.eq_false_iff.mpr hno⟩
      refine ⟨t.padded n, ?_, t.extends_padded n, hready.wf⟩
      rw [hrun, if_neg (by rw [hnew]; exact fun h => h rfl),
        if_neg fun hrest => hparts ⟨hnew, hrest⟩]

/-- **Failed growth leaves the index intact** exactly where it is not `procindex_add` that fails, and
not the `malloc` of a dummy. -/
theorem failed_growth_intact_iff (hwf : t.Wf) (hcap : t.Capped) :
    (∀ (granted : Nat → Bool) (call : ExecRef) (c : ExecCall), h.execs call = some c →
        t.InRange c.pid →
        ((AddRefused granted t c → LeftIntact h t (procindexAdd granted h t call))
          ↔ ¬ AddRefused granted t c))
    ∧ ∀ (alloc : OpencallAlloc) (ocall : OpenRef) (oc : OpenCall), h.opens ocall = some oc →
        t.InRange oc.pid →
        ((OpenRefused alloc h t oc → LeftIntact h t (procindexOpencallAdd alloc h t ocall))
          ↔ ¬ DummyRefused alloc t oc) := by
  constructor
  · intro granted call c hc hin
    constructor
    · exact fun hclaim hrefused => procindexAdd_refused hwf hcap hc hin hrefused (hclaim hrefused)
    · exact fun hnot hrefused => absurd hrefused hnot
  · intro alloc ocall oc hoc hin
    constructor
    · intro hclaim hdummy
      obtain ⟨n, hn, hslot, hfree, hno⟩ := hdummy
      have hparts : ¬ (alloc.newProc ∧ alloc.args ∧ alloc.cmdName ∧ alloc.calloc) := by
        rw [hno]
        exact fun h => Bool.false_ne_true h.1
      -- the code writes to the dummy before it looks at the pointer
      obtain ⟨h', -, hrun⟩ := procindexOpencallAdd_dummy alloc hoc hwf hin hn hslot hfree
      obtain ⟨u, hu, -⟩ := hclaim (.dummy hn hslot hfree hparts)
      rw [hrun, if_pos (by rw [hno]; exact Bool.false_ne_true)] at hu
      cases hu
    · exact fun hnot hrefused => procindexOpencallAdd_refused hwf hoc hin hrefused hnot

end Calls

/-- An open of pid 0 in an empty table of two slots: the arguments of its dummy are refused. -/
theorem failed_growth_intact_sample :
    LeftIntact (Heap.empty.mallocOpen OpenCall.zero) ⟨[.null, .null], 2, 10⟩
      (procindexOpencallAdd { OpencallAlloc.granting with args := false }
        (Heap.empty.mallocOpen OpenCall.zero) ⟨[.null, .null], 2, 10⟩ 0) := by
  have hwf : Procindex.Wf ⟨[.null, .null], 2, 10⟩ := ⟨rfl, by decide⟩
  have hcap : Procindex.Capped ⟨[.null, .null], 2, 10⟩ := ⟨by decide, by decide⟩
  have hin : Procindex.InRange ⟨[.null, .null], 2, 10⟩ 0 := ⟨by decide, by decide⟩
  have hfree : ¬ Procindex.Holds ⟨[.null, .null], 2, 10⟩ 0 := by
    intro hholds
    obtain ⟨r, hr⟩ := (Procindex.holds_iff (by decide)).mp hholds
    cases hr
  refine ((failed_growth_intact_iff hwf hcap).2 _ 0 _ rfl hin).mpr ?_ ?_
  · intro hdummy
    obtain ⟨n, -, -, -, hno⟩ := hdummy
    cases hno
  · exact .dummy (n := 2) rfl (by decide) hfree (by decide)

/-- **A `realloc` refused to `procindex_add`** leaves the size 4 on two slots, and a `malloc` refused to
a dummy is dereferenced. -/
theorem failed_growth_not_intact :
    (AddRefused (fun _ => false) ⟨[.null, .null], 2, 10⟩ { ExecCall.zero with pid := 5 }
      ∧ procindexAdd (fun _ => false) (Heap.empty.mallocExec false { ExecCall.zero with pid := 5 })
          ⟨[.null, .null], 2, 10⟩ 0
        = .ok (MEMORY_ALLOCATION_ERROR, Heap.empty.mallocExec false { ExecCall.zero with pid := 5 },
            ⟨[.null, .null], 4, 10⟩)
      ∧ ¬ LeftIntact (Heap.empty.mallocExec false { ExecCall.zero with pid := 5 })
          ⟨[.null, .null], 2, 10⟩ (procindexAdd (fun _ => false)
            (Heap.empty.mallocExec false { ExecCall.zero with pid := 5 }) ⟨[.null, .null], 2, 10⟩ 0))
    ∧ OpenRefused { OpencallAlloc.granting with newProc := false }
        (Heap.empty.mallocOpen OpenCall.zero) ⟨[.null, .null], 2, 10⟩ OpenCall.zero
      ∧ procindexOpencallAdd { OpencallAlloc.granting with newProc := false }
          (Heap.empty.mallocOpen OpenCall.zero) ⟨[.null, .null], 2, 10⟩ 0
        = .error .nullDeref := by
  have hrun : procindexAdd (fun _ => false)
      (Heap.empty.mallocExec false { ExecCall.zero with pid := 5 }) ⟨[.null, .null], 2, 10⟩ 0
      = .ok (MEMORY_ALLOCATION_ERROR, Heap.empty.mallocExec false { ExecCall.zero with pid := 5 },
          ⟨[.null, .null], 4, 10⟩) := rfl
  have hfree : ¬ Procindex.Holds ⟨[.null, .null], 2, 10⟩ 0 := by
    intro hholds
    obtain ⟨r, hr⟩ := (Procindex.holds_iff (by decide)).mp hholds
    cases hr
  refine ⟨⟨rfl, hrun, ?_⟩, .dummy (n := 2) rfl (by decide) hfree (by decide), rfl⟩
  intro hintact
  obtain ⟨u, hu, -, hwf⟩ := hintact
  rw [hrun] at hu
  obtain rfl := (Prod.mk.inj (Prod.mk.inj (Except.ok.inj hu)).2).2
  exact absurd hwf.size (by decide)

end DirSurveiller
