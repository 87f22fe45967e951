/-
  DirSurveiller.Index.Growth — the two growth loops.

  The policy is written twice: `procindex_add` updates `size` before it reallocates and fills from a
  saved `oldsize`; `procindex_opencall_add` computes `newSize` and advances `size` while it fills.
  Each round doubles the size, up to the limit `maxPid+1`.

    * `growth_loops_agree` — from a size between 1 and the limit both loops end, without overflow, with
      the same table; and every size the index ever has is between 1 and the limit.
-/
import DirSurveiller.Index.Progress

namespace DirSurveiller

open CMachine Outcome

attribute [local irreducible] toInt

/-! ## §1. How far a loop goes. -/

/-- A size between 1 and the limit. -/
structure Procindex.Capped (t : Procindex) : Prop where
  pos : 1 ≤ t.size
  cap : t.size ≤ t.maxPid + 1

section Rounds

variable {maxPid pid size : Int}

/-- The next size: twice the size, or the limit. -/
theorem doubledSize_eq (hmax : maxPid ≤ 2 ^ 22) (hpos : 1 ≤ size) (hcap : size ≤ maxPid + 1) :
    doubledSize { procs := [], size := size, maxPid := maxPid }
      = .ok (if size * 2 ≤ maxPid + 1 then size * 2 else maxPid + 1) := by
  have hdouble : toInt (size * 2) = .ok (size * 2) :=
    toInt_eq_ok.mpr ⟨rfl, by omega, by omega⟩
  have hfull : toInt (maxPid + 1) = .ok (maxPid + 1) :=
    toInt_eq_ok.mpr ⟨rfl, by omega, by omega⟩
  unfold doubledSize
  dsimp only
  rw [hdouble, ok_bind, hfull, ok_bind]
  rfl

/-- **A loop ends**: `rounds` doublings reach the limit, so the loop stops at a size with room for
the pid. -/
theorem grownSize_reaches (hmax : maxPid ≤ 2 ^ 22) (h0 : 0 ≤ pid) (hpid : pid ≤ maxPid) :
    ∀ (rounds : Nat) (size : Int), 1 ≤ size → size ≤ maxPid + 1 →
      maxPid + 1 ≤ size * 2 ^ rounds →
      ∃ n, grownSize (fun _ => true) maxPid pid rounds size = .ok (some n)
        ∧ size ≤ n ∧ pid + 1 ≤ n ∧ n ≤ maxPid + 1 := by
  have hint : toInt (pid + 1) = .ok (pid + 1) := toInt_eq_ok.mpr ⟨rfl, by omega, by omega⟩
  intro rounds
  -- on the rounds left, for any size: one doubling takes one factor 2 out of the reach
  induction rounds with
  | zero =>
      intro size hpos hcap hreach
      rw [Int.pow_zero, Int.mul_one] at hreach
      refine ⟨size, ?_, Int.le_refl _, by omega, hcap⟩
      unfold grownSize
      rw [hint, ok_bind, if_neg (by omega)]
      rfl
  | succ rounds ih =>
      intro size hpos hcap hreach
      unfold grownSize
      rw [hint, ok_bind]
      by_cases hout : pid + 1 > size
      · rw [if_pos hout, doubledSize_eq hmax hpos hcap, ok_bind, if_pos rfl]
        have hpow : (1 : Int) ≤ 2 ^ rounds := Int.pow_pos (by decide)
        rw [Int.pow_succ, Int.mul_comm (2 ^ rounds) 2, ← Int.mul_assoc] at hreach
        by_cases hroom : size * 2 ≤ maxPid + 1
        · rw [if_pos hroom]
          obtain ⟨n, hn, hle, hpid', hcap'⟩ := ih (size * 2) (by omega) hroom hreach
          exact ⟨n, hn, by omega, hpid', hcap'⟩
        · -- the last round: the limit itself
          rw [if_neg hroom]
          have hlast : maxPid + 1 ≤ (maxPid + 1) * 2 ^ rounds := by
            have hmul := Int.mul_le_mul_of_nonneg_left hpow (show 0 ≤ maxPid + 1 by omega)
            rwa [Int.mul_one] at hmul
          obtain ⟨n, hn, hle, hpid', hcap'⟩ := ih (maxPid + 1) (by omega) (Int.le_refl _) hlast
          exact ⟨n, hn, by omega, hpid', hcap'⟩
      · rw [if_neg hout]
        exact ⟨size, rfl, Int.le_refl _, by omega, hcap⟩

end Rounds

/-! ## §2. The sizes the index can have. -/

/-- The tables that come from `procindex_init` by calls of the functions of the index, on any heap
and with any answers of `realloc`; the last constructor is `procs[i] = NULL` in
`surv_check_proc_vitals`. -/
inductive Procindex.Reached (getMaxPID guidePid : Int) : Procindex → Prop where
  | init {t : Procindex} : procindexInit getMaxPID true guidePid = .ok (NOMINAL, t) →
      Reached getMaxPID guidePid t
  | add {t t' : Procindex} {granted : Nat → Bool} {h h' : Heap} {call : ExecRef} {ret : Int} :
      Reached getMaxPID guidePid t → procindexAdd granted h t call = .ok (ret, h', t') →
      Reached getMaxPID guidePid t'
  | opencallAdd {t t' : Procindex} {alloc : OpencallAlloc} {h h' : Heap} {ocall : OpenRef}
      {ret : Int} : Reached getMaxPID guidePid t →
      procindexOpencallAdd alloc h t ocall = .ok (ret, h', t') → Reached getMaxPID guidePid t'
  | retrieve {t t' : Procindex} {pid : Int} {r : Option ExecRef} : Reached getMaxPID guidePid t →
      procindexRetrieve t pid = .ok (r, t') → Reached getMaxPID guidePid t'
  | clear {t t' : Procindex} {i : Int} : Reached getMaxPID guidePid t → t.setSlot i .null = .ok t' →
      Reached getMaxPID guidePid t'

namespace Procindex

section Capped

variable {t t' : Procindex} {pid n : Int} {granted : Nat → Bool}

theorem Capped.of_same (h : t.Capped) (hsize : t'.size = t.size) (hmax : t'.maxPid = t.maxPid) :
    t'.Capped := by
  constructor
  · rw [hsize]
    exact h.pos
  · rw [hsize, hmax]
    exact h.cap

theorem setSlot_capped (h : t.Capped) {i : Int} {s : Slot} (hset : t.setSlot i s = .ok t') :
    t'.Capped := by
  obtain ⟨-, -, rfl⟩ := setSlot_eq_ok.mp hset
  exact h.of_same rfl rfl

/-- The next size keeps to the limit. -/
theorem doubledSize_capped (h : t.Capped) (hn : doubledSize t = .ok n) :
    1 ≤ n ∧ t.size ≤ n ∧ n ≤ t.maxPid + 1 := by
  have hpos := h.pos
  have hcap := h.cap
  unfold doubledSize at hn
  obtain ⟨doubled, hdoubled, hn⟩ := bind_ok hn
  obtain ⟨full, hfull, hn⟩ := bind_ok hn
  rw [toInt_eq_ok] at hdoubled hfull
  rw [← Except.ok.inj hn]
  split <;> omega

/-- While a pid is out of the table, the next size is larger. -/
theorem doubledSize_gt (h : t.Capped) (hpid : pid ≤ t.maxPid) (hout : pid + 1 > t.size)
    (hn : doubledSize t = .ok n) : t.size < n := by
  have hpos := h.pos
  unfold doubledSize at hn
  obtain ⟨doubled, hdoubled, hn⟩ := bind_ok hn
  obtain ⟨full, hfull, hn⟩ := bind_ok hn
  rw [toInt_eq_ok] at hdoubled hfull
  rw [← Except.ok.inj hn]
  split <;> omega

theorem addGrow_capped : ∀ (rounds : Nat) (oldsize : Int) (t t' : Procindex) (b : Bool), t.Capped →
    addGrow granted pid rounds oldsize t = .ok (b, t') → t'.Capped := by
  intro rounds
  induction rounds with
  | zero =>
      intro oldsize t t' b hcap h
      unfold addGrow at h
      obtain ⟨pid1, -, h⟩ := bind_ok h
      split at h
      · cases h
      · cases h
        exact hcap
  | succ rounds ih =>
      intro oldsize t t' b hcap h
      unfold addGrow at h
      obtain ⟨pid1, -, h⟩ := bind_ok h
      split at h
      next =>
        obtain ⟨n, hn, h⟩ := bind_ok h
        obtain ⟨hpos, -, hle⟩ := doubledSize_capped hcap hn
        split at h
        next =>
          obtain ⟨procs, -, h⟩ := bind_ok h
          exact ih _ { t with size := n, procs := procs } t' b ⟨hpos, hle⟩ h
        next =>
          cases h
          exact ⟨hpos, hle⟩
      next =>
        cases h
        exact hcap

theorem openGrow_capped : ∀ (rounds : Nat) (t t' : Procindex) (b : Bool), t.Capped →
    openGrow granted pid rounds t = .ok (b, t') → t'.Capped := by
  intro rounds
  induction rounds with
  | zero =>
      intro t t' b hcap h
      unfold openGrow at h
      obtain ⟨pid1, -, h⟩ := bind_ok h
      split at h
      · cases h
      · cases h
        exact hcap
  | succ rounds ih =>
      intro t t' b hcap h
      unfold openGrow at h
      obtain ⟨pid1, -, h⟩ := bind_ok h
      split at h
      next =>
        obtain ⟨n, hn, h⟩ := bind_ok h
        obtain ⟨hpos, hge, hle⟩ := doubledSize_capped hcap hn
        split at h
        next =>
          obtain ⟨procs, -, h⟩ := bind_ok h
          refine ih { t with procs := procs, size := max t.size n } t' b ⟨?_, ?_⟩ h
          · show 1 ≤ max t.size n
            omega
          · show max t.size n ≤ t.maxPid + 1
            omega
        next =>
          cases h
          exact hcap
      next =>
        cases h
        exact hcap

end Capped

end Procindex

section Reached

variable {h h' : Heap} {t t' : Procindex} {ret : Int}

theorem procindexAdd_capped {granted : Nat → Bool} {call : ExecRef} (hcap : t.Capped)
    (hrun : procindexAdd granted h t call = .ok (ret, h', t')) : t'.Capped := by
  unfold procindexAdd at hrun
  obtain ⟨c, -, hrun⟩ := bind_ok hrun
  dsimp only at hrun
  split at hrun
  next =>
    cases hrun
    exact hcap
  next =>
    obtain ⟨p, hgrow, hrun⟩ := bind_ok hrun
    obtain ⟨b, u⟩ := p
    have hu := Procindex.addGrow_capped _ _ _ _ _ hcap hgrow
    dsimp only at hrun
    split at hrun
    next =>
      obtain ⟨pid1, -, hrun⟩ := bind_ok hrun
      obtain ⟨own, -, hrun⟩ := bind_ok hrun
      cases own with
      | some own =>
          cases hrun
          exact hu
      | none =>
          obtain ⟨parent, -, hrun⟩ := bind_ok hrun
          obtain ⟨h1, -, hrun⟩ := bind_ok hrun
          obtain ⟨u', hset, hrun⟩ := bind_ok hrun
          cases hrun
          exact Procindex.setSlot_capped hu hset
    next =>
      cases hrun
      exact hu

theorem procindexOpencallAdd_capped {alloc : OpencallAlloc} {ocall : OpenRef} (hcap : t.Capped)
    (hrun : procindexOpencallAdd alloc h t ocall = .ok (ret, h', t')) : t'.Capped := by
  unfold procindexOpencallAdd at hrun
  obtain ⟨o, -, hrun⟩ := bind_ok hrun
  dsimp only at hrun
  split at hrun
  next =>
    cases hrun
    exact hcap
  next =>
    obtain ⟨p, hgrow, hrun⟩ := bind_ok hrun
    obtain ⟨b, u⟩ := p
    have hu := Procindex.openGrow_capped _ _ _ _ hcap hgrow
    dsimp only at hrun
    split at hrun
    next =>
      obtain ⟨target, -, hrun⟩ := bind_ok hrun
      cases target with
      | some target =>
          obtain ⟨grown, -, hrun⟩ := bind_ok hrun
          cases grown with
          | none =>
              cases hrun
              exact hu
          | some h1 =>
              obtain ⟨h2, -, hrun⟩ := bind_ok hrun
              cases hrun
              exact hu
      | none =>
          obtain ⟨dummy, hdummy, hrun⟩ := bind_ok hrun
          cases dummy with
          | none =>
              cases hrun
              exact hu
          | some d =>
              obtain ⟨h1, u'⟩ := d
              -- the dummy is added by `procindex_add`
              have hu' : u'.Capped := by
                unfold addDummy at hdummy
                split at hdummy
                · cases hdummy
                split at hdummy
                · obtain ⟨p, hadd, hdummy⟩ := bind_ok hdummy
                  obtain ⟨-, rfl⟩ := Prod.mk.inj (Option.some.inj (Except.ok.inj hdummy))
                  exact procindexAdd_capped hu hadd
                · cases hdummy
              obtain ⟨pid1, -, hrun⟩ := bind_ok hrun
              obtain ⟨target, -, hrun⟩ := bind_ok hrun
              cases target with
              | none => cases hrun
              | some target =>
                  obtain ⟨h2, -, hrun⟩ := bind_ok hrun
                  cases hrun
                  exact hu'
    next =>
      cases hrun
      exact hu

theorem procindexRetrieve_capped {pid : Int} {r : Option ExecRef} (hcap : t.Capped)
    (hrun : procindexRetrieve t pid = .ok (r, t')) : t'.Capped := by
  unfold procindexRetrieve at hrun
  obtain ⟨o, -, hrun⟩ := bind_ok hrun
  cases o with
  | none =>
      cases hrun
      exact hcap
  | some r =>
      obtain ⟨pid1, -, hrun⟩ := bind_ok hrun
      obtain ⟨u, hset, hrun⟩ := bind_ok hrun
      cases hrun
      exact Procindex.setSlot_capped hcap hset

/-- **`procindex_init`** asks for a size between 1 and the limit. -/
theorem procindexInit_capped {getMaxPID guidePid : Int}
    (hrun : procindexInit getMaxPID true guidePid = .ok (NOMINAL, t)) : t.Capped := by
  obtain ⟨-, hpos, hle, -, hmax⟩ := procindexInit_spec hrun rfl
  rw [← hmax] at hle
  exact ⟨hpos, hle⟩

/-- **Every size the index has** is between 1 and the limit. -/
theorem Procindex.Reached.capped {getMaxPID guidePid : Int} (hr : t.Reached getMaxPID guidePid) :
    t.Capped := by
  induction hr with
  | init hrun => exact procindexInit_capped hrun
  | add _ hrun ih => exact procindexAdd_capped ih hrun
  | opencallAdd _ hrun ih => exact procindexOpencallAdd_capped ih hrun
  | retrieve _ hrun ih => exact procindexRetrieve_capped ih hrun
  | clear _ hrun ih => exact Procindex.setSlot_capped ih hrun

end Reached

/-! ## §3. The two loops. -/

/-- **The growth loops terminate and agree.**  From every size the index can have, and for every pid,
both loops end without overflow in the same table: room for the pid as a count, at most the limit, the
old slots as they were and every new one `NULL`. -/
theorem growth_loops_agree (getMaxPID guidePid : Int) :
    (∀ t : Procindex, t.Reached getMaxPID guidePid → 1 ≤ t.size ∧ t.size ≤ t.maxPid + 1)
    ∧ ∀ {t : Procindex} {pid : Int} {granted granted' : Nat → Bool}, t.Wf → 1 ≤ t.size →
        t.size ≤ t.maxPid + 1 → t.maxPid ≤ 2 ^ 22 → 0 ≤ pid → pid ≤ t.maxPid →
        (∀ k, granted k = true) → (∀ k, granted' k = true) →
        ∃ s t', addGrow granted pid growRounds t.size t = .ok (true, t')
          ∧ openGrow granted' pid growRounds t = .ok (true, t')
          ∧ t'.size = s ∧ t'.maxPid = t.maxPid ∧ pid + 1 ≤ s ∧ t.size ≤ s ∧ s ≤ t.maxPid + 1
          ∧ t'.procs = t.procs ++ List.replicate (s - t.size).toNat .null := by
  refine ⟨fun t hr => ⟨hr.capped.pos, hr.capped.cap⟩, ?_⟩
  intro t pid granted granted' hwf hpos hcap hmax h0 hpid hgranted hgranted'
  have hreach : t.maxPid + 1 ≤ t.size * 2 ^ growRounds := by
    unfold growRounds
    omega
  obtain ⟨n, hn, hle, hroom, hlimit⟩ :=
    grownSize_reaches hmax h0 hpid growRounds t.size hpos hcap hreach
  have hsize := hwf.size
  obtain rfl : granted = fun _ => true := funext hgranted
  obtain rfl : granted' = fun _ => true := funext hgranted'
  have hadd : t.GrowsBy (grownSize (fun _ => true) t.maxPid pid growRounds t.size)
      (addGrow (fun _ => true) pid growRounds t.size t) :=
    Procindex.addGrow_eq hpid growRounds t hwf rfl
  have hopen : t.GrowsBy (grownSize (fun _ => true) t.maxPid pid growRounds t.size)
      (openGrow (fun _ => true) pid growRounds t) :=
    Procindex.openGrow_eq hpid growRounds t hwf rfl
  rw [hn] at hadd hopen
  refine ⟨n, t.padded n, hadd.1, hopen.1, rfl, rfl, hroom, hle, hlimit, ?_⟩
  show t.procs ++ List.replicate (n.toNat - t.procs.length) Slot.null = _
  rw [show n.toNat - t.procs.length = (n - t.size).toNat by omega]

/-- Pid 9 in an empty table of two slots: three rounds, the last one up to the limit. -/
theorem growth_loops_agree_sample :
    ∃ s t', addGrow (fun _ => true) 9 growRounds 2 ⟨[.null, .null], 2, 10⟩ = .ok (true, t')
      ∧ openGrow (fun _ => true) 9 growRounds ⟨[.null, .null], 2, 10⟩ = .ok (true, t')
      ∧ t'.size = s ∧ s ≤ 11 := by
  have hwf : Procindex.Wf ⟨[.null, .null], 2, 10⟩ := ⟨rfl, by decide⟩
  obtain ⟨s, t', hadd, hopen, hsize, -, -, -, hlimit, -⟩ := (growth_loops_agree 10 1).2 hwf
    (by decide) (by decide) (by decide) (show (0 : Int) ≤ 9 by decide) (by decide) (fun _ => rfl)
    (fun _ => rfl)
  exact ⟨s, t', hadd, hopen, hsize, hlimit⟩

end DirSurveiller
