/-
  DirSurveiller.Index.Progress — what the functions of the process index do, step by step.

  `Outcomes` says what can be left after a call.  Here it is said which of these things happens:
  to which size a table grows (`grownSize`), which slot is then read, and when that slot lies
  outside of the table.  `pid+1` is compared with the size as if it were a number of slots, but it
  is an index, so both growth loops stop one slot too early.

  Main results:
    * `procindexAdd_outOfRange`, `procindexOpencallAdd_inside`, `procindexRetrieve_outOfRange` —
      which calls access a slot that does not exist.
    * `procindexAdd_linked_iff`, `procindexOpencallAdd_linked_iff` — which calls store and link.
-/
import DirSurveiller.Index.Outcomes

namespace DirSurveiller

open CMachine Outcome

-- without this the elaborator evaluates the bounds of an `int` on terms with variables
attribute [local irreducible] toInt

/-! ## §1. The size after growing. -/

/-- The size at which a growth loop stops; `none` when a `realloc` on the way is refused. -/
def grownSize (granted : Nat → Bool) (maxPid pid : Int) : Nat → Int → Except Fault (Option Int)
  | 0, size => do
      if (← toInt (pid + 1)) > size then .error .diverges else return some size
  | rounds + 1, size => do
      if (← toInt (pid + 1)) > size then
        let n ← doubledSize { procs := [], size := size, maxPid := maxPid }
        if granted rounds then grownSize granted maxPid pid rounds n else return none
      else
        return some size

namespace Procindex

/-- The size to which both growth loops bring the table for `pid`. -/
def growsTo (t : Procindex) (granted : Nat → Bool) (pid : Int) : Except Fault (Option Int) :=
  grownSize granted t.maxPid pid growRounds t.size

/-- The table with `n` slots, the added ones `NULL`. -/
def padded (t : Procindex) (n : Int) : Procindex :=
  { t with procs := t.procs ++ List.replicate (n.toNat - t.procs.length) .null, size := n }

/-- The call in slot `k`, if there is one. -/
def callAt (t : Procindex) (k : Nat) : Option ExecRef := t.procs[k]?.bind Slot.call

variable {t : Procindex} {granted : Nat → Bool} {pid : Int} {n : Int}

theorem callAt_eq_some {k : Nat} {r : ExecRef} :
    t.callAt k = some r ↔ t.procs[k]? = some (.proc r) := by
  unfold callAt
  cases h : t.procs[k]? with
  | none => simp
  | some s => cases s <;> simp [Slot.call]

theorem padded_callAt (t : Procindex) (n : Int) (k : Nat) : (t.padded n).callAt k = t.callAt k := by
  show ((t.procs ++ List.replicate (n.toNat - t.procs.length) Slot.null)[k]?).bind Slot.call = _
  unfold callAt
  rcases Nat.lt_or_ge k t.procs.length with h | h
  · rw [List.getElem?_append_left h]
  · rw [List.getElem?_append_right h, List.getElem?_eq_none h, List.getElem?_replicate]
    split <;> rfl

/-- A call is in a slot of the padded table iff it is in that slot of the table. -/
theorem padded_proc {k : Nat} {r : ExecRef} :
    (t.padded n).procs[k]? = some (.proc r) ↔ t.procs[k]? = some (.proc r) := by
  rw [← callAt_eq_some, ← callAt_eq_some, padded_callAt]

theorem Wf.padded (h : t.Wf) (hn : t.size ≤ n) : (t.padded n).Wf := by
  have hsize := h.size
  constructor
  · show ((t.procs ++ List.replicate (n.toNat - t.procs.length) Slot.null).length : Int) = n
    rw [List.length_append, List.length_replicate]
    omega
  · intro hm
    rcases List.mem_append.mp hm with hm | hm
    · exact h.init hm
    · cases List.eq_of_mem_replicate hm

theorem Wf.padded_self (h : t.Wf) : t.padded t.size = t := by
  have hsize := h.size
  unfold Procindex.padded
  rw [show t.size.toNat - t.procs.length = 0 by omega, List.replicate_zero, List.append_nil]

theorem padded_padded {m : Int} (hm : (t.procs.length : Int) ≤ m) (hn : m ≤ n) :
    (t.padded m).padded n = t.padded n := by
  unfold padded
  simp only [List.append_assoc, Procindex.mk.injEq, and_true, List.length_append,
    List.length_replicate]
  rw [← List.replicate_add]
  congr 2
  omega

/-- The slots a growth round adds are all set to `NULL`. -/
theorem nullFrom_padded (h : t.Wf) (hn : t.size ≤ n) :
    nullFrom (resize t.procs n) t.size n = .ok (t.padded n).procs := by
  have hsize := h.size
  obtain ⟨extra, hnull, hlen, -, hextra⟩ := nullFrom_resize (Int.le_of_eq hsize) hn
  have hall : extra = List.replicate (n.toNat - t.procs.length) .null := by
    refine List.eq_replicate_iff.mpr ⟨?_, hextra hsize⟩
    rw [List.length_append] at hlen
    omega
  rw [hnull, hall]
  rfl

/-- `run` is what a growth loop does to the table when `size` says where it stops. -/
def GrowsBy (t : Procindex) (size : Except Fault (Option Int))
    (run : Except Fault (Bool × Procindex)) : Prop :=
  match size with
  | .error e => run = .error e
  | .ok none => ∃ u, run = .ok (false, u)
  | .ok (some n) => run = .ok (true, t.padded n) ∧ t.size ≤ n

theorem Wf.growsBy_self (h : t.Wf) : t.GrowsBy (.ok (some t.size)) (.ok (true, t)) :=
  ⟨by rw [h.padded_self], Int.le_refl _⟩

/-- Growing to `n` slots first. -/
theorem GrowsBy.of_padded {size : Except Fault (Option Int)} {run : Except Fault (Bool × Procindex)}
    (hwf : t.Wf) (hn : t.size ≤ n) (h : (t.padded n).GrowsBy size run) : t.GrowsBy size run := by
  have hsize := hwf.size
  cases size with
  | error e => exact h
  | ok o =>
    cases o with
    | none => exact h
    | some m =>
      obtain ⟨hrun, hm⟩ := h
      have hm : n ≤ m := hm
      rw [padded_padded (by omega) hm] at hrun
      exact ⟨hrun, by omega⟩

/-- The new size depends on the size and the limit only. -/
theorem doubledSize_congr {t' : Procindex} (hsize : t'.size = t.size) (hmax : t'.maxPid = t.maxPid) :
    doubledSize t' = doubledSize t := by
  unfold doubledSize
  rw [hsize, hmax]

/-- **The growth loop of `procindex_add`**, computed. -/
theorem addGrow_eq (hpid : pid ≤ t.maxPid) :
    ∀ (rounds : Nat) (t' : Procindex), t'.Wf → t'.maxPid = t.maxPid →
      t'.GrowsBy (grownSize granted t.maxPid pid rounds t'.size)
        (addGrow granted pid rounds t'.size t') := by
  intro rounds
  induction rounds with
  | zero =>
      intro t' hwf hmax
      unfold grownSize addGrow
      cases hint : toInt (pid + 1) with
      | error e => exact rfl
      | ok pid1 =>
        simp only [ok_bind]
        by_cases hout : pid1 > t'.size
        · rw [if_pos hout, if_pos hout]
          exact rfl
        · rw [if_neg hout, if_neg hout]
          exact hwf.growsBy_self
  | succ rounds ih =>
      intro t' hwf hmax
      unfold grownSize addGrow
      cases hint : toInt (pid + 1) with
      | error e => exact rfl
      | ok pid1 =>
        simp only [ok_bind]
        by_cases hout : pid1 > t'.size
        · have hdouble : doubledSize { procs := [], size := t'.size, maxPid := t.maxPid }
              = doubledSize t' := doubledSize_congr rfl hmax.symm
          rw [if_pos hout, if_pos hout, hdouble]
          cases hn : doubledSize t' with
          | error e => exact rfl
          | ok n =>
            have hsize := hwf.size
            obtain ⟨rfl, -, -⟩ := toInt_eq_ok.mp hint
            have hge : t'.size ≤ n :=
              doubledSize_ge (by rw [hmax]; exact hpid) (by omega) hout hn
            simp only [ok_bind]
            by_cases hg : granted rounds = true
            · rw [if_pos hg, if_pos hg, nullFrom_padded hwf hge, ok_bind,
                show max t'.size n = n by omega]
              exact (ih (t'.padded n) (hwf.padded hge) hmax).of_padded hwf hge
            · rw [if_neg hg, if_neg hg]
              exact ⟨_, rfl⟩
        · rw [if_neg hout, if_neg hout]
          exact hwf.growsBy_self

/-- **The growth loop of `procindex_opencall_add`**, computed. -/
theorem openGrow_eq (hpid : pid ≤ t.maxPid) :
    ∀ (rounds : Nat) (t' : Procindex), t'.Wf → t'.maxPid = t.maxPid →
      t'.GrowsBy (grownSize granted t.maxPid pid rounds t'.size)
        (openGrow granted pid rounds t') := by
  intro rounds
  induction rounds with
  | zero =>
      intro t' hwf hmax
      unfold grownSize openGrow
      cases hint : toInt (pid + 1) with
      | error e => exact rfl
      | ok pid1 =>
        simp only [ok_bind]
        by_cases hout : pid1 > t'.size
        · rw [if_pos hout, if_pos hout]
          exact rfl
        · rw [if_neg hout, if_neg hout]
          exact hwf.growsBy_self
  | succ rounds ih =>
      intro t' hwf hmax
      unfold grownSize openGrow
      cases hint : toInt (pid + 1) with
      | error e => exact rfl
      | ok pid1 =>
        simp only [ok_bind]
        by_cases hout : pid1 > t'.size
        · have hdouble : doubledSize { procs := [], size := t'.size, maxPid := t.maxPid }
              = doubledSize t' := doubledSize_congr rfl hmax.symm
          rw [if_pos hout, if_pos hout, hdouble]
          cases hn : doubledSize t' with
          | error e => exact rfl
          | ok n =>
            have hsize := hwf.size
            obtain ⟨rfl, -, -⟩ := toInt_eq_ok.mp hint
            have hge : t'.size ≤ n :=
              doubledSize_ge (by rw [hmax]; exact hpid) (by omega) hout hn
            simp only [ok_bind]
            by_cases hg : granted rounds = true
            · rw [if_pos hg, if_pos hg, nullFrom_padded hwf hge, ok_bind,
                show max t'.size n = n by omega]
              exact (ih (t'.padded n) (hwf.padded hge) hmax).of_padded hwf hge
            · rw [if_neg hg, if_neg hg]
              exact ⟨_, rfl⟩
        · rw [if_neg hout, if_neg hout]
          exact hwf.growsBy_self

/-- What is known of the size after growing: it has room for the pid as a count, not as an index,
and it is an `int`. -/
theorem grownSize_spec {maxPid : Int} : ∀ (rounds : Nat) (size n : Int),
    grownSize granted maxPid pid rounds size = .ok (some n) →
      pid + 1 ≤ n ∧ pid + 1 ≤ 2147483647 ∧ (n = size ∨ n ≤ 2147483647) := by
  intro rounds
  induction rounds with
  | zero =>
      intro size n h
      unfold grownSize at h
      obtain ⟨pid1, hpid1, h⟩ := bind_ok h
      obtain ⟨rfl, -, hint⟩ := toInt_eq_ok.mp hpid1
      by_cases hout : pid + 1 > size
      · rw [if_pos hout] at h
        cases h
      · rw [if_neg hout] at h
        cases h
        exact ⟨by omega, hint, .inl rfl⟩
  | succ rounds ih =>
      intro size n h
      unfold grownSize at h
      obtain ⟨pid1, hpid1, h⟩ := bind_ok h
      obtain ⟨rfl, -, hint⟩ := toInt_eq_ok.mp hpid1
      by_cases hout : pid + 1 > size
      · rw [if_pos hout] at h
        obtain ⟨m, hm, h⟩ := bind_ok h
        by_cases hg : granted rounds = true
        · rw [if_pos hg] at h
          obtain ⟨hroom, -, hfits⟩ := ih m n h
          refine ⟨hroom, hint, .inr ?_⟩
          unfold doubledSize at hm
          obtain ⟨doubled, hdoubled, hm⟩ := bind_ok hm
          obtain ⟨full, hfull, hm⟩ := bind_ok hm
          rw [toInt_eq_ok] at hdoubled hfull
          cases hm
          rcases hfits with hfits | hfits
          · split at hfits <;> omega
          · exact hfits
        · rw [if_neg hg] at h
          cases h
      · rw [if_neg hout] at h
        cases h
        exact ⟨by omega, hint, .inl rfl⟩

theorem toInt_error {m : Int} {e : Fault} (h : toInt m = .error e) : e = .intOverflow := by
  unfold toInt at h
  split at h
  · cases h
  · cases h
    rfl

/-- The loop itself touches no slot that does not exist. -/
theorem grownSize_error {maxPid : Int} {e : Fault} : ∀ (rounds : Nat) (size : Int),
    grownSize granted maxPid pid rounds size = .error e → e = .intOverflow ∨ e = .diverges := by
  intro rounds
  induction rounds with
  | zero =>
      intro size h
      unfold grownSize at h
      rcases bind_eq_error.mp h with h | ⟨pid1, -, h⟩
      · exact .inl (toInt_error h)
      · by_cases hout : pid1 > size
        · rw [if_pos hout] at h
          cases h
          exact .inr rfl
        · rw [if_neg hout] at h
          cases h
  | succ rounds ih =>
      intro size h
      unfold grownSize at h
      rcases bind_eq_error.mp h with h | ⟨pid1, -, h⟩
      · exact .inl (toInt_error h)
      · by_cases hout : pid1 > size
        · rw [if_pos hout] at h
          rcases bind_eq_error.mp h with h | ⟨n, -, h⟩
          · unfold doubledSize at h
            rcases bind_eq_error.mp h with h | ⟨doubled, -, h⟩
            · exact .inl (toInt_error h)
            · rcases bind_eq_error.mp h with h | ⟨full, -, h⟩
              · exact .inl (toInt_error h)
              · cases h
          · by_cases hg : granted rounds = true
            · rw [if_pos hg] at h
              exact ih n h
            · rw [if_neg hg] at h
              cases h
        · rw [if_neg hout] at h
          cases h

/-- A table that has grown for a pid does not grow again for it. -/
theorem growsTo_padded {granted' : Nat → Bool} (h : t.growsTo granted pid = .ok (some n)) :
    (t.padded n).growsTo granted' pid = .ok (some n) := by
  obtain ⟨hroom, hint, -⟩ := grownSize_spec _ _ _ h
  have hnot : ¬ pid + 1 > n := by omega
  show grownSize granted' t.maxPid pid growRounds n = .ok (some n)
  unfold growRounds grownSize
  cases hpid1 : toInt (pid + 1) with
  | error e =>
      -- the loop has computed `pid+1` once already
      unfold growsTo growRounds grownSize at h
      rw [hpid1] at h
      cases h
  | ok pid1 =>
      obtain ⟨rfl, -, -⟩ := toInt_eq_ok.mp hpid1
      rw [ok_bind, if_neg hnot]
      rfl

/-! ## §2. Reading a table that is wholly initialised. -/

/-- A read of the table: the call in the slot, or a fault when there is no such slot. -/
theorem Wf.slot_eq (h : t.Wf) (i : Int) :
    t.slot i = if 0 ≤ i ∧ i < t.size then .ok (t.callAt i.toNat) else .error .outOfRange := by
  have hsize := h.size
  unfold slot
  by_cases hneg : i < 0
  · rw [if_pos hneg, if_neg (by omega)]
  rw [if_neg hneg]
  cases hs : t.procs[i.toNat]? with
  | none =>
      have hlen := List.getElem?_eq_none_iff.mp hs
      rw [if_neg (by omega)]
  | some s =>
      have hlt := (List.getElem?_eq_some_iff.mp hs).1
      rw [if_pos (by omega)]
      unfold callAt
      rw [hs]
      cases s with
      | uninit => exact absurd (List.mem_of_getElem? hs) h.init
      | null => rfl
      | proc r => rfl

/-- The pids whose slot exists, once the table has `n` slots. -/
def Within (n pid : Int) : Prop := 0 ≤ pid + 1 ∧ pid + 1 < n

instance (n pid : Int) : Decidable (Within n pid) := inferInstanceAs (Decidable (_ ∧ _))

theorem Wf.slot_within (h : t.Wf) (hpid : Within t.size pid) :
    t.slot (pid + 1) = .ok (t.callAt (pid + 1).toNat) := by
  unfold Within at hpid
  rw [h.slot_eq, if_pos hpid]

theorem Wf.slot_outside (h : t.Wf) (hpid : ¬ Within t.size pid) :
    t.slot (pid + 1) = .error .outOfRange := by
  unfold Within at hpid
  rw [h.slot_eq, if_neg hpid]

theorem Wf.callAt_none (h : t.Wf) (hpid : Within t.size pid)
    (hnone : t.callAt (pid + 1).toNat = none) : t.procs[(pid + 1).toNat]? = some .null := by
  have hslot := h.slot_within hpid
  rw [hnone, slot_eq_none] at hslot
  exact hslot.2

/-- `entry` guards the access, but for the pid whose slot would be the first one missing. -/
theorem Wf.entry_eq (h : t.Wf) (hint : toInt (pid + 1) = .ok (pid + 1)) :
    t.entry pid = if t.size < pid + 1 then .ok none
      else if Within t.size pid then .ok (t.callAt (pid + 1).toNat) else .error .outOfRange := by
  unfold entry
  rw [hint, ok_bind]
  by_cases hout : t.size < pid + 1
  · rw [if_pos hout, if_pos hout]
    rfl
  · rw [if_neg hout, if_neg hout, h.slot_eq]
    rfl

/-- The test `size < pid+1` answers the question whether the slot `pid+1` exists. -/
def Guarded (n pid : Int) : Prop := 0 ≤ pid + 1 ∧ pid + 1 ≠ n

instance (n pid : Int) : Decidable (Guarded n pid) := inferInstanceAs (Decidable (_ ∧ _))

/-- A guarded read leaves the table exactly when the guard misses the pid. -/
theorem Wf.entry_outOfRange (h : t.Wf) (hfits : t.size ≤ 2147483647) (p : Int32) :
    t.entry p.toInt = .error .outOfRange ↔ ¬ Guarded t.size p.toInt := by
  have hlt := p.toInt_lt
  have hle := p.le_toInt
  have hsize := h.size
  unfold Guarded
  cases hint : toInt (p.toInt + 1) with
  | error e =>
      -- the largest `int` has no successor
      have hmax : p.toInt + 1 > 2147483647 := by
        by_contra hsmall
        rw [toInt_eq_ok.mpr ⟨rfl, by omega, by omega⟩] at hint
        cases hint
      have hentry : t.entry p.toInt = .error e := by
        unfold entry
        rw [hint]
        rfl
      rw [hentry, toInt_error hint]
      constructor
      · intro he
        cases he
      · intro hnot
        omega
  | ok m =>
      obtain ⟨rfl, -, -⟩ := toInt_eq_ok.mp hint
      rw [h.entry_eq hint]
      by_cases hbeyond : t.size < p.toInt + 1
      · rw [if_pos hbeyond]
        constructor
        · intro he
          cases he
        · intro hnot
          omega
      · rw [if_neg hbeyond]
        by_cases hslot : Within t.size p.toInt
        · rw [if_pos hslot]
          unfold Within at hslot
          constructor
          · intro he
            cases he
          · intro hnot
            omega
        · rw [if_neg hslot]
          unfold Within at hslot
          constructor
          · intro _
            omega
          · intro _
            rfl

theorem holds_iff {p : Int32} (hp : 0 ≤ p.toInt + 1) :
    t.Holds p ↔ ∃ r, t.callAt (p.toInt + 1).toNat = some r := by
  constructor
  · rintro ⟨k, r, hk, hr⟩
    refine ⟨r, ?_⟩
    rw [show (p.toInt + 1).toNat = k by omega]
    exact callAt_eq_some.mpr hr
  · rintro ⟨r, hr⟩
    exact ⟨(p.toInt + 1).toNat, r, by omega, callAt_eq_some.mp hr⟩

theorem callAt_of_not_holds {p : Int32} (hp : 0 ≤ p.toInt + 1) (h : ¬ t.Holds p) :
    t.callAt (p.toInt + 1).toNat = none := by
  rw [Option.eq_none_iff_forall_ne_some]
  intro r hr
  exact h ((holds_iff hp).mpr ⟨r, hr⟩)

theorem padded_holds {p : Int32} : (t.padded n).Holds p ↔ t.Holds p := by
  unfold Holds
  constructor
  · rintro ⟨k, r, hk, hr⟩
    exact ⟨k, r, hk, padded_proc.mp hr⟩
  · rintro ⟨k, r, hk, hr⟩
    exact ⟨k, r, hk, padded_proc.mpr hr⟩

end Procindex

/-! ## §3. `procindex_add`, computed. -/

section Add

variable {granted : Nat → Bool} {h : Heap} {t : Procindex} {call : ExecRef} {c : ExecCall} {n : Int}

variable (granted) in
theorem Procindex.Wf.add_grows (hwf : t.Wf) (hin : t.InRange c.pid) :
    t.GrowsBy (t.growsTo granted c.pid.toInt)
      (addGrow granted c.pid.toInt growRounds t.size t) :=
  Procindex.addGrow_eq hin.2 growRounds t hwf rfl

theorem procindexAdd_rejected (hc : h.execs call = some c) (hout : ¬ t.InRange c.pid) :
    procindexAdd granted h t call = .ok (-1, h, t) := by
  unfold procindexAdd
  unfold Procindex.InRange at hout
  rw [Heap.exec_some hc, ok_bind, if_pos (by omega)]
  rfl

variable (granted) in
/-- A growth loop that fails, or that is refused memory, ends the call. -/
theorem procindexAdd_not_grown (hc : h.execs call = some c) (hwf : t.Wf) (hin : t.InRange c.pid) :
    (∀ e, t.growsTo granted c.pid.toInt = .error e → procindexAdd granted h t call = .error e)
      ∧ (t.growsTo granted c.pid.toInt = .ok none →
        ∃ u, procindexAdd granted h t call = .ok (MEMORY_ALLOCATION_ERROR, h, u)) := by
  have hgrows := hwf.add_grows granted hin
  have hnot : ¬ (c.pid.toInt < 0 ∨ c.pid.toInt > t.maxPid) := by
    have h0 := hin.1
    have h1 := hin.2
    omega
  constructor
  · intro e he
    rw [he] at hgrows
    unfold procindexAdd
    rw [Heap.exec_some hc, ok_bind, if_neg hnot, show addGrow _ _ _ _ _ = _ from hgrows]
    rfl
  · intro hnone
    rw [hnone] at hgrows
    obtain ⟨u, hu⟩ := hgrows
    refine ⟨u, ?_⟩
    unfold procindexAdd
    rw [Heap.exec_some hc, ok_bind, if_neg hnot, hu]
    rfl

/-- What is left to do once the table has `n` slots. -/
theorem procindexAdd_grown (hc : h.execs call = some c) (hwf : t.Wf) (hin : t.InRange c.pid)
    (hn : t.growsTo granted c.pid.toInt = .ok (some n)) :
    procindexAdd granted h t call = (do
      match ← (t.padded n).slot (c.pid.toInt + 1) with
      | some _ => return (ALREADY_EXISTS_IN_CONTAINER, h, t.padded n)
      | none =>
        let parent ← (t.padded n).entry c.ppid.toInt
        let h ← linkParent h (t.padded n) call c (c.pid.toInt + 1) parent
        let this ← (t.padded n).setSlot (c.pid.toInt + 1) (.proc call)
        return (NOMINAL, h, this)) := by
  have hgrows := hwf.add_grows granted hin
  rw [hn] at hgrows
  obtain ⟨hrun, -⟩ := hgrows
  obtain ⟨-, hint, -⟩ := Procindex.grownSize_spec _ _ _ hn
  have h0 := hin.1
  have h1 := hin.2
  have hpid1 : toInt (c.pid.toInt + 1) = .ok (c.pid.toInt + 1) :=
    toInt_eq_ok.mpr ⟨rfl, by omega, hint⟩
  unfold procindexAdd
  rw [Heap.exec_some hc, ok_bind, if_neg (by omega), hrun, ok_bind]
  simp only [if_true]
  rw [hpid1]
  rfl

theorem Procindex.Wf.grown (hwf : t.Wf) (hin : t.InRange c.pid)
    (hn : t.growsTo granted c.pid.toInt = .ok (some n)) : (t.padded n).Wf := by
  have hgrows := hwf.add_grows granted hin
  rw [hn] at hgrows
  exact hwf.padded hgrows.2

variable (hc : h.execs call = some c) (hwf : t.Wf) (hin : t.InRange c.pid)
  (hn : t.growsTo granted c.pid.toInt = .ok (some n))

include hc hwf hin hn

/-- The pid that needs exactly as many slots as there are: its own slot is the first one missing. -/
theorem procindexAdd_outside (hout : ¬ Procindex.Within n c.pid.toInt) :
    procindexAdd granted h t call = .error .outOfRange := by
  rw [procindexAdd_grown hc hwf hin hn, (hwf.grown hin hn).slot_outside hout]
  rfl

theorem procindexAdd_present (hslot : Procindex.Within n c.pid.toInt) (hholds : t.Holds c.pid) :
    procindexAdd granted h t call = .ok (ALREADY_EXISTS_IN_CONTAINER, h, t.padded n) := by
  obtain ⟨r, hr⟩ := (Procindex.holds_iff hslot.1).mp hholds
  rw [procindexAdd_grown hc hwf hin hn, (hwf.grown hin hn).slot_within hslot,
    Procindex.padded_callAt, hr]
  rfl

variable (granted) in
/-- With an empty slot of its own, everything depends on what is found for the parent. -/
theorem procindexAdd_empty (hslot : Procindex.Within n c.pid.toInt) (hfree : ¬ t.Holds c.pid) :
    procindexAdd granted h t call = (do
      match ← (t.padded n).entry c.ppid.toInt with
      | some _ => .error .nullDeref
      | none => return (NOMINAL, h.setExec call { c with ppid := 0 },
          (t.padded n).withSlot (c.pid.toInt + 1).toNat (.proc call))) := by
  have hgrown := hwf.grown hin hn
  have hnone := Procindex.callAt_of_not_holds hslot.1 hfree
  have hpadded : (t.padded n).callAt (c.pid.toInt + 1).toNat = none := by
    rw [Procindex.padded_callAt, hnone]
  have hread := hgrown.slot_within hslot
  have hset := Procindex.setSlot_ok hslot.1 (hgrown.callAt_none hslot hpadded) (.proc call)
  rw [procindexAdd_grown hc hwf hin hn, hread, hpadded, ok_bind]
  cases hentry : (t.padded n).entry c.ppid.toInt with
  | error e => rfl
  | ok parent =>
    cases parent with
    | none =>
        simp only [ok_bind]
        unfold linkParent
        simp only [ok_bind]
        rw [hset]
        rfl
    | some parent =>
        -- the time stamp is read from the slot that has just been found empty
        simp only [ok_bind]
        unfold linkParent
        rw [hread, hpadded]
        rfl

omit hc hwf hin hn

/-- **Which calls of `procindex_add` access a slot that does not exist.** -/
theorem procindexAdd_outOfRange (hc : h.execs call = some c) (hwf : t.Wf)
    (hfits : t.size ≤ 2147483647) :
    procindexAdd granted h t call = .error .outOfRange ↔
      t.InRange c.pid ∧ ∃ n, t.growsTo granted c.pid.toInt = .ok (some n)
        ∧ ¬ (Procindex.Within n c.pid.toInt ∧ (¬ t.Holds c.pid → Procindex.Guarded n c.ppid.toInt)) := by
  by_cases hin : t.InRange c.pid
  · obtain ⟨hfails, hrefused⟩ := procindexAdd_not_grown granted hc hwf hin
    cases hg : t.growsTo granted c.pid.toInt with
    | error e =>
        have hkind := Procindex.grownSize_error _ _ hg
        rw [hfails e hg]
        constructor
        · intro he
          cases he
          rcases hkind with hkind | hkind <;> cases hkind
        · rintro ⟨-, n, hn, -⟩
          cases hn
    | ok o =>
      cases o with
      | none =>
          obtain ⟨u, hu⟩ := hrefused hg
          rw [hu]
          constructor
          · intro he
            cases he
          · rintro ⟨-, n, hn, -⟩
            cases hn
      | some n =>
        have hn : n ≤ 2147483647 := by
          obtain ⟨-, -, hn⟩ := Procindex.grownSize_spec _ _ _ hg
          omega
        have hiff : (t.InRange c.pid ∧ ∃ m, (Except.ok (some n) : Except Fault (Option Int))
              = .ok (some m) ∧ ¬ (Procindex.Within m c.pid.toInt
                ∧ (¬ t.Holds c.pid → Procindex.Guarded m c.ppid.toInt)))
            ↔ ¬ (Procindex.Within n c.pid.toInt
              ∧ (¬ t.Holds c.pid → Procindex.Guarded n c.ppid.toInt)) := by
          constructor
          · rintro ⟨-, m, hm, hnot⟩
            cases hm
            exact hnot
          · intro hnot
            exact ⟨hin, n, rfl, hnot⟩
        rw [hiff]
        by_cases hslot : Procindex.Within n c.pid.toInt
        · by_cases hholds : t.Holds c.pid
          · rw [procindexAdd_present hc hwf hin hg hslot hholds]
            constructor
            · intro he
              cases he
            · intro hnot
              exact absurd ⟨hslot, fun hfree => absurd hholds hfree⟩ hnot
          · have hentry := (hwf.grown hin hg).entry_outOfRange hn c.ppid
            replace hentry : _ ↔ ¬ Procindex.Guarded n c.ppid.toInt := hentry
            have hguard : ¬ (Procindex.Within n c.pid.toInt
                  ∧ (¬ t.Holds c.pid → Procindex.Guarded n c.ppid.toInt))
                ↔ ¬ Procindex.Guarded n c.ppid.toInt :=
              not_congr ⟨fun hall => hall.2 hholds, fun hguard => ⟨hslot, fun _ => hguard⟩⟩
            rw [procindexAdd_empty _ hc hwf hin hg hslot hholds, hguard, ← hentry]
            cases (t.padded n).entry c.ppid.toInt with
            | error e => rw [error_bind, Except.error.injEq, Except.error.injEq]
            | ok parent =>
              cases parent with
              | none => simp
              | some r => simp
        · rw [procindexAdd_outside hc hwf hin hg hslot]
          exact ⟨fun _ hall => hslot hall.1, fun _ => rfl⟩
  · rw [procindexAdd_rejected hc hin]
    constructor
    · intro he
      cases he
    · rintro ⟨h, -⟩
      exact absurd h hin

end Add

/-! ## §4. `procindex_opencall_add`, computed. -/

section Opencall

variable {alloc : OpencallAlloc} {h : Heap} {t : Procindex} {ocall : OpenRef} {oc : OpenCall} {n : Int}

variable (ocall) in
/-- Storing the pointer in the buffer of an entry whose parent is unknown: nothing but the entry
changes. -/
theorem attachOpen_orphan {target : ExecRef} {c : ExecCall} (hwf : t.Wf)
    (hc : h.execs target = some c) (hroom : c.callNum < c.callBuff.length) (hppid : c.ppid = 0)
    (hpid : 0 ≤ c.pid.toInt) (hint : toInt (c.pid.toInt + 1) = .ok (c.pid.toInt + 1))
    (hslot : Procindex.Within t.size c.pid.toInt)
    (hentry : t.callAt (c.pid.toInt + 1).toNat = some target) :
    ∃ h', h'.execs = Function.update h.execs target (some { c.push ocall with tracked := true })
      ∧ attachOpen h t target ocall = (toInt (c.callNum + 1) >>= fun _ => .ok h') := by
  have hnot : ¬ c.callBuff.length ≤ c.callNum := by omega
  unfold attachOpen
  rw [Heap.exec_some hc, ok_bind, if_neg hnot]
  by_cases htracked : c.tracked = true
  · refine ⟨(h.setExec target (c.push ocall)).noteAttached target ocall, ?_, ?_⟩
    · have hsame : c.push ocall = { c.push ocall with tracked := true } := by
        rw [← htracked]
        rfl
      rw [← hsame]
      rfl
    · simp only [if_pos htracked]
      rfl
  · refine ⟨((h.setExec target (c.push ocall)).noteAttached target ocall).setExec target
      { c.push ocall with tracked := true }, ?_, ?_⟩
    · simp
    · simp only [if_neg htracked]
      congr 1
      funext _
      -- one round: the entry is tracked now, and its parent is the pid 0 that stands for none
      have hone : toInt ((0 : Int32).toInt + 1) = .ok ((0 : Int32).toInt + 1) :=
        toInt_eq_ok.mpr ⟨rfl, by decide, by decide⟩
      have hzero : Procindex.Within t.size (0 : Int32).toInt := by
        unfold Procindex.Within at *
        have : (0 : Int32).toInt = 0 := rfl
        omega
      unfold procindexTrackparents
      rw [hint, ok_bind, hwf.slot_within hslot, hentry, ok_bind]
      simp only [Heap.exec, Heap.setExec_execs, Function.update_self, ok_bind, ExecCall.push, hppid]
      rw [hone, ok_bind, hwf.slot_within hzero, ok_bind]
      split
      · rfl
      · rfl

theorem procindexOpencallAdd_rejected (hoc : h.opens ocall = some oc) (hout : ¬ t.InRange oc.pid) :
    procindexOpencallAdd alloc h t ocall = .ok (-1, h, t) := by
  unfold procindexOpencallAdd
  unfold Procindex.InRange at hout
  rw [Heap.openCall_some hoc, ok_bind, if_pos (by omega)]
  rfl

variable (alloc) in
theorem Procindex.Wf.open_grows (hwf : t.Wf) (hin : t.InRange oc.pid) :
    t.GrowsBy (t.growsTo alloc.grow oc.pid.toInt)
      (openGrow alloc.grow oc.pid.toInt growRounds t) :=
  Procindex.openGrow_eq hin.2 growRounds t hwf rfl

variable (alloc) in
theorem procindexOpencallAdd_not_grown (hoc : h.opens ocall = some oc) (hwf : t.Wf)
    (hin : t.InRange oc.pid) :
    (∀ e, t.growsTo alloc.grow oc.pid.toInt = .error e →
        procindexOpencallAdd alloc h t ocall = .error e)
      ∧ (t.growsTo alloc.grow oc.pid.toInt = .ok none →
        ∃ u, procindexOpencallAdd alloc h t ocall = .ok (MEMORY_ALLOCATION_ERROR, h, u)) := by
  have hgrows := hwf.open_grows alloc hin
  have hnot : ¬ (oc.pid.toInt < 0 ∨ t.maxPid < oc.pid.toInt) := by
    have h0 := hin.1
    have h1 := hin.2
    omega
  constructor
  · intro e he
    rw [he] at hgrows
    unfold procindexOpencallAdd
    rw [Heap.openCall_some hoc, ok_bind, if_neg hnot, show openGrow _ _ _ _ = _ from hgrows]
    rfl
  · intro hnone
    rw [hnone] at hgrows
    obtain ⟨u, hu⟩ := hgrows
    refine ⟨u, ?_⟩
    unfold procindexOpencallAdd
    rw [Heap.openCall_some hoc, ok_bind, if_neg hnot, hu]
    rfl

/-- What is left to do once the table has `n` slots. -/
theorem procindexOpencallAdd_grown (hoc : h.opens ocall = some oc) (hwf : t.Wf)
    (hin : t.InRange oc.pid) (hn : t.growsTo alloc.grow oc.pid.toInt = .ok (some n)) :
    procindexOpencallAdd alloc h t ocall = (do
      match ← (t.padded n).entry oc.pid.toInt with
      | some target =>
        match ← growCallBuff alloc.callBuff h target with
        | none => return (MEMORY_ALLOCATION_ERROR, h, t.padded n)
        | some h => return (NOMINAL, ← attachOpen h (t.padded n) target ocall, t.padded n)
      | none =>
        match ← addDummy alloc h (t.padded n) oc with
        | none => return (MEMORY_ALLOCATION_ERROR, h, t.padded n)
        | some (h, this) =>
          match ← this.slot (← toInt (oc.pid.toInt + 1)) with
          | none => .error .nullDeref
          | some target => return (NOMINAL, ← attachOpen h this target ocall, this)) := by
  have hgrows := hwf.open_grows alloc hin
  rw [hn] at hgrows
  obtain ⟨hrun, -⟩ := hgrows
  have h0 := hin.1
  have h1 := hin.2
  unfold procindexOpencallAdd
  rw [Heap.openCall_some hoc, ok_bind, if_neg (by omega), hrun, ok_bind]
  rfl

/-- What the growth has established for the rest of the call. -/
structure Ready (t : Procindex) (pid n : Int) : Prop where
  wf : (t.padded n).Wf
  int : toInt (pid + 1) = .ok (pid + 1)
  notBeyond : ¬ (t.padded n).size < pid + 1

theorem Procindex.Wf.open_ready (hwf : t.Wf) (hin : t.InRange oc.pid)
    (hn : t.growsTo alloc.grow oc.pid.toInt = .ok (some n)) : Ready t oc.pid.toInt n := by
  have hgrows := hwf.open_grows alloc hin
  rw [hn] at hgrows
  obtain ⟨hroom, hint, -⟩ := Procindex.grownSize_spec _ _ _ hn
  have h0 := hin.1
  have hroom : ¬ n < oc.pid.toInt + 1 := by omega
  exact ⟨hwf.padded hgrows.2, toInt_eq_ok.mpr ⟨rfl, by omega, hint⟩, hroom⟩

theorem procindexOpencallAdd_outside (hoc : h.opens ocall = some oc) (hwf : t.Wf)
    (hin : t.InRange oc.pid) (hn : t.growsTo alloc.grow oc.pid.toInt = .ok (some n))
    (hout : ¬ Procindex.Within n oc.pid.toInt) :
    procindexOpencallAdd alloc h t ocall = .error .outOfRange := by
  have hready := hwf.open_ready hin hn
  rw [procindexOpencallAdd_grown hoc hwf hin hn, hready.wf.entry_eq hready.int,
    if_neg hready.notBeyond]
  rw [if_neg (show ¬ Procindex.Within (t.padded n).size oc.pid.toInt from hout)]
  rfl

/-- The dummy for a pid with an empty slot: its parent is the pid 0, so an entry for the pid 0
makes the code read the time stamp of the empty slot. -/
theorem addDummy_eq (hwf : t.Wf) (hin : t.InRange oc.pid)
    (hn : t.growsTo alloc.add oc.pid.toInt = .ok (some t.size))
    (hslot : Procindex.Within t.size oc.pid.toInt) (hfree : ¬ t.Holds oc.pid) :
    addDummy alloc h t oc
      = if ¬ alloc.newProc then .error .nullDeref
        else if alloc.args ∧ alloc.cmdName ∧ alloc.calloc then
          match t.callAt 1 with
          | some _ => .error .nullDeref
          | none => .ok (some ((h.mallocExec true (dummyCall oc)).setExec h.nextExec
              { dummyCall oc with ppid := 0 },
              t.withSlot (oc.pid.toInt + 1).toNat (.proc h.nextExec)))
        else .ok none := by
  have hc : (h.mallocExec true (dummyCall oc)).execs h.nextExec = some (dummyCall oc) :=
    Function.update_self _ _ _
  have hone : toInt ((0 : Int32).toInt + 1) = .ok ((0 : Int32).toInt + 1) :=
    toInt_eq_ok.mpr ⟨rfl, by decide, by decide⟩
  have h0 := hin.1
  have hzero : Procindex.Within t.size (0 : Int32).toInt := by
    unfold Procindex.Within at *
    have : (0 : Int32).toInt = 0 := rfl
    omega
  have hnear : ¬ t.size < (0 : Int32).toInt + 1 := by
    unfold Procindex.Within at hzero
    omega
  have hadd := procindexAdd_empty alloc.add hc hwf hin hn hslot hfree
  rw [hwf.padded_self, show (dummyCall oc).ppid = 0 from rfl, hwf.entry_eq hone, if_neg hnear,
    if_pos hzero, ok_bind, show ((0 : Int32).toInt + 1).toNat = 1 from rfl] at hadd
  unfold addDummy
  by_cases hnew : ¬ alloc.newProc
  · rw [if_pos hnew, if_pos hnew]
  · rw [if_neg hnew, if_neg hnew]
    by_cases hrest : alloc.args ∧ alloc.cmdName ∧ alloc.calloc
    · rw [if_pos hrest, if_pos hrest, hadd]
      cases t.callAt 1 with
      | none => rfl
      | some r => rfl
    · rw [if_neg hrest, if_neg hrest]

theorem Procindex.withSlot_callAt_self {k : Nat} {r : ExecRef} (hk : k < t.procs.length) :
    (t.withSlot k (.proc r)).callAt k = some r := by
  rw [Procindex.callAt_eq_some]
  show (t.procs.set k (.proc r))[k]? = _
  rw [List.getElem?_set_self hk]

theorem Procindex.withSlot_callAt_ne {j k : Nat} {s : Slot} (hjk : j ≠ k) :
    (t.withSlot k s).callAt j = t.callAt j := by
  unfold Procindex.callAt
  show (t.procs.set k s)[j]?.bind Slot.call = _
  rw [List.getElem?_set_ne (Ne.symm hjk)]

/-- The dummy as `procindex_opencall_add` leaves it. -/
def dummyWith (oc : OpenCall) (ocall : OpenRef) : ExecCall :=
  { (ExecCall.push { dummyCall oc with ppid := 0 } ocall) with tracked := true }

variable (alloc) in
/-- **`procindex_opencall_add` of a pid with an empty slot.** -/
theorem procindexOpencallAdd_dummy (hoc : h.opens ocall = some oc) (hwf : t.Wf)
    (hin : t.InRange oc.pid) (hn : t.growsTo alloc.grow oc.pid.toInt = .ok (some n))
    (hslot : Procindex.Within n oc.pid.toInt) (hfree : ¬ t.Holds oc.pid) :
    ∃ h', h'.execs = Function.update h.execs h.nextExec (some (dummyWith oc ocall))
      ∧ procindexOpencallAdd alloc h t ocall
        = if ¬ alloc.newProc then .error .nullDeref
          else if alloc.args ∧ alloc.cmdName ∧ alloc.calloc then
            match t.callAt 1 with
            | some _ => .error .nullDeref
            | none => .ok (NOMINAL, h',
                (t.padded n).withSlot (oc.pid.toInt + 1).toNat (.proc h.nextExec))
          else .ok (MEMORY_ALLOCATION_ERROR, h, t.padded n) := by
  have hready := hwf.open_ready hin hn
  have hwf' := hready.wf
  have hlen : (((t.padded n).procs.length : Nat) : Int) = n := hwf'.size
  have hlt : (oc.pid.toInt + 1).toNat < (t.padded n).procs.length := by
    unfold Procindex.Within at hslot
    omega
  have hnone : (t.padded n).callAt (oc.pid.toInt + 1).toNat = none := by
    rw [Procindex.padded_callAt]
    exact Procindex.callAt_of_not_holds hslot.1 hfree
  have hgrown : (t.padded n).growsTo alloc.add oc.pid.toInt = .ok (some (t.padded n).size) :=
    Procindex.growsTo_padded hn
  have hadd := addDummy_eq (h := h) hwf' hin hgrown hslot fun hh => hfree (Procindex.padded_holds.mp hh)
  -- the pointer goes into the buffer of the dummy
  have hwf'' := hwf'.withSlot (oc.pid.toInt + 1).toNat (s := .proc h.nextExec) (by simp)
  have hcall : ((h.mallocExec true (dummyCall oc)).setExec h.nextExec
      { dummyCall oc with ppid := 0 }).execs h.nextExec = some { dummyCall oc with ppid := 0 } :=
    Function.update_self _ _ _
  have hself : ((t.padded n).withSlot (oc.pid.toInt + 1).toNat (.proc h.nextExec)).callAt
      (oc.pid.toInt + 1).toNat = some h.nextExec := Procindex.withSlot_callAt_self hlt
  obtain ⟨h', hexecs, hattach⟩ := attachOpen_orphan ocall hwf'' hcall
    (by show 0 < 8; omega) rfl
    hin.1 hready.int hslot hself
  have hcount : toInt ((({ dummyCall oc with ppid := 0 } : ExecCall).callNum : Int) + 1)
      = .ok (0 + 1) := by
    show toInt (0 + 1) = _
    exact toInt_eq_ok.mpr ⟨rfl, by omega, by omega⟩
  rw [hcount, ok_bind] at hattach
  refine ⟨h', ?_, ?_⟩
  · rw [hexecs]
    simp only [Heap.setExec_execs, Heap.mallocExec_execs, Function.update_idem]
    rfl
  · rw [procindexOpencallAdd_grown hoc hwf hin hn, hwf'.entry_eq hready.int,
      if_neg hready.notBeyond]
    rw [if_pos (show Procindex.Within (t.padded n).size oc.pid.toInt from hslot), hnone, ok_bind]
    simp only [hadd]
    by_cases hnew : ¬ alloc.newProc
    · rw [if_pos hnew, if_pos hnew]
      rfl
    · rw [if_neg hnew, if_neg hnew]
      by_cases hrest : alloc.args ∧ alloc.cmdName ∧ alloc.calloc
      · rw [if_pos hrest, if_pos hrest, Procindex.padded_callAt]
        cases t.callAt 1 with
        | some r => rfl
        | none =>
            simp only [ok_bind]
            rw [hready.int, ok_bind, hwf''.slot_within hslot, hself, ok_bind]
            simp only [hattach]
            rfl
      · rw [if_neg hrest, if_neg hrest]
        rfl

end Opencall

end DirSurveiller
