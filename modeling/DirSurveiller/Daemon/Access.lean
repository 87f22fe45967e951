/-
  DirSurveiller.Daemon.Access — runs that stay inside the process table.

  Here the index is driven by `procindex_add`, `procindex_opencall_add` and `procindex_retrieve`
  alone, with any pids and any memory contents the parsers can deliver.  `Op.InTable` says of a
  call, in the state before it, that the slots it looks at exist and that their indices are `int`s;
  `Orderly` is what every such run keeps.

  Main result:
    * `table_accesses_iff` — a run accesses no slot outside of the table, and computes no index that
      overflows, iff all its calls are `InTable`.
-/
import DirSurveiller.Index.Progress
import DirSurveiller.Daemon.Operations

namespace DirSurveiller

open CMachine Outcome

section Access

attribute [local irreducible] toInt

/-! ## §1. Calls that stay inside the table. -/

/-- The calls this file is about. -/
def Op.IndexCall : Op → Prop
  | .add _ _ => True
  | .opencallAdd _ _ => True
  | .retrieve _ => True
  | _ => False

/-- The slot of a parent can be asked for: `ppid+1` is an `int`, and its guard answers for it. -/
def Procindex.Askable (n ppid : Int) : Prop := Procindex.Guarded n ppid ∧ ppid < 2147483647

/-- Every slot the call looks at exists: the slot of its pid once the table has grown, and the slot
of the parent when the own slot is empty.  On the way to them nothing overflows. -/
def Op.InTable (s : Surveiller) : Op → Prop
  | .add granted e => s.procs.InRange e.pid →
      s.procs.growsTo granted e.pid.toInt ≠ .error .intOverflow
      ∧ ∀ n, s.procs.growsTo granted e.pid.toInt = .ok (some n) →
        Procindex.Within n e.pid.toInt
          ∧ (¬ s.procs.Holds e.pid → Procindex.Askable n e.ppid.toInt)
  | .opencallAdd alloc o => s.procs.InRange o.call.pid →
      s.procs.growsTo alloc.grow o.call.pid.toInt ≠ .error .intOverflow
      ∧ ∀ n, s.procs.growsTo alloc.grow o.call.pid.toInt = .ok (some n) →
        Procindex.Within n o.call.pid.toInt
  | .retrieve pid => Procindex.Askable s.procs.size pid.toInt
  | _ => True

/-- The arithmetic of the call with pids and sizes of the table leaves `int`.  That of
`procindex_opencall_add` is the one of its growth loop; what else it counts are the open calls of an
entry. -/
def Op.IndexOverflows (s : Surveiller) : Op → Prop
  | .add granted e => applyOp s (.add granted e) = .error .intOverflow
  | .opencallAdd alloc o => s.procs.InRange o.call.pid
      ∧ openGrow alloc.grow o.call.pid.toInt growRounds s.procs = .error .intOverflow
  | .retrieve pid => applyOp s (.retrieve pid) = .error .intOverflow
  | _ => False

/-- The table is as large as recorded, its size is an `int`, and its entries have no parent. -/
structure Orderly (h : Heap) (t : Procindex) : Prop where
  wf : t.Wf
  fits : t.size ≤ 2147483647
  orphans : ∀ (k : Nat) (r : ExecRef) c, t.callAt k = some r → h.execs r = some c → c.ppid = 0

section Step

variable {h h' : Heap} {t : Procindex} {n : Int}

theorem Orderly.padded (ho : Orderly h t) (hn : t.size ≤ n) (hfits : n ≤ 2147483647) :
    Orderly h (t.padded n) :=
  ⟨ho.wf.padded hn, hfits, fun k r c hk hc => by
    rw [Procindex.padded_callAt] at hk
    exact ho.orphans k r c hk hc⟩

/-- One object has changed, and it has no parent. -/
theorem Orderly.update {r : ExecRef} {c : ExecCall} (ho : Orderly h t)
    (hexecs : h'.execs = Function.update h.execs r (some c)) (hc : c.ppid = 0) : Orderly h' t := by
  refine ⟨ho.wf, ho.fits, fun k x d hk hd => ?_⟩
  rw [hexecs] at hd
  rcases Heap.update_eq_some hd with ⟨-, hd⟩ | ⟨-, hd⟩
  · cases hd
    exact hc
  · exact ho.orphans k x d hk hd

/-- One more entry, without a parent. -/
theorem Orderly.store {r : ExecRef} {c : ExecCall} {k : Nat} (ho : Orderly h t)
    (hexecs : h'.execs = Function.update h.execs r (some c)) (hc : c.ppid = 0) :
    Orderly h' (t.withSlot k (.proc r)) := by
  have hsame := ho.update hexecs hc
  refine ⟨ho.wf.withSlot k (by simp), ho.fits, fun j x d hj hd => ?_⟩
  rcases Procindex.withSlot_proc (Procindex.callAt_eq_some.mp hj) with ⟨-, rfl⟩ | ⟨-, hold⟩
  · rw [hexecs, Function.update_self] at hd
    cases hd
    exact hc
  · exact hsame.orphans j x d (Procindex.callAt_eq_some.mpr hold) hd

/-- Making room in the buffer of an entry: only an `int` can be exhausted, and the entry keeps its
pid and its parent. -/
theorem growCallBuff_orphan {granted : Bool} {target : ExecRef} {c : ExecCall}
    (hc : h.execs target = some c) (hroom : Room c) :
    Meets (· = .intOverflow) (growCallBuff granted h target) fun p => ∀ h1, p = some h1 →
      ∃ c', h1.execs = Function.update h.execs target (some c') ∧ c'.ppid = c.ppid
        ∧ c'.pid = c.pid ∧ c'.callNum < c'.callBuff.length := by
  have hlen := hroom.length
  have hfree := hroom.room
  unfold growCallBuff
  rw [Heap.exec_some hc, ok_bind]
  cases hint : toInt (c.callNum + 2) with
  | error e => exact Procindex.toInt_error hint
  | ok m =>
    obtain ⟨rfl, -, hmax⟩ := toInt_eq_ok.mp hint
    rw [ok_bind]
    by_cases hfull : (c.callNum : Int) + 2 = c.callBuffSize
    · rw [if_pos hfull]
      by_cases hg : granted = true
      · rw [if_pos hg]
        -- the room is twice a number that fits an `int`: the multiplication does not wrap
        have hdouble : c.callBuffSize * 2 % 2 ^ 64 = c.callBuffSize * 2 := by omega
        obtain ⟨-, hroomy⟩ := enlarge_similar hroom (by omega)
        have hlen' := hroomy.length
        have hfree' := hroomy.room
        intro h1 hh1
        cases hh1
        rw [hdouble]
        exact ⟨_, rfl, rfl, rfl, by omega⟩
      · rw [if_neg hg]
        intro h1 hh1
        cases hh1
    · rw [if_neg hfull]
      intro h1 hh1
      cases hh1
      refine ⟨c, ?_, rfl, rfl, by omega⟩
      rw [← hc, Function.update_eq_self]

/-- An open call of a pid with an entry. -/
theorem procindexOpencallAdd_present {alloc : OpencallAlloc} {l : Ledger} {ocall : OpenRef}
    {oc : OpenCall} {target : ExecRef} (hsound : l.Sound) (ho : Orderly l.heap l.procs)
    (hoc : l.heap.opens ocall = some oc) (hin : l.procs.InRange oc.pid)
    (hn : l.procs.growsTo alloc.grow oc.pid.toInt = .ok (some n))
    (hslot : Procindex.Within n oc.pid.toInt)
    (htarget : l.procs.callAt (oc.pid.toInt + 1).toNat = some target) :
    Meets (· = .intOverflow) (procindexOpencallAdd alloc l.heap l.procs ocall) fun p =>
      Orderly p.2.1 p.2.2 := by
  have hgrows := ho.wf.open_grows alloc hin
  rw [hn] at hgrows
  have hready := ho.wf.open_ready hin hn
  have hsize : n ≤ 2147483647 := by
    have hfits := ho.fits
    obtain ⟨-, -, hn⟩ := Procindex.grownSize_spec _ _ _ hn
    omega
  have hpadded := ho.padded hgrows.2 hsize
  -- growing leaves the entry where it was
  have hslot' : Procindex.Within (l.procs.padded n).size oc.pid.toInt := hslot
  have hentry : (l.procs.padded n).callAt (oc.pid.toInt + 1).toNat = some target := by
    rw [Procindex.padded_callAt, htarget]
  obtain ⟨c, hc, hpid⟩ := hsound.entry_live (Procindex.callAt_eq_some.mp htarget)
  have hppid := ho.orphans _ _ _ htarget hc
  have hsame : c.pid.toInt = oc.pid.toInt := by
    have := hin.1
    omega
  rw [procindexOpencallAdd_grown hoc ho.wf hin hn, hready.wf.entry_eq hready.int,
    if_neg hready.notBeyond, if_pos hslot', hentry, ok_bind]
  refine (growCallBuff_orphan hc (hsound.objects.room _ _ hc)).bind fun grown hgrown => ?_
  -- no room granted: the call gives up with the table grown and the heap as it was
  cases grown with
  | none => exact hpadded
  | some h1 =>
    obtain ⟨c', hexecs, hppid', hpid', hroom⟩ := hgrown h1 rfl
    have hc' : h1.execs target = some c' := by rw [hexecs, Function.update_self]
    have hpids : c'.pid.toInt = oc.pid.toInt := by rw [hpid', hsame]
    obtain ⟨h2, hexecs', hattach⟩ := attachOpen_orphan ocall hready.wf hc' hroom
      (hppid'.trans hppid) (by rw [hpids]; exact hin.1) (by rw [hpids]; exact hready.int)
      (by rw [hpids]; exact hslot') (by rw [hpids]; exact hentry)
    show Meets _ (attachOpen h1 (l.procs.padded n) target ocall >>= fun h => _) _
    rw [hattach]
    cases hint : toInt (c'.callNum + 1) with
    | error e => exact Procindex.toInt_error hint
    | ok m =>
        refine hpadded.update (r := target) (c := { c'.push ocall with tracked := true }) ?_
          (hppid'.trans hppid)
        show h2.execs = _
        rw [hexecs', hexecs, Function.update_idem]

/-- **`procindex_opencall_add`** reads one slot more than it makes room for, and no other that does
not exist. -/
theorem procindexOpencallAdd_orderly {alloc : OpencallAlloc} {l : Ledger} {ocall : OpenRef}
    {oc : OpenCall} (hsound : l.Sound) (ho : Orderly l.heap l.procs)
    (hoc : l.heap.opens ocall = some oc) (hgranted : alloc.Granted) :
    (procindexOpencallAdd alloc l.heap l.procs ocall = .error .outOfRange ↔
      l.procs.InRange oc.pid ∧ ∃ n, l.procs.growsTo alloc.grow oc.pid.toInt = .ok (some n)
        ∧ ¬ Procindex.Within n oc.pid.toInt)
    ∧ ∀ p, procindexOpencallAdd alloc l.heap l.procs ocall = .ok p → Orderly p.2.1 p.2.2 := by
  by_cases hin : l.procs.InRange oc.pid
  · obtain ⟨hfails, hrefused⟩ := procindexOpencallAdd_not_grown alloc hoc ho.wf hin
    cases hg : l.procs.growsTo alloc.grow oc.pid.toInt with
    | error e =>
        have hkind := Procindex.grownSize_error _ _ hg
        rw [hfails e hg]
        refine ⟨⟨fun he => ?_, fun ⟨_, n, hn, _⟩ => nomatch hn⟩, fun p hp => nomatch hp⟩
        cases he
        rcases hkind with hkind | hkind <;> cases hkind
    | ok o =>
      have hgrows := ho.wf.open_grows alloc hin
      rw [hg] at hgrows
      cases o with
      | none =>
          -- nothing is refused
          obtain ⟨u, hu⟩ := hgrows
          obtain ⟨-, -, -, hready⟩ :=
            Procindex.openGrow_spec _ _ _ _ (Int.le_of_eq ho.wf.size) hin.2 hu
          exact Bool.noConfusion (hready hgranted.grow ho.wf).1
      | some n =>
        have hsize : n ≤ 2147483647 := by
          have hfits := ho.fits
          obtain ⟨-, -, hn⟩ := Procindex.grownSize_spec _ _ _ hg
          omega
        have hpadded := ho.padded hgrows.2 hsize
        by_cases hslot : Procindex.Within n oc.pid.toInt
        · have hinside : ¬ (l.procs.InRange oc.pid ∧ ∃ m,
              (Except.ok (some n) : Except Fault (Option Int)) = .ok (some m)
              ∧ ¬ Procindex.Within m oc.pid.toInt) := by
            rintro ⟨-, m, hm, hout⟩
            cases hm
            exact hout hslot
          cases htarget : l.procs.callAt (oc.pid.toInt + 1).toNat with
          | some target =>
              have hmeets := procindexOpencallAdd_present hsound ho hoc hin hg hslot htarget
              refine ⟨⟨fun he => ?_, fun h => absurd h hinside⟩, fun p hp => hmeets.post hp⟩
              cases hmeets.fault he
          | none =>
              have hfree : ¬ l.procs.Holds oc.pid := by
                rw [Procindex.holds_iff hslot.1, htarget]
                rintro ⟨r, hr⟩
                cases hr
              obtain ⟨h', hexecs, hrun⟩ :=
                procindexOpencallAdd_dummy alloc hoc ho.wf hin hg hslot hfree
              rw [if_neg (not_not.mpr hgranted.newProc),
                if_pos ⟨hgranted.args, hgranted.cmdName, hgranted.calloc⟩] at hrun
              rw [hrun]
              cases hone : l.procs.callAt 1 with
              | some r =>
                  exact ⟨⟨fun he => (nomatch he), fun h => absurd h hinside⟩, fun p hp => nomatch hp⟩
              | none =>
                  refine ⟨⟨fun he => (nomatch he), fun h => absurd h hinside⟩, fun p hp => ?_⟩
                  cases hp
                  exact hpadded.store hexecs rfl
        · rw [procindexOpencallAdd_outside hoc ho.wf hin hg hslot]
          exact ⟨⟨fun _ => ⟨hin, n, rfl, hslot⟩, fun _ => rfl⟩, fun p hp => nomatch hp⟩
  · rw [procindexOpencallAdd_rejected hoc hin]
    refine ⟨⟨fun he => (nomatch he), fun h => absurd h.1 hin⟩, fun p hp => ?_⟩
    cases hp
    exact ho

/-- What `procindex_add` stores has no parent: a call that finds one does not end. -/
theorem procindexAdd_orderly {granted : Nat → Bool} {call : ExecRef} {c : ExecCall}
    {p : Int × Heap × Procindex} (ho : Orderly h t) (hc : h.execs call = some c)
    (hgranted : ∀ k, granted k = true) (hrun : procindexAdd granted h t call = .ok p) :
    Orderly p.2.1 p.2.2 := by
  by_cases hin : t.InRange c.pid
  · obtain ⟨hfails, -⟩ := procindexAdd_not_grown granted hc ho.wf hin
    have hgrows := ho.wf.add_grows granted hin
    cases hg : t.growsTo granted c.pid.toInt with
    | error e =>
        rw [hfails e hg] at hrun
        cases hrun
    | ok o =>
      rw [hg] at hgrows
      cases o with
      | none =>
          -- every request is granted, so the growth is not refused
          obtain ⟨u, hu⟩ := hgrows
          have hsize := Int.le_of_eq ho.wf.size
          obtain ⟨-, -, -, hready⟩ :=
            Procindex.addGrow_spec _ _ _ _ _ hsize hsize (Int.le_refl _) hin.2 hu
          exact Bool.noConfusion (hready hgranted ho.wf).1
      | some n =>
        have hsize : n ≤ 2147483647 := by
          have hfits := ho.fits
          obtain ⟨-, -, hn⟩ := Procindex.grownSize_spec _ _ _ hg
          omega
        have hpadded := ho.padded hgrows.2 hsize
        by_cases hslot : Procindex.Within n c.pid.toInt
        · by_cases hholds : t.Holds c.pid
          · rw [procindexAdd_present hc ho.wf hin hg hslot hholds] at hrun
            cases hrun
            exact hpadded
          · rw [procindexAdd_empty _ hc ho.wf hin hg hslot hholds] at hrun
            obtain ⟨parent, -, hrun⟩ := bind_ok hrun
            -- a call that finds a parent reads its NULL child and does not end
            cases parent with
            | some r => cases hrun
            | none =>
                cases hrun
                exact hpadded.store (c := { c with ppid := 0 }) rfl rfl
        · rw [procindexAdd_outside hc ho.wf hin hg hslot] at hrun
          cases hrun
  · rw [procindexAdd_rejected hc hin] at hrun
    cases hrun
    exact ho

theorem procindexRetrieve_orderly {pid : Int} {p : Option ExecRef × Procindex} (ho : Orderly h t)
    (hrun : procindexRetrieve t pid = .ok p) : Orderly h p.2 := by
  have hmeets : Meets (Tolerated True) _ _ := procindexRetrieve_meets (Int.le_of_eq ho.wf.size) pid
  cases hmeets.post hrun with
  | absent => exact ho
  | @found k r hk hr =>
      -- the emptied slot is no entry, and the others are the ones of before
      refine ⟨ho.wf.withSlot k (by simp), ho.fits, fun j x d hj hd => ?_⟩
      have hold := (Procindex.withSlot_null.mp (Procindex.callAt_eq_some.mp hj)).2
      exact ho.orphans j x d (Procindex.callAt_eq_some.mpr hold) hd

/-- `pid+1` overflows for one pid alone, and whether it does is all that a guarded read depends on. -/
theorem entry_overflows (hwf : t.Wf) (pid : Int32) :
    t.entry pid.toInt = .error .intOverflow ↔ ¬ pid.toInt < 2147483647 := by
  have hlow := pid.le_toInt
  cases hint : toInt (pid.toInt + 1) with
  | error e =>
      have hmax : ¬ pid.toInt < 2147483647 := by
        intro hlt
        rw [toInt_eq_ok.mpr ⟨rfl, by omega, by omega⟩] at hint
        cases hint
      refine iff_of_true ?_ hmax
      unfold Procindex.entry
      rw [hint, Procindex.toInt_error hint]
      rfl
  | ok m =>
      obtain ⟨rfl, -, hsmall⟩ := toInt_eq_ok.mp hint
      refine iff_of_false (fun he => ?_) (by omega)
      rw [hwf.entry_eq hint] at he
      split at he
      · cases he
      · split at he
        · cases he
        · cases he

/-- **Which calls of `procindex_add` overflow**: those whose growth does, and those that look for the
parent with the largest `int`. -/
theorem procindexAdd_overflows {granted : Nat → Bool} {call : ExecRef} {c : ExecCall}
    (hc : h.execs call = some c) (hwf : t.Wf) :
    procindexAdd granted h t call = .error .intOverflow ↔
      t.InRange c.pid ∧ (t.growsTo granted c.pid.toInt = .error .intOverflow
        ∨ ∃ n, t.growsTo granted c.pid.toInt = .ok (some n) ∧ Procindex.Within n c.pid.toInt
          ∧ ¬ t.Holds c.pid ∧ ¬ c.ppid.toInt < 2147483647) := by
  by_cases hin : t.InRange c.pid
  · obtain ⟨hfails, hrefused⟩ := procindexAdd_not_grown granted hc hwf hin
    cases hg : t.growsTo granted c.pid.toInt with
    | error e =>
        rw [hfails e hg, Except.error.injEq, Except.error.injEq]
        refine ⟨fun he => ⟨hin, .inl he⟩, fun hor => ?_⟩
        rcases hor.2 with he | ⟨n, hn, -⟩
        · exact he
        · cases hn
    | ok o =>
      cases o with
      | none =>
          obtain ⟨u, hu⟩ := hrefused hg
          rw [hu]
          refine iff_of_false (fun he => (nomatch he)) fun hor => ?_
          rcases hor.2 with he | ⟨n, hn, -⟩
          · cases he
          · cases hn
      | some n =>
        have hiff : (t.InRange c.pid ∧ ((Except.ok (some n) : Except Fault (Option Int))
              = .error .intOverflow ∨ ∃ m, (Except.ok (some n) : Except Fault (Option Int))
                = .ok (some m) ∧ Procindex.Within m c.pid.toInt ∧ ¬ t.Holds c.pid
                  ∧ ¬ c.ppid.toInt < 2147483647))
            ↔ Procindex.Within n c.pid.toInt ∧ ¬ t.Holds c.pid ∧ ¬ c.ppid.toInt < 2147483647 := by
          constructor
          · intro hor
            rcases hor.2 with he | ⟨m, hm, hall⟩
            · cases he
            · cases hm
              exact hall
          · intro hall
            exact ⟨hin, .inr ⟨n, rfl, hall⟩⟩
        rw [hiff]
        by_cases hslot : Procindex.Within n c.pid.toInt
        · by_cases hholds : t.Holds c.pid
          · rw [procindexAdd_present hc hwf hin hg hslot hholds]
            exact iff_of_false (fun he => (nomatch he)) fun hall => hall.2.1 hholds
          · have hentry := entry_overflows (hwf.grown hin hg) c.ppid
            rw [procindexAdd_empty _ hc hwf hin hg hslot hholds, and_iff_right hslot,
              and_iff_right hholds, ← hentry]
            cases (t.padded n).entry c.ppid.toInt with
            | error e => rw [error_bind, Except.error.injEq, Except.error.injEq]
            | ok parent =>
              cases parent with
              | none => simp
              | some r => simp
        · rw [procindexAdd_outside hc hwf hin hg hslot]
          exact iff_of_false (fun he => (nomatch he)) fun hall => hslot hall.1
  · rw [procindexAdd_rejected hc hin]
    exact iff_of_false (fun he => (nomatch he)) fun hor => hin hor.1

/-- The read for `procindex_retrieve` overflows for one pid alone. -/
theorem procindexRetrieve_overflows (hwf : t.Wf) (pid : Int32) :
    procindexRetrieve t pid.toInt = .error .intOverflow ↔ ¬ pid.toInt < 2147483647 := by
  rw [← entry_overflows hwf]
  unfold procindexRetrieve
  cases hentry : t.entry pid.toInt with
  | error e => rw [error_bind, Except.error.injEq, Except.error.injEq]
  | ok o =>
    cases o with
    | none => exact iff_of_false (fun he => (nomatch he)) fun he => (nomatch he)
    | some r =>
        -- the index has been computed once, and the slot that was read exists
        have hno : ¬ (2147483647 ≤ pid.toInt) := by
          intro hmax
          have hover := (entry_overflows hwf pid).mpr (by omega)
          rw [hentry] at hover
          cases hover
        have hmeets : Meets (Tolerated True) _ _ :=
          Procindex.entry_meets (Int.le_of_eq hwf.size) pid.toInt
        obtain ⟨k, hk, hr⟩ := hmeets.post hentry
        have hkn : (pid.toInt + 1).toNat = k := by omega
        have hset := Procindex.setSlot_ok (t := t) (i := pid.toInt + 1) (by omega)
          (by rw [hkn]; exact (hr r).mpr rfl) .null
        refine iff_of_false (fun he => ?_) fun he => (nomatch he)
        rw [ok_bind, toInt_eq_ok.mpr ⟨rfl, by have := pid.le_toInt; omega, by omega⟩] at he
        simp only [ok_bind] at he
        rw [hset] at he
        cases he

/-- A read for `procindex_retrieve` leaves the table exactly when its guard misses the pid. -/
theorem procindexRetrieve_outOfRange (ho : Orderly h t) (pid : Int32) :
    procindexRetrieve t pid.toInt = .error .outOfRange ↔ ¬ Procindex.Guarded t.size pid.toInt := by
  rw [← ho.wf.entry_outOfRange ho.fits]
  unfold procindexRetrieve
  cases hentry : t.entry pid.toInt with
  | error e => rw [error_bind, Except.error.injEq, Except.error.injEq]
  | ok o =>
    cases o with
    | none =>
        constructor
        · intro he
          cases he
        · intro he
          cases he
    | some r =>
        -- the slot that was read exists: writing NULL to it cannot leave the table
        have hmeets : Meets (Tolerated True) _ _ :=
          Procindex.entry_meets (Int.le_of_eq ho.wf.size) pid.toInt
        obtain ⟨k, hk, hr⟩ := hmeets.post hentry
        rw [ok_bind]
        cases hint : toInt (pid.toInt + 1) with
        | error e =>
            rw [Procindex.toInt_error hint]
            constructor
            · intro he
              cases he
            · intro he
              cases he
        | ok m =>
            obtain ⟨rfl, -, -⟩ := toInt_eq_ok.mp hint
            have hkn : (pid.toInt + 1).toNat = k := by omega
            have hset := Procindex.setSlot_ok (t := t) (i := pid.toInt + 1) (by omega)
              (by rw [hkn]; exact (hr r).mpr rfl) .null
            simp only [ok_bind]
            rw [hset]
            constructor
            · intro he
              cases he
            · intro he
              cases he

end Step

/-! ## §2. Runs. -/

section Run

variable {s s' : Surveiller} {hand : List ExecRef} {openHand : List OpenRef}

/-- A new object is no entry yet. -/
theorem Orderly.newExec (ho : Orderly s.heap s.procs) (hinv : s.Invariant hand openHand)
    (e : ExecEvent) : Orderly (s.newExec e).heap s.procs := by
  refine ⟨ho.wf, ho.fits, fun k r c hk hc => ?_⟩
  obtain ⟨d, hd, -⟩ := hinv.sound.entry_live (Procindex.callAt_eq_some.mp hk)
  replace hd : s.heap.execs r = some d := hd
  have hne : r ≠ s.heap.nextExec := by
    rintro rfl
    have hnone := (hinv.sound.objects.execs s.heap.nextExec).mpr (.inl (Nat.le_refl _))
    replace hnone : s.heap.execs s.heap.nextExec = none := hnone
    rw [hnone] at hd
    cases hd
  replace hc : Function.update s.heap.execs s.heap.nextExec (some e.call) r = some c := hc
  rw [Function.update_of_ne hne] at hc
  exact ho.orphans k r c hk hc

/-- A result that is only repackaged. -/
theorem bind_ok_error {ε α β : Type} {x : Except ε α} {f : α → β} {e : ε} :
    (x >>= fun a => .ok (f a)) = .error e ↔ x = .error e := by
  cases x with
  | error e' => simp
  | ok a => simp

theorem applyOp_add_error {granted : Nat → Bool} {ev : ExecEvent} {e : Fault} :
    applyOp s (.add granted ev) = .error e
      ↔ procindexAdd granted (s.newExec ev).heap s.procs s.heap.nextExec = .error e := by
  show (survProcindexAdd granted (s.newExec ev) s.heap.nextExec >>= fun p => .ok p.2) = _ ↔ _
  rw [bind_ok_error]
  show (procindexAdd granted (s.newExec ev).heap s.procs s.heap.nextExec >>= fun p => .ok _) = _ ↔ _
  rw [bind_ok_error]

theorem applyOp_opencallAdd_error {alloc : OpencallAlloc} {o : OpenEvent} {e : Fault} :
    applyOp s (.opencallAdd alloc o) = .error e
      ↔ procindexOpencallAdd alloc (s.newOpen o).heap s.procs s.heap.nextOpen = .error e := by
  show (survOpencallAdd alloc (s.newOpen o) s.heap.nextOpen >>= fun p => .ok p.2) = _ ↔ _
  rw [bind_ok_error]
  show (procindexOpencallAdd alloc (s.newOpen o).heap s.procs s.heap.nextOpen
    >>= fun p => .ok _) = _ ↔ _
  rw [bind_ok_error]

theorem applyOp_retrieve_error {pid : Int32} {e : Fault} :
    applyOp s (.retrieve pid) = .error e ↔ procindexRetrieve s.procs pid.toInt = .error e := by
  show (procindexRetrieve s.procs pid.toInt >>= fun p => .ok _) = _ ↔ _
  rw [bind_ok_error]

/-- The two growth loops overflow alike. -/
theorem openGrow_overflows (hwf : s.procs.Wf) {alloc : OpencallAlloc} {oc : OpenCall}
    (hin : s.procs.InRange oc.pid) :
    openGrow alloc.grow oc.pid.toInt growRounds s.procs = .error .intOverflow
      ↔ s.procs.growsTo alloc.grow oc.pid.toInt = .error .intOverflow := by
  have hgrows := hwf.open_grows alloc hin
  cases hg : s.procs.growsTo alloc.grow oc.pid.toInt with
  | error e =>
      rw [hg] at hgrows
      replace hgrows : openGrow alloc.grow oc.pid.toInt growRounds s.procs = .error e := hgrows
      rw [hgrows, Except.error.injEq, Except.error.injEq]
  | ok o =>
      rw [hg] at hgrows
      refine iff_of_false (fun he => ?_) fun he => (nomatch he)
      cases o with
      | none =>
          obtain ⟨u, hu⟩ := hgrows
          rw [hu] at he
          cases he
      | some n =>
          rw [hgrows.1] at he
          cases he

/-- A call whose arithmetic overflows goes no further. -/
theorem Op.IndexOverflows.stops {op : Op} (h : op.IndexOverflows s) :
    applyOp s op = .error .intOverflow := by
  cases op with
  | add granted e => exact h
  | opencallAdd alloc o =>
      obtain ⟨hin, hgrow⟩ := h
      have hoc : (s.newOpen o).heap.opens s.heap.nextOpen = some o.call := Function.update_self _ _ _
      have hnot : ¬ (o.call.pid.toInt < 0 ∨ s.procs.maxPid < o.call.pid.toInt) := by
        have hlow := hin.1
        have hhigh := hin.2
        omega
      rw [applyOp_opencallAdd_error]
      unfold procindexOpencallAdd
      rw [Heap.openCall_some hoc, ok_bind, if_neg hnot, hgrow]
      rfl
  | retrieve pid => exact h
  | addExecCall | checkVitals | flush | dispatch => cases h

/-- **Which calls stay inside the table.** -/
theorem applyOp_inside (hinv : s.Invariant hand openHand) (ho : Orderly s.heap s.procs) {op : Op}
    (hop : op.IndexCall) (hgranted : op.Granted) :
    applyOp s op ≠ .error .outOfRange ∧ ¬ op.IndexOverflows s ↔ op.InTable s := by
  cases op with
  | add granted e =>
      -- the socket's call is a new object, which is no entry: the table is the one of before
      have hc : (s.newExec e).heap.execs s.heap.nextExec = some e.call := Function.update_self _ _ _
      simp only [Op.IndexOverflows, Op.InTable, Procindex.Askable]
      rw [Ne, applyOp_add_error, applyOp_add_error, procindexAdd_outOfRange hc ho.wf ho.fits,
        procindexAdd_overflows hc ho.wf]
      constructor
      · rintro ⟨hrange, hover⟩ hin
        refine ⟨fun hg => hover ⟨hin, .inl hg⟩, fun n hn => ?_⟩
        obtain ⟨hslot, hguard⟩ := not_not.mp fun hnot => hrange ⟨hin, n, hn, hnot⟩
        refine ⟨hslot, fun hfree => ⟨hguard hfree, ?_⟩⟩
        exact not_not.mp fun hmax => hover ⟨hin, .inr ⟨n, hn, hslot, hfree, hmax⟩⟩
      · intro hinside
        constructor
        · rintro ⟨hin, n, hn, hnot⟩
          obtain ⟨hslot, hask⟩ := (hinside hin).2 n hn
          exact hnot ⟨hslot, fun hfree => (hask hfree).1⟩
        · rintro ⟨hin, hg | ⟨n, hn, -, hfree, hmax⟩⟩
          · exact (hinside hin).1 hg
          · exact hmax (((hinside hin).2 n hn).2 hfree).2
  | opencallAdd alloc o =>
      have h1 := hinv.newOpen o
      have hoc : (s.newOpen o).heap.opens s.heap.nextOpen = some o.call := Function.update_self _ _ _
      have hsame : Orderly (s.newOpen o).heap s.procs := ⟨ho.wf, ho.fits, ho.orphans⟩
      have hfault := (procindexOpencallAdd_orderly
        (l := (s.newOpen o).ledger hand (s.heap.nextOpen :: openHand)) h1.sound hsame hoc hgranted).1
      simp only [Op.IndexOverflows, Op.InTable]
      rw [Ne, applyOp_opencallAdd_error]
      refine (and_congr_left' (not_congr hfault)).trans ?_
      constructor
      · rintro ⟨hrange, hover⟩ hin
        refine ⟨fun hg => hover ⟨hin, (openGrow_overflows ho.wf hin).mpr hg⟩, fun n hn => ?_⟩
        exact not_not.mp fun hnot => hrange ⟨hin, n, hn, hnot⟩
      · intro hinside
        constructor
        · rintro ⟨hin, n, hn, hnot⟩
          exact hnot ((hinside hin).2 n hn)
        · rintro ⟨hin, hg⟩
          exact (hinside hin).1 ((openGrow_overflows ho.wf hin).mp hg)
  | retrieve pid =>
      simp only [Op.IndexOverflows, Op.InTable, Procindex.Askable]
      rw [Ne, applyOp_retrieve_error, applyOp_retrieve_error, procindexRetrieve_outOfRange ho pid,
        procindexRetrieve_overflows ho.wf, not_not, not_not]
  | addExecCall => cases hop
  | checkVitals => cases hop
  | flush => cases hop
  | dispatch => cases hop

/-- **The step lemma**: what a call keeps. -/
theorem applyOp_orderly (hinv : s.Invariant hand openHand) (ho : Orderly s.heap s.procs) {op : Op}
    (hop : op.IndexCall) (hgranted : op.Granted) {s' : Surveiller} (hrun : applyOp s op = .ok s') :
    Orderly s'.heap s'.procs := by
  cases op with
  | add granted e =>
      have hc : (s.newExec e).heap.execs s.heap.nextExec = some e.call := Function.update_self _ _ _
      obtain ⟨q, hq, hrun⟩ := bind_ok hrun
      obtain ⟨p, hp, hq⟩ := bind_ok hq
      cases hq
      cases hrun
      exact procindexAdd_orderly (ho.newExec hinv e) hc hgranted hp
  | opencallAdd alloc o =>
      have h1 := hinv.newOpen o
      have hoc : (s.newOpen o).heap.opens s.heap.nextOpen = some o.call := Function.update_self _ _ _
      have hsame : Orderly (s.newOpen o).heap s.procs := ⟨ho.wf, ho.fits, ho.orphans⟩
      obtain ⟨q, hq, hrun⟩ := bind_ok hrun
      obtain ⟨p, hp, hq⟩ := bind_ok hq
      cases hq
      cases hrun
      exact (procindexOpencallAdd_orderly
        (l := (s.newOpen o).ledger hand (s.heap.nextOpen :: openHand)) h1.sound hsame hoc hgranted).2
        p hp
  | retrieve pid =>
      obtain ⟨p, hp, hrun⟩ := bind_ok hrun
      cases hrun
      exact procindexRetrieve_orderly ho hp
  | addExecCall => cases hop
  | checkVitals => cases hop
  | flush => cases hop
  | dispatch => cases hop

variable {getMaxPID guidePid : Int} {bootTime : UInt32} {s0 : Surveiller} {ops : List Op}

theorem survInit_orderly (h0 : survInit getMaxPID guidePid bootTime = .ok (some s0)) :
    Orderly s0.heap s0.procs := by
  obtain ⟨-, hwf, -⟩ := survInit_invariant h0
  unfold survInit at h0
  obtain ⟨⟨ret, t⟩, ht, h0⟩ := bind_ok h0
  by_cases hret : ret = NOMINAL
  · simp only [if_pos hret, pure_eq_ok, Except.ok.injEq, Option.some.injEq] at h0
    subst h0
    refine ⟨hwf, ?_, fun k r c _ hc => ?_⟩
    · obtain ⟨-, -, -, hfits, -⟩ := procindexInit_spec ht hret
      exact hfits
    · cases hc
  · simp only [if_neg hret, pure_eq_ok, Except.ok.injEq] at h0
    cases h0

/-- **The run lemma.** -/
theorem runOps_orderly (h0 : survInit getMaxPID guidePid bootTime = .ok (some s0))
    (hops : ∀ op ∈ ops, op.IndexCall ∧ op.Granted) (hrun : runOps s0 ops = .ok s) :
    Orderly s.heap s.procs := by
  refine run_induction
    (P := fun ops s => (∀ op ∈ ops, op.IndexCall ∧ op.Granted) → Orderly s.heap s.procs)
    (fun _ => survInit_orderly h0) ?_ hrun hops
  intro ops op m s' hm horderly hstep hall
  obtain ⟨hand, openHand, hinv⟩ := (runOps_ran h0 hm).invariant
  have hm' := horderly fun x hx => hall x (by simp [hx])
  obtain ⟨hop, hgranted⟩ := hall op (by simp)
  exact applyOp_orderly hinv hm' hop hgranted hstep

end Run

end Access

/-- **A run stays inside the process table** iff each of its calls does, in the state in which it
is made. -/
theorem table_accesses_iff {maxPid guidePid : Int} {bootTime : UInt32} {s0 : Surveiller}
    {ops : List Op} (h0 : survInit maxPid guidePid bootTime = .ok (some s0))
    (hops : ∀ op ∈ ops, op.IndexCall ∧ op.Granted) :
    (runOps s0 ops ≠ .error .outOfRange
      ∧ ∀ pre op post s, ops = pre ++ op :: post → runOps s0 pre = .ok s → ¬ op.IndexOverflows s) ↔
      ∀ pre op post s, ops = pre ++ op :: post → runOps s0 pre = .ok s → op.InTable s := by
  unfold runOps
  rw [run_avoids_iff]
  simp only [← forall_and]
  -- condition and access agree in each state the run reaches
  refine forall_congr' fun pre => forall_congr' fun op => forall_congr' fun post =>
    forall_congr' fun s => forall_congr' fun hsplit => forall_congr' fun hpre => ?_
  have hpart : ∀ op' ∈ pre, op'.IndexCall ∧ op'.Granted := by
    intro op' hop'
    exact hops op' (by rw [hsplit]; simp [hop'])
  obtain ⟨hop, hgranted⟩ := hops op (by rw [hsplit]; simp)
  obtain ⟨hand, openHand, hinv⟩ := (runOps_ran h0 hpre).invariant
  exact applyOp_inside hinv (runOps_orderly h0 hpart hpre) hop hgranted

/-- A table of four slots: a pid whose slot is the last one, an open call of another, and a look at
the slot of the first. -/
theorem table_accesses_sample :
    ∃ s0, survInit 10 1 0 = .ok (some s0)
      ∧ ∀ pre op post s, [.add (fun _ => true) (.blank 2 0 ⟨1, 0⟩),
          .opencallAdd .granting (.blank 1 ⟨2, 0⟩), .retrieve 2] = pre ++ op :: post →
        runOps s0 pre = .ok s → op.InTable s := by
  have h0 : survInit 10 1 0 = .ok (some (.initial ⟨List.replicate 4 .null, 4, 10⟩ 0)) := by rfl
  obtain ⟨s, hs⟩ : ∃ s, runOps (.initial ⟨List.replicate 4 .null, 4, 10⟩ 0)
      [.add (fun _ => true) (.blank 2 0 ⟨1, 0⟩), .opencallAdd .granting (.blank 1 ⟨2, 0⟩),
        .retrieve 2] = .ok s := ⟨_, by rfl⟩
  have hopen := OpencallAlloc.granting_granted
  refine ⟨_, h0, (table_accesses_iff h0 ?_).mp ⟨?_, ?_⟩⟩
  · simp [Op.IndexCall, Op.Granted, hopen]
  · rw [hs]
    intro he
    cases he
  · -- a run that comes to its end has no such call
    intro pre op post m hsplit hpre hover
    rw [hsplit] at hs
    obtain ⟨m', hm', hrest⟩ := run_append.mp hs
    obtain rfl := Except.ok.inj (hpre.symm.trans hm')
    obtain ⟨m'', hm'', -⟩ := run_cons.mp hrest
    rw [hover.stops] at hm''
    cases hm''

/-- The daemon was started as pid 1, so that the table has four slots; pid 3 has the slot 4.  So has
a parent of pid 3 that was looked up.  At the largest pid, the table cannot grow any further; and the
largest `int`, as a parent, has no slot. -/
theorem slot_outside_table :
    ∃ s0, survInit 10 1 0 = .ok (some s0)
      ∧ runOps s0 [.add (fun _ => true) (.blank 3 0 ⟨1, 0⟩)] = .error .outOfRange
      ∧ runOps s0 [.opencallAdd .granting (.blank 3 ⟨1, 0⟩)] = .error .outOfRange
      ∧ runOps s0 [.retrieve 3] = .error .outOfRange
      ∧ runOps s0 [.add (fun _ => true) (.blank 1 3 ⟨1, 0⟩)] = .error .outOfRange
      ∧ runOps s0 [.add (fun _ => true) (.blank 1 (-2) ⟨1, 0⟩)] = .error .outOfRange
      ∧ runOps s0 [.add (fun _ => true) (.blank 10 0 ⟨1, 0⟩)] = .error .outOfRange
      ∧ Op.IndexOverflows s0 (.add (fun _ => true) (.blank 1 2147483647 ⟨1, 0⟩)) := by
  have h0 : survInit 10 1 0 = .ok (some (.initial ⟨List.replicate 4 .null, 4, 10⟩ 0)) := by rfl
  exact ⟨_, h0, by rfl, by rfl, by rfl, by rfl, by rfl, by rfl, by rfl⟩

end DirSurveiller
