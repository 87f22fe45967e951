/-
  DirSurveiller.Index.Attested — what the flag `tracked` says.

  A call is `tracked` once an open call is in its buffer, or in that of a process that has named it as
  its parent.  No entry of the table has a parent: `procindex_add` clears the `ppid` of a call whose
  parent it does not know, and does not return for another.  So each tracked call has an open call of
  its own; the functions of the index keep that.
-/
import DirSurveiller.Index.Outcomes

namespace DirSurveiller

open CMachine Outcome

/-- Every tracked call has an open call in its buffer, and no entry of the table has a parent. -/
structure Attested (h : Heap) (t : Procindex) : Prop where
  tracked : ∀ r c, h.execs r = some c → c.tracked = true → h.bufferOf r ≠ []
  orphans : ∀ (k : Nat) (r : ExecRef) c, t.procs[k]? = some (.proc r) → h.execs r = some c →
    c.ppid = 0

section Attested

variable {h h' : Heap} {t t' : Procindex} {r : ExecRef} {c c' : ExecCall}

/-- A table with no other entries. -/
theorem Attested.table (ha : Attested h t)
    (ht : ∀ (k : Nat) r, t'.procs[k]? = some (.proc r) → ∃ j : Nat, t.procs[j]? = some (.proc r)) :
    Attested h t' := by
  refine ⟨ha.tracked, ?_⟩
  intro k r c hk hc
  obtain ⟨j, hj⟩ := ht k r hk
  exact ha.orphans j r c hj hc

theorem Attested.extend (ha : Attested h t) (ht : t.Extends t') : Attested h t' :=
  ha.table fun k _ hk => ⟨k, ht.proc hk⟩

/-- One object has changed, and neither become tracked nor got a parent. -/
theorem Attested.change (ha : Attested h t) (hc : h.execs r = some c)
    (htracked : c'.tracked = true → c.tracked = true) (hppid : c.ppid = 0 → c'.ppid = 0) :
    Attested (h.setExec r c') t := by
  constructor
  · intro x d hd ht
    rcases Heap.update_eq_some hd with ⟨rfl, heq⟩ | ⟨-, hd⟩
    · obtain rfl := Option.some.inj heq
      exact ha.tracked x c hc (htracked ht)
    · exact ha.tracked x d hd ht
  · intro k x d hk hd
    rcases Heap.update_eq_some hd with ⟨rfl, heq⟩ | ⟨-, hd⟩
    · obtain rfl := Option.some.inj heq
      exact hppid (ha.orphans k x c hk hc)
    · exact ha.orphans k x d hk hd

/-- A call that has an open call in its buffer may be tracked. -/
theorem Attested.mark (ha : Attested h t) (hc : h.execs r = some c) (hbuffer : h.bufferOf r ≠ [])
    (hppid : c'.ppid = c.ppid) : Attested (h.setExec r c') t := by
  constructor
  · intro x d hd ht
    rcases Heap.update_eq_some hd with ⟨rfl, -⟩ | ⟨-, hd⟩
    · exact hbuffer
    · exact ha.tracked x d hd ht
  · intro k x d hk hd
    rcases Heap.update_eq_some hd with ⟨rfl, heq⟩ | ⟨-, hd⟩
    · obtain rfl := Option.some.inj heq
      rw [hppid]
      exact ha.orphans k x c hk hc
    · exact ha.orphans k x d hk hd

/-- A new object, not tracked and not in the table. -/
theorem Attested.malloc (ha : Attested h t) (dummy : Bool) (hfresh : c.tracked = false)
    (hnew : ∀ k : Nat, t.procs[k]? ≠ some (.proc h.nextExec)) :
    Attested (h.mallocExec dummy c) t := by
  constructor
  · intro x d hd ht
    rcases Heap.update_eq_some hd with ⟨-, hd⟩ | ⟨-, hd⟩
    · obtain rfl := Option.some.inj hd
      rw [hfresh] at ht
      cases ht
    · exact ha.tracked x d hd ht
  · intro k x d hk hd
    rcases Heap.update_eq_some hd with ⟨rfl, -⟩ | ⟨-, hd⟩
    · exact absurd hk (hnew k)
    · exact ha.orphans k x d hk hd

/-- An open call is stored in a buffer. -/
theorem Attested.note (ha : Attested h t) (r : ExecRef) (o : OpenRef) :
    Attested (h.noteAttached r o) t := by
  refine ⟨?_, ha.orphans⟩
  intro x d hd ht hnil
  apply ha.tracked x d hd ht
  unfold Heap.bufferOf at hnil ⊢
  rw [Heap.noteAttached_attached, List.filter_append, List.map_append] at hnil
  exact (List.append_eq_nil_iff.mp hnil).1

theorem bufferOf_note (h : Heap) (r : ExecRef) (o : OpenRef) :
    (h.noteAttached r o).bufferOf r ≠ [] := by
  unfold Heap.bufferOf
  rw [Heap.noteAttached_attached, List.filter_append, List.map_append]
  simp

/-- An object is gone. -/
theorem Attested.release (ha : Attested h t) (r : ExecRef) (os : List OpenRef) :
    Attested (h.release r os) t := by
  constructor
  · intro x d hd ht
    rcases Heap.update_eq_some hd with ⟨-, hd⟩ | ⟨-, hd⟩
    · cases hd
    · exact ha.tracked x d hd ht
  · intro k x d hk hd
    rcases Heap.update_eq_some hd with ⟨-, hd⟩ | ⟨-, hd⟩
    · cases hd
    · exact ha.orphans k x d hk hd

/-- A slot is emptied. -/
theorem Attested.clear (ha : Attested h t) (k : Nat) : Attested h (t.withSlot k .null) := by
  apply ha.table
  intro j r hj
  exact ⟨j, (Procindex.withSlot_null.mp hj).2⟩

/-- **`procindex_add`** -/
theorem AddOutcome.attested {granted : Nat → Bool} {call : ExecRef} {p : Int × Heap × Procindex}
    (hp : AddOutcome granted h t call c p) (ha : Attested h t) (hc : h.execs call = some c) :
    Attested p.2.1 p.2.2 := by
  cases hp with
  | rejected => exact ha
  | noMemory _ hg => exact ha.extend hg.grows
  | occupied _ hg => exact ha.extend hg.grows
  | @added t' k _ hg _ _ _ =>
      have hset : Attested (h.setExec call { c with ppid := 0 }) t' :=
        (ha.extend hg.grows).change hc id fun _ => rfl
      refine ⟨hset.tracked, ?_⟩
      -- the new entry is the call whose `ppid` has been cleared
      intro j x d hj hd
      rcases Procindex.withSlot_proc hj with ⟨-, rfl⟩ | ⟨-, hold⟩
      · rcases Heap.update_eq_some hd with ⟨-, heq⟩ | ⟨hne, -⟩
        · obtain rfl := Option.some.inj heq
          rfl
        · exact absurd rfl hne
      · exact hset.orphans j x d hold hd

/-- **`procindex_trackparents`** of an entry without a parent does nothing. -/
theorem trackparents_orphan {depth : Nat} {child : Int} (ha : Attested h t)
    (hrun : procindexTrackparents depth h t child = .ok h') : h' = h := by
  cases depth with
  | zero => cases hrun
  | succ depth =>
      unfold procindexTrackparents at hrun
      obtain ⟨i, -, hrun⟩ := bind_ok hrun
      obtain ⟨entry, hentry, hrun⟩ := bind_ok hrun
      cases entry with
      | none => cases hrun
      | some childProc =>
          obtain ⟨d, hd, hrun⟩ := bind_ok hrun
          have hzero : d.ppid.toInt = 0 := by
            rw [ha.orphans _ _ _ (Procindex.slot_eq_some.mp hentry).2 (Heap.exec_ok.mp hd)]
            rfl
          obtain ⟨j, -, hrun⟩ := bind_ok hrun
          obtain ⟨parent, -, hrun⟩ := bind_ok hrun
          cases parent with
          | none => exact (Except.ok.inj hrun).symm
          | some parentProc =>
              dsimp only at hrun
              rw [if_pos hzero] at hrun
              exact (Except.ok.inj hrun).symm

/-- **The end of `procindex_opencall_add`**: the call whose buffer gets the open call is tracked. -/
theorem attachOpen_attested {target : ExecRef} {o : OpenRef} (ha : Attested h t)
    (hrun : attachOpen h t target o = .ok h') : Attested h' t := by
  unfold attachOpen at hrun
  obtain ⟨c, hc, hrun⟩ := bind_ok hrun
  replace hc := Heap.exec_ok.mp hc
  split at hrun
  next => cases hrun
  next =>
    obtain ⟨n, -, hrun⟩ := bind_ok hrun
    have hpush : Attested (h.setExec target (c.push o)) t := ha.change hc id id
    have hnote := hpush.note target o
    have hlive : ((h.setExec target (c.push o)).noteAttached target o).execs target = some (c.push o) :=
      Function.update_self _ _ _
    split at hrun
    next =>
      -- it was tracked before
      obtain rfl := Except.ok.inj hrun
      exact hnote
    next =>
      have hmark : Attested (((h.setExec target (c.push o)).noteAttached target o).setExec target
          { c.push o with tracked := true }) t := hnote.mark hlive (bufferOf_note _ _ _) rfl
      rw [trackparents_orphan hmark hrun]
      exact hmark

/-- A larger buffer. -/
theorem growCallBuff_attested {granted : Bool} {target : ExecRef} (ha : Attested h t)
    (hrun : growCallBuff granted h target = .ok (some h')) : Attested h' t := by
  unfold growCallBuff at hrun
  obtain ⟨c, hc, hrun⟩ := bind_ok hrun
  obtain ⟨n, -, hrun⟩ := bind_ok hrun
  split at hrun
  next =>
    split at hrun
    next =>
      obtain rfl := Option.some.inj (Except.ok.inj hrun)
      exact ha.change (Heap.exec_ok.mp hc) id id
    next => cases hrun
  next =>
    obtain rfl := Option.some.inj (Except.ok.inj hrun)
    exact ha

/-- No entry is at the address that is given out next. -/
theorem Ledger.Sound.next_new {l : Ledger} (hsound : l.Sound) (k : Nat) :
    l.procs.procs[k]? ≠ some (.proc l.heap.nextExec) := by
  intro hk
  obtain ⟨c, hc, -⟩ := hsound.entry_live hk
  rw [(hsound.objects.execs _).mpr (.inl (Nat.le_refl _))] at hc
  cases hc

/-- A dummy. -/
theorem addDummy_attested {alloc : OpencallAlloc} {l : Ledger} {oc : OpenCall}
    (hsound : l.Sound) (ha : Attested l.heap l.procs)
    (hrun : addDummy alloc l.heap l.procs oc = .ok (some (h', t'))) : Attested h' t' := by
  unfold addDummy at hrun
  split at hrun
  next => cases hrun
  next =>
    split at hrun
    next =>
      obtain ⟨p, hp, hrun⟩ := bind_ok hrun
      cases hrun
      have hc : (l.heap.mallocExec true (dummyCall oc)).execs l.heap.nextExec = some (dummyCall oc) :=
        Function.update_self _ _ _
      have hadd : Meets (Tolerated True) (procindexAdd alloc.add _ l.procs l.heap.nextExec) _ :=
        procindexAdd_meets hc hsound.table.sane fun _ => trivial
      exact (hadd.post hp).attested (ha.malloc true rfl hsound.next_new) hc
    next => cases hrun

/-- **`procindex_opencall_add`** -/
theorem procindexOpencallAdd_attested {alloc : OpencallAlloc} {l : Ledger} {o : OpenRef}
    {p : Int × Heap × Procindex} (hsound : l.Sound) (ha : Attested l.heap l.procs)
    (hrun : procindexOpencallAdd alloc l.heap l.procs o = .ok p) : Attested p.2.1 p.2.2 := by
  unfold procindexOpencallAdd at hrun
  obtain ⟨oc, -, hrun⟩ := bind_ok hrun
  dsimp only at hrun
  split at hrun
  next =>
    obtain rfl := Except.ok.inj hrun
    exact ha
  next hrange =>
    obtain ⟨⟨grown, t1⟩, hgrow, hrun⟩ := bind_ok hrun
    have hgrown : Meets (Tolerated True) (openGrow alloc.grow oc.pid.toInt growRounds l.procs) _ :=
      openGrow_grown hsound.table.sane (by omega)
    have hg := hgrown.post hgrow
    have ha1 := ha.extend hg.grows
    cases grown with
    | false =>
        obtain rfl := Except.ok.inj hrun
        exact ha1
    | true =>
      obtain ⟨entry, -, hrun⟩ := bind_ok hrun
      cases entry with
      -- the process is known
      | some target =>
          obtain ⟨buffer, hbuffer, hrun⟩ := bind_ok hrun
          cases buffer with
          | none =>
              obtain rfl := Except.ok.inj hrun
              exact ha1
          | some h1 =>
              obtain ⟨h2, hattach, hrun⟩ := bind_ok hrun
              obtain rfl := Except.ok.inj hrun
              exact attachOpen_attested (growCallBuff_attested ha1 hbuffer) hattach
      -- it gets a dummy, for which `procindex_add` is called
      | none =>
          obtain ⟨dummy, hdummy, hrun⟩ := bind_ok hrun
          cases dummy with
          | none =>
              obtain rfl := Except.ok.inj hrun
              exact ha1
          | some q =>
              obtain ⟨h1, t2⟩ := q
              have hsound1 := (Work.extend (l := l) hg.grows hg.sane).sound hsound
              have ha2 := addDummy_attested hsound1 ha1 hdummy
              obtain ⟨i, -, hrun⟩ := bind_ok hrun
              obtain ⟨target, -, hrun⟩ := bind_ok hrun
              cases target with
              | none => cases hrun
              | some target =>
                  obtain ⟨h2, hattach, hrun⟩ := bind_ok hrun
                  obtain rfl := Except.ok.inj hrun
                  exact attachOpen_attested ha2 hattach

end Attested

end DirSurveiller
