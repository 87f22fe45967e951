/-
  DirSurveiller.Index.Tracking — `procindex_trackparents` marks the ancestors of a process.

  The parent of an entry is what the slot of its `ppid` holds now.  Pids are used again, so a chain
  of parents may run into a cycle, and the recursion has no measure in the chain itself: it ends
  because each call sets a flag that was clear.

    * `trackparents_ancestors` — it terminates, sets the flags of the ancestors up to the first
      pid 0, empty slot or tracked entry, changes nothing else, and leaves the tracked entries closed
      under parents.
-/
import DirSurveiller.Index.Progress
import DirSurveiller.Lib.Marking
import DirSurveiller.Lib.Tally

namespace DirSurveiller

open CMachine Outcome

/-! ## §1. The graph of parents. -/

/-- The entry in the slot of the `ppid`; pid 0 stands for no parent. -/
def parentOf (h : Heap) (t : Procindex) (r : ExecRef) : Option ExecRef :=
  match h.execs r with
  | none => none
  | some c => if c.ppid.toInt = 0 then none else t.callAt (c.ppid.toInt + 1).toNat

/-- `tracked` is set. -/
def Tracked (h : Heap) (r : ExecRef) : Prop := ∃ c, h.execs r = some c ∧ c.tracked = true

/-- `x` is an ancestor of `r`, over entries that are not tracked, itself included. -/
def Ancestor (h : Heap) (t : Procindex) (r x : ExecRef) : Prop :=
  Marking.Chain (parentOf h t) (Tracked h) r x

/-- The entries are live, and the slot of each entry's `ppid` is in range. -/
def ParentsInRange (h : Heap) (t : Procindex) : Prop :=
  ∀ r ∈ t.entries, ∃ c, h.execs r = some c ∧ Procindex.Within t.size c.ppid.toInt

/-- Every tracked entry, except the one in the slot of `child`, has its parent tracked. -/
def TrackedClosed (h : Heap) (t : Procindex) (child : Int) : Prop :=
  ∀ k r p, t.callAt k = some r → (k : Int) ≠ child + 1 → Tracked h r → parentOf h t r = some p →
    Tracked h p

/-- `tracked = 1` -/
def Heap.track (h : Heap) (r : ExecRef) (c : ExecCall) : Heap :=
  h.setExec r { c with tracked := true }

/-- The flags of exactly these entries went from 0 to 1; all else is as it was. -/
structure SetsFlags (h h' : Heap) (flagged : ExecRef → Prop) : Prop where
  frame : h' = { h with execs := h'.execs }
  set : ∀ x, flagged x → ∃ c, h.execs x = some c ∧ c.tracked = false
    ∧ h'.execs x = some { c with tracked := true }
  kept : ∀ x, ¬ flagged x → h'.execs x = h.execs x

/-! ## §2. One call of the recursion. -/

section Step

variable {h : Heap} {t : Procindex} {child : Int} {r p : ExecRef} {c cp : ExecCall}

/-- A parent is an entry of the index. -/
theorem parentOf_entry (hp : parentOf h t r = some p) : p ∈ t.entries := by
  unfold parentOf at hp
  cases hc : h.execs r with
  | none =>
      rw [hc] at hp
      cases hp
  | some c =>
      rw [hc] at hp
      dsimp only at hp
      split at hp
      · cases hp
      · exact Procindex.mem_entries.mpr ⟨_, Procindex.callAt_eq_some.mp hp⟩

/-- Setting a flag changes no parent. -/
theorem parentOf_track (hcp : h.execs p = some cp) : parentOf (h.track p cp) t = parentOf h t := by
  funext x
  show (match Function.update h.execs p (some { cp with tracked := true }) x with
    | none => none
    | some c => if c.ppid.toInt = 0 then none else t.callAt (c.ppid.toInt + 1).toNat) = _
  unfold parentOf
  by_cases hx : x = p
  · rw [hx, Function.update_self, hcp]
  · rw [Function.update_of_ne hx]

theorem tracked_track (h : Heap) (p : ExecRef) (cp : ExecCall) :
    Tracked (h.track p cp) = fun x => x = p ∨ Tracked h x := by
  funext x
  show (∃ c, Function.update h.execs p (some { cp with tracked := true }) x = some c
    ∧ c.tracked = true) = _
  by_cases hx : x = p
  · rw [hx, Function.update_self]
    exact propext (iff_of_true ⟨_, rfl, rfl⟩ (.inl rfl))
  · rw [Function.update_of_ne hx]
    exact propext ⟨fun ht => .inr ht, fun ht => ht.resolve_left hx⟩

theorem ParentsInRange.track (hin : ParentsInRange h t) (hcp : h.execs p = some cp) :
    ParentsInRange (h.track p cp) t := by
  intro x hx
  obtain ⟨c, hc, hrange⟩ := hin x hx
  show ∃ c, Function.update h.execs p (some { cp with tracked := true }) x = some c ∧ _
  by_cases hxp : x = p
  · rw [hxp, Function.update_self]
    rw [hxp, hcp] at hc
    obtain rfl := Option.some.inj hc
    exact ⟨_, rfl, hrange⟩
  · rw [Function.update_of_ne hxp]
    exact ⟨c, hc, hrange⟩

/-- A slot that exists can be named in an `int`. -/
theorem toInt_within (hfits : t.size ≤ INT_MAX) {pid : Int} (hpid : Procindex.Within t.size pid) :
    toInt (pid + 1) = .ok (pid + 1) := by
  unfold Procindex.Within at hpid
  unfold INT_MAX at hfits
  exact toInt_eq_ok.mpr ⟨rfl, by omega, by omega⟩

/-- **One call**: nothing is done without a parent that is not tracked; otherwise the parent is
marked, and its own parents are next. -/
theorem procindexTrackparents_step (hwf : t.Wf) (hfits : t.size ≤ INT_MAX)
    (hchild : Procindex.Within t.size child) (hr : t.callAt (child + 1).toNat = some r)
    (hin : ParentsInRange h t) (depth : Nat) :
    ((∀ p, parentOf h t r = some p → Tracked h p) ∧
        procindexTrackparents (depth + 1) h t child = .ok h)
      ∨ ∃ c p cp, h.execs r = some c ∧ parentOf h t r = some p ∧ h.execs p = some cp
        ∧ cp.tracked = false ∧ Procindex.Within t.size c.ppid.toInt
        ∧ t.callAt (c.ppid.toInt + 1).toNat = some p
        ∧ procindexTrackparents (depth + 1) h t child
          = procindexTrackparents depth (h.track p cp) t c.ppid.toInt := by
  obtain ⟨c, hc, hrange⟩ := hin r (Procindex.mem_entries.mpr ⟨_, Procindex.callAt_eq_some.mp hr⟩)
  have hparent : parentOf h t r
      = if c.ppid.toInt = 0 then none else t.callAt (c.ppid.toInt + 1).toNat := by
    unfold parentOf
    rw [hc]
  rw [procindexTrackparents, toInt_within hfits hchild, ok_bind, hwf.slot_within hchild, hr, ok_bind]
  dsimp only
  rw [Heap.exec_some hc, ok_bind, toInt_within hfits hrange, ok_bind, hwf.slot_within hrange]
  cases hslot : t.callAt (c.ppid.toInt + 1).toNat with
  | none =>
      -- the slot is read before the pid is compared with 0, but nothing hangs on it
      left
      rw [hslot, ite_self] at hparent
      refine ⟨fun p hp => ?_, rfl⟩
      rw [hparent] at hp
      cases hp
  | some p =>
      obtain ⟨cp, hcp, -⟩ :=
        hin p (Procindex.mem_entries.mpr ⟨_, Procindex.callAt_eq_some.mp hslot⟩)
      by_cases hzero : c.ppid.toInt = 0
      · left
        rw [if_pos hzero] at hparent
        refine ⟨fun p hp => ?_, ?_⟩
        · rw [hparent] at hp
          cases hp
        · rw [ok_bind]
          dsimp only
          rw [if_pos hzero]
          rfl
      · rw [if_neg hzero, hslot] at hparent
        rw [ok_bind]
        dsimp only
        rw [if_neg hzero, Heap.exec_some hcp, ok_bind]
        by_cases htracked : cp.tracked = true
        · left
          refine ⟨fun p' hp => ?_, by rw [if_pos htracked]; rfl⟩
          obtain rfl := Option.some.inj (hparent.symm.trans hp)
          exact ⟨cp, hcp, htracked⟩
        · right
          rw [if_neg htracked]
          exact ⟨c, p, cp, hc, hparent, hcp, Bool.eq_false_iff.mpr htracked, hrange, hslot, rfl⟩

end Step

/-! ## §3. The whole recursion. -/

/-- The entries whose flag is clear, slot by slot: each call that goes on takes one away. -/
def untracked (h : Heap) (t : Procindex) : Nat :=
  t.entries.countP fun r => (h.execs r).any fun c => !c.tracked

section Run

variable {h : Heap} {t : Procindex}

theorem untracked_track {p : ExecRef} {cp : ExecCall} (hcp : h.execs p = some cp)
    (hflag : cp.tracked = false) (hp : p ∈ t.entries) :
    untracked (h.track p cp) t < untracked h t := by
  unfold untracked
  refine Tally.countP_lt_of_mem hp ?_ ?_ ?_
  · -- what is clear afterwards was clear before
    intro x hx
    by_cases hxp : x = p
    · rw [hxp, hcp, Option.any_some, hflag]
      rfl
    · rwa [show (h.track p cp).execs x = h.execs x from Function.update_of_ne hxp _ _] at hx
  · rw [hcp, Option.any_some, hflag]
    rfl
  · rw [show (h.track p cp).execs p = some { cp with tracked := true } from
      Function.update_self _ _ _, Option.any_some]
    exact Bool.false_ne_true

theorem untracked_le (h : Heap) (t : Procindex) : untracked h t ≤ t.procs.length :=
  Nat.le_trans List.countP_le_length (List.length_filterMap_le _ _)

/-- **The recursion** sets the flags of the ancestors, and ends when as many calls are left as there
are flags to set. -/
theorem procindexTrackparents_spec (hwf : t.Wf) (hfits : t.size ≤ INT_MAX) :
    ∀ (depth : Nat) (h : Heap) (child : Int) (r : ExecRef), Procindex.Within t.size child →
      t.callAt (child + 1).toNat = some r → ParentsInRange h t → untracked h t < depth →
      ∃ h', procindexTrackparents depth h t child = .ok h' ∧ SetsFlags h h' (Ancestor h t r) := by
  intro depth
  induction depth with
  | zero => exact fun h child r _ _ _ hlt => absurd hlt (Nat.not_lt_zero _)
  | succ depth ih =>
      intro h child r hchild hr hin hlt
      rcases procindexTrackparents_step hwf hfits hchild hr hin depth with
        ⟨hstop, hrun⟩ | ⟨c, p, cp, hc, hparent, hcp, hflag, hrange, hslot, hrun⟩
      · exact ⟨h, hrun, rfl, fun x hx => absurd hx (Marking.chain_stop hstop), fun x _ => rfl⟩
      -- the parent is marked, and the next call starts from it with one flag less to set
      · have hclear : ¬ Tracked h p := by
          intro ht
          obtain ⟨cp', hcp', htracked⟩ := ht
          obtain rfl := Option.some.inj (hcp.symm.trans hcp')
          rw [hflag] at htracked
          cases htracked
        have hless := untracked_track hcp hflag (parentOf_entry hparent)
        obtain ⟨h', hrest, hsets⟩ := ih (h.track p cp) c.ppid.toInt p hrange hslot
          (hin.track hcp) (by omega)
        -- what is set is the parent, and what is reached from it
        have hstep : ∀ x, Ancestor h t r x ↔ x = p ∨ Ancestor (h.track p cp) t p x := by
          intro x
          unfold Ancestor
          rw [parentOf_track hcp, tracked_track]
          exact Marking.chain_step hparent hclear
        have hnot : ¬ Ancestor (h.track p cp) t p p := by
          intro hself
          refine hself.unmarked ?_
          rw [tracked_track]
          exact .inl rfl
        refine ⟨h', by rw [hrun, hrest], ?_, fun x hx => ?_, fun x hx => ?_⟩
        · rw [hsets.frame]
          rfl
        · rcases (hstep x).mp hx with rfl | hx
          · refine ⟨cp, hcp, hflag, ?_⟩
            rw [hsets.kept _ hnot]
            exact Function.update_self _ _ _
          · obtain ⟨cx, hcx, hfx, hsetx⟩ := hsets.set x hx
            have hne : x ≠ p := fun e => hnot (e ▸ hx)
            exact ⟨cx, (Function.update_of_ne hne _ _).symm.trans hcx, hfx, hsetx⟩
        · have hne : x ≠ p := fun e => hx ((hstep x).mpr (.inl e))
          rw [hsets.kept x fun hmore => hx ((hstep x).mpr (.inr hmore))]
          exact Function.update_of_ne hne _ _

/-- What is set and what is kept determines the heap. -/
theorem SetsFlags.unique {h' h'' : Heap} {flagged : ExecRef → Prop} (hs : SetsFlags h h' flagged)
    (hs' : SetsFlags h h'' flagged) : h' = h'' := by
  have hexecs : h'.execs = h''.execs := by
    funext x
    by_cases hx : flagged x
    · obtain ⟨c, hc, -, hset⟩ := hs.set x hx
      obtain ⟨c', hc', -, hset'⟩ := hs'.set x hx
      obtain rfl := Option.some.inj (hc.symm.trans hc')
      rw [hset, hset']
    · rw [hs.kept x hx, hs'.kept x hx]
  rw [hs.frame, hs'.frame, hexecs]

/-- The flags that are set afterwards. -/
theorem SetsFlags.tracked {h' : Heap} {flagged : ExecRef → Prop} (hs : SetsFlags h h' flagged)
    (x : ExecRef) : Tracked h' x ↔ Tracked h x ∨ flagged x := by
  by_cases hx : flagged x
  · obtain ⟨c, -, -, hset⟩ := hs.set x hx
    exact iff_of_true ⟨_, hset, rfl⟩ (.inr hx)
  · unfold Tracked
    rw [hs.kept x hx]
    exact ⟨.inl, fun h => h.resolve_right hx⟩

/-- No parent changes. -/
theorem SetsFlags.parentOf {h' : Heap} {flagged : ExecRef → Prop} (hs : SetsFlags h h' flagged)
    (x : ExecRef) : parentOf h' t x = DirSurveiller.parentOf h t x := by
  unfold DirSurveiller.parentOf
  by_cases hx : flagged x
  · obtain ⟨c, hc, -, hset⟩ := hs.set x hx
    rw [hc, hset]
  · rw [hs.kept x hx]

end Run

/-- **Ancestor tracking terminates and closes upward.**  For any index whose entries have their
parents' slots in range, cycles included: the call ends, and no more calls are nested than there are
slots; it sets the flags of the ancestors and changes nothing else; and if the tracked entries other
than `child` had their parents tracked, all tracked entries and `child` have. -/
theorem trackparents_ancestors {h : Heap} {t : Procindex} {child : Int} {r : ExecRef} (hwf : t.Wf)
    (hfits : t.size ≤ INT_MAX) (hchild : Procindex.Within t.size child)
    (hr : t.callAt (child + 1).toNat = some r) (hin : ParentsInRange h t) :
    ∃ h', (∀ depth, t.procs.length < depth → procindexTrackparents depth h t child = .ok h')
      ∧ SetsFlags h h' (Ancestor h t r)
      ∧ (TrackedClosed h t child →
          ∀ k x p, t.callAt k = some x → Tracked h' x ∨ (k : Int) = child + 1 →
            parentOf h' t x = some p → Tracked h' p) := by
  have hdepth : untracked h t < t.procs.length + 1 := Nat.lt_succ_of_le (untracked_le h t)
  obtain ⟨h', hrun, hsets⟩ := procindexTrackparents_spec hwf hfits _ h child r hchild hr hin hdepth
  refine ⟨h', fun depth hlt => ?_, hsets, fun hclosed => ?_⟩
  · obtain ⟨h'', hrun', hsets'⟩ := procindexTrackparents_spec hwf hfits depth h child r hchild hr hin
      (Nat.lt_of_le_of_lt (untracked_le h t) hlt)
    rw [hrun', hsets.unique hsets']
  · intro k x p hk hx hparent
    rw [hsets.parentOf] at hparent
    rw [hsets.tracked] at hx ⊢
    refine Marking.closed_after ?_ ?_ hparent
    · intro htracked hne
      refine hclosed k x p hk (fun hchild' => ?_) htracked hparent
      -- the slot of `child` holds another entry
      rw [show k = (child + 1).toNat by omega, hr] at hk
      exact hne (Option.some.inj hk).symm
    · rcases hx with hx | hx
      · exact .inl hx
      · rw [show k = (child + 1).toNat by omega, hr] at hk
        exact .inr (Option.some.inj hk).symm

/-- The pids 1 and 2, each the parent of the other: both are marked, and the call ends. -/
theorem trackparents_ancestors_cycle :
    ∃ h', procindexTrackparents 5
        ((Heap.empty.mallocExec false { ExecCall.zero with pid := 1, ppid := 2 }).mallocExec false
          { ExecCall.zero with pid := 2, ppid := 1 }) ⟨[.null, .null, .proc 0, .proc 1], 4, 10⟩ 1
        = .ok h' ∧ Tracked h' 0 ∧ Tracked h' 1 := by
  have hin : ParentsInRange ((Heap.empty.mallocExec false
      { ExecCall.zero with pid := 1, ppid := 2 }).mallocExec false
      { ExecCall.zero with pid := 2, ppid := 1 }) ⟨[.null, .null, .proc 0, .proc 1], 4, 10⟩ := by
    intro r hr
    have hcases : 0 = r ∨ 1 = r := by
      simpa [Procindex.entries, Slot.call] using hr
    rcases hcases with rfl | rfl
    · exact ⟨_, rfl, by decide⟩
    · exact ⟨_, rfl, by decide⟩
  have hclear : ∀ x, x = 0 ∨ x = 1 → ¬ Tracked ((Heap.empty.mallocExec false
      { ExecCall.zero with pid := 1, ppid := 2 }).mallocExec false
      { ExecCall.zero with pid := 2, ppid := 1 }) x := by
    intro x hx ht
    obtain ⟨c, hc, htracked⟩ := ht
    rcases hx with rfl | rfl
    · cases hc
      cases htracked
    · cases hc
      cases htracked
  obtain ⟨h', hrun, hsets, -⟩ := trackparents_ancestors ⟨rfl, by decide⟩
    (by decide) (show Procindex.Within 4 1 by decide) rfl hin
  have hone : Ancestor _ ⟨[.null, .null, .proc 0, .proc 1], 4, 10⟩ 0 1 :=
    .first rfl (hclear 1 (.inr rfl))
  refine ⟨h', hrun 5 (by decide), ?_, ?_⟩
  · obtain ⟨c, -, -, hset⟩ := hsets.set 0 (.next hone rfl (hclear 0 (.inl rfl)))
    exact ⟨_, hset, rfl⟩
  · obtain ⟨c, -, -, hset⟩ := hsets.set 1 hone
    exact ⟨_, hset, rfl⟩

end DirSurveiller
