/-
  DirSurveiller.Index.Outcomes — everything the functions of the process index can do.

  Each function gets one spec lemma: run on the heap and the table of a sound ledger, it does works
  of the ledger and nothing else, or it stops with a fault that is not the use of a destroyed
  object.  When it may step through `NULL` is said exactly (`LinksParent`): `procindex_add` does so
  whenever it finds the parent of the new call.

  Callers cite these lemmas and never unfold the functions.
-/
import DirSurveiller.Index.Ledger

namespace DirSurveiller

open CMachine Outcome

/-! ## §1. Slots. -/

/-- The slot that a read delivers as `o`. -/
def Slot.of : Option ExecRef → Slot
  | none => .null
  | some r => .proc r

section Meets

variable {crash : Prop} {t : Procindex}

/-- An `int` operation that does not overflow, and what follows it. -/
theorem toInt_bind {α : Type} {n : Int} {f : Int → Except Fault α} {post : α → Prop}
    (h : -2147483648 ≤ n → n ≤ 2147483647 → Meets (Tolerated crash) (f n) post) :
    Meets (Tolerated crash) (toInt n >>= f) post := by
  unfold toInt
  split
  next hn => exact h hn.1 hn.2
  next => trivial

theorem Procindex.slot_meets (t : Procindex) (i : Int) :
    Meets (Tolerated crash) (t.slot i) fun o => ∃ k : Nat, i = k ∧ t.procs[k]? = some (Slot.of o) := by
  unfold slot
  split
  · trivial
  · have hi : i = (i.toNat : Int) := by omega
    split
    next => trivial
    next => trivial
    next h => exact ⟨i.toNat, hi, h⟩
    next h => exact ⟨i.toNat, hi, h⟩

/-- An entry lies within the recorded size. -/
theorem Procindex.Sane.lt (h : t.Sane) {k : Nat} {s : Slot} (hk : t.procs[k]? = some s) :
    (k : Int) < t.size := by
  have := (List.getElem?_eq_some_iff.mp hk).1
  unfold Sane at h
  omega

/-- What `entry` delivers is what the slot holds. -/
theorem Procindex.entry_meets (hsane : t.Sane) (pid : Int) :
    Meets (Tolerated crash) (t.entry pid) fun o => ∃ k : Nat, pid + 1 = k ∧
      ∀ r, t.procs[k]? = some (.proc r) ↔ o = some r := by
  refine toInt_bind fun _ _ => ?_
  split
  next hout =>
    have hsize : 0 ≤ t.size := by unfold Sane at hsane; omega
    refine ⟨(pid + 1).toNat, by omega, fun r => ⟨fun hr => ?_, fun hr => nomatch hr⟩⟩
    have := hsane.lt hr
    omega
  next =>
    refine (t.slot_meets _).mono fun o hp => ?_
    obtain ⟨k, hk, hp⟩ := hp
    refine ⟨k, hk, fun r => ?_⟩
    rw [hp]
    cases o with
    | some r' => simp [Slot.of]
    | none => simp [Slot.of]

theorem doubledSize_meets (t : Procindex) :
    Meets (Tolerated crash) (doubledSize t) fun _ => True :=
  toInt_bind fun _ _ => toInt_bind fun _ _ => trivial

theorem Procindex.nullFrom_meets (procs : List Slot) (lo hi : Int) :
    Meets (Tolerated crash) (nullFrom procs lo hi) fun _ => True := by
  unfold nullFrom
  split <;> trivial

/-- The growth loop of `procindex_add` neither steps through `NULL` nor touches an object. -/
theorem addGrow_meets {granted : Nat → Bool} {pid : Int} :
    ∀ (rounds : Nat) (oldsize : Int) (t : Procindex),
      Meets (Tolerated crash) (addGrow granted pid rounds oldsize t) fun _ => True := by
  intro rounds
  induction rounds with
  | zero =>
      intro oldsize t
      refine toInt_bind fun _ _ => ?_
      split <;> trivial
  | succ rounds ih =>
      intro oldsize t
      refine toInt_bind fun _ _ => ?_
      split
      · refine (doubledSize_meets t).bind fun n _ => ?_
        split
        · exact (Procindex.nullFrom_meets _ _ _).bind fun _ _ => ih _ _
        · trivial
      · trivial

theorem openGrow_meets {granted : Nat → Bool} {pid : Int} :
    ∀ (rounds : Nat) (t : Procindex),
      Meets (Tolerated crash) (openGrow granted pid rounds t) fun _ => True := by
  intro rounds
  induction rounds with
  | zero =>
      intro t
      refine toInt_bind fun _ _ => ?_
      split <;> trivial
  | succ rounds ih =>
      intro t
      refine toInt_bind fun _ _ => ?_
      split
      · refine (doubledSize_meets t).bind fun n _ => ?_
        split
        · exact (Procindex.nullFrom_meets _ _ _).bind fun _ _ => ih _
        · trivial
      · trivial

end Meets

/-- What a growth loop leaves when it ends with `ready`. -/
structure Grown (granted : Nat → Bool) (pid : Int) (t : Procindex) (ready : Bool) (t' : Procindex) :
    Prop where
  grows : t.Extends t'
  sane : t'.Sane
  room : ready = true → pid + 1 ≤ t'.size
  refused : ready = false → t.size < pid + 1
  wf : (∀ k, granted k = true) → t.Wf → ready = true ∧ t'.Wf

/-- A growth loop fails only when the table is too small. -/
theorem addGrow_refused {granted : Nat → Bool} {pid oldsize : Int} {rounds : Nat}
    {t t' : Procindex} (h : addGrow granted pid rounds oldsize t = .ok (false, t')) :
    t.size < pid + 1 := by
  cases rounds <;>
  · rw [addGrow] at h
    obtain ⟨pid1, hpid1, h⟩ := bind_ok h
    rw [toInt_eq_ok] at hpid1
    split at h
    · omega
    · cases h

theorem openGrow_refused {granted : Nat → Bool} {pid : Int} {rounds : Nat} {t t' : Procindex}
    (h : openGrow granted pid rounds t = .ok (false, t')) : t.size < pid + 1 := by
  cases rounds <;>
  · rw [openGrow] at h
    obtain ⟨pid1, hpid1, h⟩ := bind_ok h
    rw [toInt_eq_ok] at hpid1
    split at h
    · omega
    · cases h

theorem addGrow_grown {crash : Prop} {granted : Nat → Bool} {pid : Int} {t : Procindex}
    (hsane : t.Sane) (hpid : pid ≤ t.maxPid) :
    Meets (Tolerated crash) (addGrow granted pid growRounds t.size t) fun p =>
      Grown granted pid t p.1 p.2 :=
  (addGrow_meets _ _ _).of_ok fun ⟨_, _⟩ hp =>
    let ⟨hgrows, hsane', hroom, hwf⟩ :=
      Procindex.addGrow_spec _ _ _ _ _ hsane hsane (Int.le_refl _) hpid hp
    ⟨hgrows, hsane', hroom, fun hready => by cases hready; exact addGrow_refused hp, hwf⟩

theorem openGrow_grown {crash : Prop} {granted : Nat → Bool} {pid : Int} {t : Procindex}
    (hsane : t.Sane) (hpid : pid ≤ t.maxPid) :
    Meets (Tolerated crash) (openGrow granted pid growRounds t) fun p =>
      Grown granted pid t p.1 p.2 :=
  (openGrow_meets _ _).of_ok fun ⟨_, _⟩ hp =>
    let ⟨hgrows, hsane', hroom, hwf⟩ := Procindex.openGrow_spec _ _ _ _ hsane hpid hp
    ⟨hgrows, hsane', hroom, fun hready => by cases hready; exact openGrow_refused hp, hwf⟩

/-! ## §2. `procindex_add`. -/

namespace Procindex

/-- The table has an entry for `pid`. -/
def Holds (t : Procindex) (pid : Int32) : Prop :=
  ∃ (k : Nat) (r : ExecRef), pid.toInt + 1 = k ∧ t.procs[k]? = some (.proc r)

theorem Holds.extend {t t' : Procindex} {pid : Int32} (h : t.Extends t') :
    t'.Holds pid ↔ t.Holds pid :=
  ⟨fun ⟨k, r, hk, hr⟩ => ⟨k, r, hk, h.proc hr⟩, fun ⟨k, r, hk, hr⟩ => ⟨k, r, hk, h.get hr⟩⟩

end Procindex

/-- The table has an entry for the parent of `c`, a process other than `c`'s own. -/
def FindsParent (t : Procindex) (c : ExecCall) : Prop := c.ppid ≠ c.pid ∧ t.Holds c.ppid

/-- The pids the table has room for. -/
def Procindex.InRange (t : Procindex) (pid : Int32) : Prop :=
  0 ≤ pid.toInt ∧ pid.toInt ≤ t.maxPid

/-- `procindex_add` takes the branch that links `c` to its parent. -/
def LinksParent (t : Procindex) (c : ExecCall) : Prop :=
  t.InRange c.pid ∧ ¬ t.Holds c.pid ∧ FindsParent t c

theorem LinksParent.extend {t t' : Procindex} {c : ExecCall} (h : t.Extends t') :
    LinksParent t' c ↔ LinksParent t c := by
  unfold LinksParent FindsParent Procindex.InRange
  rw [Procindex.Holds.extend h, Procindex.Holds.extend h, h.maxPid]

/-- Everything `procindex_add` can do with a call whose contents are `c`. -/
inductive AddOutcome (granted : Nat → Bool) (h : Heap) (t : Procindex) (call : ExecRef)
    (c : ExecCall) : Int × Heap × Procindex → Prop where
  | rejected : ¬ t.InRange c.pid → AddOutcome granted h t call c (-1, h, t)
  | noMemory {t' : Procindex} :
      t.InRange c.pid → Grown granted c.pid.toInt t false t' →
      AddOutcome granted h t call c (MEMORY_ALLOCATION_ERROR, h, t')
  | occupied {t' : Procindex} {k : Nat} {own : ExecRef} :
      t.InRange c.pid → Grown granted c.pid.toInt t true t' →
      c.pid.toInt + 1 = k → t'.procs[k]? = some (.proc own) →
      AddOutcome granted h t call c (ALREADY_EXISTS_IN_CONTAINER, h, t')
  | added {t' : Procindex} {k : Nat} :
      t.InRange c.pid → Grown granted c.pid.toInt t true t' →
      c.pid.toInt + 1 = k → t'.procs[k]? = some .null → ¬ FindsParent t c →
      AddOutcome granted h t call c
        (NOMINAL, h.setExec call { c with ppid := 0 }, t'.withSlot k (.proc call))

section Add

variable {crash : Prop} {granted : Nat → Bool} {h : Heap} {t : Procindex} {call : ExecRef}
  {c : ExecCall}

theorem procindexAdd_meets (hc : h.execs call = some c) (hsane : t.Sane)
    (hcrash : LinksParent t c → crash) :
    Meets (Tolerated crash) (procindexAdd granted h t call) (AddOutcome granted h t call c) := by
  rw [procindexAdd, Heap.exec_some hc, ok_bind]
  by_cases hrange : c.pid.toInt < 0 ∨ c.pid.toInt > t.maxPid
  · rw [if_pos hrange]
    exact .rejected fun hin => by
      have := hin.1
      have := hin.2
      omega
  rw [if_neg hrange]
  have hin : t.InRange c.pid := ⟨by omega, by omega⟩
  have h0 := hin.1
  refine (addGrow_grown hsane hin.2).bind fun p hg => ?_
  obtain ⟨ready, t'⟩ := p
  cases ready with
  | false => exact .noMemory hin hg
  | true =>
    refine toInt_bind fun _ _ => ?_
    refine (t'.slot_meets _).bind fun own hown => ?_
    obtain ⟨k, hk, hown⟩ := hown
    cases own with
    | some own => exact .occupied hin hg hk hown
    | none =>
      have hfree : ¬ t.Holds c.pid := by
        rw [← Procindex.Holds.extend hg.grows]
        rintro ⟨k', r, hk', hr⟩
        rw [show k' = k by omega, hown] at hr
        cases hr
      refine (Procindex.entry_meets hg.sane c.ppid.toInt).bind fun parent hp => ?_
      have hfinds : t.Holds c.ppid ↔ parent.isSome := by
        obtain ⟨j, hj, hp⟩ := hp
        rw [← Procindex.Holds.extend hg.grows, Option.isSome_iff_exists]
        constructor
        · rintro ⟨j', r, hj', hr⟩
          rw [show j' = j by omega] at hr
          exact ⟨r, (hp r).mp hr⟩
        · rintro ⟨r, hr⟩
          exact ⟨j, r, hj, (hp r).mpr hr⟩
      have hpid : 0 ≤ c.pid.toInt + 1 := by omega
      have hkn : (c.pid.toInt + 1).toNat = k := by omega
      have hslot : t'.procs[(c.pid.toInt + 1).toNat]? = some .null := by rw [hkn]; exact hown
      cases parent with
      | none =>
          rw [linkParent, ok_bind, Procindex.setSlot_ok hpid hslot, ok_bind, hkn]
          exact .added hin hg hk hown fun hf => Bool.noConfusion (hfinds.mp hf.2)
      | some parent =>
          -- the code reads the time stamp of the slot it has just found empty
          rw [linkParent, Procindex.slot_eq_none.mpr ⟨hpid, hslot⟩]
          refine hcrash ⟨hin, hfree, fun heq => hfree ?_, hfinds.mpr rfl⟩
          rw [← heq]
          exact hfinds.mpr rfl

/-- The works of `procindex_add`; the call stays in hand unless it has become an entry. -/
theorem AddOutcome.works {l : Ledger} {call : ExecRef} {p : Int × Heap × Procindex}
    (ho : AddOutcome granted l.heap l.procs call c p) (hcall : call ∈ l.hand)
    (hc : l.heap.execs call = some c) :
    Works l { l with
      heap := p.2.1, procs := p.2.2
      hand := if p.1 = NOMINAL then l.hand.erase call else l.hand } := by
  cases ho with
  | rejected => exact .refl
  | noMemory hin hg => exact .single (.extend hg.grows hg.sane)
  | occupied hin hg hk hown => exact .single (.extend hg.grows hg.sane)
  | @added t' k hin hg hk hown hparent =>
      have h1 : Works l { l with procs := t' } := .single (.extend hg.grows hg.sane)
      have h2 : Works l { l with procs := t', heap := l.heap.setExec call { c with ppid := 0 } } :=
        h1.tail (.change hc ⟨rfl, rfl, fun _ hb => hb, fun hr => ⟨hr.1, hr.2, hr.3⟩, id⟩)
      exact h2.tail (.put hcall (Function.update_self _ _ _) hin.1 hk hown)

end Add

/-! ## §3. `procindex_retrieve`. -/

/-- Everything `procindex_retrieve` can do. -/
inductive RetrieveOutcome (t : Procindex) (pid : Int) : Option ExecRef × Procindex → Prop where
  | found {k : Nat} {r : ExecRef} :
      pid + 1 = k → t.procs[k]? = some (.proc r) →
      RetrieveOutcome t pid (some r, t.withSlot k .null)
  | absent {k : Nat} :
      pid + 1 = k → (∀ r, t.procs[k]? ≠ some (.proc r)) → RetrieveOutcome t pid (none, t)

theorem procindexRetrieve_meets {crash : Prop} {t : Procindex} (hsane : t.Sane) (pid : Int) :
    Meets (Tolerated crash) (procindexRetrieve t pid) (RetrieveOutcome t pid) := by
  refine (Procindex.entry_meets hsane pid).bind fun o ho => ?_
  obtain ⟨k, hk, ho⟩ := ho
  cases o with
  | none => exact .absent hk fun r hr => nomatch (ho r).mp hr
  | some r =>
      refine toInt_bind fun _ _ => ?_
      have hr := (ho r).mpr rfl
      have hkn : (pid + 1).toNat = k := by omega
      rw [Procindex.setSlot_ok (by omega) (by rw [hkn]; exact hr), hkn]
      exact .found hk hr

/-! ## §4. `procindex_opencall_add`. -/

section OpencallAdd

-- without this the elaborator evaluates the bounds of an `int` on terms with variables
attribute [local irreducible] toInt

variable {crash : Prop} {l : Ledger} {target : ExecRef} {c : ExecCall} {o : OpenRef} {oc : OpenCall}

/-- `procindex_trackparents` of an entry marks calls as tracked and does nothing else. -/
theorem procindexTrackparents_meets :
    ∀ (depth : Nat) (l : Ledger) (child : Int), l.Sound →
      (∃ (k : Nat) (r : ExecRef), child + 1 = k ∧ l.procs.procs[k]? = some (.proc r)) →
      Meets (Tolerated crash) (procindexTrackparents depth l.heap l.procs child) fun h' =>
        Works l { l with heap := h' } ∧ h'.attached = l.heap.attached := by
  intro depth
  induction depth with
  | zero => intro l child _ _; trivial
  | succ depth ih =>
      intro l child hsound ⟨k, r, hk, hr⟩
      -- the child is an entry: the one that is read
      refine toInt_bind fun _ _ => ?_
      refine (l.procs.slot_meets _).bind fun entry hentry => ?_
      obtain ⟨k', hk', hentry⟩ := hentry
      rw [show k' = k by omega, hr] at hentry
      cases entry with
      | none => cases hentry
      | some r' =>
          cases hentry
          obtain ⟨c, hc, -⟩ := hsound.entry_live hr
          simp only [Heap.exec_some hc, ok_bind]
          refine toInt_bind fun _ _ => ?_
          refine (l.procs.slot_meets _).bind fun parent hparent => ?_
          obtain ⟨j, hj, hparent⟩ := hparent
          cases parent with
          | none => exact ⟨.refl, rfl⟩
          | some parent =>
              obtain ⟨p, hp, -⟩ := hsound.entry_live hparent
              simp only [Heap.exec_some hp, ok_bind]
              split
              · exact ⟨.refl, rfl⟩
              split
              · exact ⟨.refl, rfl⟩
              have hwork : Work l
                  { l with heap := l.heap.setExec parent { p with tracked := true } } :=
                .change hp ⟨rfl, rfl, fun _ hb => hb, fun hr => ⟨hr.1, hr.2, hr.3⟩, fun _ => rfl⟩
              refine (ih _ _ (hwork.sound hsound) ⟨j, parent, hj, hparent⟩).mono fun h' hh' => ?_
              exact ⟨.head hwork hh'.1, hh'.2⟩

/-- The buffer can take one more pointer and has room for two more after that. -/
structure Roomy (c : ExecCall) : Prop where
  length : c.callBuff.length = c.callBuffSize
  room : c.callNum + 3 ≤ c.callBuffSize
  small : c.callBuffSize ≤ 2 ^ 33

/-- A buffer twice as large holds what it held. -/
theorem enlarge_similar (hroom : Room c) (hsmall : c.callBuffSize ≤ 2 ^ 32) :
    Similar c (c.enlarge (c.callBuffSize * 2)) ∧ Roomy (c.enlarge (c.callBuffSize * 2)) := by
  have hlen := hroom.length
  have hfree := hroom.room
  have hblock : (c.enlarge (c.callBuffSize * 2)).callBuff
      = c.callBuff ++ List.replicate (c.callBuffSize * 2 - c.callBuff.length) none := by
    show c.callBuff.take (c.callBuffSize * 2) ++ _ = _
    rw [List.take_of_length_le (by omega)]
  have hblockLen : (c.enlarge (c.callBuffSize * 2)).callBuff.length = c.callBuffSize * 2 := by
    rw [hblock, List.length_append, List.length_replicate]
    omega
  have hsize : (c.enlarge (c.callBuffSize * 2)).callBuffSize = c.callBuffSize * 2 := rfl
  have hnum : (c.enlarge (c.callBuffSize * 2)).callNum = c.callNum := rfl
  refine ⟨⟨rfl, rfl, fun os hb => ⟨?_, by omega⟩, fun _ => ⟨by omega, by omega, by omega⟩, id⟩,
    by omega, by omega, by omega⟩
  rw [hblock, hnum, List.take_append_of_le_length hb.2, hb.1]

theorem growCallBuff_meets {granted : Bool} {h : Heap} (hc : h.execs target = some c)
    (hroom : Room c) :
    Meets (Tolerated crash) (growCallBuff granted h target) fun p =>
      match p with
      | none => granted = false
      | some h' => ∃ c', h' = h.setExec target c' ∧ Similar c c' ∧ Roomy c' := by
  have hlen := hroom.length
  have hfree := hroom.room
  rw [growCallBuff, Heap.exec_some hc, ok_bind]
  refine toInt_bind fun _ hmax => ?_
  split
  next hfull =>
    cases granted with
    | false => rfl
    | true =>
      have hdouble : c.callBuffSize * 2 % 2 ^ 64 = c.callBuffSize * 2 := by omega
      rw [if_pos rfl, hdouble]
      have hsim : Similar c (c.enlarge (c.callBuffSize * 2)) ∧
          Roomy (c.enlarge (c.callBuffSize * 2)) :=
        enlarge_similar hroom (by omega)
      exact ⟨_, rfl, hsim⟩
  next hfull =>
    have hsame : h = h.setExec target c := by
      rw [Heap.setExec, ← hc, Function.update_eq_self]
    exact ⟨c, hsame, ⟨rfl, rfl, fun _ hb => hb, id, id⟩, hlen, by omega, hroom.small⟩

theorem buffer_push {os : List OpenRef} (hb : Heap.Buffer c os) (hroom : Roomy c) (o : OpenRef) :
    Heap.Buffer (c.push o) (os ++ [o]) := by
  have hlt : c.callNum < c.callBuff.length := by
    rw [hroom.length]
    have := hroom.room
    omega
  refine ⟨?_, ?_⟩
  · show (c.callBuff.set c.callNum (some o)).take (c.callNum + 1) = (os ++ [o]).map some
    rw [List.set_eq_take_append_cons_drop, if_pos hlt, hb.1, List.map_append,
      List.take_append, List.length_map, hb.length]
    simp [List.take_of_length_le, hb.length]
  · show c.callNum + 1 ≤ (c.callBuff.set c.callNum (some o)).length
    rw [List.length_set]
    omega

theorem appended_push (hroom : Roomy c) (o : OpenRef) {tracked : Bool} (h : tracked = true) :
    Appended c o { c.push o with tracked := tracked } := by
  have hfree := hroom.room
  refine ⟨rfl, rfl, fun os hb => buffer_push hb hroom o, ⟨?_, ?_, hroom.small⟩, h⟩
  · show (c.callBuff.set c.callNum (some o)).length = c.callBuffSize
    rw [List.length_set, hroom.length]
  · show c.callNum + 1 + 2 ≤ c.callBuffSize
    omega

/-- Storing the pointer, counting it, and marking the call and its ancestors as tracked. -/
theorem attachOpen_meets (hsound : l.Sound) (ho : o ∈ l.openHand)
    (hc : l.heap.execs target = some c) (hoc : l.heap.opens o = some oc) (hpid : oc.pid = c.pid)
    (hroom : Roomy c)
    (hentry : ∃ k : Nat, c.pid.toInt + 1 = k ∧ l.procs.procs[k]? = some (.proc target)) :
    Meets (Tolerated crash) (attachOpen l.heap l.procs target o) fun h' =>
      Works l { l with heap := h', openHand := l.openHand.erase o }
        ∧ h'.attached = l.heap.attached ++ [(target, o)] := by
  have hlen := hroom.length
  have hfree := hroom.room
  rw [attachOpen, Heap.exec_some hc, ok_bind, if_neg (by omega)]
  refine toInt_bind fun _ _ => ?_
  by_cases htracked : c.tracked = true
  · rw [if_pos htracked]
    exact ⟨.single (.attach ho hc hoc hpid (appended_push hroom o htracked)), rfl⟩
  · rw [if_neg htracked]
    have hwork := Work.attach ho hc hoc hpid (appended_push hroom o rfl)
    have hheap : ((l.heap.setExec target (c.push o)).noteAttached target o).setExec target
          { c.push o with tracked := true }
        = (l.heap.setExec target { c.push o with tracked := true }).noteAttached target o := by
      simp [Heap.setExec, Heap.noteAttached]
    rw [hheap]
    obtain ⟨k, hk, hentry⟩ := hentry
    refine (procindexTrackparents_meets _ _ c.pid.toInt (hwork.sound hsound)
      ⟨k, target, hk, hentry⟩).mono fun h' hh' => ?_
    exact ⟨.head hwork hh'.1, hh'.2⟩

/-- All requests of one call are granted. -/
structure OpencallAlloc.Granted (a : OpencallAlloc) : Prop where
  grow : ∀ k, a.grow k = true
  callBuff : a.callBuff = true
  newProc : a.newProc = true
  args : a.args = true
  cmdName : a.cmdName = true
  calloc : a.calloc = true
  add : ∀ k, a.add k = true

/-- The table keeps its entries. -/
structure Keeps (t t' : Procindex) : Prop where
  maxPid : t'.maxPid = t.maxPid
  entries : ∀ (k : Nat) (r : ExecRef),
    t.procs[k]? = some (.proc r) → t'.procs[k]? = some (.proc r)

theorem Keeps.trans {t t' t'' : Procindex} (h : Keeps t t') (h' : Keeps t' t'') : Keeps t t'' :=
  ⟨h'.maxPid.trans h.maxPid, fun k r hk => h'.entries k r (h.entries k r hk)⟩

theorem Procindex.Extends.keeps {t t' : Procindex} (h : t.Extends t') : Keeps t t' :=
  ⟨h.maxPid, fun _ _ hk => h.get hk⟩

theorem AddOutcome.keeps {granted : Nat → Bool} {h : Heap} {t : Procindex} {call : ExecRef}
    {p : Int × Heap × Procindex} (ho : AddOutcome granted h t call c p) : Keeps t p.2.2 := by
  cases ho with
  | rejected => exact ⟨rfl, fun _ _ hk => hk⟩
  | noMemory hin hg => exact hg.grows.keeps
  | occupied hin hg hk hown => exact hg.grows.keeps
  | @added t' k hin hg hk hown hparent =>
      refine ⟨hg.grows.maxPid, fun j r hj => ?_⟩
      have hj' := hg.grows.get hj
      show (t'.procs.set k (.proc call))[j]? = some (.proc r)
      rw [List.getElem?_set_ne]
      · exact hj'
      · rintro rfl
        rw [hown] at hj'
        cases hj'

theorem AddOutcome.wf {granted : Nat → Bool} {h : Heap} {t : Procindex} {call : ExecRef}
    {p : Int × Heap × Procindex} (ho : AddOutcome granted h t call c p)
    (hall : ∀ k, granted k = true) (hwf : t.Wf) : p.2.2.Wf := by
  cases ho with
  | rejected => exact hwf
  | noMemory hin hg => exact (hg.wf hall hwf).2
  | occupied hin hg hk hown => exact (hg.wf hall hwf).2
  | added hin hg hk hown hparent => exact (hg.wf hall hwf).2.withSlot _ (by simp)

theorem dummyCall_fresh (ht : OpenText oc) : Fresh (dummyCall oc) :=
  ⟨rfl, ⟨rfl, Nat.le_add_left 2 6, by show 8 ≤ 2 ^ 33; omega⟩, ht.2,
    by show (0 : UInt8) ∉ unknownArgs; decide, by show 7 ≤ INT_MAX; decide⟩

/-- What `addDummy` leaves: the dummy is the new entry, or there is still none. -/
structure DummyDone (alloc : OpencallAlloc) (l : Ledger) (oc : OpenCall) (k : Nat) (h' : Heap)
    (t' : Procindex) : Prop where
  works : ∃ hand', Works l { l with heap := h', procs := t', hand := hand' } ∧ l.hand ⊆ hand'
  attached : h'.attached = l.heap.attached
  opens : h'.opens = l.heap.opens
  keeps : Keeps l.procs t'
  wf : alloc.Granted → l.procs.Wf → t'.Wf
  entry : (¬ LinksParent l.procs (dummyCall oc)
      ∧ ∃ r c, t'.procs[k]? = some (.proc r) ∧ h'.execs r = some c ∧ c.pid = oc.pid ∧ Roomy c)
    ∨ ¬ (alloc.Granted ∧ l.procs.Wf) ∧ ∀ r, t'.procs[k]? ≠ some (.proc r)

theorem addDummy_meets {alloc : OpencallAlloc} {k : Nat} (hsound : l.Sound) (ht : OpenText oc)
    (hin : l.procs.InRange oc.pid) (hk : oc.pid.toInt + 1 = k)
    (hnone : ∀ r, l.procs.procs[k]? ≠ some (.proc r))
    (hcrash : ¬ (alloc.Granted ∧ ¬ LinksParent l.procs (dummyCall oc)) → crash) :
    Meets (Tolerated crash) (addDummy alloc l.heap l.procs oc) fun p =>
      match p with
      | none => ¬ alloc.Granted
      | some (h', t') => DummyDone alloc l oc k h' t' := by
  unfold addDummy
  split
  next hnew => exact hcrash fun hsafe => hnew hsafe.1.newProc
  split
  next =>
    have hdummy : Work l { l with
        heap := l.heap.mallocExec true (dummyCall oc), hand := l.heap.nextExec :: l.hand } :=
      .dummy (dummyCall_fresh ht) rfl
    have hc : (l.heap.mallocExec true (dummyCall oc)).execs l.heap.nextExec = some (dummyCall oc) :=
      Function.update_self _ _ _
    refine (procindexAdd_meets hc hsound.table.sane
      fun hlink => hcrash fun hsafe => hsafe.2 hlink).bind fun p hp => ?_
    obtain ⟨ret, h', t'⟩ := p
    have hworks := hp.works (l := { l with
      heap := l.heap.mallocExec true (dummyCall oc), hand := l.heap.nextExec :: l.hand })
      (by simp) hc
    have hkeeps := hp.keeps
    have hwf : alloc.Granted → l.procs.Wf → t'.Wf := fun hg hwf => hp.wf hg.add hwf
    cases hp with
    | rejected hout => exact absurd hin hout
    | noMemory _ hg =>
        -- the dummy stays in hand, and the slot as it was
        refine ⟨⟨_, .head hdummy hworks, ?_⟩, rfl, rfl, hkeeps, hwf, .inr ⟨?_, ?_⟩⟩
        · exact fun r hr => List.mem_cons_of_mem _ hr
        · rintro ⟨hgranted, hw⟩
          exact Bool.noConfusion (hg.wf hgranted.add hw).1
        · exact fun r hr => hnone r (hg.grows.proc hr)
    | @occupied _ j r _ hg hj hr =>
        replace hj : oc.pid.toInt + 1 = j := hj
        rw [show j = k by omega] at hr
        exact absurd (hg.grows.proc hr) (hnone r)
    | @added t'' j _ hg hj hnull hlink =>
        replace hj : oc.pid.toInt + 1 = j := hj
        obtain rfl : j = k := by omega
        refine ⟨⟨_, .head hdummy hworks, ?_⟩, rfl, rfl, hkeeps, hwf, .inl ⟨fun hl => hlink hl.2.2,
          l.heap.nextExec, { dummyCall oc with ppid := 0 }, ?_, ?_, rfl, rfl,
          by show 3 ≤ 8; omega, ?_⟩⟩
        · simp
        · show (t''.procs.set j _)[j]? = _
          rw [List.getElem?_set_self (List.getElem?_eq_some_iff.mp hnull).1]
        · exact Function.update_self _ _ _
        · show 8 ≤ 2 ^ 33
          omega
  next hrefused =>
    exact fun hg => hrefused ⟨hg.args, hg.cmdName, hg.calloc⟩

/-- What `procindex_opencall_add` leaves. -/
structure OpencallDone (alloc : OpencallAlloc) (l : Ledger) (o : OpenRef) (oc : OpenCall)
    (p : Int × Heap × Procindex) : Prop where
  works : ∃ hand', l.hand ⊆ hand' ∧ Works l { l with
    heap := p.2.1, procs := p.2.2, hand := hand'
    openHand := if p.1 = NOMINAL then l.openHand.erase o else l.openHand }
  keeps : Keeps l.procs p.2.2
  wf : alloc.Granted → l.procs.Wf → p.2.2.Wf
  nominal : alloc.Granted → l.procs.Wf → l.procs.InRange oc.pid → p.1 = NOMINAL
  links : alloc.Granted → l.procs.Wf → ¬ LinksParent l.procs (dummyCall oc)
  attached : p.1 = NOMINAL → ∃ (k : Nat) (r : ExecRef), oc.pid.toInt + 1 = k
    ∧ p.2.2.procs[k]? = some (.proc r) ∧ p.2.1.attached = l.heap.attached ++ [(r, o)]

/-- Nothing was attached; the table has grown at most. -/
theorem OpencallDone.refused {alloc : OpencallAlloc} {t' : Procindex} {ret : Int}
    (hg : l.procs.Extends t') (hsane : t'.Sane) (hret : ret ≠ NOMINAL)
    (hwf : alloc.Granted → l.procs.Wf → t'.Wf)
    (hgranted : ¬ (alloc.Granted ∧ l.procs.Wf ∧ l.procs.InRange oc.pid)) :
    OpencallDone alloc l o oc (ret, l.heap, t') := by
  refine ⟨⟨l.hand, fun _ hr => hr, ?_⟩, hg.keeps, hwf, ?_, ?_, fun h => absurd h hret⟩
  · show Works l { l with
      procs := t', openHand := if ret = NOMINAL then l.openHand.erase o else l.openHand }
    rw [if_neg hret]
    exact .single (.extend hg hsane)
  · exact fun h1 h2 h3 => absurd ⟨h1, h2, h3⟩ hgranted
  · exact fun h1 h2 hl => hgranted ⟨h1, h2, hl.1⟩

/-- **`procindex_opencall_add`** of an open call in hand. -/
theorem procindexOpencallAdd_meets {alloc : OpencallAlloc} (hsound : l.Sound)
    (ho : o ∈ l.openHand) (hoc : l.heap.opens o = some oc)
    (hcrash : ¬ (alloc.Granted ∧ l.procs.Wf ∧ ¬ LinksParent l.procs (dummyCall oc)) → crash) :
    Meets (Tolerated crash) (procindexOpencallAdd alloc l.heap l.procs o)
      (OpencallDone alloc l o oc) := by
  have htext := hsound.objects.openTexts o oc hoc
  rw [procindexOpencallAdd, Heap.openCall_some hoc, ok_bind]
  by_cases hrange : oc.pid.toInt < 0 ∨ l.procs.maxPid < oc.pid.toInt
  · rw [if_pos hrange]
    refine .refused (.refl _) hsound.table.sane (by decide) (fun _ hwf => hwf) ?_
    rintro ⟨-, -, hin⟩
    have := hin.1
    have := hin.2
    omega
  rw [if_neg hrange]
  have hin : l.procs.InRange oc.pid := ⟨by omega, by omega⟩
  refine (openGrow_grown hsound.table.sane hin.2).bind fun p hg => ?_
  obtain ⟨ready, t'⟩ := p
  have hwf : alloc.Granted → l.procs.Wf → t'.Wf := fun ha hw => (hg.wf ha.grow hw).2
  cases ready with
  | false =>
      exact .refused hg.grows hg.sane (by decide) hwf
        fun h => Bool.noConfusion (hg.wf h.1.grow h.2.1).1
  | true =>
    have hextend : Work l { l with procs := t' } := .extend hg.grows hg.sane
    have hsound' := hextend.sound hsound
    refine (Procindex.entry_meets hg.sane oc.pid.toInt).bind fun entry hentry => ?_
    obtain ⟨k, hk, hentry⟩ := hentry
    -- either the pid has an entry, or a dummy is made for it and looked up again
    cases entry with
    | some target =>
      have htarget := (hentry target).mpr rfl
      obtain ⟨c, hc, hpid⟩ := hsound'.entry_live htarget
      have hpid' : oc.pid = c.pid := by
        rw [← Int32.toInt_inj]
        omega
      refine (growCallBuff_meets hc (hsound'.objects.room target c hc)).bind fun p hp => ?_
      cases p with
      | none =>
          exact .refused hg.grows hg.sane (by decide) hwf
            fun h => by simp [h.1.callBuff] at hp
      | some h' =>
          obtain ⟨c', rfl, hsim, hroom⟩ := hp
          have hchange : Work { l with procs := t' }
              { l with procs := t', heap := l.heap.setExec target c' } := .change hc hsim
          have hc' : (l.heap.setExec target c').execs target = some c' := Function.update_self _ _ _
          refine (attachOpen_meets (hchange.sound hsound') ho hc' hoc
            (hpid'.trans hsim.pid.symm) hroom ⟨k, by rw [hsim.pid]; exact hpid, htarget⟩).bind
            fun h'' hh => ?_
          have hholds : l.procs.Holds oc.pid :=
            (Procindex.Holds.extend hg.grows).mp ⟨k, target, hk, htarget⟩
          exact ⟨⟨l.hand, fun _ hr => hr, .head hextend (.head hchange hh.1)⟩, hg.grows.keeps, hwf,
            fun _ _ _ => rfl, fun _ _ hl => hl.2.1 hholds, fun _ => ⟨k, target, hk, htarget, hh.2⟩⟩
    | none =>
      have hnone : ∀ r, t'.procs[k]? ≠ some (.proc r) := fun r hr => nomatch (hentry r).mp hr
      have hlink := LinksParent.extend (c := dummyCall oc) hg.grows
      refine (addDummy_meets hsound' htext ⟨hin.1, by rw [hg.grows.maxPid]; exact hin.2⟩ hk hnone
        fun hunsafe => hcrash fun hsafe =>
          hunsafe ⟨hsafe.1, fun hl => hsafe.2.2 (hlink.mp hl)⟩).bind fun p hp => ?_
      cases p with
      | none => exact .refused hg.grows hg.sane (by decide) hwf fun h => hp h.1
      | some p =>
        obtain ⟨h', t''⟩ := p
        obtain ⟨⟨hand', hworks, hhand⟩, hatt, hopens, hkeeps, hwf', hdummy⟩ := hp
        refine toInt_bind fun _ _ => ?_
        refine (t''.slot_meets _).bind fun entry' hentry' => ?_
        obtain ⟨j, hj, hentry'⟩ := hentry'
        obtain rfl : j = k := by omega
        rcases hdummy with ⟨hunlinked, r, c, hr, hc, hpid, hroom⟩ | ⟨hungranted, hstill⟩
        · rw [hr] at hentry'
          cases entry' with
          | none => cases hentry'
          | some r' =>
            cases hentry'
            have hsound'' := hworks.sound hsound'
            refine (attachOpen_meets hsound'' ho hc
              (by show h'.opens o = some oc; rw [hopens]; exact hoc)
              hpid.symm hroom ⟨j, by rw [hpid]; exact hk, hr⟩).bind fun h'' hh => ?_
            exact ⟨⟨hand', hhand, (Relation.ReflTransGen.head hextend hworks).trans hh.1⟩,
              hg.grows.keeps.trans hkeeps, fun ha hw => hwf' ha (hwf ha hw),
              fun _ _ _ => rfl, fun _ _ hl => hunlinked (hlink.mpr hl),
              fun _ => ⟨j, r, hk, hr, hh.2.trans (by rw [hatt])⟩⟩
        · -- the dummy was refused: the step through `NULL`
          cases entry' with
          | some r => exact absurd hentry' (hstill r)
          | none => exact hcrash fun hsafe => hungranted ⟨hsafe.1, hwf hsafe.1 hsafe.2.1⟩

end OpencallAdd

end DirSurveiller
