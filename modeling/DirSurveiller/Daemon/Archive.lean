/-
  DirSurveiller.Daemon.Archive — what is found in the databases after a run.

  The exec database takes one record for each pair of a time stamp and a pid.  A parsed call has both
  from the tracer; the dummy that stands for an unknown pid has the pid and the time stamp 0.  A
  second `put` under one key is refused, and the opens of the refused call name the key of another.

  Main result:
    * `archive_complete_iff` — every dispatched call is stored and every open names its issuer iff no
      dispatched dummy shares its pid with another one or with a parsed call of time 0.
-/
import DirSurveiller.Daemon.Operations

namespace DirSurveiller

open CMachine Outcome

/-! ## §1. Complete archives. -/

/-- The key under which `c` belongs; the padding is not compared. -/
def archiveKey (bootTime : UInt32) (c : ExecCall) : DbECallKey :=
  ⟨archiveStamp bootTime c.timeStamp, c.pid, 0⟩

/-- Every dispatched call is stored under its own key, from which its own strings are read; and the
key in each stored openCall looks up the call that issued it. -/
structure ArchiveComplete (s : Surveiller) : Prop where
  execs : ∀ p ∈ s.dispatched, ∃ e, s.dbMan.findExec (archiveKey s.bootTime p.2) = some e
    ∧ e.origin = p.1 ∧ ∀ junk, ∃ record, dbExecCallUnmarshall junk e.data = .ok (0, record)
      ∧ record.cmdName = some p.2.cmdName ∧ record.args = some p.2.args
  opens : ∀ o ∈ s.dbMan.openCallDB, ∀ junk, ∃ ret record e,
    dbOpenCallUnmarshall junk o.data = .ok (ret, record)
      ∧ s.dbMan.findExec record.eCallKey = some e ∧ e.origin = o.issuer

/-- `r` was made by `procindex_opencall_add` for an unknown pid. -/
def Surveiller.Dummy (s : Surveiller) (r : ExecRef) : Prop :=
  ∃ i, s.heap.births[r]? = some (true, i)

/-- No dummy shares its pid with another dummy or with a call of time 0, among those handed to
`surv_database_dispatch`. -/
def DummiesApart (s : Surveiller) : Prop :=
  ∀ p ∈ s.dispatched, ∀ q ∈ s.dispatched, s.Dummy p.1 → p.2.pid = q.2.pid →
    (s.Dummy q.1 ∨ q.2.timeStamp = ⟨0, 0⟩) → p.1 = q.1

section Archive

variable {s : Surveiller} {hand : List ExecRef} {openHand : List OpenRef}

/-- Nothing is dispatched twice. -/
theorem Surveiller.Invariant.dispatched_inj (h : s.Invariant hand openHand)
    {p q : ExecRef × ExecCall} (hp : p ∈ s.dispatched) (hq : q ∈ s.dispatched) (heq : p.1 = q.1) :
    p = q := by
  have hnodup : (s.dispatched.map Prod.fst).Nodup := by
    rw [List.nodup_iff_count_le_one]
    intro r
    have honce := h.sound.once r
    unfold Ledger.tally at honce
    have hfreed : s.heap.freedExecs.count r ≤ 1 := Nat.le_trans (Nat.le_add_left _ _) honce
    exact Nat.le_trans (h.once r) hfreed
  exact List.inj_on_of_nodup_map hnodup hp hq heq

/-- In an archive that is complete no two calls have the same key. -/
theorem ArchiveComplete.apart (hc : ArchiveComplete s) {p q : ExecRef × ExecCall}
    (hp : p ∈ s.dispatched) (hq : q ∈ s.dispatched) (hsame : SameKey p.2 q.2) : p.1 = q.1 := by
  obtain ⟨e, he, hpe, -⟩ := hc.execs p hp
  obtain ⟨e', he', hqe, -⟩ := hc.execs q hq
  have hkey : archiveKey s.bootTime p.2 = archiveKey s.bootTime q.2 := by
    unfold archiveKey
    rw [hsame.1, hsame.2]
  rw [hkey, he', Option.some.injEq] at he
  rw [← hpe, ← hqe, he]

/-- Where no two dispatched calls have the same key, the archive is complete. -/
theorem Surveiller.Invariant.archiveComplete (h : s.Invariant hand openHand)
    (hkeys : ∀ p ∈ s.dispatched, ∀ q ∈ s.dispatched, SameKey p.2 q.2 → p = q) :
    ArchiveComplete s := by
  have ha := h.archived
  refine ⟨fun p hp => ?_, fun o ho junk => ?_⟩
  · have htime : (archiveKey s.bootTime p.2).timeStamp = archiveStamp s.bootTime p.2.timeStamp := rfl
    obtain ⟨env, hfind⟩ := ha.stored (r := p.1) (c := p.2) hkeys hp htime rfl
    refine ⟨_, hfind, rfl, fun junk => ?_⟩
    obtain ⟨hcmd, hargs⟩ := ha.texts p hp
    exact ⟨_, dbExecCallUnmarshall_eq junk _ hcmd hargs .nil (ha.fits p hp), rfl, rfl⟩
  · obtain ⟨p, hp, hissuer, env, oc, htext, hdata⟩ := ha.opens o ho
    have hread := dbOpenCallUnmarshall_eq junk (archivedOpen s.bootTime env p.2 oc) htext.1.1
    rw [← hdata] at hread
    have htime : (archivedOpen s.bootTime env p.2 oc).eCallKey.timeStamp
        = archiveStamp s.bootTime p.2.timeStamp := rfl
    obtain ⟨env', hfind⟩ := ha.stored (r := p.1) (c := p.2) hkeys hp htime rfl
    exact ⟨_, _, _, hread, hfind, hissuer.symm⟩

/-- Two elements at different places of a list without clashes. -/
theorem pairwise_getElem? {α : Type} {R : α → α → Prop} {l : List α} (h : l.Pairwise R)
    (hsymm : ∀ a b, R a b → R b a) {i j : Nat} {a b : α} (hi : l[i]? = some a) (hj : l[j]? = some b)
    (hne : i ≠ j) : R a b := by
  obtain ⟨hli, rfl⟩ := List.getElem?_eq_some_iff.mp hi
  obtain ⟨hlj, rfl⟩ := List.getElem?_eq_some_iff.mp hj
  rw [List.pairwise_iff_getElem] at h
  rcases Nat.lt_or_gt_of_ne hne with hlt | hgt
  · exact h i j hli hlj hlt
  · exact hsymm _ _ (h j i hlj hli hgt)

/-- The keys of parsed calls. -/
def RealApart (real : List Identity) : Prop :=
  real.Pairwise fun i j => ¬ (i.timeStamp = j.timeStamp ∧ i.pid = j.pid)

/-- Of two calls with the same key one is a dummy. -/
theorem Surveiller.Invariant.sameKey_dummy (h : s.Invariant hand openHand)
    (hreal : RealApart s.heap.real) {p q : ExecRef × ExecCall} (hp : p ∈ s.dispatched)
    (hq : q ∈ s.dispatched) (hsame : SameKey p.2 q.2) (hne : p.1 ≠ q.1) :
    s.Dummy p.1 ∨ s.Dummy q.1 := by
  obtain ⟨d, hd⟩ := h.born p hp
  obtain ⟨d', hd'⟩ := h.born q hq
  cases d with
  | true => exact .inl ⟨_, hd⟩
  | false =>
      cases d' with
      | true => exact .inr ⟨_, hd'⟩
      | false =>
          unfold RealApart Heap.real at hreal
          rw [List.pairwise_map, List.pairwise_filter] at hreal
          have happart := pairwise_getElem? hreal
            (fun a b hab hb ha hkey => hab ha hb ⟨hkey.1.symm, hkey.2.symm⟩) hd hd' hne rfl rfl
          exact absurd ⟨hsame.1, hsame.2⟩ happart

/-- A dispatched dummy has the time stamp 0. -/
theorem Surveiller.Invariant.dummy_time (h : s.Invariant hand openHand) {p : ExecRef × ExecCall}
    (hp : p ∈ s.dispatched) (hd : s.Dummy p.1) : p.2.timeStamp = ⟨0, 0⟩ := by
  obtain ⟨i, hi⟩ := hd
  obtain ⟨d, hborn⟩ := h.born p hp
  obtain ⟨rfl, rfl⟩ := Prod.mk.inj (Option.some.inj (hi.symm.trans hborn))
  have hobj : Ledger.Objects s.heap := h.sound.objects
  exact hobj.dummies _ (List.mem_of_getElem? hborn) rfl

/-- The keys are distinct iff the dummies are apart. -/
theorem Surveiller.Invariant.dummiesApart_iff (h : s.Invariant hand openHand)
    (hreal : RealApart s.heap.real) :
    DummiesApart s
      ↔ ∀ p ∈ s.dispatched, ∀ q ∈ s.dispatched, SameKey p.2 q.2 → p.1 = q.1 := by
  constructor
  · intro hd p hp q hq hsame
    by_contra hne
    rcases h.sameKey_dummy hreal hp hq hsame hne with hdummy | hdummy
    · have hzero := hsame.1.symm.trans (h.dummy_time hp hdummy)
      exact hne (hd p hp q hq hdummy hsame.2 (.inr hzero))
    · have hzero := hsame.1.trans (h.dummy_time hq hdummy)
      exact hne (hd q hq p hp hdummy hsame.2.symm (.inr hzero)).symm
  · intro hkeys p hp q hq hdummy hpid hother
    have hzero := h.dummy_time hp hdummy
    rcases hother with hdummy' | hzero'
    · exact hkeys p hp q hq ⟨hzero.trans (h.dummy_time hq hdummy').symm, hpid⟩
    · exact hkeys p hp q hq ⟨hzero.trans hzero'.symm, hpid⟩

theorem Surveiller.Invariant.archiveComplete_iff (h : s.Invariant hand openHand)
    (hreal : RealApart s.heap.real) : ArchiveComplete s ↔ DummiesApart s := by
  rw [h.dummiesApart_iff hreal]
  constructor
  · intro hc p hp q hq hsame
    exact hc.apart hp hq hsame
  · intro hkeys
    exact h.archiveComplete fun p hp q hq hsame => h.dispatched_inj hp hq (hkeys p hp q hq hsame)

end Archive

/-! ## §2. Every run. -/

/-- **Completeness and integrity of the archive**, for parsed calls with distinct time stamps and
pids. -/
theorem archive_complete_iff {getMaxPID ownPID : Int} {bootTime : UInt32} {s0 s : Surveiller}
    {ops : List Op} (h0 : survInit getMaxPID ownPID bootTime = .ok (some s0))
    (hrun : runOps s0 ops = .ok s)
    (hreal : (ops.filterMap Op.event).Pairwise fun e e' =>
      ¬ (e.timeStamp = e'.timeStamp ∧ e.pid = e'.pid)) :
    ArchiveComplete s ↔ DummiesApart s := by
  have hran := runOps_ran h0 hrun
  obtain ⟨hand, openHand, hinv⟩ := hran.invariant
  apply hinv.archiveComplete_iff
  unfold RealApart
  rw [hran.real, List.pairwise_map]
  exact hreal

/-- Everything in the index is flushed and dispatched. -/
def archiveAll : List Op :=
  [.flush, .dispatch fun _ => ⟨fun _ _ => some fun _ => 0, 0, fun _ => []⟩]

theorem archive_complete_sample :
    ∃ s0 s, survInit 10 1 0 = .ok (some s0)
      ∧ runOps s0 ([.addExecCall (fun _ => true) (fun _ => true) (.blank 1 9 ⟨1, 0⟩),
          .opencallAdd .granting (.blank 1 ⟨2, 0⟩), .opencallAdd .granting (.blank 2 ⟨3, 0⟩)]
          ++ archiveAll) = .ok s
      ∧ (ArchiveComplete s ↔ DummiesApart s) := by
  have h0 : survInit 10 1 0 = .ok (some (.initial ⟨List.replicate 4 .null, 4, 10⟩ 0)) := by rfl
  obtain ⟨s, hrun⟩ : ∃ s, runOps (.initial ⟨List.replicate 4 .null, 4, 10⟩ 0)
      ([.addExecCall (fun _ => true) (fun _ => true) (.blank 1 9 ⟨1, 0⟩),
        .opencallAdd .granting (.blank 1 ⟨2, 0⟩), .opencallAdd .granting (.blank 2 ⟨3, 0⟩)]
        ++ archiveAll) = .ok s := ⟨_, by rfl⟩
  refine ⟨_, s, h0, hrun, archive_complete_iff h0 hrun ?_⟩
  exact List.pairwise_singleton _ _

/-- **An unknown pid is met again** after its first dummy has been archived: the second one is
refused, although no call has been parsed at all. -/
theorem second_dummy_refused :
    ∃ s0 s, survInit 10 1 0 = .ok (some s0)
      ∧ runOps s0 ([.opencallAdd .granting (.blank 1 ⟨2, 0⟩)] ++ archiveAll
          ++ [.opencallAdd .granting (.blank 1 ⟨3, 0⟩)] ++ archiveAll) = .ok s
      ∧ ¬ ArchiveComplete s := by
  have h0 : survInit 10 1 0 = .ok (some (.initial ⟨List.replicate 4 .null, 4, 10⟩ 0)) := by rfl
  obtain ⟨s, p, q, hrun, hdispatched, hsame, hne⟩ : ∃ s p q,
      runOps (.initial ⟨List.replicate 4 .null, 4, 10⟩ 0)
        ([.opencallAdd .granting (.blank 1 ⟨2, 0⟩)] ++ archiveAll
          ++ [.opencallAdd .granting (.blank 1 ⟨3, 0⟩)] ++ archiveAll) = .ok s
        ∧ s.dispatched = [p, q] ∧ SameKey p.2 q.2 ∧ p.1 ≠ q.1 :=
    ⟨_, _, _, by rfl, by rfl, ⟨by rfl, by rfl⟩, by decide⟩
  refine ⟨_, s, h0, hrun, fun hcomplete => hne ?_⟩
  exact hcomplete.apart (by rw [hdispatched]; simp) (by rw [hdispatched]; simp) hsame

end DirSurveiller
