/-
  DirSurveiller.Daemon.Lineage — from an archived open call back to its process and its ancestors.

  `links` is what the process index has linked, child to parent.  A `Lineage` follows it as far as
  the parents have been archived, and an archive is `Traceable` if asking for a path delivers the
  lineage of every open of it.  In a run that completes nothing is ever linked: `procindex_add`
  reads the time stamp of the parent from the slot of the child, which is still empty.

  Main result:
    * `archive_traceable_iff` — a run completes with a traceable archive iff it never adds a call whose
      parent has an entry, and no archived open was issued by pid 0, which ends the walk.
-/
import DirSurveiller.Daemon.Archive

namespace DirSurveiller

open CMachine Outcome

/-! ## §1. Lineages. -/

/-- The issuer of an open call, its parent, the parent of that, up to the last that was archived. -/
inductive Lineage (s : Surveiller) : ExecRef → List ExecRef → Prop
  | last {r : ExecRef} :
      (∀ p, (r, p) ∈ s.heap.links → p ∉ s.dispatched.map Prod.fst) → Lineage s r [r]
  | next {r p : ExecRef} {l : List ExecRef} :
      (r, p) ∈ s.heap.links → p ∈ s.dispatched.map Prod.fst → Lineage s p l → Lineage s r (r :: l)

/-- `record` is that of the call that was at `r` when it was dispatched. -/
def RecordOf (s : Surveiller) (r : ExecRef) (record : ECallRecord) : Prop :=
  ∃ c, (r, c) ∈ s.dispatched ∧ record.timeStamp = archiveStamp s.bootTime c.timeStamp
    ∧ record.pid = c.pid ∧ record.ppid = c.ppid ∧ record.cmdName = some c.cmdName
    ∧ record.args = some c.args

/-- For every path `retrieveRecords_Path` delivers one record for each stored open call of it, and
that has in `execCalls` the lineage of its issuer. -/
def Traceable (s : Surveiller) : Prop :=
  ∀ path junk junkOpen, ∃ ret records,
    retrieveRecordsPath s.dbMan junk junkOpen path = .ok (ret, records)
      ∧ List.Forall₂ (fun e full => ∃ l, Lineage s e.issuer l
          ∧ List.Forall₂ (RecordOf s) l full.execCalls) (s.dbMan.ofPath path) records

/-- No stored open call was issued by pid 0. -/
def RootIssuesNone (s : Surveiller) : Prop :=
  ∀ e ∈ s.dbMan.openCallDB, ∀ c, (e.issuer, c) ∈ s.dispatched → c.pid ≠ 0

/-- No two dispatched calls share a key. -/
def KeysApart (s : Surveiller) : Prop :=
  ∀ p ∈ s.dispatched, ∀ q ∈ s.dispatched, SameKey p.2 q.2 → p = q

section Lineage

variable {s : Surveiller} {hand : List ExecRef} {openHand : List OpenRef}

theorem Lineage.head {r : ExecRef} {l : List ExecRef} (h : Lineage s r l) : ∃ rest, l = r :: rest := by
  cases h with
  | last => exact ⟨[], rfl⟩
  | next => exact ⟨_, rfl⟩

/-- The full record of a stored open call: its issuer alone, or nothing for pid 0. -/
theorem Surveiller.Invariant.retrieveRecord_eq (h : s.Invariant hand openHand)
    (hkeys : KeysApart s)
    {p : ExecRef × ExecCall} (hp : p ∈ s.dispatched) {e : StoredOpen}
    (hentry : OpenEntry s.bootTime p.2 e) (junk : ECallRecord) (junkOpen : OCallRecord) :
    ∃ full, retrieveRecord s.dbMan junk junkOpen e = .ok full
      ∧ ((p.2.pid = 0 ∧ full.execCalls = [])
        ∨ (p.2.pid ≠ 0 ∧ ∃ record, full.execCalls = [record] ∧ RecordOf s p.1 record)) := by
  have ha := h.archived
  obtain ⟨env, oc, htext, hdata⟩ := hentry
  have hopen := dbOpenCallUnmarshall_eq { junkOpen with filepath := none }
    (archivedOpen s.bootTime env p.2 oc) htext.1.1
  rw [← hdata] at hopen
  unfold retrieveRecord
  rw [hopen, ok_bind]
  by_cases hpid : p.2.pid = 0
  · have hwalk : retrieveExecCalls s.dbMan junk (s.dbMan.execCallDB.length + 1)
        (archivedOpen s.bootTime env p.2 oc).eCallKey = .ok [] := retrieveExecCalls_zero hpid
    dsimp only
    rw [hwalk]
    exact ⟨_, rfl, .inl ⟨hpid, rfl⟩⟩
  · have htime : (archivedOpen s.bootTime env p.2 oc).eCallKey.timeStamp
        = archiveStamp s.bootTime p.2.timeStamp := rfl
    obtain ⟨env', hfind⟩ := ha.stored (r := p.1) (c := p.2) hkeys hp htime rfl
    have hkey : (archivedOpen s.bootTime env p.2 oc).eCallKey.pid ≠ 0 := hpid
    obtain ⟨hcmd, hargs⟩ := ha.texts p hp
    have hread := dbExecCallUnmarshall_eq (dbExecCallInit junk)
      (execRecord env' p.2 (archiveStamp s.bootTime p.2.timeStamp)) hcmd hargs .nil (ha.fits p hp)
    -- `parentEcall` is not in the stored bytes: it is still what `db_execCall_init` has set
    have hwalk : ∃ record, retrieveExecCalls s.dbMan junk (s.dbMan.execCallDB.length + 1)
        (archivedOpen s.bootTime env p.2 oc).eCallKey = .ok [record] ∧ RecordOf s p.1 record := by
      refine ⟨{ execRecord env' p.2 (archiveStamp s.bootTime p.2.timeStamp) with
        parentEcall := (dbExecCallInit junk).parentEcall }, ?_, p.2, hp, rfl, rfl, rfl, rfl, rfl⟩
      rw [retrieveExecCalls, if_neg hkey, dbGetExecCallByKey, hfind]
      dsimp only
      unfold execEntry
      dsimp only
      rw [hread, ok_bind]
      dsimp only
      rw [if_neg (by decide), retrieveExecCalls_zero rfl]
      rfl
    obtain ⟨record, hwalk, hrecord⟩ := hwalk
    dsimp only
    rw [hwalk]
    exact ⟨_, rfl, .inr ⟨hpid, record, rfl, hrecord⟩⟩

/-- **In a completed run** each open call is traced to its issuer, except those of pid 0. -/
theorem Surveiller.Invariant.traceable_root_iff (h : s.Invariant hand openHand)
    (hkeys : KeysApart s) : Traceable s ↔ RootIssuesNone s := by
  have hroot : ∀ r, Lineage s r [r] := fun r => .last fun p hp => by
    rw [h.links] at hp
    exact absurd hp List.not_mem_nil
  constructor
  · intro htrace e he c hc hzero
    obtain ⟨p, hp, hissuer, hentry⟩ := h.archived.opens e he
    have hpc : p = (e.issuer, c) := h.dispatched_inj hp hc hissuer.symm
    obtain ⟨env, oc, htext, hdata⟩ := hentry
    -- ask for the path of this open call
    have hpath : e ∈ s.dbMan.ofPath oc.filepath := by
      unfold DbManager.ofPath
      rw [List.mem_filter, hdata, filepathCallback_openBytes _ htext.1.1]
      exact ⟨he, decide_eq_true rfl⟩
    obtain ⟨ret, records, hrun, hall⟩ := htrace oc.filepath
      ⟨0, 0, ⟨⟨0, 0⟩, 0, 0⟩, ⟨0, 0⟩, none, none, none⟩ ⟨0, ⟨0, 0⟩, ⟨⟨0, 0⟩, 0, 0⟩, none⟩
    obtain ⟨records', hmap, hret⟩ := bind_ok hrun
    obtain ⟨-, rfl⟩ := Prod.mk.inj (Except.ok.inj hret)
    obtain ⟨full, hfull, l, hl, hrecords⟩ := mapM_mem hmap hall e hpath
    obtain ⟨full', hfull', hcases⟩ := h.retrieveRecord_eq hkeys hp ⟨env, oc, htext, hdata⟩
      ⟨0, 0, ⟨⟨0, 0⟩, 0, 0⟩, ⟨0, 0⟩, none, none, none⟩ ⟨0, ⟨0, 0⟩, ⟨⟨0, 0⟩, 0, 0⟩, none⟩
    obtain rfl := Except.ok.inj (hfull.symm.trans hfull')
    rw [hpc] at hcases
    rcases hcases with ⟨-, hnil⟩ | ⟨hne, -⟩
    · obtain ⟨rest, rfl⟩ := hl.head
      rw [hnil] at hrecords
      cases hrecords
    · exact hne hzero
  · intro hpid path junk junkOpen
    have heach : ∀ e ∈ s.dbMan.ofPath path, ∃ full, retrieveRecord s.dbMan junk junkOpen e = .ok full
        ∧ ∃ l, Lineage s e.issuer l ∧ List.Forall₂ (RecordOf s) l full.execCalls := by
      intro e he
      have hmem : e ∈ s.dbMan.openCallDB := List.mem_of_mem_filter he
      obtain ⟨p, hp, hissuer, hentry⟩ := h.archived.opens e hmem
      obtain ⟨full, hfull, hcases⟩ := h.retrieveRecord_eq hkeys hp hentry junk junkOpen
      have hne : p.2.pid ≠ 0 := hpid e hmem p.2 (by rw [hissuer]; exact hp)
      rcases hcases with ⟨hzero, -⟩ | ⟨-, record, hone, hrecord⟩
      · exact absurd hzero hne
      · refine ⟨full, hfull, [e.issuer], hroot _, ?_⟩
        rw [hone, hissuer]
        exact .cons hrecord .nil
    obtain ⟨records, hmap, hall⟩ := mapM_delivers heach
    refine ⟨if records.isEmpty then DB_NOTFOUND else 0, records, ?_, hall⟩
    unfold retrieveRecordsPath
    rw [hmap]
    rfl

end Lineage

/-! ## §2. Every run. -/

section Run

variable {getMaxPID ownPID : Int} {bootTime : UInt32} {s0 s : Surveiller} {ops : List Op}

/-- No operation of the run takes the branch that links a call to its parent. -/
def NeverLinks (s0 : Surveiller) (ops : List Op) : Prop :=
  ∀ pre op post s, ops = pre ++ op :: post → runOps s0 pre = .ok s → ¬ op.Links s

/-- A run that completes has linked nothing. -/
theorem neverLinks_of_ok (h0 : survInit getMaxPID ownPID bootTime = .ok (some s0))
    (hgranted : ∀ op ∈ ops, op.Granted) (hrun : runOps s0 ops = .ok s) : NeverLinks s0 ops := by
  intro pre op post m hops hpre
  rw [hops] at hrun hgranted
  obtain ⟨m', hm', hrest⟩ := run_append.mp hrun
  obtain rfl := Except.ok.inj (hpre.symm.trans hm')
  obtain ⟨m'', hstep, -⟩ := run_cons.mp hrest
  have hran := runOps_ran h0 hpre
  obtain ⟨hand, openHand, hinv⟩ := hran.invariant
  have hstepped := (applyOp_meets hinv op).post hstep
  exact hstepped.links (hgranted op (by simp)) (hran.wf fun x hx => hgranted x (by simp [hx]))

/-- A run that links nothing does not go through `NULL`. -/
theorem NeverLinks.no_null (h0 : survInit getMaxPID ownPID bootTime = .ok (some s0))
    (hgranted : ∀ op ∈ ops, op.Granted) (hlinks : NeverLinks s0 ops) :
    runOps s0 ops ≠ .error .nullDeref := by
  unfold runOps
  rw [run_avoids_iff]
  intro pre op post m hops hpre hfault
  have hran := runOps_ran h0 hpre
  obtain ⟨hand, openHand, hinv⟩ := hran.invariant
  have hallowed := (applyOp_meets hinv op).fault hfault
  rw [hops] at hgranted
  exact hallowed ⟨hgranted op (by simp), hran.wf fun x hx => hgranted x (by simp [hx]),
    hlinks pre op post m hops hpre⟩

end Run

/-- **From every archived open call to its process and its ancestors**, in the runs in which no two
archived calls share a key. -/
theorem archive_traceable_iff {getMaxPID ownPID : Int} {bootTime : UInt32} {s0 : Surveiller}
    {ops : List Op} (h0 : survInit getMaxPID ownPID bootTime = .ok (some s0))
    (hkeys : ∀ s, runOps s0 ops = .ok s → KeysApart s) :
    (∀ s, runOps s0 ops = .ok s → (Traceable s ↔ RootIssuesNone s))
    ∧ ((∀ op ∈ ops, op.Granted) → (∀ f, runOps s0 ops = .error f → f = .nullDeref) →
        ((∃ s, runOps s0 ops = .ok s ∧ Traceable s)
          ↔ NeverLinks s0 ops ∧ ∀ s, runOps s0 ops = .ok s → RootIssuesNone s)) := by
  have hcompleted : ∀ s, runOps s0 ops = .ok s → (Traceable s ↔ RootIssuesNone s) := by
    intro s hrun
    obtain ⟨hand, openHand, hinv⟩ := (runOps_ran h0 hrun).invariant
    exact hinv.traceable_root_iff (hkeys s hrun)
  refine ⟨hcompleted, fun hgranted hfault => ?_⟩
  constructor
  · intro h
    obtain ⟨s, hrun, htrace⟩ := h
    refine ⟨neverLinks_of_ok h0 hgranted hrun, fun s' hrun' => ?_⟩
    obtain rfl := Except.ok.inj (hrun.symm.trans hrun')
    exact (hcompleted s hrun).mp htrace
  · intro h
    obtain ⟨hlinks, hroot⟩ := h
    cases hrun : runOps s0 ops with
    | error f =>
        rw [hfault f hrun] at hrun
        exact absurd hrun (hlinks.no_null h0 hgranted)
    | ok s => exact ⟨s, rfl, (hcompleted s hrun).mpr (hroot s hrun)⟩

theorem archive_traceable_sample :
    ∃ s0 s, survInit 10 1 0 = .ok (some s0)
      ∧ runOps s0 ([.addExecCall (fun _ => true) (fun _ => true) (.blank 1 9 ⟨1, 0⟩),
          .opencallAdd .granting (.blank 1 ⟨2, 0⟩)] ++ archiveAll) = .ok s
      ∧ (Traceable s ↔ RootIssuesNone s) := by
  have h0 : survInit 10 1 0 = .ok (some (.initial ⟨List.replicate 4 .null, 4, 10⟩ 0)) := by rfl
  obtain ⟨s, p, hrun, hdispatched⟩ : ∃ s p, runOps (.initial ⟨List.replicate 4 .null, 4, 10⟩ 0)
      ([.addExecCall (fun _ => true) (fun _ => true) (.blank 1 9 ⟨1, 0⟩),
        .opencallAdd .granting (.blank 1 ⟨2, 0⟩)] ++ archiveAll) = .ok s ∧ s.dispatched = [p] :=
    ⟨_, _, by rfl, by rfl⟩
  refine ⟨_, s, h0, hrun, (archive_traceable_iff h0 fun s' hrun' => ?_).1 s hrun⟩
  obtain rfl := Except.ok.inj (hrun.symm.trans hrun')
  intro q hq q' hq' _
  rw [hdispatched] at hq hq'
  rw [List.mem_singleton.mp hq, List.mem_singleton.mp hq']

/-- **A process and its parent** crash the daemon; and an open of pid 0 is archived, but is not
traced to its process. -/
theorem ancestors_not_traced :
    ∃ s0, survInit 10 1 0 = .ok (some s0)
      ∧ runOps s0 [.addExecCall (fun _ => true) (fun _ => true) (.blank 1 9 ⟨1, 0⟩),
          .addExecCall (fun _ => true) (fun _ => true) (.blank 2 1 ⟨2, 0⟩)] = .error .nullDeref
      ∧ ∃ s, runOps s0 ([.opencallAdd .granting (.blank 0 ⟨3, 0⟩)] ++ archiveAll) = .ok s
        ∧ KeysApart s ∧ ¬ Traceable s := by
  have h0 : survInit 10 1 0 = .ok (some (.initial ⟨List.replicate 4 .null, 4, 10⟩ 0)) := by rfl
  obtain ⟨s, p, e, hrun, hdispatched, hopens, hissuer, hpid⟩ : ∃ s p e,
      runOps (.initial ⟨List.replicate 4 .null, 4, 10⟩ 0)
        ([.opencallAdd .granting (.blank 0 ⟨3, 0⟩)] ++ archiveAll) = .ok s
        ∧ s.dispatched = [p] ∧ s.dbMan.openCallDB = [e] ∧ e.issuer = p.1 ∧ p.2.pid = 0 :=
    ⟨_, _, _, by rfl, by rfl, by rfl, by rfl, by rfl⟩
  obtain ⟨hand, openHand, hinv⟩ := (runOps_ran h0 hrun).invariant
  have hkeys : KeysApart s := by
    intro q hq q' hq' _
    rw [hdispatched] at hq hq'
    rw [List.mem_singleton.mp hq, List.mem_singleton.mp hq']
  refine ⟨_, h0, by rfl, s, hrun, hkeys, fun htrace => ?_⟩
  have hroot := (hinv.traceable_root_iff hkeys).mp htrace
  refine hroot e (by rw [hopens]; simp) p.2 ?_ hpid
  rw [hissuer, hdispatched]
  simp

end DirSurveiller
