/-
  DirSurveiller.Daemon.Dispatch — what the dispatch leaves in the databases.

  `Archived` relates the databases to the calls that have been dispatched: every stored record was
  made from one of them, and for every one of them there is a stored key that compares equal.  A
  refused `put` is silent, so that key may be another call's; `Archived.stored` says that it is not
  when no two dispatched calls have the same key.
-/
import DirSurveiller.Daemon.Removal

namespace DirSurveiller

open CMachine Outcome

/-! ## §1. Entries. -/

/-- The time stamp under which something of time `t` is archived. -/
def archiveStamp (bootTime : UInt32) (t : Timeval) : Timeval :=
  { t with tvSec := t.tvSec + Int64.ofNat bootTime.toNat }

/-- The entry made of `c`. -/
def execEntry (bootTime : UInt32) (env : DispatchEnv) (r : ExecRef) (c : ExecCall) : StoredExec :=
  let record := execRecord env c (archiveStamp bootTime c.timeStamp)
  ⟨dbExecCallGenKey ⟨⟨0, 0⟩, 0, env.pad⟩ record, execBytes record c.cmdName c.args [], r⟩

/-- The record made of an open call of `c`. -/
def archivedOpen (bootTime : UInt32) (env : DispatchEnv) (c : ExecCall) (oc : OpenCall) :
    OCallRecord :=
  openRecord env (execRecord env c (archiveStamp bootTime c.timeStamp)) oc
    (archiveStamp bootTime oc.timeStamp)

/-- `e` was made of an open call of `c`. -/
def OpenEntry (bootTime : UInt32) (c : ExecCall) (e : StoredOpen) : Prop :=
  ∃ env oc, OpenText oc ∧ e.data = openBytes (archivedOpen bootTime env c oc) oc.filepath

/-- Two calls have the same key. -/
def SameKey (c c' : ExecCall) : Prop := c.timeStamp = c'.timeStamp ∧ c.pid = c'.pid

theorem archiveStamp_inj {bootTime : UInt32} {t t' : Timeval}
    (h : archiveStamp bootTime t = archiveStamp bootTime t') : t = t' := by
  obtain ⟨s, u⟩ := t
  obtain ⟨s', u'⟩ := t'
  simp only [archiveStamp, Timeval.mk.injEq] at h ⊢
  refine ⟨?_, h.2⟩
  have := congrArg (· - Int64.ofNat bootTime.toNat) h.1
  simpa using this

/-- What adding `c` to the databases leaves. -/
structure Filed (bootTime : UInt32) (db : DbManager) (r : ExecRef) (c : ExecCall)
    (db' : DbManager) : Prop where
  exec : (∃ env, db.findExec (execEntry bootTime env r c).key = none
      ∧ db'.execCallDB = db.execCallDB ++ [execEntry bootTime env r c])
    ∨ (∃ env, db.findExec (execEntry bootTime env r c).key ≠ none
      ∧ db'.execCallDB = db.execCallDB)
  opens : ∃ added, db'.openCallDB = db.openCallDB ++ added
    ∧ ∀ e ∈ added, e.issuer = r ∧ OpenEntry bootTime c e
  fits : RecordFits c.cmdName c.args

/-- The databases hold what has been dispatched. -/
structure Archived (bootTime : UInt32) (dispatched : List (ExecRef × ExecCall)) (db : DbManager) :
    Prop where
  keys : db.execCallDB.Pairwise fun e e' =>
    ¬ (e.key.timeStamp = e'.key.timeStamp ∧ e.key.pid = e'.key.pid)
  entries : ∀ e ∈ db.execCallDB, ∃ p ∈ dispatched, ∃ env, e = execEntry bootTime env p.1 p.2
  filed : ∀ p ∈ dispatched, ∃ e ∈ db.execCallDB,
    e.key.timeStamp = archiveStamp bootTime p.2.timeStamp ∧ e.key.pid = p.2.pid
  opens : ∀ e ∈ db.openCallDB, ∃ p ∈ dispatched, e.issuer = p.1 ∧ OpenEntry bootTime p.2 e
  texts : ∀ p ∈ dispatched, Text p.2.cmdName ∧ Text p.2.args
  fits : ∀ p ∈ dispatched, RecordFits p.2.cmdName p.2.args

section Archived

variable {bootTime : UInt32} {dispatched : List (ExecRef × ExecCall)} {db db' : DbManager}
  {r : ExecRef} {c : ExecCall}

theorem Archived.empty : Archived bootTime [] .empty :=
  ⟨.nil, by simp [DbManager.empty], by simp, by simp [DbManager.empty], by simp, by simp⟩

/-- **One dispatch.** -/
theorem Archived.file (h : Archived bootTime dispatched db) (hf : Filed bootTime db r c db')
    (htext : Text c.cmdName ∧ Text c.args) : Archived bootTime (dispatched ++ [(r, c)]) db' := by
  have hmem : ∀ {p}, p ∈ dispatched → p ∈ dispatched ++ [(r, c)] := fun hp =>
    List.mem_append_left _ hp
  have hlast : (r, c) ∈ dispatched ++ [(r, c)] := by simp
  have hsub : ∀ e ∈ db.execCallDB, e ∈ db'.execCallDB := by
    intro e he
    rcases hf.exec with ⟨env, -, heq⟩ | ⟨env, -, heq⟩
    · rw [heq]
      exact List.mem_append_left _ he
    · rwa [heq]
  refine ⟨?_, fun e he => ?_, fun p hp => ?_, fun e he => ?_, fun p hp => ?_, fun p hp => ?_⟩
  -- a record is put in only where its key is free
  · rcases hf.exec with ⟨env, hnone, heq⟩ | ⟨env, -, heq⟩
    · rw [heq, List.pairwise_append]
      refine ⟨h.keys, List.pairwise_singleton _ _, fun e he e' he' => ?_⟩
      rw [List.mem_singleton.mp he']
      rintro ⟨ht, hp⟩
      exact findExec_none hnone he ⟨ht.symm, hp.symm⟩
    · rw [heq]
      exact h.keys
  · have hold : e ∈ db.execCallDB → ∃ p ∈ dispatched ++ [(r, c)], ∃ env,
        e = execEntry bootTime env p.1 p.2 := by
      intro he
      obtain ⟨p, hp, env, heq⟩ := h.entries e he
      exact ⟨p, hmem hp, env, heq⟩
    rcases hf.exec with ⟨env, -, heq⟩ | ⟨env, -, heq⟩
    · rw [heq] at he
      rcases List.mem_append.mp he with he | he
      · exact hold he
      · exact ⟨(r, c), hlast, env, List.mem_singleton.mp he⟩
    · rw [heq] at he
      exact hold he
  · rcases List.mem_append.mp hp with hp | hp
    · obtain ⟨e, he, hkey⟩ := h.filed p hp
      exact ⟨e, hsub e he, hkey⟩
    · rw [List.mem_singleton.mp hp]
      rcases hf.exec with ⟨env, -, heq⟩ | ⟨env, hsome, heq⟩
      · exact ⟨execEntry bootTime env r c, by rw [heq]; simp, rfl, rfl⟩
      · -- a key that was taken is filed by the record that took it
        obtain ⟨e, he⟩ := Option.ne_none_iff_exists'.mp hsome
        obtain ⟨hmem', ht, hp'⟩ := findExec_some he
        exact ⟨e, hsub e hmem', ht.symm, hp'.symm⟩
  · obtain ⟨added, heq, hadded⟩ := hf.opens
    rw [heq] at he
    rcases List.mem_append.mp he with he | he
    · obtain ⟨p, hp, hopen⟩ := h.opens e he
      exact ⟨p, hmem hp, hopen⟩
    · exact ⟨(r, c), hlast, hadded e he⟩
  · rcases List.mem_append.mp hp with hp | hp
    · exact h.texts p hp
    · rw [List.mem_singleton.mp hp]
      exact htext
  · rcases List.mem_append.mp hp with hp | hp
    · exact h.fits p hp
    · rw [List.mem_singleton.mp hp]
      exact hf.fits

/-- Where no two dispatched calls have the same key, each is found under its own. -/
theorem Archived.stored (h : Archived bootTime dispatched db)
    (hkeys : ∀ p ∈ dispatched, ∀ q ∈ dispatched, SameKey p.2 q.2 → p = q) (hp : (r, c) ∈ dispatched)
    {key : DbECallKey} (ht : key.timeStamp = archiveStamp bootTime c.timeStamp)
    (hpid : key.pid = c.pid) :
    ∃ env, db.findExec key = some (execEntry bootTime env r c) := by
  obtain ⟨e, he, hte, hpe⟩ := h.filed (r, c) hp
  cases hfind : db.findExec key with
  | none => exact absurd ⟨ht.trans hte.symm, hpid.trans hpe.symm⟩ (findExec_none hfind he)
  | some e' =>
      -- whatever is found comes from a dispatched call with this key, and there is only one
      obtain ⟨he', hte', hpe'⟩ := findExec_some hfind
      obtain ⟨q, hq, env, rfl⟩ := h.entries e' he'
      have hstamp : archiveStamp bootTime q.2.timeStamp = archiveStamp bootTime c.timeStamp :=
        hte'.symm.trans ht
      have heq := hkeys q hq (r, c) hp ⟨archiveStamp_inj hstamp, hpe'.symm.trans hpid⟩
      exact ⟨env, by rw [heq]⟩

end Archived

/-! ## §2. `surv_database_dispatch`. -/

section Add

variable {crash : Prop} {env : DispatchEnv} {db : DbManager}

theorem bootShift_meets (bootTime : UInt32) (t : Timeval) :
    Meets (Tolerated crash) (bootShift bootTime t) fun t' => t' = archiveStamp bootTime t := by
  unfold bootShift
  split
  · rfl
  · trivial

theorem strlen_meets (block : Bytes) :
    Meets (Tolerated crash) (strlen block) fun _ => True := by
  unfold strlen
  split <;> trivial

theorem cstring_meets (block : Bytes) :
    Meets (Tolerated crash) (cstring block) fun _ => True := by
  unfold cstring strlen
  split <;> trivial

theorem dbAddExecCall_meets {bootTime : UInt32} {r : ExecRef} {c : ExecCall}
    (htext : Text c.cmdName ∧ Text c.args) :
    Meets (Tolerated (¬ env.mem.Total))
      (dbAddExecCall env.mem 0 env.pad db (execRecord env c (archiveStamp bootTime c.timeStamp)) r)
      fun p => Filed bootTime db r c p.2 := by
  have hempty : Text [] := ⟨by simp, Nat.zero_le _⟩
  refine (dbExecCallMarshall_meets rfl rfl
    rfl htext.1 htext.2 hempty).bind fun p hp => ?_
  have hentry : (⟨dbExecCallGenKey ⟨⟨0, 0⟩, 0, env.pad⟩
      (execRecord env c (archiveStamp bootTime c.timeStamp)), p.2.data, r⟩ : StoredExec)
      = execEntry bootTime env r c := by
    rw [hp.2.1]
    rfl
  cases hfind : db.findExec (dbExecCallGenKey ⟨⟨0, 0⟩, 0, env.pad⟩
      (execRecord env c (archiveStamp bootTime c.timeStamp))) with
  | none => exact ⟨.inl ⟨env, hfind, by rw [← hentry]⟩, ⟨[], by simp, by simp⟩, hp.2.2⟩
  | some e =>
      refine ⟨.inr ⟨env, ?_, rfl⟩, ⟨[], by simp, by simp⟩, hp.2.2⟩
      exact fun hnone => Option.some_ne_none e (hfind.symm.trans hnone)

theorem dbOpenCallGenKey_meets (prior : Bytes) {oCall : OCallRecord} {path : Bytes}
    (hpath : oCall.filepath = some path) :
    Meets (Tolerated crash) (dbOpenCallGenKey prior oCall) fun _ => True := by
  rw [dbOpenCallGenKey, hpath, pointee, ok_bind, genFilepathSuffix]
  refine Meets.bind (P := fun _ => True) ?_ fun _ _ => trivial
  exact (strlen_meets _).bind fun _ _ => (cstring_meets _).bind fun _ _ => trivial

theorem dbAddOpenCall_meets {bootTime : UInt32} {c : ExecCall} {oc : OpenCall} (call : Nat)
    (prior : Bytes) (issuer : ExecRef) (origin : OpenRef) (htext : OpenText oc) :
    Meets (Tolerated (¬ env.mem.Total))
      (dbAddOpenCall env.mem call prior db (archivedOpen bootTime env c oc) issuer origin)
      fun p => p.2.execCallDB = db.execCallDB ∧ ∃ added, p.2.openCallDB = db.openCallDB ++ added
        ∧ ∀ e ∈ added, e.issuer = issuer ∧ OpenEntry bootTime c e := by
  refine (dbOpenCallGenKey_meets prior rfl).bind fun key _ => ?_
  refine (dbOpenCallMarshall_meets rfl htext.1).bind fun p hp => ?_
  obtain ⟨ret, mObj⟩ := p
  by_cases hexists : (db.openCallDB.any fun e => e.key = key) = true
  · simp only [if_pos hexists]
    exact ⟨rfl, [], by simp, by simp⟩
  · simp only [if_neg hexists]
    refine ⟨rfl, [⟨key, mObj.data, issuer, origin⟩], rfl, fun e he => ?_⟩
    rw [List.mem_singleton.mp he]
    exact ⟨rfl, env, oc, htext, hp.2⟩

end Add

/-- What one dispatch changes: the objects, the dispatch queue, the databases and their history. -/
def DispatchOnly (s s' : Surveiller) : Prop :=
  s' = { s with
    heap := s'.heap, dispatchQueue := s'.dispatchQueue, dbMan := s'.dbMan
    dispatched := s'.dispatched }

section DispatchOnly

variable {s s' s'' : Surveiller}

theorem DispatchOnly.trans (h : DispatchOnly s s') (h' : DispatchOnly s' s'') :
    DispatchOnly s s'' := by
  unfold DispatchOnly at *
  rw [h'] at ⊢
  rw [h]

theorem DispatchOnly.procs (h : DispatchOnly s s') :
    s'.procs = s.procs := by
  rw [show s' = _ from h]

theorem DispatchOnly.commandQueue (h : DispatchOnly s s') :
    s'.commandQueue = s.commandQueue := by
  rw [show s' = _ from h]

theorem DispatchOnly.openQueue (h : DispatchOnly s s') :
    s'.openQueue = s.openQueue := by
  rw [show s' = _ from h]

theorem DispatchOnly.bootTime (h : DispatchOnly s s') :
    s'.bootTime = s.bootTime := by
  rw [show s' = _ from h]

theorem DispatchOnly.shuttingDown (h : DispatchOnly s s') :
    s'.shuttingDown = s.shuttingDown := by
  rw [show s' = _ from h]

theorem DispatchOnly.processingExeccallSocket (h : DispatchOnly s s') :
    s'.processingExeccallSocket = s.processingExeccallSocket := by
  rw [show s' = _ from h]

theorem DispatchOnly.processingOpencallSocket (h : DispatchOnly s s') :
    s'.processingOpencallSocket = s.processingOpencallSocket := by
  rw [show s' = _ from h]

end DispatchOnly

section Dispatch

variable {env : DispatchEnv} {s : Surveiller} {hand : List ExecRef} {openHand : List OpenRef}
  {r : ExecRef} {c : ExecCall}

theorem survDatabaseDispatch_meets (hs : (s.ledger hand openHand).Sound)
    (hc : s.heap.execs r = some c) :
    Meets (Tolerated (¬ env.mem.Total)) (survDatabaseDispatch env s (some r)) fun p =>
      ∃ db, Filed s.bootTime s.dbMan r c db
        ∧ p.2 = { s with dbMan := db, dispatched := s.dispatched ++ [(r, c)] } := by
  have hobj : Ledger.Objects s.heap := hs.objects
  obtain ⟨d, hborn⟩ := hobj.born r c hc
  have htext : Text c.cmdName ∧ Text c.args := hobj.texts _ (List.mem_of_getElem? hborn)
  have hbuffer := hobj.buffer r c hc
  simp only [survDatabaseDispatch, Heap.exec_some hc, ok_bind]
  refine (bootShift_meets s.bootTime c.timeStamp).bind fun _ ht => ?_
  subst ht
  refine (dbAddExecCall_meets htext).bind fun db hdb => ?_
  refine (Meets.foldlM (P := fun p => Filed s.bootTime s.dbMan r c p.2) ?_ hdb).bind
    fun p hp => ⟨p.2, hp, rfl⟩
  intro i hi db hdb
  have hlt : i < c.callNum := List.mem_range.mp hi
  obtain ⟨o, ho⟩ : ∃ o, (s.heap.bufferOf r)[i]? = some o := by
    rw [← hbuffer.length] at hlt
    exact ⟨_, List.getElem?_eq_getElem hlt⟩
  obtain ⟨oc, hoc, -⟩ := hobj.pid r c hc o (List.mem_of_getElem? ho)
  rw [dispatchOpen, hbuffer.at ho, ok_bind, Heap.openCall_some hoc, ok_bind]
  refine (bootShift_meets s.bootTime oc.timeStamp).bind fun _ ht => ?_
  subst ht
  refine (dbAddOpenCall_meets (i + 1) (env.prior i) r o (hobj.openTexts o oc hoc)).mono
    fun p hp => ?_
  obtain ⟨hexec, added, hadded, hall⟩ := hp
  obtain ⟨added', hadded', hall'⟩ := hdb.opens
  refine ⟨by rw [hexec]; exact hdb.exec, ⟨added' ++ added, ?_, fun e he => ?_⟩, hdb.fits⟩
  · rw [hadded, hadded', List.append_assoc]
  · rcases List.mem_append.mp he with he | he
    · exact hall' e he
    · exact hall e he

/-- What one round of the dispatch loop leaves. -/
structure DispatchedOne (s : Surveiller) (hand : List ExecRef) (openHand : List OpenRef)
    (r : ExecRef) (rest : List (Option ExecRef)) (s' : Surveiller) : Prop where
  only : DispatchOnly s s'
  working : Working s hand openHand (fun _ => True) s'
  queueWf : s'.dispatchQueue.Wf
  queue : s'.dispatchQueue.held = rest
  freed : s'.heap.freedExecs = s.heap.freedExecs ++ [r]
  filed : ∃ c, s.heap.execs r = some c ∧ s'.dispatched = s.dispatched ++ [(r, c)]
    ∧ Filed s.bootTime s.dbMan r c s'.dbMan

theorem dispatchOne_meets (env : DispatchEnv) (hs : (s.ledger hand openHand).Sound)
    (hq : s.dispatchQueue.Wf)
    {rest : List (Option ExecRef)} (hheld : s.dispatchQueue.held = some r :: rest) :
    Meets (Tolerated (¬ env.mem.Total)) (dispatchOne env s)
      (DispatchedOne s hand openHand r rest) := by
  obtain ⟨c, hc⟩ := hs.queue_live (r := r) (by
    show some r ∈ s.dispatchQueue.held
    rw [hheld]
    exact List.mem_cons_self)
  replace hc : s.heap.execs r = some c := hc
  obtain ⟨queue, hread, hrest, hfill⟩ := GRingBuffer.read_cons hheld none
  have hdequeue : Work (s.ledger hand openHand)
      ({ s with dispatchQueue := queue }.ledger (r :: hand) openHand) := by
    have hwork := Work.dequeue (l := s.ledger hand openHand) hheld
    rw [← hrest] at hwork
    exact hwork
  have hs' := hdequeue.sound hs
  rw [dispatchOne, hread]
  refine (survDatabaseDispatch_meets (s := { s with dispatchQueue := queue }) hs' hc).bind
    fun p hp => ?_
  obtain ⟨db, hfiled, hp⟩ := hp
  simp only [hp]
  rw [show s.heap.execCallDestroy r = _ from hs'.destroy_ok hc]
  have hdestroy := Work.destroy (l := Surveiller.ledger { s with dispatchQueue := queue } (r :: hand)
    openHand)
    (List.mem_cons_self (a := r) (l := hand)) hc
  refine ⟨rfl, ⟨(r :: hand).erase r, fun x hx _ => ?_, .head hdequeue (.single hdestroy)⟩, ?_, hrest,
    rfl, c, hc, rfl, hfiled⟩
  · rwa [List.erase_cons_head]
  · unfold GRingBuffer.Wf at hq ⊢
    show queue.fill ≤ 1024
    omega

end Dispatch

/-! ## §3. The keys of two dispatches. -/

/-- `record` of `surv_database_dispatch`, with its shifted time stamp. -/
def dispatchRecord (env : DispatchEnv) (bootTime : UInt32) (c : ExecCall) :
    Except Fault ECallRecord := do
  return execRecord env c (← bootShift bootTime c.timeStamp)

/-- `p` was the entry of `c`'s parent when `c` was added. -/
structure LinkedTo (c p : ExecCall) : Prop where
  known : c.ppid ≠ 0
  ppid : c.ppid = p.pid
  ptimeStamp : c.ptimeStamp = p.timeStamp

/-- The parent key in the record of `c` compares equal to the key under which `p` is stored. -/
def ParentKeyAgrees (env env' : DispatchEnv) (bootTime : UInt32) (c p : ExecCall) : Prop :=
  ∃ record record', dispatchRecord env bootTime c = .ok record
    ∧ dispatchRecord env' bootTime p = .ok record'
    ∧ dbExecCallKeyComp record.parentEcall
        (dbExecCallGenKey ⟨⟨0, 0⟩, 0, env'.pad⟩ record') = 0

/-- A shift that changes nothing is one by zero. -/
theorem archiveStamp_eq_self {bootTime : UInt32} {t : Timeval}
    (h : archiveStamp bootTime t = t) : bootTime = 0 := by
  have hsec : t.tvSec + Int64.ofNat bootTime.toNat = t.tvSec := congrArg Timeval.tvSec h
  have hzero : Int64.ofNat bootTime.toNat = 0 := by simpa using hsec
  have hnat : bootTime.toNat = (0 : Int64).toUInt64.toNat := by
    rw [← hzero]
    simp
  rw [← UInt32.toNat_inj]
  exact hnat

theorem archiveStamp_zero (t : Timeval) : archiveStamp 0 t = t := by
  simp [archiveStamp]

theorem bootShift_zero (t : Timeval) : bootShift 0 t = .ok t := by
  have hlt := t.tvSec.toInt_lt
  have hshift : bootShift 0 t = .ok (archiveStamp 0 t) := by
    unfold bootShift
    rw [if_pos (by simpa using hlt)]
    rfl
  rw [hshift, archiveStamp_zero]

/-- **The keys of child and parent agree** iff there is nothing to shift: the parent's own time stamp
is moved to the epoch before it is stored, the copy in the child is not. -/
theorem parent_key_agrees_iff (env env' : DispatchEnv) (bootTime : UInt32) {c p : ExecCall}
    (h : LinkedTo c p) : ParentKeyAgrees env env' bootTime c p ↔ bootTime = 0 := by
  unfold ParentKeyAgrees
  constructor
  · rintro ⟨record, record', hrecord, hrecord', hcomp⟩
    obtain ⟨t, ht, hrecord⟩ := bind_ok hrecord
    obtain ⟨t', ht', hrecord'⟩ := bind_ok hrecord'
    cases hrecord
    cases hrecord'
    have hmeets : Meets (Tolerated True) (bootShift bootTime p.timeStamp)
        fun t => t = archiveStamp bootTime p.timeStamp := bootShift_meets bootTime p.timeStamp
    have hshift := hmeets.post ht'
    have hkey : c.ptimeStamp = t' := (keyComp_eq_zero.mp hcomp).1
    apply archiveStamp_eq_self (t := p.timeStamp)
    rw [← hshift, ← hkey, h.ptimeStamp]
  · intro hboot
    subst hboot
    refine ⟨execRecord env c c.timeStamp, execRecord env' p p.timeStamp, ?_, ?_,
      keyComp_eq_zero.mpr ⟨h.ptimeStamp, h.ppid⟩⟩
    · rw [dispatchRecord, bootShift_zero]
      rfl
    · rw [dispatchRecord, bootShift_zero]
      rfl

/-- A process with pid 2 and its parent with pid 1. -/
theorem parent_key_agrees_sample :
    ParentKeyAgrees ⟨fun _ _ => none, 0, fun _ => []⟩ ⟨fun _ _ => none, 0, fun _ => []⟩ 0
      { ExecCall.zero with pid := 2, ppid := 1, timeStamp := ⟨6, 0⟩, ptimeStamp := ⟨5, 0⟩ }
      { ExecCall.zero with pid := 1, timeStamp := ⟨5, 0⟩ } :=
  (parent_key_agrees_iff _ _ 0 ⟨by decide, rfl, rfl⟩).mpr rfl

/-- **A second after the epoch** the keys of the same two processes differ. -/
theorem parent_key_shifted :
    ¬ ParentKeyAgrees ⟨fun _ _ => none, 0, fun _ => []⟩ ⟨fun _ _ => none, 0, fun _ => []⟩ 1
      { ExecCall.zero with pid := 2, ppid := 1, timeStamp := ⟨6, 0⟩, ptimeStamp := ⟨5, 0⟩ }
      { ExecCall.zero with pid := 1, timeStamp := ⟨5, 0⟩ } := by
  unfold ParentKeyAgrees
  rintro ⟨record, record', hrecord, hrecord', hcomp⟩
  cases hrecord
  cases hrecord'
  exact absurd hcomp (by decide)

end DirSurveiller
