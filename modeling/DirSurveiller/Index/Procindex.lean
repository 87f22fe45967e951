/-
  DirSurveiller.Index.Procindex — the process index of `watchdog.c`.

  `procs[pid+1]` is the slot of a pid.  The table grows by doubling, at most up to `maxPid+1`
  slots; `procindex_add` and `procindex_opencall_add` have each their own growth loop.  `size` is
  what the code records, the list `procs` is what is allocated: they differ once a `realloc` has
  failed.

  `pid_t` is `int`, and every `int` sum is checked.
-/
import DirSurveiller.Index.Heap

namespace DirSurveiller

open CMachine Outcome

/-! ## §1. The table. -/

def NOMINAL : Int := 0

def MEMORY_ALLOCATION_ERROR : Int := 1

def ALREADY_EXISTS_IN_CONTAINER : Int := 2

/-- What a slot holds.  `realloc` leaves the slots it adds uninitialised. -/
inductive Slot where
  | uninit
  | null
  | proc (call : ExecRef)
  deriving Repr, DecidableEq

/-- The call a slot holds. -/
def Slot.call : Slot → Option ExecRef
  | .proc r => some r
  | _ => none

/-- `procindex` -/
structure Procindex where
  procs : List Slot
  size : Int
  maxPid : Int
  deriving Repr, DecidableEq

/-- The result of an `int` operation. -/
def toInt (n : Int) : Except Fault Int :=
  if -2147483648 ≤ n ∧ n ≤ 2147483647 then .ok n else .error .intOverflow

namespace Procindex

/-- `this->procs[i]`, `none` for `NULL` -/
def slot (this : Procindex) (i : Int) : Except Fault (Option ExecRef) :=
  if i < 0 then .error .outOfRange
  else
    match this.procs[i.toNat]? with
    | none => .error .outOfRange
    | some .uninit => .error .uninitRead
    | some .null => .ok none
    | some (.proc r) => .ok (some r)

/-- `this->procs[i] = s` -/
def setSlot (this : Procindex) (i : Int) (s : Slot) : Except Fault Procindex :=
  if i < 0 ∨ this.procs.length ≤ i.toNat then .error .outOfRange
  else .ok { this with procs := this.procs.set i.toNat s }

/-- `(this->size < pid+1) ? NULL : this->procs[pid+1]`, a test that three functions make -/
def entry (this : Procindex) (pid : Int) : Except Fault (Option ExecRef) := do
  let pid1 ← toInt (pid + 1)
  if this.size < pid1 then return none else this.slot pid1

/-- `realloc(this->procs, n*sizeof(*this->procs))`, granted -/
def resize (procs : List Slot) (n : Int) : List Slot :=
  procs.take n.toNat ++ List.replicate (n.toNat - procs.length) .uninit

/-- `for(; from<to; from++) procs[from] = NULL;` -/
def nullFrom (procs : List Slot) (lo hi : Int) : Except Fault (List Slot) :=
  if lo < hi ∧ (lo < 0 ∨ (procs.length : Int) < hi) then .error .outOfRange
  else .ok (procs.mapIdx fun i s => if lo ≤ i ∧ i < hi then .null else s)

end Procindex

/-- The size `procindex_init` asks for. -/
def initialSize (getMaxPID guidePid : Int) : Except Fault Int :=
  if guidePid < 1 then toInt (getMaxPID + 1)
  else do
    -- room for twice the own pid, or for every pid
    let guided ← toInt ((← toInt (guidePid + 1)) * 2)
    if guided < getMaxPID then return guided else toInt (getMaxPID + 1)

/-- `procindex_init` with the answers of `get_max_PID` and `calloc`, which has no block for a
negative count. -/
def procindexInit (getMaxPID : Int) (calloc : Bool) (guidePid : Int) :
    Except Fault (Int × Procindex) :=
  if getMaxPID = -1 then .ok (-1, { procs := [], size := 0, maxPid := -1 })
  else do
    let size ← initialSize getMaxPID guidePid
    if calloc ∧ 0 ≤ size then
      return (NOMINAL, { procs := List.replicate size.toNat .null, size := size, maxPid := getMaxPID })
    else
      return (-1, { procs := [], size := 0, maxPid := getMaxPID })

/-! ## §2. `procindex_add`. -/

/-- `(this->size*2 <= this->maxPid+1) ? this->size*2 : this->maxPid+1` -/
def doubledSize (this : Procindex) : Except Fault Int := do
  let doubled ← toInt (this.size * 2)
  let full ← toInt (this.maxPid + 1)
  return if doubled ≤ full then doubled else full

/-- The number of doublings after which an `int` is exhausted. -/
def growRounds : Nat := 32

/-- `while (call->pid+1 > this->size) { … }` of `procindex_add`.  `granted` answers the `realloc`s
by their number; the first component is false when one of them failed. -/
def addGrow (granted : Nat → Bool) (pid : Int) :
    Nat → Int → Procindex → Except Fault (Bool × Procindex)
  | 0, _, this => do
      if (← toInt (pid + 1)) > this.size then .error .diverges else return (true, this)
  | rounds + 1, oldsize, this => do
      if (← toInt (pid + 1)) > this.size then
        -- the size is set before `realloc` answers, and stays if it refuses
        let this := { this with size := ← doubledSize this }
        if granted rounds then
          let procs ← Procindex.nullFrom (Procindex.resize this.procs this.size) oldsize this.size
          addGrow granted pid rounds (max oldsize this.size) { this with procs := procs }
        else
          return (false, this)
      else
        return (true, this)

/-- `call->ppid = 0;` or `call->ptime_stamp = this->procs[call->pid+1]->time_stamp;`: the time
stamp is read from the slot of the call's own pid. -/
def linkParent (h : Heap) (this : Procindex) (call : ExecRef) (c : ExecCall) (pid1 : Int) :
    Option ExecRef → Except Fault Heap
  | none => .ok (h.setExec call { c with ppid := 0 })
  | some parent => do
      -- `call->pid` where `call->ppid` is meant: that slot is still empty
      match ← this.slot pid1 with
      | none => .error .nullDeref
      | some own =>
        let o ← h.exec own
        return (h.setExec call { c with ptimeStamp := o.timeStamp }).link call parent

/-- `procindex_add` -/
def procindexAdd (granted : Nat → Bool) (h : Heap) (this : Procindex) (call : ExecRef) :
    Except Fault (Int × Heap × Procindex) := do
  let c ← h.exec call
  let pid := c.pid.toInt
  if pid < 0 ∨ pid > this.maxPid then
    return (-1, h, this)
  else
    let (grown, this) ← addGrow granted pid growRounds this.size this
    if grown then
      -- the loop leaves `pid+1 <= size`, so this may be the slot behind the last one
      let pid1 ← toInt (pid + 1)
      match ← this.slot pid1 with
      | some _ => return (ALREADY_EXISTS_IN_CONTAINER, h, this)
      | none =>
        let parent ← this.entry c.ppid.toInt
        let h ← linkParent h this call c pid1 parent
        let this ← this.setSlot pid1 (.proc call)
        return (NOMINAL, h, this)
    else
      return (MEMORY_ALLOCATION_ERROR, h, this)

/-! ## §3. `procindex_opencall_add` and `procindex_retrieve`. -/

/-- `procindex_trackparents`; the first argument bounds the depth of the recursion. -/
def procindexTrackparents : Nat → Heap → Procindex → Int → Except Fault Heap
  | 0, _, _, _ => .error .diverges
  | depth + 1, h, this, child => do
      match ← this.slot (← toInt (child + 1)) with
      | none => .error .nullDeref
      | some childProc =>
        let parentID := (← h.exec childProc).ppid.toInt
        -- the parent's slot is read before `parentID` is tested
        match ← this.slot (← toInt (parentID + 1)) with
        | none => return h
        | some parentProc =>
          if parentID = 0 then
            return h
          else
            let p ← h.exec parentProc
            if p.tracked then
              return h
            else
              procindexTrackparents depth (h.setExec parentProc { p with tracked := true }) this
                parentID

/-- The allocations of one call of `procindex_opencall_add`: its growth loop, the larger buffer,
the four requests for a dummy, and the growth loop of the `procindex_add` it calls. -/
structure OpencallAlloc where
  grow : Nat → Bool
  callBuff : Bool
  newProc : Bool
  args : Bool
  cmdName : Bool
  calloc : Bool
  add : Nat → Bool

/-- All requests are granted. -/
def OpencallAlloc.granting : OpencallAlloc :=
  { grow := fun _ => true, callBuff := true, newProc := true, args := true, cmdName := true
    calloc := true, add := fun _ => true }

/-- `while(this->size < ocall->pid+1) { … }` of `procindex_opencall_add` -/
def openGrow (granted : Nat → Bool) (pid : Int) : Nat → Procindex → Except Fault (Bool × Procindex)
  | 0, this => do
      if this.size < (← toInt (pid + 1)) then .error .diverges else return (true, this)
  | rounds + 1, this => do
      if this.size < (← toInt (pid + 1)) then
        -- here the size follows only once `realloc` has granted it
        let newSize ← doubledSize this
        if granted rounds then
          let procs ← Procindex.nullFrom (Procindex.resize this.procs newSize) this.size newSize
          openGrow granted pid rounds
            { this with procs := procs, size := max this.size newSize }
        else
          return (false, this)
      else
        return (true, this)

/-- `"unknown"` -/
def unknownArgs : Bytes := [117, 110, 107, 110, 111, 119, 110]

/-- The dummy for a pid the index does not know. -/
def dummyCall (o : OpenCall) : ExecCall :=
  { ExecCall.zero with
    args := unknownArgs, pid := o.pid, cmdName := o.cmdName
    callBuff := List.replicate 8 none, callBuffSize := 8 }

/-- `target_execCall->callBuff[target_execCall->call_num++] = ocall;` and what follows. -/
def attachOpen (h : Heap) (this : Procindex) (target : ExecRef) (ocall : OpenRef) :
    Except Fault Heap := do
  let c ← h.exec target
  if c.callBuff.length ≤ c.callNum then .error .outOfRange
  else
    let _ ← toInt (c.callNum + 1)
    let h := (h.setExec target (c.push ocall)).noteAttached target ocall
    if c.tracked then
      return h
    else
      -- each step of the walk marks an entry, so this depth is enough
      procindexTrackparents (this.procs.length + 1)
        (h.setExec target { c.push ocall with tracked := true }) this c.pid.toInt

/-- `if(call_num+2==callBuff_size)`: a buffer twice as large, `none` when `realloc` refuses. -/
def growCallBuff (granted : Bool) (h : Heap) (target : ExecRef) : Except Fault (Option Heap) := do
  let c ← h.exec target
  let n ← toInt (c.callNum + 2)
  if n = c.callBuffSize then
    if granted then
      return some (h.setExec target (c.enlarge (c.callBuffSize * 2 % 2 ^ 64)))
    else
      return none
  else
    return some h

/-- Make a dummy and add it; `none` when memory for its parts is refused.  The code writes to the
new object before it tests the pointer. -/
def addDummy (alloc : OpencallAlloc) (h : Heap) (this : Procindex) (o : OpenCall) :
    Except Fault (Option (Heap × Procindex)) :=
  if ¬ alloc.newProc then .error .nullDeref
  else if alloc.args ∧ alloc.cmdName ∧ alloc.calloc then do
    -- nobody looks at the answer
    let (_, h, this) ← procindexAdd alloc.add (h.mallocExec true (dummyCall o)) this h.nextExec
    return some (h, this)
  else .ok none

/-- `procindex_opencall_add` -/
def procindexOpencallAdd (alloc : OpencallAlloc) (h : Heap) (this : Procindex) (ocall : OpenRef) :
    Except Fault (Int × Heap × Procindex) := do
  let o ← h.openCall ocall
  let pid := o.pid.toInt
  if pid < 0 ∨ this.maxPid < pid then
    return (-1, h, this)
  else
    let (grown, this) ← openGrow alloc.grow pid growRounds this
    if grown then
      match ← this.entry pid with
      | some target =>
        match ← growCallBuff alloc.callBuff h target with
        | none => return (MEMORY_ALLOCATION_ERROR, h, this)
        | some h => return (NOMINAL, ← attachOpen h this target ocall, this)
      | none =>
        match ← addDummy alloc h this o with
        | none => return (MEMORY_ALLOCATION_ERROR, h, this)
        | some (h, this) =>
          -- the dummy is looked up again; if it was not added the slot is still `NULL`
          match ← this.slot (← toInt (pid + 1)) with
          | none => .error .nullDeref
          | some target => return (NOMINAL, ← attachOpen h this target ocall, this)
    else
      return (MEMORY_ALLOCATION_ERROR, h, this)

/-- `procindex_retrieve` -/
def procindexRetrieve (this : Procindex) (targetPid : Int) :
    Except Fault (Option ExecRef × Procindex) := do
  match ← this.entry targetPid with
  | some r => return (some r, ← this.setSlot (← toInt (targetPid + 1)) .null)
  | none => return (none, this)

/-! ## §4. The slots after each access. -/

@[simp] theorem toInt_eq_ok {n m : Int} :
    toInt n = .ok m ↔ m = n ∧ -2147483648 ≤ n ∧ n ≤ 2147483647 := by
  unfold toInt
  split
  · simp_all [eq_comm]
  · simp_all

namespace Procindex

variable {t t' : Procindex} {i : Int} {r : ExecRef}

theorem slot_eq_some :
    t.slot i = .ok (some r) ↔ 0 ≤ i ∧ t.procs[i.toNat]? = some (.proc r) := by
  unfold slot
  split
  · simp; omega
  · split <;> simp_all

theorem slot_eq_none : t.slot i = .ok none ↔ 0 ≤ i ∧ t.procs[i.toNat]? = some .null := by
  unfold slot
  split
  · simp; omega
  · split <;> simp_all

/-- The table with one slot exchanged. -/
def withSlot (t : Procindex) (k : Nat) (s : Slot) : Procindex :=
  { t with procs := t.procs.set k s }

theorem setSlot_eq_ok {s : Slot} :
    t.setSlot i s = .ok t' ↔ 0 ≤ i ∧ i.toNat < t.procs.length ∧ t' = t.withSlot i.toNat s := by
  unfold setSlot
  split
  · simp; omega
  · simp only [Except.ok.injEq]
    constructor
    · rintro rfl
      exact ⟨by omega, by omega, rfl⟩
    · rintro ⟨-, -, rfl⟩
      rfl

theorem setSlot_ok {s : Slot} (h0 : 0 ≤ i) (h : t.procs[i.toNat]? = some s) (s' : Slot) :
    t.setSlot i s' = .ok (t.withSlot i.toNat s') :=
  setSlot_eq_ok.mpr ⟨h0, (List.getElem?_eq_some_iff.mp h).1, rfl⟩

/-- The calls in the table. -/
def entries (t : Procindex) : List ExecRef := t.procs.filterMap Slot.call

theorem mem_entries : r ∈ t.entries ↔ ∃ k : Nat, t.procs[k]? = some (Slot.proc r) := by
  simp only [entries, List.mem_filterMap]
  constructor
  · rintro ⟨s, hs, hr⟩
    obtain ⟨k, hk⟩ := List.mem_iff_getElem?.mp hs
    cases s with
    | uninit => cases hr
    | null => cases hr
    | proc r' =>
        cases hr
        exact ⟨k, hk⟩
  · rintro ⟨k, hk⟩
    exact ⟨.proc r, List.mem_of_getElem? hk, rfl⟩

/-- The entries of a table with one slot emptied. -/
theorem withSlot_null {j k : Nat} :
    (t.withSlot k .null).procs[j]? = some (.proc r) ↔ j ≠ k ∧ t.procs[j]? = some (.proc r) := by
  show (t.procs.set k .null)[j]? = some (.proc r) ↔ _
  rw [List.getElem?_set]
  by_cases hkj : k = j
  · rw [if_pos hkj]
    constructor
    · intro h
      split at h <;> cases h
    · intro h
      exact absurd hkj.symm h.1
  · rw [if_neg hkj]
    exact ⟨fun h => ⟨Ne.symm hkj, h⟩, fun h => h.2⟩

/-- The entries of a table with a call stored. -/
theorem withSlot_proc {j k : Nat} {own : ExecRef}
    (h : (t.withSlot k (.proc own)).procs[j]? = some (.proc r)) :
    (j = k ∧ r = own) ∨ (j ≠ k ∧ t.procs[j]? = some (.proc r)) := by
  replace h : (t.procs.set k (.proc own))[j]? = some (.proc r) := h
  rw [List.getElem?_set] at h
  by_cases hkj : k = j
  · rw [if_pos hkj] at h
    split at h
    · cases h
      exact .inl ⟨hkj.symm, rfl⟩
    · cases h
  · rw [if_neg hkj] at h
    exact .inr ⟨Ne.symm hkj, h⟩

/-- At least as many slots are recorded as are allocated. -/
def Sane (t : Procindex) : Prop := (t.procs.length : Int) ≤ t.size

theorem Sane.withSlot (h : t.Sane) (k : Nat) (s : Slot) : (t.withSlot k s).Sane := by
  unfold Sane at *
  show ((t.procs.set k s).length : Int) ≤ t.size
  rwa [List.length_set]

/-- No growth has failed: what is recorded is allocated, and initialised. -/
structure Wf (t : Procindex) : Prop where
  size : (t.procs.length : Int) = t.size
  init : .uninit ∉ t.procs

theorem Wf.withSlot (h : t.Wf) (k : Nat) {s : Slot} (hs : s ≠ .uninit) : (t.withSlot k s).Wf := by
  constructor
  · show ((t.procs.set k s).length : Int) = t.size
    rw [List.length_set]
    exact h.size
  · intro hm
    rcases List.mem_or_eq_of_mem_set hm with hm | hm
    · exact h.init hm
    · exact hs hm.symm

/-- The table has grown, or not; no entry has come or gone. -/
structure Extends (t t' : Procindex) : Prop where
  maxPid : t'.maxPid = t.maxPid
  procs : ∃ extra, t'.procs = t.procs ++ extra ∧ ∀ s ∈ extra, s = .null ∨ s = .uninit

theorem Extends.refl (t : Procindex) : t.Extends t := ⟨rfl, [], by simp, by simp⟩

theorem Extends.trans {t'' : Procindex} (h : t.Extends t') (h' : t'.Extends t'') :
    t.Extends t'' := by
  obtain ⟨extra, hprocs, hextra⟩ := h.procs
  obtain ⟨extra', hprocs', hextra'⟩ := h'.procs
  refine ⟨h'.maxPid.trans h.maxPid, extra ++ extra', by rw [hprocs', hprocs, List.append_assoc], ?_⟩
  intro s hs
  rcases List.mem_append.mp hs with hs | hs
  · exact hextra s hs
  · exact hextra' s hs

theorem Extends.entries (h : t.Extends t') : t'.entries = t.entries := by
  obtain ⟨extra, hprocs, hextra⟩ := h.procs
  have hnil : extra.filterMap Slot.call = [] := by
    refine List.filterMap_eq_nil_iff.mpr fun s hs => ?_
    rcases hextra s hs with rfl | rfl <;> rfl
  rw [Procindex.entries, hprocs, List.filterMap_append, hnil, List.append_nil]
  rfl

/-- A slot that holds a call afterwards held it before. -/
theorem Extends.proc (h : t.Extends t') {k : Nat} (hk : t'.procs[k]? = some (.proc r)) :
    t.procs[k]? = some (.proc r) := by
  obtain ⟨extra, hprocs, hextra⟩ := h.procs
  rw [hprocs] at hk
  rcases Nat.lt_or_ge k t.procs.length with hlt | hge
  · rwa [List.getElem?_append_left hlt] at hk
  · rw [List.getElem?_append_right hge] at hk
    rcases hextra _ (List.mem_of_getElem? hk) with h | h <;> cases h

theorem Extends.get (h : t.Extends t') {k : Nat} {s : Slot} (hk : t.procs[k]? = some s) :
    t'.procs[k]? = some s := by
  obtain ⟨extra, hprocs, -⟩ := h.procs
  rw [hprocs, List.getElem?_append_left (List.getElem?_eq_some_iff.mp hk).1, hk]

/-- The slots `realloc` adds, set to `NULL` from `lo` on. -/
theorem nullFrom_resize {procs : List Slot} {lo n : Int} (hlo : (procs.length : Int) ≤ lo)
    (hn : lo ≤ n) :
    ∃ extra, nullFrom (resize procs n) lo n = .ok (procs ++ extra)
      ∧ ((procs ++ extra).length : Int) = n ∧ (∀ s ∈ extra, s = .null ∨ s = .uninit)
      ∧ ((procs.length : Int) = lo → ∀ s ∈ extra, s = .null) := by
  have hresize : resize procs n = procs ++ List.replicate (n.toNat - procs.length) .uninit := by
    rw [resize, List.take_of_length_le (by omega)]
  refine ⟨(List.replicate (n.toNat - procs.length) Slot.uninit).mapIdx fun i s =>
    if lo ≤ ((i + procs.length : Nat) : Int) ∧ ((i + procs.length : Nat) : Int) < n then .null
      else s, ?_, ?_, ?_, ?_⟩
  · rw [nullFrom, hresize, if_neg, List.mapIdx_append]
    · -- the old slots lie below `lo`
      congr 2
      refine List.ext_getElem? fun k => ?_
      rw [List.getElem?_mapIdx]
      cases hk : procs[k]? with
      | none => rfl
      | some s =>
          have := (List.getElem?_eq_some_iff.mp hk).1
          rw [Option.map_some, if_neg (by omega)]
    · simp only [List.length_append, List.length_replicate]
      omega
  · simp only [List.length_append, List.length_mapIdx, List.length_replicate]
    omega
  · -- between the old block and `lo` the new slots keep what `realloc` left in them
    intro s hs
    obtain ⟨k, hk⟩ := List.mem_iff_getElem?.mp hs
    rw [List.getElem?_mapIdx, Option.map_eq_some_iff] at hk
    obtain ⟨s', hs', rfl⟩ := hk
    rw [List.getElem?_replicate] at hs'
    split at hs'
    · cases hs'
      split
      · exact Or.inl rfl
      · exact Or.inr rfl
    · cases hs'
  · intro hlen s hs
    obtain ⟨k, hk⟩ := List.mem_iff_getElem?.mp hs
    rw [List.getElem?_mapIdx, Option.map_eq_some_iff] at hk
    obtain ⟨s', hs', rfl⟩ := hk
    rw [List.getElem?_replicate] at hs'
    split at hs'
    · rw [if_pos (by omega)]
    · cases hs'

/-- The new size is at least the old one while a pid is out of the table. -/
theorem doubledSize_ge {pid n : Int} (hpid : pid ≤ t.maxPid) (hsize : 0 ≤ t.size)
    (hout : pid + 1 > t.size) (h : doubledSize t = .ok n) : t.size ≤ n := by
  unfold doubledSize at h
  obtain ⟨doubled, hdoubled, h⟩ := bind_ok h
  obtain ⟨full, hfull, h⟩ := bind_ok h
  rw [toInt_eq_ok] at hdoubled hfull
  cases h
  split <;> omega

/-- **The growth loop of `procindex_add`**, whatever `realloc` answers. -/
theorem addGrow_spec {granted : Nat → Bool} {pid : Int} :
    ∀ (rounds : Nat) (oldsize : Int) (t t' : Procindex) (b : Bool), t.Sane →
      (t.procs.length : Int) ≤ oldsize → oldsize ≤ t.size → pid ≤ t.maxPid →
      addGrow granted pid rounds oldsize t = .ok (b, t') →
      t.Extends t' ∧ t'.Sane ∧ (b = true → pid + 1 ≤ t'.size)
        ∧ ((∀ k, granted k = true) → t.Wf → b = true ∧ t'.Wf) := by
  intro rounds
  -- `oldsize` is where the `NULL`s begin: never inside the old block, never beyond the size
  induction rounds with
  | zero =>
      intro oldsize t t' b hsane hold hold' hpid h
      rw [addGrow] at h
      obtain ⟨pid1, hpid1, h⟩ := bind_ok h
      rw [toInt_eq_ok] at hpid1
      split at h
      · cases h
      · cases h
        exact ⟨.refl t, hsane, fun _ => by omega, fun _ hwf => ⟨rfl, hwf⟩⟩
  | succ rounds ih =>
      intro oldsize t t' b hsane hold hold' hpid h
      rw [addGrow] at h
      obtain ⟨pid1, hpid1, h⟩ := bind_ok h
      rw [toInt_eq_ok] at hpid1
      split at h
      next hout =>
        obtain ⟨n, hn, h⟩ := bind_ok h
        have hge := doubledSize_ge hpid (by unfold Sane at hsane; omega) (by omega) hn
        split at h
        next hgranted =>
          obtain ⟨procs, hprocs, h⟩ := bind_ok h
          obtain ⟨extra, hnull, hlen, hextra, hextra'⟩ :=
            nullFrom_resize hold (show oldsize ≤ n by omega)
          rw [hnull] at hprocs
          cases hprocs
          have hext : t.Extends { t with procs := t.procs ++ extra, size := n } :=
            ⟨rfl, extra, rfl, hextra⟩
          obtain ⟨hext', hsane', hin, hwf'⟩ := ih (max oldsize n)
            { t with procs := t.procs ++ extra, size := n } t' b
            (Int.le_of_eq hlen)
            (by show ((t.procs ++ extra).length : Int) ≤ max oldsize n; omega)
            (by show max oldsize n ≤ n; omega) hpid h
          refine ⟨hext.trans hext', hsane', hin, fun hall hwf => hwf' hall ⟨hlen, fun hm => ?_⟩⟩
          have hsize := hwf.size
          rcases List.mem_append.mp hm with hm | hm
          · exact hwf.init hm
          · cases hextra' (by omega) _ hm
        next =>
          -- the size has grown without the block
          cases h
          refine ⟨⟨rfl, [], by simp, by simp⟩, ?_, by simp, ?_⟩
          · unfold Sane at *
            show (t.procs.length : Int) ≤ n
            omega
          · intro hall
            simp_all
      next hin =>
        cases h
        exact ⟨.refl t, hsane, fun _ => by omega, fun _ hwf => ⟨rfl, hwf⟩⟩

/-- **The growth loop of `procindex_opencall_add`.** -/
theorem openGrow_spec {granted : Nat → Bool} {pid : Int} :
    ∀ (rounds : Nat) (t t' : Procindex) (b : Bool), t.Sane → pid ≤ t.maxPid →
      openGrow granted pid rounds t = .ok (b, t') →
      t.Extends t' ∧ t'.Sane ∧ (b = true → pid + 1 ≤ t'.size)
        ∧ ((∀ k, granted k = true) → t.Wf → b = true ∧ t'.Wf) := by
  intro rounds
  induction rounds with
  | zero =>
      intro t t' b hsane hpid h
      rw [openGrow] at h
      obtain ⟨pid1, hpid1, h⟩ := bind_ok h
      rw [toInt_eq_ok] at hpid1
      split at h
      · cases h
      · cases h
        exact ⟨.refl t, hsane, fun _ => by omega, fun _ hwf => ⟨rfl, hwf⟩⟩
  | succ rounds ih =>
      intro t t' b hsane hpid h
      rw [openGrow] at h
      obtain ⟨pid1, hpid1, h⟩ := bind_ok h
      rw [toInt_eq_ok] at hpid1
      split at h
      next hout =>
        obtain ⟨n, hn, h⟩ := bind_ok h
        have hge := doubledSize_ge hpid (by unfold Sane at hsane; omega) (by omega) hn
        split at h
        next hgranted =>
          obtain ⟨procs, hprocs, h⟩ := bind_ok h
          obtain ⟨extra, hnull, hlen, hextra, hextra'⟩ := nullFrom_resize hsane hge
          rw [hnull] at hprocs
          cases hprocs
          have hext : t.Extends { t with procs := t.procs ++ extra, size := max t.size n } :=
            ⟨rfl, extra, rfl, hextra⟩
          obtain ⟨hext', hsane', hin, hwf'⟩ := ih
            { t with procs := t.procs ++ extra, size := max t.size n } t' b
            (by show ((t.procs ++ extra).length : Int) ≤ max t.size n; omega) hpid h
          refine ⟨hext.trans hext', hsane', hin, fun hall hwf => hwf' hall ⟨?_, fun hm => ?_⟩⟩
          · show ((t.procs ++ extra).length : Int) = max t.size n
            omega
          · rcases List.mem_append.mp hm with hm | hm
            · exact hwf.init hm
            · cases hextra' hwf.size _ hm
        next =>
          -- refused before anything is written
          cases h
          exact ⟨.refl t, hsane, by simp, fun hall => by simp_all⟩
      next hin =>
        cases h
        exact ⟨.refl t, hsane, fun _ => by omega, fun _ hwf => ⟨rfl, hwf⟩⟩

end Procindex

/-! ## §5. The table of `procindex_init`. -/

/-- The size asked for is an `int` of at most `maxPid+1`, and positive unless it is `maxPid+1`. -/
theorem initialSize_spec {getMaxPID guidePid size : Int}
    (h : initialSize getMaxPID guidePid = .ok size) :
    size ≤ 2147483647 ∧ size ≤ getMaxPID + 1 ∧ (1 ≤ size ∨ size = getMaxPID + 1) := by
  unfold initialSize at h
  split at h
  · rw [toInt_eq_ok] at h
    omega
  · obtain ⟨g, hg, h⟩ := bind_ok h
    obtain ⟨guided, hguided, h⟩ := bind_ok h
    rw [toInt_eq_ok] at hg hguided
    split at h
    · -- room for twice the own pid
      cases h
      omega
    · rw [toInt_eq_ok] at h
      omega

/-- What `procindex_init` leaves when it succeeds: `calloc` has no block for a negative count, and the
limit -1 has been turned away, so there is a slot. -/
theorem procindexInit_spec {getMaxPID guidePid ret : Int} {t : Procindex}
    (h : procindexInit getMaxPID true guidePid = .ok (ret, t)) (hret : ret = NOMINAL) :
    t.procs = List.replicate t.size.toNat .null ∧ 1 ≤ t.size ∧ t.size ≤ getMaxPID + 1
      ∧ t.size ≤ 2147483647 ∧ t.maxPid = getMaxPID := by
  unfold procindexInit at h
  split at h
  next =>
    cases h
    cases hret
  next hmax =>
    obtain ⟨size, hsize, h⟩ := bind_ok h
    obtain ⟨hint, hle, hpos⟩ := initialSize_spec hsize
    split at h
    next hgranted =>
      cases h
      have hone : 1 ≤ size := by omega
      exact ⟨rfl, hone, hle, hint, rfl⟩
    next =>
      cases h
      cases hret

end DirSurveiller
