/-
  DirSurveiller.Database.PathQuery — a path query delivers the stored open calls of that path.

  The key of an entry in the index of paths is cut out of the marshalled bytes by an offset
  (`db_openCalls_filepathCallback`); the key of a query is built from the user's string.  Both carry
  their NUL, and the size of a `DBT` is a `u_int32_t`.  The cursor delivers the entries whose key is
  identical, in an order of its own.

    * `path_query_exact` — after any sequence of `db_add_openCall`, one full record for each stored
      open call of the path, with all its fields.
-/
import DirSurveiller.Database.OpenKey
import Mathlib.Data.List.Perm.Basic

namespace DirSurveiller

open CMachine Outcome

/-! ## §1. The index of paths and its cursor. -/

/-- What a `DBT` with this `data` and this `size` stands for. -/
def dbt (data : Bytes) (size : Nat) : Bytes := data.take (size % 2 ^ 32)

/-- The key `db_openCalls_filepathCallback` has for a stored value. -/
def filepathKey (data : Bytes) : Except Fault Bytes := do
  let path ← dbOpenCallsFilepathCallback data
  return dbt (data.drop (codecTimeval.width + codecInt32.width + codecKey.width)) (path.length + 1)

/-- `key.data = path; key.size = strlen(path)+1;` -/
def queryKey (path : Bytes) : Except Fault Bytes := do
  return dbt (path ++ [0]) ((← strlen (path ++ [0])) + 1)

/-- `DB_SET` finds the first and `DB_NEXT_DUP` every further entry whose key is identical: the order
of these entries is the database's. -/
def DbManager.Delivers (db : DbManager) (path : Bytes) (cursor : List StoredOpen) : Prop :=
  cursor.Perm (db.openCallDB.filter fun e => decide (filepathKey e.data = queryKey path))

/-- `do { … } while(!get(…, DB_NEXT_DUP));` over what the cursor still has to deliver. -/
def retrieveLoop (db : DbManager) (junk : ECallRecord) (junkOpen : OCallRecord) :
    List StoredOpen → List DbFullRecord → Except Fault (List DbFullRecord)
  | [], recordList => .ok recordList
  | e :: cursor, recordList => do
      let fullRecord ← retrieveRecord db junk junkOpen e
      retrieveLoop db junk junkOpen cursor (recordList ++ [fullRecord])

/-- `retrieveRecords_Path` for what the cursor delivers; `DB_NOTFOUND` when there is no first
entry. -/
def retrieveRecordsCursor (db : DbManager) (junk : ECallRecord) (junkOpen : OCallRecord)
    (cursor : List StoredOpen) (recordList : List DbFullRecord) :
    Except Fault (Int × List DbFullRecord) := do
  if cursor.isEmpty then
    return (DB_NOTFOUND, recordList)
  else
    return (0, ← retrieveLoop db junk junkOpen cursor recordList)

/-- The walk from an exec key to its ancestors comes to an end. -/
def DbManager.LookupsEnd (db : DbManager) (junk : ECallRecord) : Prop :=
  ∀ key, ∃ execCalls, retrieveExecCalls db junk (db.execCallDB.length + 1) key = .ok execCalls

/-! ## §2. A sequence of `db_add_openCall`. -/

/-- One call: what the stack holds where the key is built, and the record. -/
structure OpenAdd where
  prior : Bytes
  record : OCallRecord
  issuer : ExecRef
  origin : OpenRef
  deriving Repr, DecidableEq

/-- The calls in turn: the records that were stored, and the database. -/
def dbAddOpenCalls (mem : Allocator) :
    Nat → List OpenAdd → DbManager → Except Fault (List OCallRecord × DbManager)
  | _, [], db => .ok ([], db)
  | call, a :: adds, db => do
      let (ret, db) ← dbAddOpenCall mem call a.prior db a.record a.issuer a.origin
      let (stored, db) ← dbAddOpenCalls mem (call + 1) adds db
      return (if ret = 0 then a.record :: stored else stored, db)

/-- A record with a path, whose marshalled bytes a `DBT` can count. -/
def Storable (oCall : OCallRecord) : Prop :=
  ∃ filepath, oCall.filepath = some filepath ∧ (0 : UInt8) ∉ filepath
    ∧ openSize filepath < 2 ^ 32

/-- The entry holds the bytes of the record. -/
def StoredAs (oCall : OCallRecord) (e : StoredOpen) : Prop :=
  ∃ filepath, oCall.filepath = some filepath ∧ (0 : UInt8) ∉ filepath
    ∧ openSize filepath < 2 ^ 32 ∧ e.data = openBytes oCall filepath

section Adding

variable {mem : Allocator} {oCall : OCallRecord}

/-- What is handed to the database are the bytes of the record. -/
theorem dbOpenCallMarshall_data {filepath : Bytes} (hmem : mem.Total) (call : Nat)
    (hpath : oCall.filepath = some filepath) (hclean : (0 : UInt8) ∉ filepath)
    (hsize : openSize filepath < 2 ^ 32) :
    ∃ m, dbOpenCallMarshall mem call mObjectInit oCall = .ok (0, m)
      ∧ m.data = openBytes oCall filepath := by
  refine ⟨_, dbOpenCallMarshall_granted hmem call hpath hclean, ?_⟩
  have hnat : (Int32.ofNat (openSize filepath)).toUInt32.toNat = openSize filepath := by
    simpa using hsize
  unfold MObject.data
  rw [hnat, ← openBytes_length oCall filepath]
  exact List.take_length

/-- **`db_add_openCall`** stores the record or leaves the database as it is. -/
theorem dbAddOpenCall_cases (hmem : mem.Total) (call : Nat) (prior : Bytes) (db : DbManager)
    (issuer : ExecRef) (origin : OpenRef) (h : Storable oCall) :
    ∃ ret db', dbAddOpenCall mem call prior db oCall issuer origin = .ok (ret, db')
      ∧ db'.execCallDB = db.execCallDB
      ∧ ((ret = 0 ∧ ∃ e, db'.openCallDB = db.openCallDB ++ [e] ∧ StoredAs oCall e)
        ∨ (ret ≠ 0 ∧ db' = db)) := by
  obtain ⟨filepath, hpath, hclean, hsize⟩ := h
  have hkey := dbOpenCallGenKey_eq prior hpath hclean
  obtain ⟨m, hm, hdata⟩ := dbOpenCallMarshall_data hmem call hpath hclean hsize
  rw [dbAddOpenCall_eq hkey hm]
  split
  next => exact ⟨DB_KEYEXIST, db, rfl, rfl, .inr ⟨by decide, rfl⟩⟩
  next =>
    exact ⟨0, _, rfl, rfl, .inl ⟨rfl, _, rfl, filepath, hpath, hclean, hsize, hdata⟩⟩

/-- **A sequence of calls** stores records one after the other. -/
theorem dbAddOpenCalls_stored (hmem : mem.Total) :
    ∀ (adds : List OpenAdd) (call : Nat) (db : DbManager), (∀ a ∈ adds, Storable a.record) →
      ∃ stored db' entries, dbAddOpenCalls mem call adds db = .ok (stored, db')
        ∧ db'.execCallDB = db.execCallDB ∧ db'.openCallDB = db.openCallDB ++ entries
        ∧ List.Forall₂ StoredAs stored entries := by
  intro adds
  induction adds with
  | nil => exact fun call db _ => ⟨[], db, [], rfl, rfl, (List.append_nil _).symm, .nil⟩
  | cons a adds ih =>
      intro call db hall
      rw [List.forall_mem_cons] at hall
      obtain ⟨ret, db1, hadd, hexec, hcases⟩ :=
        dbAddOpenCall_cases hmem call a.prior db a.issuer a.origin hall.1
      obtain ⟨stored, db2, entries, hadds, hexec', hopens, hstored⟩ := ih (call + 1) db1 hall.2
      unfold dbAddOpenCalls
      rw [hadd, ok_bind]
      dsimp only
      rw [hadds, ok_bind]
      dsimp only
      rcases hcases with ⟨hret, e, hopen, he⟩ | ⟨hret, rfl⟩
      · refine ⟨a.record :: stored, db2, e :: entries, by rw [if_pos hret]; rfl,
          hexec'.trans hexec, ?_, .cons he hstored⟩
        rw [hopens, hopen, List.append_assoc]
        rfl
      · exact ⟨stored, db2, entries, by rw [if_neg hret]; rfl, hexec', hopens, hstored⟩

end Adding

/-! ## §3. The two keys. -/

section Keys

variable {oCall : OCallRecord} {e : StoredOpen} {filepath path : Bytes}

/-- The key of a stored path is the path with its NUL. -/
theorem filepathKey_openBytes (hclean : (0 : UInt8) ∉ filepath) (hsize : openSize filepath < 2 ^ 32) :
    filepathKey (openBytes oCall filepath) = .ok (filepath ++ [0]) := by
  have hwidth : (codecTimeval.encode oCall.timeStamp ++ codecInt32.encode oCall.flag
      ++ codecKey.encode oCall.eCallKey).length
      = codecTimeval.width + codecInt32.width + codecKey.width := by
    simp only [List.length_append, Codec.length_encode]
  have hlt : filepath.length + 1 < 2 ^ 32 := by
    unfold openSize at hsize
    omega
  unfold filepathKey
  rw [filepathCallback_openBytes oCall hclean, ok_bind]
  unfold openBytes dbt
  rw [← hwidth, List.drop_left, Nat.mod_eq_of_lt hlt, List.take_of_length_le (by simp)]
  rfl

/-- The two keys are identical iff the paths are: a query that is too long for a `DBT` has no NUL
left in its key, or no byte at all. -/
theorem filepathKey_eq_queryKey (hclean : (0 : UInt8) ∉ filepath)
    (hsize : openSize filepath < 2 ^ 32) (hpath : (0 : UInt8) ∉ path) :
    filepathKey (openBytes oCall filepath) = queryKey path ↔ filepath = path := by
  have hquery : queryKey path = .ok (dbt (path ++ [0]) (path.length + 1)) := by
    unfold queryKey
    rw [strlen_terminated hpath]
    rfl
  rw [filepathKey_openBytes hclean hsize, hquery, Except.ok.injEq]
  unfold dbt
  constructor
  · intro h
    rcases Nat.lt_or_ge (path.length + 1) (2 ^ 32) with hlt | hge
    · rw [Nat.mod_eq_of_lt hlt, List.take_of_length_le (by simp)] at h
      exact List.append_cancel_right h
    · -- the NUL of the stored key would be one of the bytes of the query
      have hmod : (path.length + 1) % 2 ^ 32 ≤ path.length := by
        have := Nat.mod_lt (path.length + 1) (show 0 < 2 ^ 32 by decide)
        omega
      rw [List.take_append_of_le_length hmod] at h
      have hmem : (0 : UInt8) ∈ path.take ((path.length + 1) % 2 ^ 32) := by
        rw [← h]
        exact List.mem_append_right _ (List.mem_singleton.mpr rfl)
      exact absurd (List.mem_of_mem_take hmem) hpath
  · intro h
    subst h
    have hlt : filepath.length + 1 < 2 ^ 32 := by
      unfold openSize at hsize
      omega
    rw [Nat.mod_eq_of_lt hlt, List.take_of_length_le (by simp)]

/-- The cursor stops at the entries of the path, and at no others. -/
theorem StoredAs.selected (h : StoredAs oCall e) (hpath : (0 : UInt8) ∉ path) :
    decide (filepathKey e.data = queryKey path) = decide (oCall.filepath = some path) := by
  obtain ⟨filepath, hfilepath, hclean, hsize, hdata⟩ := h
  rw [hdata, hfilepath]
  refine decide_eq_decide.mpr ?_
  rw [filepathKey_eq_queryKey hclean hsize hpath, Option.some.injEq]

/-- Filtering the entries is filtering the records. -/
theorem StoredAs.filter {stored : List OCallRecord} {entries : List StoredOpen}
    (h : List.Forall₂ StoredAs stored entries) (hpath : (0 : UInt8) ∉ path) :
    List.Forall₂ StoredAs (stored.filter fun r => decide (r.filepath = some path))
      (entries.filter fun e => decide (filepathKey e.data = queryKey path)) := by
  induction h with
  | nil => exact .nil
  | @cons r e stored entries hr _ ih =>
      rw [List.filter_cons, List.filter_cons, hr.selected hpath]
      split
      · exact .cons hr ih
      · exact ih

end Keys

/-! ## §4. The loop of a query. -/

section Query

variable {db : DbManager} {junk : ECallRecord}

/-- One turn: the record of a stored open call comes back as it was. -/
theorem StoredAs.retrieveRecord {oCall : OCallRecord} {e : StoredOpen} (h : StoredAs oCall e)
    (hends : db.LookupsEnd junk) (junkOpen : OCallRecord) :
    ∃ full, retrieveRecord db junk junkOpen e = .ok full ∧ full.openCall = oCall := by
  obtain ⟨filepath, hpath, hclean, -, hdata⟩ := h
  obtain ⟨execCalls, hwalk⟩ := hends oCall.eCallKey
  have hsame : ({ oCall with filepath := some filepath } : OCallRecord) = oCall := by
    rw [← hpath]
  unfold DirSurveiller.retrieveRecord
  rw [hdata, dbOpenCallUnmarshall_eq _ oCall hclean, ok_bind]
  dsimp only
  rw [hwalk]
  exact ⟨_, rfl, hsame⟩

/-- **The loop** appends one full record for each entry of the cursor. -/
theorem retrieveLoop_eq (hends : db.LookupsEnd junk) (junkOpen : OCallRecord)
    {records : List OCallRecord}
    {cursor : List StoredOpen} (h : List.Forall₂ StoredAs records cursor) :
    ∀ recordList : List DbFullRecord, ∃ fulls,
      retrieveLoop db junk junkOpen cursor recordList = .ok (recordList ++ fulls)
        ∧ fulls.map DbFullRecord.openCall = records := by
  induction h with
  | nil => exact fun recordList => ⟨[], by rw [List.append_nil]; rfl, rfl⟩
  | @cons r e records cursor hr _ ih =>
      intro recordList
      obtain ⟨full, hfull, hopen⟩ := hr.retrieveRecord hends junkOpen
      obtain ⟨fulls, hloop, hfulls⟩ := ih (recordList ++ [full])
      refine ⟨full :: fulls, ?_, by rw [List.map_cons, hopen, hfulls]⟩
      unfold retrieveLoop
      rw [hfull, ok_bind, hloop, List.append_assoc]
      rfl

/-- Lookups end where each stored execCall was marshalled from a record: the record that is read
names no parent. -/
theorem lookupsEnd_of_marshalled
    (h : ∀ e ∈ db.execCallDB, ∃ eCall cmdName args envArgs, Text cmdName ∧ Text args ∧ Text envArgs
      ∧ RecordFits cmdName args ∧ e.data = execBytes eCall cmdName args envArgs) :
    db.LookupsEnd junk := by
  intro key
  unfold retrieveExecCalls
  split
  next => exact ⟨[], rfl⟩
  next =>
    unfold dbGetExecCallByKey
    cases hfind : db.findExec key with
    | none => exact ⟨[], rfl⟩
    | some e =>
        obtain ⟨eCall, cmdName, args, envArgs, hcmd, hargs, henv, hfits, hdata⟩ :=
          h e (findExec_some hfind).1
        have hread := dbExecCallUnmarshall_eq (dbExecCallInit junk) eCall hcmd hargs henv hfits
        dsimp only
        rw [hdata, hread, ok_bind]
        dsimp only
        rw [if_neg (by decide), retrieveExecCalls_zero rfl]
        exact ⟨_, rfl⟩

/-- The entries in the order they were added are one order of the cursor. -/
theorem retrieveRecordsPath_eq_cursor (junkOpen : OCallRecord) (path : Bytes) :
    retrieveRecordsPath db junk junkOpen path
      = retrieveRecordsCursor db junk junkOpen (db.ofPath path) [] := by
  have hloop : ∀ (cursor : List StoredOpen) (recordList : List DbFullRecord),
      retrieveLoop db junk junkOpen cursor recordList
        = (cursor.mapM (retrieveRecord db junk junkOpen) >>= fun fulls =>
            .ok (recordList ++ fulls)) := by
    intro cursor
    -- on the entries left, whatever has been collected
    induction cursor with
    | nil =>
        intro recordList
        show Except.ok recordList = Except.ok (recordList ++ [])
        rw [List.append_nil]
    | cons e cursor ih =>
        intro recordList
        unfold retrieveLoop
        rw [List.mapM_cons]
        cases retrieveRecord db junk junkOpen e with
        | error f => rfl
        | ok full =>
            rw [ok_bind, ih, ok_bind]
            cases cursor.mapM (retrieveRecord db junk junkOpen) with
            | error f => rfl
            | ok fulls =>
                show Except.ok (recordList ++ [full] ++ fulls) = Except.ok (recordList ++ full :: fulls)
                rw [List.append_assoc]
                rfl
  unfold retrieveRecordsPath retrieveRecordsCursor
  rw [hloop]
  cases hcursor : db.ofPath path with
  | nil => rfl
  | cons e cursor =>
      cases hmap : (e :: cursor).mapM (retrieveRecord db junk junkOpen) with
      | error f => rfl
      | ok fulls =>
          cases fulls with
          | nil => cases mapM_eq_ok.mp hmap
          | cons full fulls => rfl

end Query

/-- **A path query is exact.**  After any sequence of `db_add_openCall`, and in whatever order the
cursor delivers the entries of the path, one full record is appended for each stored open call with
that path, and its open call has every field that was stored. -/
theorem path_query_exact {mem : Allocator} (hmem : mem.Total) (execs : List StoredExec)
    {adds : List OpenAdd} (hadds : ∀ a ∈ adds, Storable a.record) {path : Bytes}
    (hpath : (0 : UInt8) ∉ path) :
    ∃ stored db,
      dbAddOpenCalls mem 0 adds { execCallDB := execs, openCallDB := [] } = .ok (stored, db)
      ∧ ∀ cursor junk junkOpen recordList, db.Delivers path cursor → db.LookupsEnd junk →
          ∃ ret fulls,
            retrieveRecordsCursor db junk junkOpen cursor recordList = .ok (ret, recordList ++ fulls)
            ∧ (ret = 0 ↔ fulls ≠ [])
            ∧ (fulls.map DbFullRecord.openCall).Perm
                (stored.filter fun r => decide (r.filepath = some path)) := by
  obtain ⟨stored, db, entries, hrun, -, hopens, hstored⟩ :=
    dbAddOpenCalls_stored hmem adds 0 { execCallDB := execs, openCallDB := [] } hadds
  refine ⟨stored, db, hrun, fun cursor junk junkOpen recordList hcursor hends => ?_⟩
  unfold DbManager.Delivers at hcursor
  rw [show db.openCallDB = entries from hopens] at hcursor
  -- the records of the path, in the order of the cursor
  obtain ⟨records, hrecords, hperm⟩ :=
    List.perm_comp_forall₂ hcursor (StoredAs.filter hstored hpath).flip
  obtain ⟨fulls, hloop, hfulls⟩ := retrieveLoop_eq hends junkOpen hrecords.flip recordList
  have hempty : cursor = [] ↔ fulls = [] := by
    rw [← List.length_eq_zero_iff, hrecords.length_eq, ← hfulls, List.length_map,
      List.length_eq_zero_iff]
  rw [← hfulls] at hperm
  unfold retrieveRecordsCursor
  cases cursor with
  | nil =>
      obtain rfl := hempty.mp rfl
      exact ⟨DB_NOTFOUND, [], by rw [List.append_nil]; rfl, by decide, hperm⟩
  | cons e cursor =>
      refine ⟨0, fulls, ?_, ⟨fun _ hnil => ?_, fun _ => rfl⟩, hperm⟩
      · rw [hloop]
        rfl
      · exact absurd (hempty.mpr hnil) (List.cons_ne_nil _ _)

/-- Two opens of one path and one of another: the query delivers the two. -/
theorem path_query_exact_sample :
    ∃ stored db, dbAddOpenCalls (fun _ _ => some fun _ => 7) 0
        [⟨[], ⟨1, ⟨5, 0⟩, ⟨⟨4, 0⟩, 2, 0⟩, some [97]⟩, 0, 0⟩,
          ⟨[], ⟨2, ⟨6, 0⟩, ⟨⟨4, 0⟩, 2, 0⟩, some [97, 98]⟩, 0, 1⟩,
          ⟨[], ⟨3, ⟨7, 0⟩, ⟨⟨4, 0⟩, 2, 0⟩, some [97]⟩, 0, 2⟩] .empty = .ok (stored, db)
      ∧ ∃ cursor fulls, retrieveRecordsCursor db ⟨0, 0, ⟨⟨0, 0⟩, 0, 0⟩, ⟨0, 0⟩, none, none, none⟩
            ⟨0, ⟨0, 0⟩, ⟨⟨0, 0⟩, 0, 0⟩, none⟩ cursor [] = .ok (0, fulls)
          ∧ (fulls.map DbFullRecord.openCall).Perm
            [⟨1, ⟨5, 0⟩, ⟨⟨4, 0⟩, 2, 0⟩, some [97]⟩, ⟨3, ⟨7, 0⟩, ⟨⟨4, 0⟩, 2, 0⟩, some [97]⟩] := by
  have hmem : Allocator.Total fun _ _ => some fun _ => 7 := fun _ _ => rfl
  have hadds : ∀ a ∈ ([⟨[], ⟨1, ⟨5, 0⟩, ⟨⟨4, 0⟩, 2, 0⟩, some [97]⟩, 0, 0⟩,
      ⟨[], ⟨2, ⟨6, 0⟩, ⟨⟨4, 0⟩, 2, 0⟩, some [97, 98]⟩, 0, 1⟩,
      ⟨[], ⟨3, ⟨7, 0⟩, ⟨⟨4, 0⟩, 2, 0⟩, some [97]⟩, 0, 2⟩] : List OpenAdd), Storable a.record := by
    simp only [List.forall_mem_cons]
    exact ⟨⟨_, rfl, by decide, by decide⟩, ⟨_, rfl, by decide, by decide⟩,
      ⟨_, rfl, by decide, by decide⟩, by simp⟩
  obtain ⟨stored, db, hrun, hquery⟩ := path_query_exact hmem [] hadds (show (0 : UInt8) ∉ [97] by decide)
  refine ⟨stored, db, hrun, ?_⟩
  obtain ⟨hstored, hexecs⟩ : stored = [⟨1, ⟨5, 0⟩, ⟨⟨4, 0⟩, 2, 0⟩, some [97]⟩,
      ⟨2, ⟨6, 0⟩, ⟨⟨4, 0⟩, 2, 0⟩, some [97, 98]⟩, ⟨3, ⟨7, 0⟩, ⟨⟨4, 0⟩, 2, 0⟩, some [97]⟩]
      ∧ db.execCallDB = [] := by
    obtain ⟨hs, hdb⟩ := Prod.mk.inj (Except.ok.inj (hrun.symm.trans (by rfl)))
    exact ⟨hs, by rw [hdb]⟩
  obtain ⟨ret, fulls, hret, hzero, hperm⟩ := hquery _ _ _ [] (List.Perm.refl _)
    (lookupsEnd_of_marshalled (by simp [hexecs]))
  rw [hstored] at hperm
  have hne : fulls ≠ [] := by
    rintro rfl
    exact absurd hperm.length_eq (by decide)
  rw [hzero.mpr hne] at hret
  exact ⟨_, fulls, hret, hperm⟩

end DirSurveiller
