/-
  DirSurveiller.Database.Store — adding to the two databases and asking for a path.

  Berkeley DB is taken for what the code uses of it: `put` with `DB_NOOVERWRITE` refuses a key that
  compares equal to a stored one, `get` finds the stored key that compares equal, and the secondary
  index delivers the entries whose callback key is the path.  The exec database compares keys with
  `db_execCall_KeyComp`, the open database byte by byte.

  Stored entries carry the objects they were made from as history.
-/
import DirSurveiller.Database.Records

namespace DirSurveiller

open CMachine Outcome

/-! ## §1. The databases. -/

def DB_KEYEXIST : Int := -30994

def DB_NOTFOUND : Int := -30988

/-- An entry of the exec database; `origin` is history. -/
structure StoredExec where
  key : DbECallKey
  data : Bytes
  origin : ExecRef
  deriving Repr, DecidableEq

/-- An entry of the open database; `issuer` and `origin` are history. -/
structure StoredOpen where
  key : Bytes
  data : Bytes
  issuer : ExecRef
  origin : OpenRef
  deriving Repr, DecidableEq

/-- `db_manager`: the entries of the two databases, oldest first. -/
structure DbManager where
  execCallDB : List StoredExec
  openCallDB : List StoredOpen
  deriving Repr, DecidableEq

def DbManager.empty : DbManager := { execCallDB := [], openCallDB := [] }

/-- The stored execCall whose key compares equal. -/
def DbManager.findExec (db : DbManager) (key : DbECallKey) : Option StoredExec :=
  db.execCallDB.find? fun e => decide (dbExecCallKeyComp key e.key = 0)

/-- `db_add_execCall`.  `pad` is what the stack holds behind the key's pid. -/
def dbAddExecCall (mem : Allocator) (call : Nat) (pad : UInt32) (db : DbManager)
    (dbECall : ECallRecord) (origin : ExecRef) : Except Fault (Int × DbManager) := do
  let eCallKey := dbExecCallGenKey ⟨⟨0, 0⟩, 0, pad⟩ dbECall
  let (_, mObj) ← dbExecCallMarshall mem call mObjectInit dbECall
  -- `DB_NOOVERWRITE`: the older record stays
  match db.findExec eCallKey with
  | some _ => return (DB_KEYEXIST, db)
  | none =>
      return (0, { db with execCallDB := db.execCallDB ++ [⟨eCallKey, mObj.data, origin⟩] })

/-- `db_get_execCall_by_key`, reading into `dbECall` -/
def dbGetExecCallByKey (db : DbManager) (dbECall : ECallRecord) (key : DbECallKey) :
    Except Fault (Int × ECallRecord) :=
  match db.findExec key with
  | none => .ok (DB_NOTFOUND, dbECall)
  | some e => dbExecCallUnmarshall dbECall e.data

/-- `#define MaxPathSuffixLength 100` -/
def MaxPathSuffixLength : Nat := 100

/-- `gen_filepath_suffix`: what `snprintf` writes into the suffix. -/
def genFilepathSuffix (filepath : Bytes) : Except Fault Bytes := do
  let pathLength := (← strlen filepath) + 1
  let startPos := if pathLength < MaxPathSuffixLength then 0 else pathLength - MaxPathSuffixLength
  let text ← cstring (filepath.drop startPos)
  return text.take (MaxPathSuffixLength - 1) ++ [0]

/-- `db_openCall_genKey`.  `prior` is what the stack held where the key is built: the bytes behind
the suffix stay as they were. -/
def dbOpenCallGenKey (prior : Bytes) (oCall : OCallRecord) : Except Fault Bytes := do
  let suffix ← genFilepathSuffix (← pointee oCall.filepath)
  let written := codecTimeval.encode oCall.timeStamp ++ suffix
  return written ++ prior.drop written.length

/-- `db_add_openCall` -/
def dbAddOpenCall (mem : Allocator) (call : Nat) (prior : Bytes) (db : DbManager)
    (dbOCall : OCallRecord) (issuer : ExecRef) (origin : OpenRef) :
    Except Fault (Int × DbManager) := do
  let oCallKey ← dbOpenCallGenKey prior dbOCall
  let (_, mObj) ← dbOpenCallMarshall mem call mObjectInit dbOCall
  if db.openCallDB.any fun e => e.key = oCallKey then
    return (DB_KEYEXIST, db)
  else
    return (0, { db with openCallDB := db.openCallDB ++ [⟨oCallKey, mObj.data, issuer, origin⟩] })

/-- `db_openCalls_filepathCallback`: the string that begins behind the numbers. -/
def dbOpenCallsFilepathCallback (data : Bytes) : Except Fault Bytes :=
  cstring (data.drop (codecTimeval.width + codecInt32.width + codecKey.width))

/-! ## §2. Asking for a path. -/

/-- `db_full_Record` -/
structure DbFullRecord where
  openCall : OCallRecord
  execCalls : List ECallRecord
  deriving Repr, DecidableEq

/-- `while( next_eCallKey.pid != 0)`: the execCalls from a key on.  `junk` is the record `malloc`
delivers; the first argument bounds the length of the chain. -/
def retrieveExecCalls (db : DbManager) (junk : ECallRecord) :
    Nat → DbECallKey → Except Fault (List ECallRecord)
  | 0, nextECallKey => if nextECallKey.pid = 0 then .ok [] else .error .diverges
  | steps + 1, nextECallKey =>
      if nextECallKey.pid = 0 then .ok []
      else do
        let (ret, tmpECall) ← dbGetExecCallByKey db (dbExecCallInit junk) nextECallKey
        -- an exec that is not stored ends the chain without an error
        if ret ≠ 0 then
          return []
        else
          return tmpECall :: (← retrieveExecCalls db junk steps tmpECall.parentEcall)

/-- The body of the cursor loop of `retrieveRecords_Path` for one stored openCall. -/
def retrieveRecord (db : DbManager) (junk : ECallRecord) (junkOpen : OCallRecord) (e : StoredOpen) :
    Except Fault DbFullRecord := do
  let (_, openCall) ← dbOpenCallUnmarshall { junkOpen with filepath := none } e.data
  let execCalls ← retrieveExecCalls db junk (db.execCallDB.length + 1) openCall.eCallKey
  return { openCall := openCall, execCalls := execCalls }

/-- The entries the cursor delivers for a path. -/
def DbManager.ofPath (db : DbManager) (path : Bytes) : List StoredOpen :=
  db.openCallDB.filter fun e =>
    match dbOpenCallsFilepathCallback e.data with
    | .ok key => key = path
    | .error _ => false

/-- `retrieveRecords_Path` -/
def retrieveRecordsPath (db : DbManager) (junk : ECallRecord) (junkOpen : OCallRecord)
    (path : Bytes) : Except Fault (Int × List DbFullRecord) := do
  let records ← (db.ofPath path).mapM (retrieveRecord db junk junkOpen)
  return (if records.isEmpty then DB_NOTFOUND else 0, records)

/-! ## §3. What is found. -/

section Lookup

variable {db : DbManager} {mem : Allocator} {key : DbECallKey}

theorem findExec_some {e : StoredExec} (h : db.findExec key = some e) :
    e ∈ db.execCallDB ∧ key.timeStamp = e.key.timeStamp ∧ key.pid = e.key.pid := by
  refine ⟨List.mem_of_find?_eq_some h, ?_⟩
  have := List.find?_some h
  exact keyComp_eq_zero.mp (of_decide_eq_true this)

theorem findExec_none (h : db.findExec key = none) {e : StoredExec} (he : e ∈ db.execCallDB) :
    ¬ (key.timeStamp = e.key.timeStamp ∧ key.pid = e.key.pid) := by
  have := List.find?_eq_none.mp h e he
  rw [← keyComp_eq_zero]
  simpa using this

end Lookup

/-- The path of a stored open call is the one the index of paths has for it. -/
theorem filepathCallback_openBytes (oCall : OCallRecord) {filepath : Bytes}
    (hclean : (0 : UInt8) ∉ filepath) :
    dbOpenCallsFilepathCallback (openBytes oCall filepath) = .ok filepath := by
  have hwidth : (codecTimeval.encode oCall.timeStamp ++ codecInt32.encode oCall.flag
      ++ codecKey.encode oCall.eCallKey).length
      = codecTimeval.width + codecInt32.width + codecKey.width := by
    simp only [List.length_append, Codec.length_encode]
  unfold dbOpenCallsFilepathCallback openBytes
  rw [← hwidth, List.drop_left]
  exact cstring_terminated hclean

/-- Where pid 0 is asked for, the walk ends before it has begun. -/
theorem retrieveExecCalls_zero {db : DbManager} {junk : ECallRecord} {steps : Nat} {key : DbECallKey}
    (h : key.pid = 0) : retrieveExecCalls db junk steps key = .ok [] := by
  cases steps with
  | zero => exact if_pos h
  | succ steps => exact if_pos h

end DirSurveiller
