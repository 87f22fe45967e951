/-
  DirSurveiller.Database.Records — the records of `database.c` and their bytes.

  A record is written field by field into one block (`m_object`) and read back by walking over it:
  numbers as they lie in memory, strings with their NUL.  `db_execCall_marshall` writes no
  `parentEcall`, and `db_execCall_unmarshall` does not touch that field.
-/
import DirSurveiller.Lib.Codec
import DirSurveiller.Calls

namespace DirSurveiller

open CMachine Outcome

/-! ## §1. Keys and records. -/

/-- `db_eCallKey`, with the four bytes that follow `pid` in memory. -/
structure DbECallKey where
  timeStamp : Timeval
  pid : Int32
  pad : UInt32
  deriving Repr, DecidableEq

/-- `eCallRecord`; a string is `none` for `NULL`. -/
structure ECallRecord where
  pid : Int32
  ppid : Int32
  parentEcall : DbECallKey
  timeStamp : Timeval
  cmdName : Option Bytes
  args : Option Bytes
  envArgs : Option Bytes
  deriving Repr, DecidableEq

/-- `oCallRecord` -/
structure OCallRecord where
  flag : Int32
  timeStamp : Timeval
  eCallKey : DbECallKey
  filepath : Option Bytes
  deriving Repr, DecidableEq

/-- `db_execCall_init`; the padding of `parentEcall` keeps what `malloc` left there. -/
def dbExecCallInit (this : ECallRecord) : ECallRecord :=
  { this with
    timeStamp := ⟨0, 0⟩, parentEcall := ⟨⟨0, 0⟩, 0, this.parentEcall.pad⟩, pid := 0, ppid := 0
    cmdName := none, args := none, envArgs := none }

/-- `db_execCall_genKey`; the padding of the key is not written. -/
def dbExecCallGenKey (eCallKey : DbECallKey) (eCall : ECallRecord) : DbECallKey :=
  { eCallKey with timeStamp := eCall.timeStamp, pid := eCall.pid }

/-- `db_execCall_KeyComp` for two keys of full size; the difference of two pids that are not
negative is an `int`. -/
def dbExecCallKeyComp (key1 key2 : DbECallKey) : Int :=
  let ret : Int := (if timercmpLt key2.timeStamp key1.timeStamp then 1 else 0)
    - (if timercmpLt key1.timeStamp key2.timeStamp then 1 else 0)
  if ret = 0 then key1.pid.toInt - key2.pid.toInt else ret

/-- Two keys compare equal iff their time stamps and pids are equal. -/
theorem keyComp_eq_zero {key1 key2 : DbECallKey} :
    dbExecCallKeyComp key1 key2 = 0 ↔ key1.timeStamp = key2.timeStamp ∧ key1.pid = key2.pid := by
  obtain ⟨⟨s1, u1⟩, p1, d1⟩ := key1
  obtain ⟨⟨s2, u2⟩, p2, d2⟩ := key2
  have hpid : p1.toInt - p2.toInt = 0 ↔ p1 = p2 := by
    rw [Int.sub_eq_zero, Int32.toInt_inj]
  simp only [dbExecCallKeyComp, timercmpLt, Timeval.mk.injEq, Int64.lt_iff_toInt_lt,
    ← Int64.toInt_inj]
  rw [← hpid]
  grind

/-! ## §2. The marshalled object. -/

/-- `m_object` -/
structure MObject where
  buffer : Option Bytes
  size : Int32
  deriving Repr, DecidableEq

/-- `m_object_init` -/
def mObjectInit : MObject := { buffer := none, size := 0 }

/-- `m_object_add`.  `size` is an `int`, so the sum wraps. -/
def mObjectAdd (this : MObject) (data : Bytes) (size : Nat) : Except Fault MObject :=
  match this.buffer with
  | none => .error .nullDeref
  | some buffer =>
      if this.size.toInt < 0 then .error .outOfRange
      else do
        let buffer ← memcpy buffer this.size.toInt.toNat data size
        return { buffer := some buffer, size := Int32.ofInt (this.size.toInt + size) }

/-- The block behind a `char*`. -/
def pointee : Option Bytes → Except Fault Bytes
  | none => .error .nullDeref
  | some s => .ok (s ++ [0])

/-- `strlen(s)+1` bytes of `s` -/
def mObjectAddString (this : MObject) (s : Option Bytes) : Except Fault MObject := do
  let block ← pointee s
  mObjectAdd this block ((← strlen block) + 1)

/-- `strlen(s) + 1` -/
def stringSize (s : Option Bytes) : Except Fault Nat := do
  return (← strlen (← pointee s)) + 1

/-- `malloc(size)`; the code does not look at the answer. -/
def mallocBlock (mem : Allocator) (call size : Nat) : Option Bytes :=
  realloc mem call [] size

/-- `long` in memory. -/
def codecInt64 : Codec Int64 :=
  .ofNat 8 (fun n => n.toUInt64.toNat) (fun n => (UInt64.ofNat n).toInt64)
    (fun n => by have := n.toUInt64.toNat_lt; simpa using this) (fun n => by simp)

/-- `int` in memory. -/
def codecInt32 : Codec Int32 :=
  .ofNat 4 (fun n => n.toUInt32.toNat) (fun n => (UInt32.ofNat n).toInt32)
    (fun n => by have := n.toUInt32.toNat_lt; simpa using this) (fun n => by simp)

def codecUInt32 : Codec UInt32 :=
  .ofNat 4 UInt32.toNat UInt32.ofNat (fun n => by have := n.toNat_lt; simpa using this)
    (fun n => by simp)

/-- `struct timeval` in memory. -/
def codecTimeval : Codec Timeval :=
  (codecInt64.pair codecInt64).map (fun p => ⟨p.1, p.2⟩) (fun t => (t.tvSec, t.tvUsec))
    (fun _ => rfl)

/-- `db_eCallKey` in memory. -/
def codecKey : Codec DbECallKey :=
  (codecTimeval.pair (codecInt32.pair codecUInt32)).map (fun p => ⟨p.1, p.2.1, p.2.2⟩)
    (fun k => (k.timeStamp, k.pid, k.pad)) (fun _ => rfl)

/-- A field of the record copied as it lies in memory. -/
def mObjectAddField {α : Type} (c : Codec α) (this : MObject) (a : α) : Except Fault MObject :=
  mObjectAdd this (c.encode a) c.width

/-- A field read from `buffer+pos`. -/
def readField {α : Type} (c : Codec α) (buffer : Bytes) (pos : Nat) : Except Fault α :=
  if pos + c.width ≤ buffer.length then .ok (c.decode (buffer.drop pos)) else .error .outOfRange

/-- `m_object_buffer_getstring`: the new string and the returned `int`; `calloc` is granted. -/
def mObjectBufferGetstring (buffer : Bytes) (pos : Nat) : Except Fault (Bytes × Int32) := do
  let s ← cstring (buffer.drop pos)
  return (s, Int32.ofNat (s.length + 1))

/-- `bufpos += strlength`, a `size_t` and an `int` -/
def advance (bufpos : Nat) (strlength : Int32) : Nat :=
  ((bufpos + strlength.toInt) % 2 ^ 64).toNat

/-! ## §3. Writing and reading the records. -/

/-- `db_execCall_marshall` -/
def dbExecCallMarshall (mem : Allocator) (call : Nat) (mObj : MObject) (eCall : ECallRecord) :
    Except Fault (Int × MObject) :=
  match mObj.buffer with
  | some _ => .ok (-1, mObj)
  | none => do
      -- the key of the parent is not part of it
      let nSize := codecTimeval.width + codecInt32.width + codecInt32.width
        + (← stringSize eCall.cmdName) + (← stringSize eCall.args) + (← stringSize eCall.envArgs)
      let mObj := { mObj with buffer := mallocBlock mem call nSize }
      let mObj ← mObjectAddField codecTimeval mObj eCall.timeStamp
      let mObj ← mObjectAddField codecInt32 mObj eCall.pid
      let mObj ← mObjectAddField codecInt32 mObj eCall.ppid
      let mObj ← mObjectAddString mObj eCall.cmdName
      let mObj ← mObjectAddString mObj eCall.args
      let mObj ← mObjectAddString mObj eCall.envArgs
      return (0, mObj)

/-- `db_execCall_unmarshall` -/
def dbExecCallUnmarshall (eCall : ECallRecord) (buffer : Bytes) :
    Except Fault (Int × ECallRecord) := do
  let timeStamp ← readField codecTimeval buffer 0
  let bufpos := codecTimeval.width
  let pid ← readField codecInt32 buffer bufpos
  let bufpos := bufpos + codecInt32.width
  let ppid ← readField codecInt32 buffer bufpos
  let bufpos := bufpos + codecInt32.width
  let (cmdName, strlength) ← mObjectBufferGetstring buffer bufpos
  let eCall := { eCall with
    timeStamp := timeStamp, pid := pid, ppid := ppid, cmdName := some cmdName }
  if strlength = -1 then return (1, eCall)
  else
    let bufpos := advance bufpos strlength
    let (args, strlength) ← mObjectBufferGetstring buffer bufpos
    let eCall := { eCall with args := some args }
    if strlength = -1 then return (1, eCall)
    else
      let bufpos := advance bufpos strlength
      let (envArgs, strlength) ← mObjectBufferGetstring buffer bufpos
      let eCall := { eCall with envArgs := some envArgs }
      if strlength = -1 then return (1, eCall) else return (0, eCall)

/-- `db_openCall_marshall` -/
def dbOpenCallMarshall (mem : Allocator) (call : Nat) (mObj : MObject) (oCall : OCallRecord) :
    Except Fault (Int × MObject) :=
  match mObj.buffer with
  | some _ => .ok (-1, mObj)
  | none => do
      let nSize := codecTimeval.width + codecInt32.width + codecKey.width
        + (← stringSize oCall.filepath)
      let mObj := { mObj with buffer := mallocBlock mem call nSize }
      let mObj ← mObjectAddField codecTimeval mObj oCall.timeStamp
      let mObj ← mObjectAddField codecInt32 mObj oCall.flag
      let mObj ← mObjectAddField codecKey mObj oCall.eCallKey
      let mObj ← mObjectAddString mObj oCall.filepath
      return (0, mObj)

/-- `db_openCall_unmarshall` -/
def dbOpenCallUnmarshall (oCall : OCallRecord) (buffer : Bytes) :
    Except Fault (Int × OCallRecord) := do
  let timeStamp ← readField codecTimeval buffer 0
  let bufpos := codecTimeval.width
  let flag ← readField codecInt32 buffer bufpos
  let bufpos := bufpos + codecInt32.width
  let eCallKey ← readField codecKey buffer bufpos
  let bufpos := bufpos + codecKey.width
  let (filepath, strlength) ← mObjectBufferGetstring buffer bufpos
  let oCall := { oCall with
    timeStamp := timeStamp, flag := flag, eCallKey := eCallKey, filepath := some filepath }
  if strlength = -1 then return (1, oCall) else return (0, oCall)

/-! ## §4. The bytes of a record. -/

/-- The bytes `db_execCall_marshall` writes for a record with these strings. -/
def execBytes (eCall : ECallRecord) (cmdName args envArgs : Bytes) : Bytes :=
  codecTimeval.encode eCall.timeStamp ++ codecInt32.encode eCall.pid ++ codecInt32.encode eCall.ppid
    ++ (cmdName ++ [0]) ++ (args ++ [0]) ++ (envArgs ++ [0])

/-- The offset of the last string of an exec record is an `int`. -/
def RecordFits (cmdName args : Bytes) : Prop :=
  24 + (cmdName.length + 1) + (args.length + 1) ≤ INT_MAX

/-- The bytes `db_openCall_marshall` writes. -/
def openBytes (oCall : OCallRecord) (filepath : Bytes) : Bytes :=
  codecTimeval.encode oCall.timeStamp ++ codecInt32.encode oCall.flag
    ++ codecKey.encode oCall.eCallKey ++ (filepath ++ [0])

/-- What `db_add_execCall` and `db_add_openCall` hand over: `size` bytes of the block. -/
def MObject.data (m : MObject) : Bytes := (m.buffer.getD []).take m.size.toUInt32.toNat

/-- `written` has been written into the block and `room` bytes are left. -/
structure MObject.Holds (m : MObject) (written : Bytes) (room : Nat) : Prop where
  block : ∃ rest, m.buffer = some (written ++ rest) ∧ rest.length = room
  size : m.size = Int32.ofNat written.length
  small : written.length < 2 ^ 32

section Bytes

variable {mem : Allocator} {m : MObject} {written : Bytes} {room : Nat} {crash : Prop}

theorem pointee_text {s : Bytes} (h : Text s) : strlen (s ++ [0]) = .ok s.length :=
  strlen_terminated h.1

theorem stringSize_text {s : Bytes} (h : Text s) : stringSize (some s) = .ok (s.length + 1) := by
  rw [stringSize, pointee, ok_bind, pointee_text h]
  rfl

/-- **`m_object_add`** appends, as long as `size` has not wrapped. -/
theorem mObjectAdd_meets (h : m.Holds written room) (data : Bytes) {n : Nat} (hn : n ≤ 2 ^ 31) :
    Meets (Tolerated crash) (mObjectAdd m data n) fun m' =>
      m'.Holds (written ++ data.take n) (room - n) ∧ written.length ≤ INT_MAX := by
  obtain ⟨⟨rest, hbuffer, hrest⟩, hsize, hsmall⟩ := h
  have hint : m.size.toInt = (written.length : Int).bmod (2 ^ 32) := by
    rw [hsize]
    exact Int32.toInt_ofNat'
  rw [Int.bmod_def] at hint
  simp only [mObjectAdd, hbuffer]
  by_cases hneg : m.size.toInt < 0
  · rw [if_pos hneg]
    trivial
  · have hlt : written.length < 2 ^ 31 := by
      rw [hint] at hneg
      split at hneg <;> omega
    have hoff : m.size.toInt = written.length := by
      rw [hint, if_pos (by omega)]
      omega
    rw [if_neg hneg, hoff, Int.toNat_natCast, memcpy]
    by_cases hfits : n ≤ data.length ∧ written.length + n ≤ (written ++ rest).length
    · rw [if_pos hfits, ok_bind]
      rw [List.length_append] at hfits
      refine ⟨⟨⟨rest.drop n, ?_, by rw [List.length_drop, hrest]⟩, ?_, ?_⟩, Nat.le_of_lt_succ hlt⟩
      · rw [List.take_left, ← List.drop_drop, List.drop_left]
      · show Int32.ofInt (↑written.length + ↑n) = Int32.ofNat (written ++ data.take n).length
        rw [List.length_append, List.length_take, Nat.min_eq_left hfits.1]
        rfl
      · rw [List.length_append, List.length_take]
        omega
    · rw [if_neg hfits]
      trivial

theorem mObjectAddField_meets {α : Type} (c : Codec α) (hc : c.width ≤ 2 ^ 31)
    (h : m.Holds written room) (a : α) :
    Meets (Tolerated crash) (mObjectAddField c m a) fun m' =>
      m'.Holds (written ++ c.encode a) (room - c.width) := by
  refine (mObjectAdd_meets h (c.encode a) hc).mono fun m' hm' => ?_
  have hholds := hm'.1
  rwa [List.take_of_length_le (by rw [c.length_encode])] at hholds

theorem mObjectAddString_meets (h : m.Holds written room) {s : Bytes} (hs : Text s) :
    Meets (Tolerated crash) (mObjectAddString m (some s)) fun m' =>
      m'.Holds (written ++ (s ++ [0])) (room - (s.length + 1)) ∧ written.length ≤ INT_MAX := by
  have hlen : s.length + 1 ≤ 2 ^ 31 := Nat.succ_le_succ hs.2
  rw [mObjectAddString, pointee, ok_bind, pointee_text hs, ok_bind]
  refine (mObjectAdd_meets h (s ++ [0]) hlen).mono fun m' hm' => ?_
  rwa [List.take_of_length_le (by simp)] at hm'

/-- The block before anything is written. -/
theorem holds_malloc {call n : Nat} (block : Bytes) (h : mallocBlock mem call n = some block) :
    MObject.Holds { buffer := some block, size := 0 } [] n := by
  refine ⟨⟨block, rfl, ?_⟩, rfl, by simp⟩
  rw [mallocBlock, realloc, Option.map_eq_some_iff] at h
  obtain ⟨fill, -, rfl⟩ := h
  simp

theorem mallocBlock_total (hmem : mem.Total) (call n : Nat) : mallocBlock mem call n ≠ none := by
  obtain ⟨fill, hfill⟩ := Option.isSome_iff_exists.mp (hmem call n)
  simp [mallocBlock, realloc, hfill]

/-- When nothing is left to write, the object holds what has been written. -/
theorem MObject.Holds.data_eq (h : m.Holds written 0) : m.data = written := by
  obtain ⟨⟨rest, hbuffer, hrest⟩, hsize, hsmall⟩ := h
  have hnat : m.size.toUInt32.toNat = written.length := by
    rw [hsize]
    simpa using hsmall
  rw [MObject.data, hbuffer, hnat]
  exact List.take_left

/-- **`db_execCall_marshall`** of a record whose strings are texts.  It succeeds only where no offset
wraps. -/
theorem dbExecCallMarshall_meets {call : Nat} {eCall : ECallRecord} {cmdName args envArgs : Bytes}
    (hcmd : eCall.cmdName = some cmdName) (hargs : eCall.args = some args)
    (henv : eCall.envArgs = some envArgs) (htcmd : Text cmdName) (htargs : Text args)
    (htenv : Text envArgs) :
    Meets (Tolerated (¬ mem.Total)) (dbExecCallMarshall mem call mObjectInit eCall) fun p =>
      p.1 = 0 ∧ p.2.data = execBytes eCall cmdName args envArgs ∧ RecordFits cmdName args := by
  simp only [dbExecCallMarshall, mObjectInit, hcmd, hargs, henv, stringSize_text htcmd,
    stringSize_text htargs, stringSize_text htenv, ok_bind]
  cases hblock : mallocBlock mem call (codecTimeval.width + codecInt32.width + codecInt32.width
      + (cmdName.length + 1) + (args.length + 1) + (envArgs.length + 1)) with
  | none => exact fun hmem => mallocBlock_total hmem _ _ hblock
  | some block =>
      refine (mObjectAddField_meets codecTimeval (by decide) (holds_malloc block hblock) _).bind
        fun m hm => ?_
      refine (mObjectAddField_meets codecInt32 (by decide) hm _).bind fun m hm => ?_
      refine (mObjectAddField_meets codecInt32 (by decide) hm _).bind fun m hm => ?_
      refine (mObjectAddString_meets hm htcmd).bind fun m hm => ?_
      refine (mObjectAddString_meets hm.1 htargs).bind fun m hm => ?_
      refine (mObjectAddString_meets hm.1 htenv).bind fun m hm => ?_
      obtain ⟨hm, hle⟩ := hm
      refine ⟨rfl, ?_, ?_⟩
      · rw [show codecTimeval.width + codecInt32.width + codecInt32.width + (cmdName.length + 1)
            + (args.length + 1) + (envArgs.length + 1) - codecTimeval.width - codecInt32.width
            - codecInt32.width - (cmdName.length + 1) - (args.length + 1) - (envArgs.length + 1) = 0
          by omega] at hm
        rw [hm.data_eq]
        simp [execBytes]
      · unfold RecordFits
        simp only [List.nil_append, List.length_append, Codec.length_encode,
          List.length_singleton] at hle
        exact hle

/-- **`db_openCall_marshall`** of a record whose file path is a text. -/
theorem dbOpenCallMarshall_meets {call : Nat} {oCall : OCallRecord} {filepath : Bytes}
    (hpath : oCall.filepath = some filepath) (htext : Text filepath) :
    Meets (Tolerated (¬ mem.Total)) (dbOpenCallMarshall mem call mObjectInit oCall) fun p =>
      p.1 = 0 ∧ p.2.data = openBytes oCall filepath := by
  simp only [dbOpenCallMarshall, mObjectInit, hpath, stringSize_text htext, ok_bind]
  cases hblock : mallocBlock mem call (codecTimeval.width + codecInt32.width + codecKey.width
      + (filepath.length + 1)) with
  | none => exact fun hmem => mallocBlock_total hmem _ _ hblock
  | some block =>
      refine (mObjectAddField_meets codecTimeval (by decide) (holds_malloc block hblock) _).bind
        fun m hm => ?_
      refine (mObjectAddField_meets codecInt32 (by decide) hm _).bind fun m hm => ?_
      refine (mObjectAddField_meets codecKey (by decide) hm _).bind fun m hm => ?_
      refine (mObjectAddString_meets hm htext).bind fun m hm => ⟨rfl, ?_⟩
      replace hm := hm.1
      rw [show codecTimeval.width + codecInt32.width + codecKey.width + (filepath.length + 1)
          - codecTimeval.width - codecInt32.width - codecKey.width - (filepath.length + 1) = 0
        by omega] at hm
      rw [hm.data_eq]
      simp [openBytes]

/-! ## §5. Reading a block back. -/

theorem readField_carries {α : Type} (c : Codec α) (hw : 0 < c.width) {block : Bytes} {pos : Nat}
    {a : α} (h : Carries block pos (c.encode a)) : readField c block pos = .ok a := by
  have hne : c.encode a ≠ [] := by
    rw [← List.length_pos_iff, c.length_encode]
    exact hw
  have hlen := h.length hne
  rw [c.length_encode] at hlen
  obtain ⟨rest, hrest⟩ := h
  rw [readField, if_pos hlen, ← hrest, c.decode_encode]

theorem getstring_carries {s block : Bytes} {pos : Nat} (hs : (0 : UInt8) ∉ s)
    (h : Carries block pos (s ++ [0])) :
    mObjectBufferGetstring block pos = .ok (s, Int32.ofNat (s.length + 1)) := by
  rw [mObjectBufferGetstring, h.cstring hs]
  rfl

/-- The returned length of a string that an `int` can count. -/
theorem ofNat_ne_neg_one {n : Nat} (h : n ≤ 2 ^ 31) : Int32.ofNat n ≠ -1 := by
  intro heq
  have hint := congrArg Int32.toInt heq
  rw [Int32.toInt_ofNat', Int.bmod_def, show (-1 : Int32).toInt = -1 from rfl] at hint
  simp only [Int32.size] at hint
  split at hint <;> omega

/-- Positions that fit into an `int` add up. -/
theorem advance_ofNat {pos n : Nat} (h : pos + n ≤ INT_MAX) :
    advance pos (Int32.ofNat n) = pos + n := by
  unfold INT_MAX at h
  rw [advance, Int32.toInt_ofNat', Int.bmod_def]
  simp only [Int32.size]
  rw [if_pos (by omega)]
  omega

/-- The block of an exec record whose last two strings begin at `p` and `q`. -/
structure ExecBlock (block : Bytes) (p q : Nat) (eCall : ECallRecord) (cmdName args envArgs : Bytes) :
    Prop where
  timeStamp : Carries block 0 (codecTimeval.encode eCall.timeStamp)
  pid : Carries block 16 (codecInt32.encode eCall.pid)
  ppid : Carries block 20 (codecInt32.encode eCall.ppid)
  cmdName : Carries block 24 (cmdName ++ [0])
  args : Carries block p (args ++ [0])
  envArgs : Carries block q (envArgs ++ [0])

/-- The bytes written one after the other, at the sums of the lengths. -/
theorem execBytes_block (eCall : ECallRecord) (cmdName args envArgs : Bytes) :
    ExecBlock (execBytes eCall cmdName args envArgs) (24 + (cmdName.length + 1))
      (24 + (cmdName.length + 1) + (args.length + 1)) eCall cmdName args envArgs := by
  have h := carries_self (execBytes eCall cmdName args envArgs)
  conv at h => rhs; unfold execBytes
  simp only [carries_append, List.length_append, Codec.length_encode, List.length_singleton,
    show codecTimeval.width = 16 from rfl, show codecInt32.width = 4 from rfl, Nat.zero_add] at h
  obtain ⟨⟨⟨⟨⟨h0, h1⟩, h2⟩, h3⟩, h4⟩, h5⟩ := h
  refine ⟨h0, h1, h2, carries_append.mpr h3, carries_append.mpr ?_, carries_append.mpr ?_⟩
  · simpa only [Nat.reduceAdd] using h4
  · simpa only [Nat.reduceAdd] using h5

/-- Reading a block back, where the returned lengths lead from string to string. -/
theorem unmarshall_block (this : ECallRecord) {eCall : ECallRecord} {block : Bytes} {p q : Nat}
    {cmdName args envArgs : Bytes} (h : ExecBlock block p q eCall cmdName args envArgs)
    (hcmd : (0 : UInt8) ∉ cmdName) (hargs : (0 : UInt8) ∉ args) (henv : (0 : UInt8) ∉ envArgs)
    (hne : ∀ s ∈ [cmdName, args, envArgs], Int32.ofNat (s.length + 1) ≠ -1)
    (hp : advance 24 (Int32.ofNat (cmdName.length + 1)) = p)
    (hq : advance p (Int32.ofNat (args.length + 1)) = q) :
    dbExecCallUnmarshall this block
      = .ok (0, { eCall with
          cmdName := some cmdName, args := some args, envArgs := some envArgs
          parentEcall := this.parentEcall }) := by
  simp only [List.forall_mem_cons] at hne
  have e0 := readField_carries codecTimeval (by decide) h.timeStamp
  have e1 := readField_carries codecInt32 (by decide) h.pid
  have e2 := readField_carries codecInt32 (by decide) h.ppid
  have e3 := getstring_carries hcmd h.cmdName
  have e4 := getstring_carries hargs h.args
  have e5 := getstring_carries henv h.envArgs
  simp only [dbExecCallUnmarshall, show codecTimeval.width = 16 from rfl,
    show codecInt32.width = 4 from rfl, Nat.reduceAdd, e0, e1, e2, e3, ok_bind, if_neg hne.1, hp,
    e4, if_neg hne.2.1, hq, e5, if_neg hne.2.2.1]
  rfl

/-- **`db_execCall_unmarshall`** restores every field but `parentEcall`. -/
theorem dbExecCallUnmarshall_eq (this eCall : ECallRecord) {cmdName args envArgs : Bytes}
    (htcmd : Text cmdName) (htargs : Text args) (htenv : Text envArgs)
    (hfits : RecordFits cmdName args) :
    dbExecCallUnmarshall this (execBytes eCall cmdName args envArgs)
      = .ok (0, { eCall with
          cmdName := some cmdName, args := some args, envArgs := some envArgs
          parentEcall := this.parentEcall }) := by
  unfold RecordFits at hfits
  have hmax : INT_MAX = 2147483647 := rfl
  have hne : ∀ s : Bytes, Text s → Int32.ofNat (s.length + 1) ≠ -1 := fun s hs =>
    ofNat_ne_neg_one (by have := hs.2; omega)
  apply unmarshall_block this (execBytes_block eCall cmdName args envArgs) htcmd.1 htargs.1 htenv.1
  · simp only [List.forall_mem_cons]
    exact ⟨hne _ htcmd, hne _ htargs, hne _ htenv, by simp⟩
  · exact advance_ofNat (by omega)
  · exact advance_ofNat hfits

/-- **`db_openCall_unmarshall`** restores the record, whatever it returns. -/
theorem dbOpenCallUnmarshall_eq (this oCall : OCallRecord) {filepath : Bytes}
    (hclean : (0 : UInt8) ∉ filepath) :
    dbOpenCallUnmarshall this (openBytes oCall filepath)
      = .ok (if Int32.ofNat (filepath.length + 1) = -1 then 1 else 0,
          { oCall with filepath := some filepath }) := by
  have h := carries_self (openBytes oCall filepath)
  conv at h => rhs; unfold openBytes
  simp only [carries_append, List.length_append, Codec.length_encode,
    show codecTimeval.width = 16 from rfl, show codecInt32.width = 4 from rfl,
    show codecKey.width = 24 from rfl, Nat.zero_add, Nat.reduceAdd] at h
  obtain ⟨⟨⟨h0, h1⟩, h2⟩, h3⟩ := h
  have e0 := readField_carries codecTimeval (by decide) h0
  have e1 := readField_carries codecInt32 (by decide) h1
  have e2 := readField_carries codecKey (by decide) h2
  have e3 := getstring_carries hclean (carries_append.mpr h3)
  simp only [dbOpenCallUnmarshall, show codecTimeval.width = 16 from rfl,
    show codecInt32.width = 4 from rfl, show codecKey.width = 24 from rfl, Nat.reduceAdd, e0, e1, e2,
    e3, ok_bind]
  split <;> rfl

end Bytes

end DirSurveiller
