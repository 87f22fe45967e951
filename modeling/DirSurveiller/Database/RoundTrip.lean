/-
  DirSurveiller.Database.RoundTrip — what marshalling and unmarshalling a record gives back.

  `m_object_add` writes at `size`, which is an `int`: once the sum of the lengths has passed the
  largest `int` the next string is written out of the block or over what is already there.  The
  exact condition for strings of any length is therefore about the pieces of the record laid at
  these offsets (`Legible`); `legible_of_fits` is the case in which no offset wraps.

    * `execCall_roundTrip_iff` — an exec record comes back iff it is legible and has no parent key,
      which neither side copies,
    * `openCall_roundTrip`     — an open record always comes back.
-/
import DirSurveiller.Database.Records

namespace DirSurveiller

open CMachine Outcome

/-! ## §1. One `m_object_add`. -/

/-- The offset at which `m_object_add` writes when `n` bytes have been added. -/
def intOffset (n : Nat) : Int := (Int32.ofNat n).toInt

theorem intOffset_eq (n : Nat) : intOffset n = (n : Int).bmod (2 ^ 32) := Int32.toInt_ofNat'

theorem intOffset_of_le {n : Nat} (h : n ≤ INT_MAX) : intOffset n = n := by
  unfold INT_MAX at h
  rw [intOffset_eq, Int.bmod_def, if_pos (by omega)]
  omega

theorem intOffset_le (n : Nat) : intOffset n ≤ n := by
  rw [intOffset_eq, Int.bmod_def]
  split <;> omega

/-- The returned length of a string leads to the offset at which the next one was written. -/
theorem advance_intOffset {n k : Nat} (hn : 0 ≤ intOffset n) (hnk : 0 ≤ intOffset (n + k)) :
    advance (intOffset n).toNat (Int32.ofNat k) = (intOffset (n + k)).toNat := by
  unfold advance
  show (((intOffset n).toNat + intOffset k) % 2 ^ 64).toNat = _
  rw [intOffset_eq, Int.bmod_def] at *
  rw [intOffset_eq, intOffset_eq, Int.bmod_def, Int.bmod_def] at *
  split at hn <;> split at hnk <;> split <;> omega

section Add

variable {m : MObject} {block : Bytes} {n : Nat}

/-- Out of the block. -/
theorem mObjectAdd_negative (hbuffer : m.buffer = some block) (hsize : m.size = Int32.ofNat n)
    (hneg : intOffset n < 0) (k : Nat) : mObjectAdd m data k = .error .outOfRange := by
  simp only [mObjectAdd, hbuffer]
  rw [if_pos (by rw [hsize]; exact hneg)]

/-- Into the block, over what is there. -/
theorem mObjectAdd_over (data : Bytes) (hbuffer : m.buffer = some block)
    (hsize : m.size = Int32.ofNat n) (hnonneg : 0 ≤ intOffset n)
    (hroom : (intOffset n).toNat + data.length ≤ block.length) :
    mObjectAdd m data data.length = .ok
      { buffer := some (block.take (intOffset n).toNat ++ data
          ++ block.drop ((intOffset n).toNat + data.length))
        size := Int32.ofNat (n + data.length) } := by
  have hoff : m.size.toInt = intOffset n := by rw [hsize]; rfl
  have hsum : Int32.ofInt (intOffset n + data.length) = Int32.ofNat (n + data.length) := by
    rw [← Int32.toInt_inj, Int32.toInt_ofInt, intOffset_eq, Int32.toInt_ofNat', Int.natCast_add]
    exact Int.bmod_add_bmod
  simp only [mObjectAdd, hbuffer, hoff]
  rw [if_neg (by omega), memcpy_ok (Nat.le_refl _) hroom, List.take_length, hsum]
  rfl

end Add

/-- `written` stands at the front of the block and `room` bytes are left. -/
def MObject.Filled (m : MObject) (written : Bytes) (room : Nat) : Prop :=
  ∃ rest, m = { buffer := some (written ++ rest), size := Int32.ofNat written.length }
    ∧ rest.length = room

section Filled

variable {mem : Allocator} {call : Nat} {m : MObject} {written : Bytes} {room : Nat}

/-- The block that `malloc` delivers. -/
theorem filled_malloc {n : Nat} {block : Bytes} (h : mallocBlock mem call n = some block) :
    MObject.Filled { buffer := some block, size := 0 } [] n := by
  unfold mallocBlock realloc at h
  rw [Option.map_eq_some_iff] at h
  obtain ⟨fill, -, rfl⟩ := h
  exact ⟨_, rfl, by simp⟩

/-- Behind what has been written. -/
theorem MObject.Filled.add (h : m.Filled written room) (hlt : written.length ≤ INT_MAX)
    (data : Bytes) (hroom : data.length ≤ room) :
    ∃ m', mObjectAdd m data data.length = .ok m'
      ∧ m'.Filled (written ++ data) (room - data.length) := by
  obtain ⟨rest, rfl, hrest⟩ := h
  have hoff : (intOffset written.length).toNat = written.length := by
    rw [intOffset_of_le hlt]
    omega
  have hadd := mObjectAdd_over (m := ⟨some (written ++ rest), Int32.ofNat written.length⟩)
    data rfl rfl (by rw [intOffset_of_le hlt]; omega)
    (by rw [hoff, List.length_append]; omega)
  rw [hoff, List.take_left, ← List.drop_drop, List.drop_left] at hadd
  refine ⟨_, hadd, rest.drop data.length, ?_, ?_⟩
  · rw [List.length_append]
  · rw [List.length_drop, hrest]

theorem MObject.Filled.addField {α : Type} (c : Codec α) (h : m.Filled written room)
    (hlt : written.length ≤ INT_MAX) (hroom : c.width ≤ room) (a : α) :
    ∃ m', mObjectAddField c m a = .ok m' ∧ m'.Filled (written ++ c.encode a) (room - c.width) := by
  have hwidth := c.length_encode a
  obtain ⟨m', hadd, hfilled⟩ := h.add hlt (c.encode a) (by omega)
  rw [hwidth] at hadd hfilled
  exact ⟨m', hadd, hfilled⟩

theorem stringSize_clean {s : Bytes} (hs : (0 : UInt8) ∉ s) :
    stringSize (some s) = .ok (s.length + 1) := by
  rw [stringSize, pointee, ok_bind, strlen_terminated hs]
  rfl

theorem mObjectAddString_clean (m : MObject) {s : Bytes} (hs : (0 : UInt8) ∉ s) :
    mObjectAddString m (some s) = mObjectAdd m (s ++ [0]) (s ++ [0]).length := by
  rw [mObjectAddString, pointee, ok_bind, strlen_terminated hs, ok_bind, List.length_append]
  rfl

theorem MObject.Filled.addString (h : m.Filled written room) (hlt : written.length ≤ INT_MAX)
    {s : Bytes} (hs : (0 : UInt8) ∉ s) (hroom : s.length + 1 ≤ room) :
    ∃ m', mObjectAddString m (some s) = .ok m'
      ∧ m'.Filled (written ++ (s ++ [0])) (room - (s.length + 1)) := by
  rw [mObjectAddString_clean m hs]
  obtain ⟨m', hadd, hfilled⟩ := h.add hlt (s ++ [0]) (by simpa using hroom)
  exact ⟨m', hadd, by simpa using hfilled⟩

end Filled

/-! ## §2. The open record. -/

section OpenCall

variable {mem : Allocator} {call : Nat} {oCall : OCallRecord} {filepath : Bytes}

/-- The size `db_openCall_marshall` asks for. -/
def openSize (filepath : Bytes) : Nat :=
  codecTimeval.width + codecInt32.width + codecKey.width + (filepath.length + 1)

theorem openBytes_length (oCall : OCallRecord) (filepath : Bytes) :
    (openBytes oCall filepath).length = openSize filepath := by
  simp only [openBytes, openSize, List.length_append, Codec.length_encode, List.length_singleton]

/-- **`db_openCall_marshall`** writes the whole block it has allocated, and nothing else. -/
theorem dbOpenCallMarshall_eq {block : Bytes} (hpath : oCall.filepath = some filepath)
    (hclean : (0 : UInt8) ∉ filepath) (hblock : mallocBlock mem call (openSize filepath) = some block) :
    dbOpenCallMarshall mem call mObjectInit oCall
      = .ok (0, { buffer := some (openBytes oCall filepath)
                  size := Int32.ofNat (openSize filepath) }) := by
  have hts : codecTimeval.width = 16 := rfl
  have hint : codecInt32.width = 4 := rfl
  have hkey : codecKey.width = 24 := rfl
  have hmax : INT_MAX = 2147483647 := rfl
  have hsize : openSize filepath = 44 + (filepath.length + 1) := by
    unfold openSize
    omega
  have hlen1 : (codecTimeval.encode oCall.timeStamp).length = 16 := codecTimeval.length_encode _
  have hlen2 : (codecInt32.encode oCall.flag).length = 4 := codecInt32.length_encode _
  have hlen3 : (codecKey.encode oCall.eCallKey).length = 24 := codecKey.length_encode _
  -- three fields of fixed width and the string, each behind the one before
  obtain ⟨m1, e1, f1⟩ := (filled_malloc hblock).addField codecTimeval (by simp) (by omega)
    oCall.timeStamp
  obtain ⟨m2, e2, f2⟩ := f1.addField codecInt32 (by simp; omega) (by omega) oCall.flag
  obtain ⟨m3, e3, f3⟩ := f2.addField codecKey (by simp; omega) (by omega) oCall.eCallKey
  obtain ⟨m4, e4, f4⟩ := f3.addString (by simp; omega) hclean (by omega)
  obtain ⟨rest, rfl, hrest⟩ := f4
  have hnil : rest = [] := List.eq_nil_of_length_eq_zero (by omega)
  subst hnil
  unfold openSize at hblock
  simp only [dbOpenCallMarshall, mObjectInit, hpath, stringSize_clean hclean, ok_bind, hblock, e1,
    e2, e3, e4]
  rw [← openBytes_length oCall filepath]
  simp only [List.nil_append, List.append_nil, openBytes]
  rfl

/-- Where requests are granted, the record is marshalled. -/
theorem dbOpenCallMarshall_granted (hmem : mem.Total) (call : Nat)
    (hpath : oCall.filepath = some filepath) (hclean : (0 : UInt8) ∉ filepath) :
    dbOpenCallMarshall mem call mObjectInit oCall
      = .ok (0, { buffer := some (openBytes oCall filepath)
                  size := Int32.ofNat (openSize filepath) }) := by
  obtain ⟨block, hblock⟩ := Option.ne_none_iff_exists'.mp
    (mallocBlock_total hmem call (openSize filepath))
  exact dbOpenCallMarshall_eq hpath hclean hblock

/-- An object that holds a buffer is left as it is. -/
theorem dbOpenCallMarshall_busy {m : MObject} {buffer : Bytes} (h : m.buffer = some buffer) :
    dbOpenCallMarshall mem call m oCall = .ok (-1, m) := by
  simp only [dbOpenCallMarshall, h]

/-- **The open record comes back.**  Whenever the block is granted, all of it is written, reading
stays within it and restores every field, for a path of any length; the returned value is 0 unless
the length of the path, as an `int`, is -2. -/
theorem openCall_roundTrip {block : Bytes} (hpath : oCall.filepath = some filepath)
    (hclean : (0 : UInt8) ∉ filepath)
    (hblock : mallocBlock mem call (openSize filepath) = some block) (this : OCallRecord) :
    ∃ ret, dbOpenCallMarshall mem call mObjectInit oCall
        = .ok (0, { buffer := some (openBytes oCall filepath), size := Int32.ofNat block.length })
      ∧ (openBytes oCall filepath).length = block.length
      ∧ dbOpenCallUnmarshall this (openBytes oCall filepath) = .ok (ret, oCall)
      ∧ (ret = 0 ↔ Int32.ofNat (filepath.length + 1) ≠ -1)
      ∧ ∀ (m : MObject) (buffer : Bytes), m.buffer = some buffer →
          dbOpenCallMarshall mem call m oCall = .ok (-1, m) := by
  have hlen : block.length = openSize filepath := by
    obtain ⟨rest, hrest, hlength⟩ := filled_malloc hblock
    injection hrest with hbuffer
    rw [Option.some.injEq, List.nil_append] at hbuffer
    rw [hbuffer, hlength]
  have hsame : ({ oCall with filepath := some filepath } : OCallRecord) = oCall := by
    rw [← hpath]
  refine ⟨if Int32.ofNat (filepath.length + 1) = -1 then 1 else 0, ?_, ?_, ?_, ?_,
    fun m buffer h => dbOpenCallMarshall_busy h⟩
  · rw [hlen]
    exact dbOpenCallMarshall_eq hpath hclean hblock
  · rw [openBytes_length, hlen]
  · rw [dbOpenCallUnmarshall_eq this oCall hclean, hsame]
  · split <;> simp_all

/-- An open of `a/b`, into a block that held sevens. -/
theorem openCall_roundTrip_sample :
    ∃ ret, dbOpenCallMarshall (fun _ _ => some fun _ => 7) 0 mObjectInit
          ⟨1, ⟨42, 42⟩, ⟨⟨21, 21⟩, 0, 9⟩, some [97, 47, 98]⟩
        = .ok (0, ⟨some (openBytes ⟨1, ⟨42, 42⟩, ⟨⟨21, 21⟩, 0, 9⟩, some [97, 47, 98]⟩ [97, 47, 98]),
            48⟩) ∧ ret = (0 : Int) := by
  have hblock : mallocBlock (fun _ _ => some fun _ => 7) 0 (openSize [97, 47, 98])
      = some (List.replicate 48 7) := by decide
  have hpath : (⟨1, ⟨42, 42⟩, ⟨⟨21, 21⟩, 0, 9⟩, some [97, 47, 98]⟩ : OCallRecord).filepath
      = some [97, 47, 98] := rfl
  obtain ⟨ret, hmarshall, -, -, hret, -⟩ :=
    openCall_roundTrip hpath (by decide) hblock ⟨0, ⟨0, 0⟩, ⟨⟨0, 0⟩, 0, 0⟩, none⟩
  exact ⟨ret, hmarshall, hret.mpr (by decide)⟩

end OpenCall

/-! ## §3. The exec record. -/

section ExecCall

variable {mem : Allocator} {call : Nat} {eCall : ECallRecord} {cmdName args envArgs : Bytes}

/-- The fields of fixed width. -/
def execHeader (eCall : ECallRecord) : Bytes :=
  codecTimeval.encode eCall.timeStamp ++ codecInt32.encode eCall.pid ++ codecInt32.encode eCall.ppid

theorem execHeader_length (eCall : ECallRecord) : (execHeader eCall).length = 24 := by
  simp only [execHeader, List.length_append, Codec.length_encode]
  rfl

/-- The offsets of the second and the third string. -/
def argsOffset (cmdName : Bytes) : Int := intOffset (24 + (cmdName.length + 1))

def envOffset (cmdName args : Bytes) : Int :=
  intOffset (24 + (cmdName.length + 1) + (args.length + 1))

/-- The record can be read from the block into which it was written: all offsets are in the block,
the pieces agree where they overlap, and no returned length is taken for an error. -/
structure Legible (eCall : ECallRecord) (cmdName args envArgs : Bytes) : Prop where
  argsOffset : 0 ≤ argsOffset cmdName
  envOffset : 0 ≤ envOffset cmdName args
  counts : ∀ s ∈ [cmdName, args, envArgs], Int32.ofNat (s.length + 1) ≠ -1
  agree : [(0, execHeader eCall), (24, cmdName ++ [0]),
      ((DirSurveiller.argsOffset cmdName).toNat, args ++ [0]),
      ((DirSurveiller.envOffset cmdName args).toNat, envArgs ++ [0])].Pairwise
    fun p q => Agree p.1 p.2 q.1 q.2

/-- Where no offset wraps, the pieces do not overlap. -/
theorem legible_of_fits (hfits : RecordFits cmdName args)
    (hcounts : Int32.ofNat (envArgs.length + 1) ≠ -1) : Legible eCall cmdName args envArgs := by
  unfold RecordFits at hfits
  have hmax : INT_MAX = 2147483647 := rfl
  have hargs : argsOffset cmdName = (24 + (cmdName.length + 1) : Nat) := intOffset_of_le (by omega)
  have henv : envOffset cmdName args = (24 + (cmdName.length + 1) + (args.length + 1) : Nat) :=
    intOffset_of_le hfits
  have hheader := execHeader_length eCall
  refine ⟨by omega, by omega, ?_, ?_⟩
  · simp only [List.forall_mem_cons]
    exact ⟨ofNat_ne_neg_one (by omega), ofNat_ne_neg_one (by omega), hcounts, by simp⟩
  · simp only [List.pairwise_cons, List.mem_cons, List.not_mem_nil, or_false, forall_eq_or_imp,
      forall_eq, hargs, henv, Int.toNat_natCast, IsEmpty.forall_iff, implies_true, and_true,
      List.Pairwise.nil]
    refine ⟨⟨?_, ?_, ?_⟩, ⟨?_, ?_⟩, ?_⟩ <;> apply Agree.of_disjoint <;> left <;>
      simp only [List.length_append, List.length_singleton, hheader] <;> omega

/-- The block with `s` copied over it at `off`. -/
def overwrite (block : Bytes) (off : Nat) (s : Bytes) : Bytes :=
  block.take off ++ s ++ block.drop (off + s.length)

theorem overwrite_length {block s : Bytes} {off : Nat} (h : off + s.length ≤ block.length) :
    (overwrite block off s).length = block.length := by
  unfold overwrite
  simp only [List.length_append, List.length_take, List.length_drop]
  omega

/-- `db_execCall_marshall` up to the first string: the fields and that string stand at the head of a
block of the right length, and the other two strings are still to come. -/
theorem dbExecCallMarshall_front (hmem : mem.Total) (call : Nat)
    (hcmd : eCall.cmdName = some cmdName) (hargs : eCall.args = some args)
    (henv : eCall.envArgs = some envArgs)
    (hclean : ∀ s ∈ [cmdName, args, envArgs], (0 : UInt8) ∉ s) :
    ∃ m rest, m.buffer = some (execHeader eCall ++ (cmdName ++ [0]) ++ rest)
      ∧ (execHeader eCall ++ (cmdName ++ [0]) ++ rest).length
        = 24 + (cmdName.length + 1) + (args.length + 1) + (envArgs.length + 1)
      ∧ m.size = Int32.ofNat (24 + (cmdName.length + 1))
      ∧ dbExecCallMarshall mem call mObjectInit eCall
        = (do
            let m ← mObjectAdd m (args ++ [0]) (args ++ [0]).length
            let m ← mObjectAdd m (envArgs ++ [0]) (envArgs ++ [0]).length
            return (0, m)) := by
  simp only [List.forall_mem_cons] at hclean
  obtain ⟨hccmd, hcargs, hcenv, -⟩ := hclean
  have hts : codecTimeval.width = 16 := rfl
  have hint : codecInt32.width = 4 := rfl
  have hmax : INT_MAX = 2147483647 := rfl
  have hlen1 : (codecTimeval.encode eCall.timeStamp).length = 16 := codecTimeval.length_encode _
  have hlen2 : (codecInt32.encode eCall.pid).length = 4 := codecInt32.length_encode _
  have hlen3 : (codecInt32.encode eCall.ppid).length = 4 := codecInt32.length_encode _
  obtain ⟨block, hblock⟩ : ∃ block, mallocBlock mem call (codecTimeval.width + codecInt32.width
      + codecInt32.width + (cmdName.length + 1) + (args.length + 1) + (envArgs.length + 1))
      = some block := Option.ne_none_iff_exists'.mp (mallocBlock_total hmem _ _)
  obtain ⟨m1, e1, f1⟩ := (filled_malloc hblock).addField codecTimeval (by simp) (by omega)
    eCall.timeStamp
  obtain ⟨m2, e2, f2⟩ := f1.addField codecInt32 (by simp; omega) (by omega) eCall.pid
  obtain ⟨m3, e3, f3⟩ := f2.addField codecInt32 (by simp; omega) (by omega) eCall.ppid
  obtain ⟨m4, e4, f4⟩ := f3.addString (by simp; omega) hccmd (by omega)
  obtain ⟨rest, hm4, hrest⟩ := f4
  have hfront : [] ++ codecTimeval.encode eCall.timeStamp ++ codecInt32.encode eCall.pid
      ++ codecInt32.encode eCall.ppid = execHeader eCall := rfl
  rw [hfront] at hm4
  have hwritten : (execHeader eCall ++ (cmdName ++ [0])).length = 24 + (cmdName.length + 1) := by
    simp only [List.length_append, execHeader_length, List.length_singleton]
  rw [hwritten] at hm4
  refine ⟨m4, rest, by rw [hm4], ?_, by rw [hm4], ?_⟩
  · rw [List.length_append, hwritten]
    omega
  · simp only [dbExecCallMarshall, mObjectInit, hcmd, hargs, henv, stringSize_clean hccmd,
      stringSize_clean hcargs, stringSize_clean hcenv, ok_bind, hblock, e1, e2, e3, e4,
      mObjectAddString_clean _ hcargs, mObjectAddString_clean _ hcenv]

/-- What `db_execCall_marshall` does with strings of any length: the first string lands behind the
fields, the other two at their offsets, if these are in the block. -/
theorem dbExecCallMarshall_cases (hmem : mem.Total) (call : Nat) (hcmd : eCall.cmdName = some cmdName)
    (hargs : eCall.args = some args) (henv : eCall.envArgs = some envArgs)
    (hclean : ∀ s ∈ [cmdName, args, envArgs], (0 : UInt8) ∉ s) :
    (∃ rest m, 0 ≤ argsOffset cmdName ∧ 0 ≤ envOffset cmdName args
      ∧ (argsOffset cmdName).toNat + (args.length + 1)
          ≤ (execHeader eCall ++ (cmdName ++ [0]) ++ rest).length
      ∧ (envOffset cmdName args).toNat + (envArgs.length + 1)
          ≤ (execHeader eCall ++ (cmdName ++ [0]) ++ rest).length
      ∧ dbExecCallMarshall mem call mObjectInit eCall = .ok (0, m)
      ∧ m.buffer = some (overwrite
          (overwrite (execHeader eCall ++ (cmdName ++ [0]) ++ rest)
            (argsOffset cmdName).toNat (args ++ [0]))
          (envOffset cmdName args).toNat (envArgs ++ [0])))
    ∨ ((argsOffset cmdName < 0 ∨ envOffset cmdName args < 0)
      ∧ dbExecCallMarshall mem call mObjectInit eCall = .error .outOfRange) := by
  obtain ⟨m4, rest, hbuffer, hlength, hsize, hcode⟩ :=
    dbExecCallMarshall_front hmem call hcmd hargs henv hclean
  rw [hcode]
  -- an offset is an `int`: it is the length, or less by a multiple of 2^32
  have hargsLe : argsOffset cmdName ≤ (24 + (cmdName.length + 1) : Nat) := intOffset_le _
  have henvLe : envOffset cmdName args ≤ (24 + (cmdName.length + 1) + (args.length + 1) : Nat) :=
    intOffset_le _
  by_cases hneg : argsOffset cmdName < 0
  · right
    rw [mObjectAdd_negative hbuffer hsize hneg]
    exact ⟨.inl hneg, rfl⟩
  have hnonneg : 0 ≤ argsOffset cmdName := by omega
  have hroom : (argsOffset cmdName).toNat + (args.length + 1)
      ≤ (execHeader eCall ++ (cmdName ++ [0]) ++ rest).length := by omega
  have hroom1 : (argsOffset cmdName).toNat + (args ++ [0]).length
      ≤ (execHeader eCall ++ (cmdName ++ [0]) ++ rest).length := by simpa using hroom
  rw [mObjectAdd_over (args ++ [0]) hbuffer hsize hnonneg hroom1, ok_bind]
  have hsize2 : (24 + (cmdName.length + 1) + (args ++ [0]).length)
      = 24 + (cmdName.length + 1) + (args.length + 1) := by simp
  rw [hsize2]
  by_cases hneg' : envOffset cmdName args < 0
  · right
    rw [mObjectAdd_negative rfl rfl hneg']
    exact ⟨.inr hneg', rfl⟩
  have hnonneg' : 0 ≤ envOffset cmdName args := by omega
  left
  have hroom' : (envOffset cmdName args).toNat + (envArgs.length + 1)
      ≤ (execHeader eCall ++ (cmdName ++ [0]) ++ rest).length := by omega
  have hroom2 : (envOffset cmdName args).toNat + (envArgs ++ [0]).length
      ≤ (overwrite (execHeader eCall ++ (cmdName ++ [0]) ++ rest)
        (argsOffset cmdName).toNat (args ++ [0])).length := by
    rw [overwrite_length hroom1]
    simpa using hroom'
  have hlast := mObjectAdd_over (m := ⟨some (overwrite (execHeader eCall ++ (cmdName ++ [0]) ++ rest)
    (argsOffset cmdName).toNat (args ++ [0])), _⟩) (envArgs ++ [0]) rfl rfl hnonneg' hroom2
  exact ⟨rest, _, hnonneg, hnonneg', hroom, hroom',
    congrArg (· >>= fun m => Except.ok (0, m)) hlast, rfl⟩

/-- A field read from a block is in it. -/
theorem readField_ok {α : Type} {c : Codec α} (hc : c.Exact) {block : Bytes} {pos : Nat} {a : α}
    (h : readField c block pos = .ok a) : Carries block pos (c.encode a) := by
  unfold readField at h
  split at h
  next hlen =>
    cases h
    unfold Carries
    rw [hc _ (by rw [List.length_drop]; omega)]
    exact List.take_prefix _ _
  next => cases h

theorem getstring_ok {block s : Bytes} {pos : Nat} {n : Int32}
    (h : mObjectBufferGetstring block pos = .ok (s, n)) :
    Carries block pos (s ++ [0]) ∧ n = Int32.ofNat (s.length + 1) := by
  unfold mObjectBufferGetstring at h
  obtain ⟨s', hs', h⟩ := bind_ok h
  cases h
  exact ⟨(cstring_inv hs').2, rfl⟩

theorem codecInt64_exact : codecInt64.Exact := Codec.ofNat_exact fun n hn => by simpa using hn

theorem codecInt32_exact : codecInt32.Exact := Codec.ofNat_exact fun n hn => by simpa using hn

theorem codecTimeval_exact : codecTimeval.Exact :=
  (codecInt64_exact.pair codecInt64_exact).map fun _ => rfl

/-- A block that was read successfully carries what was read, at the positions the returned lengths
lead to. -/
theorem unmarshall_ok {this r : ECallRecord} {block : Bytes}
    (h : dbExecCallUnmarshall this block = .ok (0, r)) :
    ∃ cmdName args envArgs, r.cmdName = some cmdName ∧ r.args = some args
      ∧ r.envArgs = some envArgs ∧ r.parentEcall = this.parentEcall
      ∧ (∀ s ∈ [cmdName, args, envArgs], Int32.ofNat (s.length + 1) ≠ -1)
      ∧ ExecBlock block (advance 24 (Int32.ofNat (cmdName.length + 1)))
          (advance (advance 24 (Int32.ofNat (cmdName.length + 1))) (Int32.ofNat (args.length + 1)))
          r cmdName args envArgs := by
  unfold dbExecCallUnmarshall at h
  obtain ⟨timeStamp, h0, h⟩ := bind_ok h
  obtain ⟨pid, h1, h⟩ := bind_ok h
  obtain ⟨ppid, h2, h⟩ := bind_ok h
  obtain ⟨⟨cmdName, n⟩, h3, h⟩ := bind_ok h
  obtain ⟨c3, rfl⟩ := getstring_ok h3
  dsimp only at h
  -- a length of -1 is taken for an error, after which no string is read
  by_cases hn : Int32.ofNat (cmdName.length + 1) = -1
  · rw [if_pos hn] at h
    cases h
  rw [if_neg hn] at h
  obtain ⟨⟨args, n⟩, h4, h⟩ := bind_ok h
  obtain ⟨c4, rfl⟩ := getstring_ok h4
  dsimp only at h
  by_cases hn' : Int32.ofNat (args.length + 1) = -1
  · rw [if_pos hn'] at h
    cases h
  rw [if_neg hn'] at h
  obtain ⟨⟨envArgs, n⟩, h5, h⟩ := bind_ok h
  obtain ⟨c5, rfl⟩ := getstring_ok h5
  dsimp only at h
  by_cases hn'' : Int32.ofNat (envArgs.length + 1) = -1
  · rw [if_pos hn''] at h
    cases h
  rw [if_neg hn''] at h
  cases h
  refine ⟨cmdName, args, envArgs, rfl, rfl, rfl, rfl, ?_, ?_⟩
  · simp only [List.forall_mem_cons]
    exact ⟨hn, hn', hn'', by simp⟩
  · exact ⟨readField_ok codecTimeval_exact h0, readField_ok codecInt32_exact h1,
      readField_ok codecInt32_exact h2, c3, c4, c5⟩

/-- Every field is the same; the padding of a key is not a field. -/
structure SameRecord (r r' : ECallRecord) : Prop where
  timeStamp : r.timeStamp = r'.timeStamp
  pid : r.pid = r'.pid
  ppid : r.ppid = r'.ppid
  parentTimeStamp : r.parentEcall.timeStamp = r'.parentEcall.timeStamp
  parentPid : r.parentEcall.pid = r'.parentEcall.pid
  cmdName : r.cmdName = r'.cmdName
  args : r.args = r'.args
  envArgs : r.envArgs = r'.envArgs

/-- A fresh object takes the record, and a record prepared by `db_execCall_init` gets it back. -/
def RoundTrips (mem : Allocator) (call : Nat) (junk eCall : ECallRecord) : Prop :=
  ∃ m block r, dbExecCallMarshall mem call mObjectInit eCall = .ok (0, m)
    ∧ m.buffer = some block
    ∧ dbExecCallUnmarshall (dbExecCallInit junk) block = .ok (0, r) ∧ SameRecord r eCall

/-- The fields of fixed width, as one piece. -/
theorem carries_execHeader {block : Bytes} :
    Carries block 0 (execHeader eCall) ↔ Carries block 0 (codecTimeval.encode eCall.timeStamp)
      ∧ Carries block 16 (codecInt32.encode eCall.pid)
      ∧ Carries block 20 (codecInt32.encode eCall.ppid) := by
  unfold execHeader
  rw [carries_append, carries_append, List.length_append, Codec.length_encode, Codec.length_encode,
    and_assoc]
  rfl

/-- **The exec record comes back** iff it names no parent and can be read from where it was
written. -/
theorem execCall_roundTrip_iff (hmem : mem.Total) (call : Nat) (junk : ECallRecord)
    (hcmd : eCall.cmdName = some cmdName) (hargs : eCall.args = some args)
    (henv : eCall.envArgs = some envArgs)
    (hclean : ∀ s ∈ [cmdName, args, envArgs], (0 : UInt8) ∉ s) :
    RoundTrips mem call junk eCall
      ↔ (eCall.parentEcall.timeStamp = ⟨0, 0⟩ ∧ eCall.parentEcall.pid = 0)
        ∧ Legible eCall cmdName args envArgs := by
  have hcases := dbExecCallMarshall_cases hmem call hcmd hargs henv hclean
  simp only [List.forall_mem_cons] at hclean
  obtain ⟨hccmd, hcargs, hcenv, -⟩ := hclean
  have hoff : intOffset 24 = (24 : Nat) := intOffset_of_le (by decide)
  -- where the reader looks for the strings is where the writer has put them
  have hadv : 0 ≤ argsOffset cmdName →
      advance 24 (Int32.ofNat (cmdName.length + 1)) = (argsOffset cmdName).toNat := by
    intro hpos
    have := advance_intOffset (n := 24) (k := cmdName.length + 1) (by omega) hpos
    rwa [hoff] at this
  have hadv' : 0 ≤ argsOffset cmdName → 0 ≤ envOffset cmdName args →
      advance (argsOffset cmdName).toNat (Int32.ofNat (args.length + 1))
        = (envOffset cmdName args).toNat := fun hpos hpos' => advance_intOffset hpos hpos'
  have hheader := execHeader_length eCall
  constructor
  · rintro ⟨m, block, r, hmarshall, hbuffer, hread, hsame⟩
    obtain ⟨cmd', args', env', hc, ha, he, hparent, hcounts, hblock⟩ := unmarshall_ok hread
    rw [hsame.cmdName, hcmd, Option.some.injEq] at hc
    rw [hsame.args, hargs, Option.some.injEq] at ha
    rw [hsame.envArgs, henv, Option.some.injEq] at he
    subst hc ha he
    refine ⟨⟨?_, ?_⟩, ?_⟩
    · rw [← hsame.parentTimeStamp, hparent]
      rfl
    · rw [← hsame.parentPid, hparent]
      rfl
    rcases hcases with ⟨rest, m', hpos, hpos', -⟩ | ⟨-, hfault⟩
    · rw [hadv hpos, hadv' hpos hpos'] at hblock
      have hfront : Carries block 0 (execHeader eCall) := by
        rw [carries_execHeader, ← hsame.timeStamp, ← hsame.pid, ← hsame.ppid]
        exact ⟨hblock.timeStamp, hblock.pid, hblock.ppid⟩
      -- all pieces are in one block, so they agree
      refine ⟨hpos, hpos', hcounts, ?_⟩
      simp only [List.pairwise_cons, List.mem_cons, List.not_mem_nil, or_false,
        forall_eq_or_imp, forall_eq, IsEmpty.forall_iff, implies_true, and_true, List.Pairwise.nil]
      exact ⟨⟨hfront.agree hblock.cmdName, hfront.agree hblock.args, hfront.agree hblock.envArgs⟩,
        ⟨hblock.cmdName.agree hblock.args, hblock.cmdName.agree hblock.envArgs⟩,
        hblock.args.agree hblock.envArgs⟩
    · rw [hfault] at hmarshall
      cases hmarshall
  · rintro ⟨⟨htime, hpid⟩, hleg⟩
    rcases hcases with ⟨rest, m, hpos, hpos', hroom, hroom', hmarshall, hbuffer⟩ | ⟨hneg, -⟩
    · have hagree := hleg.agree
      simp only [List.pairwise_cons, List.mem_cons, List.not_mem_nil, or_false, forall_eq_or_imp,
        forall_eq, IsEmpty.forall_iff, implies_true, and_true, List.Pairwise.nil] at hagree
      obtain ⟨⟨-, hha, hhe⟩, ⟨hca, hce⟩, hae⟩ := hagree
      have hroom1 : (argsOffset cmdName).toNat + (args ++ [0]).length
          ≤ (execHeader eCall ++ (cmdName ++ [0]) ++ rest).length := by simpa using hroom
      have hroom2 : (envOffset cmdName args).toNat + (envArgs ++ [0]).length
          ≤ (overwrite (execHeader eCall ++ (cmdName ++ [0]) ++ rest)
            (argsOffset cmdName).toNat (args ++ [0])).length := by
        rw [overwrite_length hroom1]
        simpa using hroom'
      have hstart := carries_self (execHeader eCall ++ (cmdName ++ [0]) ++ rest)
      rw [carries_append, carries_append, hheader] at hstart
      -- each copy leaves the earlier pieces as they are
      have hfront := (hstart.1.1.memcpy hroom1 hha).memcpy hroom2 hhe
      have hname := (hstart.1.2.memcpy hroom1 hca).memcpy hroom2 hce
      have hlist := (memcpy_carries hroom1).memcpy hroom2 hae
      have hlast := memcpy_carries hroom2
      obtain ⟨h0, h1, h2⟩ := carries_execHeader.mp hfront
      refine ⟨m, _, _, hmarshall, hbuffer, unmarshall_block (dbExecCallInit junk)
        ⟨h0, h1, h2, hname, hlist, hlast⟩ hccmd hcargs hcenv hleg.counts (hadv hpos)
        (hadv' hpos hpos'), rfl, rfl, rfl, htime.symm, hpid.symm, hcmd.symm, hargs.symm, henv.symm⟩
    · have := hleg.argsOffset
      have := hleg.envOffset
      omega

/-- Three short strings and no parent. -/
theorem execCall_roundTrip_sample :
    RoundTrips (fun _ _ => some fun _ => 7) 0 ⟨9, 9, ⟨⟨9, 9⟩, 9, 9⟩, ⟨9, 9⟩, none, none, none⟩
      ⟨42, 21, ⟨⟨0, 0⟩, 0, 3⟩, ⟨42, 42⟩, some [97], some [98, 99], some []⟩ := by
  have hmem : Allocator.Total fun _ _ => some fun _ => 7 := fun _ _ => rfl
  refine (execCall_roundTrip_iff hmem 0 _ rfl rfl rfl (by decide)).mpr ⟨⟨rfl, rfl⟩, ?_⟩
  exact legible_of_fits (by unfold RecordFits; decide) (by decide)

/-- **A parent does not come back**: the keys of the repository's own test. -/
theorem execCall_parent_lost :
    ¬ RoundTrips (fun _ _ => some fun _ => 0) 0 ⟨0, 0, ⟨⟨0, 0⟩, 0, 0⟩, ⟨0, 0⟩, none, none, none⟩
      ⟨42, 21, ⟨⟨21, 21⟩, 21, 0⟩, ⟨42, 42⟩, some [97], some [98, 99], some []⟩ := by
  unfold RoundTrips
  rintro ⟨m, block, r, hmarshall, hbuffer, hread, hsame⟩
  obtain ⟨-, -, -, -, -, -, hparent, -⟩ := unmarshall_ok hread
  have hpid := hsame.parentPid
  rw [hparent] at hpid
  exact absurd hpid (by decide)

end ExecCall

end DirSurveiller
