/-
  DirSurveiller.Database.OpenKey — the primary key of an open call.

  `db_add_openCall` hands all `sizeof(db_oCallKey)` bytes of a local variable to the database.
  `db_openCall_genKey` writes the time stamp and the last characters of the path with a NUL; the rest
  of the suffix, and the padding behind it, is what the stack held before.

    * `open_key_faithful_iff` — the key is a function of the record exactly where this residue is.
-/
import DirSurveiller.Database.Store
import DirSurveiller.Database.RoundTrip

namespace DirSurveiller

open CMachine Outcome

/-! ## §1. What is written, and what is left. -/

/-- `sizeof(db_oCallKey)`: the time stamp and the suffix, up to a multiple of eight. -/
def sizeofOCallKey : Nat := 120

/-- The last `min(99, length)` characters. -/
def pathSuffix (filepath : Bytes) : Bytes :=
  filepath.drop (filepath.length - (MaxPathSuffixLength - 1))

/-- The bytes `db_openCall_genKey` writes. -/
def keyWritten (oCall : OCallRecord) (filepath : Bytes) : Bytes :=
  codecTimeval.encode oCall.timeStamp ++ (pathSuffix filepath ++ [0])

/-- What stays of the previous contents. -/
def keyResidue (prior filepath : Bytes) : Bytes :=
  prior.drop (codecTimeval.width + ((pathSuffix filepath).length + 1))

section Key

variable {oCall oCall' : OCallRecord} {filepath filepath' prior prior' key key' : Bytes}

theorem pathSuffix_length (filepath : Bytes) :
    (pathSuffix filepath).length ≤ MaxPathSuffixLength - 1 := by
  unfold pathSuffix MaxPathSuffixLength
  rw [List.length_drop]
  omega

theorem pathSuffix_clean (hclean : (0 : UInt8) ∉ filepath) : (0 : UInt8) ∉ pathSuffix filepath :=
  fun hm => hclean (List.mem_of_mem_drop hm)

/-- **`gen_filepath_suffix`**: both branches write the last characters, for every length. -/
theorem genFilepathSuffix_eq (hclean : (0 : UInt8) ∉ filepath) :
    genFilepathSuffix (filepath ++ [0]) = .ok (pathSuffix filepath ++ [0]) := by
  have hstart : (if filepath.length + 1 < MaxPathSuffixLength then 0
      else filepath.length + 1 - MaxPathSuffixLength)
      = filepath.length - (MaxPathSuffixLength - 1) := by
    unfold MaxPathSuffixLength
    split <;> omega
  have htext : cstring ((filepath ++ [0]).drop (filepath.length - (MaxPathSuffixLength - 1)))
      = .ok (pathSuffix filepath) := by
    rw [List.drop_append_of_le_length (Nat.sub_le _ _)]
    exact cstring_terminated (pathSuffix_clean hclean)
  unfold genFilepathSuffix
  rw [strlen_terminated hclean, ok_bind]
  dsimp only
  rw [hstart, htext, ok_bind, List.take_of_length_le (pathSuffix_length filepath)]
  rfl

/-- **`db_openCall_genKey`**: what is written, then what was there. -/
theorem dbOpenCallGenKey_eq (prior : Bytes) (hpath : oCall.filepath = some filepath)
    (hclean : (0 : UInt8) ∉ filepath) :
    dbOpenCallGenKey prior oCall = .ok (keyWritten oCall filepath ++ keyResidue prior filepath) := by
  have hlen : (keyWritten oCall filepath).length
      = codecTimeval.width + ((pathSuffix filepath).length + 1) := by
    unfold keyWritten
    rw [List.length_append, Codec.length_encode, List.length_append, List.length_singleton]
  unfold dbOpenCallGenKey
  rw [hpath, pointee, ok_bind, genFilepathSuffix_eq hclean, ok_bind]
  show Except.ok (keyWritten oCall filepath ++ prior.drop (keyWritten oCall filepath).length) = _
  rw [hlen]
  rfl

/-- **`db_add_openCall`** stores what has been marshalled, unless there is an entry with this key. -/
theorem dbAddOpenCall_eq {mem : Allocator} {call : Nat} {m : MObject} {db : DbManager}
    {issuer : ExecRef} {origin : OpenRef} (hkey : dbOpenCallGenKey prior oCall = .ok key)
    (hm : dbOpenCallMarshall mem call mObjectInit oCall = .ok (0, m)) :
    dbAddOpenCall mem call prior db oCall issuer origin
      = .ok (if db.openCallDB.any fun e => e.key = key then (DB_KEYEXIST, db)
          else (0, { db with openCallDB := db.openCallDB ++ [⟨key, m.data, issuer, origin⟩] })) := by
  unfold dbAddOpenCall
  rw [hkey, ok_bind, hm, ok_bind]
  dsimp only
  split <;> rfl

/-- The key fills the struct. -/
theorem key_length (hprior : prior.length = sizeofOCallKey) :
    (keyWritten oCall filepath ++ keyResidue prior filepath).length = sizeofOCallKey := by
  have := pathSuffix_length filepath
  have hwidth : codecTimeval.width = 16 := rfl
  unfold MaxPathSuffixLength at this
  unfold keyWritten keyResidue sizeofOCallKey at *
  simp only [List.length_append, Codec.length_encode, List.length_drop, List.length_singleton]
  omega

/-- What a NUL ends can be read off what begins with it. -/
theorem append_nul_inj {s s' rest rest' : Bytes} (hs : (0 : UInt8) ∉ s) (hs' : (0 : UInt8) ∉ s') :
    s ++ 0 :: rest = s' ++ 0 :: rest' ↔ s = s' ∧ rest = rest' := by
  constructor
  · intro h
    have hread : cstring (s ++ 0 :: rest) = .ok s := cstring_terminated hs
    rw [h, cstring_terminated hs'] at hread
    obtain rfl := Except.ok.inj hread
    exact ⟨rfl, (List.cons.inj (List.append_cancel_left h)).2⟩
  · intro h
    rw [h.1, h.2]

/-- The time stamp can be read off its bytes. -/
theorem encode_timeval_inj {t t' : Timeval} (h : codecTimeval.encode t = codecTimeval.encode t') :
    t = t' := by
  rw [← codecTimeval.decode_encode t [], h, codecTimeval.decode_encode]

/-- The time stamp and the suffix agree. -/
def SameKeyFields (oCall oCall' : OCallRecord) (filepath filepath' : Bytes) : Prop :=
  oCall.timeStamp = oCall'.timeStamp ∧ pathSuffix filepath = pathSuffix filepath'

/-- Two keys are the same iff what is written is, and what is left. -/
theorem key_eq_iff (hclean : (0 : UInt8) ∉ filepath) (hclean' : (0 : UInt8) ∉ filepath') :
    keyWritten oCall filepath ++ keyResidue prior filepath
        = keyWritten oCall' filepath' ++ keyResidue prior' filepath'
      ↔ SameKeyFields oCall oCall' filepath filepath'
        ∧ keyResidue prior filepath = keyResidue prior' filepath' := by
  have hshape : ∀ (o : OCallRecord) (path rest : Bytes), keyWritten o path ++ rest
      = codecTimeval.encode o.timeStamp ++ (pathSuffix path ++ 0 :: rest) := by
    intro o path rest
    unfold keyWritten
    simp only [List.append_assoc, List.singleton_append]
  unfold SameKeyFields
  rw [hshape, hshape]
  constructor
  · intro h
    obtain ⟨htime, hrest⟩ := List.append_inj h
      (by rw [codecTimeval.length_encode, codecTimeval.length_encode])
    obtain ⟨hsuffix, hresidue⟩ :=
      (append_nul_inj (pathSuffix_clean hclean) (pathSuffix_clean hclean')).mp hrest
    exact ⟨⟨encode_timeval_inj htime, hsuffix⟩, hresidue⟩
  · intro h
    obtain ⟨⟨htime, hsuffix⟩, hresidue⟩ := h
    rw [htime, hsuffix, hresidue]

end Key

/-! ## §2. The key as a function of the record. -/

/-- The bytes handed to the database for two records, over two previous contents of the stack, are
identical iff the records agree in time stamp and suffix. -/
def KeyFaithful (prior prior' : Bytes) (oCall oCall' : OCallRecord) (filepath filepath' : Bytes) :
    Prop :=
  ∃ key key', dbOpenCallGenKey prior oCall = .ok key ∧ dbOpenCallGenKey prior' oCall' = .ok key'
    ∧ key.length = sizeofOCallKey ∧ key'.length = sizeofOCallKey
    ∧ (key = key' ↔ SameKeyFields oCall oCall' filepath filepath')

/-- Where two records agree in time stamp and suffix, what is left of the previous contents agrees,
too. -/
def ResidueAgrees (prior prior' : Bytes) (oCall oCall' : OCallRecord) (filepath filepath' : Bytes) :
    Prop :=
  SameKeyFields oCall oCall' filepath filepath' →
    keyResidue prior filepath = keyResidue prior' filepath'

/-- A record is added, and added once more. -/
def addTwice (mem : Allocator) (call : Nat) (prior prior' : Bytes) (db : DbManager)
    (oCall : OCallRecord) (issuer : ExecRef) (origin : OpenRef) : Except Fault (Int × Int) := do
  let (ret, db) ← dbAddOpenCall mem call prior db oCall issuer origin
  let (ret', _) ← dbAddOpenCall mem (call + 1) prior' db oCall issuer origin
  return (ret, ret')

/-- The second of two adds is refused iff the two keys are the same, where the second key is new. -/
theorem addTwice_refused_iff {mem : Allocator} {call : Nat} {prior prior' key key' filepath : Bytes}
    {db : DbManager} {oCall : OCallRecord} {issuer : ExecRef} {origin : OpenRef} (hmem : mem.Total)
    (hpath : oCall.filepath = some filepath) (hclean : (0 : UInt8) ∉ filepath)
    (hkey : dbOpenCallGenKey prior oCall = .ok key) (hkey' : dbOpenCallGenKey prior' oCall = .ok key')
    (hfresh : ∀ e ∈ db.openCallDB, key' ≠ e.key) :
    (∃ ret, addTwice mem call prior prior' db oCall issuer origin = .ok (ret, DB_KEYEXIST))
      ↔ key = key' := by
  have hm := dbOpenCallMarshall_granted hmem call hpath hclean
  have hm' := dbOpenCallMarshall_granted hmem (call + 1) hpath hclean
  have hnew : (db.openCallDB.any fun e => e.key = key') = false := by
    rw [List.any_eq_false]
    intro e he
    simpa using (hfresh e he).symm
  unfold addTwice
  rw [dbAddOpenCall_eq hkey hm, ok_bind]
  by_cases hold : (db.openCallDB.any fun e => e.key = key) = true
  · -- the first key was stored before, so it is not the second
    rw [if_pos hold]
    dsimp only
    rw [dbAddOpenCall_eq hkey' hm', hnew]
    constructor
    · intro h
      obtain ⟨ret, h⟩ := h
      exact absurd (show (0 : Int) = DB_KEYEXIST from (Prod.mk.inj (Except.ok.inj h)).2) (by decide)
    · intro h
      rw [h, hnew] at hold
      cases hold
  · rw [if_neg hold]
    dsimp only
    rw [dbAddOpenCall_eq hkey' hm']
    dsimp only
    -- the second key is looked for among the old ones and in the entry of the first
    rw [List.any_append, hnew, Bool.false_or]
    constructor
    · intro h
      obtain ⟨ret, h⟩ := h
      split at h
      next hin => simpa using hin
      next =>
        exact absurd (show (0 : Int) = DB_KEYEXIST from (Prod.mk.inj (Except.ok.inj h)).2) (by decide)
    · intro h
      rw [if_pos (by simp [h])]
      exact ⟨0, rfl⟩

/-- **The primary key is a function of the record** exactly where the residue is; and a record that
is added twice is refused exactly where the residue is the same, unless its second key was stored
before. -/
theorem open_key_faithful_iff {oCall oCall' : OCallRecord}
    {filepath filepath' prior prior' : Bytes} (hprior : prior.length = sizeofOCallKey)
    (hprior' : prior'.length = sizeofOCallKey) (hpath : oCall.filepath = some filepath)
    (hpath' : oCall'.filepath = some filepath') (hclean : (0 : UInt8) ∉ filepath)
    (hclean' : (0 : UInt8) ∉ filepath') :
    (KeyFaithful prior prior' oCall oCall' filepath filepath'
        ↔ ResidueAgrees prior prior' oCall oCall' filepath filepath')
    ∧ ∀ (mem : Allocator) (call : Nat) (db : DbManager) (issuer : ExecRef) (origin : OpenRef),
        mem.Total → (∀ e ∈ db.openCallDB, dbOpenCallGenKey prior' oCall ≠ .ok e.key) →
        ((∃ ret, addTwice mem call prior prior' db oCall issuer origin = .ok (ret, DB_KEYEXIST))
          ↔ ResidueAgrees prior prior' oCall oCall filepath filepath) := by
  have hkey := dbOpenCallGenKey_eq prior hpath hclean
  have hkey' := dbOpenCallGenKey_eq prior' hpath' hclean'
  have hagain := dbOpenCallGenKey_eq prior' hpath hclean
  constructor
  · constructor
    · intro h hsame
      obtain ⟨key, key', hk, hk', -, -, hiff⟩ := h
      obtain rfl := Except.ok.inj (hkey.symm.trans hk)
      obtain rfl := Except.ok.inj (hkey'.symm.trans hk')
      exact ((key_eq_iff hclean hclean').mp (hiff.mpr hsame)).2
    · intro h
      refine ⟨_, _, hkey, hkey', key_length hprior, key_length hprior', ?_⟩
      rw [key_eq_iff hclean hclean']
      exact ⟨fun hand => hand.1, fun hsame => ⟨hsame, h hsame⟩⟩
  · intro mem call db issuer origin hmem hfresh
    rw [hagain] at hfresh
    -- the record is the same both times, so only the residue can tell the keys apart
    have hsame : SameKeyFields oCall oCall filepath filepath := ⟨rfl, rfl⟩
    have hequal : keyWritten oCall filepath ++ keyResidue prior filepath
        = keyWritten oCall filepath ++ keyResidue prior' filepath
        ↔ ResidueAgrees prior prior' oCall oCall filepath filepath := by
      unfold ResidueAgrees
      rw [key_eq_iff hclean hclean]
      exact ⟨fun h _ => h.2, fun h => ⟨hsame, h hsame⟩⟩
    rw [← hequal]
    exact addTwice_refused_iff hmem hpath hclean hkey hagain fun e he h => hfresh e he (by rw [h])

/-- Two records of one path and one time, where the stack held the same. -/
theorem open_key_faithful_sample :
    KeyFaithful (List.replicate 120 7) (List.replicate 120 7) ⟨1, ⟨5, 0⟩, ⟨⟨4, 0⟩, 2, 0⟩, some [97]⟩
        ⟨2, ⟨5, 0⟩, ⟨⟨4, 0⟩, 3, 0⟩, some [97]⟩ [97] [97]
      ∧ ∃ ret, addTwice (fun _ _ => some fun _ => 0) 0 (List.replicate 120 7) (List.replicate 120 7)
          .empty ⟨1, ⟨5, 0⟩, ⟨⟨4, 0⟩, 2, 0⟩, some [97]⟩ 0 0 = .ok (ret, DB_KEYEXIST) := by
  have hmem : Allocator.Total fun _ _ => some fun _ => 0 := fun _ _ => rfl
  have hlen : (List.replicate 120 (7 : UInt8)).length = sizeofOCallKey := rfl
  have h := open_key_faithful_iff hlen hlen
    (show (⟨1, ⟨5, 0⟩, ⟨⟨4, 0⟩, 2, 0⟩, some [97]⟩ : OCallRecord).filepath = some [97] from rfl)
    (show (⟨2, ⟨5, 0⟩, ⟨⟨4, 0⟩, 3, 0⟩, some [97]⟩ : OCallRecord).filepath = some [97] from rfl)
    (by decide) (by decide)
  refine ⟨h.1.mpr fun _ => rfl, (h.2 _ 0 .empty 0 0 hmem ?_).mpr fun _ => rfl⟩
  intro e he
  exact absurd he List.not_mem_nil

/-- **One record, two keys**: the path `a`, where the stack held zeros and where it held ones; the
record is stored twice. -/
theorem open_key_of_stack :
    ¬ KeyFaithful (List.replicate 120 0) (List.replicate 120 1)
        ⟨1, ⟨5, 0⟩, ⟨⟨4, 0⟩, 2, 0⟩, some [97]⟩ ⟨1, ⟨5, 0⟩, ⟨⟨4, 0⟩, 2, 0⟩, some [97]⟩ [97] [97]
      ∧ addTwice (fun _ _ => some fun _ => 0) 0 (List.replicate 120 0) (List.replicate 120 1) .empty
          ⟨1, ⟨5, 0⟩, ⟨⟨4, 0⟩, 2, 0⟩, some [97]⟩ 0 0 = .ok (0, 0) := by
  refine ⟨?_, by rfl⟩
  intro h
  obtain ⟨key, key', hkey, hkey', -, -, hiff⟩ := h
  have hequal := hiff.mpr ⟨rfl, rfl⟩
  have hne : dbOpenCallGenKey (List.replicate 120 0) ⟨1, ⟨5, 0⟩, ⟨⟨4, 0⟩, 2, 0⟩, some [97]⟩
      ≠ dbOpenCallGenKey (List.replicate 120 1) ⟨1, ⟨5, 0⟩, ⟨⟨4, 0⟩, 2, 0⟩, some [97]⟩ := by
    decide +kernel
  rw [hkey, hkey', hequal] at hne
  exact hne rfl

end DirSurveiller
