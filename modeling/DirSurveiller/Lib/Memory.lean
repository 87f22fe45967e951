/-
  DirSurveiller.Lib.Memory — the C machine: faults, and blocks of bytes.

  A block is the list of its allocated bytes.  An access outside a block is a `Fault`, so a program
  that never faults stays inside its blocks.  What `malloc` and `realloc` answer is up to the
  environment: an `Allocator` says for every request whether it is granted and what the new bytes
  hold.
-/
import Mathlib.Algebra.Group.Int.Defs
import Mathlib.Algebra.Group.Nat.Defs
import Mathlib.Data.List.Basic
import Mathlib.Data.List.TakeDrop

namespace CMachine

/-! ## §1. Faults and blocks. -/

/-- What C leaves undefined, and loops that never end. -/
inductive Fault where
  | nullDeref
  | outOfRange
  | intOverflow
  | useAfterFree
  | uninitRead
  | diverges
  deriving Repr, DecidableEq

/-- Any fault but the use of a destroyed object; a step through `NULL` only if `crash`. -/
def Tolerated (crash : Prop) : Fault → Prop
  | .useAfterFree => False
  | .nullDeref => crash
  | _ => True

theorem Tolerated.mono {crash crash' : Prop} {f : Fault} (h : Tolerated crash f)
    (hsub : crash → crash') : Tolerated crash' f := by
  cases f with
  | nullDeref => exact hsub h
  | useAfterFree => exact h
  | _ => trivial

/-- The largest `int`. -/
def INT_MAX : Nat := 2147483647

abbrev Bytes := List UInt8

/-- `Allocator call size`: whether the `call`-th request, for `size` bytes, is granted, and what
the bytes hold that it adds. -/
abbrev Allocator := Nat → Nat → Option (Nat → UInt8)

/-- Every request is granted. -/
def Allocator.Total (mem : Allocator) : Prop := ∀ call size, (mem call size).isSome

/-- All bytes that requests add satisfy `P`. -/
def Allocator.Fills (mem : Allocator) (P : UInt8 → Prop) : Prop :=
  ∀ call size fill, mem call size = some fill → ∀ k, P (fill k)

/-- `realloc`: the old bytes stay, the added ones hold what the environment chose. -/
def realloc (mem : Allocator) (call : Nat) (block : Bytes) (size : Nat) : Option Bytes :=
  (mem call size).map fun fill =>
    block.take size ++ (List.range (size - block.length)).map fun k => fill (block.length + k)

/-- Read one byte. -/
def load (block : Bytes) (i : Nat) : Except Fault UInt8 :=
  match block[i]? with
  | some b => .ok b
  | none => .error .outOfRange

/-- Write one byte. -/
def store (block : Bytes) (i : Nat) (b : UInt8) : Except Fault Bytes :=
  if i < block.length then .ok (block.set i b) else .error .outOfRange

/-- `memcpy(dst + off, src, n)` -/
def memcpy (dst : Bytes) (off : Nat) (src : Bytes) (n : Nat) : Except Fault Bytes :=
  if n ≤ src.length ∧ off + n ≤ dst.length then
    .ok (dst.take off ++ src.take n ++ dst.drop (off + n))
  else .error .outOfRange

/-- `memmove(block, block + off, n)` -/
def memmove (block : Bytes) (off n : Nat) : Except Fault Bytes :=
  if off + n ≤ block.length then .ok ((block.drop off).take n ++ block.drop n)
  else .error .outOfRange

/-- `memset(block, 0, n)` -/
def memset (block : Bytes) (n : Nat) : Except Fault Bytes :=
  if n ≤ block.length then .ok (List.replicate n 0 ++ block.drop n) else .error .outOfRange

/-- `strlen`: the position of the first NUL, which has to lie inside the block. -/
def strlen (block : Bytes) : Except Fault Nat :=
  if block.idxOf 0 < block.length then .ok (block.idxOf 0) else .error .outOfRange

/-- The string a pointer to the start of the block stands for. -/
def cstring (block : Bytes) : Except Fault Bytes := (strlen block).map block.take

/-! ## §2. What the accesses deliver. -/

theorem realloc_grow {mem : Allocator} {size : Nat} {block : Bytes}
    (hmem : mem.Total) (call : Nat) (hsize : block.length ≤ size) :
    ∃ extra, realloc mem call block size = some (block ++ extra)
      ∧ (block ++ extra).length = size
      ∧ ∀ P, mem.Fills P → ∀ b ∈ extra, P b := by
  obtain ⟨fill, hfill⟩ := Option.isSome_iff_exists.mp (hmem call size)
  refine ⟨(List.range (size - block.length)).map fun k => fill (block.length + k), ?_, ?_, ?_⟩
  · rw [realloc, hfill, Option.map_some, List.take_of_length_le hsize]
  · simp only [List.length_append, List.length_map, List.length_range]
    omega
  · intro P hP b hb
    obtain ⟨k, -, rfl⟩ := List.mem_map.mp hb
    exact hP call size fill hfill _

theorem load_of_getElem? {block : Bytes} {i : Nat} {b : UInt8} (h : block[i]? = some b) :
    load block i = .ok b := by
  rw [load, h]

theorem store_ok {block : Bytes} {i : Nat} (h : i < block.length) (b : UInt8) :
    store block i b = .ok (block.set i b) := if_pos h

theorem memcpy_ok {dst src : Bytes} {off n : Nat} (hsrc : n ≤ src.length)
    (hdst : off + n ≤ dst.length) :
    memcpy dst off src n = .ok (dst.take off ++ src.take n ++ dst.drop (off + n)) :=
  if_pos ⟨hsrc, hdst⟩

theorem memmove_ok {block : Bytes} {off n : Nat} (h : off + n ≤ block.length) :
    memmove block off n = .ok ((block.drop off).take n ++ block.drop n) := if_pos h

theorem memset_length (block : Bytes) :
    memset block block.length = .ok (List.replicate block.length 0) := by
  rw [memset, if_pos (Nat.le_refl _), List.drop_length, List.append_nil]

theorem idxOf_terminator {s rest : Bytes} (hs : (0 : UInt8) ∉ s) :
    (s ++ 0 :: rest).idxOf 0 = s.length := by
  rw [List.idxOf_append_of_notMem hs, List.idxOf_cons_self, Nat.add_zero]

theorem strlen_terminated {s rest : Bytes} (hs : (0 : UInt8) ∉ s) :
    strlen (s ++ 0 :: rest) = .ok s.length := by
  rw [strlen, idxOf_terminator hs, if_pos (by simp)]

theorem cstring_terminated {s rest : Bytes} (hs : (0 : UInt8) ∉ s) :
    cstring (s ++ 0 :: rest) = .ok s := by
  rw [cstring, strlen_terminated hs]
  exact congrArg Except.ok List.take_left

/-- A string that was read ends in a NUL of the block. -/
theorem cstring_inv {block s : Bytes} (h : cstring block = .ok s) :
    (0 : UInt8) ∉ s ∧ s ++ [0] <+: block := by
  unfold cstring strlen at h
  split at h
  next hlt =>
    cases h
    refine ⟨fun hm => ?_, ?_⟩
    · obtain ⟨i, hi, hget⟩ := List.getElem_of_mem hm
      rw [List.length_take] at hi
      rw [List.getElem_take] at hget
      have hbefore : i < block.findIdx (· == (0 : UInt8)) := by
        unfold List.idxOf at *
        omega
      have hfirst := List.not_of_lt_findIdx hbefore
      simp [hget] at hfirst
    · have htake : block.take (block.idxOf 0) ++ [0] = block.take (block.idxOf 0 + 1) := by
        rw [List.take_add_one, List.getElem?_eq_getElem hlt, List.getElem_idxOf hlt]
        rfl
      rw [htake]
      exact List.take_prefix _ _
  next => cases h

/-! ## §3. What a block carries. -/

/-- The bytes `s` stand in the block from `off` on. -/
def Carries (block : Bytes) (off : Nat) (s : Bytes) : Prop := s <+: block.drop off

/-- Two pieces say the same wherever they overlap. -/
def Agree (off : Nat) (s : Bytes) (off' : Nat) (s' : Bytes) : Prop :=
  ∀ i j, off + i = off' + j → i < s.length → j < s'.length → s[i]? = s'[j]?

section Carries

variable {block s t : Bytes} {off off' : Nat}

theorem carries_iff :
    Carries block off s ↔ ∀ i, i < s.length → block[off + i]? = s[i]? := by
  unfold Carries
  rw [List.prefix_iff_getElem?]
  constructor
  · intro h i hi
    rw [← List.getElem?_drop, h i hi, List.getElem?_eq_getElem hi]
  · intro h i hi
    rw [List.getElem?_drop, h i hi, List.getElem?_eq_getElem hi]

theorem carries_append :
    Carries block off (s ++ t) ↔ Carries block off s ∧ Carries block (off + s.length) t := by
  unfold Carries
  constructor
  · rintro ⟨rest, hrest⟩
    refine ⟨⟨t ++ rest, by rw [← hrest, List.append_assoc]⟩, rest, ?_⟩
    rw [← List.drop_drop, ← hrest, List.append_assoc, List.drop_left]
  · rintro ⟨⟨rest, hrest⟩, rest', hrest'⟩
    refine ⟨rest', ?_⟩
    rw [← List.drop_drop, ← hrest, List.drop_left] at hrest'
    rw [List.append_assoc, hrest', hrest]

theorem carries_self (s : Bytes) : Carries s 0 s := List.prefix_refl s

/-- Pieces of one block agree. -/
theorem Carries.agree (h : Carries block off s) (h' : Carries block off' t) :
    Agree off s off' t := by
  intro i j hij hi hj
  rw [← carries_iff.mp h i hi, ← carries_iff.mp h' j hj, hij]

theorem Agree.of_disjoint (h : off + s.length ≤ off' ∨ off' + t.length ≤ off) :
    Agree off s off' t := by
  intro i j hij hi hj
  omega

theorem Carries.length (h : Carries block off s) (hs : s ≠ []) : off + s.length ≤ block.length := by
  have hlen := h.length_le
  have hpos := List.length_pos_iff.mpr hs
  rw [List.length_drop] at hlen
  omega

theorem Carries.cstring (h : Carries block off (s ++ [0])) (hs : (0 : UInt8) ∉ s) :
    cstring (block.drop off) = .ok s := by
  obtain ⟨rest, hrest⟩ := h
  rw [← hrest, List.append_assoc, List.singleton_append, cstring_terminated hs]

/-- The bytes of a block into which all of `src` was copied. -/
theorem memcpy_getElem? {dst src : Bytes} (h : off + src.length ≤ dst.length) (k : Nat) :
    (dst.take off ++ src ++ dst.drop (off + src.length))[k]?
      = if off ≤ k ∧ k < off + src.length then src[k - off]? else dst[k]? := by
  have hoff : (dst.take off).length = off := by
    rw [List.length_take]
    omega
  rw [List.append_assoc]
  rcases Nat.lt_or_ge k off with hk | hk
  · rw [List.getElem?_append_left (by omega), List.getElem?_take_of_lt hk, if_neg (by omega)]
  · rw [List.getElem?_append_right (by omega), hoff]
    rcases Nat.lt_or_ge k (off + src.length) with hk' | hk'
    · rw [List.getElem?_append_left (by omega), if_pos ⟨hk, hk'⟩]
    · rw [List.getElem?_append_right (by omega), List.getElem?_drop, if_neg (by omega)]
      congr 1
      omega

/-- What was copied is there afterwards. -/
theorem memcpy_carries {dst src : Bytes} (h : off + src.length ≤ dst.length) :
    Carries (dst.take off ++ src ++ dst.drop (off + src.length)) off src := by
  rw [carries_iff]
  intro i hi
  rw [memcpy_getElem? h, if_pos (by omega)]
  congr 1
  omega

/-- What was there before is there afterwards, unless the copy says otherwise. -/
theorem Carries.memcpy {dst src : Bytes} (hs : Carries dst off' s)
    (h : off + src.length ≤ dst.length) (hagree : Agree off' s off src) :
    Carries (dst.take off ++ src ++ dst.drop (off + src.length)) off' s := by
  rw [carries_iff]
  intro i hi
  rw [memcpy_getElem? h]
  split
  next hin => exact (hagree i (off' + i - off) (by omega) hi (by omega)).symm
  next => exact carries_iff.mp hs i hi

end Carries

end CMachine
