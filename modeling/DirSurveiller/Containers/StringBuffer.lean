/-
  DirSurveiller.Containers.StringBuffer — the string buffer of `containers.c`.

  A `stringBuffer` owns a block of `size` bytes of which the first `end_pos` are its content.
  `size` and the appended length are `size_t`, `end_pos` is `u_int32_t`; the sums are reduced where
  the code reduces them.  The operations disagree about what stands at `string[end_pos]`:
  `sb_append` copies the terminator, `sb_deletehead` and `sb_flush` write one, `sb_appendl` leaves
  the byte as it was.

  `Wf` is the capacity invariant; the spec lemmas give the block after the operations that do not
  grow.  Growing is in `DirSurveiller.Containers.Capacity`.
-/
import DirSurveiller.Lib.Outcome
import DirSurveiller.Lib.Memory

namespace DirSurveiller

open CMachine Outcome

/-! ## §1. The code. -/

/-- `stringBuffer`.  `reallocs` is a history variable: it numbers the `realloc` calls of this
buffer, so that the environment can answer each of them differently. -/
structure StringBuffer where
  string : Bytes
  size : Nat
  endPos : Nat
  reallocs : Nat
  deriving Repr, DecidableEq

/-- `sb_init` with a granted `calloc`. -/
def sbInit (size : Nat) : StringBuffer :=
  { string := List.replicate size 0, size := size, endPos := 0, reallocs := 0 }

/-- `while (this->end_pos+len >= this->size) { realloc … }`, the loop `sb_appendl` and `sb_append`
share.  The first component is false when a `realloc` failed.  `size` doubles in a `size_t`, so
after 64 rounds it is 0 and the loop never ends. -/
def sbGrow (mem : Allocator) (len : Nat) : Nat → StringBuffer → Except Fault (Bool × StringBuffer)
  | 0, this =>
      if (this.endPos + len) % 2 ^ 64 ≥ this.size then .error .diverges else .ok (true, this)
  | rounds + 1, this =>
      if (this.endPos + len) % 2 ^ 64 ≥ this.size then
        match realloc mem this.reallocs this.string (this.size * 2 % 2 ^ 64) with
        | none => .ok (false, { this with reallocs := this.reallocs + 1 })
        | some ret =>
            sbGrow mem len rounds
              { this with
                string := ret
                size := this.size * 2 % 2 ^ 64
                reallocs := this.reallocs + 1 }
      else .ok (true, this)

/-- `sb_appendl`: the first component is the returned value. -/
def sbAppendl (mem : Allocator) (this : StringBuffer) (string : Bytes) (len : Nat) :
    Except Fault (Nat × StringBuffer) := do
  let (grown, this) ← sbGrow mem len 64 this
  if grown then
    let block ← memcpy this.string this.endPos string len
    return (0, { this with string := block, endPos := (this.endPos + len) % 2 ^ 32 })
  else
    return (1, this)

/-- `sb_append`: `string` is the block the argument points into, from there on. -/
def sbAppend (mem : Allocator) (this : StringBuffer) (string : Bytes) :
    Except Fault (Nat × StringBuffer) := do
  let len ← strlen string
  let (grown, this) ← sbGrow mem len 64 this
  if grown then
    let block ← memcpy this.string this.endPos string (len + 1)
    return (0, { this with string := block, endPos := (this.endPos + len) % 2 ^ 32 })
  else
    return (1, this)

/-- `sb_deletehead` -/
def sbDeletehead (this : StringBuffer) (len : Nat) : Except Fault StringBuffer := do
  let len := if len > this.endPos then this.endPos else len
  let block ← memmove this.string len (((this.endPos + 1) % 2 ^ 32 + (2 ^ 64 - len)) % 2 ^ 64)
  let block ← store block (this.endPos - len) 0
  return { this with string := block, endPos := this.endPos - len }

/-- `sb_flush` -/
def sbFlush (this : StringBuffer) : Except Fault StringBuffer := do
  let block ← memset this.string this.size
  return { this with string := block, endPos := 0 }

/-- `sb_stringCpy`: the string copied into `malloc(end_pos+1)`, a size that is computed in 32 bits.
The code tests the wrong pointer for NULL, so an ungranted request is a write through NULL. -/
def sbStringCpy (granted : Bool) (this : StringBuffer) : Except Fault Bytes :=
  if granted then do
    let s ← cstring this.string
    if s.length + 1 ≤ (this.endPos + 1) % 2 ^ 32 then .ok s else .error .outOfRange
  else .error .nullDeref

/-! ## §2. The capacity invariant. -/

namespace StringBuffer

/-- What the buffer holds. -/
def content (this : StringBuffer) : Bytes := this.string.take this.endPos

/-- The block has the recorded size, and at least one byte of it is behind the content. -/
structure Wf (this : StringBuffer) : Prop where
  length : this.string.length = this.size
  room : this.endPos < this.size
  small : this.size ≤ 2 ^ 33

/-- The content is a C string of its own: nothing in it is NUL, and a NUL follows it. -/
structure Terminated (this : StringBuffer) : Prop where
  clean : (0 : UInt8) ∉ this.content
  nul : this.string[this.endPos]? = some 0

variable {this : StringBuffer}

theorem Wf.content_length (h : this.Wf) : this.content.length = this.endPos := by
  rw [content, List.length_take, h.length]
  exact Nat.min_eq_left (Nat.le_of_lt h.room)

theorem wf_init {size : Nat} (hpos : 0 < size) (hsmall : size ≤ 2 ^ 33) : (sbInit size).Wf :=
  ⟨by simp [sbInit], hpos, hsmall⟩

theorem terminated_init {size : Nat} (hpos : 0 < size) : (sbInit size).Terminated :=
  ⟨by simp [sbInit, content], by simp [sbInit, hpos]⟩

theorem Wf.inside (h : this.Wf) : this.endPos < this.string.length := by
  rw [h.length]
  exact h.room

/-- The block of a terminated buffer: the content, a NUL, and what lies behind. -/
theorem string_eq_terminated (hlt : this.endPos < this.string.length) (hz : this.Terminated) :
    this.string = this.content ++ 0 :: this.string.drop (this.endPos + 1) := by
  have hget : this.string[this.endPos] = 0 := by
    have := hz.nul
    rw [List.getElem?_eq_getElem hlt, Option.some.injEq] at this
    exact this
  conv_lhs => rw [← List.take_append_drop this.endPos this.string, List.drop_eq_getElem_cons hlt,
    hget]
  rfl

/-- A terminated buffer read as a C string is its content. -/
theorem cstring_content (hlt : this.endPos < this.string.length) (hz : this.Terminated) :
    cstring this.string = .ok this.content := by
  rw [string_eq_terminated hlt hz]
  exact cstring_terminated hz.clean

theorem cstring_eq (h : this.Wf) (hz : this.Terminated) : cstring this.string = .ok this.content :=
  cstring_content h.inside hz

/-- `sb_stringCpy` of a terminated buffer copies the content, as long as its size is no 0. -/
theorem stringCpy_content (hlt : this.endPos < this.string.length) (hz : this.Terminated)
    (hfits : this.endPos + 1 < 2 ^ 32) : sbStringCpy true this = .ok this.content := by
  have hlen : this.content.length ≤ this.endPos := List.length_take_le _ _
  have hblock : this.content.length + 1 ≤ (this.endPos + 1) % 2 ^ 32 := by
    rw [Nat.mod_eq_of_lt hfits]
    omega
  rw [sbStringCpy, if_pos rfl, cstring_content hlt hz, ok_bind, if_pos hblock]

/-! ## §3. The operations. -/

/-- The byte at index `end_pos + len` once there is room for it: the old one, or the one `realloc`
adds there. -/
def byteBehind (mem : Allocator) (this : StringBuffer) (len : Nat) : Option UInt8 :=
  if this.endPos + len < this.size then this.string[this.endPos + len]?
  else (mem this.reallocs (this.size * 2)).map fun fill => fill (this.endPos + len)

/-- What `sb_deletehead` leaves of the buffer when `k` bytes go. -/
def withoutHead (this : StringBuffer) (k : Nat) : StringBuffer :=
  { this with
    string := ((this.string.drop k).take (this.endPos + 1 - k)
      ++ this.string.drop (this.endPos + 1 - k)).set (this.endPos - k) 0
    endPos := this.endPos - k }

theorem withoutHead_length {k : Nat} (hroom : this.endPos < this.string.length) (hk : k ≤ this.endPos) :
    (this.withoutHead k).string.length = this.string.length := by
  show (List.set _ _ _).length = _
  rw [List.length_set, List.length_append, List.length_take, List.length_drop, List.length_drop]
  omega

theorem withoutHead_content {k : Nat} (hroom : this.endPos < this.string.length)
    (hk : k ≤ this.endPos) : (this.withoutHead k).content = this.content.drop k := by
  have hmoved : ((this.string.drop k).take (this.endPos + 1 - k)).length = this.endPos + 1 - k := by
    rw [List.length_take, List.length_drop]
    omega
  show (List.set _ _ _).take (this.endPos - k) = _
  rw [List.take_set_of_le (Nat.le_refl _), List.take_append_of_le_length (by omega),
    List.take_take, Nat.min_eq_left (by omega), content, List.drop_take]

theorem withoutHead_nul {k : Nat} (hroom : this.endPos < this.string.length) (hk : k ≤ this.endPos) :
    (this.withoutHead k).string[(this.withoutHead k).endPos]? = some 0 := by
  have hlen := withoutHead_length hroom hk
  show (List.set _ _ _)[this.endPos - k]? = _
  rw [List.getElem?_set_self]
  rw [← List.length_set (i := this.endPos - k) (a := 0)]
  show this.endPos - k < (this.withoutHead k).string.length
  omega

/-- The count of the `memmove` is computed in a `u_int32_t` first; it is right unless the content
has all but one of the 2^32 bytes a position can count. -/
theorem deletehead_eq {len : Nat} (hroom : this.endPos < this.string.length)
    (hfits : this.endPos + 1 < 2 ^ 32 ∨ this.endPos < 2 ^ 32 ∧ len = 0) :
    sbDeletehead this len = .ok (this.withoutHead (min len this.endPos)) := by
  have hclamp : (if len > this.endPos then this.endPos else len) = min len this.endPos := by
    split <;> omega
  have hk : min len this.endPos ≤ this.endPos := Nat.min_le_right _ _
  have hlen := withoutHead_length hroom hk
  have hmove : memmove this.string (min len this.endPos)
      (((this.endPos + 1) % 2 ^ 32 + (2 ^ 64 - min len this.endPos)) % 2 ^ 64)
      = .ok ((this.string.drop (min len this.endPos)).take (this.endPos + 1 - min len this.endPos)
          ++ this.string.drop (this.endPos + 1 - min len this.endPos)) := by
    by_cases hwrap : this.endPos + 1 < 2 ^ 32
    · have hcount : ((this.endPos + 1) % 2 ^ 32 + (2 ^ 64 - min len this.endPos)) % 2 ^ 64
          = this.endPos + 1 - min len this.endPos := by omega
      rw [hcount]
      exact memmove_ok (by omega)
    · -- nothing goes, and nothing is moved
      obtain rfl : len = 0 := by omega
      have hcount : ((this.endPos + 1) % 2 ^ 32 + (2 ^ 64 - min 0 this.endPos)) % 2 ^ 64 = 0 := by
        omega
      rw [hcount, Nat.zero_min, memmove_ok (Nat.zero_le _), List.drop_zero, List.take_zero,
        List.nil_append, Nat.sub_zero, List.take_append_drop]
  unfold sbDeletehead
  dsimp only
  rw [hclamp, hmove, ok_bind, store_ok]
  · rfl
  · rw [← List.length_set (i := this.endPos - min len this.endPos) (a := 0)]
    show this.endPos - min len this.endPos < (this.withoutHead (min len this.endPos)).string.length
    omega

/-- **`sb_deletehead`**: at most the whole content goes; a NUL follows what stays.  Every byte of
the new block is a byte of the old one, or NUL. -/
theorem deletehead_spec (h : this.Wf) (hend : this.endPos + 1 < 2 ^ 32) (len : Nat) :
    ∃ this', sbDeletehead this len = .ok this' ∧ this'.Wf ∧ this'.content = this.content.drop len
      ∧ this'.size = this.size ∧ (∀ b ∈ this'.string, b ∈ this.string ∨ b = 0) := by
  have hroom := h.room
  have hk : min len this.endPos ≤ this.endPos := Nat.min_le_right _ _
  refine ⟨_, deletehead_eq h.inside (.inl hend), ⟨?_, ?_, h.small⟩, ?_, rfl, ?_⟩
  · rw [withoutHead_length h.inside hk]
    exact h.length
  · show this.endPos - min len this.endPos < this.size
    omega
  · rw [withoutHead_content h.inside hk, ← h.content_length, ← List.drop_eq_drop_min]
  · intro b hb
    rcases List.mem_or_eq_of_mem_set hb with hb | hb
    · rcases List.mem_append.mp hb with hb | hb
      · exact Or.inl (List.mem_of_mem_drop (List.mem_of_mem_take hb))
      · exact Or.inl (List.mem_of_mem_drop hb)
    · exact Or.inr hb

/-- `sb_flush` clears a block of the recorded size. -/
theorem flush_eq (hlen : this.string.length = this.size) :
    sbFlush this = .ok { this with string := List.replicate this.size 0, endPos := 0 } := by
  have hset : memset this.string this.size = .ok (List.replicate this.size 0) := by
    rw [← hlen]
    exact memset_length _
  unfold sbFlush
  rw [hset]
  rfl

/-- **`sb_flush`**: nothing is left, and every byte of the block is NUL. -/
theorem flush_spec (h : this.Wf) :
    ∃ this', sbFlush this = .ok this' ∧ this'.Wf ∧ this'.Terminated ∧ this'.content = [] := by
  have hpos : 0 < this.size := Nat.lt_of_le_of_lt (Nat.zero_le _) h.room
  exact ⟨_, flush_eq h.length, ⟨by simp, hpos, h.small⟩, ⟨by simp [content], by simp [hpos]⟩,
    by simp [content]⟩

end StringBuffer

end DirSurveiller
