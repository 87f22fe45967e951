/-
  DirSurveiller.Containers.Terminator — when the string buffer is a C string.

  `sb_append` copies the terminator of its argument, `sb_deletehead` and `sb_flush` write one,
  `sb_appendl` leaves what stands behind the bytes it copies: the rest of an earlier, longer
  content, or what `realloc` delivered.

  Main result:
    * `stringBuffer_proper_iff` — a run on NUL-free data keeps `string[end_pos]` NUL exactly if
      each of its calls meets `KeepsNul`.
-/
import DirSurveiller.Containers.ByteList

namespace DirSurveiller

open CMachine Outcome Doubling

/-! ## §1. What the readers rely on. -/

/-- The bytes up to and including `string[end_pos]` are the content and a NUL, and `sb_stringCpy`
copies the content. -/
structure StringBuffer.Proper (this : StringBuffer) : Prop where
  text : this.string.take (this.endPos + 1) = this.content ++ [0]
  copied : sbStringCpy true this = .ok this.content

/-- One call, for the buffer it leaves. -/
def sbNext (mem : Allocator) (this : StringBuffer) (op : SbOp) : Except Fault StringBuffer := do
  let (_, this) ← op.call mem this
  return this

/-- The buffer is a C string of its content after every prefix of the run. -/
def StaysProper (mem : Allocator) (size : Nat) (ops : List SbOp) : Prop :=
  Stays (sbNext mem) StringBuffer.Proper (sbInit size) ops

namespace SbOp

/-- The data is free of NUL. -/
def NulFree : SbOp → Prop
  | .append string => (0 : UInt8) ∉ string
  | .appendl string => (0 : UInt8) ∉ string
  | .deletehead _ => True
  | .flush => True

/-- When a call on a C string leaves one: an append that is refused changes nothing; one that takes
place may not bring the position to the last `u_int32_t` or beyond, and `sb_appendl` has to find a NUL
behind its bytes. -/
def KeepsNul (mem : Allocator) (this : StringBuffer) : SbOp → Prop
  | .append string => this.Refuses mem string.length ∨ this.endPos + string.length + 1 < 2 ^ 32
  | .appendl string => this.Refuses mem string.length
      ∨ this.endPos + string.length + 1 < 2 ^ 32
        ∧ this.byteAt mem (this.endPos + string.length) = some 0
  | .deletehead _ => True
  | .flush => True

end SbOp

/-! ## §2. One call. -/

section Step

open StringBuffer

variable {mem : Allocator} {this g : StringBuffer} {op : SbOp} {s : Bytes} {len : Nat}

/-- A buffer whose content has no NUL. -/
structure CleanText (this : StringBuffer) : Prop where
  sound : this.Sound
  clean : (0 : UInt8) ∉ this.content

/-- For a content without NUL it is the byte at `end_pos` that decides, and whether `end_pos+1` is a
size. -/
theorem proper_iff (h : CleanText this) :
    this.Proper ↔ this.string[this.endPos]? = some 0 ∧ this.endPos + 1 < 2 ^ 32 := by
  have htake : this.string.take (this.endPos + 1)
      = this.content ++ this.string[this.endPos]?.toList := List.take_add_one
  constructor
  · intro hp
    have htext := hp.text
    rw [htake, List.append_cancel_left_eq] at htext
    have hnul : this.string[this.endPos]? = some 0 := Option.toList_eq_singleton_iff.mp htext
    refine ⟨hnul, ?_⟩
    by_contra hlast
    -- of a block of no bytes
    have hposition := h.sound.position
    have hzero : (this.endPos + 1) % 2 ^ 32 = 0 := by omega
    have hcopied := hp.copied
    rw [sbStringCpy, if_pos rfl, cstring_content h.sound.inside ⟨h.clean, hnul⟩, ok_bind, hzero,
      if_neg (Nat.not_succ_le_zero _)] at hcopied
    cases hcopied
  · rintro ⟨hnul, hfits⟩
    refine ⟨?_, stringCpy_content h.sound.inside ⟨h.clean, hnul⟩ hfits⟩
    rw [htake, hnul]
    rfl

/-- Behind a position that wrapped stands a byte of the text. -/
theorem StringBuffer.Appended.wrapped (hg : StringBuffer.Appended mem this s g)
    (hclean : (0 : UInt8) ∉ this.content ++ s) (hwrap : 2 ^ 32 ≤ this.endPos + s.length) :
    g.string[g.endPos]? ≠ some 0 := by
  intro hnul
  have hend := hg.endPos
  have hlt : g.endPos < this.endPos + s.length := by omega
  rw [← List.getElem?_take_of_lt hlt, hg.text] at hnul
  exact hclean (List.mem_of_getElem? hnul)

theorem StringBuffer.Appended.clean (hg : StringBuffer.Appended mem this s g)
    (hclean : (0 : UInt8) ∉ this.content ++ s) : CleanText g := by
  refine ⟨hg.sound, ?_⟩
  rw [hg.content_take]
  exact fun hm => hclean (List.mem_of_mem_take hm)

theorem StringBuffer.Declined.behind (hg : StringBuffer.Declined mem this len g) (h : this.Sound) :
    g.string[g.endPos]? = this.string[this.endPos]? := by
  rw [hg.endPos, ← List.getElem?_take_of_lt h.room, hg.old]

/-- An append that is refused leaves a C string as it is. -/
theorem StringBuffer.Declined.proper (hg : StringBuffer.Declined mem this len g) (h : CleanText this)
    (hp : this.Proper) : CleanText g ∧ g.Proper := by
  have hclean : CleanText g := ⟨hg.sound, by rw [hg.content h.sound]; exact h.clean⟩
  refine ⟨hclean, (proper_iff hclean).mpr ?_⟩
  rw [hg.behind h.sound, hg.endPos]
  exact (proper_iff h).mp hp

/-- When an append that takes place leaves a C string: the position stays below the last one, and the
byte behind the text is NUL. -/
theorem StringBuffer.Appended.proper_iff (hg : StringBuffer.Appended mem this s g)
    (hclean : (0 : UInt8) ∉ this.content ++ s) :
    g.Proper ↔ this.endPos + s.length + 1 < 2 ^ 32
      ∧ g.string[this.endPos + s.length]? = some 0 := by
  rw [DirSurveiller.proper_iff (hg.clean hclean)]
  rcases Nat.lt_or_ge (this.endPos + s.length) (2 ^ 32) with hsum | hwrap
  · rw [hg.endPos, Nat.mod_eq_of_lt hsum]
    exact and_comm
  · refine iff_of_false (fun h => hg.wrapped hclean hwrap h.1) fun h => ?_
    have hlast := h.1
    omega

/-- What a call leaves: NUL-free, and a C string exactly if `KeepsNul`. -/
def Leaves (mem : Allocator) (this : StringBuffer) (op : SbOp) : Prop :=
  ∃ ret g, op.call mem this = .ok (ret, g) ∧ CleanText g ∧ (g.Proper ↔ op.KeepsNul mem this)

theorem append_leaves (h : CleanText this) (hp : this.Proper) (hop : (SbOp.append s).Valid) :
    Leaves mem this (.append s) := by
  obtain ⟨hs, hlen⟩ := hop
  have hposition := h.sound.position
  have hboth : (0 : UInt8) ∉ this.content ++ s := by
    rw [List.mem_append, not_or]
    exact ⟨h.clean, hs⟩
  by_cases hr : this.Refuses mem s.length
  · obtain ⟨g, hcall, hg⟩ := append_declined h.sound hs (by omega) hr []
    obtain ⟨hclean, hp'⟩ := hg.proper h hp
    exact ⟨1, g, hcall, hclean, iff_of_true hp' (.inl hr)⟩
  · obtain ⟨g, hcall, hg, hbehind⟩ := append_appended h.sound hs (by omega) hr []
    refine ⟨0, g, hcall, hg.clean hboth, ?_⟩
    rw [hg.proper_iff hboth, and_iff_left hbehind]
    exact ⟨.inr, fun hkeeps => hkeeps.resolve_left hr⟩

theorem appendl_leaves (h : CleanText this) (hp : this.Proper) (hop : (SbOp.appendl s).Valid)
    (hs : (0 : UInt8) ∉ s) : Leaves mem this (.appendl s) := by
  have hlen : s.length < 2 ^ 62 := hop
  have hposition := h.sound.position
  have hboth : (0 : UInt8) ∉ this.content ++ s := by
    rw [List.mem_append, not_or]
    exact ⟨h.clean, hs⟩
  by_cases hr : this.Refuses mem s.length
  · obtain ⟨g, hcall, hg⟩ := appendl_declined h.sound (by omega) hr s
    obtain ⟨hclean, hp'⟩ := hg.proper h hp
    exact ⟨1, g, hcall, hclean, iff_of_true hp' (.inl hr)⟩
  · obtain ⟨g, hcall, hg, hroom, hbehind⟩ := appendl_appended h.sound (by omega) hr
    refine ⟨0, g, hcall, hg.clean hboth, ?_⟩
    -- the byte behind is the one the block had, or got
    rw [hg.proper_iff hboth, hbehind _ hroom (Nat.le_refl _)]
    exact ⟨.inr, fun hkeeps => hkeeps.resolve_left hr⟩

variable (mem) in
/-- **One call** on a C string leaves the buffer as `KeepsNul` says. -/
theorem call_leaves (h : CleanText this) (hp : this.Proper) (hop : op.Valid) (hfree : op.NulFree) :
    Leaves mem this op := by
  have hfits := ((proper_iff h).mp hp).2
  cases op with
  | append s => exact append_leaves h hp hop
  | appendl s => exact appendl_leaves h hp hop hfree
  | deletehead len =>
      obtain ⟨g, hdelete, hsound, hcontent, hbehind, -⟩ := deletehead_sound h.sound len (.inl hfits)
      have hclean : CleanText g := by
        refine ⟨hsound, ?_⟩
        rw [hcontent]
        exact fun hm => h.clean (List.mem_of_mem_drop hm)
      refine ⟨0, g, call_deletehead hdelete, hclean, iff_of_true ?_ trivial⟩
      have hshorter : g.endPos ≤ this.endPos := by
        rw [← hsound.content_length, ← h.sound.content_length, hcontent, List.length_drop]
        exact Nat.sub_le _ _
      exact (proper_iff hclean).mpr ⟨hbehind, by omega⟩
  | flush =>
      obtain ⟨g, hflush, hsound, hcontent, hbehind⟩ := flush_sound h.sound
      have hclean : CleanText g := ⟨hsound, by rw [hcontent]; exact List.not_mem_nil⟩
      refine ⟨0, g, call_flush hflush, hclean, iff_of_true ?_ trivial⟩
      refine (proper_iff hclean).mpr ⟨hbehind, ?_⟩
      have hzero : g.endPos = 0 := by
        rw [← hsound.content_length, hcontent]
        rfl
      omega

theorem sbNext_eq {ret : Nat} (hcall : op.call mem this = .ok (ret, g)) :
    sbNext mem this op = .ok g := by
  unfold sbNext
  rw [hcall]
  rfl

/-- A call on such a buffer keeps the rest of what is known of it. -/
theorem sbNext_keeps (h : CleanText this) (hp : this.Proper) (hop : op.Valid) (hfree : op.NulFree)
    (hnext : sbNext mem this op = .ok g) : CleanText g := by
  obtain ⟨ret, g', hcall, hclean, -⟩ := call_leaves mem h hp hop hfree
  rw [sbNext_eq hcall] at hnext
  exact Except.ok.inj hnext ▸ hclean

/-- **The step lemma**: a C string again, exactly if `KeepsNul`. -/
theorem sbNext_proper_iff (h : CleanText this) (hp : this.Proper) (hop : op.Valid)
    (hfree : op.NulFree) :
    (∃ g, sbNext mem this op = .ok g ∧ g.Proper) ↔ op.KeepsNul mem this := by
  obtain ⟨ret, g, hcall, hclean, hkeeps⟩ := call_leaves mem h hp hop hfree
  rw [← hkeeps, sbNext_eq hcall]
  constructor
  · intro hex
    obtain ⟨g', hnext, hp'⟩ := hex
    exact Except.ok.inj hnext ▸ hp'
  · intro hp'
    exact ⟨g, rfl, hp'⟩

/-! ## §3. A whole run. -/

/-- **The string buffer is a C string of its content** throughout a run exactly if each call meets
`KeepsNul` in the state in which it is made. -/
theorem stringBuffer_proper_iff (mem : Allocator) {size : Nat} (hpos : 1 ≤ size)
    (hsize : size < 2 ^ 64) (ops : List SbOp) (hvalid : ∀ op ∈ ops, op.Valid)
    (hfree : ∀ op ∈ ops, op.NulFree) :
    StaysProper mem size ops ↔ ∀ pre op post this, ops = pre ++ op :: post →
      pre.foldlM (sbNext mem) (sbInit size) = .ok this → op.KeepsNul mem this := by
  have hsound : (sbInit size).Sound := sound_init hpos hsize
  have hkept : CleanText (sbInit size) := ⟨hsound, List.not_mem_nil⟩
  have hproper : (sbInit size).Proper := by
    refine (proper_iff hkept).mpr ⟨?_, show 0 + 1 < 2 ^ 32 by decide⟩
    show (List.replicate size (0 : UInt8))[0]? = some 0
    rw [List.getElem?_replicate, if_pos (show 0 < size from hpos)]
  exact run_stays_iff
    (fun this op g hop h hp hnext => sbNext_keeps h hp (hvalid op hop) (hfree op hop) hnext)
    (fun this op hop h hp => sbNext_proper_iff h hp (hvalid op hop) (hfree op hop)) hkept hproper

/-- The calls of the receive loop on the chunks `abcdef` and `x`, the first of which ends with a
line of four bytes. -/
def staleOps : List SbOp := [.appendl [97, 98, 99, 100, 101, 102], .deletehead 4, .appendl [120]]

/-- What is left of the longer content stands behind the shorter one. -/
theorem stringBuffer_stale : ¬ StaysProper (fun _ _ => some fun _ => 0) 16 staleOps := by
  intro h
  obtain ⟨this, hrun, hp⟩ := h staleOps (List.prefix_refl _)
  have hstale : staleOps.foldlM (sbNext fun _ _ => some fun _ => 0) (sbInit 16)
      = .ok { string := [101, 102, 120, 100, 101, 102] ++ List.replicate 10 0
              size := 16, endPos := 3, reallocs := 0 } := by rfl
  rw [hstale] at hrun
  obtain rfl := Except.ok.inj hrun
  exact absurd hp.text (by decide)

/-- After `sb_flush` the same chunks leave no trace. -/
theorem stringBuffer_proper_flushed :
    StaysProper (fun _ _ => some fun _ => 0) 512 [.append [97, 98, 99], .flush]
      ↔ ∀ pre op post this, [SbOp.append [97, 98, 99], .flush] = pre ++ op :: post →
        pre.foldlM (sbNext fun _ _ => some fun _ => 0) (sbInit 512) = .ok this →
        op.KeepsNul (fun _ _ => some fun _ => 0) this := by
  refine stringBuffer_proper_iff _ (by decide) (by decide) _ ?_ ?_
  · simp only [List.forall_mem_cons]
    exact ⟨⟨by decide, by decide⟩, trivial, by simp⟩
  · simp only [List.forall_mem_cons]
    refine ⟨?_, trivial, by simp⟩
    show (0 : UInt8) ∉ [97, 98, 99]
    decide

end Step

end DirSurveiller
