/-
  DirSurveiller.Containers.ByteList — the string buffer is a list of bytes.

  A run is any sequence of the four operations.  Beside the buffer a list is kept: an append adds
  its bytes if the call returned 0, `sb_deletehead` drops from the front, `sb_flush` clears.  As
  long as the list stays below 2^31 bytes the buffer holds it, whatever `realloc` answers.

  Main result:
    * `stringBuffer_refines` — after every run the content is the list, no access leaves the block,
      and a call that returns 1 was refused memory and changes nothing.
-/
import Mathlib.Algebra.GroupWithZero.Nat
import DirSurveiller.Containers.Capacity

namespace DirSurveiller

open CMachine Outcome Doubling

/-! ## §1. Runs. -/

/-- A call of one of the four operations. -/
inductive SbOp where
  | append (string : Bytes)
  | appendl (string : Bytes)
  | deletehead (len : Nat)
  | flush
  deriving Repr, DecidableEq

namespace SbOp

/-- The call, with the value it returns; the two operations that return none count as 0. -/
def call (mem : Allocator) (this : StringBuffer) : SbOp → Except Fault (Nat × StringBuffer)
  | .append string => sbAppend mem this (string ++ [0])
  | .appendl string => sbAppendl mem this string string.length
  | .deletehead len => do
      let this ← sbDeletehead this len
      return (0, this)
  | .flush => do
      let this ← sbFlush this
      return (0, this)

/-- The operation on a list of bytes; `ret` is what the call returned. -/
def onBytes (ret : Nat) (bytes : Bytes) : SbOp → Bytes
  | .append string => if ret = 0 then bytes ++ string else bytes
  | .appendl string => if ret = 0 then bytes ++ string else bytes
  | .deletehead len => bytes.drop (min len bytes.length)
  | .flush => []

/-- How many bytes the operation adds. -/
def added : SbOp → Nat
  | .append string => string.length
  | .appendl string => string.length
  | .deletehead _ => 0
  | .flush => 0

/-- The argument of `sb_append` is a C string, and no object has 2^62 bytes. -/
def Valid : SbOp → Prop
  | .append string => (0 : UInt8) ∉ string ∧ string.length < 2 ^ 62
  | .appendl string => string.length < 2 ^ 62
  | .deletehead _ => True
  | .flush => True

/-- A request the operation makes is refused. -/
def RefusedBy (mem : Allocator) (this : StringBuffer) : SbOp → Prop
  | .append string => this.Refuses mem string.length
  | .appendl string => this.Refuses mem string.length
  | .deletehead _ => False
  | .flush => False

end SbOp

/-- One call, on the buffer and on the list. -/
def sbStep (mem : Allocator) (st : StringBuffer × Bytes) (op : SbOp) :
    Except Fault (StringBuffer × Bytes) := do
  let (ret, this) ← op.call mem st.1
  return (this, op.onBytes ret st.2)

/-- The list stays below `bound` throughout the run. -/
def Below (mem : Allocator) (st : StringBuffer × Bytes) (ops : List SbOp) (bound : Nat) : Prop :=
  ∀ pre st', pre <+: ops → pre.foldlM (sbStep mem) st = .ok st' → st'.2.length < bound

/-! ## §2. One call. -/

section Step

open StringBuffer

variable {mem : Allocator} {this g : StringBuffer} {bytes : Bytes} {op : SbOp} {ops : List SbOp}
  {len : Nat}

/-- What a call does to a sound buffer.  The content is the list's as long as a position can count
it. -/
structure Answers (mem : Allocator) (this : StringBuffer) (op : SbOp) (ret : Nat)
    (g : StringBuffer) : Prop where
  sound : g.Sound
  content : (op.onBytes ret this.content).length < 2 ^ 32 → g.content = op.onBytes ret this.content
  granted : ret = 0 ∧ ¬ op.RefusedBy mem this
    ∨ ret = 1 ∧ op.RefusedBy mem this ∧ g.content = this.content

theorem call_deletehead (hdelete : sbDeletehead this len = .ok g) :
    (SbOp.deletehead len).call mem this = .ok (0, g) := by
  show (do let g ← sbDeletehead this len; return (0, g)) = _
  rw [hdelete]
  rfl

theorem call_flush (hflush : sbFlush this = .ok g) : SbOp.flush.call mem this = .ok (0, g) := by
  show (do let g ← sbFlush this; return (0, g)) = _
  rw [hflush]
  rfl

/-- **The step lemma**: no call on a sound buffer leaves its block, and each comes back. -/
theorem call_answers (mem : Allocator) (h : this.Sound) (hop : op.Valid)
    (hend : this.endPos + 1 < 2 ^ 32) :
    ∃ ret g, op.call mem this = .ok (ret, g) ∧ Answers mem this op ret g := by
  have hcount : ∀ string : Bytes,
      (this.content ++ string).length = this.endPos + string.length := by
    intro string
    rw [List.length_append, h.content_length]
  -- the two appends fail exactly where the growth is refused; the other two never fail
  cases op with
  | append string =>
      obtain ⟨hclean, hlen⟩ := hop
      by_cases hr : this.Refuses mem string.length
      · obtain ⟨g, hcall, hg⟩ := append_declined h hclean (by omega) hr []
        exact ⟨1, g, hcall, hg.sound, fun _ => hg.content h, .inr ⟨rfl, hr, hg.content h⟩⟩
      · obtain ⟨g, hcall, hg, -⟩ := append_appended h hclean (by omega) hr []
        refine ⟨0, g, hcall, hg.sound, fun hsum => ?_, .inl ⟨rfl, hr⟩⟩
        have hsum' : (this.content ++ string).length < 2 ^ 32 := hsum
        exact hg.content h (by rw [← hcount]; exact hsum')
  | appendl string =>
      have hlen : string.length < 2 ^ 62 := hop
      by_cases hr : this.Refuses mem string.length
      · obtain ⟨g, hcall, hg⟩ := appendl_declined h (by omega) hr string
        exact ⟨1, g, hcall, hg.sound, fun _ => hg.content h, .inr ⟨rfl, hr, hg.content h⟩⟩
      · obtain ⟨g, hcall, hg, -⟩ := appendl_appended h (by omega) hr
        refine ⟨0, g, hcall, hg.sound, fun hsum => ?_, .inl ⟨rfl, hr⟩⟩
        have hsum' : (this.content ++ string).length < 2 ^ 32 := hsum
        exact hg.content h (by rw [← hcount]; exact hsum')
  | deletehead len =>
      obtain ⟨g, hdelete, hsound, hcontent, -⟩ := deletehead_sound h len (.inl hend)
      exact ⟨0, g, call_deletehead hdelete, hsound, fun _ => hcontent, .inl ⟨rfl, id⟩⟩
  | flush =>
      obtain ⟨g, hflush, hsound, hcontent, -⟩ := flush_sound h
      exact ⟨0, g, call_flush hflush, hsound, fun _ => hcontent, .inl ⟨rfl, id⟩⟩

/-- An operation that took place adds its bytes, or takes some away. -/
theorem onBytes_length_le (ret : Nat) (bytes : Bytes) (op : SbOp) :
    (op.onBytes ret bytes).length ≤ bytes.length + op.added := by
  cases op with
  | append string =>
      show (if ret = 0 then bytes ++ string else bytes).length ≤ bytes.length + string.length
      split
      · exact Nat.le_of_eq List.length_append
      · omega
  | appendl string =>
      show (if ret = 0 then bytes ++ string else bytes).length ≤ bytes.length + string.length
      split
      · exact Nat.le_of_eq List.length_append
      · omega
  | deletehead len =>
      show (bytes.drop (min len bytes.length)).length ≤ bytes.length + 0
      rw [List.length_drop]
      omega
  | flush => exact Nat.zero_le _

/-! ## §3. A whole run. -/

/-- What holds of the rest of a run. -/
theorem Below.tail {st st' : StringBuffer × Bytes} {bound : Nat} (h : Below mem st (op :: ops) bound)
    (hstep : sbStep mem st op = .ok st') : Below mem st' ops bound := by
  intro pre st'' hpre hrun
  refine h (op :: pre) st'' ?_ (run_cons.mpr ⟨st', hstep, hrun⟩)
  exact List.cons_prefix_cons.mpr ⟨rfl, hpre⟩

/-- It is enough that all appends together stay below the bound. -/
theorem below_of_added {bound : Nat} : ∀ {ops : List SbOp} {st : StringBuffer × Bytes},
    st.2.length + (ops.map SbOp.added).sum < bound → Below mem st ops bound := by
  intro ops
  induction ops with
  | nil =>
      intro st h pre st' hpre hrun
      obtain rfl := List.prefix_nil.mp hpre
      obtain rfl := run_nil.mp hrun
      exact Nat.lt_of_le_of_lt (Nat.le_add_right _ _) h
  | cons op ops ih =>
      intro st h pre st' hpre hrun
      rw [List.map_cons, List.sum_cons] at h
      cases pre with
      | nil =>
          obtain rfl := run_nil.mp hrun
          omega
      | cons op' pre =>
          obtain ⟨rfl, htail⟩ := List.cons_prefix_cons.mp hpre
          obtain ⟨m, hm, hrun⟩ := run_cons.mp hrun
          obtain ⟨⟨ret, this⟩, hcall, hm⟩ := bind_ok hm
          obtain rfl := Except.ok.inj hm
          have hle := onBytes_length_le ret st.2 op'
          exact ih (by show (op'.onBytes ret st.2).length + _ < bound; omega) pre st' htail hrun

/-- The buffer holds the list. -/
def Represents (st : StringBuffer × Bytes) : Prop := st.1.Sound ∧ st.1.content = st.2

/-- One call keeps the representation, if the list stays small. -/
theorem sbStep_represents {st : StringBuffer × Bytes} (h : Represents st) (hop : op.Valid)
    (hsmall : Below mem st (op :: ops) (2 ^ 31)) :
    ∃ st', sbStep mem st op = .ok st' ∧ Represents st' := by
  obtain ⟨hsound, hcontent⟩ := h
  have hlen := hsound.content_length
  have hhere : st.2.length < 2 ^ 31 := hsmall [] st List.nil_prefix (run_nil.mpr rfl)
  rw [← hcontent, hlen] at hhere
  obtain ⟨ret, g, hcall, hg⟩ := call_answers mem hsound hop (by omega)
  have hstep : sbStep mem st op = .ok (g, op.onBytes ret st.2) := by
    unfold sbStep
    rw [hcall]
    rfl
  have hnext : (op.onBytes ret st.2).length < 2 ^ 31 :=
    hsmall.tail hstep [] _ List.nil_prefix (run_nil.mpr rfl)
  rw [← hcontent] at hnext
  refine ⟨_, hstep, hg.sound, ?_⟩
  show g.content = op.onBytes ret st.2
  rw [hg.content (by omega), hcontent]

/-- **The run lemma**. -/
theorem sbRun_represents : ∀ {ops : List SbOp} {st : StringBuffer × Bytes}, Represents st →
    (∀ op ∈ ops, op.Valid) → Below mem st ops (2 ^ 31) →
    ∃ st', ops.foldlM (sbStep mem) st = .ok st' ∧ Represents st' := by
  intro ops
  induction ops with
  | nil => intro st h _ _; exact ⟨st, run_nil.mpr rfl, h⟩
  | cons op ops ih =>
      intro st h hvalid hsmall
      obtain ⟨m, hstep, hm⟩ := sbStep_represents h (hvalid op List.mem_cons_self) hsmall
      obtain ⟨st', hrun, h'⟩ :=
        ih hm (fun o ho => hvalid o (List.mem_cons_of_mem _ ho)) (hsmall.tail hstep)
      exact ⟨st', run_cons.mpr ⟨m, hstep, hrun⟩, h'⟩

/-- **The string buffer refines a byte list.**  Every run comes to its end inside the block, the
content is the list and there is room for one byte more.  The call that is made next returns 1
exactly if it is refused memory, and then changes nothing. -/
theorem stringBuffer_refines (mem : Allocator) {size : Nat} (hpos : 1 ≤ size) (hsize : size < 2 ^ 64)
    (ops : List SbOp) (hvalid : ∀ op ∈ ops, op.Valid)
    (hsmall : Below mem (sbInit size, []) ops (2 ^ 31)) :
    ∃ this bytes, ops.foldlM (sbStep mem) (sbInit size, []) = .ok (this, bytes)
      ∧ this.content = bytes ∧ this.endPos < this.size ∧ this.string.length = this.size
      ∧ ∀ op : SbOp, op.Valid → ∃ ret g, op.call mem this = .ok (ret, g)
        ∧ (ret = 0 ∧ ¬ op.RefusedBy mem this
          ∨ ret = 1 ∧ op.RefusedBy mem this ∧ g.content = this.content) := by
  have hinit : Represents (sbInit size, []) := ⟨sound_init hpos hsize, rfl⟩
  obtain ⟨⟨this, bytes⟩, hrun, hrep⟩ := sbRun_represents hinit hvalid hsmall
  have hsound : this.Sound := hrep.1
  have hcontent : this.content = bytes := hrep.2
  have hlast : bytes.length < 2 ^ 31 := hsmall ops _ (List.prefix_refl _) hrun
  have hlen : this.content.length = this.endPos := hsound.content_length
  rw [hcontent] at hlen
  refine ⟨this, bytes, hrun, hcontent, hsound.room, hsound.length, fun op hop => ?_⟩
  obtain ⟨ret, g, hcall, hg⟩ := call_answers mem hsound hop (by omega)
  exact ⟨ret, g, hcall, hg.granted⟩

/-- A buffer of one byte whose first request is refused: the first append does nothing, the second
takes place. -/
theorem stringBuffer_refines_refused :
    let mem : Allocator := fun call _ => if call = 0 then none else some fun _ => 170
    let ops : List SbOp := [.append [97, 98], .appendl [99, 0], .deletehead 1, .append [100]]
    ∃ this bytes, ops.foldlM (sbStep mem) (sbInit 1, []) = .ok (this, bytes)
      ∧ this.content = bytes ∧ this.endPos < this.size ∧ this.string.length = this.size
      ∧ ∀ op : SbOp, op.Valid → ∃ ret g, op.call mem this = .ok (ret, g)
        ∧ (ret = 0 ∧ ¬ op.RefusedBy mem this
          ∨ ret = 1 ∧ op.RefusedBy mem this ∧ g.content = this.content) := by
  refine stringBuffer_refines _ (by decide) (by decide) _ ?_ (below_of_added (by decide))
  simp only [List.forall_mem_cons]
  refine ⟨⟨by decide, by decide⟩, ?_, trivial, ⟨by decide, by decide⟩, by simp⟩
  show [(99 : UInt8), 0].length < 2 ^ 62
  decide

end Step

end DirSurveiller
