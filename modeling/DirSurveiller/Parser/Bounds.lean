/-
  DirSurveiller.Parser.Bounds — what the receive loops hand to `sb_appendl`.

  The result of `recv` goes into `sb_appendl` as it is: a chunk with its length, and -1 as the
  largest `size_t`.  With bytes in `sbuf` the sum with `end_pos` wraps, the capacity test passes and
  the `memcpy` leaves both blocks; with an empty `sbuf` the buffer doubles until a request is
  refused.

  Main result:
    * `recv_handled_iff` — in every state either thread reaches, for every result of `recv`.

  Between two `recv` calls the block of `sbuf` is sound, its size is a power of two and the position
  fits an `int` (`Steady`).
-/
import DirSurveiller.Containers.Capacity
import DirSurveiller.Parser.Cursor

namespace DirSurveiller

open CMachine Outcome

/-! ## §1. Handled within bounds. -/

/-- The bytes that were received. -/
def Recv.bytes : Recv → Bytes
  | .chunk bytes => bytes
  | _ => []

/-- `sb_appendl` of `rlen` bytes from `buf`: the sum with the position does not wrap, no access
leaves the blocks, the buffer stays inside its own, and its content grows by `bytes`, or stays as it
is because a request was refused. -/
structure AppendsExactly (mem : Allocator) (sbuf : StringBuffer) (buf : Bytes) (rlen : Nat)
    (bytes : Bytes) : Prop where
  sum : sbuf.endPos + rlen < 2 ^ 64
  result : ∃ ret g, sbAppendl mem sbuf buf rlen = .ok (ret, g) ∧ g.string.length = g.size
    ∧ g.endPos < g.size
    ∧ (ret = 0 ∧ g.content = sbuf.content ++ bytes
      ∨ ret = 1 ∧ g.content = sbuf.content ∧ sbuf.Refuses mem rlen)

/-- How a round of the loop handles what `recv` returned: the end of the stream ends the loop with
the buffer as it is; anything else is appended. -/
def HandledInBounds {ρ : Type} (mem : ParserMem) (handle : Handler ρ) (p : Parser ρ) (r : Recv) :
    Prop :=
  match r.data with
  | none => receive mem handle p r = .ok { p with exited := true }
  | some (buf, rlen) => receive mem handle p r = consume mem handle p buf rlen
      ∧ AppendsExactly mem.sbuf p.sbuf buf rlen r.bytes

/-! ## §2. Between two calls of `recv`. -/

/-- What holds of `sbuf` whenever a thread is in its loop. -/
structure Steady (sbuf : StringBuffer) : Prop where
  sound : sbuf.Sound
  power : ∃ j, sbuf.size = 2 ^ j
  small : sbuf.endPos < INT_MAX

section Steady

open StringBuffer Doubling

variable {ρ : Type} {mem : ParserMem} {handle : Handler ρ} {p q start : Parser ρ} {i : Nat}

theorem steady_init : Steady (sbInit 512) :=
  ⟨sound_init (by decide) (by decide), ⟨9, rfl⟩, by decide⟩

/-- The scan writes into the block and changes nothing else of the buffer. -/
theorem Scanned.numbers (h : Scanned mem handle start i q) :
    q.sbuf.endPos = start.sbuf.endPos ∧ q.sbuf.size = start.sbuf.size
      ∧ q.sbuf.string.length = start.sbuf.string.length := by
  induction h with
  | start => exact ⟨rfl, rfl, rfl⟩
  | next _ hstep hrun ih =>
      obtain ⟨b, -, hscan⟩ := scanByte_inv hstep hrun
      refine ⟨hscan.endPos.trans ih.1, hscan.size.trans ih.2.1, ?_⟩
      rcases hscan.string with ⟨hs, -⟩ | hs
      · rw [hs]
        exact ih.2.2
      · rw [hs, List.length_set]
        exact ih.2.2

theorem Scanned.sound (h : Scanned mem handle start i q) (hsound : start.sbuf.Sound) :
    q.sbuf.Sound := by
  obtain ⟨hend, hsize, hlength⟩ := h.numbers
  refine ⟨?_, ?_, ?_, ?_⟩
  · rw [hlength, hsize]
    exact hsound.length
  · rw [hend, hsize]
    exact hsound.room
  · rw [hsize]
    exact hsound.small
  · rw [hend]
    exact hsound.position

/-- A buffer that was appended to has a size that is a power of two again. -/
theorem appended_power {this g : StringBuffer} {s : Bytes} (hg : StringBuffer.Appended mem.sbuf this s g)
    (hr : ¬ this.Refuses mem.sbuf s.length) (hpower : ∃ j, this.size = 2 ^ j) :
    ∃ j, g.size = 2 ^ j := by
  obtain ⟨j, hj⟩ := hpower
  refine ⟨j + doublings this.size (this.endPos + s.length), ?_⟩
  rw [(hg.numbers hr).1, hj, Nat.pow_add]

/-- **One chunk**: a thread that goes on has a steady buffer. -/
theorem consume_steady (h : Steady p.sbuf) (hp : p.exited = false) {bytes : Bytes}
    (hsize : bytes.length ≤ 256) (hrun : consume mem handle p bytes bytes.length = .ok q)
    (hq : q.exited = false) : Steady q.sbuf := by
  have hmax : INT_MAX = 2147483647 := rfl
  have hsmall := h.small
  unfold consume at hrun
  by_cases hr : p.sbuf.Refuses mem.sbuf bytes.length
  · obtain ⟨g, hcall, -⟩ := appendl_declined h.sound (by omega) hr bytes
    rw [hcall, ok_bind] at hrun
    cases hrun
    cases hq
  · obtain ⟨sbuf, hcall, hg, -⟩ := appendl_appended h.sound (by omega) hr
    rw [hcall, ok_bind] at hrun
    dsimp only at hrun
    rw [if_neg (by decide)] at hrun
    obtain ⟨p1, hscan, hrun⟩ := bind_ok hrun
    by_cases hexit : p1.exited = true
    · rw [if_pos hexit] at hrun
      cases hrun
      rw [hexit] at hq
      cases hq
    · rw [if_neg hexit] at hrun
      obtain ⟨sbuf', hdelete, hrun⟩ := bind_ok hrun
      cases hrun
      have hp1 : p1.exited = false := by simpa using hexit
      have hall : Scanned mem handle { p with sbuf := sbuf } _ p1 :=
        scan_scanned _ 0 _ p1 .start hp hscan hp1
      have hsound1 : p1.sbuf.Sound := hall.sound hg.sound
      have hend : p1.sbuf.endPos = sbuf.endPos := hall.numbers.1
      have hsame : p1.sbuf.size = sbuf.size := hall.numbers.2.1
      -- a longer scan would have overflowed its index
      have hfits : sbuf.endPos < INT_MAX := by
        by_contra hge
        have hover := scan_overflow _ 0 _ p1 (Nat.zero_le _) (by omega) hscan
        rw [hp1] at hover
        cases hover
      obtain ⟨g, hcall', hsound', -, -, hsize'⟩ :=
        deletehead_sound hsound1 p1.lfieldStart (.inl (by omega))
      obtain rfl := Except.ok.inj (hdelete.symm.trans hcall')
      obtain ⟨hle, -⟩ := sbDeletehead_inv hdelete
      refine ⟨hsound', ?_, ?_⟩
      · show ∃ j, sbuf'.size = 2 ^ j
        rw [hsize', hsame]
        exact appended_power hg hr h.power
      · show sbuf'.endPos < INT_MAX
        omega

/-- No buffer has as many bytes as the largest `size_t`, so a thread does not go on after -1. -/
theorem consume_failed (hrun : consume mem handle p [] (2 ^ 64 - 1) = .ok q) : q.exited = true := by
  unfold consume at hrun
  obtain ⟨⟨ret, sbuf⟩, happend, hrun⟩ := bind_ok hrun
  dsimp only at hrun
  by_cases hret : ret ≠ 0
  · rw [if_pos hret] at hrun
    cases hrun
    rfl
  · rw [not_not.mp hret] at happend
    unfold sbAppendl at happend
    obtain ⟨⟨grown, g⟩, -, happend⟩ := bind_ok happend
    dsimp only at happend
    split at happend
    · obtain ⟨block, hcopy, -⟩ := bind_ok happend
      unfold memcpy at hcopy
      rw [if_neg (fun hin => absurd hin.1 (by decide))] at hcopy
      cases hcopy
    · cases happend

/-- **One round of the loop.** -/
theorem receive_steady {r : Recv} (hsize : ChunkSizes [r]) (h : p.exited = false → Steady p.sbuf)
    (hrun : receive mem handle p r = .ok q) (hq : q.exited = false) : Steady q.sbuf := by
  unfold receive at hrun
  by_cases hexit : p.exited = true
  · rw [if_pos hexit] at hrun
    cases hrun
    rw [hexit] at hq
    cases hq
  · have hp : p.exited = false := by simpa using hexit
    rw [if_neg hexit] at hrun
    cases r with
    | leave => cases hrun; cases hq
    | closed => cases hrun; cases hq
    | failed =>
        rw [consume_failed hrun] at hq
        cases hq
    | chunk bytes => exact consume_steady (h hp) hp (hsize bytes (by simp)) hrun hq

/-- **A whole run.** -/
theorem run_steady {sizes : List Nat} {rs : List Recv} (hsizes : ChunkSizes rs)
    (hrun : rs.foldlM (receive mem handle) (parserInit sizes) = .ok p) :
    p.exited = false → Steady p.sbuf := by
  have hall : EachStep (receive mem handle) (parserInit sizes) rs fun _ r _ => ChunkSizes [r] := by
    intro pre r post m m' hrs _ _ bytes hb
    refine hsizes bytes ?_
    obtain rfl := List.mem_singleton.mp hb
    rw [hrs, List.mem_append]
    exact .inr List.mem_cons_self
  have hstep : ∀ (s : Parser ρ) (r : Recv) (s' : Parser ρ), (s.exited = false → Steady s.sbuf) →
      ChunkSizes [r] → receive mem handle s r = .ok s' → s'.exited = false → Steady s'.sbuf :=
    fun s r s' hs hr hrun hq => receive_steady hr hs hrun hq
  exact EachStep.invariant (P := fun p => p.exited = false → Steady p.sbuf) hstep hall
    (fun _ => steady_init) hrun

/-! ## §3. Every result of `recv`. -/

theorem receive_running (mem : ParserMem) (handle : Handler ρ) (hp : p.exited = false) (r : Recv) :
    receive mem handle p r = match r.data with
      | none => .ok { p with exited := true }
      | some (buf, rlen) => consume mem handle p buf rlen := by
  unfold receive
  rw [if_neg (by rw [hp]; decide)]
  cases r <;> rfl

/-- A chunk is appended, or a request was refused. -/
theorem chunk_appends {sbuf : StringBuffer} (h : Steady sbuf) {bytes : Bytes}
    (hsize : bytes.length ≤ 256) : AppendsExactly mem.sbuf sbuf bytes bytes.length bytes := by
  have hmax : INT_MAX = 2147483647 := rfl
  have hsmall := h.small
  refine ⟨by omega, ?_⟩
  by_cases hr : sbuf.Refuses mem.sbuf bytes.length
  · obtain ⟨g, hcall, hg⟩ := appendl_declined h.sound (by omega) hr bytes
    exact ⟨1, g, hcall, hg.sound.length, hg.sound.room, .inr ⟨rfl, hg.content h.sound, hr⟩⟩
  · obtain ⟨g, hcall, hg, -⟩ := appendl_appended h.sound (by omega) hr
    exact ⟨0, g, hcall, hg.sound.length, hg.sound.room,
      .inl ⟨rfl, hg.content h.sound (by omega)⟩⟩

/-- The largest `size_t` is appended within bounds only to an empty buffer, and only if a request
is refused: otherwise the size comes to 0. -/
theorem failed_appends_iff {sbuf : StringBuffer} (h : Steady sbuf) :
    AppendsExactly mem.sbuf sbuf [] (2 ^ 64 - 1) []
      ↔ sbuf.endPos = 0 ∧ sbuf.Refuses mem.sbuf (2 ^ 64 - 1) := by
  constructor
  · intro happends
    have hsum := happends.sum
    have hempty : sbuf.endPos = 0 := by omega
    refine ⟨hempty, ?_⟩
    obtain ⟨ret, g, hcall, -, hroom, -⟩ := happends.result
    by_contra hr
    obtain ⟨j, hj⟩ := h.power
    unfold sbAppendl at hcall
    obtain ⟨⟨grown, m⟩, hgrow, hcall⟩ := bind_ok hcall
    obtain ⟨rfl, hzero⟩ := grow_wraps h.sound hj (by omega) (by omega) hr hgrow
    obtain rfl : m = g := (Prod.mk.inj (Except.ok.inj hcall)).2
    omega
  · intro hcond
    obtain ⟨hempty, hr⟩ := hcond
    have hsum : sbuf.endPos + (2 ^ 64 - 1) < 2 ^ 64 := by omega
    obtain ⟨g, hcall, hg⟩ := appendl_declined h.sound hsum hr []
    exact ⟨hsum, 1, g, hcall, hg.sound.length, hg.sound.room, .inr ⟨rfl, hg.content h.sound, hr⟩⟩

/-- Either thread, in any state it reaches. -/
theorem run_handled_iff {sizes : List Nat} {rs : List Recv} {r : Recv} (hsizes : ChunkSizes rs)
    (hnext : ChunkSizes [r]) (hrun : rs.foldlM (receive mem handle) (parserInit sizes) = .ok p)
    (hp : p.exited = false) : HandledInBounds mem handle p r
      ↔ (r = .failed → p.sbuf.endPos = 0 ∧ p.sbuf.Refuses mem.sbuf (2 ^ 64 - 1)) := by
  have hsteady := run_steady hsizes hrun hp
  have hreceive := receive_running mem handle hp r
  cases r with
  | leave => exact iff_of_true hreceive fun e => by cases e
  | closed => exact iff_of_true hreceive fun e => by cases e
  | chunk bytes =>
      exact iff_of_true ⟨hreceive, chunk_appends hsteady (hnext bytes (by simp))⟩
        fun e => by cases e
  | failed =>
      constructor
      · intro hhandled _
        exact (failed_appends_iff hsteady).mp hhandled.2
      · intro hcond
        exact ⟨hreceive, (failed_appends_iff hsteady).mpr (hcond rfl)⟩

end Steady

/-- **Every result of `recv` is handled within bounds**, in every state either thread reaches,
except for -1: that is so only if `sbuf` is empty and `realloc` refuses one of the requests that
follow. -/
theorem recv_handled_iff {mem : ParserMem} {rs : List Recv} {r : Recv} (hsizes : ChunkSizes rs)
    (hnext : ChunkSizes [r]) :
    (∀ env fresh p, survHandleExecCallSocket mem env fresh rs = .ok p → p.exited = false →
        (HandledInBounds mem (handleExecLine env fresh) p r
          ↔ (r = .failed → p.sbuf.endPos = 0 ∧ p.sbuf.Refuses mem.sbuf (2 ^ 64 - 1))))
      ∧ ∀ env stat filter p, survHandleOpenCallSocket mem env stat filter rs = .ok p →
        p.exited = false →
        (HandledInBounds mem (handleOpenLine env stat filter) p r
          ↔ (r = .failed → p.sbuf.endPos = 0 ∧ p.sbuf.Refuses mem.sbuf (2 ^ 64 - 1))) :=
  ⟨fun _ _ _ hrun hp => run_handled_iff hsizes hnext hrun hp,
    fun _ _ _ _ hrun hp => run_handled_iff hsizes hnext hrun hp⟩

/-- -1 after half a line. -/
theorem recv_handled_half_line :
    (∀ env fresh p, survHandleExecCallSocket .zeroing env fresh [.chunk [97]] = .ok p →
        p.exited = false →
        (HandledInBounds .zeroing (handleExecLine env fresh) p .failed
          ↔ (Recv.failed = .failed →
            p.sbuf.endPos = 0 ∧ p.sbuf.Refuses ParserMem.zeroing.sbuf (2 ^ 64 - 1))))
      ∧ ∀ env stat filter p,
        survHandleOpenCallSocket .zeroing env stat filter [.chunk [97]] = .ok p →
        p.exited = false →
        (HandledInBounds .zeroing (handleOpenLine env stat filter) p .failed
          ↔ (Recv.failed = .failed →
            p.sbuf.endPos = 0 ∧ p.sbuf.Refuses ParserMem.zeroing.sbuf (2 ^ 64 - 1))) := by
  refine recv_handled_iff (fun bytes hb => ?_) (fun bytes hb => ?_)
  · simp only [List.mem_singleton, Recv.chunk.injEq] at hb
    rw [hb]
    decide
  · simp at hb

/-- A thread that holds one byte when `recv` returns -1. -/
theorem not_handled_of_held {ρ : Type} {mem : ParserMem} {handle : Handler ρ}
    {r : Except Fault (Parser ρ)}
    (hr : r.map (fun p => (p.exited, p.sbuf.endPos)) = .ok (false, 1)) :
    ∃ p, r = .ok p ∧ p.exited = false ∧ ¬ HandledInBounds mem handle p .failed := by
  cases r with
  | error e => cases hr
  | ok p =>
      obtain ⟨hexit, hend⟩ := Prod.mk.inj (Except.ok.inj hr)
      refine ⟨p, rfl, hexit, fun h => ?_⟩
      have hsum := h.2.sum
      omega

/-- After the chunk `a` either thread holds one byte, and -1 makes it leave its block. -/
theorem recv_failed_outside :
    (∃ p, survHandleExecCallSocket .zeroing .granting (fun _ => ExecCall.zero) [.chunk [97]] = .ok p
        ∧ p.exited = false
        ∧ ¬ HandledInBounds .zeroing (handleExecLine .granting fun _ => ExecCall.zero) p .failed)
      ∧ ∃ p, survHandleOpenCallSocket .zeroing .granting (fun _ => none) (fun _ => true)
          [.chunk [97]] = .ok p ∧ p.exited = false
        ∧ ¬ HandledInBounds .zeroing (handleOpenLine .granting (fun _ => none) fun _ => true) p
          .failed := by
  have hexec : (survHandleExecCallSocket .zeroing .granting (fun _ => ExecCall.zero)
      [.chunk [97]]).map (fun p => (p.exited, p.sbuf.endPos)) = .ok (false, 1) := by
    decide +kernel
  have hopen : (survHandleOpenCallSocket .zeroing .granting (fun _ => none) (fun _ => true)
      [.chunk [97]]).map (fun p => (p.exited, p.sbuf.endPos)) = .ok (false, 1) := by
    decide +kernel
  exact ⟨not_handled_of_held hexec, not_handled_of_held hopen⟩

end DirSurveiller
