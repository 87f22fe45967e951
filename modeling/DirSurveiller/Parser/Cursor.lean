/-
  DirSurveiller.Parser.Cursor — the field cursor of the receive loops.

  `curr_field` is counted up at every tab and goes back to 0 at a newline; nothing compares it with
  the number of field buffers before it is used as an index into them.  So it stays below that
  number only as long as no line has more than five tabs.

  Main result:
    * `field_cursor_inside` — in every run over such a stream, on either socket and whatever the
                              allocators, the handler and the ring buffer do.

  The invariant is that no tab is in `sbuf` between two `recv` calls, and that `curr_field` counts
  at most the tabs received since the last newline.
-/
import DirSurveiller.Parser.Stream

namespace DirSurveiller

open CMachine Outcome

/-! ## §1. Where a field is appended. -/

/-- What `recv` leaves in `buf`, and its returned value as a `size_t`. -/
def Recv.data : Recv → Option (Bytes × Nat)
  | .chunk bytes => some (bytes, bytes.length)
  | .failed => some ([], 2 ^ 64 - 1)
  | _ => none

section Scanned

variable {ρ : Type} (mem : ParserMem) (handle : Handler ρ)

/-- The states at the head of the scanning loop, by their index. -/
inductive Scanned (start : Parser ρ) : Nat → Parser ρ → Prop where
  | start : Scanned start 0 start
  | next {i : Nat} {p q : Parser ρ} :
      Scanned start i p → scanByte mem handle p i = .ok q → q.exited = false →
      Scanned start (i + 1) q

/-- After the `recv` of `r` in the state `p`, the scan comes to index `i` in the state `q`. -/
def ScanComesTo (p : Parser ρ) (r : Recv) (i : Nat) (q : Parser ρ) : Prop :=
  ∃ buf rlen sbuf, p.exited = false ∧ r.data = some (buf, rlen)
    ∧ sbAppendl mem.sbuf p.sbuf buf rlen = .ok (0, sbuf)
    ∧ i ≤ sbuf.endPos ∧ Scanned mem handle { p with sbuf := sbuf } i q

/-- The byte at index `i` makes the code execute `sb_append(fields+curr_field, …)`. -/
def AppendsAt (q : Parser ρ) (i : Nat) : Prop :=
  q.sbuf.string[i]? = some TAB
    ∨ (q.sbuf.string[i]? = some NEWLINE ∧ q.currField = fieldNum - 1)

/-- Wherever the run of a thread executes `sb_append(fields+curr_field, …)`, the cursor is inside
the field array. -/
def CursorInside (p0 : Parser ρ) (rs : List Recv) : Prop :=
  ∀ pre r post p i q, rs = pre ++ r :: post → pre.foldlM (receive mem handle) p0 = .ok p →
    ScanComesTo mem handle p r i q → AppendsAt q i → q.currField < fieldNum

end Scanned

/-! ## §2. The tabs of the line in progress. -/

/-- The tabs since the last newline. -/
def lineTabs (bytes : Bytes) : Nat := (bytes.rtakeWhile fun b => decide (b ≠ NEWLINE)).count TAB

theorem lineTabs_tab (bytes : Bytes) : lineTabs (bytes ++ [TAB]) = lineTabs bytes + 1 := by
  unfold lineTabs
  rw [List.rtakeWhile_concat_pos _ _ _ (by simpa using tab_ne_newline)]
  simp

theorem lineTabs_plain (bytes : Bytes) {b : UInt8} (h : PlainByte b) :
    lineTabs (bytes ++ [b]) = lineTabs bytes := by
  unfold lineTabs
  rw [List.rtakeWhile_concat_pos _ _ _ (by simpa using h.2)]
  simp [h.1]

/-- The tabs since the last newline are those of a line of the stream. -/
theorem lineTabs_le {bytes stream rest : Bytes} (hstream : stream = bytes ++ rest) {n : Nat}
    (hlines : ∀ line, line <:+: stream → NEWLINE ∉ line → line.count TAB ≤ n) :
    lineTabs bytes ≤ n := by
  obtain ⟨front, hfront⟩ := List.rtakeWhile_suffix (fun b => decide (b ≠ NEWLINE)) bytes
  apply hlines
  · exact ⟨front, rest, by rw [hfront, hstream]⟩
  · intro hm
    simpa using List.mem_rtakeWhile_imp hm

/-! ## §3. One index of the scan. -/

section Step

variable {ρ : Type} {mem : ParserMem} {handle : Handler ρ} {p q : Parser ρ} {i : Nat}

theorem cutAt_inv (h : cutAt p i = .ok q) : q = p.cut i := by
  unfold cutAt store at h
  split at h
  · cases h
    rfl
  · cases h

theorem appendField_inv (h : appendField mem p = .ok q) :
    q.sbuf = p.sbuf ∧ q.currField = p.currField ∧ q.exited = p.exited := by
  unfold appendField at h
  split at h
  · cases h
  · obtain ⟨r, -, h⟩ := bind_ok h
    cases h
    exact ⟨rfl, rfl, rfl⟩

/-- What a byte does to the buffer and the cursor, whatever the handler does. -/
structure Scans (p : Parser ρ) (i : Nat) (b : UInt8) (q : Parser ρ) : Prop where
  string : q.sbuf.string = p.sbuf.string ∧ b ≠ TAB ∨ q.sbuf.string = p.sbuf.string.set i 0
  endPos : q.sbuf.endPos = p.sbuf.endPos
  size : q.sbuf.size = p.sbuf.size
  newline : b = NEWLINE → q.currField = 0
  tab : b = TAB → q.currField = p.currField + 1
  plain : PlainByte b → q.currField = p.currField

theorem scanTab_inv (h : scanTab mem p i = .ok q) : Scans p i TAB q := by
  unfold scanTab at h
  obtain ⟨p1, h1, h⟩ := bind_ok h
  obtain ⟨p2, h2, h⟩ := bind_ok h
  cases h
  rw [cutAt_inv h1] at h2
  obtain ⟨hsbuf, hcurr, -⟩ := appendField_inv h2
  refine ⟨.inr ?_, ?_, ?_, fun e => absurd e tab_ne_newline, fun _ => ?_, fun e => absurd rfl e.1⟩
  · show p2.sbuf.string = _
    rw [hsbuf]
    rfl
  · show p2.sbuf.endPos = _
    rw [hsbuf]
    rfl
  · show p2.sbuf.size = _
    rw [hsbuf]
    rfl
  · show p2.currField + 1 = _
    rw [hcurr]
    rfl

theorem finishLine_inv (h : finishLine mem handle p i = .ok q) : q.sbuf = (p.cut i).sbuf := by
  unfold finishLine at h
  obtain ⟨p1, h1, h⟩ := bind_ok h
  obtain ⟨p2, h2, h⟩ := bind_ok h
  obtain ⟨r, -, h⟩ := bind_ok h
  cases h
  rw [cutAt_inv h1] at h2
  exact (appendField_inv h2).1

theorem scanNewline_inv (h : scanNewline mem handle p i = .ok q) (hrun : q.exited = false) :
    Scans p i NEWLINE q := by
  unfold scanNewline at h
  have hne : NEWLINE ≠ TAB := Ne.symm tab_ne_newline
  by_cases hfull : p.currField = fieldNum - 1
  · -- a whole line: its last field is cut off, which writes one NUL into the block
    rw [if_pos hfull] at h
    obtain ⟨p1, h1, h⟩ := bind_ok h
    have hsbuf := finishLine_inv h1
    dsimp only at h
    by_cases hexit : p1.exited = true
    · rw [if_pos hexit] at h
      cases h
      rw [hexit] at hrun
      cases hrun
    · rw [if_neg hexit] at h
      obtain ⟨fields, -, h⟩ := bind_ok h
      cases h
      refine ⟨.inr ?_, ?_, ?_, fun _ => rfl, fun e => absurd e hne, fun e => absurd rfl e.2⟩
      · show p1.sbuf.string = _
        rw [hsbuf]
        rfl
      · show p1.sbuf.endPos = _
        rw [hsbuf]
        rfl
      · show p1.sbuf.size = _
        rw [hsbuf]
        rfl
  · rw [if_neg hfull, ok_bind] at h
    dsimp only at h
    by_cases hexit : p.exited = true
    · rw [if_pos hexit] at h
      cases h
      rw [hexit] at hrun
      cases hrun
    · rw [if_neg hexit] at h
      obtain ⟨fields, -, h⟩ := bind_ok h
      cases h
      exact ⟨.inl ⟨rfl, hne⟩, rfl, rfl, fun _ => rfl, fun e => absurd e hne, fun e => absurd rfl e.2⟩

theorem scanByte_inv (h : scanByte mem handle p i = .ok q) (hrun : q.exited = false) :
    ∃ b, p.sbuf.string[i]? = some b ∧ Scans p i b q := by
  unfold scanByte at h
  obtain ⟨b, hb, h⟩ := bind_ok h
  have hget : p.sbuf.string[i]? = some b := by
    unfold load at hb
    split at hb
    · cases hb
      assumption
    · cases hb
  refine ⟨b, hget, ?_⟩
  by_cases hnl : b = NEWLINE
  · rw [if_pos hnl] at h
    rw [hnl]
    exact scanNewline_inv h hrun
  · rw [if_neg hnl] at h
    by_cases htab : b = TAB
    · rw [if_pos htab] at h
      rw [htab]
      exact scanTab_inv h
    · rw [if_neg htab] at h
      cases h
      exact ⟨.inl ⟨rfl, htab⟩, rfl, rfl, fun e => absurd e hnl, fun e => absurd e htab, fun _ => rfl⟩

end Step

/-! ## §4. One `recv`. -/

section Receive

variable {ρ : Type} {mem : ParserMem} {handle : Handler ρ} {p q start : Parser ρ} {i : Nat}

/-- The state of the buffer when the scan stands at index `i`: no tab is behind it, the bytes before
it are as they were received, and the cursor counts no more than the tabs of the line. -/
structure Counted (sofar : Bytes) (held : Nat) (bytes S : Bytes) (i : Nat) (q : Parser ρ) : Prop where
  rest : q.sbuf.string.drop i = S.drop i
  clean : TAB ∉ q.sbuf.string.take i
  cursor : q.currField ≤ lineTabs (sofar ++ bytes.take (i - held))

/-- The bytes of the buffer that is scanned: those held back, those received, and those behind. -/
structure Block (held bytes S : Bytes) : Prop where
  string : ∃ tail, S = held ++ bytes ++ tail ∧ TAB ∉ tail
  held : TAB ∉ held

variable {sofar held bytes S : Bytes}

/-- A tab in the block is one of the received bytes. -/
theorem Block.tab (h : Block held bytes S) (hi : S[i]? = some TAB) :
    ∃ k, i = held.length + k ∧ bytes[k]? = some TAB := by
  obtain ⟨tail, rfl, htail⟩ := h.string
  rw [List.append_assoc] at hi
  rcases Nat.lt_or_ge i held.length with hlt | hge
  · rw [List.getElem?_append_left hlt] at hi
    exact absurd (List.mem_of_getElem? hi) h.held
  · rw [List.getElem?_append_right hge] at hi
    rcases Nat.lt_or_ge (i - held.length) bytes.length with hlt | hge'
    · rw [List.getElem?_append_left hlt] at hi
      exact ⟨i - held.length, by omega, hi⟩
    · rw [List.getElem?_append_right hge'] at hi
      exact absurd (List.mem_of_getElem? hi) htail

variable (sofar) in
/-- What the cursor counts up to index `i` is what it counts up to the next one, but for a tab and
a newline there. -/
theorem lineTabs_next {b : UInt8} (h : Block held bytes S) (hi : S[i]? = some b) :
    (b = TAB → lineTabs (sofar ++ bytes.take (i + 1 - held.length))
        = lineTabs (sofar ++ bytes.take (i - held.length)) + 1)
      ∧ (PlainByte b → lineTabs (sofar ++ bytes.take (i + 1 - held.length))
        = lineTabs (sofar ++ bytes.take (i - held.length))) := by
  constructor
  · intro hb
    rw [hb] at hi
    obtain ⟨k, rfl, hk⟩ := h.tab hi
    rw [show held.length + k + 1 - held.length = k + 1 by omega,
      show held.length + k - held.length = k by omega, List.take_add_one, hk,
      ← List.append_assoc]
    exact lineTabs_tab _
  · intro hb
    rcases Nat.lt_or_ge i held.length with hlt | hge
    · rw [show i + 1 - held.length = 0 by omega, show i - held.length = 0 by omega]
    · obtain ⟨tail, rfl, -⟩ := h.string
      rw [List.append_assoc, List.getElem?_append_right hge] at hi
      rw [show i + 1 - held.length = i - held.length + 1 by omega, List.take_add_one]
      rcases Nat.lt_or_ge (i - held.length) bytes.length with hlt | hge'
      · rw [List.getElem?_append_left hlt] at hi
        rw [hi, ← List.append_assoc]
        exact lineTabs_plain _ hb
      · rw [List.getElem?_eq_none hge']
        simp

/-- **One index.** -/
theorem Counted.step (hblock : Block held bytes S) (h : Counted sofar held.length bytes S i p)
    (hstep : scanByte mem handle p i = .ok q) (hrun : q.exited = false) :
    Counted sofar held.length bytes S (i + 1) q := by
  obtain ⟨b, hget, hscan⟩ := scanByte_inv hstep hrun
  have hlt := (List.getElem?_eq_some_iff.mp hget).1
  have hS : S[i]? = some b := by
    rw [← Nat.add_zero i, ← List.getElem?_drop, ← h.rest, List.getElem?_drop]
    exact hget
  obtain ⟨htab, hplain⟩ := lineTabs_next sofar hblock hS
  refine ⟨?_, ?_, ?_⟩
  · rcases hscan.string with ⟨hs, -⟩ | hs
    · rw [hs]
      exact drop_succ_of_drop h.rest
    · rw [hs, List.drop_set_of_lt (Nat.lt_succ_self i)]
      exact drop_succ_of_drop h.rest
  · rcases hscan.string with ⟨hs, hb⟩ | hs
    · rw [hs, List.take_add_one, hget, List.mem_append, not_or]
      refine ⟨h.clean, fun e => hb ?_⟩
      rw [Option.mem_toList, Option.some.injEq] at e
      exact e
    · rw [hs, List.take_add_one, List.getElem?_set_self hlt, List.take_set_of_le (Nat.le_refl i),
        List.mem_append, not_or]
      exact ⟨h.clean, by simp [TAB]⟩
  · by_cases hnl : b = NEWLINE
    · rw [hscan.newline hnl]
      exact Nat.zero_le _
    · by_cases ht : b = TAB
      · rw [hscan.tab ht, htab ht]
        exact Nat.succ_le_succ h.cursor
      · rw [hscan.plain ⟨ht, hnl⟩, hplain ⟨ht, hnl⟩]
        exact h.cursor

/-- **Every index of the scan.** -/
theorem Scanned.counted (hblock : Block held bytes S)
    (hstart : Counted sofar held.length bytes S 0 start) (h : Scanned mem handle start i q) :
    Counted sofar held.length bytes S i q ∧ q.sbuf.endPos = start.sbuf.endPos := by
  induction h with
  | start => exact ⟨hstart, rfl⟩
  | next _ hstep hrun ih =>
      obtain ⟨b, -, hscan⟩ := scanByte_inv hstep hrun
      exact ⟨ih.1.step hblock hstep hrun, hscan.endPos.trans ih.2⟩

/-- A scan that does not end the thread has come to its last index. -/
theorem scan_scanned : ∀ (left i : Nat) (p q : Parser ρ), Scanned mem handle start i p →
    p.exited = false → scan mem handle left i p = .ok q → q.exited = false →
    Scanned mem handle start (i + left) q := by
  intro left
  induction left with
  | zero =>
      intro i p q h _ hrun _
      cases hrun
      exact h
  | succ left ih =>
      intro i p q h hp hrun hq
      rw [scan] at hrun
      obtain ⟨p1, h1, hrun⟩ := bind_ok hrun
      by_cases hexit : p1.exited = true
      · rw [if_pos hexit] at hrun
        cases hrun
        rw [hexit] at hq
        cases hq
      · rw [if_neg hexit] at hrun
        have hp1 : p1.exited = false := by simpa using hexit
        by_cases hmax : i = INT_MAX
        · rw [if_pos hmax] at hrun
          cases hrun
        · rw [if_neg hmax] at hrun
          have hnext := ih (i + 1) p1 q (h.next h1 hp1) hp1 hrun hq
          rwa [show i + 1 + left = i + (left + 1) by omega] at hnext

/-- Growing adds bytes the environment chose, and perhaps takes some away. -/
theorem sbGrow_inv {mem : Allocator} {P : UInt8 → Prop} (hfills : mem.Fills P) {len : Nat} :
    ∀ (rounds : Nat) (this g : StringBuffer) (ready : Bool), (∀ b ∈ this.string, P b) →
      sbGrow mem len rounds this = .ok (ready, g) →
      g.endPos = this.endPos ∧ ∀ b ∈ g.string, P b := by
  intro rounds
  induction rounds with
  | zero =>
      intro this g ready hthis h
      unfold sbGrow at h
      split at h
      · cases h
      · cases h
        exact ⟨rfl, hthis⟩
  | succ rounds ih =>
      intro this g ready hthis h
      unfold sbGrow at h
      split at h
      · split at h
        · cases h
          exact ⟨rfl, hthis⟩
        next ret hret =>
          -- the bytes of the new block are old ones or the allocator's
          have hkept : ∀ b ∈ ret, P b := by
            unfold realloc at hret
            rw [Option.map_eq_some_iff] at hret
            obtain ⟨fill, hfill, rfl⟩ := hret
            intro b hb
            rcases List.mem_append.mp hb with hb | hb
            · exact hthis b (List.mem_of_mem_take hb)
            · obtain ⟨k, -, rfl⟩ := List.mem_map.mp hb
              exact hfills _ _ fill hfill _
          exact ih { this with
            string := ret, size := this.size * 2 % 2 ^ 64, reallocs := this.reallocs + 1 } g ready
            hkept h
      · cases h
        exact ⟨rfl, hthis⟩

/-- A block after `sb_appendl`: what was held, what is appended, and what lies behind. -/
theorem sbAppendl_inv {mem : Allocator} {P : UInt8 → Prop} (hfills : mem.Fills P)
    {this sbuf : StringBuffer} {buf : Bytes} {rlen : Nat} (hthis : ∀ b ∈ this.string, P b)
    (h : sbAppendl mem this buf rlen = .ok (0, sbuf)) :
    ∃ held tail, sbuf.string = held ++ buf.take rlen ++ tail ∧ (∀ b ∈ held, P b)
      ∧ (∀ b ∈ tail, P b) ∧ rlen ≤ buf.length ∧ held.length = this.endPos
      ∧ sbuf.endPos = (this.endPos + rlen) % 2 ^ 32 := by
  unfold sbAppendl at h
  obtain ⟨⟨ready, g⟩, hg, h⟩ := bind_ok h
  obtain ⟨hend, hall⟩ := sbGrow_inv hfills _ _ _ _ hthis hg
  dsimp only at h
  by_cases hready : ready = true
  · rw [if_pos hready] at h
    obtain ⟨block, hblock, h⟩ := bind_ok h
    unfold memcpy at hblock
    by_cases hin : rlen ≤ buf.length ∧ g.endPos + rlen ≤ g.string.length
    · rw [if_pos hin] at hblock
      cases hblock
      cases h
      refine ⟨g.string.take g.endPos, g.string.drop (g.endPos + rlen), rfl,
        fun b hb => hall b (List.mem_of_mem_take hb), fun b hb => hall b (List.mem_of_mem_drop hb),
        hin.1, ?_, by rw [← hend]⟩
      rw [List.length_take, ← hend]
      omega
    · rw [if_neg hin] at hblock
      cases hblock
  · rw [if_neg hready] at h
    cases h

theorem sbDeletehead_inv {this sbuf : StringBuffer} {len : Nat}
    (h : sbDeletehead this len = .ok sbuf) :
    sbuf.endPos ≤ this.endPos ∧ ∀ b ∈ sbuf.string, b ∈ this.string ∨ b = 0 := by
  unfold sbDeletehead at h
  dsimp only at h
  generalize (if len > this.endPos then this.endPos else len) = k at h
  obtain ⟨block, hblock, h⟩ := bind_ok h
  obtain ⟨block', hblock', h⟩ := bind_ok h
  cases h
  refine ⟨Nat.sub_le _ _, fun b hb => ?_⟩
  unfold memmove at hblock
  split at hblock
  · cases hblock
    unfold store at hblock'
    split at hblock'
    · cases hblock'
      rcases List.mem_or_eq_of_mem_set hb with hb | hb
      · rcases List.mem_append.mp hb with hb | hb
        · exact .inl (List.mem_of_mem_drop (List.mem_of_mem_take hb))
        · exact .inl (List.mem_of_mem_drop hb)
      · exact .inr hb
    · cases hblock'
  · cases hblock

/-- Between two `recv` calls of a thread that is in its loop. -/
structure Between (sofar : Bytes) (p : Parser ρ) : Prop where
  clean : TAB ∉ p.sbuf.string
  small : p.sbuf.endPos < INT_MAX
  cursor : p.currField ≤ lineTabs sofar

/-- The scan begins with the invariant. -/
theorem Between.begin (h : Between sofar p) (hfills : mem.sbuf.Fills (· ≠ TAB)) {buf : Bytes}
    {rlen : Nat} {sbuf : StringBuffer}
    (happend : sbAppendl mem.sbuf p.sbuf buf rlen = .ok (0, sbuf)) :
    ∃ held, rlen ≤ buf.length ∧ held.length = p.sbuf.endPos
      ∧ sbuf.endPos = (held.length + rlen) % 2 ^ 32
      ∧ Block held (buf.take rlen) sbuf.string
      ∧ Counted sofar held.length (buf.take rlen) sbuf.string 0 { p with sbuf := sbuf } := by
  have hclean : ∀ b ∈ p.sbuf.string, b ≠ TAB := by
    intro b hb e
    exact h.clean (e ▸ hb)
  obtain ⟨held, tail, hstring, hheld, htail, hlen, hheldLen, hend⟩ :=
    sbAppendl_inv hfills hclean happend
  refine ⟨held, hlen, hheldLen, by rw [hheldLen]; exact hend,
    ⟨⟨tail, hstring, fun hm => htail _ hm rfl⟩, fun hm => hheld _ hm rfl⟩, rfl, by simp, ?_⟩
  rw [Nat.zero_sub, List.take_zero, List.append_nil]
  exact h.cursor

/-- **One `recv`** of a chunk after which the thread is still in its loop. -/
theorem Between.chunk (h : Between sofar p) (hfills : mem.sbuf.Fills (· ≠ TAB)) {bytes : Bytes}
    (hsize : bytes.length ≤ 256)
    (hrun : consume mem handle p bytes bytes.length = .ok q) (hq : q.exited = false)
    (hp : p.exited = false) : Between (sofar ++ bytes) q := by
  have hmax : INT_MAX = 2147483647 := rfl
  have hsmall := h.small
  unfold consume at hrun
  obtain ⟨⟨ret, sbuf⟩, happend, hrun⟩ := bind_ok hrun
  dsimp only at hrun
  by_cases hret : ret ≠ 0
  · rw [if_pos hret] at hrun
    cases hrun
    cases hq
  · rw [if_neg hret] at hrun
    obtain ⟨p1, hscan, hrun⟩ := bind_ok hrun
    by_cases hexit : p1.exited = true
    · rw [if_pos hexit] at hrun
      cases hrun
      rw [hexit] at hq
      cases hq
    · rw [if_neg hexit] at hrun
      obtain ⟨sbuf', hdelete, hrun⟩ := bind_ok hrun
      cases hrun
      rw [not_not.mp hret] at happend
      obtain ⟨held, -, hheld, hend, hblock, hcounted⟩ := h.begin hfills happend
      rw [List.take_length] at hblock hcounted
      have hE : sbuf.endPos = held.length + bytes.length := by omega
      have hp1 : p1.exited = false := by simpa using hexit
      have hall : Scanned mem handle { p with sbuf := sbuf } _ p1 :=
        scan_scanned _ 0 _ p1 .start hp hscan hp1
      obtain ⟨hlast, hsame⟩ := hall.counted hblock hcounted
      replace hsame : p1.sbuf.endPos = sbuf.endPos := hsame
      obtain ⟨hle, hbytes⟩ := sbDeletehead_inv hdelete
      refine ⟨fun hm => ?_, ?_, ?_⟩
      · rcases hbytes _ hm with hm | hm
        · rw [← List.take_append_drop (0 + (sbuf.endPos + 1)) p1.sbuf.string, hlast.rest,
            List.mem_append] at hm
          rcases hm with hm | hm
          · exact hlast.clean hm
          · -- what lies behind the last index has not been touched
            obtain ⟨tail, hstring, htail⟩ := hblock.string
            rw [hstring, List.drop_append, List.length_append,
              List.drop_of_length_le (by rw [List.length_append]; omega), List.nil_append] at hm
            exact htail (List.mem_of_mem_drop hm)
        · cases hm
      · -- a longer scan would have overflowed its index
        have hfits : sbuf.endPos < INT_MAX := by
          by_contra hge
          have hover := scan_overflow _ 0 _ p1 (Nat.zero_le _) (by omega) hscan
          rw [hp1] at hover
          cases hover
        show sbuf'.endPos < INT_MAX
        omega
      · have hcursor := hlast.cursor
        rw [List.take_of_length_le (by omega)] at hcursor
        exact hcursor

end Receive

/-! ## §5. Whole runs. -/

/-- The bytes that `recv` has delivered. -/
def received (rs : List Recv) : Bytes := (rs.filterMap Recv.data).flatMap Prod.fst

section Run

variable {ρ : Type} {mem : ParserMem} {handle : Handler ρ} {sizes : List Nat} {rs : List Recv}

/-- The buffer of `recv` has 256 bytes. -/
def ChunkSizes (rs : List Recv) : Prop := ∀ bytes, Recv.chunk bytes ∈ rs → bytes.length ≤ 256

/-- **One round of the loop.** -/
theorem Between.step {sofar : Bytes} {p q : Parser ρ} {r : Recv}
    (hp : p.exited = false → Between sofar p) (hfills : mem.sbuf.Fills (· ≠ TAB))
    (hsize : ChunkSizes [r]) (hrun : receive mem handle p r = .ok q) :
    q.exited = false → Between (sofar ++ received [r]) q := by
  intro hq
  unfold receive at hrun
  by_cases hexit : p.exited = true
  · rw [if_pos hexit] at hrun
    cases hrun
    rw [hexit] at hq
    cases hq
  · rw [if_neg hexit] at hrun
    have hrunning : p.exited = false := by simpa using hexit
    have hb := hp hrunning
    cases r with
    | leave => cases hrun; cases hq
    | closed => cases hrun; cases hq
    | failed =>
        -- no buffer has as many bytes as the largest `size_t`
        dsimp only at hrun
        unfold consume at hrun
        obtain ⟨⟨ret, sbuf⟩, happend, hrun⟩ := bind_ok hrun
        dsimp only at hrun
        by_cases hret : ret ≠ 0
        · rw [if_pos hret] at hrun
          cases hrun
          cases hq
        · rw [not_not.mp hret] at happend
          obtain ⟨held, hlen, -⟩ := hb.begin hfills happend
          cases hlen
    | chunk bytes =>
        have hone := hb.chunk hfills (hsize bytes (by simp)) hrun hq hrunning
        simpa [received, Recv.data] using hone

theorem received_append (rs rs' : List Recv) : received (rs ++ rs') = received rs ++ received rs' := by
  unfold received
  rw [List.filterMap_append, List.flatMap_append]

/-- **The run lemma.** -/
theorem run_between (hfields : FieldSizes sizes) (hfills : mem.sbuf.Fills (· ≠ TAB))
    {rs : List Recv} {p : Parser ρ} (hsizes : ChunkSizes rs)
    (hrun : rs.foldlM (receive mem handle) (parserInit sizes) = .ok p) (hp : p.exited = false) :
    Between (received rs) p := by
  refine run_induction
    (P := fun rs p => ChunkSizes rs → p.exited = false → Between (received rs) p)
    ?_ ?_ hrun hsizes hp
  · intro _ _
    obtain ⟨hsim, hplain⟩ := init_sim (ρ := ρ) hfields
    exact ⟨fun hm => (hplain _ hm).1 rfl, hsim.small, Nat.zero_le _⟩
  · intro rs r m q _ hbetween hstep hsizes hq
    rw [received_append]
    refine Between.step (fun hrunning => hbetween (fun bytes hb => hsizes bytes (by simp [hb]))
      hrunning) hfills (fun bytes hb => hsizes bytes ?_) hstep hq
    simp only [List.mem_append]
    exact .inr hb

/-- The cursor of one thread. -/
theorem run_cursorInside (hfields : FieldSizes sizes) (hsizes : ChunkSizes rs)
    (hlines : ∀ line, line <:+: received rs → NEWLINE ∉ line → line.count TAB ≤ 5)
    (hfills : mem.sbuf.Fills (· ≠ TAB)) : CursorInside mem handle (parserInit sizes) rs := by
  intro pre r post p i q hrs hpre hscan happends
  obtain ⟨buf, rlen, sbuf, hrunning, hdata, happend, -, hscan⟩ := hscan
  have hb := run_between hfields hfills
    (fun bytes hb => hsizes bytes (by rw [hrs]; simp [hb])) hpre hrunning
  obtain ⟨held, hlen, -, -, hblock, hcounted⟩ := hb.begin hfills happend
  obtain ⟨hcount, -⟩ := hscan.counted hblock hcounted
  rcases happends with htab | ⟨-, hfour⟩
  · have hS : sbuf.string[i]? = some TAB := by
      rw [← Nat.add_zero i, ← List.getElem?_drop, ← hcount.rest, List.getElem?_drop]
      exact htab
    -- this tab belongs to a line of the stream, and so do the ones counted so far
    obtain ⟨k, rfl, hk⟩ := hblock.tab hS
    have hcursor := hcount.cursor
    rw [show held.length + k - held.length = k by omega] at hcursor
    have hline : lineTabs (received pre ++ (buf.take rlen).take (k + 1)) ≤ 5 := by
      have hstream : received rs = received pre ++ (buf.take rlen).take (k + 1)
          ++ ((buf.take rlen).drop (k + 1) ++ buf.drop rlen ++ received post) := ?_
      refine lineTabs_le hstream hlines
      have hr : received (r :: post) = buf ++ received post := by
        unfold received
        rw [List.filterMap_cons, hdata]
        rfl
      rw [hrs, received_append, hr]
      simp only [List.append_assoc]
      congr 1
      rw [← List.append_assoc ((buf.take rlen).take (k + 1)), List.take_append_drop,
        ← List.append_assoc, List.take_append_drop]
    rw [List.take_add_one, hk, ← List.append_assoc] at hline
    have htabs : lineTabs (received pre ++ (buf.take rlen).take k ++ (some TAB).toList)
        = lineTabs (received pre ++ (buf.take rlen).take k) + 1 := lineTabs_tab _
    rw [htabs] at hline
    have hfive : fieldNum = 5 := rfl
    omega
  · rw [hfour]
    decide

end Run

/-- **The field cursor stays inside the field array** in every run over a stream without a line of
more than five tabs. -/
theorem field_cursor_inside {mem : ParserMem} {rs : List Recv} (hsizes : ChunkSizes rs)
    (hlines : ∀ line, line <:+: received rs → NEWLINE ∉ line → line.count TAB ≤ 5)
    (hfills : mem.sbuf.Fills (· ≠ TAB)) :
    (∀ env fresh,
        CursorInside mem (handleExecLine env fresh) (parserInit execFieldSizes) rs)
      ∧ ∀ env stat filter,
        CursorInside mem (handleOpenLine env stat filter) (parserInit openFieldSizes) rs :=
  ⟨fun _ _ => run_cursorInside execFieldSizes_sound hsizes hlines hfills,
    fun _ _ _ => run_cursorInside openFieldSizes_sound hsizes hlines hfills⟩

/-- A thread whose cursor is at 5 when the next byte to be scanned is a tab. -/
theorem not_cursorInside {ρ : Type} {mem : ParserMem} {handle : Handler ρ} {p0 : Parser ρ} {r : Recv}
    (h : ((receive mem handle p0 r).bind fun p => (sbAppendl mem.sbuf p.sbuf [TAB] 1).map fun s =>
      (p.currField, p.exited, s.1, s.2.string[0]?)) = .ok (5, false, 0, some TAB)) :
    ¬ CursorInside mem handle p0 [r, .chunk [TAB]] := by
  intro hinside
  cases hp : receive mem handle p0 r with
  | error e =>
      rw [hp] at h
      cases h
  | ok p =>
    rw [hp] at h
    replace h : (sbAppendl mem.sbuf p.sbuf [TAB] 1).map (fun s =>
      (p.currField, p.exited, s.1, s.2.string[0]?)) = .ok (5, false, 0, some TAB) := h
    cases hs : sbAppendl mem.sbuf p.sbuf [TAB] 1 with
    | error e =>
        rw [hs] at h
        cases h
    | ok s =>
      rw [hs] at h
      obtain ⟨ret, sbuf⟩ := s
      replace h := Except.ok.inj h
      simp only [Prod.mk.injEq] at h
      obtain ⟨hcurr, hexit, rfl, hget⟩ := h
      have hbelow := hinside [r] (.chunk [TAB]) [] p 0 { p with sbuf := sbuf } rfl
        (run_one.mpr hp)
        ⟨[TAB], 1, sbuf, hexit, rfl, hs, Nat.zero_le _, .start⟩ (.inl hget)
      rw [show ({ p with sbuf := sbuf } : Parser ρ).currField = 5 from hcurr] at hbelow
      exact absurd hbelow (by decide)

/-- A line with a tab in its last field. -/
theorem field_cursor_inside_sample :
    (∀ env fresh, CursorInside .zeroing (handleExecLine env fresh) (parserInit execFieldSizes)
        [.chunk [97, TAB, 98, TAB], .chunk [99, TAB, 100, TAB, 101, TAB, 102, NEWLINE]])
      ∧ ∀ env stat filter,
        CursorInside .zeroing (handleOpenLine env stat filter) (parserInit openFieldSizes)
          [.chunk [97, TAB, 98, TAB], .chunk [99, TAB, 100, TAB, 101, TAB, 102, NEWLINE]] := by
  refine field_cursor_inside (fun bytes hb => ?_) (fun line hline _ => ?_) fun _ _ fill hfill k => ?_
  · simp only [List.mem_cons, Recv.chunk.injEq, List.not_mem_nil, or_false] at hb
    rcases hb with rfl | rfl <;> decide
  · exact (hline.sublist.count_le TAB).trans (by decide)
  · cases hfill
    exact (by decide : (0 : UInt8) ≠ TAB)

/-- Six tabs on either socket: the sixth finds the cursor at 5. -/
theorem sixth_tab_outside :
    ¬ CursorInside .zeroing (handleExecLine .granting fun _ => ExecCall.zero)
        (parserInit execFieldSizes) [.chunk (List.replicate 5 TAB), .chunk [TAB]]
      ∧ ¬ CursorInside .zeroing (handleOpenLine .granting (fun _ => none) fun _ => true)
        (parserInit openFieldSizes) [.chunk (List.replicate 5 TAB), .chunk [TAB]] := by
  -- after the first chunk the cursor is at 5, and the next byte to be scanned is a tab
  have hleft : ((receive .zeroing (handleExecLine .granting fun _ => ExecCall.zero)
        (parserInit execFieldSizes) (.chunk (List.replicate 5 TAB))).bind fun p =>
      (sbAppendl ParserMem.zeroing.sbuf p.sbuf [TAB] 1).map fun r =>
        (p.currField, p.exited, r.1, r.2.string[0]?)) = .ok (5, false, 0, some TAB) := by
    decide +kernel
  have hright : ((receive .zeroing (handleOpenLine .granting (fun _ => none) fun _ => true)
        (parserInit openFieldSizes) (.chunk (List.replicate 5 TAB))).bind fun p =>
      (sbAppendl ParserMem.zeroing.sbuf p.sbuf [TAB] 1).map fun r =>
        (p.currField, p.exited, r.1, r.2.string[0]?)) = .ok (5, false, 0, some TAB) := by
    decide +kernel
  exact ⟨not_cursorInside hleft, not_cursorInside hright⟩

end DirSurveiller
