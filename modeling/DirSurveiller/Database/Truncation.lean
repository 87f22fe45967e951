/-
  DirSurveiller.Database.Truncation — what `db_full_Record_jsonsb` reports.

  A record is rendered by many calls of `sb_append`, each of which may be refused memory.  Of the
  answers only three reach the caller: that for the opening text, that for the closing brace of the
  open call, and that for the header of the exec calls.

  Main result:
    * `jsonsb_reports_iff` — the function returns 0 for the complete text and nothing else exactly
      if the text fits without a refusal, or one of these three is refused.

  `Wrote` compares the position with what it would be after the whole text; being equal to it is
  what completeness amounts to.  `Counts` follows the numbers of the buffer through the appends.
-/
import DirSurveiller.Containers.Capacity
import DirSurveiller.Database.Json

namespace DirSurveiller

open CMachine Outcome Doubling StringBuffer

/-! ## §1. The text. -/

/-- The exec calls behind one another, and the brackets behind them. -/
def execCallsText : List ECallRecord → Bytes
  | [] => ascii "]\x7d\n"
  | eCall :: execCalls =>
      execJson eCall (eCall.cmdName.getD []) (eCall.args.getD [])
        ++ (ascii ", " ++ execCallsText execCalls)

/-- The complete rendering of a record. -/
def recordText (record : DbFullRecord) : Bytes :=
  ascii "\x7b \"openCall\"=" ++ (openJson record.openCall (record.openCall.filepath.getD [])
    ++ (ascii "\n\"execCalls\"=[" ++ execCallsText record.execCalls))

/-- A pointer to a C string. -/
def PointsToText (p : Option Bytes) : Prop :=
  ∃ s, p = some s ∧ (0 : UInt8) ∉ s ∧ s.length < 2 ^ 62

/-- The pointers of the record point to C strings. -/
structure DbFullRecord.OfStrings (record : DbFullRecord) : Prop where
  filepath : PointsToText record.openCall.filepath
  cmdName : ∀ eCall ∈ record.execCalls, PointsToText eCall.cmdName
  args : ∀ eCall ∈ record.execCalls, PointsToText eCall.args

/-- `db_full_Record_jsonsb` returns 0 for the complete rendering, and for nothing else. -/
def ReportsTruncation (mem : Allocator) (record : DbFullRecord) (sb : StringBuffer) : Prop :=
  ∃ ret sb', dbFullRecordJsonsb mem record sb = .ok (ret, sb')
    ∧ (ret = 0 ↔ sb'.content = sb.content ++ recordText record)

/-- The numbers after appends whose answers are dropped. -/
def Capacity.appends (mem : Allocator) (c : Capacity) (lens : List Nat) : Capacity :=
  lens.foldl (fun c len => (c.append mem len).2) c

/-- The lengths of what `db_openCall_to_jsonstringb` appends before the closing brace. -/
def openLengths (oCall : OCallRecord) : List Nat :=
  [1, (openNumbers oCall).length, (ascii ", \"filepath\": \"").length,
    (oCall.filepath.getD []).length, 1]

/-- One of the three appends whose answer is returned is refused memory. -/
def Capacity.Reports (mem : Allocator) (c : Capacity) (oCall : OCallRecord) : Prop :=
  let opened := c.append mem (ascii "\x7b \"openCall\"=").length
  let closed := (opened.2.appends mem (openLengths oCall)).append mem 1
  let header := closed.2.append mem (ascii "\n\"execCalls\"=[").length
  opened.1 = false ∨ closed.1 = false ∨ header.1 = false

/-! ## §2. How far a program writes. -/

section Wrote

variable {mem : Allocator} {this g : StringBuffer} {s t : Bytes}
  {r : Except Fault (Nat × StringBuffer)}

/-- After the attempt to append `s`: the position is at most that behind `s`; it is that one exactly
if no request up to there is refused and it fits a `u_int32_t`, and then `s` is in the buffer and the
numbers are those after growing once. -/
structure Wrote (mem : Allocator) (this : StringBuffer) (s : Bytes) (g : StringBuffer) : Prop where
  sound : g.Sound
  le : g.endPos ≤ this.endPos + s.length
  complete : g.endPos = this.endPos + s.length
    ↔ ¬ this.Refuses mem s.length ∧ this.endPos + s.length < 2 ^ 32
  content : g.endPos = this.endPos + s.length → g.content = this.content ++ s
  size : g.endPos = this.endPos + s.length →
    g.size = this.size * 2 ^ doublings this.size (this.endPos + s.length)
  reallocs : g.endPos = this.endPos + s.length →
    g.reallocs = this.reallocs + doublings this.size (this.endPos + s.length)

/-- The content is extended by all of `s` exactly if the position is behind it. -/
theorem Wrote.content_iff (h : Wrote mem this s g) (hthis : this.Sound) :
    g.content = this.content ++ s ↔ g.endPos = this.endPos + s.length := by
  refine ⟨fun hcontent => ?_, h.content⟩
  have hlen := congrArg List.length hcontent
  rw [List.length_append, h.sound.content_length, hthis.content_length] at hlen
  exact hlen

theorem StringBuffer.Declined.wrote (h : this.Sound) (hg : StringBuffer.Declined mem this s.length g)
    (hr : this.Refuses mem s.length) : Wrote mem this s g := by
  have hend := hg.endPos
  have hroom := h.room
  -- what needs no request is not refused
  have hlong : ¬ this.endPos + s.length < this.size := fun hlt => not_refused_of_lt hlt hr
  have hshort : ¬ g.endPos = this.endPos + s.length := by omega
  exact ⟨hg.sound, by omega, iff_of_false hshort fun hc => hc.1 hr, fun h => absurd h hshort,
    fun h => absurd h hshort, fun h => absurd h hshort⟩

theorem StringBuffer.Appended.wrote (h : this.Sound) (hg : StringBuffer.Appended mem this s g)
    (hr : ¬ this.Refuses mem s.length) : Wrote mem this s g := by
  have hend := hg.endPos
  obtain ⟨hsize, hreallocs⟩ := hg.numbers hr
  refine ⟨hg.sound, by omega, ?_, fun hfull => hg.content h (by omega), fun _ => hsize,
    fun _ => hreallocs⟩
  constructor
  · intro hfull
    exact ⟨hr, by omega⟩
  · intro hc
    omega

/-- **Two texts behind one another.**  The position is behind both exactly if it was behind the
first and then behind the second; so are the requests, by `refused_add`. -/
theorem Wrote.append (h : this.Sound) (hs : Wrote mem this s g) {g' : StringBuffer}
    (ht : Wrote mem g t g') : Wrote mem this (s ++ t) g' := by
  have hle := hs.le
  have hle' := ht.le
  have hcount : (s ++ t).length = s.length + t.length := List.length_append
  have hboth : g'.endPos = this.endPos + (s ++ t).length
      ↔ g.endPos = this.endPos + s.length ∧ g'.endPos = g.endPos + t.length := by
    constructor
    · intro hfull
      exact ⟨by omega, by omega⟩
    · intro hfull
      omega
  have hsum : this.endPos + s.length ≤ this.endPos + (s ++ t).length := by omega
  have hmono := doublings_mono h.pos hsum
  have hrefused : Refused mem this.reallocs this.size (this.endPos + (s ++ t).length) ↔ _ :=
    refused_add h.pos hsum
  refine ⟨ht.sound, by omega, ?_, fun hfull => ?_, fun hfull => ?_, fun hfull => ?_⟩
  · rw [hboth, hs.complete]
    unfold Refuses
    rw [hrefused, not_or]
    constructor
    · intro hc
      obtain ⟨⟨hr, hsmall⟩, hc⟩ := hc
      have hfull := hs.complete.mpr ⟨hr, hsmall⟩
      obtain ⟨hr', hsmall'⟩ := ht.complete.mp hc
      unfold Refuses at hr'
      rw [hs.size hfull, hs.reallocs hfull, hfull, Nat.add_assoc, ← hcount] at hr'
      exact ⟨⟨hr, hr'⟩, by omega⟩
    · -- the first text is complete, so the second starts from its requests and its size
      intro hc
      obtain ⟨⟨hr, hr'⟩, hsmall⟩ := hc
      have hfull := hs.complete.mpr ⟨hr, by omega⟩
      refine ⟨⟨hr, by omega⟩, ht.complete.mpr ⟨?_, by omega⟩⟩
      unfold Refuses
      rw [hs.size hfull, hs.reallocs hfull, hfull, Nat.add_assoc, ← hcount]
      exact hr'
  · obtain ⟨hfull, hfull'⟩ := hboth.mp hfull
    rw [ht.content hfull', hs.content hfull, List.append_assoc]
  · obtain ⟨hfull, hfull'⟩ := hboth.mp hfull
    rw [ht.size hfull', hs.size hfull, hfull, doublings_add h.pos hmono, Nat.pow_add, Nat.mul_assoc,
      Nat.add_assoc, ← hcount]
  · obtain ⟨hfull, hfull'⟩ := hboth.mp hfull
    rw [ht.reallocs hfull', hs.size hfull, hs.reallocs hfull, hfull, doublings_add h.pos hmono,
      Nat.add_assoc, Nat.add_assoc, ← hcount]

/-- Where `s` is not complete and the program stops, more is not complete either. -/
theorem Wrote.stop (h : this.Sound) (hs : Wrote mem this s g)
    (hshort : g.endPos ≠ this.endPos + s.length) : Wrote mem this (s ++ t) g := by
  have hle := hs.le
  have hcount : (s ++ t).length = s.length + t.length := List.length_append
  have hshort' : ¬ g.endPos = this.endPos + (s ++ t).length := by omega
  refine ⟨hs.sound, by omega, iff_of_false hshort' fun hc => ?_, fun h => absurd h hshort',
    fun h => absurd h hshort', fun h => absurd h hshort'⟩
  refine hshort (hs.complete.mpr ⟨fun hr => hc.1 ?_, by omega⟩)
  exact Refused.mono h.pos hr (by omega)

/-- The program comes back, having written as much of `s` as it could; an answer other than 0 means
that this is not all of it. -/
def Writes (mem : Allocator) (this : StringBuffer) (s : Bytes)
    (r : Except Fault (Nat × StringBuffer)) : Prop :=
  ∃ ret g, r = .ok (ret, g) ∧ Wrote mem this s g ∧ (ret ≠ 0 → g.endPos ≠ this.endPos + s.length)

/-- One append, and the rest of the program: it goes on, or it stops after a failure. -/
theorem Writes.bind {f : Nat × StringBuffer → Except Fault (Nat × StringBuffer)} (h : this.Sound)
    (hr : Writes mem this s r)
    (hf : ∀ ret g, g.Sound → Writes mem g t (f (ret, g)) ∨ ret ≠ 0 ∧ ∃ k, f (ret, g) = .ok (k, g)) :
    Writes mem this (s ++ t) (r >>= f) := by
  obtain ⟨ret, g, rfl, hs, hshort⟩ := hr
  have hle := hs.le
  have hcount : (s ++ t).length = s.length + t.length := List.length_append
  rcases hf ret g hs.sound with hnext | ⟨hret, k, hstop⟩
  · obtain ⟨ret', g', hok, ht, hshort'⟩ := hnext
    have hle' := ht.le
    exact ⟨ret', g', hok, hs.append h ht, fun hne => by have := hshort' hne; omega⟩
  · exact ⟨k, g, hstop, hs.stop h (hshort hret), fun _ => by have := hshort hret; omega⟩

/-- A checked answer: the rest of the program runs only if it is 0. -/
theorem Writes.check {f : Nat × StringBuffer → Except Fault (Nat × StringBuffer)}
    {rest : StringBuffer → Except Fault (Nat × StringBuffer)} {out : Nat → Nat} (h : this.Sound)
    (hr : Writes mem this s r)
    (hf : ∀ ret g, f (ret, g) = if ret ≠ 0 then .ok (out ret, g) else rest g)
    (hrest : ∀ g, g.Sound → Writes mem g t (rest g)) : Writes mem this (s ++ t) (r >>= f) := by
  refine hr.bind h fun ret g h => ?_
  rw [hf]
  by_cases hret : ret ≠ 0
  · exact .inr ⟨hret, out ret, if_pos hret⟩
  · rw [if_neg hret]
    exact .inl (hrest g h)

/-- What is true of a single append. -/
theorem writes_text (h : this.Sound) (hs : (0 : UInt8) ∉ s) (hlen : s.length < 2 ^ 62) :
    Writes mem this s (appendText mem this s) := by
  have hposition := h.position
  by_cases hr : this.Refuses mem s.length
  · obtain ⟨g, hcall, hg⟩ := append_declined h hs (by omega) hr []
    have hw := hg.wrote h hr
    exact ⟨1, g, hcall, hw, fun _ hfull => (hw.complete.mp hfull).1 hr⟩
  · obtain ⟨g, hcall, hg, -⟩ := append_appended h hs (by omega) hr []
    exact ⟨0, g, hcall, hg.wrote h hr, fun hne => absurd rfl hne⟩

theorem writes_pointer (h : this.Sound) {p : Option Bytes} (hp : PointsToText p) :
    Writes mem this (p.getD []) (appendPointer mem this p) := by
  obtain ⟨s, rfl, hs, hlen⟩ := hp
  exact writes_text h hs hlen

/-! ## §3. The functions. -/

theorem writes_open (h : this.Sound) {oCall : OCallRecord} (hpath : PointsToText oCall.filepath) :
    Writes mem this (openJson oCall (oCall.filepath.getD []))
      (dbOpenCallToJsonstringb mem this oCall) := by
  obtain ⟨hfit, hlen, hnul⟩ := openNumbers_fit oCall
  unfold openJson dbOpenCallToJsonstringb
  rw [hfit]
  refine (writes_text h (by decide) (by decide)).bind h fun _ g h => .inl ?_
  refine (writes_text h hnul (by omega)).bind h fun _ g h => .inl ?_
  refine (writes_text h (by decide) (by decide)).bind h fun _ g h => .inl ?_
  refine (writes_pointer h hpath).bind h fun _ g h => .inl ?_
  refine (writes_text h (by decide) (by decide)).bind h fun _ g h => .inl ?_
  exact writes_text h (by decide) (by decide)

theorem writes_exec (h : this.Sound) {eCall : ECallRecord} (hcmd : PointsToText eCall.cmdName)
    (hargs : PointsToText eCall.args) :
    Writes mem this (execJson eCall (eCall.cmdName.getD []) (eCall.args.getD []))
      (dbExecCallToJsonstringb mem this eCall) := by
  obtain ⟨hfit, hlen, hnul⟩ := execNumbers_fit eCall
  unfold execJson dbExecCallToJsonstringb
  rw [hfit]
  refine (writes_text h (by decide) (by decide)).bind h fun _ g h => .inl ?_
  refine (writes_text h hnul (by omega)).bind h fun _ g h => .inl ?_
  refine (writes_text h (by decide) (by decide)).bind h fun _ g h => .inl ?_
  refine (writes_pointer h hcmd).bind h fun _ g h => .inl ?_
  refine (writes_text h (by decide) (by decide)).bind h fun _ g h => .inl ?_
  refine (writes_text h (by decide) (by decide)).bind h fun _ g h => .inl ?_
  refine (writes_pointer h hargs).bind h fun _ g h => .inl ?_
  refine (writes_text h (by decide) (by decide)).bind h fun _ g h => .inl ?_
  exact writes_text h (by decide) (by decide)

/-- The loop stops at the first failure it sees. -/
theorem writes_execCalls : ∀ (execCalls : List ECallRecord) {this : StringBuffer}, this.Sound →
    (∀ eCall ∈ execCalls, PointsToText eCall.cmdName) →
    (∀ eCall ∈ execCalls, PointsToText eCall.args) →
    Writes mem this (execCallsText execCalls) (jsonsbExecCalls mem execCalls this) := by
  intro execCalls
  induction execCalls with
  | nil =>
      intro this h _ _
      unfold jsonsbExecCalls execCallsText
      obtain ⟨ret, g, hcall, hw, -⟩ : Writes mem this (ascii "]\x7d\n")
          (appendText mem this (ascii "]\x7d\n")) := writes_text h (by decide) (by decide)
      refine ⟨0, g, ?_, hw, fun hne => absurd rfl hne⟩
      rw [hcall]
      rfl
  | cons eCall execCalls ih =>
      intro this h hcmd hargs
      unfold jsonsbExecCalls execCallsText
      -- both failures end the loop, and neither is reported
      refine (writes_exec h (hcmd _ List.mem_cons_self) (hargs _ List.mem_cons_self)).check h
        (fun _ _ => rfl) fun g h => ?_
      refine (writes_text h (by decide) (by decide)).check h (fun _ _ => rfl) fun g h => ?_
      exact ih h (fun e he => hcmd e (List.mem_cons_of_mem _ he))
        fun e he => hargs e (List.mem_cons_of_mem _ he)

theorem writes_record (mem : Allocator) (h : this.Sound) {record : DbFullRecord}
    (hrecord : record.OfStrings) :
    Writes mem this (recordText record) (dbFullRecordJsonsb mem record this) := by
  unfold recordText dbFullRecordJsonsb
  refine (writes_text h (by decide) (by decide)).check h (fun _ _ => rfl) fun g h => ?_
  refine (writes_open h hrecord.filepath).check h (fun _ _ => rfl) fun g h => ?_
  refine (writes_text h (by decide) (by decide)).check h (fun _ _ => rfl) fun g h => ?_
  exact writes_execCalls _ h hrecord.cmdName hrecord.args

end Wrote

/-! ## §4. The numbers. -/

section Counts

variable {mem : Allocator} {this g : StringBuffer} {s : Bytes} {c c' : Bool × Capacity}
  {r : Except Fault (Nat × StringBuffer)}

/-- The program comes back with a sound buffer; whether it returns 0, and the numbers behind it, are
`c`. -/
def Counts (c : Bool × Capacity) (r : Except Fault (Nat × StringBuffer)) : Prop :=
  ∃ ret g, r = .ok (ret, g) ∧ g.Sound ∧ (decide (ret = 0), g.capacity) = c

theorem counts_text (h : this.Sound) (hs : (0 : UInt8) ∉ s) (hlen : s.length < 2 ^ 62) :
    Counts (this.capacity.append mem s.length) (appendText mem this s) := by
  have hposition := h.position
  by_cases hr : this.Refuses mem s.length
  · obtain ⟨g, hcall, hg⟩ := append_declined h hs (by omega) hr []
    exact ⟨1, g, hcall, hg.sound, hg.capacity⟩
  · obtain ⟨g, hcall, hg, -⟩ := append_appended h hs (by omega) hr []
    exact ⟨0, g, hcall, hg.sound, hg.capacity⟩

theorem counts_pointer (h : this.Sound) {p : Option Bytes} (hp : PointsToText p) :
    Counts (this.capacity.append mem (p.getD []).length) (appendPointer mem this p) := by
  obtain ⟨s, rfl, hs, hlen⟩ := hp
  exact counts_text h hs hlen

/-- A dropped answer: what follows depends on the numbers only. -/
theorem Counts.bind {f : Nat × StringBuffer → Except Fault (Nat × StringBuffer)}
    (h : Counts c r) (hf : ∀ ret g, g.Sound → g.capacity = c.2 → Counts c' (f (ret, g))) :
    Counts c' (r >>= f) := by
  obtain ⟨ret, g, rfl, hsound, hc⟩ := h
  exact hf ret g hsound (congrArg Prod.snd hc)

/-- `db_openCall_to_jsonstringb` returns the answer of its last append. -/
theorem counts_open (mem : Allocator) (h : this.Sound) {oCall : OCallRecord}
    (hpath : PointsToText oCall.filepath) :
    Counts ((this.capacity.appends mem (openLengths oCall)).append mem 1)
      (dbOpenCallToJsonstringb mem this oCall) := by
  obtain ⟨hfit, hlen, hnul⟩ := openNumbers_fit oCall
  unfold dbOpenCallToJsonstringb Capacity.appends openLengths
  rw [hfit]
  simp only [List.foldl_cons, List.foldl_nil]
  refine (counts_text h (by decide) (by decide)).bind fun _ g1 h1 hc1 => ?_
  refine (counts_text h1 hnul (by omega)).bind fun _ g2 h2 hc2 => ?_
  refine (counts_text h2 (by decide) (by decide)).bind fun _ g3 h3 hc3 => ?_
  refine (counts_pointer h3 hpath).bind fun _ g4 h4 hc4 => ?_
  refine (counts_text h4 (by decide) (by decide)).bind fun _ g5 h5 hc5 => ?_
  have hlast : Counts _ (appendText mem g5 (ascii "\x7d")) :=
    counts_text h5 (by decide) (by decide)
  rw [hc5, hc4, hc3, hc2, hc1] at hlast
  exact hlast

/-- The loop over the exec calls never reports a failure. -/
theorem jsonsbExecCalls_ret : ∀ (execCalls : List ECallRecord) {this : StringBuffer} {ret : Nat},
    jsonsbExecCalls mem execCalls this = .ok (ret, g) → ret = 0 := by
  intro execCalls
  induction execCalls with
  | nil =>
      intro this ret h
      unfold jsonsbExecCalls at h
      obtain ⟨p, -, h⟩ := bind_ok h
      exact (Prod.mk.inj (Except.ok.inj h)).1.symm
  | cons eCall execCalls ih =>
      intro this ret h
      unfold jsonsbExecCalls at h
      obtain ⟨⟨failed, g1⟩, -, h⟩ := bind_ok h
      dsimp only at h
      split at h
      · exact (Prod.mk.inj (Except.ok.inj h)).1.symm
      · obtain ⟨⟨failed', g2⟩, -, h⟩ := bind_ok h
        dsimp only at h
        split at h
        · exact (Prod.mk.inj (Except.ok.inj h)).1.symm
        · exact ih h

/-- **What `db_full_Record_jsonsb` returns** is 0 unless one of three appends is refused. -/
theorem jsonsb_ret_iff (h : this.Sound) {record : DbFullRecord} (hrecord : record.OfStrings)
    {ret : Nat} (hrun : dbFullRecordJsonsb mem record this = .ok (ret, g)) :
    ret ≠ 0 ↔ this.capacity.Reports mem record.openCall := by
  unfold dbFullRecordJsonsb at hrun
  obtain ⟨ret1, g1, hcall1, h1, hc1⟩ : Counts _ (appendText mem this (ascii "\x7b \"openCall\"=")) :=
    counts_text h (by decide) (by decide)
  obtain ⟨ret2, g2, hcall2, h2, hc2⟩ := counts_open mem h1 hrecord.filepath
  obtain ⟨ret3, g3, hcall3, h3, hc3⟩ : Counts _ (appendText mem g2 (ascii "\n\"execCalls\"=[")) :=
    counts_text h2 (by decide) (by decide)
  -- the three answers, in terms of the numbers
  unfold Capacity.Reports
  dsimp only
  rw [← hc1]
  dsimp only
  rw [← hc2]
  dsimp only
  rw [← hc3]
  dsimp only
  rw [decide_eq_false_iff_not, decide_eq_false_iff_not, decide_eq_false_iff_not]
  rw [hcall1, ok_bind] at hrun
  dsimp only at hrun
  by_cases hret1 : ret1 ≠ 0
  · rw [if_pos hret1] at hrun
    obtain rfl := (Prod.mk.inj (Except.ok.inj hrun)).1
    exact iff_of_true hret1 (.inl hret1)
  · rw [if_neg hret1, hcall2, ok_bind] at hrun
    dsimp only at hrun
    by_cases hret2 : ret2 ≠ 0
    · rw [if_pos hret2] at hrun
      obtain rfl := (Prod.mk.inj (Except.ok.inj hrun)).1
      exact iff_of_true hret2 (.inr (.inl hret2))
    · rw [if_neg hret2, hcall3, ok_bind] at hrun
      dsimp only at hrun
      by_cases hret3 : ret3 ≠ 0
      · rw [if_pos hret3] at hrun
        obtain rfl := (Prod.mk.inj (Except.ok.inj hrun)).1
        exact iff_of_true hret3 (.inr (.inr hret3))
      · rw [if_neg hret3] at hrun
        have hzero := jsonsbExecCalls_ret _ hrun
        refine iff_of_false (fun hne => hne hzero) fun hany => ?_
        exact hany.elim hret1 fun hany => hany.elim hret2 hret3

end Counts

/-! ## §5. When failures are reported. -/

/-- **`db_full_Record_jsonsb` returns 0 for the complete rendering and for nothing else** exactly if
no request on the way to its end is refused and the position can count it, or one of the three
appends whose answers are returned is refused. -/
theorem jsonsb_reports_iff (mem : Allocator) {record : DbFullRecord} (hrecord : record.OfStrings)
    {sb : StringBuffer} (hsb : sb.Sound) : ReportsTruncation mem record sb ↔
      ¬ sb.Refuses mem (recordText record).length
        ∧ sb.endPos + (recordText record).length < 2 ^ 32
      ∨ sb.capacity.Reports mem record.openCall := by
  obtain ⟨ret, sb', hrun, hw, hshort⟩ := writes_record mem hsb hrecord
  have hret := jsonsb_ret_iff hsb hrecord hrun
  have hcontent := hw.content_iff hsb
  constructor
  · intro h
    obtain ⟨ret', sb'', hrun', hreports⟩ := h
    obtain ⟨rfl, rfl⟩ := Prod.mk.inj (Except.ok.inj (hrun.symm.trans hrun'))
    by_cases hzero : ret = 0
    · exact .inl (hw.complete.mp (hcontent.mp (hreports.mp hzero)))
    · exact .inr (hret.mp hzero)
  · intro h
    refine ⟨ret, sb', hrun, ?_⟩
    rcases h with hfits | hreported
    · have hfull := hw.complete.mpr hfits
      refine iff_of_true ?_ (hcontent.mpr hfull)
      by_contra hne
      exact hshort hne hfull
    · have hne := hret.mpr hreported
      exact iff_of_false hne fun hc => hshort hne (hcontent.mp hc)

/-- An open of `/a` by a `cat`. -/
def recordBy : DbFullRecord :=
  { openCall := ⟨0, ⟨1, 5⟩, ⟨⟨0, 7⟩, 7, 0⟩, some (ascii "/a")⟩
    execCalls := [⟨7, 1, ⟨⟨0, 0⟩, 0, 0⟩, ⟨0, 7⟩, some (ascii "cat"), some (ascii "cat /a"), none⟩] }

/-- Only the request of this number is refused. -/
def refusing (k : Nat) : Allocator := fun call _ => if call = k then none else some fun _ => 0

/-- The text needs four requests: the third is made for the header of the exec calls, where a refusal
is reported, and the fourth for an exec call, where it is not. -/
theorem jsonsb_reports_refused :
    ReportsTruncation (refusing 2) recordBy (sbInit 16)
      ∧ ¬ ReportsTruncation (refusing 3) recordBy (sbInit 16) := by
  have hrecord : recordBy.OfStrings := by
    refine ⟨⟨_, rfl, by decide, by decide⟩, fun eCall he => ?_, fun eCall he => ?_⟩ <;>
    · obtain rfl := List.mem_singleton.mp he
      exact ⟨_, rfl, by decide, by decide⟩
  have hsb : (sbInit 16).Sound := sound_init (by decide) (by decide)
  constructor
  · refine (jsonsb_reports_iff (refusing 2) hrecord hsb).mpr (.inr (.inr (.inr ?_)))
    decide +kernel
  · rw [jsonsb_reports_iff (refusing 3) hrecord hsb]
    rintro (⟨hgranted, -⟩ | hopened | hclosed | hheader)
    · exact hgranted (by decide +kernel)
    · exact absurd hopened (by decide +kernel)
    · exact absurd hclosed (by decide +kernel)
    · exact absurd hheader (by decide +kernel)

/-- An open of this path, with no exec call found. -/
def recordOf (filepath : Bytes) : DbFullRecord :=
  { openCall := ⟨0, ⟨1, 5⟩, ⟨⟨0, 0⟩, 0, 0⟩, some filepath⟩, execCalls := [] }

/-- A path that does not fit is left out, and everything behind it still fits. -/
theorem jsonsb_path_lost :
    ¬ ReportsTruncation (fun _ _ => none) (recordOf (List.replicate 100 97)) (sbInit 128) := by
  intro h
  obtain ⟨ret, sb', hrun, hreports⟩ := h
  have hshort : (dbFullRecordJsonsb (fun _ _ => none) (recordOf (List.replicate 100 97))
      (sbInit 128)).map (fun p => (p.1, p.2.content.length)) = .ok (0, 76) := by
    decide +kernel
  have hlong : ((sbInit 128).content ++ recordText (recordOf (List.replicate 100 97))).length
      = 176 := by
    decide +kernel
  rw [hrun] at hshort
  obtain ⟨hret, hlen⟩ := Prod.mk.inj (Except.ok.inj hshort)
  replace hlen : sb'.content.length = 76 := hlen
  rw [hreports.mp hret] at hlen
  omega

end DirSurveiller
