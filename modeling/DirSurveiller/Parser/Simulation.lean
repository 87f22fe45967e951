/-
  DirSurveiller.Parser.Simulation — the receive loop simulates the field splitter.

  `Sim p c` relates a parser thread between two `recv` calls to a cursor of the field splitter:
  `sbuf` holds the pending field, the field buffers hold the finished fields of the line, and the
  constructor has been called on the delivered records.  One `recv` moves the cursor over the
  received bytes (`consume_spec`), provided that

    * the scan ends before its `int` index overflows, and
    * the byte behind the received ones, which the scan reads as well, is no delimiter
      (or is a newline right behind a newline).

  Within one `recv` the invariant of the scan is `Scan`: `string[lfield_start..i)` is the pending
  field and `string[i..]` is untouched.
-/
import DirSurveiller.Containers.Capacity
import DirSurveiller.Lib.Fields
import DirSurveiller.Parser.Receive

namespace DirSurveiller

open CMachine Outcome Fields

/-! ## §1. The splitter of the tracer's lines. -/

/-- The splitter for tabs, newlines and five fields. -/
abbrev feedByte (c : Cursor UInt8) (b : UInt8) : Cursor UInt8 := feed TAB NEWLINE fieldNum c b

abbrev feedBytes (c : Cursor UInt8) (bs : Bytes) : Cursor UInt8 := feedAll TAB NEWLINE fieldNum c bs

/-- Neither tab nor newline. -/
abbrev PlainByte (b : UInt8) : Prop := Plain TAB NEWLINE b

abbrev AlongBytes (Q : Cursor UInt8 → UInt8 → Prop) (c : Cursor UInt8) (bs : Bytes) : Prop :=
  Along TAB NEWLINE fieldNum Q c bs

/-- The line in progress has at most four tabs. -/
abbrev FewTabs (c : Cursor UInt8) (b : UInt8) : Prop := Bounded TAB fieldNum c b

/-- ... and every line that ends has exactly four. -/
abbrev FourTabs (c : Cursor UInt8) (b : UInt8) : Prop := Full TAB NEWLINE fieldNum c b

theorem tab_ne_newline : TAB ≠ NEWLINE := by decide

theorem plainByte_zero : PlainByte 0 := by decide

/-! ## §2. The field buffers. -/

/-- The field buffers hold the finished fields of the line; the others are empty. -/
structure FieldsHold (fields : List StringBuffer) (done : List Bytes) : Prop where
  length : fields.length = fieldNum
  sound : ∀ f ∈ fields, f.Wf ∧ f.Terminated
  contents : fields.map StringBuffer.content = done ++ List.replicate (fieldNum - done.length) []
  short : ∀ d ∈ done, d.length ≤ INT_MAX

variable {ρ : Type} {mem : ParserMem} {handle : Handler ρ}

/-- All field buffers answer their `realloc`s. -/
def ParserMem.Total (mem : ParserMem) : Prop := mem.sbuf.Total ∧ ∀ k, (mem.field k).Total

theorem FieldsHold.fieldOk {fields : List StringBuffer} {done : List Bytes}
    (h : FieldsHold fields done) : ∀ f ∈ fields, FieldOk f := by
  intro f hf
  obtain ⟨hwf, hterm⟩ := h.sound f hf
  refine ⟨hwf, hterm, ?_⟩
  have hmem : f.content ∈ done ++ List.replicate (fieldNum - done.length) [] := by
    rw [← h.contents]
    exact List.mem_map_of_mem hf
  rw [← hwf.content_length]
  rcases List.mem_append.mp hmem with hd | hd
  · exact h.short _ hd
  · rw [List.eq_of_mem_replicate hd]
    exact Nat.zero_le _

/-- Flushing sound buffers leaves empty ones. -/
theorem flush_all : ∀ (fields : List StringBuffer), (∀ f ∈ fields, f.Wf) →
    ∃ fields', fields.mapM sbFlush = .ok fields' ∧ fields'.length = fields.length
      ∧ ∀ f ∈ fields', (f.Wf ∧ f.Terminated) ∧ f.content = [] := by
  intro fields
  induction fields with
  | nil => intro _; exact ⟨[], rfl, rfl, by simp⟩
  | cons f fields ih =>
      intro h
      obtain ⟨f', hf', hwf, hterm, hcontent⟩ := StringBuffer.flush_spec (h f (by simp))
      obtain ⟨fields', hfields, hlen, hall⟩ := ih fun g hg => h g (by simp [hg])
      refine ⟨f' :: fields', ?_, by simp [hlen], ?_⟩
      · rw [List.mapM_cons, hf', ok_bind, hfields, ok_bind]
        rfl
      · simp only [List.forall_mem_cons]
        exact ⟨⟨⟨hwf, hterm⟩, hcontent⟩, hall⟩

/-- Empty buffers hold no finished field. -/
theorem FieldsHold.empty {fields : List StringBuffer} (hlen : fields.length = fieldNum)
    (h : ∀ f ∈ fields, (f.Wf ∧ f.Terminated) ∧ f.content = []) : FieldsHold fields [] := by
  refine ⟨hlen, fun f hf => (h f hf).1, ?_, by simp⟩
  rw [List.nil_append, List.eq_replicate_iff]
  refine ⟨by simpa using hlen, fun b hb => ?_⟩
  obtain ⟨f, hf, rfl⟩ := List.mem_map.mp hb
  exact (h f hf).2

/-- The thread with index `i` of its buffer overwritten by NUL. -/
def Parser.cut (p : Parser ρ) (i : Nat) : Parser ρ :=
  { p with sbuf := { p.sbuf with string := p.sbuf.string.set i 0 } }

@[simp] theorem Parser.cut_string (p : Parser ρ) (i : Nat) :
    (p.cut i).sbuf.string = p.sbuf.string.set i 0 := rfl

theorem cutAt_ok {p : Parser ρ} {i : Nat} (h : i < p.sbuf.string.length) :
    cutAt p i = .ok (p.cut i) := by
  rw [cutAt, store_ok h]
  rfl

/-- **Appending the pending field** to the buffer of the current field finishes that field. -/
theorem appendField_spec (hmem : mem.Total) {p : Parser ρ} {done : List Bytes} {cur rest : Bytes}
    (hfields : FieldsHold p.fields done) (hcurr : p.currField = done.length)
    (hlt : done.length < fieldNum)
    (hstring : p.sbuf.string.drop p.lfieldStart = cur ++ 0 :: rest)
    (hnonul : (0 : UInt8) ∉ cur) (hshort : cur.length ≤ INT_MAX) :
    ∃ fields', appendField mem p = .ok { p with fields := fields' }
      ∧ FieldsHold fields' (done ++ [cur]) := by
  have hk : done.length < p.fields.length := by
    rw [hfields.length]
    exact hlt
  obtain ⟨f, hf⟩ : ∃ f, p.fields[done.length]? = some f := ⟨_, List.getElem?_eq_getElem hk⟩
  obtain ⟨hwf, hterm⟩ := hfields.sound f (List.mem_of_getElem? hf)
  -- the buffers behind the finished fields are empty: the field is appended to nothing
  have hempty : f.content = [] := by
    have hget : (p.fields.map StringBuffer.content)[done.length]? = some f.content := by
      rw [List.getElem?_map, hf]
      rfl
    rw [hfields.contents, List.getElem?_append_right (Nat.le_refl _), Nat.sub_self,
      List.getElem?_replicate, if_pos (by omega)] at hget
    exact (Option.some.inj hget).symm
  have hend : f.endPos = 0 := by
    rw [← hwf.content_length, hempty]
    rfl
  obtain ⟨f', happend, hwf', hterm', hcontent'⟩ :=
    StringBuffer.append_spec (hmem.2 done.length) hwf (by rw [hempty]; simp) rest hnonul
      (by rw [hend]; unfold INT_MAX at hshort; omega)
  refine ⟨p.fields.set done.length f', ?_, ⟨by rw [List.length_set, hfields.length], ?_, ?_, ?_⟩⟩
  · simp only [appendField, hcurr, hf, hstring, happend, ok_bind]
    rfl
  · intro g hg
    rcases List.mem_or_eq_of_mem_set hg with hg | rfl
    · exact hfields.sound g hg
    · exact ⟨hwf', hterm'⟩
  · obtain ⟨m, hm⟩ : ∃ m, fieldNum - done.length = m + 1 := ⟨fieldNum - done.length - 1, by omega⟩
    rw [List.map_set, hfields.contents, hcontent', hempty, List.nil_append, hm,
      List.replicate_succ, List.set_append_right _ _ (Nat.le_refl _), Nat.sub_self,
      List.set_cons_zero, List.length_append, List.length_singleton,
      show fieldNum - (done.length + 1) = m by omega]
    simp
  · intro d hd
    rcases List.mem_append.mp hd with hd | hd
    · exact hfields.short d hd
    · rw [List.mem_singleton.mp hd]
      exact hshort

/-! ## §3. The scan. -/

/-- The scan stands at index `i` of a block that was `S` when it began: the pending field is
`string[lfield_start..i)` and nothing from `i` on has been touched. -/
structure Scan (S : Bytes) (E i : Nat) (p : Parser ρ) (c : Cursor UInt8) : Prop where
  wf : p.sbuf.Wf
  endPos : p.sbuf.endPos = E
  rest : p.sbuf.string.drop i = S.drop i
  start : p.lfieldStart ≤ i
  cur : (p.sbuf.string.take i).drop p.lfieldStart = c.cur
  nonul : (0 : UInt8) ∉ c.cur
  currField : p.currField = c.fields.length
  fields : FieldsHold p.fields c.fields
  inits : p.inits = c.out
  running : p.exited = false

section ScanRules

variable {S : Bytes} {E i : Nat} {p : Parser ρ} {c : Cursor UInt8} {b : UInt8}

theorem Scan.get (h : Scan S E i p c) (hb : S[i]? = some b) : p.sbuf.string[i]? = some b := by
  rw [← Nat.add_zero i, ← List.getElem?_drop, h.rest, List.getElem?_drop]
  exact hb

theorem Scan.lt (h : Scan S E i p c) (hi : i ≤ E) : i < p.sbuf.string.length := by
  have := h.wf.room
  rw [h.wf.length]
  rw [h.endPos] at this
  omega

theorem Scan.cur_length (h : Scan S E i p c) : c.cur.length ≤ i := by
  rw [← h.cur, List.length_drop, List.length_take]
  omega

/-- The block once index `i` is NUL: the pending field has become a C string. -/
theorem Scan.cut (h : Scan S E i p c) (hi : i ≤ E) :
    (p.sbuf.string.set i 0).drop p.lfieldStart
      = c.cur ++ 0 :: p.sbuf.string.drop (i + 1) := by
  have hlt := h.lt hi
  have hstart := h.start
  rw [List.set_eq_take_append_cons_drop, if_pos hlt, List.drop_append_of_le_length
    (by rw [List.length_take]; omega), h.cur]

theorem Scan.cut_wf (h : Scan S E i p c) : (p.cut i).sbuf.Wf :=
  ⟨by rw [Parser.cut_string, List.length_set]; exact h.wf.length, h.wf.room, h.wf.small⟩

theorem drop_succ_of_drop {s t : Bytes} (h : s.drop i = t.drop i) :
    s.drop (i + 1) = t.drop (i + 1) := by
  rw [← List.drop_drop, ← List.drop_drop, h]

/-- A plain byte joins the pending field. -/
theorem scanByte_plain (h : Scan S E i p c) (hi : i ≤ E) (hb : S[i]? = some b)
    (hplain : PlainByte b) (hnonul : b ≠ 0) :
    scanByte mem handle p i = .ok p ∧ Scan S E (i + 1) p (feedByte c b) := by
  have hget := h.get hb
  have hstart := h.start
  refine ⟨?_, ?_⟩
  · simp only [scanByte, load_of_getElem? hget, ok_bind, if_neg hplain.2, if_neg hplain.1]
    rfl
  · rw [feedByte, feed_plain c hplain]
    refine { h with
      rest := drop_succ_of_drop h.rest
      start := Nat.le_succ_of_le h.start
      cur := ?_
      nonul := ?_ }
    · have hlt := h.lt hi
      rw [List.take_add_one, hget, List.drop_append_of_le_length
        (by rw [List.length_take]; omega), h.cur]
      rfl
    · simp only [List.mem_append, List.mem_singleton, not_or]
      exact ⟨h.nonul, fun e => hnonul e.symm⟩

/-- A tab finishes the pending field. -/
theorem scanByte_tab (hmem : mem.Total) (hE : E < INT_MAX) (h : Scan S E i p c) (hi : i ≤ E)
    (hb : S[i]? = some TAB) (hfew : FewTabs c TAB) :
    ∃ p', scanByte mem handle p i = .ok p' ∧ Scan S E (i + 1) p' (feedByte c TAB)
      ∧ p'.sbuf.string = p.sbuf.string.set i 0 := by
  have hlt := h.lt hi
  have hcount : c.fields.length + 1 < fieldNum := hfew rfl
  obtain ⟨fields', happend, hhold⟩ :=
    appendField_spec (p := p.cut i) hmem h.fields h.currField (by omega) (h.cut hi) h.nonul
      (by have := h.cur_length; omega)
  refine ⟨{ p.cut i with fields := fields', currField := p.currField + 1, lfieldStart := i + 1 },
    ?_, ?_, rfl⟩
  · simp only [scanByte, load_of_getElem? (h.get hb), ok_bind, if_neg tab_ne_newline, if_true,
      scanTab, cutAt_ok hlt, happend]
    rfl
  · rw [feedByte, feed_sep tab_ne_newline]
    refine ⟨h.cut_wf, h.endPos, ?_, Nat.le_refl _, ?_, by simp, ?_, hhold, h.inits, h.running⟩
    · show (p.sbuf.string.set i 0).drop (i + 1) = _
      rw [List.drop_set_of_lt (Nat.lt_succ_self i)]
      exact drop_succ_of_drop h.rest
    · exact List.drop_of_length_le (by rw [List.length_take]; exact Nat.min_le_left _ _)
    · show p.currField + 1 = (c.fields ++ [c.cur]).length
      rw [h.currField, List.length_append, List.length_singleton]

/-- A newline finishes the line: with four tabs behind it the constructor is called, otherwise the
newline stays in the block and the line is dropped. -/
theorem scanByte_newline (hmem : mem.Total) (hh : HandlerOk handle) (hE : E < INT_MAX)
    (h : Scan S E i p c) (hi : i ≤ E) (hb : S[i]? = some NEWLINE) :
    ∃ p', scanByte mem handle p i = .ok p' ∧ Scan S E (i + 1) p' (feedByte c NEWLINE)
      ∧ p'.sbuf.string = (if c.fields.length + 1 = fieldNum then p.sbuf.string.set i 0
          else p.sbuf.string) := by
  have hlt := h.lt hi
  by_cases hfull : c.fields.length + 1 = fieldNum
  · obtain ⟨fields', happend, hhold⟩ :=
      appendField_spec (p := p.cut i) hmem h.fields h.currField (by omega) (h.cut hi) h.nonul
        (by have := h.cur_length; omega)
    -- the constructor may take the fields' buffers, but leaves five that can be flushed
    obtain ⟨r, hr, hrefused, hrlen, hrwf⟩ := hh p.inits.length fields' hhold.length hhold.fieldOk
    obtain ⟨flushed, hflush, hflen, hfall⟩ := flush_all r.fields hrwf
    have hcontents : fields'.map StringBuffer.content = c.fields ++ [c.cur] := by
      rw [hhold.contents, List.length_append, List.length_singleton, hfull]
      simp
    have hcurr : p.currField = fieldNum - 1 := by
      rw [h.currField]
      omega
    have hfinish : finishLine mem handle p i = .ok { p.cut i with
        fields := r.fields, inits := p.inits ++ [c.fields ++ [c.cur]]
        queued := p.queued ++ r.queued.toList, exited := false } := by
      simp only [finishLine, cutAt_ok hlt, ok_bind, happend]
      rw [show (p.cut i).inits = p.inits from rfl, hr]
      simp only [ok_bind, hrefused, hcontents]
      rfl
    refine ⟨{ p.cut i with
        fields := flushed, inits := p.inits ++ [c.fields ++ [c.cur]]
        queued := p.queued ++ r.queued.toList, exited := false
        lfieldStart := i + 1, currField := 0 }, ?_, ?_, by rw [if_pos hfull]; rfl⟩
    · simp only [scanByte, load_of_getElem? (h.get hb), ok_bind, if_true, scanNewline,
        if_pos hcurr, hfinish, Bool.false_eq_true, if_false, hflush]
      rfl
    · rw [feedByte, feed_eol, if_pos hfull]
      refine ⟨h.cut_wf, h.endPos, ?_, Nat.le_refl _, ?_, by simp [lineStart], rfl,
        .empty (hflen.trans hrlen) hfall, ?_, rfl⟩
      · show (p.sbuf.string.set i 0).drop (i + 1) = _
        rw [List.drop_set_of_lt (Nat.lt_succ_self i)]
        exact drop_succ_of_drop h.rest
      · exact List.drop_of_length_le (by rw [List.length_take]; exact Nat.min_le_left _ _)
      · show p.inits ++ [c.fields ++ [c.cur]] = c.out ++ [c.fields ++ [c.cur]]
        rw [h.inits]
  · obtain ⟨flushed, hflush, hflen, hfall⟩ := flush_all p.fields fun f hf => (h.fields.sound f hf).1
    have hcurr : ¬ p.currField = fieldNum - 1 := by
      rw [h.currField]
      have : fieldNum = 5 := rfl
      omega
    refine ⟨{ p with fields := flushed, lfieldStart := i + 1, currField := 0 }, ?_, ?_,
      by rw [if_neg hfull]⟩
    · simp only [scanByte, load_of_getElem? (h.get hb), ok_bind, if_true, scanNewline,
        if_neg hcurr, h.running, Bool.false_eq_true, if_false, hflush]
      rfl
    · rw [feedByte, feed_eol, if_neg hfull]
      exact ⟨h.wf, h.endPos, drop_succ_of_drop h.rest, Nat.le_refl _,
        List.drop_of_length_le (by rw [List.length_take]; exact Nat.min_le_left _ _),
        by simp [lineStart], rfl, .empty (hflen.trans h.fields.length) hfall, h.inits, h.running⟩

/-- **One index of the scan** moves the cursor over one byte. -/
theorem scanByte_spec (hmem : mem.Total) (hh : HandlerOk handle) (hE : E < INT_MAX)
    (h : Scan S E i p c) (hi : i ≤ E) (hb : S[i]? = some b) (hnonul : b ≠ 0)
    (hfew : FewTabs c b) :
    ∃ p', scanByte mem handle p i = .ok p' ∧ Scan S E (i + 1) p' (feedByte c b)
      ∧ (FourTabs c b → (∀ x ∈ p.sbuf.string.take i, PlainByte x) →
          ∀ x ∈ p'.sbuf.string.take (i + 1), PlainByte x) := by
  -- an overwritten delimiter is plain from then on
  have hcut : ∀ (s : Bytes), i < s.length → (∀ x ∈ s.take i, PlainByte x) →
      ∀ x ∈ (s.set i 0).take (i + 1), PlainByte x := by
    intro s hs hplain x hx
    rw [List.set_eq_take_append_cons_drop, if_pos hs, List.take_append,
      List.take_of_length_le (by rw [List.length_take]; omega)] at hx
    rcases List.mem_append.mp hx with hx | hx
    · exact hplain x hx
    · rw [List.length_take, Nat.min_eq_left (Nat.le_of_lt hs), show i + 1 - i = 1 by omega] at hx
      simp only [List.take_succ_cons, List.take_zero, List.mem_singleton] at hx
      rw [hx]
      exact plainByte_zero
  by_cases hnl : b = NEWLINE
  · subst hnl
    obtain ⟨p', hstep, hscan, hstring⟩ := scanByte_newline hmem hh hE h hi hb
    refine ⟨p', hstep, hscan, fun hfull hplain => ?_⟩
    rw [hstring, if_pos (hfull.1 rfl)]
    exact hcut _ (h.lt hi) hplain
  · by_cases htab : b = TAB
    · subst htab
      obtain ⟨p', hstep, hscan, hstring⟩ := scanByte_tab hmem hE h hi hb hfew
      refine ⟨p', hstep, hscan, fun _ hplain => ?_⟩
      rw [hstring]
      exact hcut _ (h.lt hi) hplain
    · obtain ⟨hstep, hscan⟩ := scanByte_plain h hi hb ⟨htab, hnl⟩ hnonul
      refine ⟨p, hstep, hscan, fun _ hplain x hx => ?_⟩
      rw [List.take_add_one, h.get hb] at hx
      rcases List.mem_append.mp hx with hx | hx
      · exact hplain x hx
      · rw [Option.mem_toList, Option.some.injEq] at hx
        rw [← hx]
        exact ⟨htab, hnl⟩

/-- **The scan over received bytes** moves the cursor over them. -/
theorem scan_spec (hmem : mem.Total) (hh : HandlerOk handle) (hE : E < INT_MAX) (left : Nat) :
    ∀ (bs : Bytes) (i : Nat) (p : Parser ρ) (c : Cursor UInt8), Scan S E i p c →
      (∃ tail, S.drop i = bs ++ tail) → i + bs.length ≤ E → (0 : UInt8) ∉ bs →
      AlongBytes FewTabs c bs →
      ∃ p', scan mem handle (bs.length + left) i p = scan mem handle left (i + bs.length) p'
        ∧ Scan S E (i + bs.length) p' (feedBytes c bs)
        ∧ (AlongBytes FourTabs c bs → (∀ x ∈ p.sbuf.string.take i, PlainByte x) →
            ∀ x ∈ p'.sbuf.string.take (i + bs.length), PlainByte x) := by
  intro bs
  -- on the bytes still to be read, from any index and any cursor
  induction bs with
  | nil =>
      intro i p c h _ _ _ _
      exact ⟨p, by simp, by simpa using h, fun _ hplain => by simpa using hplain⟩
  | cons b bs ih =>
      intro i p c h hbytes hlen hnonul hfew
      obtain ⟨tail, htail⟩ := hbytes
      rw [List.length_cons] at hlen
      have hb : S[i]? = some b := by
        rw [← Nat.add_zero i, ← List.getElem?_drop, htail]
        rfl
      obtain ⟨p₁, hstep, hscan₁, hplain₁⟩ := scanByte_spec hmem hh hE h (by omega) hb
        (fun e => hnonul (by simp [e])) hfew.1
      obtain ⟨p', hrun, hscan', hplain'⟩ := ih (i + 1) p₁ (feedByte c b) hscan₁
        ⟨tail, by rw [← List.drop_drop, htail]; rfl⟩ (by omega)
        (fun hm => hnonul (by simp [hm])) hfew.2
      have hnext : i + (b :: bs).length = i + 1 + bs.length := by
        rw [List.length_cons]
        omega
      refine ⟨p', ?_, by rw [hnext]; exact hscan', fun hfull hplain => ?_⟩
      · rw [hnext, ← hrun, List.length_cons, Nat.add_right_comm, scan, hstep, ok_bind,
          if_neg (by rw [hscan₁.running]; simp), if_neg (by omega)]
      · rw [hnext]
        exact hplain' hfull.2 (hplain₁ hfull.1 hplain)

/-- A scan that runs past the largest `int` does not end well, whatever it meets. -/
theorem scan_overflow :
    ∀ (left i : Nat) (p p' : Parser ρ), i ≤ INT_MAX → INT_MAX < i + left →
      scan mem handle left i p = .ok p' → p'.exited = true := by
  intro left
  induction left with
  | zero => intro i p p' hi hlt; omega
  | succ left ih =>
      intro i p p' hi hlt hrun
      rw [scan] at hrun
      obtain ⟨q, hq, hrun⟩ := bind_ok hrun
      by_cases hexit : q.exited = true
      · rw [if_pos hexit] at hrun
        cases hrun
        exact hexit
      · rw [if_neg hexit] at hrun
        by_cases hmax : i = INT_MAX
        · rw [if_pos hmax] at hrun
          cases hrun
        · rw [if_neg hmax] at hrun
          exact ih (i + 1) q p' (by omega) (by omega) hrun

end ScanRules

/-! ## §4. One `recv`. -/

/-- Between two `recv` calls the thread stands where the cursor stands. -/
structure Sim (p : Parser ρ) (c : Cursor UInt8) : Prop where
  wf : p.sbuf.Wf
  roomy : 256 ≤ p.sbuf.size
  small : p.sbuf.endPos < INT_MAX
  cur : p.sbuf.content = c.cur
  nonul : (0 : UInt8) ∉ c.cur
  plain : ∀ b ∈ c.cur, PlainByte b
  lfieldStart : p.lfieldStart = 0
  currField : p.currField = c.fields.length
  fields : FieldsHold p.fields c.fields
  inits : p.inits = c.out
  running : p.exited = false

/-- The byte behind the received ones, which the scan reads as well, does not act: it is plain, or
it is a newline and so is the last received byte. -/
def Quiet (mem : ParserMem) (p : Parser ρ) (bytes : Bytes) : Prop :=
  ∀ b, p.sbuf.byteBehind mem.sbuf bytes.length = some b →
    PlainByte b ∨ (b = NEWLINE ∧ bytes.getLast? = some NEWLINE)

section Consume

variable {p : Parser ρ} {c : Cursor UInt8} {bytes : Bytes}

theorem Sim.endPos_eq (h : Sim p c) : p.sbuf.endPos = c.cur.length := by
  rw [← h.cur, h.wf.content_length]

/-- The append at the head of `consume`, and where the scan begins. -/
theorem Sim.append (hmem : mem.Total) (h : Sim p c) (hlen : bytes.length ≤ 256) :
    ∃ sbuf, sbAppendl mem.sbuf p.sbuf bytes bytes.length = .ok (0, sbuf)
      ∧ sbuf.endPos = p.sbuf.endPos + bytes.length
      ∧ sbuf.string[sbuf.endPos]? = p.sbuf.byteBehind mem.sbuf bytes.length
      ∧ 256 ≤ sbuf.string.length
      ∧ (∃ tail, sbuf.string = (c.cur ++ bytes) ++ tail
          ∧ (mem.sbuf.Fills PlainByte → (∀ b ∈ p.sbuf.string, PlainByte b) →
              ∀ b ∈ tail, PlainByte b))
      ∧ Scan sbuf.string sbuf.endPos 0 { p with sbuf := sbuf } ⟨c.fields, [], c.out⟩ := by
  have hsmall := h.small
  have hroomy := h.roomy
  have hmax : INT_MAX = 2147483647 := rfl
  obtain ⟨sbuf, happend, hwf, hsize, hend, hcontent, hbehind⟩ :=
    StringBuffer.appendl_spec hmem.1 h.wf bytes (by omega)
  have hnext := hbehind sbuf.endPos hwf.room (Nat.le_refl _)
  rw [hend, StringBuffer.byteAt_behind h.wf (by omega), ← hend] at hnext
  have hlength := hwf.length
  have hstring : sbuf.string = (c.cur ++ bytes) ++ sbuf.string.drop sbuf.endPos := by
    rw [← h.cur, ← hcontent]
    exact (List.take_append_drop _ _).symm
  refine ⟨sbuf, happend, hend, hnext, by omega, ⟨_, hstring, ?_⟩,
    ⟨hwf, rfl, rfl, Nat.le_of_eq h.lfieldStart, by simp, by simp, h.currField, h.fields, h.inits,
      h.running⟩⟩
  intro hmemFills hplain b hb
  -- a byte behind the received ones was in the block, or came with it
  obtain ⟨i, hi⟩ := List.mem_iff_getElem?.mp hb
  rw [List.getElem?_drop] at hi
  have hlt : sbuf.endPos + i < sbuf.string.length := (List.getElem?_eq_some_iff.mp hi).1
  rw [hbehind _ (by omega) (Nat.le_add_right _ _)] at hi
  exact StringBuffer.byteAt_satisfies hmemFills hplain hi

/-- The delete at the end of `consume`: what stays is the pending field. -/
theorem Scan.finish {S : Bytes} {E j : Nat} (hE : E < INT_MAX) (hS : 256 ≤ S.length)
    (h : Scan S E j p c) (hj : j = E ∨ (j = E + 1 ∧ c.cur = [])) (hplain : ∀ b ∈ c.cur, PlainByte b) :
    ∃ sbuf, sbDeletehead p.sbuf p.lfieldStart = .ok sbuf
      ∧ Sim { p with sbuf := sbuf, lfieldStart := 0 } c
      ∧ ∀ b ∈ sbuf.string, b ∈ p.sbuf.string ∨ b = 0 := by
  have hmax : INT_MAX = 2147483647 := rfl
  have hend := h.endPos
  obtain ⟨sbuf, hdelete, hwf, hcontent, hsize, hbytes⟩ :=
    StringBuffer.deletehead_spec h.wf (by omega) p.lfieldStart
  have hroomy : 256 ≤ p.sbuf.size := by
    have hrest := congrArg List.length h.rest
    have hroom := h.wf.room
    rw [List.length_drop, List.length_drop, h.wf.length] at hrest
    omega
  have hcur : sbuf.content = c.cur := by
    rw [hcontent]
    rcases hj with rfl | ⟨rfl, hnil⟩
    · rw [StringBuffer.content, hend, h.cur]
    · -- the scan went one byte further, and that byte has ended the field
      have hlen := congrArg List.length (h.cur.trans hnil)
      have hroom := h.wf.room
      have hblock := h.wf.length
      rw [List.length_drop, List.length_take, List.length_nil] at hlen
      rw [hnil]
      refine List.drop_of_length_le ?_
      rw [h.wf.content_length]
      omega
  refine ⟨sbuf, hdelete, ⟨hwf, by rw [hsize]; exact hroomy, ?_, hcur, h.nonul,
    hplain, rfl, h.currField, h.fields, h.inits,
    h.running⟩, hbytes⟩
  show sbuf.endPos < INT_MAX
  have hle : sbuf.content.length ≤ E := by
    rw [hcontent, List.length_drop, h.wf.content_length, hend]
    exact Nat.sub_le _ _
  rw [← hwf.content_length]
  omega

/-- The pending bytes are scanned again and change nothing. -/
theorem Sim.rescan (h : Sim p c) (bytes : Bytes) :
    feedBytes ⟨c.fields, [], c.out⟩ (c.cur ++ bytes) = feedBytes c bytes := by
  rw [feedBytes, feedAll_append, feedAll_plain _ h.plain]
  rfl

theorem Sim.rescan_along (h : Sim p c) {Q : Cursor UInt8 → UInt8 → Prop}
    (hQ : ∀ c b, PlainByte b → Q c b) (halong : AlongBytes Q c bytes) :
    AlongBytes Q ⟨c.fields, [], c.out⟩ (c.cur ++ bytes) := by
  refine along_append.mpr ⟨along_plain hQ h.plain _, ?_⟩
  rw [feedAll_plain _ h.plain]
  exact halong

/-- The scan up to, and not including, `string[end_pos]`. -/
theorem Sim.scan_received (hmem : mem.Total) (hh : HandlerOk handle) (h : Sim p c)
    (hlen : bytes.length ≤ 256) (hfits : p.sbuf.endPos + bytes.length < INT_MAX)
    (hnonul : (0 : UInt8) ∉ bytes) (hfew : AlongBytes FewTabs c bytes) :
    ∃ sbuf p₁, sbAppendl mem.sbuf p.sbuf bytes bytes.length = .ok (0, sbuf)
      ∧ sbuf.endPos < INT_MAX
      ∧ sbuf.string[sbuf.endPos]? = p.sbuf.byteBehind mem.sbuf bytes.length
      ∧ 256 ≤ sbuf.string.length
      ∧ scan mem handle (sbuf.endPos + 1) 0 { p with sbuf := sbuf }
          = scan mem handle 1 sbuf.endPos p₁
      ∧ Scan sbuf.string sbuf.endPos sbuf.endPos p₁ (feedBytes c bytes)
      ∧ (AlongBytes FourTabs c bytes → mem.sbuf.Fills PlainByte →
          (∀ b ∈ p.sbuf.string, PlainByte b) → ∀ b ∈ p₁.sbuf.string, PlainByte b) := by
  obtain ⟨sbuf, happend, hend, hbehind, hroomy, ⟨tail, htail, htailPlain⟩, hscan⟩ :=
    h.append hmem hlen
  have hendLen : sbuf.endPos = (c.cur ++ bytes).length := by
    rw [hend, h.endPos_eq, List.length_append]
  have hE : sbuf.endPos < INT_MAX := by omega
  have hall : (0 : UInt8) ∉ c.cur ++ bytes := by
    rw [List.mem_append, not_or]
    exact ⟨h.nonul, hnonul⟩
  obtain ⟨p₁, hrun, hscan₁, hplain₁⟩ := scan_spec hmem hh hE 1 (c.cur ++ bytes) 0 _ _ hscan
    ⟨tail, htail⟩ (by omega) hall
    (h.rescan_along (fun c b hb e => absurd e hb.1) hfew)
  rw [Nat.zero_add, ← hendLen, h.rescan] at hscan₁
  rw [Nat.zero_add, ← hendLen] at hrun hplain₁
  refine ⟨sbuf, p₁, happend, hE, hbehind, hroomy, hrun, hscan₁, fun hfull hfills hplain b hb => ?_⟩
  -- in front of the index the scan has left no separator, behind it the block is untouched
  have hfront := hplain₁ (h.rescan_along full_of_plain hfull) (by simp)
  rw [← List.take_append_drop sbuf.endPos p₁.sbuf.string, hscan₁.rest, htail, hendLen,
    List.drop_left] at hb
  rcases List.mem_append.mp hb with hb | hb
  · rw [← hendLen] at hb
    exact hfront b hb
  · exact htailPlain hfills hplain b hb

/-- The scan of `string[end_pos]` when that byte is quiet. -/
theorem Scan.last (hmem : mem.Total) (hh : HandlerOk handle) {S : Bytes} {E : Nat}
    (hE : E < INT_MAX) (h : Scan S E E p c) {b : UInt8} (hb : S[E]? = some b)
    (hquiet : PlainByte b ∨ (b = NEWLINE ∧ c.fields = [] ∧ c.cur = [])) :
    ∃ p' j, scan mem handle 1 E p = .ok p' ∧ Scan S E j p' c
      ∧ (j = E ∨ (j = E + 1 ∧ c.cur = [])) ∧ (PlainByte b → p' = p) := by
  have hrest : ∀ q : Parser ρ, scanByte mem handle p E = .ok q → q.exited = false →
      scan mem handle 1 E p = .ok q := by
    intro q hq hexit
    rw [scan, hq, ok_bind, if_neg (by rw [hexit]; simp), if_neg (by omega)]
    rfl
  rcases hquiet with hplain | ⟨rfl, hfields, hcur⟩
  · refine ⟨p, E, hrest p ?_ h.running, h, Or.inl rfl, fun _ => rfl⟩
    simp only [scanByte, load_of_getElem? (h.get hb), ok_bind, if_neg hplain.2, if_neg hplain.1]
    rfl
  · obtain ⟨q, hq, hscan, -⟩ := scanByte_newline hmem hh hE h (Nat.le_refl _) hb
    have hstay : feedByte c NEWLINE = c := by
      rw [feedByte, feed_eol, hfields, if_neg (by decide)]
      cases c
      simp_all [lineStart]
    rw [hstay] at hscan
    exact ⟨q, E + 1, hrest q hq hscan.running, hscan, Or.inr ⟨rfl, hcur⟩,
      fun hp => absurd rfl hp.2⟩

/-- **One `recv` moves the cursor over the received bytes.**  If moreover every line so far had
its four tabs, the block holds no delimiter afterwards. -/
theorem consume_spec (hmem : mem.Total) (hh : HandlerOk handle) (h : Sim p c)
    (hlen : bytes.length ≤ 256) (hfits : p.sbuf.endPos + bytes.length < INT_MAX)
    (hnonul : (0 : UInt8) ∉ bytes) (hfew : AlongBytes FewTabs c bytes)
    (hquiet : Quiet mem p bytes) :
    ∃ p', consume mem handle p bytes bytes.length = .ok p' ∧ Sim p' (feedBytes c bytes)
      ∧ (AlongBytes FourTabs c bytes → mem.sbuf.Fills PlainByte →
          (∀ b ∈ p.sbuf.string, PlainByte b) → ∀ b ∈ p'.sbuf.string, PlainByte b) := by
  obtain ⟨sbuf, p₁, happend, hE, hbehind, hroomy, hrun, hscan₁, hplain₁⟩ :=
    h.scan_received hmem hh hlen hfits hnonul hfew
  have hroom : sbuf.endPos < sbuf.string.length := by
    have hdrop := congrArg List.length hscan₁.rest
    have hlt := hscan₁.lt (Nat.le_refl _)
    rw [List.length_drop, List.length_drop] at hdrop
    omega
  obtain ⟨b, hb⟩ : ∃ b, sbuf.string[sbuf.endPos]? = some b := ⟨_, List.getElem?_eq_getElem hroom⟩
  -- right behind a newline nothing is pending
  have hstart : bytes.getLast? = some NEWLINE →
      (feedBytes c bytes).fields = [] ∧ (feedBytes c bytes).cur = [] := by
    intro hlast
    obtain ⟨init, hinit⟩ := List.getLast?_eq_some_iff.mp hlast
    rw [feedBytes, hinit, feedAll_append, feedAll_cons, feedAll_nil, feed_eol]
    exact ⟨rfl, rfl⟩
  obtain ⟨p₂, j, hscan, hscan₂, hj, hsame⟩ := hscan₁.last hmem hh hE hb
    ((hquiet b (hbehind.symm.trans hb)).imp id fun hnl => ⟨hnl.1, hstart hnl.2⟩)
  obtain ⟨sbuf', hdelete, hsim, hbytes⟩ :=
    hscan₂.finish hE hroomy hj (feedAll_cur_plain c h.plain bytes)
  refine ⟨{ p₂ with sbuf := sbuf', lfieldStart := 0 }, ?_, hsim, ?_⟩
  · simp only [consume, happend, ok_bind, ne_eq, not_true_eq_false, if_false, hrun, hscan,
      hscan₂.running, Bool.false_eq_true, hdelete]
    rfl
  · intro hfull hfills hplain x hx
    have hp₁ := hplain₁ hfull hfills hplain
    have hbPlain : PlainByte b := hp₁ b (List.mem_of_getElem? (hscan₁.get hb))
    rcases hbytes x hx with hx | rfl
    · rw [hsame hbPlain] at hx
      exact hp₁ x hx
    · exact plainByte_zero

/-- With no delimiter in the block and none in what `realloc` adds, the byte behind is plain. -/
theorem quiet_of_plain (hmem : mem.Total) (h : Sim p c) (hlen : bytes.length ≤ 256)
    (hfills : mem.sbuf.Fills PlainByte) (hplain : ∀ b ∈ p.sbuf.string, PlainByte b) :
    Quiet mem p bytes := by
  intro b hb
  obtain ⟨sbuf, happend, hend, hbehind, -, ⟨tail, htail, htailPlain⟩, -⟩ := h.append hmem hlen
  have hget : sbuf.string[sbuf.endPos]? = some b := hbehind.trans hb
  rw [htail, List.getElem?_append_right (by rw [hend, h.endPos_eq, List.length_append])] at hget
  exact Or.inl (htailPlain hfills hplain b (List.mem_of_getElem? hget))

/-- A `recv` that fills the buffer beyond the largest `int` is not survived. -/
theorem consume_overflow (hmem : mem.Total) (h : Sim p c) (hlen : bytes.length ≤ 256)
    (hover : INT_MAX ≤ p.sbuf.endPos + bytes.length) {p' : Parser ρ}
    (hrun : consume mem handle p bytes bytes.length = .ok p') : p'.exited = true := by
  obtain ⟨sbuf, happend, hend, -⟩ := h.append hmem hlen
  simp only [consume, happend, ok_bind, ne_eq, not_true_eq_false, if_false] at hrun
  obtain ⟨q, hq, hrun⟩ := bind_ok hrun
  have hexit : q.exited = true :=
    scan_overflow (sbuf.endPos + 1) 0 _ q (Nat.zero_le _) (by omega) hq
  rw [if_pos hexit] at hrun
  cases hrun
  exact hexit

end Consume

end DirSurveiller
