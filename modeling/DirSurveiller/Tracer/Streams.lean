/-
  DirSurveiller.Tracer.Streams — the two streams of the tracer, and what the parsers need of them.

  A line of the trace has neither NUL nor newline in it.  The records of the openCalls are made of
  pieces of fields, and a field has no tab: whatever the trace, they are five fields to a line.  The
  arguments of an exec are cut out of the whole line, and a warning is a line of its own: the stream
  of the execCalls is well formed exactly when no printed argument brings a tab along and each
  warning happens to have four.

    * `eventsOf_clean`      — what a line tells is printable,
    * `out_tracerBytes`     — the stream of the openCalls is made of five-field lines,
    * `err_tracerBytes_iff` — when the stream of the execCalls is,
    * `streams_tracerBytes` — the two together.
-/
import DirSurveiller.Parser.Delivery
import DirSurveiller.Tracer.Reports

namespace DirSurveiller

open CMachine Awk Fields History

/-! ## §1. What can be printed. -/

/-- A line of the trace, as `cat -v` writes it. -/
structure TraceLine (line : Bytes) : Prop where
  nonul : (0 : UInt8) ∉ line
  newline : NEWLINE ∉ line
  short : line.length + 300 < INT_MAX

/-- A text within one line. -/
structure Inline (f : Bytes) : Prop where
  nonul : (0 : UInt8) ∉ f
  newline : NEWLINE ∉ f
  short : f.length + 256 < INT_MAX

/-- A text within one field. -/
structure Word (f : Bytes) : Prop extends Inline f where
  tab : TAB ∉ f

def Event.Clean : Event → Prop
  | .named _ filename => Word filename
  | .opened pid time comm rval => Word pid ∧ Word time ∧ Word comm ∧ Word rval
  | .forked pid _ => Word pid
  | .execed pid time comm args warnings =>
      (Word pid ∧ Word time ∧ Word comm) ∧ Inline args ∧ ∀ w ∈ warnings, Inline w
  | .warned warnings => ∀ w ∈ warnings, Inline w

theorem Word.nil : Word [] := ⟨⟨by simp, by simp, by decide⟩, by simp⟩

/-- A text made of bytes of the line other than blanks. -/
structure Piece (line f : Bytes) : Prop where
  mem : ∀ b ∈ f, b ∈ line ∧ isBlank b = false
  length : f.length ≤ line.length

section Pieces

variable {line f : Bytes}

theorem Piece.sub {pat : Pattern UInt8} (h : Piece line f) : Piece line (pat.sub [] f) := by
  constructor
  · intro b hb
    rcases mem_sub hb with hb | hb
    · cases hb
    · exact h.mem b hb
  · have hle : (pat.sub [] f).length ≤ ([] : Bytes).length + f.length := length_sub_le
    rw [List.length_nil, Nat.zero_add] at hle
    exact hle.trans h.length

theorem Piece.word (hline : TraceLine line) (h : Piece line f) : Word f := by
  refine ⟨⟨fun hm => hline.nonul (h.mem 0 hm).1, fun hm => hline.newline (h.mem _ hm).1, ?_⟩, ?_⟩
  · have := hline.short
    have := h.length
    omega
  · intro hm
    exact absurd (h.mem TAB hm).2 (by decide)

theorem piece_of_mem_fields (h : f ∈ fields isBlank line) : Piece line f := by
  obtain ⟨hpiece, -, hfree⟩ := mem_fields h
  exact ⟨fun b hb => ⟨hpiece.subset hb, hfree b hb⟩, hpiece.length_le⟩

theorem field_piece (n : Nat) (line : Bytes) : Piece line (field n line) := by
  unfold field
  cases hn : (fields isBlank line)[n - 1]? with
  | none => exact ⟨fun b hb => (List.not_mem_nil hb).elim, Nat.zero_le _⟩
  | some f => exact piece_of_mem_fields (List.mem_of_getElem? hn)

/-- A line that has a field has a last one. -/
theorem lastField_piece {n : Nat} (h : field n line ≠ []) : Piece line (lastField line) := by
  unfold lastField
  cases hlast : (fields isBlank line).getLast? with
  | some f => exact piece_of_mem_fields (List.mem_of_getLast? hlast)
  | none =>
      have hnil := List.getLast?_eq_none_iff.mp hlast
      exact absurd (show field n line = [] by rw [field, hnil]; rfl) h

theorem commOf_piece (line : Bytes) : Piece line (commOf line) := (field_piece 1 line).sub

theorem pidOf_piece (line : Bytes) : Piece line (pidOf line) := (field_piece 1 line).sub

theorem timeOf_piece (o : Nat) (line : Bytes) : Piece line (timeOf o line) := (field_piece _ line).sub

end Pieces

theorem Inline.append {f g : Bytes} (hf : Inline f) (hg : Inline g)
    (hshort : (f ++ g).length + 256 < INT_MAX) : Inline (f ++ g) := by
  refine ⟨?_, ?_, hshort⟩
  · rw [List.mem_append, not_or]
    exact ⟨hf.nonul, hg.nonul⟩
  · rw [List.mem_append, not_or]
    exact ⟨hf.newline, hg.newline⟩

/-- The arguments are cut out of the line; the separators become blanks. -/
theorem argsOf_inline {line : Bytes} (hline : TraceLine line) : Inline (argsOf line) := by
  have hshort := hline.short
  have hcut : ∀ {f : Bytes}, (∀ b ∈ f, b ∈ line ∨ b ∈ ascii " ") → f.length ≤ line.length →
      Inline f ∧ Inline (f ++ ascii " [...]") := by
    intro f hmem hlen
    have hf : Inline f := by
      refine ⟨fun hm => ?_, fun hm => ?_, by omega⟩
      · exact (hmem 0 hm).elim hline.nonul (by decide)
      · exact (hmem _ hm).elim hline.newline (by decide)
    refine ⟨hf, hf.append ⟨by decide, by decide, by decide⟩ ?_⟩
    rw [List.length_append, show (ascii " [...]").length = 6 from rfl]
    omega
  unfold argsOf
  split
  · have hcomm := (commOf_piece line).word hline
    refine hcomm.toInline.append ⟨by decide, by decide, by decide⟩ ?_
    have := (commOf_piece line).length
    rw [List.length_append, show (ascii " [?]").length = 4 from rfl]
    omega
  · -- each of the substitutions keeps to the bytes of the line
    obtain ⟨h, h'⟩ := @hcut (endQuote.sub [] (argBetween.gsub (ascii " ") (argFault.gsub []
        ((throughPattern (ascii "arg1=\"")).sub []
          ((throughPattern (ascii "arg1=(fault)")).sub [] line)))))
      (fun b hb => by
        rcases mem_sub hb with hb | hb
        · cases hb
        rcases mem_gsub hb with hb | hb
        · exact .inr hb
        rcases mem_gsub hb with hb | hb
        · cases hb
        rcases mem_sub hb with hb | hb
        · cases hb
        rcases mem_sub hb with hb | hb
        · cases hb
        exact .inl hb)
      (by
        refine length_sub_le.trans ?_
        rw [List.length_nil, Nat.zero_add]
        refine (length_gsub_le (by decide)).trans ((length_gsub_le (by decide)).trans ?_)
        refine length_sub_le.trans ?_
        rw [List.length_nil, Nat.zero_add]
        refine length_sub_le.trans ?_
        rw [List.length_nil, Nat.zero_add])
    split
    · exact h
    · exact h'

theorem warningsOf_inline {line : Bytes} (hline : TraceLine line) :
    ∀ w ∈ warningsOf line, Inline w := by
  intro w hw
  unfold warningsOf at hw
  split at hw
  · rw [List.mem_singleton.mp hw]
    have hshort := hline.short
    refine Inline.append ⟨by decide, by decide, by decide⟩
      ⟨hline.nonul, hline.newline, by omega⟩ ?_
    rw [List.length_append, show (ascii "WARNING: ").length = 9 from rfl]
    omega
  · cases hw

/-- **What a line tells is printable.** -/
theorem eventsOf_clean (o : Nat) (kname : Bytes) {line : Bytes} (hline : TraceLine line) :
    ∀ e ∈ eventsOf o kname line, e.Clean := by
  have hpid := (pidOf_piece line).word hline
  have hcomm := (commOf_piece line).word hline
  have htime := (timeOf_piece o line).word hline
  intro e he
  unfold eventsOf at he
  simp only [List.mem_append, List.mem_ite_nil_right, List.mem_singleton, Bool.and_eq_true] at he
  rcases he with ((⟨⟨-, hocc⟩, rfl⟩ | ⟨⟨-, hocc⟩, rfl⟩) | ⟨-, rfl⟩) | rfl
  · have hne : field (5 + o) line ≠ [] := by
      intro hnil
      rw [hnil] at hocc
      exact absurd hocc (by decide)
    exact ((lastField_piece hne).sub.sub).word hline
  · have hne : field (4 + o) line ≠ [] := by
      intro hnil
      rw [hnil] at hocc
      exact absurd hocc (by decide)
    refine ⟨hpid, htime, hcomm, ?_⟩
    unfold rvalOf
    split
    · exact ⟨⟨by decide, by decide, by decide⟩, by decide⟩
    · exact (lastField_piece hne).word hline
  · exact hpid
  · unfold lastEventOf
    split
    · exact ⟨⟨hpid, htime, hcomm⟩, argsOf_inline hline, warningsOf_inline hline⟩
    · exact warningsOf_inline hline

/-! ## §2. The records. -/

section Records

variable {es past : List Event} {pid : Bytes}

theorem fileAt_word (h : ∀ e ∈ past, e.Clean) : Word (fileAt past pid) := by
  unfold fileAt
  cases hlast : lastSome (fileEvent pid) past with
  | none => exact Word.nil
  | some v =>
      obtain ⟨before, e, after, rfl, he, -⟩ := lastSome_eq_some.mp hlast
      have hclean := h e (by simp)
      cases e with
      | named p filename =>
          obtain rfl := Option.some.inj (Option.ite_none_right_eq_some.mp he).2
          exact hclean
      | opened p time comm rval =>
          obtain rfl := Option.some.inj (Option.ite_none_right_eq_some.mp he).2
          exact Word.nil
      | forked | execed | warned => cases he

theorem parentAt_word (h : ∀ e ∈ past, e.Clean) : Word (parentAt past pid) := by
  unfold parentAt
  cases hlast : lastSome (parentEvent pid) (printedEvents past) with
  | none => exact Word.nil
  | some v =>
      obtain ⟨before, ⟨e, printed⟩, after, hsplit, he, -⟩ := lastSome_eq_some.mp hlast
      have hmem : (e, printed) ∈ printedEvents past := by
        rw [hsplit]
        simp
      obtain ⟨before', e', after', hpast, hin⟩ := mem_collect.mp hmem
      obtain ⟨rfl, -⟩ := Prod.mk.inj (List.mem_singleton.mp hin)
      have hclean := h e (by simp [hpast])
      cases e with
      | forked p child =>
          obtain rfl := Option.some.inj (Option.ite_none_right_eq_some.mp he).2
          exact hclean
      | execed p time comm args warnings =>
          cases printed with
          | true =>
              obtain rfl := Option.some.inj (Option.ite_none_right_eq_some.mp he).2
              exact Word.nil
          | false => cases he
      | named | opened | warned => cases he

/-- A record whose fields are words. -/
theorem tracerRecord_of_words {record : List Bytes} (hlen : record.length = fieldNum)
    (h : ∀ f ∈ record, Word f) : TracerRecord record := by
  refine ⟨hlen, fun f hf b hb => ⟨?_, ?_, ?_⟩⟩
  · rintro rfl
    exact (h f hf).nonul hb
  · rintro rfl
    exact (h f hf).tab hb
  · rintro rfl
    exact (h f hf).newline hb

theorem openReports_words (h : ∀ e ∈ es, e.Clean) :
    ∀ r ∈ openReports es, r.length = fieldNum ∧ ∀ f ∈ r, Word f := by
  intro r hr
  obtain ⟨before, e, after, rfl, hreport⟩ := mem_collect.mp hr
  cases e with
  | opened pid time comm rval =>
      obtain ⟨hpid, htime, hcomm, hrval⟩ := h (.opened pid time comm rval) (by simp)
      have hfile : Word (fileAt before pid) := fileAt_word fun e he => h e (by simp [he])
      rw [List.mem_singleton.mp hreport]
      refine ⟨rfl, fun f hf => ?_⟩
      simp only [List.mem_cons, List.not_mem_nil, or_false] at hf
      rcases hf with rfl | rfl | rfl | rfl | rfl
      · exact htime
      · exact hcomm
      · exact hpid
      · exact hrval
      · exact hfile
  | named | forked | execed | warned => cases hreport

theorem execReports_inline (h : ∀ e ∈ es, e.Clean) :
    ∀ r ∈ execReports es, r.length = fieldNum ∧ ∀ f ∈ r, Inline f := by
  intro r hr
  obtain ⟨before, e, after, rfl, hreport⟩ := mem_collect.mp hr
  obtain ⟨pid, time, comm, args, warnings, rfl, -, rfl⟩ := mem_execReport hreport
  obtain ⟨⟨hpid, htime, hcomm⟩, hargs, -⟩ := h (.execed pid time comm args warnings) (by simp)
  have hppid : Word (parentAt before pid) := parentAt_word fun x hx => h x (by simp [hx])
  refine ⟨rfl, fun f hf => ?_⟩
  simp only [List.mem_cons, List.not_mem_nil, or_false] at hf
  rcases hf with rfl | rfl | rfl | rfl | rfl
  · exact htime.toInline
  · exact hcomm.toInline
  · exact hpid.toInline
  · exact hppid.toInline
  · exact hargs

end Records

theorem traceEvents_clean {o : Nat} {kname : Bytes} {lines : List Bytes}
    (h : ∀ line ∈ lines, TraceLine line) : ∀ e ∈ traceEvents o kname lines, e.Clean := by
  intro e he
  obtain ⟨line, hline, he⟩ := List.mem_flatMap.mp he
  exact eventsOf_clean o kname (h line hline) e he

/-- The records of the openCalls, whatever the trace. -/
theorem openReports_tracer {o : Nat} {kname : Bytes} {lines : List Bytes}
    (h : ∀ line ∈ lines, TraceLine line) : ∀ r ∈ openReports (traceEvents o kname lines),
    TracerRecord r ∧ ∀ f ∈ r, f.length + 256 < INT_MAX := by
  intro r hr
  obtain ⟨hlen, hwords⟩ := openReports_words (traceEvents_clean h) r hr
  exact ⟨tracerRecord_of_words hlen hwords, fun f hf => (hwords f hf).short⟩

/-- The stream of the openCalls is made of five-field lines, whatever the trace. -/
theorem out_tracerBytes (o : Nat) (kname : Bytes) {lines : List Bytes}
    (h : ∀ line ∈ lines, TraceLine line) : TracerBytes (Script.run o kname lines).out := by
  rw [(run_reports o kname lines).1]
  exact wire_tracerBytes (fun r hr => (openReports_tracer h r hr).1)
    (fun r hr => (openReports_tracer h r hr).2)

/-! ## §3. The lines of the standard error. -/

/-- Lines of printable fields are such a stream iff they have four tabs each. -/
theorem wire_tracerBytes_iff {records : List (List Bytes)} (h : ∀ r ∈ records, ∀ f ∈ r, Inline f) :
    TracerBytes (wire records) ↔ ∀ r ∈ records, ([TAB].intercalate r).count TAB + 1 = fieldNum := by
  have hmem : ∀ r ∈ records, ∀ b ∈ [TAB].intercalate r, b ≠ 0 ∧ b ≠ NEWLINE := by
    intro r hr b hb
    have henc : b ∈ encode TAB TAB r := List.mem_append_left _ hb
    rcases mem_encode henc with rfl | rfl | ⟨f, hf, hb⟩
    · decide
    · decide
    · exact ⟨fun e => (h r hr f hf).nonul (e ▸ hb), fun e => (h r hr f hf).newline (e ▸ hb)⟩
  have heol : ∀ l ∈ records.map ([TAB].intercalate ·), NEWLINE ∉ l := by
    intro l hl hm
    obtain ⟨r, hr, rfl⟩ := List.mem_map.mp hl
    exact (hmem r hr _ hm).2 rfl
  have halong := along_lines (n := fieldNum) tab_ne_newline heol []
  rw [List.map_map, List.forall_mem_map] at halong
  constructor
  · exact fun hbytes => halong.mp hbytes.lines
  · refine fun hcount => ⟨?_, halong.mpr hcount, fun pre hpre =>
      heldBytes_short (fun r hr f hf => (h r hr f hf).short) hpre⟩
    intro hm
    obtain ⟨l, hl, hb⟩ := List.mem_flatten.mp hm
    obtain ⟨r, hr, rfl⟩ := List.mem_map.mp hl
    rcases List.mem_append.mp hb with hb | hb
    · exact (hmem r hr 0 hb).1 rfl
    · exact absurd (List.mem_singleton.mp hb) (by decide)

/-- What is printed for an event has four tabs to a line. -/
def FourTabbed (past : List Event) : Event → Prop
  | .execed pid _ _ args warnings =>
      seenAt past pid = false → TAB ∉ args ∧ ∀ w ∈ warnings, w.count TAB = 4
  | .warned warnings => ∀ w ∈ warnings, w.count TAB = 4
  | _ => True

/-- The tabs of a record: those between its fields, and those within them. -/
theorem record_tabs {time comm pid ppid args : Bytes} (htime : TAB ∉ time) (hcomm : TAB ∉ comm)
    (hpid : TAB ∉ pid) (hppid : TAB ∉ ppid) :
    ([TAB].intercalate [time, comm, pid, ppid, args]).count TAB = 4 + args.count TAB := by
  have h1 : ∀ f : Bytes, TAB ∉ f → f.count TAB = 0 := fun f hf => List.count_eq_zero.mpr hf
  simp only [List.intercalate_cons_cons, List.intercalate_singleton, List.count_append,
    h1 _ htime, h1 _ hcomm, h1 _ hpid, h1 _ hppid, List.count_singleton_self]
  omega

theorem errRecord_fourTabbed {past : List Event} {e : Event} (hpast : ∀ x ∈ past, x.Clean)
    (he : e.Clean) :
    (∀ r ∈ errRecord past e, ([TAB].intercalate r).count TAB + 1 = fieldNum) ↔ FourTabbed past e := by
  have hwarnings : ∀ warnings : List Bytes,
      (∀ r ∈ warnings.map ([·]), ([TAB].intercalate r).count TAB + 1 = fieldNum)
        ↔ ∀ w ∈ warnings, w.count TAB = 4 := by
    intro warnings
    rw [List.forall_mem_map]
    refine forall_congr' fun w => forall_congr' fun _ => ?_
    rw [List.intercalate_singleton]
    exact Nat.succ_inj
  cases e with
  | execed pid time comm args warnings =>
      obtain ⟨⟨hpid, htime, hcomm⟩, -, -⟩ := he
      have hppid : Word (parentAt past pid) := parentAt_word hpast
      show (∀ r ∈ if seenAt past pid then _ else _, _) ↔ (seenAt past pid = false → _)
      cases seenAt past pid with
      | true => exact ⟨fun _ h => (Bool.noConfusion h), fun _ r hr => (List.not_mem_nil hr).elim⟩
      | false =>
          rw [if_neg Bool.false_ne_true, List.forall_mem_cons, hwarnings,
            record_tabs htime.tab hcomm.tab hpid.tab hppid.tab]
          refine ⟨fun ⟨hcount, hw⟩ _ => ⟨?_, hw⟩, fun h => ?_⟩
          · exact List.count_eq_zero.mp (by have : 4 + args.count TAB + 1 = 5 := hcount; omega)
          · rw [List.count_eq_zero.mpr (h rfl).1]
            exact ⟨rfl, (h rfl).2⟩
  | warned warnings => exact hwarnings warnings
  | named | opened | forked => exact ⟨fun _ => trivial, fun _ r hr => (List.not_mem_nil hr).elim⟩

theorem errRecords_inline {es : List Event} (h : ∀ e ∈ es, e.Clean) :
    ∀ r ∈ errRecords es, ∀ f ∈ r, Inline f := by
  intro r hr f hf
  obtain ⟨past, e, rest, hsplit, hrecord⟩ := mem_collect.mp hr
  have he := h e (by simp [hsplit])
  rcases mem_errRecord hrecord with hreport | ⟨w, hw, rfl⟩
  · exact (execReports_inline h r (mem_collect.mpr ⟨past, e, rest, hsplit, hreport⟩)).2 f hf
  · rw [List.mem_singleton.mp hf]
    cases e with
    | execed pid time comm args warnings => exact he.2.2 w hw
    | warned warnings => exact he w hw
    | named | opened | forked => cases hw

/-- The stream of the execCalls is made of five-field lines exactly when no exec that is printed has a
tab in its arguments, and each warning has four. -/
theorem err_tracerBytes_iff (o : Nat) (kname : Bytes) {lines : List Bytes}
    (h : ∀ line ∈ lines, TraceLine line) : TracerBytes (Script.run o kname lines).err
      ↔ ∀ past e rest, traceEvents o kname lines = past ++ e :: rest → FourTabbed past e := by
  have hclean : ∀ e ∈ traceEvents o kname lines, e.Clean := traceEvents_clean h
  rw [(run_reports o kname lines).2, wire_tracerBytes_iff (errRecords_inline hclean)]
  constructor
  · intro hcount past e rest hsplit
    rw [hsplit] at hcount hclean
    refine (errRecord_fourTabbed (fun x hx => hclean x (by simp [hx])) (hclean e (by simp))).mp
      fun r hr => ?_
    exact hcount r (mem_collect.mpr ⟨past, e, rest, rfl, hr⟩)
  · intro hfour r hr
    obtain ⟨past, e, rest, hsplit, hr⟩ := mem_collect.mp hr
    have hfits := hfour past e rest hsplit
    rw [hsplit] at hclean
    exact (errRecord_fourTabbed (fun x hx => hclean x (by simp [hx])) (hclean e (by simp))).mpr
      hfits r hr

/-- **What the parsers can rely on.**  On every trace the stream of the openCalls is made of five-field
lines; the stream of the execCalls is if and only if no exec that is printed has a tab in its arguments
and each warning about lost events has four. -/
theorem streams_tracerBytes (o : Nat) (kname : Bytes) {lines : List Bytes}
    (h : ∀ line ∈ lines, TraceLine line) : TracerBytes (Script.run o kname lines).out
      ∧ (TracerBytes (Script.run o kname lines).err
        ↔ ∀ past e rest, traceEvents o kname lines = past ++ e :: rest → FourTabbed past e) :=
  ⟨out_tracerBytes o kname h, err_tracerBytes_iff o kname h⟩

/-- One exec with a tab among its arguments. -/
def tabbedTrace : List Bytes := [ascii "a-1 0 1.0: kx: arg1=\"b\tc\""]

theorem streams_tracerBytes_sample : TracerBytes (Script.run 0 (ascii "kx") tabbedTrace).out
    ∧ ¬ TracerBytes (Script.run 0 (ascii "kx") tabbedTrace).err := by
  have hbytes : ∀ line ∈ tabbedTrace, (0 : UInt8) ∉ line ∧ NEWLINE ∉ line ∧
      line.length + 300 < INT_MAX := by
    decide +kernel
  obtain ⟨hout, herr⟩ := streams_tracerBytes 0 (ascii "kx")
    (fun line hline => ⟨(hbytes line hline).1, (hbytes line hline).2.1, (hbytes line hline).2.2⟩)
  refine ⟨hout, fun hbytes => ?_⟩
  have hevents : traceEvents 0 (ascii "kx") tabbedTrace
      = [.execed (ascii "1") (ascii "1.0") (ascii "a") (ascii "b\tc [...]") []] := by decide +kernel
  exact (herr.mp hbytes [] _ [] hevents rfl).1 (by decide)

end DirSurveiller
