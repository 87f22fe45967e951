/-
  DirSurveiller.Parser.Stream — whole streams through the two parser threads.

  Two results about every way of cutting a stream into what `recv` delivers:

    * `wire_parsed`       — the lines of a record list are parsed exactly when the `int` index of
                            the scan never reaches its maximum (`FitsInt`),
    * `malformed_skipped` — a line with too few tabs leaves no trace, in runs in which the byte
                            behind the received ones never acts (`QuietRun`).

  Both go by induction on the chunks; the invariant is `Sim`, and `consume_spec` is its step.
-/
import DirSurveiller.Parser.Simulation

namespace DirSurveiller

open CMachine Outcome Fields

/-! ## §1. Streams, records and cuts. -/

/-- A way of cutting a stream into what `recv` delivers: 1 to 256 bytes at a time. -/
structure Cut (stream : Bytes) (chunks : List Bytes) : Prop where
  flatten : chunks.flatten = stream
  size : ∀ c ∈ chunks, 0 < c.length ∧ c.length ≤ 256

/-- What the tracer prints: five fields free of NUL, tab and newline. -/
structure TracerRecord (record : List Bytes) : Prop where
  length : record.length = fieldNum
  clean : ∀ field ∈ record, ∀ b ∈ field, b ≠ 0 ∧ PlainByte b

/-- The records as the tracer writes them to the socket. -/
def wire (records : List (List Bytes)) : Bytes := (records.map (encode TAB NEWLINE)).flatten

/-- The bytes of the field in progress once `bytes` have been received. -/
def heldBytes (bytes : Bytes) : Bytes := bytes.rtakeWhile fun b => decide (PlainByte b)

/-- Whenever a chunk arrives, the field in progress and the chunk are shorter than the largest
`int`. -/
def FitsInt (chunks : List Bytes) : Prop :=
  ∀ pre chunk post, chunks = pre ++ chunk :: post →
    (heldBytes pre.flatten).length + chunk.length < INT_MAX

variable {ρ : Type} {mem : ParserMem} {handle : Handler ρ}

/-- Nothing is pending.  The thread is still in its loop: on leaving it the buffers are
destroyed. -/
structure Parser.Empty (p : Parser ρ) : Prop where
  sbuf : p.sbuf.content = []
  fields : ∀ f ∈ p.fields, f.content = []
  currField : p.currField = 0
  running : p.exited = false

/-- The constructor is called once per record, in order, with exactly its fields, and nothing
remains. -/
def ParsesExactly (run : Except Fault (Parser ρ)) (records : List (List Bytes)) : Prop :=
  ∃ p, run = .ok p ∧ p.inits = records ∧ p.Empty

/-- Both threads hand the same five-field records to the constructor. -/
def SameRecords {ρ' : Type} (run : Except Fault (Parser ρ)) (run' : Except Fault (Parser ρ')) :
    Prop :=
  ∃ p p', run = .ok p ∧ run' = .ok p' ∧ p.inits = p'.inits

/-! ## §2. From the first `recv` on. -/

/-- Five buffers of a sound size. -/
structure FieldSizes (sizes : List Nat) : Prop where
  length : sizes.length = fieldNum
  sound : ∀ n ∈ sizes, 0 < n ∧ n ≤ 2 ^ 33

theorem execFieldSizes_sound : FieldSizes execFieldSizes := ⟨rfl, by decide⟩

theorem openFieldSizes_sound : FieldSizes openFieldSizes := ⟨rfl, by decide⟩

/-- Before the loop nothing is pending, and no delimiter is in the block. -/
theorem init_sim {sizes : List Nat} (h : FieldSizes sizes) :
    Sim (parserInit sizes : Parser ρ) (lineStart [])
      ∧ ∀ b ∈ (parserInit sizes : Parser ρ).sbuf.string, PlainByte b := by
  have hfields : ∀ f ∈ sizes.map sbInit, (f.Wf ∧ f.Terminated) ∧ f.content = [] := by
    intro f hf
    obtain ⟨n, hn, rfl⟩ := List.mem_map.mp hf
    obtain ⟨hpos, hsmall⟩ := h.sound n hn
    exact ⟨⟨StringBuffer.wf_init hpos hsmall, StringBuffer.terminated_init hpos⟩, rfl⟩
  refine ⟨⟨StringBuffer.wf_init (by decide) (by decide), (by decide : 256 ≤ 512),
    (by decide : 0 < INT_MAX), rfl, by simp [lineStart], by simp [lineStart], rfl, rfl,
    .empty (by simpa [parserInit] using h.length) hfields, rfl, rfl⟩, ?_⟩
  intro b hb
  rw [List.eq_of_mem_replicate hb]
  exact plainByte_zero

/-- A thread that stands where the cursor stands at the start of a line is empty. -/
theorem Sim.empty {p : Parser ρ} {out : List (List Bytes)} (h : Sim p (lineStart out)) :
    p.Empty := by
  refine ⟨h.cur, fun f hf => ?_, h.currField, h.running⟩
  have hmem : f.content ∈ p.fields.map StringBuffer.content := List.mem_map_of_mem hf
  rw [h.fields.contents] at hmem
  exact List.eq_of_mem_replicate hmem

/-- The loop over what `recv` delivers, from a given state. -/
def receiveAll (mem : ParserMem) (handle : Handler ρ) (p : Parser ρ) (chunks : List Bytes) :
    Except Fault (Parser ρ) :=
  (chunks.map Recv.chunk).foldlM (receive mem handle) p

theorem receiveAll_cons {p : Parser ρ} (hrun : p.exited = false) (chunk : Bytes)
    (chunks : List Bytes) :
    receiveAll mem handle p (chunk :: chunks)
      = (consume mem handle p chunk chunk.length).bind fun p => receiveAll mem handle p chunks := by
  rw [receiveAll, List.map_cons, List.foldlM_cons, receive, if_neg (by rw [hrun]; simp)]
  rfl

/-- A thread that has left its loop receives nothing. -/
theorem receiveAll_exited {p : Parser ρ} (hexit : p.exited = true) (chunks : List Bytes) :
    receiveAll mem handle p chunks = .ok p := by
  induction chunks with
  | nil => rfl
  | cons chunk chunks ih =>
      rw [receiveAll, List.map_cons, List.foldlM_cons, receive, if_pos hexit]
      exact ih

/-! ## §3. Well-formed streams. -/

/-- `FitsInt` from a cursor on. -/
def FitsFrom : Cursor UInt8 → List Bytes → Prop
  | _, [] => True
  | c, chunk :: chunks =>
      c.cur.length + chunk.length < INT_MAX ∧ FitsFrom (feedBytes c chunk) chunks

theorem fitsFrom_iff (chunks : List Bytes) : ∀ c : Cursor UInt8,
    FitsFrom c chunks ↔ ∀ pre chunk post, chunks = pre ++ chunk :: post →
      (feedBytes c pre.flatten).cur.length + chunk.length < INT_MAX := by
  induction chunks with
  | nil => intro c; simp [FitsFrom]
  | cons d chunks ih =>
      intro c
      rw [FitsFrom, ih]
      constructor
      · rintro ⟨hd, hrest⟩ pre chunk post heq
        cases pre with
        | nil =>
            obtain ⟨rfl, rfl⟩ := List.cons.inj heq
            exact hd
        | cons e pre =>
            obtain ⟨rfl, rfl⟩ := List.cons.inj heq
            rw [List.flatten_cons, feedBytes, feedAll_append]
            exact hrest pre chunk post rfl
      · intro h
        refine ⟨h [] d chunks rfl, fun pre chunk post heq => ?_⟩
        have := h (d :: pre) chunk post (by rw [heq]; rfl)
        rwa [List.flatten_cons, feedBytes, feedAll_append] at this

theorem fitsFrom_lineStart (chunks : List Bytes) :
    FitsFrom (lineStart []) chunks ↔ FitsInt chunks := by
  have hheld : ∀ bs : Bytes, (feedBytes (lineStart []) bs).cur = heldBytes bs :=
    fun bs => feedAll_cur (lineStart []) (by simp [lineStart]) bs
  simp only [fitsFrom_iff, hheld, FitsInt]

/-- A stream shorter than the largest `int` fits, however it is cut. -/
theorem fitsInt_of_short {chunks : List Bytes} (h : chunks.flatten.length < INT_MAX) :
    FitsInt chunks := by
  rintro pre chunk post rfl
  have hheld : (heldBytes pre.flatten).length ≤ pre.flatten.length :=
    (List.rtakeWhile_suffix _ _).length_le
  rw [List.flatten_append, List.flatten_cons, List.length_append, List.length_append] at h
  omega

/-- **The loop over a stream of full lines** moves the cursor over it as long as the index fits,
and does not get to its end otherwise. -/
theorem receiveAll_full (hmem : mem.Total) (hh : HandlerOk handle)
    (hfills : mem.sbuf.Fills PlainByte) :
    ∀ (chunks : List Bytes) (p : Parser ρ) (c : Cursor UInt8), Sim p c →
      (∀ b ∈ p.sbuf.string, PlainByte b) → (∀ ch ∈ chunks, ch.length ≤ 256) →
      (0 : UInt8) ∉ chunks.flatten → AlongBytes FourTabs c chunks.flatten →
      (FitsFrom c chunks →
        ∃ p', receiveAll mem handle p chunks = .ok p' ∧ Sim p' (feedBytes c chunks.flatten))
      ∧ (∀ p', receiveAll mem handle p chunks = .ok p' → p'.exited = false →
        FitsFrom c chunks) := by
  intro chunks
  induction chunks with
  | nil => intro p c h _ _ _ _; exact ⟨fun _ => ⟨p, rfl, h⟩, fun _ _ _ => trivial⟩
  | cons chunk chunks ih =>
      intro p c h hplain hsize hnonul hfull
      rw [List.flatten_cons, List.mem_append, not_or] at hnonul
      rw [List.flatten_cons, AlongBytes, along_append] at hfull
      have hlen : chunk.length ≤ 256 := hsize chunk (by simp)
      rw [receiveAll_cons h.running]
      by_cases hfits : p.sbuf.endPos + chunk.length < INT_MAX
      · obtain ⟨p₁, hconsume, hsim, hplain₁⟩ := consume_spec hmem hh h hlen hfits hnonul.1
          (hfull.1.mono fun c b hb => hb.2) (quiet_of_plain hmem h hlen hfills hplain)
        obtain ⟨hforth, hback⟩ := ih p₁ _ hsim (hplain₁ hfull.1 hfills hplain)
          (fun ch hch => hsize ch (by simp [hch])) hnonul.2 hfull.2
        rw [hconsume]
        refine ⟨fun hfit => ?_, fun p' hrun hexit => ⟨?_, hback p' hrun hexit⟩⟩
        · rw [List.flatten_cons, feedBytes, feedAll_append]
          exact hforth hfit.2
        · rwa [← h.endPos_eq]
      · refine ⟨fun hfit => absurd hfit.1 (by rwa [← h.endPos_eq]), fun p' hrun hexit => ?_⟩
        -- past the largest index no run comes back to the loop head
        obtain ⟨p₁, hconsume, hrest⟩ := bind_ok hrun
        have hleft := consume_overflow hmem h hlen (Nat.le_of_not_lt hfits) hconsume
        rw [receiveAll_exited hleft] at hrest
        cases hrest
        rw [hleft] at hexit
        cases hexit

theorem wire_nonul {records : List (List Bytes)} (hrec : ∀ r ∈ records, TracerRecord r) :
    (0 : UInt8) ∉ wire records := by
  intro h0
  obtain ⟨line, hline, h0⟩ := List.mem_flatten.mp h0
  obtain ⟨r, hr, rfl⟩ := List.mem_map.mp hline
  rcases mem_encode h0 with h0 | h0 | ⟨f, hf, h0⟩
  · exact absurd h0 (by decide)
  · exact absurd h0 (by decide)
  · exact ((hrec r hr).clean f hf 0 h0).1 rfl

/-- **The lines of a record list**, through either thread: parsed exactly when the index fits. -/
theorem wire_parsed (hmem : mem.Total) (hh : HandlerOk handle)
    (hfills : mem.sbuf.Fills PlainByte) {sizes : List Nat} (hsizes : FieldSizes sizes)
    {records : List (List Bytes)} (hrec : ∀ r ∈ records, TracerRecord r) {chunks : List Bytes}
    (hcut : Cut (wire records) chunks) :
    ParsesExactly (receiveAll mem handle (parserInit sizes) chunks) records ↔ FitsInt chunks := by
  have hrecords : ∀ r ∈ records, r.length = fieldNum ∧ ∀ f ∈ r, ∀ b ∈ f, PlainByte b :=
    fun r hr => ⟨(hrec r hr).length, fun f hf b hb => ((hrec r hr).clean f hf b hb).2⟩
  obtain ⟨hsim, hplain⟩ := init_sim (ρ := ρ) hsizes
  obtain ⟨hforth, hback⟩ := receiveAll_full hmem hh hfills chunks _ _ hsim hplain
    (fun c hc => (hcut.size c hc).2) (by rw [hcut.flatten]; exact wire_nonul hrec)
    (by rw [hcut.flatten]; exact along_encode tab_ne_newline (by decide) hrecords [])
  rw [← fitsFrom_lineStart]
  constructor
  · rintro ⟨p, hrun, -, hempty⟩
    exact hback p hrun hempty.running
  · intro hfits
    obtain ⟨p, hrun, hsim'⟩ := hforth hfits
    have hfed : feedBytes (lineStart []) chunks.flatten = lineStart records := by
      rw [hcut.flatten]
      exact feedAll_encode tab_ne_newline (by decide) hrecords []
    rw [hfed] at hsim'
    exact ⟨p, hrun, hsim'.inits, hsim'.empty⟩

/-- **Parsing a stream of records**, through both threads: for any cut, each record reaches its
constructor once, in order and with its own fields, exactly when the `int` index of the scan never
reaches its maximum. -/
theorem stream_parsed_iff (hmem : mem.Total) (hfills : mem.sbuf.Fills PlainByte)
    (fresh : Nat → ExecCall) (stat : Bytes → Option Nat) (filter : Bytes → Bool)
    {records : List (List Bytes)} (hrec : ∀ r ∈ records, TracerRecord r) {chunks : List Bytes}
    (hcut : Cut (wire records) chunks) :
    (ParsesExactly (survHandleExecCallSocket mem .granting fresh (chunks.map .chunk)) records
        ↔ FitsInt chunks)
      ∧ (ParsesExactly (survHandleOpenCallSocket mem .granting stat filter (chunks.map .chunk))
          records ↔ FitsInt chunks) :=
  ⟨wire_parsed hmem (handleExecLine_ok fresh) hfills execFieldSizes_sound hrec hcut,
    wire_parsed hmem (handleOpenLine_ok stat filter) hfills openFieldSizes_sound hrec hcut⟩

/-- Every request is granted with zeroed bytes. -/
def ParserMem.zeroing : ParserMem :=
  { sbuf := fun _ _ => some fun _ => 0, field := fun _ _ _ => some fun _ => 0 }

theorem zeroing_total : ParserMem.zeroing.Total := ⟨fun _ _ => rfl, fun _ _ _ => rfl⟩

theorem zeroing_fills : ParserMem.zeroing.sbuf.Fills PlainByte := by
  intro call size fill hfill k
  cases hfill
  exact plainByte_zero

/-- One byte at a time. -/
theorem cut_singletons (stream : Bytes) : Cut stream (stream.map fun b => [b]) := by
  refine ⟨by rw [← List.flatMap_def]; exact List.flatMap_singleton' stream, fun c hc => ?_⟩
  obtain ⟨b, -, rfl⟩ := List.mem_map.mp hc
  exact ⟨Nat.one_pos, by simp⟩

/-- A record whose first field has `n` bytes. -/
def longRecord (n : Nat) : List Bytes := [List.replicate n 97, [], [], [], []]

theorem longRecord_clean (n : Nat) : TracerRecord (longRecord n) := by
  refine ⟨rfl, fun field hfield b hb => ?_⟩
  simp only [longRecord, List.mem_cons, List.not_mem_nil, or_false] at hfield
  rcases hfield with rfl | rfl | rfl | rfl | rfl
  · rw [List.eq_of_mem_replicate hb]
    decide
  all_goals simp at hb

/-- Received byte by byte, a first field longer than the largest `int` does not fit. -/
theorem longRecord_not_fits {n : Nat} (hn : INT_MAX < n) :
    ¬ FitsInt ((wire [longRecord n]).map fun b => [b]) := by
  intro hfits
  obtain ⟨m, rfl⟩ : ∃ m, n = m + 1 := ⟨n - 1, by omega⟩
  have hsplit : wire [longRecord (m + 1)] = List.replicate m 97 ++ 97 :: [9, 9, 9, 9, 10] := by
    simp [wire, longRecord, encode, TAB, NEWLINE, List.replicate_succ', List.intercalate_cons_cons]
  have hheld : heldBytes (List.replicate m 97) = List.replicate m 97 :=
    List.rtakeWhile_eq_self_iff.mpr fun b hb => by
      rw [List.eq_of_mem_replicate hb]
      decide
  have := hfits ((List.replicate m 97).map fun b => [b]) [97]
    ([9, 9, 9, 9, 10].map fun b => [b]) (by rw [hsplit]; simp)
  rw [(cut_singletons (List.replicate m 97)).flatten, hheld, List.length_replicate] at this
  have hone : ([97] : Bytes).length = 1 := rfl
  omega

/-- The one record of `2 ^ 31` bytes, received byte by byte, is not parsed. -/
theorem long_field_not_parsed :
    TracerRecord (longRecord (INT_MAX + 1))
      ∧ Cut (wire [longRecord (INT_MAX + 1)]) ((wire [longRecord (INT_MAX + 1)]).map fun b => [b])
      ∧ ¬ ParsesExactly (survHandleExecCallSocket .zeroing .granting (fun _ => ExecCall.zero)
          (((wire [longRecord (INT_MAX + 1)]).map fun b => [b]).map .chunk))
          [longRecord (INT_MAX + 1)] := by
  refine ⟨longRecord_clean _, cut_singletons _, fun hparsed => ?_⟩
  exact longRecord_not_fits (Nat.lt_succ_self _)
    ((wire_parsed zeroing_total (handleExecLine_ok fun _ => ExecCall.zero) zeroing_fills
      execFieldSizes_sound (by simpa using longRecord_clean _) (cut_singletons _)).mp hparsed)

/-- Two lines, one with empty fields, in chunks of 3 bytes. -/
def sampleRecords : List (List Bytes) := [[[65], [], [66], [], []], [[], [67], [], [], [68]]]

def sampleChunks : List Bytes :=
  [[65, 9, 9], [66, 9, 9], [10, 9, 67], [9, 9, 9], [68, 10]]

theorem stream_parsed_sample :
    ParsesExactly (survHandleExecCallSocket .zeroing .granting (fun _ => ExecCall.zero)
        (sampleChunks.map .chunk)) sampleRecords :=
  (stream_parsed_iff zeroing_total zeroing_fills (fun _ => ExecCall.zero) (fun _ => none)
    (fun _ => true) (by
      intro r hr
      simp only [sampleRecords, List.mem_cons, List.not_mem_nil, or_false] at hr
      rcases hr with rfl | rfl <;> exact ⟨rfl, by simp [PlainByte, Fields.Plain, TAB, NEWLINE]⟩)
    ⟨by decide, by decide⟩).1.mpr (fitsInt_of_short (by decide))

/-! ## §4. Streams with malformed lines. -/

/-- A stream free of NUL in which no line has more than four tabs. -/
structure TracerStream (stream : Bytes) : Prop where
  nonul : (0 : UInt8) ∉ stream
  tabs : ∀ line, line <:+: stream → NEWLINE ∉ line → line.count TAB ≤ 4

/-- `m` is a line with fewer than four tabs, and `pre` ends where a line ends. -/
structure MalformedLine (pre m : Bytes) : Prop where
  start : pre = [] ∨ pre.getLast? = some NEWLINE
  line : NEWLINE ∉ m
  tabs : m.count TAB < 4

/-- A run in which, at every `recv`, the index fits and the byte behind the received ones does not
act. -/
def QuietRun (mem : ParserMem) (handle : Handler ρ) : Parser ρ → List Bytes → Prop
  | _, [] => True
  | p, chunk :: chunks =>
      p.sbuf.endPos + chunk.length < INT_MAX ∧ Quiet mem p chunk
        ∧ ∀ p', consume mem handle p chunk chunk.length = .ok p' → QuietRun mem handle p' chunks

/-- **The loop in a quiet run** moves the cursor over the stream, malformed lines and all. -/
theorem receiveAll_quiet (hmem : mem.Total) (hh : HandlerOk handle) :
    ∀ (chunks : List Bytes) (p : Parser ρ) (c : Cursor UInt8), Sim p c →
      (∀ ch ∈ chunks, ch.length ≤ 256) → (0 : UInt8) ∉ chunks.flatten →
      AlongBytes FewTabs c chunks.flatten → QuietRun mem handle p chunks →
      ∃ p', receiveAll mem handle p chunks = .ok p' ∧ Sim p' (feedBytes c chunks.flatten) := by
  intro chunks
  induction chunks with
  | nil => intro p c h _ _ _ _; exact ⟨p, rfl, h⟩
  | cons chunk chunks ih =>
      intro p c h hsize hnonul hfew ⟨hfits, hquiet, hrest⟩
      rw [List.flatten_cons, List.mem_append, not_or] at hnonul
      rw [List.flatten_cons, AlongBytes, along_append] at hfew
      obtain ⟨p₁, hconsume, hsim, -⟩ := consume_spec hmem hh h (hsize chunk (by simp)) hfits
        hnonul.1 hfew.1 hquiet
      obtain ⟨p', hrun, hsim'⟩ := ih p₁ _ hsim (fun ch hch => hsize ch (by simp [hch])) hnonul.2
        hfew.2 (hrest p₁ hconsume)
      refine ⟨p', ?_, ?_⟩
      · rw [receiveAll_cons h.running, hconsume]
        exact hrun
      · rw [List.flatten_cons, feedBytes, feedAll_append]
        exact hsim'

theorem TracerStream.few {stream : Bytes} (h : TracerStream stream) :
    AlongBytes FewTabs (lineStart []) stream :=
  along_bounded tab_ne_newline
    (fun line hline hnl => Nat.lt_succ_of_le (h.tabs line hline hnl)) []

/-- The records a quiet run hands to the constructor are those of the splitter. -/
theorem quiet_inits (hmem : mem.Total) (hh : HandlerOk handle) {sizes : List Nat}
    (hsizes : FieldSizes sizes) {stream : Bytes} (hnonul : (0 : UInt8) ∉ stream)
    (hfew : AlongBytes FewTabs (lineStart []) stream) {chunks : List Bytes}
    (hcut : Cut stream chunks) (hquiet : QuietRun mem handle (parserInit sizes) chunks) :
    ∃ p, receiveAll mem handle (parserInit sizes) chunks = .ok p
      ∧ p.inits = (feedBytes (lineStart []) stream).out := by
  obtain ⟨p, hrun, hsim⟩ := receiveAll_quiet hmem hh chunks _ _ (init_sim hsizes).1
    (fun c hc => (hcut.size c hc).2) (by rwa [hcut.flatten]) (by rwa [hcut.flatten]) hquiet
  rw [hcut.flatten] at hsim
  exact ⟨p, hrun, hsim.inits⟩

section Malformed

variable {pre m : Bytes}

/-- A malformed line takes the cursor from the start of a line back to the same start. -/
theorem MalformedLine.cursor (h : MalformedLine pre m) :
    ∃ out, feedBytes (lineStart []) pre = lineStart out
      ∧ feedBytes (lineStart out) (m ++ [NEWLINE]) = lineStart out := by
  have hskip : ∀ out, feedBytes (lineStart out) (m ++ [NEWLINE]) = lineStart out := by
    intro out
    have htabs := h.tabs
    have hfields : fieldNum = 5 := rfl
    exact feedAll_malformed tab_ne_newline h.line (by omega) out
  obtain ⟨out, hpre⟩ : ∃ out, feedBytes (lineStart []) pre = lineStart out := by
    rcases h.start with rfl | hlast
    · exact ⟨[], rfl⟩
    · obtain ⟨init, rfl⟩ := List.getLast?_eq_some_iff.mp hlast
      rw [feedBytes, feedAll_append, feedAll_cons, feedAll_nil, feed_eol]
      exact ⟨_, rfl⟩
  exact ⟨out, hpre, hskip out⟩

/-- The splitter forgets a malformed line. -/
theorem MalformedLine.feed_eq (h : MalformedLine pre m) (post : Bytes) :
    feedBytes (lineStart []) (pre ++ m ++ NEWLINE :: post)
      = feedBytes (lineStart []) (pre ++ post) := by
  obtain ⟨out, hpre, hm⟩ := h.cursor
  unfold feedBytes at *
  rw [show pre ++ m ++ NEWLINE :: post = pre ++ ((m ++ [NEWLINE]) ++ post) by simp,
    feedAll_append, hpre, feedAll_append, hm, feedAll_append, hpre]

theorem MalformedLine.few (h : MalformedLine pre m) {post : Bytes}
    (hfew : AlongBytes FewTabs (lineStart []) (pre ++ m ++ NEWLINE :: post)) :
    AlongBytes FewTabs (lineStart []) (pre ++ post) := by
  obtain ⟨out, hpre, hm⟩ := h.cursor
  unfold feedBytes at *
  rw [show pre ++ m ++ NEWLINE :: post = pre ++ ((m ++ [NEWLINE]) ++ post) by simp, AlongBytes,
    along_append, hpre, along_append, hm] at hfew
  rw [AlongBytes, along_append, hpre]
  exact ⟨hfew.1, hfew.2.2⟩

theorem nonul_skip {post : Bytes} (h : (0 : UInt8) ∉ pre ++ m ++ NEWLINE :: post) :
    (0 : UInt8) ∉ pre ++ post := by
  simp only [List.mem_append, List.mem_cons, not_or] at h ⊢
  exact ⟨h.1.1, h.2.2⟩

variable {ρ' : Type} {handle' : Handler ρ'} {mem' : ParserMem}

/-- **A malformed line leaves no trace** in quiet runs: cut the stream with it and the stream
without it in any two ways, with any answers of `realloc`. -/
theorem malformed_skipped (hmem : mem.Total) (hmem' : mem'.Total) (hh : HandlerOk handle)
    (hh' : HandlerOk handle') {sizes : List Nat} (hsizes : FieldSizes sizes) {post : Bytes}
    (hm : MalformedLine pre m) (hstream : TracerStream (pre ++ m ++ NEWLINE :: post))
    {chunks chunks' : List Bytes} (hcut : Cut (pre ++ m ++ NEWLINE :: post) chunks)
    (hcut' : Cut (pre ++ post) chunks')
    (hquiet : QuietRun mem handle (parserInit sizes) chunks)
    (hquiet' : QuietRun mem' handle' (parserInit sizes) chunks') :
    SameRecords (receiveAll mem handle (parserInit sizes) chunks)
      (receiveAll mem' handle' (parserInit sizes) chunks') := by
  obtain ⟨p, hrun, hinits⟩ :=
    quiet_inits hmem hh hsizes hstream.nonul hstream.few hcut hquiet
  obtain ⟨p', hrun', hinits'⟩ :=
    quiet_inits hmem' hh' hsizes (nonul_skip hstream.nonul) (hm.few hstream.few) hcut' hquiet'
  exact ⟨p, p', hrun, hrun', by rw [hinits, hinits', hm.feed_eq]⟩

/-- **Malformed lines are skipped without damage to their neighbours**, by both threads, in runs
in which the byte behind the received ones never acts. -/
theorem malformed_lines_skipped (hmem : mem.Total) (hmem' : mem'.Total)
    (fresh fresh' : Nat → ExecCall) (stat stat' : Bytes → Option Nat)
    (filter filter' : Bytes → Bool) {post : Bytes} (hm : MalformedLine pre m)
    (hstream : TracerStream (pre ++ m ++ NEWLINE :: post)) {chunks chunks' : List Bytes}
    (hcut : Cut (pre ++ m ++ NEWLINE :: post) chunks) (hcut' : Cut (pre ++ post) chunks') :
    (QuietRun mem (handleExecLine .granting fresh) (parserInit execFieldSizes) chunks →
        QuietRun mem' (handleExecLine .granting fresh') (parserInit execFieldSizes) chunks' →
        SameRecords (survHandleExecCallSocket mem .granting fresh (chunks.map .chunk))
          (survHandleExecCallSocket mem' .granting fresh' (chunks'.map .chunk)))
      ∧ (QuietRun mem (handleOpenLine .granting stat filter) (parserInit openFieldSizes) chunks →
        QuietRun mem' (handleOpenLine .granting stat' filter') (parserInit openFieldSizes) chunks' →
        SameRecords (survHandleOpenCallSocket mem .granting stat filter (chunks.map .chunk))
          (survHandleOpenCallSocket mem' .granting stat' filter' (chunks'.map .chunk))) :=
  ⟨malformed_skipped hmem hmem' (handleExecLine_ok fresh) (handleExecLine_ok fresh')
      execFieldSizes_sound hm hstream hcut hcut',
    malformed_skipped hmem hmem' (handleOpenLine_ok stat filter) (handleOpenLine_ok stat' filter')
      openFieldSizes_sound hm hstream hcut hcut'⟩

end Malformed

/-- The line `x` and a well-formed line behind it. -/
def goodLine : Bytes := [97, 9, 98, 9, 99, 9, 100, 9, 101, 10]

theorem sampleStream_tracer : TracerStream ([] ++ [120] ++ NEWLINE :: goodLine) := by
  refine ⟨by decide, fun line hline _ => ?_⟩
  calc line.count TAB ≤ ([] ++ [120] ++ NEWLINE :: goodLine).count TAB :=
        hline.sublist.count_le TAB
    _ = 4 := by decide

theorem sampleLine_malformed : MalformedLine [] [120] := ⟨Or.inl rfl, by decide, by decide⟩

/-- A first chunk that ends inside the 512 zeroed bytes is quiet. -/
theorem quietRun_first {handle : Handler ρ} {sizes : List Nat} {chunk : Bytes}
    (hlen : chunk.length < 512) : QuietRun .zeroing handle (parserInit sizes) [chunk] := by
  refine ⟨?_, fun b hb => Or.inl ?_, fun _ _ => trivial⟩
  · show 0 + chunk.length < INT_MAX
    unfold INT_MAX
    omega
  · simp only [StringBuffer.byteBehind, parserInit, sbInit, Nat.zero_add, if_pos hlen,
      List.getElem?_replicate, Option.some.injEq] at hb
    rw [← hb]
    exact plainByte_zero

theorem malformed_line_skipped_sample :
    SameRecords
      (survHandleExecCallSocket .zeroing .granting (fun _ => ExecCall.zero)
        ([[] ++ [120] ++ NEWLINE :: goodLine].map .chunk))
      (survHandleExecCallSocket .zeroing .granting (fun _ => ExecCall.zero)
        ([[] ++ goodLine].map .chunk)) :=
  (malformed_lines_skipped zeroing_total zeroing_total (fun _ => ExecCall.zero)
    (fun _ => ExecCall.zero) (fun _ => none) (fun _ => none) (fun _ => true) (fun _ => true)
    sampleLine_malformed sampleStream_tracer ⟨by decide, by decide⟩ ⟨by decide, by decide⟩).1
    (quietRun_first (by decide)) (quietRun_first (by decide))

/-- A chunk of one byte right behind the malformed line: its newline, still in the buffer, is read
again and swallows the byte. -/
theorem malformed_line_damages :
    TracerStream ([] ++ [120] ++ NEWLINE :: goodLine) ∧ MalformedLine [] [120]
      ∧ Cut ([] ++ [120] ++ NEWLINE :: goodLine) [[120, 10], [97], goodLine.drop 1]
      ∧ Cut ([] ++ goodLine) [goodLine]
      ∧ ¬ SameRecords
          (survHandleExecCallSocket .zeroing .granting (fun _ => ExecCall.zero)
            ([[120, 10], [97], goodLine.drop 1].map .chunk))
          (survHandleExecCallSocket .zeroing .granting (fun _ => ExecCall.zero)
            ([goodLine].map .chunk)) := by
  refine ⟨sampleStream_tracer, sampleLine_malformed, ⟨by decide, by decide⟩,
    ⟨by decide, by decide⟩, ?_⟩
  rintro ⟨p, p', hrun, hrun', hinits⟩
  have hleft : (survHandleExecCallSocket .zeroing .granting (fun _ => ExecCall.zero)
      ([[120, 10], [97], goodLine.drop 1].map .chunk)).map Parser.inits
        = .ok [[[], [98], [99], [100], [101]]] := by
    decide +kernel
  have hright : (survHandleExecCallSocket .zeroing .granting (fun _ => ExecCall.zero)
      ([goodLine].map .chunk)).map Parser.inits = .ok [[[97], [98], [99], [100], [101]]] := by
    decide +kernel
  rw [hrun] at hleft
  rw [hrun'] at hright
  have hp : p.inits = _ := Except.ok.inj hleft
  have hp' : p'.inits = _ := Except.ok.inj hright
  rw [hinits, hp'] at hp
  exact absurd hp (by decide)

end DirSurveiller
