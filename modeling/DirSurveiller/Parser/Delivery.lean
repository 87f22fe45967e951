/-
  DirSurveiller.Parser.Delivery — the objects that a stream of lines becomes.

  `execOfLine` and `openOfLine` say what the constructors make of the five fields of a line.  The
  results of Stream are about the fields that reach the constructors; here they are about the objects
  that reach the queues.

  Main results:
    * `execHandler_delivers`, `openHandler_delivers` — a handler queues what its line stands for,
    * `rounds_deliver` — the rounds of a thread over what has come of such a stream queue the objects
                         of its complete lines, in order.
-/
import DirSurveiller.Parser.Thread

namespace DirSurveiller

open CMachine Outcome Fields

/-! ## §1. What a line stands for. -/

/-- The time stamp in front of a line; `none` without a dot. -/
def stampOf (oTime : Bytes) : Option Timeval :=
  if DOT ∈ oTime then
    some ⟨atol (oTime.take (oTime.idxOf DOT)), atol (oTime.drop (oTime.idxOf DOT + 1))⟩
  else none

/-- The execCall of a line. -/
def execOfLine : List Bytes → Option ExecCall
  | [oTime, cmd, pid, ppid, args] =>
      (stampOf oTime).map fun timeStamp =>
        { pid := atoi pid, ppid := atoi ppid, deadness := 0, tracked := false, callNum := 0
          cmdName := cmd, args := args, callBuffSize := 8, callBuff := List.replicate 8 none
          timeStamp := timeStamp, ptimeStamp := ⟨0, 0⟩ }
  | _ => none

/-- The openCall of a line; without the file its inode is 0. -/
def openOfLine (stat : Bytes → Option Nat) (filter : Bytes → Bool) : List Bytes → Option OpenCall
  | [oTime, cmd, pid, rval, path] =>
      if filter path then
        (stampOf oTime).map fun timeStamp =>
          { pid := atoi pid, flag := atoi rval, cmdName := cmd, filepath := path
            inode := (stat path).getD 0, timeStamp := timeStamp }
      else none
  | _ => none

/-- The objects of a list of lines. -/
def delivered {ρ : Type} (parse : Nat → List Bytes → Option ρ) (lines : List (List Bytes)) : List ρ :=
  lines.zipIdx.filterMap fun line => parse line.2 line.1

theorem delivered_concat {ρ : Type} (parse : Nat → List Bytes → Option ρ) (lines : List (List Bytes))
    (line : List Bytes) :
    delivered parse (lines ++ [line]) = delivered parse lines ++ (parse lines.length line).toList := by
  unfold delivered
  rw [List.zipIdx_append, List.filterMap_append]
  congr 1
  rw [Nat.zero_add, List.zipIdx_singleton]
  show (match parse lines.length line with
    | none => []
    | some x => [x]) = (parse lines.length line).toList
  cases parse lines.length line with
  | none => rfl
  | some x => rfl

/-! ## §2. What the handlers queue. -/

/-- A handler that is sound, and queues what its line stands for. -/
structure Delivers {ρ : Type} (handle : Handler ρ) (parse : Nat → List Bytes → Option ρ) : Prop where
  sound : HandlerOk handle
  queued : ∀ line fields r, fields.length = fieldNum → (∀ f ∈ fields, FieldOk f) →
    handle line fields = .ok r → r.queued = parse line (fields.map StringBuffer.content)

/-- All requests for memory are granted. -/
structure ParserEnv.Granted (env : ParserEnv) : Prop where
  alloc : ∀ line k, env.alloc line k = true
  malloc : ∀ line, env.malloc line = true

theorem ParserEnv.Granted.eq {env : ParserEnv} (h : env.Granted) :
    { env with accepts := fun _ => true } = ParserEnv.granting := by
  obtain ⟨alloc, malloc, accepts⟩ := env
  have halloc : alloc = fun _ _ => true := funext fun line => funext (h.alloc line)
  have hmalloc : malloc = fun _ => true := funext h.malloc
  rw [halloc, hmalloc]
  rfl

/-- The two numbers around the dot, or nothing. -/
theorem splitTimeStamp_stamp {stamp : StringBuffer} (h : FieldOk stamp) :
    ∃ r, splitTimeStamp stamp = .ok r ∧ r.map Prod.fst = stampOf stamp.content := by
  have hlen : stamp.content.idxOf DOT ≤ stamp.endPos := by
    rw [← h.1.content_length]
    exact List.idxOf_le_length
  unfold stampOf
  by_cases hmem : DOT ∈ stamp.content
  · have hlt : stamp.content.idxOf DOT < stamp.endPos := by
      rw [← h.1.content_length]
      exact List.idxOf_lt_length_of_mem hmem
    refine ⟨_, splitTimeStamp_dot h rfl hlt, ?_⟩
    rw [if_pos hmem]
    rfl
  · have heq : stamp.content.idxOf DOT = stamp.endPos := by
      rw [← h.1.content_length]
      exact List.idxOf_eq_length hmem
    have hsmall := h.2.2
    refine ⟨none, ?_, by rw [if_neg hmem]; rfl⟩
    rw [splitTimeStamp, if_neg (by omega), if_pos heq]

theorem execHandler_delivers {env : ParserEnv} (henv : env.Granted) (fresh : Nat → ExecCall) :
    Delivers (execHandler env fresh true) fun _ => execOfLine := by
  unfold execHandler
  rw [henv.eq]
  refine ⟨handleExecLine_ok fresh, fun line fields r hlen hok hr => ?_⟩
  obtain ⟨oTime, cmd, pid, ppid, args, rfl⟩ : ∃ a b c d e, fields = [a, b, c, d, e] := by
    match fields, hlen with
    | [a, b, c, d, e], _ => exact ⟨a, b, c, d, e, rfl⟩
  simp only [List.forall_mem_cons] at hok
  obtain ⟨h1, h2, h3, h4, h5, -⟩ := hok
  obtain ⟨split, hsplit, hstamp⟩ := splitTimeStamp_stamp h1
  simp only [handleExecLine, ParserEnv.granting, if_true, execCallInit, hsplit, ok_bind] at hr
  simp only [List.map_cons, List.map_nil, execOfLine, ← hstamp]
  cases split with
  | none =>
      obtain rfl := Except.ok.inj hr
      rfl
  | some s =>
      simp only [h2.copied, h5.copied,
        StringBuffer.cstring_eq h3.1 h3.2.1, StringBuffer.cstring_eq h4.1 h4.2.1, ok_bind] at hr
      obtain rfl := Except.ok.inj hr
      rfl

theorem openHandler_delivers {env : ParserEnv} (henv : env.Granted)
    (stat : Nat → Bytes → Option Nat) (filter : Nat → Bytes → Bool) :
    Delivers (openHandler env stat filter true) fun line => openOfLine (stat line) (filter line) := by
  unfold openHandler
  rw [henv.eq]
  refine ⟨fun line fields hlen hok => handleOpenLine_ok (stat line) (filter line) line fields hlen hok,
    fun line fields r hlen hok hr => ?_⟩
  obtain ⟨oTime, cmd, pid, rval, path, rfl⟩ : ∃ a b c d e, fields = [a, b, c, d, e] := by
    match fields, hlen with
    | [a, b, c, d, e], _ => exact ⟨a, b, c, d, e, rfl⟩
  simp only [List.forall_mem_cons] at hok
  obtain ⟨h1, h2, h3, h4, h5, -⟩ := hok
  obtain ⟨split, hsplit, hstamp⟩ := splitTimeStamp_stamp h1
  simp only [handleOpenLine, ParserEnv.granting, if_true, openCallInit, hsplit, ok_bind] at hr
  simp only [List.map_cons, List.map_nil, openOfLine, ← hstamp]
  cases split with
  | none =>
      obtain rfl := Except.ok.inj hr
      exact (ite_self _).symm
  | some s =>
      simp only [h2.copied, h5.copied,
        StringBuffer.cstring_eq h3.1 h3.2.1, StringBuffer.cstring_eq h4.1 h4.2.1,
        StringBuffer.cstring_eq h5.1 h5.2.1, ok_bind] at hr
      cases hstat : stat line path.content with
      | none =>
          simp only [hstat, pure_eq_ok, ok_bind] at hr
          by_cases hfilter : filter line path.content = true
          · simp only [hfilter, if_true] at hr ⊢
            obtain rfl := Except.ok.inj hr
            rfl
          · simp only [hfilter, if_false, Bool.false_eq_true] at hr ⊢
            obtain rfl := Except.ok.inj hr
            rfl
      | some inode =>
          simp only [hstat, pure_eq_ok, ok_bind] at hr
          by_cases hfilter : filter line path.content = true
          · simp only [hfilter, if_true] at hr ⊢
            obtain rfl := Except.ok.inj hr
            rfl
          · simp only [hfilter, if_false, Bool.false_eq_true] at hr ⊢
            obtain rfl := Except.ok.inj hr
            rfl

/-! ## §3. A handler that looks at what it queues. -/

section Checked

variable {ρ : Type} [DecidableEq ρ] {mem : ParserMem} {handle handle' : Handler ρ}
  {parse : Nat → List Bytes → Option ρ}

/-- The handler, stopped where it does not queue what its line stands for. -/
def checked (handle : Handler ρ) (parse : Nat → List Bytes → Option ρ) : Handler ρ :=
  fun line fields => do
    let r ← handle line fields
    if r.queued = parse line (fields.map StringBuffer.content) then return r
    else .error .outOfRange

theorem checked_ok {line : Nat} {fields : List StringBuffer} {r : Handled ρ}
    (h : checked handle parse line fields = .ok r) :
    handle line fields = .ok r ∧ r.queued = parse line (fields.map StringBuffer.content) := by
  unfold checked at h
  obtain ⟨r', hr', h⟩ := bind_ok h
  by_cases hq : r'.queued = parse line (fields.map StringBuffer.content)
  · rw [if_pos hq] at h
    obtain rfl := Except.ok.inj h
    exact ⟨hr', hq⟩
  · rw [if_neg hq] at h
    cases h

/-- On the buffers of a line nothing is stopped. -/
theorem Delivers.checked (h : Delivers handle parse) : HandlerOk (checked handle parse) := by
  intro line fields hlen hok
  obtain ⟨r, hr, hrest⟩ := h.sound line fields hlen hok
  refine ⟨r, ?_, hrest⟩
  unfold DirSurveiller.checked
  rw [hr, ok_bind, if_pos (h.queued line fields r hlen hok hr)]
  rfl

omit [DecidableEq ρ] in
/-- What the rounds deliver with a handler, they deliver with one above it. -/
theorem rounds_below (h : ∀ line fields, AtMost (handle line fields) (handle' line fields))
    (fieldSizes : List Nat) (recvs : List Recv) :
    AtMost (rounds mem handle fieldSizes recvs) (rounds mem handle' fieldSizes recvs) := by
  have hfinish : ∀ p i, AtMost (finishLine mem handle p i) (finishLine mem handle' p i) := by
    intro p i
    rw [finishLine_eq, finishLine_eq]
    exact (AtMost.refl _).bind fun p => (AtMost.refl _).bind fun p => (h _ _).bind fun r => .refl _
  have hbyte : ∀ p i, AtMost (scanByte mem handle p i) (scanByte mem handle' p i) := by
    intro p i
    refine (AtMost.refl _).bind fun c => .ite ?_ (.refl _)
    unfold scanNewline
    exact .ite ((hfinish p i).bind fun p => .refl _) (.refl _)
  have hscan : ∀ left i p, AtMost (scan mem handle left i p) (scan mem handle' left i p) := by
    intro left
    induction left with
    | zero => exact fun i p => .refl _
    | succ left ih => exact fun i p => (hbyte p i).bind fun q => .ite (.refl _) (.ite (.refl _) (ih _ q))
  have hconsume : ∀ p buf rlen,
      AtMost (consume mem handle p buf rlen) (consume mem handle' p buf rlen) :=
    fun p buf rlen => (AtMost.refl _).bind fun _ => .ite (.refl _) ((hscan _ _ _).bind fun _ => .refl _)
  refine AtMost.foldlM (fun p r => ?_) recvs _
  unfold receive
  refine .ite (.refl _) ?_
  cases r with
  | leave => exact .refl _
  | closed => exact .refl _
  | failed => exact hconsume p _ _
  | chunk bytes => exact hconsume p _ _

/-- With such a handler, what is queued is what the lines stand for. -/
theorem rounds_queued {fieldSizes : List Nat} {recvs : List Recv} {p : Parser ρ}
    (h : rounds mem (DirSurveiller.checked handle parse) fieldSizes recvs = .ok p) :
    p.queued = delivered parse p.inits := by
  -- the invariant is passed on by every index of every scan
  have hbyte : ∀ {i : Nat} {p q : Parser ρ}, p.queued = delivered parse p.inits →
      scanByte mem (DirSurveiller.checked handle parse) p i = .ok q →
      q.queued = delivered parse q.inits := by
    intro i p q hp hstep
    cases scanByte_logs hstep with
    | nothing hinits hqueued => rw [hqueued, hinits, hp]
    | line fields r hr hinits hqueued =>
        rw [hqueued, hinits, delivered_concat, hp, (checked_ok hr).2]
  have hscan : ∀ {left i : Nat} {p q : Parser ρ}, p.queued = delivered parse p.inits →
      scan mem (DirSurveiller.checked handle parse) left i p = .ok q →
      q.queued = delivered parse q.inits := by
    intro left
    induction left with
    | zero =>
        intro i p q hp hrun
        obtain rfl := Except.ok.inj hrun
        exact hp
    | succ left ih =>
        intro i p q hp hrun
        rw [scan] at hrun
        obtain ⟨p1, h1, hrun⟩ := bind_ok hrun
        have hp1 := hbyte hp h1
        by_cases hexit : p1.exited = true
        · rw [if_pos hexit] at hrun
          obtain rfl := Except.ok.inj hrun
          exact hp1
        · rw [if_neg hexit] at hrun
          by_cases hmax : i = INT_MAX
          · rw [if_pos hmax] at hrun
            cases hrun
          · rw [if_neg hmax] at hrun
            exact ih hp1 hrun
  have hconsume : ∀ {p q : Parser ρ} {buf : Bytes} {rlen : Nat},
      p.queued = delivered parse p.inits →
      consume mem (DirSurveiller.checked handle parse) p buf rlen = .ok q →
      q.queued = delivered parse q.inits := by
    intro p q buf rlen hp hrun
    unfold consume at hrun
    obtain ⟨⟨ret, sbuf⟩, -, hrun⟩ := bind_ok hrun
    by_cases hret : ret ≠ 0
    · replace hrun := (if_pos hret).symm.trans hrun
      obtain rfl := Except.ok.inj hrun
      exact hp
    · replace hrun := (if_neg hret).symm.trans hrun
      obtain ⟨p1, h1, hrun⟩ := bind_ok hrun
      have hp1 := hscan (p := { p with sbuf := sbuf }) hp h1
      by_cases hexit : p1.exited = true
      · rw [if_pos hexit] at hrun
        obtain rfl := Except.ok.inj hrun
        exact hp1
      · rw [if_neg hexit] at hrun
        obtain ⟨sbuf', -, hrun⟩ := bind_ok hrun
        obtain rfl := Except.ok.inj hrun
        exact hp1
  refine run_induction (P := fun _ p => p.queued = delivered parse p.inits) rfl ?_ h
  intro is r m q _ hm hstep
  unfold receive at hstep
  by_cases hexit : m.exited = true
  · rw [if_pos hexit] at hstep
    obtain rfl := Except.ok.inj hstep
    exact hm
  · rw [if_neg hexit] at hstep
    cases r with
    | leave | closed =>
        obtain rfl := Except.ok.inj hstep
        exact hm
    | failed => exact hconsume hm hstep
    | chunk bytes => exact hconsume hm hstep

end Checked

/-! ## §4. Streams of the tracer. -/

/-- A stream of lines of five fields, the last line perhaps not complete: free of NUL, and its fields
short enough for the `int` index of the scan. -/
structure TracerBytes (stream : Bytes) : Prop where
  nonul : (0 : UInt8) ∉ stream
  lines : AlongBytes FourTabs (lineStart []) stream
  short : ∀ pre, pre <+: stream → (heldBytes pre).length + 256 < INT_MAX

/-- The complete lines of a stream. -/
def completeLines (stream : Bytes) : List (List Bytes) := (feedBytes (lineStart []) stream).out

theorem TracerBytes.beginning {stream pre : Bytes} (h : TracerBytes stream) (hpre : pre <+: stream) :
    TracerBytes pre := by
  obtain ⟨post, rfl⟩ := hpre
  refine ⟨fun hm => h.nonul (List.mem_append_left _ hm), (along_append.mp h.lines).1, ?_⟩
  exact fun pre' hpre' => h.short pre' (hpre'.trans (List.prefix_append _ _))

theorem TracerBytes.fits {chunks : List Bytes} (h : TracerBytes chunks.flatten)
    (hsize : ∀ c ∈ chunks, c.length ≤ 256) : FitsInt chunks := by
  rintro pre chunk post rfl
  have hheld := h.short pre.flatten (by rw [List.flatten_append]; exact List.prefix_append _ _)
  have hchunk := hsize chunk (by simp)
  omega

/-- What is held of lines with short fields is short. -/
theorem heldBytes_short {records : List (List Bytes)}
    (hshort : ∀ r ∈ records, ∀ f ∈ r, f.length + 256 < INT_MAX)
    {pre : Bytes} (hpre : pre <+: wire records) :
    (heldBytes pre).length + 256 < INT_MAX := by
  by_cases hne : heldBytes pre = []
  · rw [hne]
    decide
  · have hplain : ∀ b ∈ heldBytes pre, PlainByte b := fun b hb => by
      simpa using List.mem_rtakeWhile_imp hb
    obtain ⟨r, hr, f, hf, hpiece⟩ := infix_encode hplain hne
      ((List.rtakeWhile_suffix _ pre).isInfix.trans hpre.isInfix)
    have hheld := hpiece.length_le
    have hfield := hshort r hr f hf
    omega

/-- The lines of a record list are such a stream if its fields are short. -/
theorem wire_tracerBytes {records : List (List Bytes)} (hrec : ∀ r ∈ records, TracerRecord r)
    (hshort : ∀ r ∈ records, ∀ f ∈ r, f.length + 256 < INT_MAX) : TracerBytes (wire records) :=
  ⟨wire_nonul hrec, along_encode tab_ne_newline (by decide) (fun r hr =>
    ⟨(hrec r hr).length, fun f hf b hb => ((hrec r hr).clean f hf b hb).2⟩) [],
    fun _ hpre => heldBytes_short hshort hpre⟩

/-- The complete lines of such a stream have five fields, each of them a text. -/
theorem TracerBytes.texts {stream : Bytes} (h : TracerBytes stream) :
    ∀ line ∈ completeLines stream, line.length = fieldNum ∧ ∀ f ∈ line, Text f := by
  -- the fields of the line in progress are texts as well
  suffices hall : (∀ line ∈ completeLines stream, line.length = fieldNum ∧ ∀ f ∈ line, Text f)
      ∧ ∀ f ∈ (feedBytes (lineStart []) stream).fields, Text f from hall.1
  induction stream using List.reverseRecOn with
  | nil =>
      constructor
      · intro line hline
        cases hline
      · intro f hf
        cases hf
  | append_singleton stream b ih =>
      obtain ⟨hout, hfields⟩ := ih (h.beginning (List.prefix_append _ _))
      have hheld : (feedBytes (lineStart []) stream).cur = heldBytes stream :=
        feedAll_cur (lineStart []) (by simp [lineStart]) stream
      have hcur : Text (feedBytes (lineStart []) stream).cur := by
        rw [hheld]
        refine ⟨fun hm => h.nonul (List.mem_append_left _ ((List.rtakeWhile_suffix _ _).subset hm)), ?_⟩
        have := h.short stream (List.prefix_append _ _)
        omega
      have hnext : ∀ f ∈ (feedBytes (lineStart []) stream).fields
          ++ [(feedBytes (lineStart []) stream).cur], Text f := by
        intro f hf
        rcases List.mem_append.mp hf with hf | hf
        · exact hfields f hf
        · rw [List.mem_singleton.mp hf]
          exact hcur
      have hstep : feedBytes (lineStart []) (stream ++ [b])
          = feed TAB NEWLINE fieldNum (feedBytes (lineStart []) stream) b := by
        unfold feedBytes feedAll
        rw [List.foldl_append]
        rfl
      unfold completeLines at hout ⊢
      rw [hstep]
      unfold feed
      by_cases hline : b = NEWLINE
      · rw [if_pos hline]
        refine ⟨fun line hmem => ?_, fun f hf => by cases hf⟩
        by_cases hlen : (feedBytes (lineStart []) stream).fields.length + 1 = fieldNum
        · rw [if_pos hlen] at hmem
          rcases List.mem_append.mp hmem with hmem | hmem
          · exact hout line hmem
          · rw [List.mem_singleton.mp hmem, List.length_append]
            exact ⟨hlen, hnext⟩
        · rw [if_neg hlen] at hmem
          exact hout line hmem
      · rw [if_neg hline]
        split
        · exact ⟨hout, hnext⟩
        · exact ⟨hout, hfields⟩

theorem execOfLine_event {line : List Bytes} {c : ExecCall} (hline : ∀ f ∈ line, Text f)
    (h : execOfLine line = some c) : ∃ e : ExecEvent, c = e.call := by
  unfold execOfLine at h
  split at h
  · rename_i oTime cmd pid ppid args
    obtain ⟨timeStamp, -, rfl⟩ := Option.map_eq_some_iff.mp h
    exact ⟨⟨atoi pid, atoi ppid, timeStamp, cmd, args, hline cmd (by simp), hline args (by simp)⟩, rfl⟩
  · cases h

theorem openOfLine_event {stat : Bytes → Option Nat} {filter : Bytes → Bool} {line : List Bytes}
    {c : OpenCall} (hline : ∀ f ∈ line, Text f) (h : openOfLine stat filter line = some c) :
    ∃ o : OpenEvent, c = o.call := by
  unfold openOfLine at h
  split at h
  · rename_i oTime cmd pid rval path
    split at h
    · obtain ⟨timeStamp, -, rfl⟩ := Option.map_eq_some_iff.mp h
      exact ⟨⟨_, hline cmd (by simp), hline path (by simp)⟩, rfl⟩
    · cases h
  · cases h

theorem delivered_mono {ρ : Type} (parse : Nat → List Bytes → Option ρ)
    {lines lines' : List (List Bytes)}
    (h : lines <+: lines') : delivered parse lines <+: delivered parse lines' := by
  obtain ⟨more, rfl⟩ := h
  unfold delivered
  rw [List.zipIdx_append, List.filterMap_append]
  exact List.prefix_append _ _

theorem completeLines_mono {stream stream' : Bytes} (h : stream <+: stream') :
    completeLines stream <+: completeLines stream' := by
  obtain ⟨more, rfl⟩ := h
  unfold completeLines feedBytes
  rw [feedAll_append]
  exact feedAll_out _ _

theorem mem_delivered {ρ : Type} {parse : Nat → List Bytes → Option ρ} {lines : List (List Bytes)}
    {c : ρ} (h : c ∈ delivered parse lines) : ∃ i, ∃ line ∈ lines, parse i line = some c := by
  obtain ⟨⟨line, i⟩, hmem, hc⟩ := List.mem_filterMap.mp h
  exact ⟨i, line, (List.mem_zipIdx' hmem).2 ▸ List.getElem_mem _, hc⟩

section Deliver

variable {ρ : Type} [DecidableEq ρ] {mem : ParserMem} {handle : Handler ρ}
  {parse : Nat → List Bytes → Option ρ}

/-- **The rounds over such a stream** queue the objects of its complete lines, in order, however it
is cut. -/
theorem rounds_deliver (hmem : mem.Total) (hh : Delivers handle parse)
    (hfills : mem.sbuf.Fills PlainByte) {sizes : List Nat} (hsizes : FieldSizes sizes)
    {chunks : List Bytes} (hsize : ∀ c ∈ chunks, c.length ≤ 256)
    (hstream : TracerBytes chunks.flatten) :
    ∃ p, rounds mem handle sizes (chunks.map .chunk) = .ok p ∧ p.exited = false
      ∧ p.inits = completeLines chunks.flatten
      ∧ p.queued = delivered parse (completeLines chunks.flatten) := by
  obtain ⟨hsim, hplain⟩ := init_sim (ρ := ρ) hsizes
  obtain ⟨p, hrun, hsim'⟩ := (receiveAll_full hmem hh.checked hfills chunks _ _ hsim hplain hsize
    hstream.nonul hstream.lines).1 ((fitsFrom_lineStart chunks).mpr (hstream.fits hsize))
  have hqueued := rounds_queued hrun
  have hbelow : AtMost (rounds mem (DirSurveiller.checked handle parse) sizes (chunks.map .chunk))
      (rounds mem handle sizes (chunks.map .chunk)) :=
    rounds_below (fun line fields r hr => (checked_ok hr).1) sizes (chunks.map .chunk)
  refine ⟨p, hbelow p hrun, hsim'.running, hsim'.inits, ?_⟩
  rw [hqueued, hsim'.inits]
  rfl

end Deliver

/-! ## §5. A thread on its socket. -/

/-- What has been received. -/
def receivedBytes (recvs : List Recv) : Bytes := (recvs.map Recv.bytes).flatten

/-- The loop head has seen chunks, and behind the loop perhaps what ended it. -/
def Thread.SeenChunks {ρ : Type} (t : Thread ρ) : Prop :=
  ∃ (chunks : List Bytes) (fin : List Recv), t.recvs = chunks.map Recv.chunk ++ fin
    ∧ (∀ c ∈ chunks, c.length ≤ 256)
    ∧ (fin = [] ∨ (t.pc = .cleanup ∨ t.pc = .exited) ∧ (fin = [.leave] ∨ fin = [.closed]))

/-- A thread and the socket it reads: what has been sent is what has been received and what is still to
be received, in this order. -/
structure Connected {ρ : Type} (mem : ParserMem) (handle : Bool → Handler ρ) (sizes : List Nat)
    (t : Thread ρ) (socket : Socket) : Prop where
  follows : Follows mem (handle true) sizes t
  chunks : t.SeenChunks
  conserved : receivedBytes t.recvs ++ socket.pending = socket.sent

/-- A step in which no call of `recv` fails. -/
def SysAnswer.Fair {ρ : Type} (sys : SysAnswer) (t : Thread ρ) : Prop :=
  t.pc = .recv → sys.fails = false

section Connected

variable {ρ : Type} {mem : ParserMem} {handle : Bool → Handler ρ} {sizes : List Nat}
  {t t' : Thread ρ} {socket : Socket} {view : View} {sys : SysAnswer} {effect : Effect ρ}

theorem receivedBytes_concat (recvs : List Recv) (r : Recv) :
    receivedBytes (recvs ++ [r]) = receivedBytes recvs ++ r.bytes := by
  unfold receivedBytes
  rw [List.map_append, List.flatten_append, List.map_singleton, List.flatten_singleton]

theorem receivedBytes_chunks (chunks : List Bytes) {fin : List Recv}
    (hfin : fin = [] ∨ fin = [.leave] ∨ fin = [.closed]) :
    receivedBytes (chunks.map Recv.chunk ++ fin) = chunks.flatten := by
  have hchunks : (chunks.map Recv.chunk).map Recv.bytes = chunks := by
    rw [List.map_map]
    exact List.map_id chunks
  unfold receivedBytes
  rw [List.map_append, List.flatten_append, hchunks]
  rcases hfin with rfl | rfl | rfl <;> exact List.append_nil _

theorem Connected.initial : Connected mem handle sizes (Thread.initial sizes) .fresh :=
  ⟨Thread.initial_follows, ⟨[], [], rfl, by simp, .inl rfl⟩, rfl⟩

/-- The other end writes. -/
theorem Connected.send (h : Connected mem handle sizes t socket) (bytes : Bytes) :
    Connected mem handle sizes t (socket.send bytes) := by
  refine ⟨h.follows, h.chunks, ?_⟩
  unfold Socket.send
  split
  · exact h.conserved
  · show receivedBytes t.recvs ++ (socket.pending ++ bytes) = socket.sent ++ bytes
    rw [← List.append_assoc, h.conserved]

theorem Connected.close (h : Connected mem handle sizes t socket) :
    Connected mem handle sizes t socket.close :=
  ⟨h.follows, h.chunks, h.conserved⟩

/-- In front of the end of the loop there are only chunks. -/
theorem Thread.SeenChunks.inside (h : t.SeenChunks) (hpc : t.pc ≠ .cleanup) (hpc' : t.pc ≠ .exited) :
    ∃ chunks : List Bytes, t.recvs = chunks.map Recv.chunk ∧ ∀ c ∈ chunks, c.length ≤ 256 := by
  obtain ⟨chunks, fin, hrecvs, hsize, hfin⟩ := h
  rcases hfin with rfl | ⟨hend | hend, -⟩
  · exact ⟨chunks, by rw [hrecvs, List.append_nil], hsize⟩
  · exact absurd hend hpc
  · exact absurd hend hpc'

theorem ThreadPc.stage_exited {pc : ThreadPc} (h : pc.stage = 2) : pc = .exited := by
  cases pc with
  | exited => rfl
  | start | connect | head | select | recv | cleanup => exact absurd h (by decide)
  | scan i => cases h

theorem Thread.SeenChunks.step (h : t.SeenChunks) (hacts : Acts view sys t t' effect)
    (hfair : sys.Fair t) : t'.SeenChunks := by
  have hkeep : t'.recvs = t.recvs → (t.pc = .cleanup ∨ t.pc = .exited → t'.pc = .exited) →
      t'.SeenChunks := by
    intro hrecvs hend
    obtain ⟨chunks, fin, hall, hsize, hfin⟩ := h
    exact ⟨chunks, fin, hrecvs.trans hall, hsize, hfin.imp id fun hf => ⟨.inr (hend hf.1), hf.2⟩⟩
  cases hacts with
  | quiet hpc hstage hrecvs =>
      refine hkeep hrecvs fun hend => ThreadPc.stage_exited ?_
      rcases hend with hend | hend
      · exact absurd hend hpc
      · rw [hstage, hend]
        rfl
  | leaves r hr hpc hpc' hrecvs =>
      obtain ⟨chunks, hall, hsize⟩ := h.inside
        (by rcases hpc with hpc | hpc | hpc <;> rw [hpc] <;> decide)
        (by rcases hpc with hpc | hpc | hpc <;> rw [hpc] <;> decide)
      refine ⟨chunks, [r], by rw [hrecvs, hall], hsize, .inr ⟨.inl hpc', ?_⟩⟩
      rcases hr with rfl | rfl
      · exact .inl rfl
      · exact .inr rfl
  | failed hpc hfails => exact absurd ((hfair hpc).symm.trans hfails) (by decide)
  | takes bytes hpc hstage hlen hpre hrecvs =>
      obtain ⟨chunks, hall, hsize⟩ := h.inside (by rw [hpc]; decide) (by rw [hpc]; decide)
      refine ⟨chunks ++ [bytes], [], ?_, ?_, .inl rfl⟩
      · rw [hrecvs, hall, List.map_append, List.append_nil]
        rfl
      · intro c hc
        rcases List.mem_append.mp hc with hc | hc
        · exact hsize c hc
        · rw [List.mem_singleton.mp hc]
          exact hlen
  | started hpc hpc' hrecvs =>
      refine hkeep hrecvs fun hend => ?_
      rw [hpc] at hend
      exact absurd hend (by decide)
  | stopped hpc hpc' hrecvs => exact hkeep hrecvs fun _ => hpc'
  | writes objects i hpc hpc' hrecvs =>
      refine hkeep hrecvs fun hend => ?_
      rw [hpc] at hend
      rcases hend with hend | hend <;> cases hend

/-- **A step of a thread on its socket.** -/
theorem Connected.step (hroom : RoomHandler handle) (h : Connected mem handle sizes t socket)
    (hview : view.socket = socket) (hfair : sys.Fair t)
    (hstep : threadStep mem handle view sys t = .ok (t', effect)) :
    Connected mem handle sizes t' (socket.take effect.taken)
      ∧ t'.parser.queued = t.parser.queued ++ effect.written := by
  obtain ⟨hfollows, hqueued⟩ := threadStep_follows hroom h.follows hstep
  have hacts := threadStep_acts hroom hstep
  refine ⟨⟨hfollows, h.chunks.step hacts hfair, ?_⟩, hqueued⟩
  have hsame : t'.recvs = t.recvs → effect.taken = 0 →
      receivedBytes t'.recvs ++ (socket.take effect.taken).pending = socket.sent := by
    intro hrecvs htaken
    rw [hrecvs, htaken]
    exact h.conserved
  show receivedBytes t'.recvs ++ (socket.take effect.taken).pending = socket.sent
  cases hacts with
  | quiet _ _ hrecvs => exact hsame hrecvs rfl
  | leaves r hr _ _ hrecvs =>
      rw [hrecvs, receivedBytes_concat]
      rcases hr with rfl | rfl
      · rw [show Recv.leave.bytes = [] from rfl, List.append_nil]
        exact h.conserved
      · rw [show Recv.closed.bytes = [] from rfl, List.append_nil]
        exact h.conserved
  | failed hpc hfails => exact absurd ((hfair hpc).symm.trans hfails) (by decide)
  | takes bytes _ _ _ hpre hrecvs =>
      rw [hview] at hpre
      obtain ⟨rest, hrest⟩ := hpre
      rw [hrecvs, receivedBytes_concat, List.append_assoc, ← h.conserved]
      congr 1
      show bytes ++ socket.pending.drop bytes.length = socket.pending
      rw [← hrest, List.drop_left]
  | started _ _ hrecvs | stopped _ _ hrecvs => exact hsame hrecvs rfl
  | writes _ _ _ _ hrecvs => exact hsame hrecvs rfl

theorem Thread.append_steps {r : Recv} {buf : Bytes} {rlen ret : Nat} {sbuf : StringBuffer}
    (h : sbAppendl mem.sbuf t.parser.sbuf buf rlen = .ok (ret, sbuf)) :
    ∃ t', t.append mem r buf rlen = .ok t' := by
  unfold Thread.append
  rw [h, ok_bind]
  dsimp only
  split <;> exact ⟨_, rfl⟩

/-- As long as the rest of the round comes to an end, so does each index. -/
theorem Thread.scan_steps (hroom : RoomHandler handle) {i : Nat} {q : Parser ρ}
    (hrun : t.parser.exited = false) (h : restOfRound mem (handle true) i t.parser = .ok q) :
    ∃ t' effect, t.scan mem handle view i = .ok (t', effect) := by
  unfold Thread.scan
  by_cases hin : i ≤ t.parser.sbuf.endPos
  · rw [if_pos hin]
    unfold restOfRound at h
    rw [show t.parser.sbuf.endPos + 1 - i = (t.parser.sbuf.endPos - i) + 1 by omega,
      DirSurveiller.scan] at h
    obtain ⟨p2, h2, -⟩ := bind_ok h
    obtain ⟨p1, h1, h2⟩ := bind_ok h2
    rw [if_neg (by rw [scanByte_room hroom hrun h1]; decide)] at h2
    have hmax : i ≠ INT_MAX := by
      intro hmax
      rw [if_pos hmax] at h2
      cases h2
    obtain ⟨p, hp⟩ : ∃ p, scanByte mem (handle view.room) t.parser i = .ok p := by
      cases view.room with
      | true => exact ⟨p1, h1⟩
      | false =>
          rcases scanByte_full hroom mem t.parser i with heq | ⟨p, hp, -⟩
          · exact ⟨p1, heq.trans h1⟩
          · exact ⟨p, hp⟩
    rw [hp, ok_bind, if_neg hmax]
    split
    · split <;> exact ⟨_, _, rfl⟩
    · exact ⟨_, _, rfl⟩
  · rw [if_neg hin]
    rw [restOfRound_end (Nat.lt_of_not_le hin) hrun] at h
    obtain ⟨sbuf, hsbuf, -⟩ := bind_ok h
    rw [hsbuf]
    exact ⟨_, _, rfl⟩

section Written

variable [DecidableEq ρ] {parse : Nat → List Bytes → Option ρ}

/-- **What a thread has written** are the objects of the complete lines it has received, the first ones
of them while it scans; between two rounds all of them. -/
theorem Connected.written (hmem : mem.Total) (hh : Delivers (handle true) parse)
    (hfills : mem.sbuf.Fills PlainByte) (hsizes : FieldSizes sizes)
    (h : Connected mem handle sizes t socket) (hstream : TracerBytes (receivedBytes t.recvs)) :
    t.parser.queued <+: delivered parse (completeLines (receivedBytes t.recvs))
      ∧ (t.pc = .head ∨ t.pc = .select ∨ t.pc = .recv →
        t.parser.queued = delivered parse (completeLines (receivedBytes t.recvs))) := by
  obtain ⟨chunks, fin, hrecvs, hsize, hfin⟩ := h.chunks
  have hend : fin = [] ∨ fin = [.leave] ∨ fin = [.closed] := hfin.imp id And.right
  have hbytes : receivedBytes t.recvs = chunks.flatten := by
    rw [hrecvs]
    exact receivedBytes_chunks chunks hend
  rw [hbytes] at hstream ⊢
  obtain ⟨p, hp, hexit, -, hqueued⟩ := rounds_deliver hmem hh hfills hsizes hsize hstream
  -- what ends the loop writes nothing more
  obtain ⟨q, hq, hqq⟩ : ∃ q, rounds mem (handle true) sizes t.recvs = .ok q ∧ q.queued = p.queued := by
    rcases hend with rfl | rfl | rfl
    · exact ⟨p, by rw [hrecvs, List.append_nil]; exact hp, rfl⟩
    · refine ⟨{ p with exited := true }, ?_, rfl⟩
      rw [hrecvs, rounds_concat hp, receive_running mem _ hexit]
      rfl
    · refine ⟨{ p with exited := true }, ?_, rfl⟩
      rw [hrecvs, rounds_concat hp, receive_running mem _ hexit]
      rfl
  rw [← hqueued, ← hqq]
  refine ⟨h.follows.grows hq, fun hpc => ?_⟩
  cases h.follows with
  | between _ _ hrounds => rw [Except.ok.inj (hrounds.symm.trans hq)]
  | outside hpc' => rcases hpc' with hpc' | hpc' <;> rw [hpc'] at hpc <;> exact absurd hpc (by decide)
  | within i hpc' =>
      rw [hpc'] at hpc
      rcases hpc with hpc | hpc | hpc <;> cases hpc
  | behind hpc' | gaveUp i p hpc' =>
      rcases hpc' with hpc' | hpc' <;> rw [hpc'] at hpc <;> exact absurd hpc (by decide)

/-- The rounds up to now have come to an end, and so will the next ones. -/
theorem Connected.rounds_ok (hmem : mem.Total) (hh : Delivers (handle true) parse)
    (hfills : mem.sbuf.Fills PlainByte) (hsizes : FieldSizes sizes) {chunks : List Bytes}
    (hsize : ∀ c ∈ chunks, c.length ≤ 256) (hstream : TracerBytes chunks.flatten) :
    ∃ q, rounds mem (handle true) sizes (chunks.map Recv.chunk) = .ok q ∧ q.exited = false := by
  obtain ⟨q, hq, hexit, -⟩ := rounds_deliver hmem hh hfills hsizes hsize hstream
  exact ⟨q, hq, hexit⟩

/-- **A thread does not fault** on such a stream. -/
theorem Connected.steps (view : View) (hroom : RoomHandler handle) (hmem : mem.Total)
    (hh : Delivers (handle true) parse) (hfills : mem.sbuf.Fills PlainByte) (hsizes : FieldSizes sizes)
    (h : Connected mem handle sizes t socket) (hstream : TracerBytes socket.sent)
    (hview : view.socket = socket) (hfair : sys.Fair t) :
    ∃ t' effect, threadStep mem handle view sys t = .ok (t', effect) := by
  unfold threadStep
  cases hpc : t.pc with
  | start | connect | head | select | cleanup | exited => exact ⟨_, _, rfl⟩
  | recv =>
      show ∃ t' effect, t.recv mem view sys = .ok (t', effect)
      unfold Thread.recv
      rw [if_neg (by rw [hfair hpc]; decide), hview]
      by_cases hempty : socket.pending = []
      · rw [if_pos hempty]
        exact ⟨_, _, rfl⟩
      · rw [if_neg hempty]
        obtain ⟨chunks, hrecvs, hsize⟩ := h.chunks.inside (by rw [hpc]; decide) (by rw [hpc]; decide)
        have hbytes : receivedBytes t.recvs = chunks.flatten := by
          have := receivedBytes_chunks chunks (.inl rfl)
          rwa [List.append_nil, ← hrecvs] at this
        -- with this chunk too it is the beginning of the stream
        have hlen : (sys.chunk socket.pending).length ≤ 256 := by
          unfold SysAnswer.chunk
          rw [List.length_take]
          omega
        obtain ⟨rest, hrest⟩ : sys.chunk socket.pending <+: socket.pending := List.take_prefix _ _
        have hpre : (chunks ++ [sys.chunk socket.pending]).flatten <+: socket.sent := by
          refine ⟨rest, ?_⟩
          rw [List.flatten_append, List.flatten_singleton, List.append_assoc, hrest, ← hbytes]
          exact h.conserved
        have hsizes' : ∀ c ∈ chunks ++ [sys.chunk socket.pending], c.length ≤ 256 := by
          intro c hc
          rcases List.mem_append.mp hc with hc | hc
          · exact hsize c hc
          · rw [List.mem_singleton.mp hc]
            exact hlen
        obtain ⟨q, hq, -⟩ := Connected.rounds_ok hmem hh hfills hsizes hsizes' (hstream.beginning hpre)
        obtain ⟨p, hp, hexit⟩ := Connected.rounds_ok hmem hh hfills hsizes hsize
          (hstream.beginning (List.IsPrefix.trans (by
            rw [List.flatten_append]
            exact List.prefix_append _ _) hpre))
        rw [List.map_append, List.map_singleton, rounds_concat hp, receive_running mem _ hexit] at hq
        have hparser : t.parser = p := by
          cases h.follows with
          | between _ _ hrounds =>
              rw [hrecvs] at hrounds
              exact Except.ok.inj (hrounds.symm.trans hp)
          | outside hpc' => rcases hpc' with hpc' | hpc' <;> rw [hpc'] at hpc <;> cases hpc
          | within i hpc' => rw [hpc'] at hpc; cases hpc
          | behind hpc' | gaveUp i p hpc' => rcases hpc' with hpc' | hpc' <;> rw [hpc'] at hpc
              <;> cases hpc
        obtain ⟨⟨ret, sbuf⟩, happend, -⟩ := bind_ok hq
        rw [← hparser] at happend
        obtain ⟨t1, ht1⟩ := Thread.append_steps (r := .chunk (sys.chunk socket.pending)) happend
        exact ⟨t1, .take (sys.chunk socket.pending).length, by simp only [ht1]; rfl⟩
  | scan i =>
      show ∃ t' effect, t.scan mem handle view i = .ok (t', effect)
      obtain ⟨chunks, hrecvs, hsize⟩ := h.chunks.inside (by rw [hpc]; simp) (by rw [hpc]; simp)
      have hbytes : receivedBytes t.recvs = chunks.flatten := by
        have := receivedBytes_chunks chunks (.inl rfl)
        rwa [List.append_nil, ← hrecvs] at this
      obtain ⟨q, hq, -⟩ := Connected.rounds_ok hmem hh hfills hsizes hsize
        (hstream.beginning (by rw [← hbytes, ← h.conserved]; exact List.prefix_append _ _))
      rw [← hrecvs] at hq
      cases h.follows with
      | outside hpc' => rcases hpc' with hpc' | hpc' <;> rw [hpc'] at hpc <;> cases hpc
      | between hpc' => rcases hpc' with hpc' | hpc' | hpc' <;> rw [hpc'] at hpc <;> cases hpc
      | behind hpc' | gaveUp i p hpc' => rcases hpc' with hpc' | hpc' <;> rw [hpc'] at hpc <;> cases hpc
      | within j hpc' hle hrun hrounds =>
          rw [hpc] at hpc'
          cases hpc'
          rw [hrounds] at hq
          exact Thread.scan_steps hroom hrun hq

end Written

end Connected

end DirSurveiller
