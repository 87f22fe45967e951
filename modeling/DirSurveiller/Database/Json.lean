/-
  DirSurveiller.Database.Json — records as JSON text, and the answer of `get_from_database`.

  The text is put together from string literals by `sb_append`; most returned values are dropped.
  Two views of an append: with room for everything, the buffer's content grows by the string
  (`Adds`); whatever the lengths, what is written stands behind the content the buffer had, also
  when `end_pos` wraps (`Runs`).

  Main result:
    * `query_json_iff` — for which lists of records the answer is JSON.
-/
import DirSurveiller.Containers.Capacity
import DirSurveiller.Lib.Json
import DirSurveiller.Lib.Strtok
import DirSurveiller.Database.Store

namespace DirSurveiller

open CMachine Outcome Decimal

/-! ## §1. The code. -/

/-- `snprintf` into an array of `size` bytes: what the array holds as a string. -/
def snprintf (size : Nat) (text : Bytes) : Bytes := text.take (size - 1)

/-- `sb_append` of a literal or of an array that holds this string. -/
def appendText (mem : Allocator) (this : StringBuffer) (s : Bytes) :
    Except Fault (Nat × StringBuffer) :=
  sbAppend mem this (s ++ [0])

/-- `sb_append` of a `char*` -/
def appendPointer (mem : Allocator) (this : StringBuffer) (s : Option Bytes) :
    Except Fault (Nat × StringBuffer) := do
  sbAppend mem this (← pointee s)

/-- `%li.%li` of a `timeval` -/
def stampText (t : Timeval) : Bytes :=
  intText t.tvSec.toInt ++ ascii "." ++ intText t.tvUsec.toInt

/-- What `db_execCall_to_jsonstringb` formats. -/
def execNumbers (eCall : ECallRecord) : Bytes :=
  ascii "\"time_stamp\": " ++ stampText eCall.timeStamp ++ ascii ", \"pid\": "
    ++ intText eCall.pid.toInt ++ ascii ", \"ppid\": " ++ intText eCall.ppid.toInt

/-- `db_execCall_to_jsonstringb`: the answers but the last are overwritten. -/
def dbExecCallToJsonstringb (mem : Allocator) (jsonBuffer : StringBuffer) (eCall : ECallRecord) :
    Except Fault (Nat × StringBuffer) := do
  let (_, jsonBuffer) ← appendText mem jsonBuffer (ascii "\x7b")
  let (_, jsonBuffer) ← appendText mem jsonBuffer (snprintf 300 (execNumbers eCall))
  let (_, jsonBuffer) ← appendText mem jsonBuffer (ascii ", \"cmd\": \"")
  let (_, jsonBuffer) ← appendPointer mem jsonBuffer eCall.cmdName
  let (_, jsonBuffer) ← appendText mem jsonBuffer (ascii "\"")
  let (_, jsonBuffer) ← appendText mem jsonBuffer (ascii ", \"args\": \"")
  let (_, jsonBuffer) ← appendPointer mem jsonBuffer eCall.args
  let (_, jsonBuffer) ← appendText mem jsonBuffer (ascii "\"")
  appendText mem jsonBuffer (ascii "\x7d")

/-- What `db_openCall_to_jsonstringb` formats. -/
def openNumbers (oCall : OCallRecord) : Bytes :=
  ascii "\"time_stamp\": " ++ stampText oCall.timeStamp ++ ascii ", \"flag\": "
    ++ intText oCall.flag.toInt

/-- `db_openCall_to_jsonstringb` -/
def dbOpenCallToJsonstringb (mem : Allocator) (jsonBuffer : StringBuffer) (oCall : OCallRecord) :
    Except Fault (Nat × StringBuffer) := do
  let (_, jsonBuffer) ← appendText mem jsonBuffer (ascii "\x7b")
  let (_, jsonBuffer) ← appendText mem jsonBuffer (snprintf 300 (openNumbers oCall))
  let (_, jsonBuffer) ← appendText mem jsonBuffer (ascii ", \"filepath\": \"")
  let (_, jsonBuffer) ← appendPointer mem jsonBuffer oCall.filepath
  let (_, jsonBuffer) ← appendText mem jsonBuffer (ascii "\"")
  appendText mem jsonBuffer (ascii "\x7d")

/-- The loop over `execCalls` of `db_full_Record_jsonsb`, and the bracket behind it; a failure
leaves the function with the `ret` it had, which is 0. -/
def jsonsbExecCalls (mem : Allocator) :
    List ECallRecord → StringBuffer → Except Fault (Nat × StringBuffer)
  | [], sb => do
      let (_, sb) ← appendText mem sb (ascii "]\x7d\n")
      return (0, sb)
  | eCall :: execCalls, sb => do
      let (failed, sb) ← dbExecCallToJsonstringb mem sb eCall
      if failed ≠ 0 then return (0, sb)
      else
        let (failed, sb) ← appendText mem sb (ascii ", ")
        if failed ≠ 0 then return (0, sb) else jsonsbExecCalls mem execCalls sb

/-- `db_full_Record_jsonsb` -/
def dbFullRecordJsonsb (mem : Allocator) (this : DbFullRecord) (sb : StringBuffer) :
    Except Fault (Nat × StringBuffer) := do
  let (ret, sb) ← appendText mem sb (ascii "\x7b \"openCall\"=")
  if ret ≠ 0 then return (ret, sb)
  else
    let (ret, sb) ← dbOpenCallToJsonstringb mem sb this.openCall
    if ret ≠ 0 then return (ret, sb)
    else
      let (ret, sb) ← appendText mem sb (ascii "\n\"execCalls\"=[")
      if ret ≠ 0 then return (ret, sb) else jsonsbExecCalls mem this.execCalls sb

/-- The body of the loop over the records of `get_from_database`. -/
def queryRecord (mem : Allocator) (sb : StringBuffer) (record : DbFullRecord) :
    Except Fault StringBuffer := do
  let (_, sb) ← dbFullRecordJsonsb mem record sb
  let (_, sb) ← appendText mem sb (ascii ", ")
  return sb

/-- `get_from_database`, case `JSON`: the string it prints for these records. -/
def getFromDatabaseJson (mem : Allocator) (resultRecordv : List DbFullRecord) :
    Except Fault Bytes := do
  let (_, sb) ← appendText mem (sbInit 256) (ascii "[")
  let sb ← resultRecordv.foldlM (queryRecord mem) sb
  let (_, sb) ← appendText mem sb (ascii "]\n")
  cstring sb.string

/-! ## §2. Appending with room. -/

/-- The buffer is a string, and `room` more bytes do not make `end_pos` wrap. -/
structure Appendable (this : StringBuffer) (room : Nat) : Prop where
  wf : this.Wf
  terminated : this.Terminated
  room : this.content.length + room < 2 ^ 32

/-- The call returned 0, the content has grown by `s`, and `room` is left. -/
def Adds (this : StringBuffer) (s : Bytes) (room : Nat)
    (r : Except Fault (Nat × StringBuffer)) : Prop :=
  ∃ this', r = .ok (0, this') ∧ this'.content = this.content ++ s ∧ Appendable this' room

section Adds

variable {mem : Allocator} {this : StringBuffer} {s t : Bytes} {k room : Nat}

/-- One append, and the rest of the program. -/
theorem Adds.bind {r : Except Fault (Nat × StringBuffer)}
    {f : Nat × StringBuffer → Except Fault (Nat × StringBuffer)} (h : Adds this s k r)
    (hf : ∀ this', Appendable this' k → Adds this' t room (f (0, this'))) :
    Adds this (s ++ t) room (r >>= f) := by
  obtain ⟨this', rfl, hcontent, hready⟩ := h
  obtain ⟨this'', hok, hcontent', hready'⟩ := hf this' hready
  exact ⟨this'', hok, by rw [hcontent', hcontent, List.append_assoc], hready'⟩

theorem adds_text (hmem : mem.Total) (h : Appendable this (s.length + room)) (hs : (0 : UInt8) ∉ s) :
    Adds this s room (appendText mem this s) := by
  have hroom := h.room
  have hlen := h.wf.content_length
  obtain ⟨this', hok, hwf, hterm, hcontent⟩ :=
    StringBuffer.append_spec hmem h.wf h.terminated.clean [] hs (by omega)
  refine ⟨this', hok, hcontent, hwf, hterm, ?_⟩
  rw [hcontent, List.length_append]
  omega

theorem adds_pointer (hmem : mem.Total) (h : Appendable this (s.length + room))
    (hs : (0 : UInt8) ∉ s) : Adds this s room (appendPointer mem this (some s)) :=
  adds_text hmem h hs

end Adds

/-! ## §3. The numbers. -/

section Numbers

theorem int64_natAbs (n : Int64) : n.toInt.natAbs < 10 ^ 19 := by
  have hlow := n.le_toInt
  have hhigh := n.toInt_lt
  omega

theorem int32_natAbs (n : Int32) : n.toInt.natAbs < 10 ^ 19 := by
  have hlow := n.le_toInt
  have hhigh := n.toInt_lt
  omega

theorem stampText_length (t : Timeval) : (stampText t).length ≤ 41 := by
  have hsec := intText_length (by omega) (int64_natAbs t.tvSec)
  have husec := intText_length (by omega) (int64_natAbs t.tvUsec)
  have hdot : (ascii ".").length = 1 := rfl
  unfold stampText
  rw [List.length_append, List.length_append]
  omega

/-- A byte of a time stamp is no NUL and no comma. -/
theorem stampText_clean (t : Timeval) (b : UInt8) (hb : b ∈ stampText t) : b ≠ 0 ∧ b ≠ 44 := by
  have hnum : ∀ z : Int, b ∈ intText z → b ≠ 0 ∧ b ≠ 44 := by
    intro z hz
    rcases intText_clean z b hz with rfl | ⟨hlow, -⟩
    · decide
    · constructor <;> (rintro rfl; exact absurd hlow (by decide))
  unfold stampText at hb
  rcases List.mem_append.mp hb with hb | hb
  · rcases List.mem_append.mp hb with hb | hb
    · exact hnum _ hb
    · rw [show b = 46 from List.mem_singleton.mp hb]
      decide
  · exact hnum _ hb

theorem stampText_nul (t : Timeval) : (0 : UInt8) ∉ stampText t := fun h =>
  (stampText_clean t 0 h).1 rfl

variable (oCall : OCallRecord) (eCall : ECallRecord)

/-- The array of 300 bytes holds what is formatted into it. -/
theorem openNumbers_fit : snprintf 300 (openNumbers oCall) = openNumbers oCall
    ∧ (openNumbers oCall).length ≤ 299 ∧ (0 : UInt8) ∉ openNumbers oCall := by
  have hstamp := stampText_length oCall.timeStamp
  have hflag := intText_length (by omega) (int32_natAbs oCall.flag)
  have hlen : (openNumbers oCall).length ≤ 299 := by
    unfold openNumbers
    rw [List.length_append, List.length_append, List.length_append,
      show (ascii "\"time_stamp\": ").length = 14 from rfl,
      show (ascii ", \"flag\": ").length = 10 from rfl]
    omega
  refine ⟨List.take_of_length_le hlen, hlen, ?_⟩
  unfold openNumbers
  simp only [List.mem_append, not_or]
  exact ⟨⟨⟨by decide, stampText_nul _⟩, by decide⟩, intText_nul _⟩

theorem execNumbers_fit : snprintf 300 (execNumbers eCall) = execNumbers eCall
    ∧ (execNumbers eCall).length ≤ 299 ∧ (0 : UInt8) ∉ execNumbers eCall := by
  have hstamp := stampText_length eCall.timeStamp
  have hpid := intText_length (by omega) (int32_natAbs eCall.pid)
  have hppid := intText_length (by omega) (int32_natAbs eCall.ppid)
  have hlen : (execNumbers eCall).length ≤ 299 := by
    unfold execNumbers
    rw [List.length_append, List.length_append, List.length_append, List.length_append,
      List.length_append, show (ascii "\"time_stamp\": ").length = 14 from rfl,
      show (ascii ", \"pid\": ").length = 9 from rfl,
      show (ascii ", \"ppid\": ").length = 10 from rfl]
    omega
  refine ⟨List.take_of_length_le hlen, hlen, ?_⟩
  unfold execNumbers
  simp only [List.mem_append, not_or]
  exact ⟨⟨⟨⟨⟨by decide, stampText_nul _⟩, by decide⟩, intText_nul _⟩, by decide⟩, intText_nul _⟩

end Numbers

/-! ## §4. The text of a record. -/

/-- The object of an open call. -/
def openJson (oCall : OCallRecord) (filepath : Bytes) : Bytes :=
  ascii "\x7b" ++ (openNumbers oCall ++ (ascii ", \"filepath\": \"" ++ (filepath
    ++ (ascii "\"" ++ ascii "\x7d"))))

/-- The object of an exec call. -/
def execJson (eCall : ECallRecord) (cmdName args : Bytes) : Bytes :=
  ascii "\x7b" ++ (execNumbers eCall ++ (ascii ", \"cmd\": \"" ++ (cmdName ++ (ascii "\""
    ++ (ascii ", \"args\": \"" ++ (args ++ (ascii "\"" ++ ascii "\x7d")))))))

/-- Both objects begin with the time stamp, and a comma follows it. -/
theorem openJson_head (oCall : OCallRecord) (filepath : Bytes) : ∃ rest, openJson oCall filepath
    = ascii "\x7b" ++ (ascii "\"time_stamp\": " ++ stampText oCall.timeStamp ++ 44 :: rest) := by
  have hcomma : ascii ", \"flag\": " = 44 :: ascii " \"flag\": " := by decide
  unfold openJson openNumbers
  rw [hcomma]
  simp only [List.append_assoc, List.cons_append]
  exact ⟨_, rfl⟩

theorem execJson_head (eCall : ECallRecord) (cmdName args : Bytes) :
    ∃ rest, execJson eCall cmdName args
      = ascii "\x7b" ++ (ascii "\"time_stamp\": " ++ stampText eCall.timeStamp ++ 44 :: rest) := by
  have hcomma : ascii ", \"pid\": " = 44 :: ascii " \"pid\": " := by decide
  unfold execJson execNumbers
  rw [hcomma]
  simp only [List.append_assoc, List.cons_append]
  exact ⟨_, rfl⟩

section Record

variable {mem : Allocator} {this : StringBuffer} {room : Nat}

/-- **`db_openCall_to_jsonstringb`** appends the object. -/
theorem openJson_adds (hmem : mem.Total) {oCall : OCallRecord} {filepath : Bytes}
    (h : Appendable this ((openJson oCall filepath).length + room))
    (hpath : oCall.filepath = some filepath) (hclean : (0 : UInt8) ∉ filepath) :
    Adds this (openJson oCall filepath) room (dbOpenCallToJsonstringb mem this oCall) := by
  obtain ⟨hfit, -, hnul⟩ := openNumbers_fit oCall
  unfold openJson at h ⊢
  unfold dbOpenCallToJsonstringb
  rw [hpath, hfit]
  simp only [List.length_append, Nat.add_assoc] at h
  refine (adds_text hmem h (by decide)).bind fun _ h => ?_
  refine (adds_text hmem h hnul).bind fun _ h => ?_
  refine (adds_text hmem h (by decide)).bind fun _ h => ?_
  refine (adds_pointer hmem h hclean).bind fun _ h => ?_
  refine (adds_text hmem h (by decide)).bind fun _ h => ?_
  exact adds_text hmem h (by decide)

/-- **`db_execCall_to_jsonstringb`** appends the object. -/
theorem execJson_adds (hmem : mem.Total) {eCall : ECallRecord} {cmdName args : Bytes}
    (h : Appendable this ((execJson eCall cmdName args).length + room))
    (hcmd : eCall.cmdName = some cmdName) (hargs : eCall.args = some args)
    (hcleanc : (0 : UInt8) ∉ cmdName) (hcleana : (0 : UInt8) ∉ args) :
    Adds this (execJson eCall cmdName args) room (dbExecCallToJsonstringb mem this eCall) := by
  obtain ⟨hfit, -, hnul⟩ := execNumbers_fit eCall
  unfold execJson at h ⊢
  unfold dbExecCallToJsonstringb
  rw [hcmd, hargs, hfit]
  simp only [List.length_append, Nat.add_assoc] at h
  refine (adds_text hmem h (by decide)).bind fun _ h => ?_
  refine (adds_text hmem h hnul).bind fun _ h => ?_
  refine (adds_text hmem h (by decide)).bind fun _ h => ?_
  refine (adds_pointer hmem h hcleanc).bind fun _ h => ?_
  refine (adds_text hmem h (by decide)).bind fun _ h => ?_
  refine (adds_text hmem h (by decide)).bind fun _ h => ?_
  refine (adds_pointer hmem h hcleana).bind fun _ h => ?_
  refine (adds_text hmem h (by decide)).bind fun _ h => ?_
  exact adds_text hmem h (by decide)

end Record

/-! ## §5. Appending whatever the lengths. -/

/-- What holds of the buffer also after `end_pos` has wrapped: no NUL in front of it. -/
structure Runs (this : StringBuffer) : Prop where
  length : this.string.length = this.size
  power : ∃ k, this.size = 2 ^ k
  inside : this.endPos ≤ this.string.length
  small : this.endPos < 2 ^ 32
  clean : (0 : UInt8) ∉ this.content

section Runs

variable {mem : Allocator} {this g : StringBuffer} {len : Nat}

theorem Runs.content_length (h : Runs this) : this.content.length = this.endPos := by
  unfold StringBuffer.content
  rw [List.length_take]
  exact Nat.min_eq_left h.inside

theorem runs_init : Runs (sbInit 256) := by
  refine ⟨List.length_replicate, ⟨8, rfl⟩, Nat.zero_le _, by decide, ?_⟩
  unfold StringBuffer.content sbInit
  simp

variable (len) in
/-- A block of size 0 is never large enough, and doubling does not help. -/
theorem grow_empty (hmem : mem.Total) : ∀ (rounds : Nat) (this : StringBuffer), this.size = 0 →
    ∃ e, sbGrow mem len rounds this = .error e := by
  intro rounds
  induction rounds with
  | zero =>
      intro this hsize
      unfold sbGrow
      rw [if_pos (by omega)]
      exact ⟨_, rfl⟩
  | succ rounds ih =>
      intro this hsize
      have hzero : this.size * 2 % 2 ^ 64 = 0 := by omega
      obtain ⟨fill, hfill⟩ := Option.isSome_iff_exists.mp (hmem this.reallocs 0)
      unfold sbGrow
      rw [if_pos (by omega), hzero, realloc, hfill]
      exact ih _ (by rfl)

/-- The loop keeps the block's bytes, if it ends. -/
theorem grow_keeps (hmem : mem.Total) : ∀ (rounds : Nat) (this : StringBuffer),
    this.string.length = this.size → (∃ k, this.size = 2 ^ k) →
    ∀ {grown : Bool} {g : StringBuffer}, sbGrow mem len rounds this = .ok (grown, g) →
      grown = true ∧ g.endPos = this.endPos ∧ (∃ extra, g.string = this.string ++ extra)
        ∧ g.string.length = g.size ∧ ∃ k, g.size = 2 ^ k := by
  intro rounds
  induction rounds with
  | zero =>
      intro this hlen hpow grown g h
      unfold sbGrow at h
      split at h
      · cases h
      · cases h
        exact ⟨rfl, rfl, ⟨[], by simp⟩, hlen, hpow⟩
  | succ rounds ih =>
      intro this hlen hpow grown g h
      unfold sbGrow at h
      split at h
      · obtain ⟨k, hk⟩ := hpow
        by_cases hlarge : 63 ≤ k
        · -- the doubled size is 0 as a `size_t`
          have hzero : this.size * 2 % 2 ^ 64 = 0 := by
            rw [hk, ← Nat.pow_succ, Nat.mod_eq_zero_of_dvd (Nat.pow_dvd_pow 2 (by omega))]
          rw [hzero] at h
          obtain ⟨fill, hfill⟩ := Option.isSome_iff_exists.mp (hmem this.reallocs 0)
          rw [realloc, hfill] at h
          obtain ⟨e, he⟩ := grow_empty len hmem rounds
            { this with
              string := List.take 0 this.string ++ (List.range (0 - this.string.length)).map
                fun k => fill (this.string.length + k)
              size := 0
              reallocs := this.reallocs + 1 } rfl
          exact absurd (he.symm.trans h) (by simp)
        · have hdouble : this.size * 2 % 2 ^ 64 = 2 ^ (k + 1) := by
            rw [hk, ← Nat.pow_succ, Nat.mod_eq_of_lt (Nat.pow_lt_pow_right (by omega) (by omega))]
          have hle : this.string.length ≤ 2 ^ (k + 1) := by
            rw [hlen, hk]
            exact Nat.pow_le_pow_right (by omega) (by omega)
          obtain ⟨extra, hrealloc, hlength, -⟩ := realloc_grow hmem this.reallocs hle
          rw [hdouble, hrealloc] at h
          obtain ⟨hgrown, hend, ⟨extra', hstring⟩, hsize, hpow'⟩ :=
            ih { this with
                  string := this.string ++ extra
                  size := 2 ^ (k + 1)
                  reallocs := this.reallocs + 1 } hlength ⟨k + 1, rfl⟩ h
          refine ⟨hgrown, hend, ⟨extra ++ extra', ?_⟩, hsize, hpow'⟩
          rw [hstring, List.append_assoc]
      · cases h
        exact ⟨rfl, rfl, ⟨[], by simp⟩, hlen, hpow⟩

/-- **`sb_append`, whatever the lengths**: the string and a NUL stand behind the old content, and
what counts as content is a part of that. -/
theorem append_runs (hmem : mem.Total) (h : Runs this) {s rest : Bytes} (hs : (0 : UInt8) ∉ s)
    {ret : Nat} {this' : StringBuffer}
    (happend : sbAppend mem this (s ++ 0 :: rest) = .ok (ret, this')) :
    ret = 0 ∧ Runs this' ∧ cstring this'.string = .ok (this.content ++ s)
      ∧ this'.endPos = (this.endPos + s.length) % 2 ^ 32
      ∧ this'.content = (this.content ++ s).take this'.endPos := by
  unfold sbAppend at happend
  rw [strlen_terminated hs, ok_bind] at happend
  obtain ⟨⟨grown, g⟩, hgrow, happend⟩ := bind_ok happend
  obtain ⟨rfl, hend, ⟨extra, hstring⟩, hlen, hpow⟩ :=
    grow_keeps hmem 64 this h.length h.power hgrow
  dsimp only at happend
  rw [if_pos rfl] at happend
  obtain ⟨block, hcopy, happend⟩ := bind_ok happend
  unfold memcpy at hcopy
  split at hcopy
  next hroom =>
    cases hcopy
    cases happend
    rw [hend] at hroom
    have htake : g.string.take this.endPos = this.content := by
      rw [hstring, List.take_append_of_le_length h.inside]
      rfl
    have hs1 : (s ++ 0 :: rest).take (s.length + 1) = s ++ [0] := by
      rw [show s ++ 0 :: rest = (s ++ [0]) ++ rest by simp,
        List.take_append_of_le_length (by simp), List.take_of_length_le (by simp)]
    have hblock : g.string.take g.endPos ++ (s ++ 0 :: rest).take (s.length + 1)
        ++ g.string.drop (g.endPos + (s.length + 1))
        = (this.content ++ s) ++ 0 :: g.string.drop (this.endPos + (s.length + 1)) := by
      rw [hend, htake, hs1]
      simp
    have hlenb : ((this.content ++ s) ++ 0 :: g.string.drop (this.endPos + (s.length + 1))).length
        = g.size := by
      rw [List.length_append, List.length_append, h.content_length, List.length_cons,
        List.length_drop]
      omega
    -- `end_pos` has 32 bits: past them the content is a front part of what has been written
    have hmod : (this.endPos + s.length) % 2 ^ 32 ≤ this.endPos + s.length := Nat.mod_le _ _
    have hfront : (this.content ++ s).length = this.endPos + s.length := by
      rw [List.length_append, h.content_length]
    have hcontent : ((this.content ++ s) ++ 0 :: g.string.drop (this.endPos + (s.length + 1))).take
        ((this.endPos + s.length) % 2 ^ 32)
        = (this.content ++ s).take ((this.endPos + s.length) % 2 ^ 32) :=
      List.take_append_of_le_length (by omega)
    have hclean : (0 : UInt8) ∉ this.content ++ s := by
      rw [List.mem_append, not_or]
      exact ⟨h.clean, hs⟩
    rw [hblock, hend]
    refine ⟨rfl, ⟨hlenb, hpow, ?_, Nat.mod_lt _ (by omega), ?_⟩, cstring_terminated hclean, rfl,
      hcontent⟩
    · show (this.endPos + s.length) % 2 ^ 32 ≤ List.length _
      rw [hlenb]
      omega
    · show (0 : UInt8) ∉ List.take _ _
      rw [hcontent]
      exact fun hm => hclean (List.mem_of_mem_take hm)
  next => cases hcopy

/-- What an append leaves, for the rules of postconditions. -/
def StillRuns (r : Except Fault (Nat × StringBuffer)) : Prop :=
  Meets (fun _ => True) r fun p => p.1 = 0 ∧ Runs p.2

theorem StillRuns.bind {β : Type} {r : Except Fault (Nat × StringBuffer)}
    {f : Nat × StringBuffer → Except Fault β} {P : β → Prop} (h : StillRuns r)
    (hf : ∀ sb, Runs sb → Meets (fun _ => True) (f (0, sb)) P) :
    Meets (fun _ => True) (r >>= f) P := by
  refine Meets.bind h fun p hp => ?_
  obtain ⟨ret, sb⟩ := p
  obtain ⟨rfl, hruns⟩ := hp
  exact hf sb hruns

theorem stillRuns_text (hmem : mem.Total) (h : Runs this) (s : Bytes) :
    StillRuns (appendText mem this s) := by
  unfold StillRuns appendText
  obtain ⟨front, rest, hsplit, hfront⟩ := List.eq_append_cons_of_mem
    (show (0 : UInt8) ∈ s ++ [0] by simp)
  rw [hsplit]
  cases hr : sbAppend mem this (front ++ 0 :: rest) with
  | error e => trivial
  | ok p =>
      obtain ⟨hret, hruns, -⟩ := append_runs hmem h hfront hr
      exact ⟨hret, hruns⟩

theorem stillRuns_pointer (hmem : mem.Total) (h : Runs this) (s : Option Bytes) :
    StillRuns (appendPointer mem this s) := by
  cases s with
  | none => trivial
  | some s => exact stillRuns_text hmem h s

theorem stillRuns_open (hmem : mem.Total) (h : Runs this) (oCall : OCallRecord) :
    StillRuns (dbOpenCallToJsonstringb mem this oCall) := by
  unfold dbOpenCallToJsonstringb
  refine (stillRuns_text hmem h _).bind fun _ h => ?_
  refine (stillRuns_text hmem h _).bind fun _ h => ?_
  refine (stillRuns_text hmem h _).bind fun _ h => ?_
  refine (stillRuns_pointer hmem h _).bind fun _ h => ?_
  refine (stillRuns_text hmem h _).bind fun _ h => ?_
  exact stillRuns_text hmem h _

theorem stillRuns_exec (hmem : mem.Total) (h : Runs this) (eCall : ECallRecord) :
    StillRuns (dbExecCallToJsonstringb mem this eCall) := by
  unfold dbExecCallToJsonstringb
  refine (stillRuns_text hmem h _).bind fun _ h => ?_
  refine (stillRuns_text hmem h _).bind fun _ h => ?_
  refine (stillRuns_text hmem h _).bind fun _ h => ?_
  refine (stillRuns_pointer hmem h _).bind fun _ h => ?_
  refine (stillRuns_text hmem h _).bind fun _ h => ?_
  refine (stillRuns_text hmem h _).bind fun _ h => ?_
  refine (stillRuns_pointer hmem h _).bind fun _ h => ?_
  refine (stillRuns_text hmem h _).bind fun _ h => ?_
  exact stillRuns_text hmem h _

theorem stillRuns_execCalls (hmem : mem.Total) (execCalls : List ECallRecord) :
    ∀ {this : StringBuffer}, Runs this → StillRuns (jsonsbExecCalls mem execCalls this) := by
  induction execCalls with
  | nil =>
      intro this h
      unfold jsonsbExecCalls
      exact (stillRuns_text hmem h _).bind fun _ h => ⟨rfl, h⟩
  | cons eCall execCalls ih =>
      intro this h
      unfold jsonsbExecCalls
      refine (stillRuns_exec hmem h eCall).bind fun _ h => ?_
      show StillRuns (if 0 ≠ 0 then _ else _)
      rw [if_neg (by decide)]
      refine (stillRuns_text hmem h _).bind fun _ h => ?_
      show StillRuns (if 0 ≠ 0 then _ else _)
      rw [if_neg (by decide)]
      exact ih h

theorem stillRuns_record (hmem : mem.Total) (h : Runs this) (record : DbFullRecord) :
    StillRuns (dbFullRecordJsonsb mem record this) := by
  unfold dbFullRecordJsonsb
  refine (stillRuns_text hmem h _).bind fun _ h => ?_
  show StillRuns (if 0 ≠ 0 then _ else _)
  rw [if_neg (by decide)]
  refine (stillRuns_open hmem h _).bind fun _ h => ?_
  show StillRuns (if 0 ≠ 0 then _ else _)
  rw [if_neg (by decide)]
  refine (stillRuns_text hmem h _).bind fun _ h => ?_
  show StillRuns (if 0 ≠ 0 then _ else _)
  rw [if_neg (by decide)]
  exact stillRuns_execCalls hmem _ h

/-- One more record. -/
theorem queryRecord_runs (hmem : mem.Total) (h : Runs this) (record : DbFullRecord) :
    Meets (fun _ => True) (queryRecord mem this record) Runs := by
  unfold queryRecord
  exact (stillRuns_record hmem h record).bind fun _ h =>
    (stillRuns_text hmem h _).bind fun _ h => h

end Runs

/-! ## §6. The answer. -/

/-- The element that stands for an exec call: an object, as it is written for this call. -/
def ExecElement (eCall : ECallRecord) (v : Json.Value) : Prop :=
  ∃ members cmdName args, v = .object members ∧ eCall.cmdName = some cmdName
    ∧ eCall.args = some args ∧ Json.Derives (.value v) (execJson eCall cmdName args)

/-- The element that stands for a record: an object whose member `openCall` is an object, and whose
member `execCalls` is an array with one object for each exec call, in their order. -/
def RecordElement (record : DbFullRecord) (v : Json.Value) : Prop :=
  ∃ members openMembers execs, v = .object members
    ∧ (ascii "openCall", .object openMembers) ∈ members
    ∧ (ascii "execCalls", .array execs) ∈ members
    ∧ List.Forall₂ ExecElement record.execCalls execs

/-- The answer is one array with an element for each record. -/
def AnswersJson (mem : Allocator) (resultRecordv : List DbFullRecord) : Prop :=
  ∃ text elements, getFromDatabaseJson mem resultRecordv = .ok text
    ∧ Json.Document (.array elements) text ∧ List.Forall₂ RecordElement resultRecordv elements

/-- Behind every record stands a comma, also behind the last. -/
theorem answer_not_json {mem : Allocator} (hmem : mem.Total) {resultRecordv : List DbFullRecord}
    (hne : resultRecordv ≠ []) : ¬ AnswersJson mem resultRecordv := by
  intro h
  obtain ⟨text, elements, htext, hdoc, hall⟩ := h
  unfold getFromDatabaseJson at htext
  obtain ⟨⟨ret, sb⟩, hopen, htext⟩ := bind_ok htext
  have hruns : Runs sb := ((stillRuns_text hmem runs_init _).post hopen).2
  obtain ⟨sb1, hrecords, htext⟩ := bind_ok htext
  -- the append of the comma behind the last record
  rw [← List.dropLast_concat_getLast hne, List.foldlM_append] at hrecords
  obtain ⟨sb2, hinit, hlast⟩ := bind_ok hrecords
  have hruns2 : Runs sb2 :=
    (Meets.foldlM (fun r _ s hs => queryRecord_runs hmem hs r) hruns).post hinit
  rw [List.foldlM_cons] at hlast
  obtain ⟨sb3, hrecord, hlast⟩ := bind_ok hlast
  cases hlast
  unfold queryRecord at hrecord
  obtain ⟨⟨ret3, sb3⟩, hbody, hrecord⟩ := bind_ok hrecord
  have hruns3 : Runs sb3 := ((stillRuns_record hmem hruns2 _).post hbody).2
  obtain ⟨⟨ret4, sb4⟩, hcomma, hrecord⟩ := bind_ok hrecord
  obtain rfl : sb4 = sb1 := Except.ok.inj hrecord
  obtain ⟨-, hruns4, -, hend4, hcontent4⟩ :=
    append_runs hmem hruns3 (show (0 : UInt8) ∉ ascii ", " by decide) hcomma
  -- the append of the bracket
  obtain ⟨⟨ret5, sb5⟩, hbracket, htext⟩ := bind_ok htext
  obtain ⟨-, -, hstring, -⟩ :=
    append_runs hmem hruns4 (show (0 : UInt8) ∉ ascii "]\n" by decide) hbracket
  have heq : sb4.content ++ 93 :: [10] = text := Except.ok.inj (hstring.symm.trans htext)
  have hblank : Json.Blank [10] := by simp [Json.Blank, Json.IsBlank]
  have hcount : elements ≠ [] := by
    intro hnil
    rw [hnil, List.forall₂_nil_right_iff] at hall
    exact hne hall
  rw [← heq] at hdoc
  have htwo : (ascii ", ").length = 2 := rfl
  have hsmall3 := hruns3.small
  have hlen4 : sb4.endPos ≤ sb4.content.length := by rw [hruns4.content_length]
  by_cases hwrap : sb3.endPos + 2 < 2 ^ 32
  · rw [htwo, Nat.mod_eq_of_lt hwrap] at hend4
    have hfull : sb4.content = sb3.content ++ 44 :: [32] := by
      rw [hcontent4, List.take_of_length_le]
      · rfl
      · rw [List.length_append, hruns3.content_length, hend4]
        omega
    rw [hfull] at hdoc
    exact Json.no_trailing_comma (by simp [Json.Blank, Json.IsBlank]) hblank hdoc
  · -- the comma made `end_pos` wrap: at most one byte is left in front of the bracket
    have hone : sb4.content.length ≤ 1 := by
      rw [hruns4.content_length, hend4, htwo]
      omega
    have := Json.document_array_length hdoc hblank hcount
    omega

/-- **The query's answer is JSON** exactly if there is nothing to answer. -/
theorem query_json_iff (mem : Allocator) (hmem : mem.Total) (resultRecordv : List DbFullRecord) :
    AnswersJson mem resultRecordv ↔ resultRecordv = [] := by
  constructor
  · intro h
    by_contra hne
    exact answer_not_json hmem hne h
  · rintro rfl
    have hready : Appendable (sbInit 256) ((ascii "[").length + ((ascii "]\n").length + 0)) :=
      ⟨StringBuffer.wf_init (by omega) (by omega), StringBuffer.terminated_init (by omega), by decide⟩
    obtain ⟨sb1, hok1, hcontent1, hready1⟩ := adds_text hmem hready (by decide)
    obtain ⟨sb2, hok2, hcontent2, hready2⟩ := adds_text hmem hready1 (by decide)
    refine ⟨[91, 93, 10], [], ?_, Json.document_empty, .nil⟩
    unfold getFromDatabaseJson
    rw [hok1]
    show (do
      let (_, sb) ← appendText mem sb1 (ascii "]\n")
      cstring sb.string) = _
    rw [hok2]
    show cstring sb2.string = _
    rw [StringBuffer.cstring_eq hready2.wf hready2.terminated, hcontent2, hcontent1]
    rfl

theorem query_json_none : AnswersJson (fun _ _ => some fun _ => 0) [] ↔ ([] : List DbFullRecord) = [] :=
  query_json_iff _ (fun _ _ => rfl) []

/-- One open of `/a`, with no exec call found. -/
theorem query_one_record :
    ¬ AnswersJson (fun _ _ => some fun _ => 0)
      [⟨⟨0, ⟨1, 500000⟩, ⟨⟨0, 0⟩, 0, 0⟩, some (ascii "/a")⟩, []⟩] :=
  answer_not_json (fun _ _ => rfl) (by simp)

end DirSurveiller
