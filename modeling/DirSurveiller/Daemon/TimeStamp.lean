/-
  DirSurveiller.Daemon.TimeStamp — a time stamp on its way from the trace line to the query.

  The constructors read the two numbers around the dot with `atol`; the dispatch adds the boot time
  to the seconds; the record is marshalled and read back; the query writes both numbers with `%li`.
  Nothing on the way keeps the zeros with which the fraction may begin.

  Main result:
    * `stamp_survives_iff` — which time stamps are rendered with their value.
-/
import DirSurveiller.Daemon.Surveiller
import DirSurveiller.Database.Json
import DirSurveiller.Database.RoundTrip

namespace DirSurveiller

open CMachine Outcome Decimal

/-! ## §1. The way. -/

/-- The field buffers of a line; the third and the fourth are the pid and the returned value, or
the pid and the parent's. -/
structure LineFields where
  timeStamp : StringBuffer
  cmdName : StringBuffer
  pid : StringBuffer
  other : StringBuffer
  text : StringBuffer

inductive CallKind where
  | openCall
  | execCall
  deriving Repr, DecidableEq

/-- What surrounds the call on its way.  Requests are granted. -/
structure WayEnv where
  stat : Bytes → Option Nat
  dispatch : DispatchEnv
  issuer : ECallRecord
  junk : ECallRecord
  junkOpen : OCallRecord
  json : Allocator
  dispatch_total : dispatch.mem.Total
  json_total : json.Total

/-- From the fields of an open line to the text of the record: `openCall_init`, the open part of
`surv_database_dispatch`, `db_openCall_unmarshall`, `db_openCall_to_jsonstringb`. -/
def openWay (env : WayEnv) (bootTime : UInt32) (line : LineFields) : Except Fault Bytes := do
  let (_, oCall, _) ← openCallInit (fun _ => true) env.stat .zero line.timeStamp line.cmdName
    line.pid line.other line.text
  let timeStamp ← bootShift bootTime oCall.timeStamp
  let (_, mObj) ← dbOpenCallMarshall env.dispatch.mem 0 mObjectInit
    (openRecord env.dispatch env.issuer oCall timeStamp)
  let (_, record) ← dbOpenCallUnmarshall env.junkOpen mObj.data
  let (_, sb) ← dbOpenCallToJsonstringb env.json (sbInit 256) record
  cstring sb.string

/-- The same for an exec line. -/
def execWay (env : WayEnv) (bootTime : UInt32) (line : LineFields) : Except Fault Bytes := do
  let (_, eCall, _) ← execCallInit (fun _ => true) .zero line.timeStamp line.cmdName line.pid
    line.other line.text
  let timeStamp ← bootShift bootTime eCall.timeStamp
  let (_, mObj) ← dbExecCallMarshall env.dispatch.mem 0 mObjectInit
    (execRecord env.dispatch eCall timeStamp)
  let (_, record) ← dbExecCallUnmarshall env.junk mObj.data
  let (_, sb) ← dbExecCallToJsonstringb env.json (sbInit 256) record
  cstring sb.string

def CallKind.way (env : WayEnv) (bootTime : UInt32) (line : LineFields) :
    CallKind → Except Fault Bytes
  | .openCall => openWay env bootTime line
  | .execCall => execWay env bootTime line

/-- The value of the numeral behind `"time_stamp": `. -/
def renderedStamp (text : Bytes) : Option Rat :=
  numeralValue ((text.drop 15).takeWhile (· ≠ 44))

/-! ## §2. The time stamp of a line. -/

/-- The fields of a line whose time stamp is digits, a dot and six digits, the first digits within
`long`; the strings of an exec line are short enough for the offsets in its record. -/
structure TracedLine where
  line : LineFields
  sec : Bytes
  usec : Bytes
  stamp_ok : FieldOk line.timeStamp
  cmdName_ok : FieldOk line.cmdName
  pid_ok : FieldOk line.pid
  other_ok : FieldOk line.other
  text_ok : FieldOk line.text
  fits : RecordFits line.cmdName.content line.text.content
  stamp : line.timeStamp.content = sec ++ DOT :: usec
  sec_digits : ∀ b ∈ sec, IsDigit b
  usec_digits : ∀ b ∈ usec, IsDigit b
  six : usec.length = 6
  within : textValue sec < 2 ^ 63

/-- The two numbers as the constructors read them. -/
def TracedLine.time (t : TracedLine) : Timeval := ⟨atol t.sec, atol t.usec⟩

/-- The time the tracer meant, counted from the epoch. -/
def TracedLine.meant (bootTime : UInt32) (t : TracedLine) : Rat :=
  bootTime.toNat + textValue t.sec + textValue t.usec / 10 ^ 6

/-- The way delivers a text whose time stamp is what the tracer meant. -/
def Renders (kind : CallKind) (env : WayEnv) (bootTime : UInt32) (t : TracedLine) : Prop :=
  ∃ text, kind.way env bootTime t.line = .ok text ∧ renderedStamp text = some (t.meant bootTime)

/-- `atol` of digits. -/
theorem atol_digits {s : Bytes} (hs : ∀ b ∈ s, IsDigit b) (hlong : textValue s < 2 ^ 63) :
    (atol s).toInt = textValue s := by
  have hspace : s.dropWhile isSpace = s := by
    cases s with
    | nil => rfl
    | cons d ds =>
        obtain ⟨hlow, hhigh⟩ := hs d (by simp)
        rw [List.dropWhile_cons_of_neg]
        unfold isSpace
        simp only [Bool.or_eq_true, beq_iff_eq, Bool.and_eq_true, decide_eq_true_eq, not_or, not_and,
          UInt8.not_le]
        refine ⟨fun e => ?_, fun _ => ?_⟩
        · rw [e] at hlow
          exact absurd hlow (by decide)
        · rw [UInt8.lt_iff_toNat_lt]
          exact Nat.lt_of_lt_of_le (by decide) hlow
  have hdigits : digitsValue s = textValue s := by
    unfold digitsValue textValue
    rw [List.takeWhile_eq_self_iff.mpr]
    intro d hd
    obtain ⟨hlow, hhigh⟩ := hs d hd
    unfold isDigit
    simp only [Bool.and_eq_true, decide_eq_true_eq, UInt8.le_iff_toNat_le]
    exact ⟨hlow, hhigh⟩
  have hrange : ∀ z : Int, z = textValue s →
      max (-(2 ^ 63)) (min (2 ^ 63 - 1) z) = textValue s := by
    intro z hz
    omega
  have hvalue : strtol s = textValue s := by
    unfold strtol
    dsimp only
    rw [hspace]
    apply hrange
    -- digits begin with no sign
    split
    · exact absurd (hs 45 (by simp)).1 (by decide)
    · exact absurd (hs 43 (by simp)).1 (by decide)
    · rw [hdigits]
  unfold atol
  rw [hvalue, Int64.toInt_ofInt_of_le (by omega) (by omega)]

section Line

variable (t : TracedLine) (env : WayEnv) (bootTime : UInt32)

theorem TracedLine.usec_lt : textValue t.usec < 10 ^ 6 := (six_digits t.usec_digits t.six).1

theorem TracedLine.time_sec : t.time.tvSec.toInt = textValue t.sec :=
  atol_digits t.sec_digits t.within

theorem TracedLine.time_usec : t.time.tvUsec.toInt = textValue t.usec :=
  atol_digits t.usec_digits (by have := t.usec_lt; omega)

/-- The constructors find the dot. -/
theorem TracedLine.split :
    ∃ stamp', splitTimeStamp t.line.timeStamp = .ok (some (t.time, stamp')) := by
  have hlen := t.stamp_ok.1.content_length
  have hdot : DOT ∉ t.sec := fun hmem => absurd (t.sec_digits DOT hmem).1 (by decide)
  have hk : t.line.timeStamp.content.idxOf DOT = t.sec.length := by
    rw [t.stamp, List.idxOf_append_of_notMem hdot, List.idxOf_cons_self, Nat.add_zero]
  rw [t.stamp, List.length_append, List.length_cons] at hlen
  have hsplit := splitTimeStamp_dot t.stamp_ok hk (by omega)
  rw [t.stamp, List.take_left, ← List.drop_drop, List.drop_left] at hsplit
  exact ⟨_, hsplit⟩

/-- **`openCall_init`** takes the time stamp and the path of the line, with and without an inode. -/
theorem TracedLine.openInit (stat : Bytes → Option Nat) : ∃ ret oCall stamp',
    openCallInit (fun _ => true) stat .zero t.line.timeStamp t.line.cmdName t.line.pid t.line.other
      t.line.text = .ok (ret, oCall, stamp')
      ∧ oCall.timeStamp = t.time ∧ oCall.filepath = t.line.text.content := by
  obtain ⟨stamp', hsplit⟩ := t.split
  simp only [openCallInit, hsplit, ok_bind, t.cmdName_ok.copied,
    t.text_ok.copied, StringBuffer.cstring_eq t.pid_ok.1 t.pid_ok.2.1,
    StringBuffer.cstring_eq t.other_ok.1 t.other_ok.2.1,
    StringBuffer.cstring_eq t.text_ok.1 t.text_ok.2.1]
  cases stat t.line.text.content with
  | none => exact ⟨_, _, _, rfl, rfl, rfl⟩
  | some inode => exact ⟨_, _, _, rfl, rfl, rfl⟩

/-- **`execCall_init`** takes the time stamp and both strings of the line. -/
theorem TracedLine.execInit : ∃ eCall stamp',
    execCallInit (fun _ => true) .zero t.line.timeStamp t.line.cmdName t.line.pid t.line.other
      t.line.text = .ok (0, eCall, stamp')
      ∧ eCall.timeStamp = t.time ∧ eCall.cmdName = t.line.cmdName.content
      ∧ eCall.args = t.line.text.content := by
  obtain ⟨stamp', hsplit⟩ := t.split
  simp only [execCallInit, hsplit, ok_bind, t.cmdName_ok.copied,
    t.text_ok.copied, StringBuffer.cstring_eq t.pid_ok.1 t.pid_ok.2.1,
    StringBuffer.cstring_eq t.other_ok.1 t.other_ok.2.1]
  exact ⟨_, _, rfl, rfl, rfl, rfl⟩

/-- The time stamp with the boot time added. -/
theorem TracedLine.shift (hlong : bootTime.toNat + textValue t.sec < 2 ^ 63) :
    ∃ time, bootShift bootTime t.time = .ok time
      ∧ time.tvSec.toInt = (bootTime.toNat + textValue t.sec : Nat)
      ∧ time.tvUsec.toInt = textValue t.usec := by
  have hsec := t.time_sec
  have hboot := bootTime.toNat_lt
  have hfits : t.time.tvSec.toInt + bootTime.toNat < 2 ^ 63 := by omega
  refine ⟨{ t.time with tvSec := t.time.tvSec + Int64.ofNat bootTime.toNat }, if_pos hfits, ?_,
    t.time_usec⟩
  show (t.time.tvSec + Int64.ofNat bootTime.toNat).toInt = _
  rw [Int64.toInt_add, Int64.toInt_ofNat_of_lt (by omega), hsec, Int.bmod_eq_of_le (by omega) (by omega)]
  omega

/-- Past the largest `long` the addition is undefined. -/
theorem TracedLine.shift_over (hlong : ¬ bootTime.toNat + textValue t.sec < 2 ^ 63) :
    bootShift bootTime t.time = .error .intOverflow := by
  have hsec := t.time_sec
  exact if_neg (by omega)

end Line

/-! ## §3. The numeral in the text. -/

/-- A text that begins as both kinds of objects do. -/
theorem renderedStamp_eq {time : Timeval} {s u : Nat} (hs : time.tvSec.toInt = s)
    (hu : time.tvUsec.toInt = u) (rest : Bytes) :
    renderedStamp (ascii "\x7b" ++ (ascii "\"time_stamp\": " ++ stampText time ++ 44 :: rest))
      = numeralValue (natText s ++ 46 :: natText u) := by
  have hnumeral : stampText time = natText s ++ 46 :: natText u := by
    unfold stampText intText
    rw [hs, hu, if_neg (by omega), if_neg (by omega), Int.natAbs_natCast, Int.natAbs_natCast,
      List.append_assoc]
    rfl
  have hclean : ∀ b ∈ stampText time, decide (b ≠ 44) = true := by
    intro b hb
    exact decide_eq_true (stampText_clean time b hb).2
  have hdrop : (ascii "\x7b" ++ (ascii "\"time_stamp\": " ++ stampText time ++ 44 :: rest)).drop 15
      = stampText time ++ 44 :: rest := by
    rw [List.append_assoc, ← List.append_assoc]
    exact List.drop_append_of_le_length (Nat.le_refl 15)
  unfold renderedStamp
  rw [hdrop, List.takeWhile_append_of_pos hclean, List.takeWhile_cons_of_neg (by decide),
    List.append_nil, hnumeral]

section Way

variable (t : TracedLine) (env : WayEnv) (bootTime : UInt32)

/-- The text a fresh buffer holds when something has been appended to it. -/
theorem fresh_text {s : Bytes} {r : Except Fault (Nat × StringBuffer)}
    (h : Adds (sbInit 256) s 0 r) :
    (do let (_, sb) ← r; cstring sb.string) = .ok s := by
  obtain ⟨sb, rfl, hcontent, hready⟩ := h
  show cstring sb.string = _
  rw [StringBuffer.cstring_eq hready.wf hready.terminated, hcontent]
  rfl

theorem fresh_appendable {n : Nat} (h : n < 2 ^ 32) : Appendable (sbInit 256) n := by
  refine ⟨StringBuffer.wf_init (by omega) (by omega), StringBuffer.terminated_init (by omega), ?_⟩
  rw [(StringBuffer.wf_init (by omega) (by omega)).content_length]
  show 0 + n < 2 ^ 32
  omega

/-- The rendering of an open call of a line is within the sizes a buffer can have. -/
theorem TracedLine.openJson_fits (record : OCallRecord) :
    (openJson record t.line.text.content).length < 2 ^ 32 := by
  have hnumbers := (openNumbers_fit record).2.1
  have hmax : t.line.text.content.length ≤ 2147483647 := (fieldOk_text t.text_ok).2
  have h1 : (ascii "\x7b").length = 1 := rfl
  have h2 : (ascii ", \"filepath\": \"").length = 15 := rfl
  have h3 : (ascii "\"").length = 1 := rfl
  have h4 : (ascii "\x7d").length = 1 := rfl
  unfold openJson
  simp only [List.length_append, h1, h2, h3, h4]
  omega

/-- And so is the one of an exec call, whose strings share the offsets of a record. -/
theorem TracedLine.execJson_fits (record : ECallRecord) :
    (execJson record t.line.cmdName.content t.line.text.content).length < 2 ^ 32 := by
  have hnumbers := (execNumbers_fit record).2.1
  have hfits := t.fits
  have hmax : INT_MAX = 2147483647 := rfl
  have h1 : (ascii "\x7b").length = 1 := rfl
  have h2 : (ascii ", \"cmd\": \"").length = 10 := rfl
  have h3 : (ascii "\"").length = 1 := rfl
  have h4 : (ascii ", \"args\": \"").length = 11 := rfl
  have h5 : (ascii "\x7d").length = 1 := rfl
  unfold RecordFits at hfits
  unfold execJson
  simp only [List.length_append, h1, h2, h3, h4, h5]
  omega

/-- What an open line is rendered as. -/
theorem openWay_eq (hlong : bootTime.toNat + textValue t.sec < 2 ^ 63) :
    ∃ text, openWay env bootTime t.line = .ok text
      ∧ renderedStamp text
        = numeralValue (natText (bootTime.toNat + textValue t.sec) ++
            46 :: natText (textValue t.usec)) := by
  -- the stations of the way, one by one: parsed, shifted, stored, read back, written as text
  obtain ⟨ret, oCall, stamp', hinit, htime, hpath⟩ := t.openInit env.stat
  obtain ⟨time, hshift, hsec, husec⟩ := t.shift bootTime hlong
  have htext : Text t.line.text.content := fieldOk_text t.text_ok
  obtain ⟨record, hrecord⟩ : ∃ record, openRecord env.dispatch env.issuer oCall time = record :=
    ⟨_, rfl⟩
  have hrpath : record.filepath = some t.line.text.content := by
    rw [← hrecord, ← hpath]
    rfl
  have hrtime : record.timeStamp = time := by
    rw [← hrecord]
    rfl
  have hmarshall : Meets (Tolerated (¬ env.dispatch.mem.Total))
      (dbOpenCallMarshall env.dispatch.mem 0 mObjectInit record) _ :=
    dbOpenCallMarshall_meets hrpath htext
  have hdone := dbOpenCallMarshall_granted env.dispatch_total 0 hrpath htext.1
  have hdata := (hmarshall.post hdone).2
  have hunmarshall := dbOpenCallUnmarshall_eq env.junkOpen record htext.1
  have hsame : ({ record with filepath := some t.line.text.content } : OCallRecord) = record := by
    rw [← hrpath]
  rw [hsame] at hunmarshall
  have hroom : Appendable (sbInit 256) ((openJson record t.line.text.content).length + 0) :=
    fresh_appendable (t.openJson_fits record)
  have hjson := fresh_text (openJson_adds env.json_total hroom hrpath htext.1)
  refine ⟨openJson record t.line.text.content, ?_, ?_⟩
  · unfold openWay
    rw [hinit, ok_bind]
    dsimp only
    rw [htime, hshift, ok_bind, hrecord, hdone, ok_bind]
    dsimp only at hdata ⊢
    rw [hdata, hunmarshall, ok_bind]
    exact hjson
  · obtain ⟨rest, hhead⟩ := openJson_head record t.line.text.content
    rw [hhead, hrtime]
    exact renderedStamp_eq hsec husec rest

/-- What an exec line is rendered as. -/
theorem execWay_eq (hlong : bootTime.toNat + textValue t.sec < 2 ^ 63) :
    ∃ text, execWay env bootTime t.line = .ok text
      ∧ renderedStamp text
        = numeralValue (natText (bootTime.toNat + textValue t.sec) ++
            46 :: natText (textValue t.usec)) := by
  obtain ⟨eCall, stamp', hinit, htime, hcmd, hargs⟩ := t.execInit
  obtain ⟨time, hshift, hsec, husec⟩ := t.shift bootTime hlong
  have htcmd : Text t.line.cmdName.content := fieldOk_text t.cmdName_ok
  have htargs : Text t.line.text.content := fieldOk_text t.text_ok
  obtain ⟨record, hrecord⟩ : ∃ record, execRecord env.dispatch eCall time = record := ⟨_, rfl⟩
  have hrcmd : record.cmdName = some t.line.cmdName.content := by
    rw [← hrecord, ← hcmd]
    rfl
  have hrargs : record.args = some t.line.text.content := by
    rw [← hrecord, ← hargs]
    rfl
  have hrtime : record.timeStamp = time := by
    rw [← hrecord]
    rfl
  have hrenv : record.envArgs = some [] := by
    rw [← hrecord]
    rfl
  -- the offsets do not wrap, so nothing is overwritten
  obtain ⟨m, hdone⟩ : ∃ m, dbExecCallMarshall env.dispatch.mem 0 mObjectInit record = .ok (0, m) := by
    have hleg : Legible record t.line.cmdName.content t.line.text.content [] :=
      legible_of_fits t.fits (by decide)
    have hargs := hleg.argsOffset
    have henv := hleg.envOffset
    rcases dbExecCallMarshall_cases env.dispatch_total 0 hrcmd hrargs hrenv
      (by simp [htcmd.1, htargs.1]) with ⟨rest, m, -, -, -, -, hdone, -⟩ | ⟨hneg, -⟩
    · exact ⟨m, hdone⟩
    · omega
  have hmarshall : Meets (Tolerated (¬ env.dispatch.mem.Total))
      (dbExecCallMarshall env.dispatch.mem 0 mObjectInit record) _ :=
    dbExecCallMarshall_meets hrcmd hrargs hrenv htcmd htargs .nil
  have hdata := (hmarshall.post hdone).2.1
  have hunmarshall := dbExecCallUnmarshall_eq env.junk record htcmd htargs .nil t.fits
  obtain ⟨back, hback⟩ : ∃ back, ({ record with
      cmdName := some t.line.cmdName.content, args := some t.line.text.content, envArgs := some []
      parentEcall := env.junk.parentEcall } : ECallRecord) = back := ⟨_, rfl⟩
  rw [hback] at hunmarshall
  have hbcmd : back.cmdName = some t.line.cmdName.content := by rw [← hback]
  have hbargs : back.args = some t.line.text.content := by rw [← hback]
  have hbtime : back.timeStamp = time := by
    rw [← hback]
    exact hrtime
  have hroom : Appendable (sbInit 256)
      ((execJson back t.line.cmdName.content t.line.text.content).length + 0) :=
    fresh_appendable (t.execJson_fits back)
  have hjson := fresh_text (execJson_adds env.json_total hroom hbcmd hbargs htcmd.1 htargs.1)
  refine ⟨execJson back t.line.cmdName.content t.line.text.content, ?_, ?_⟩
  · unfold execWay
    rw [hinit, ok_bind]
    dsimp only
    rw [htime, hshift, ok_bind, hrecord, hdone, ok_bind]
    dsimp only
    rw [hdata, hunmarshall, ok_bind]
    exact hjson
  · obtain ⟨rest, hhead⟩ := execJson_head back t.line.cmdName.content t.line.text.content
    rw [hhead, hbtime]
    exact renderedStamp_eq hsec husec rest

/-- **What a line is rendered as**: the seconds, a point, and the microseconds without the zeros
they began with. -/
theorem way_eq (kind : CallKind) (hlong : bootTime.toNat + textValue t.sec < 2 ^ 63) :
    ∃ text, kind.way env bootTime t.line = .ok text
      ∧ renderedStamp text
        = numeralValue (natText (bootTime.toNat + textValue t.sec) ++
            46 :: natText (textValue t.usec)) := by
  cases kind with
  | openCall => exact openWay_eq t env bootTime hlong
  | execCall => exact execWay_eq t env bootTime hlong

/-- Past the largest `long` nothing is rendered. -/
theorem way_over (kind : CallKind) (hlong : ¬ bootTime.toNat + textValue t.sec < 2 ^ 63) :
    kind.way env bootTime t.line = .error .intOverflow := by
  have hover := t.shift_over bootTime hlong
  cases kind with
  | openCall =>
      obtain ⟨ret, oCall, stamp', hinit, htime, -⟩ := t.openInit env.stat
      show openWay env bootTime t.line = _
      unfold openWay
      rw [hinit, ok_bind]
      dsimp only
      rw [htime, hover]
      rfl
  | execCall =>
      obtain ⟨eCall, stamp', hinit, htime, -⟩ := t.execInit
      show execWay env bootTime t.line = _
      unfold execWay
      rw [hinit, ok_bind]
      dsimp only
      rw [htime, hover]
      rfl

end Way

/-! ## §4. Which time stamps survive. -/

/-- The fraction does not begin with a zero, or it is zero; the sum of seconds is a `long`. -/
def Kept (bootTime : UInt32) (t : TracedLine) : Prop :=
  (t.usec.head? ≠ some 48 ∨ textValue t.usec = 0) ∧ bootTime.toNat + textValue t.sec < 2 ^ 63

theorem renders_iff (kind : CallKind) (env : WayEnv) (bootTime : UInt32) (t : TracedLine) :
    Renders kind env bootTime t ↔ Kept bootTime t := by
  have husec := t.usec_lt
  have hsix := (six_digits t.usec_digits t.six).2
  unfold Renders Kept
  by_cases hlong : bootTime.toNat + textValue t.sec < 2 ^ 63
  · obtain ⟨text, hway, hstamp⟩ := way_eq t env bootTime kind hlong
    have hmillionths := millionths_iff (n := bootTime.toNat + textValue t.sec) husec
    rw [and_iff_left hlong, ← hsix, or_comm, ← hmillionths]
    have hmeant : t.meant bootTime
        = ((bootTime.toNat + textValue t.sec : Nat) : Rat) + textValue t.usec / 10 ^ 6 := by
      unfold TracedLine.meant
      push_cast
      ring
    rw [← hmeant]
    constructor
    · intro h
      obtain ⟨text', hway', hstamp'⟩ := h
      rw [hway] at hway'
      cases hway'
      rw [← hstamp, hstamp']
    · intro h
      exact ⟨text, hway, by rw [hstamp, h]⟩
  · rw [way_over t env bootTime kind hlong]
    constructor
    · intro h
      obtain ⟨text, hway, -⟩ := h
      cases hway
    · intro h
      exact absurd h.2 hlong

/-- The order of the times the tracer meant is the one of `timercmp`. -/
theorem meant_lt_iff (bootTime : UInt32) (t t' : TracedLine) :
    t.meant bootTime < t'.meant bootTime ↔ timercmpLt t.time t'.time = true := by
  have hu := t.usec_lt
  have hu' := t'.usec_lt
  have hscale : t.meant bootTime < t'.meant bootTime
      ↔ textValue t.sec * 10 ^ 6 + textValue t.usec < textValue t'.sec * 10 ^ 6 + textValue t'.usec := by
    unfold TracedLine.meant
    rw [← Nat.cast_lt (α := Rat)]
    push_cast
    constructor
    · intro h
      linarith
    · intro h
      linarith
  rw [hscale]
  unfold timercmpLt
  have hsec : t.time.tvSec = t'.time.tvSec ↔ textValue t.sec = textValue t'.sec := by
    rw [← Int64.toInt_inj, t.time_sec, t'.time_sec, Int.natCast_inj]
  by_cases heq : t.time.tvSec = t'.time.tvSec
  · rw [if_pos heq, decide_eq_true_eq, Int64.lt_iff_toInt_lt, t.time_usec, t'.time_usec]
    have := hsec.mp heq
    omega
  · rw [if_neg heq, decide_eq_true_eq, Int64.lt_iff_toInt_lt, t.time_sec, t'.time_sec]
    have := mt hsec.mpr heq
    omega

/-- **Time stamps survive.**  A time stamp is rendered with its value exactly if its fraction does
not begin with a zero or is zero, and its seconds stay a `long`; and two that survive are rendered
in the order of `timercmp`. -/
theorem stamp_survives_iff (kind kind' : CallKind) (env env' : WayEnv) (bootTime : UInt32)
    (t t' : TracedLine) :
    (Renders kind env bootTime t ↔ Kept bootTime t)
      ∧ (Kept bootTime t ∧ Kept bootTime t' →
          ∃ text text' v v', kind.way env bootTime t.line = .ok text
            ∧ kind'.way env' bootTime t'.line = .ok text' ∧ renderedStamp text = some v
            ∧ renderedStamp text' = some v' ∧ (v < v' ↔ timercmpLt t.time t'.time = true)) := by
  refine ⟨renders_iff kind env bootTime t, fun h => ?_⟩
  obtain ⟨text, hway, hstamp⟩ := (renders_iff kind env bootTime t).mpr h.1
  obtain ⟨text', hway', hstamp'⟩ := (renders_iff kind' env' bootTime t').mpr h.2
  exact ⟨text, text', _, _, hway, hway', hstamp, hstamp', meant_lt_iff bootTime t t'⟩

/-- A field buffer that holds exactly this. -/
def fieldOf (s : Bytes) : StringBuffer :=
  { string := s ++ [0], size := s.length + 1, endPos := s.length, reallocs := 0 }

theorem fieldOf_content (s : Bytes) : (fieldOf s).content = s := List.take_left

theorem fieldOf_ok {s : Bytes} (h : Text s) : FieldOk (fieldOf s) := by
  have hmax : INT_MAX = 2147483647 := rfl
  have hlen := h.2
  refine ⟨⟨by simp [fieldOf], Nat.lt_succ_self _, ?_⟩, ⟨?_, by simp [fieldOf]⟩, hlen⟩
  · show s.length + 1 ≤ 2 ^ 33
    omega
  · rw [fieldOf_content]
    exact h.1

/-- A line of pid 7 with these digits. -/
def TracedLine.sample (sec usec : Bytes) (hs : ∀ b ∈ sec, IsDigit b) (hu : ∀ b ∈ usec, IsDigit b)
    (hsix : usec.length = 6) (hw : textValue sec < 2 ^ 63) (ht : Text (sec ++ DOT :: usec)) :
    TracedLine :=
  { line := ⟨fieldOf (sec ++ DOT :: usec), fieldOf (ascii "cat"), fieldOf (ascii "7"),
      fieldOf (ascii "1"), fieldOf (ascii "/a")⟩
    sec := sec, usec := usec
    stamp_ok := fieldOf_ok ht
    cmdName_ok := fieldOf_ok (by decide)
    pid_ok := fieldOf_ok (by decide)
    other_ok := fieldOf_ok (by decide)
    text_ok := fieldOf_ok (by decide)
    fits := by
      show RecordFits (fieldOf (ascii "cat")).content (fieldOf (ascii "/a")).content
      unfold RecordFits
      decide
    stamp := fieldOf_content _
    sec_digits := hs, usec_digits := hu, six := hsix, within := hw }

def WayEnv.sample : WayEnv :=
  { stat := fun _ => none, dispatch := ⟨fun _ _ => some fun _ => 0, 0, fun _ => []⟩
    issuer := ⟨0, 0, ⟨⟨0, 0⟩, 0, 0⟩, ⟨0, 0⟩, none, none, none⟩
    junk := ⟨0, 0, ⟨⟨0, 0⟩, 0, 0⟩, ⟨0, 0⟩, none, none, none⟩
    junkOpen := ⟨0, ⟨0, 0⟩, ⟨⟨0, 0⟩, 0, 0⟩, none⟩
    json := fun _ _ => some fun _ => 0
    dispatch_total := fun _ _ => rfl
    json_total := fun _ _ => rfl }

/-- The line of `12.050000`. -/
def TracedLine.leadingZero : TracedLine :=
  .sample (ascii "12") (ascii "050000") (by decide +kernel) (by decide +kernel) rfl (by decide)
    (by decide)

/-- The time 12.05 is rendered as 12.50000. -/
theorem leading_zero_lost :
    ¬ Renders .openCall .sample 0 .leadingZero ∧ ¬ Renders .execCall .sample 0 .leadingZero := by
  have hlost : ¬ Kept 0 TracedLine.leadingZero := by
    intro h
    rcases h.1 with hhead | hzero
    · exact hhead rfl
    · exact absurd hzero (by decide)
  exact ⟨fun h => hlost ((renders_iff _ _ _ _).mp h), fun h => hlost ((renders_iff _ _ _ _).mp h)⟩

end DirSurveiller
