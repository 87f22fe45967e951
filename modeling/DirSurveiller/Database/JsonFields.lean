/-
  DirSurveiller.Database.JsonFields — what a record's JSON text says of its fields.

  The strings of a record are written between quotes as they are.  Read by the grammar, the text
  gives the fields back if no byte of them means something else there; a record with other strings is
  read with other values, or not at all.

    * `json_fields_iff` — for which records the text gives the fields back.
-/
import DirSurveiller.Lib.JsonReading
import DirSurveiller.Database.Json

namespace DirSurveiller

open CMachine Outcome Decimal Json

/-! ## §1. The numbers of a record. -/

section Numbers

theorem natText_whole (n : Nat) :
    Digits (natText n) ∧ (natText n = [48] ∨ (natText n).head? ≠ some 48) := by
  refine ⟨⟨natText_ne_nil n, natText_digit n⟩, ?_⟩
  by_cases hn : n = 0
  · left
    rw [hn]
    rfl
  · exact .inr (natText_head hn)

theorem intText_parts (z : Int) : ∃ sign, (sign = [] ∨ sign = [45])
    ∧ intText z = sign ++ natText z.natAbs := by
  unfold intText
  split
  · exact ⟨[45], .inr rfl, rfl⟩
  · exact ⟨[], .inl rfl, rfl⟩

theorem intText_number (z : Int) : IsNumber (intText z) := by
  obtain ⟨sign, hsign, heq⟩ := intText_parts z
  obtain ⟨hdigits, hzero⟩ := natText_whole z.natAbs
  exact ⟨sign, natText z.natAbs, [], [], by simp [heq], hsign, hdigits, hzero, .inl rfl, .inl rfl⟩

theorem unsignedValue_natText (n : Nat) : unsignedValue (natText n) = some (n : Rat) := by
  have hall : ∀ b ∈ natText n, decide (IsDigit b) = true := by
    intro b hb
    exact decide_eq_true (natText_digit n b hb)
  have htake : (natText n).takeWhile (fun b => decide (IsDigit b)) = natText n :=
    List.takeWhile_eq_self_iff.mpr hall
  have hdrop : (natText n).dropWhile (fun b => decide (IsDigit b)) = [] :=
    List.dropWhile_eq_nil_iff.mpr hall
  unfold unsignedValue
  dsimp only
  rw [htake, hdrop, if_neg (natText_ne_nil n), textValue_natText]

/-- **A number is read back.** -/
theorem numeralValue_intText (z : Int) : numeralValue (intText z) = some (z : Rat) := by
  unfold intText
  split
  next hneg =>
    show (unsignedValue (natText z.natAbs)).map (fun v => -v) = _
    rw [unsignedValue_natText, Option.map_some]
    have habs : ((z.natAbs : Int) : Rat) = ((-z : Int) : Rat) := by
      rw [show (z.natAbs : Int) = -z by omega]
    rw [show ((z.natAbs : Nat) : Rat) = ((z.natAbs : Int) : Rat) from rfl, habs]
    simp
  next hpos =>
    have habs : ((z.natAbs : Int) : Rat) = (z : Rat) := by
      rw [show (z.natAbs : Int) = z by omega]
    obtain ⟨b, bs, hbs⟩ := List.exists_cons_of_ne_nil (natText_ne_nil z.natAbs)
    have hb : b ≠ 45 := by
      intro e
      have hdigit := natText_digit z.natAbs b (by rw [hbs]; exact List.mem_cons_self)
      rw [e] at hdigit
      exact absurd hdigit (by decide)
    have hplain : numeralValue (natText z.natAbs) = unsignedValue (natText z.natAbs) := by
      rw [hbs]
      unfold numeralValue
      split
      next rest heq =>
        injection heq with h1
        exact absurd h1 hb
      next => rfl
    rw [hplain, unsignedValue_natText]
    exact congrArg some habs

theorem stampText_eq (t : Timeval) :
    stampText t = intText t.tvSec.toInt ++ 46 :: intText t.tvUsec.toInt := by
  unfold stampText
  rw [List.append_assoc]
  rfl

/-- The bytes of a time stamp. -/
theorem stampText_bytes (t : Timeval) : (∀ b ∈ stampText t, NumberByte b)
    ∧ ∃ b rest, stampText t = b :: rest ∧ (b = 45 ∨ IsDigit b) := by
  rw [stampText_eq]
  constructor
  · intro b hb
    rw [List.mem_append, List.mem_cons] at hb
    rcases hb with hb | rfl | hb
    · exact (intText_number _).bytes b hb
    · decide
    · exact (intText_number _).bytes b hb
  · obtain ⟨b, rest, heq, hb⟩ := (intText_number t.tvSec.toInt).head
    rw [heq]
    exact ⟨b, _, rfl, hb⟩

/-- **A time stamp is a number** if no sign stands behind the point. -/
theorem stampText_number_iff (t : Timeval) : IsNumber (stampText t) ↔ 0 ≤ t.tvUsec.toInt := by
  rw [stampText_eq]
  constructor
  · intro h
    by_contra hneg
    have hsign : intText t.tvUsec.toInt = 45 :: natText t.tvUsec.toInt.natAbs := by
      unfold intText
      rw [if_pos (by omega)]
    have hpoint : (46 : UInt8) ∉ intText t.tvSec.toInt := by
      intro hm
      rcases intText_clean _ _ hm with h46 | h46
      · exact absurd h46 (by decide)
      · exact absurd h46 (by decide)
    rw [hsign] at h
    exact absurd (h.fraction hpoint rfl) (by decide)
  · intro h
    obtain ⟨sign, hsign, heq⟩ := intText_parts t.tvSec.toInt
    obtain ⟨hdigits, hzero⟩ := natText_whole t.tvSec.toInt.natAbs
    have husec : intText t.tvUsec.toInt = natText t.tvUsec.toInt.natAbs := by
      unfold intText
      rw [if_neg (by omega)]
    refine ⟨sign, natText t.tvSec.toInt.natAbs, 46 :: natText t.tvUsec.toInt.natAbs, [], ?_, hsign,
      hdigits, hzero, .inr ⟨_, (natText_whole _).1, rfl⟩, .inl rfl⟩
    rw [heq, husec]
    simp

end Numbers

/-! ## §2. What a text says of a record. -/

/-- Every member with this key has such a value, and there is one. -/
def HasMember (ms : List (Bytes × Value)) (key : Bytes) (P : Value → Prop) : Prop :=
  (∃ k v, (k, v) ∈ ms ∧ Stands k key) ∧ ∀ k v, (k, v) ∈ ms → Stands k key → P v

/-- The value is this number. -/
def IsInt (z : Int) (v : Value) : Prop := ∃ t, v = .number t ∧ numeralValue t = some (z : Rat)

/-- The value is a string that stands for these bytes. -/
def IsText (s : Bytes) (v : Value) : Prop := ∃ t, v = .string t ∧ Stands t s

/-- The text is a JSON object, and any reading of it has such members. -/
def ReadsAs (text : Bytes) (P : List (Bytes × Value) → Prop) : Prop :=
  (∃ v, Derives (.value v) text)
    ∧ ∀ v, Derives (.value v) text → ∃ ms, v = .object ms ∧ P ms

/-- The text gives back the fields of an exec call. -/
def ExecFaithful (eCall : ECallRecord) (cmdName args text : Bytes) : Prop :=
  ReadsAs text fun ms => HasMember ms (ascii "pid") (IsInt eCall.pid.toInt)
    ∧ HasMember ms (ascii "ppid") (IsInt eCall.ppid.toInt)
    ∧ HasMember ms (ascii "cmd") (IsText cmdName) ∧ HasMember ms (ascii "args") (IsText args)

/-- The text gives back the fields of an open call. -/
def OpenFaithful (oCall : OCallRecord) (filepath text : Bytes) : Prop :=
  ReadsAs text fun ms => HasMember ms (ascii "flag") (IsInt oCall.flag.toInt)
    ∧ HasMember ms (ascii "filepath") (IsText filepath)

/-- No control characters; bytes from 128 on are parts of characters. -/
def Printable (s : Bytes) : Prop := ∀ b ∈ s, 32 ≤ b.toNat

/-- Neither a quote nor a backslash. -/
def Unquoted (s : Bytes) : Prop := (34 : UInt8) ∉ s ∧ (92 : UInt8) ∉ s

instance (s : Bytes) : Decidable (Printable s) := List.decidableBAll (fun b : UInt8 => 32 ≤ b.toNat) s

instance (s : Bytes) : Decidable (Unquoted s) := inferInstanceAs (Decidable (_ ∧ _))

section Strings

variable {c s after tail : Bytes}

theorem Unquoted.stands (hs : Unquoted s) (hprint : Printable s) : Stands s s :=
  stands_plain hprint hs.1 hs.2

theorem Unquoted.chars (hs : Unquoted s) (hprint : Printable s) : Chars s :=
  (hs.stands hprint).chars

theorem blank_space : Blank [32] := by simp [Blank, IsBlank]

/-- **A string that stands for what was written** is what was written, unless a backslash at the end
has taken the closing quote with it. -/
theorem stands_written (hs : Stands s c) (heq : c ++ 34 :: tail = s ++ 34 :: after)
    (hover : ∀ more, s = c ++ 34 :: more → more ++ 34 :: after = tail → c.getLast? = some 92 → False) :
    s = c ∧ Unquoted c := by
  obtain ⟨-, hfull⟩ := hs.full
  by_cases hlen : s.length ≤ c.length
  · obtain ⟨rfl, hquote, hback⟩ := hfull hlen
    exact ⟨rfl, hquote, hback⟩
  · exfalso
    -- the quote behind `c` is a part of the string
    obtain ⟨more, hmore⟩ : ∃ more, s = c ++ 34 :: more := by
      rcases List.append_eq_append_iff.mp heq with ⟨mid, hmid, hrest⟩ | ⟨mid, hmid, hrest⟩
      · cases mid with
        | nil =>
            rw [List.append_nil] at hmid
            rw [hmid] at hlen
            exact absurd (Nat.le_refl _) hlen
        | cons b mid =>
            rw [List.cons_append, List.cons.injEq] at hrest
            exact ⟨mid, by rw [hmid, ← hrest.1]⟩
      · rw [hmid, List.length_append] at hlen
        omega
    have htail : more ++ 34 :: after = tail := by
      rw [hmore, List.append_assoc, List.cons_append] at heq
      have hcancel := List.append_cancel_left heq
      rw [List.cons.injEq] at hcancel
      exact hcancel.2.symm
    refine hover more hmore htail ?_
    rcases List.eq_nil_or_concat c with rfl | ⟨front, b, rfl⟩
    · have hchars := hs.chars
      rw [hmore, List.nil_append] at hchars
      cases hchars with
      | plain _ hq _ _ => exact absurd rfl hq
    · have hb : b = 92 := chars_quote hs.chars (u := front) (z := more) (by rw [hmore]; simp)
      rw [hb]
      simp

/-- The last string of a text: behind its closing quote there is no other. -/
theorem stands_last (hs : Stands s c) (heq : c ++ [34] = s ++ 34 :: after) : s = c ∧ Unquoted c := by
  apply stands_written hs heq
  intro more _ hempty _
  exact absurd hempty (by simp)

/-- A string in front of another field: the next quote belongs to that field, behind a space. -/
theorem stands_inner (hs : Stands s c) (heq : c ++ 34 :: 44 :: 32 :: 34 :: tail = s ++ 34 :: after) :
    s = c ∧ Unquoted c := by
  apply stands_written hs heq
  intro more hmore hrest hback
  match more with
  | [] => exact absurd (List.cons.inj hrest).1 (by decide)
  | [a] =>
      simp only [List.cons_append, List.nil_append, List.cons.injEq] at hrest
      exact absurd hrest.2.1 (by decide)
  | [a, b] =>
      -- then the string ends in a space, and what it stands for in a backslash
      simp only [List.cons_append, List.nil_append, List.cons.injEq] at hrest
      have hspace := hs.last_space (by rw [hmore, hrest.2.1]; simp)
      rw [hback] at hspace
      exact absurd (Option.some.inj hspace) (by decide)
  | a :: b :: d :: more =>
      simp only [List.cons_append, List.cons.injEq] at hrest
      have hquote : s = (c ++ [34, a]) ++ b :: 34 :: more := by
        rw [hmore, hrest.2.2.1]
        simp
      have hb := chars_quote hs.chars hquote
      rw [hrest.2.1] at hb
      exact absurd hb (by decide)

end Strings

section Members

variable {ms : List (Bytes × Value)} {key : Bytes} {P : Value → Prop} {v : Value}

/-- A member of that key has such a value. -/
theorem HasMember.at (h : HasMember ms key P) (hkey : Unquoted key) (hprint : Printable key)
    (hv : (key, v) ∈ ms) : P v :=
  h.2 key v hv (hkey.stands hprint)

/-- Where no key has an escape and none is written twice, the member is the one with this key as it
is. -/
theorem hasMember_of (hkeys : ∀ k ∈ ms.map Prod.fst, Unquoted k ∧ Printable k)
    (hnodup : (ms.map Prod.fst).Nodup) (hv : (key, v) ∈ ms) (hP : P v) : HasMember ms key P := by
  obtain ⟨hkey, hprint⟩ := hkeys key (List.mem_map_of_mem hv)
  refine ⟨⟨key, v, hv, hkey.stands hprint⟩, ?_⟩
  intro k v' hmem hstands
  have hsame : key = k := hstands.eq_of_plain (hkeys k (List.mem_map_of_mem hmem)).1.2
  have hmember : (k, v') = (key, v) := List.inj_on_of_nodup_map hnodup hmem hv hsame.symm
  rw [(Prod.mk.inj hmember).2]
  exact hP

theorem HasMember.same_int {z z' : Int} (h : HasMember ms key (IsInt z))
    (h' : HasMember ms key (IsInt z')) : z = z' := by
  obtain ⟨k, v, hmem, hk⟩ := h.1
  obtain ⟨t, rfl, ht⟩ := h.2 k v hmem hk
  obtain ⟨t', heq, ht'⟩ := h'.2 k _ hmem hk
  obtain rfl := Value.number.inj heq
  rw [ht] at ht'
  exact_mod_cast Option.some.inj ht'

theorem HasMember.same_text {s s' : Bytes} (h : HasMember ms key (IsText s))
    (h' : HasMember ms key (IsText s')) : s = s' := by
  obtain ⟨k, v, hmem, hk⟩ := h.1
  obtain ⟨t, rfl, ht⟩ := h.2 k v hmem hk
  obtain ⟨t', heq, ht'⟩ := h'.2 k _ hmem hk
  obtain rfl := Value.string.inj heq
  exact ht.unique ht'

end Members

section Objects

variable {P : List (Bytes × Value) → Prop} {inner : Bytes} {read : List (Bytes × Value)} {b : UInt8}

/-- A text in braces has a reading of its members, and it has what any reading has. -/
theorem ReadsAs.members (hb : ¬ IsBlank b) (h : ReadsAs (123 :: (b :: inner) ++ [125]) P) :
    ∃ ms, Derives (.members ms) (b :: inner) ∧ P ms := by
  obtain ⟨⟨v, hv⟩, hall⟩ := h
  obtain ⟨ms, rfl, hms⟩ := (object_iff hb).mp hv
  obtain ⟨ms', heq, hP⟩ := hall _ hv
  obtain rfl := Value.object.inj heq
  exact ⟨ms, hms, hP⟩

/-- A text in braces whose members are read in one way only. -/
theorem readsAs_of (hb : ¬ IsBlank b) (hread : ∀ ms, Derives (.members ms) (b :: inner) ↔ ms = read)
    (hP : P read) : ReadsAs (123 :: (b :: inner) ++ [125]) P := by
  refine ⟨⟨.object read, (object_iff hb).mpr ⟨read, rfl, (hread read).mpr rfl⟩⟩, ?_⟩
  intro v hv
  obtain ⟨ms, rfl, hms⟩ := (object_iff hb).mp hv
  obtain rfl := (hread ms).mp hms
  exact ⟨ms, rfl, hP⟩

end Objects

/-! ## §3. The text of a record. -/

section Exec

variable {eCall : ECallRecord} {cmdName args : Bytes} {ms : List (Bytes × Value)}

/-- What stands between the braces of an exec call. -/
def execMembers (eCall : ECallRecord) (cmdName args : Bytes) : Bytes :=
  field [] (ascii "time_stamp") (stampText eCall.timeStamp ++ 44 ::
    field [32] (ascii "pid") (intText eCall.pid.toInt ++ 44 ::
      field [32] (ascii "ppid") (intText eCall.ppid.toInt ++ 44 ::
        field [32] (ascii "cmd") (34 :: (cmdName ++ 34 :: 44 ::
          field [32] (ascii "args") (34 :: (args ++ [34])))))))

theorem execJson_eq : execJson eCall cmdName args = 123 :: execMembers eCall cmdName args ++ [125] := by
  have h1 : ascii "\x7b" = [123] := by decide
  have h2 : ascii "\"time_stamp\": " = 34 :: (ascii "time_stamp" ++ [34, 58, 32]) := by decide
  have h3 : ascii ", \"pid\": " = 44 :: 32 :: 34 :: (ascii "pid" ++ [34, 58, 32]) := by decide
  have h4 : ascii ", \"ppid\": " = 44 :: 32 :: 34 :: (ascii "ppid" ++ [34, 58, 32]) := by decide
  have h5 : ascii ", \"cmd\": \"" = 44 :: 32 :: 34 :: (ascii "cmd" ++ [34, 58, 32, 34]) := by decide
  have h6 : ascii ", \"args\": \"" = 44 :: 32 :: 34 :: (ascii "args" ++ [34, 58, 32, 34]) := by
    decide
  have h7 : ascii "\"" = [34] := by decide
  have h8 : ascii "\x7d" = [125] := by decide
  unfold execJson execNumbers execMembers field
  rw [h1, h2, h3, h4, h5, h6, h7, h8]
  simp only [List.append_assoc, List.cons_append, List.nil_append]

/-- The members of an exec call with strings that are read as they are written. -/
def execRead (eCall : ECallRecord) (cmdName args : Bytes) : List (Bytes × Value) :=
  [(ascii "time_stamp", .number (stampText eCall.timeStamp)),
    (ascii "pid", .number (intText eCall.pid.toInt)),
    (ascii "ppid", .number (intText eCall.ppid.toInt)),
    (ascii "cmd", .string cmdName), (ascii "args", .string args)]

/-- The numbers in front of the strings are read in one way. -/
theorem execMembers_numbers : Derives (.members ms) (execMembers eCall cmdName args)
    ↔ ∃ ms', ms = (execRead eCall cmdName args).take 3 ++ ms'
      ∧ 0 ≤ eCall.timeStamp.tvUsec.toInt
      ∧ Derives (.members ms') (field [32] (ascii "cmd") (34 :: (cmdName ++ 34 :: 44 ::
          field [32] (ascii "args") (34 :: (args ++ [34]))))) := by
  have hstampKey : Chars (ascii "time_stamp") := Unquoted.chars (by decide) (by decide)
  have hpidKey : Chars (ascii "pid") := Unquoted.chars (by decide) (by decide)
  have hppidKey : Chars (ascii "ppid") := Unquoted.chars (by decide) (by decide)
  obtain ⟨hbytes, hhead⟩ := stampText_bytes eCall.timeStamp
  unfold execMembers
  rw [members_number (by simp [Blank]) hstampKey hbytes hhead]
  constructor
  · intro h
    obtain ⟨ms1, rfl, hstamp, h⟩ := h
    obtain ⟨ms2, rfl, -, h⟩ := (members_number blank_space hpidKey (intText_number _).bytes
      (intText_number _).head).mp h
    obtain ⟨ms3, rfl, -, h⟩ := (members_number blank_space hppidKey (intText_number _).bytes
      (intText_number _).head).mp h
    exact ⟨ms3, rfl, (stampText_number_iff _).mp hstamp, h⟩
  · intro h
    obtain ⟨ms3, rfl, hstamp, h⟩ := h
    refine ⟨_, rfl, (stampText_number_iff _).mpr hstamp, ?_⟩
    apply (members_number blank_space hpidKey (intText_number _).bytes (intText_number _).head).mpr
    refine ⟨_, rfl, intText_number _, ?_⟩
    apply (members_number blank_space hppidKey (intText_number _).bytes (intText_number _).head).mpr
    exact ⟨ms3, rfl, intText_number _, h⟩

/-- Strings that are read as they are written. -/
theorem execMembers_read (hc : Chars cmdName) (ha : Chars args) :
    Derives (.members ms) (execMembers eCall cmdName args)
      ↔ 0 ≤ eCall.timeStamp.tvUsec.toInt ∧ ms = execRead eCall cmdName args := by
  have hcmd : Chars (ascii "cmd") := Unquoted.chars (by decide) (by decide)
  have hargs : Chars (ascii "args") := Unquoted.chars (by decide) (by decide)
  rw [execMembers_numbers]
  constructor
  · intro h
    obtain ⟨ms', rfl, hstamp, hstrings⟩ := h
    obtain ⟨ms'', rfl, hlast⟩ := (members_string blank_space hcmd hc).mp hstrings
    rw [(members_last blank_space hargs ha).mp hlast]
    exact ⟨hstamp, rfl⟩
  · intro h
    obtain ⟨hstamp, rfl⟩ := h
    refine ⟨_, rfl, hstamp, ?_⟩
    apply (members_string blank_space hcmd hc).mpr
    exact ⟨_, rfl, (members_last blank_space hargs ha).mpr rfl⟩

/-- **The fields of an exec call are given back** exactly if both strings are read as they are
written, and no sign stands within the time stamp. -/
theorem execFaithful_iff (hc : Printable cmdName) (ha : Printable args) :
    ExecFaithful eCall cmdName args (execJson eCall cmdName args)
      ↔ 0 ≤ eCall.timeStamp.tvUsec.toInt ∧ Unquoted cmdName ∧ Unquoted args := by
  have hopen : ¬ IsBlank 34 := by decide
  have hcmdKey : Chars (ascii "cmd") := Unquoted.chars (by decide) (by decide)
  have hargsKey : Chars (ascii "args") := Unquoted.chars (by decide) (by decide)
  unfold ExecFaithful
  rw [execJson_eq]
  constructor
  · intro h
    obtain ⟨ms, hms, -, -, hcmd, hargs⟩ := ReadsAs.members hopen h
    obtain ⟨ms3, rfl, hstamp, hstrings⟩ := execMembers_numbers.mp hms
    -- the string that is read for `cmd`
    obtain ⟨s, after, hs, htext, htail⟩ := members_string_inv hstrings blank_space hcmdKey
    obtain ⟨t, ht, hstands⟩ := hcmd.at (by decide) (by decide)
      (List.mem_append_right _ htail.mem)
    obtain rfl := Value.string.inj ht
    obtain ⟨rfl, hplain⟩ := stands_inner hstands htext
    -- and the one for `args`
    obtain ⟨ms4, rfl, hlast⟩ := (members_string blank_space hcmdKey hs).mp hstrings
    obtain ⟨s', after', hs', htext', htail'⟩ := members_string_inv hlast blank_space hargsKey
    obtain ⟨t', ht', hstands'⟩ := hargs.at (by decide) (by decide)
      (List.mem_append_right _ (List.mem_cons_of_mem _ htail'.mem))
    obtain rfl := Value.string.inj ht'
    obtain ⟨rfl, hplain'⟩ := stands_last hstands' htext'
    exact ⟨hstamp, hplain, hplain'⟩
  · intro h
    obtain ⟨hstamp, hplain, hplain'⟩ := h
    have hstands := hplain.stands hc
    have hstands' := hplain'.stands ha
    have hread : ∀ ms, Derives (.members ms) (execMembers eCall cmdName args)
        ↔ ms = execRead eCall cmdName args := by
      intro ms
      rw [execMembers_read hstands.chars hstands'.chars, and_iff_right hstamp]
    have hkeys : ∀ k ∈ (execRead eCall cmdName args).map Prod.fst, Unquoted k ∧ Printable k := by
      show ∀ k ∈ [ascii "time_stamp", ascii "pid", ascii "ppid", ascii "cmd", ascii "args"], _
      decide
    have hnodup : ((execRead eCall cmdName args).map Prod.fst).Nodup := by
      show [ascii "time_stamp", ascii "pid", ascii "ppid", ascii "cmd", ascii "args"].Nodup
      decide
    refine readsAs_of hopen hread ⟨?_, ?_, ?_, ?_⟩
    · exact hasMember_of hkeys hnodup (by simp [execRead]) ⟨_, rfl, numeralValue_intText _⟩
    · exact hasMember_of hkeys hnodup (by simp [execRead]) ⟨_, rfl, numeralValue_intText _⟩
    · exact hasMember_of hkeys hnodup (by simp [execRead]) ⟨_, rfl, hstands⟩
    · exact hasMember_of hkeys hnodup (by simp [execRead]) ⟨_, rfl, hstands'⟩

end Exec

section Open

variable {oCall : OCallRecord} {filepath : Bytes} {ms : List (Bytes × Value)}

/-- What stands between the braces of an open call. -/
def openMembers (oCall : OCallRecord) (filepath : Bytes) : Bytes :=
  field [] (ascii "time_stamp") (stampText oCall.timeStamp ++ 44 ::
    field [32] (ascii "flag") (intText oCall.flag.toInt ++ 44 ::
      field [32] (ascii "filepath") (34 :: (filepath ++ [34]))))

theorem openJson_eq : openJson oCall filepath = 123 :: openMembers oCall filepath ++ [125] := by
  have h1 : ascii "\x7b" = [123] := by decide
  have h2 : ascii "\"time_stamp\": " = 34 :: (ascii "time_stamp" ++ [34, 58, 32]) := by decide
  have h3 : ascii ", \"flag\": " = 44 :: 32 :: 34 :: (ascii "flag" ++ [34, 58, 32]) := by decide
  have h4 : ascii ", \"filepath\": \"" = 44 :: 32 :: 34 :: (ascii "filepath" ++ [34, 58, 32, 34]) := by
    decide
  have h5 : ascii "\"" = [34] := by decide
  have h6 : ascii "\x7d" = [125] := by decide
  unfold openJson openNumbers openMembers field
  rw [h1, h2, h3, h4, h5, h6]
  simp only [List.append_assoc, List.cons_append, List.nil_append]

/-- The members of an open call whose path is read as it is written. -/
def openRead (oCall : OCallRecord) (filepath : Bytes) : List (Bytes × Value) :=
  [(ascii "time_stamp", .number (stampText oCall.timeStamp)),
    (ascii "flag", .number (intText oCall.flag.toInt)), (ascii "filepath", .string filepath)]

theorem openMembers_numbers : Derives (.members ms) (openMembers oCall filepath)
    ↔ ∃ ms', ms = (openRead oCall filepath).take 2 ++ ms'
      ∧ 0 ≤ oCall.timeStamp.tvUsec.toInt
      ∧ Derives (.members ms') (field [32] (ascii "filepath") (34 :: (filepath ++ [34]))) := by
  have hstampKey : Chars (ascii "time_stamp") := Unquoted.chars (by decide) (by decide)
  have hflagKey : Chars (ascii "flag") := Unquoted.chars (by decide) (by decide)
  obtain ⟨hbytes, hhead⟩ := stampText_bytes oCall.timeStamp
  unfold openMembers
  rw [members_number (by simp [Blank]) hstampKey hbytes hhead]
  constructor
  · intro h
    obtain ⟨ms1, rfl, hstamp, hflag⟩ := h
    obtain ⟨ms2, rfl, -, hpath⟩ := (members_number blank_space hflagKey (intText_number _).bytes
      (intText_number _).head).mp hflag
    exact ⟨ms2, rfl, (stampText_number_iff _).mp hstamp, hpath⟩
  · intro h
    obtain ⟨ms2, rfl, hstamp, hpath⟩ := h
    refine ⟨_, rfl, (stampText_number_iff _).mpr hstamp, ?_⟩
    apply (members_number blank_space hflagKey (intText_number _).bytes (intText_number _).head).mpr
    exact ⟨ms2, rfl, intText_number _, hpath⟩

/-- A path that is read as it is written. -/
theorem openMembers_read (hp : Chars filepath) : Derives (.members ms) (openMembers oCall filepath)
    ↔ 0 ≤ oCall.timeStamp.tvUsec.toInt ∧ ms = openRead oCall filepath := by
  have hkey : Chars (ascii "filepath") := Unquoted.chars (by decide) (by decide)
  rw [openMembers_numbers]
  constructor
  · intro h
    obtain ⟨ms2, rfl, hstamp, hstring⟩ := h
    rw [(members_last blank_space hkey hp).mp hstring]
    exact ⟨hstamp, rfl⟩
  · intro h
    obtain ⟨hstamp, rfl⟩ := h
    exact ⟨_, rfl, hstamp, (members_last blank_space hkey hp).mpr rfl⟩

/-- **The fields of an open call are given back** exactly if the path is read as it is written, and
no sign stands within the time stamp. -/
theorem openFaithful_iff (hp : Printable filepath) :
    OpenFaithful oCall filepath (openJson oCall filepath)
      ↔ 0 ≤ oCall.timeStamp.tvUsec.toInt ∧ Unquoted filepath := by
  have hopen : ¬ IsBlank 34 := by decide
  have hkey : Chars (ascii "filepath") := Unquoted.chars (by decide) (by decide)
  unfold OpenFaithful
  rw [openJson_eq]
  constructor
  · -- the path is the last member: the quote that ends it is the last one of the text
    intro h
    obtain ⟨ms, hms, -, hpath⟩ := ReadsAs.members hopen h
    obtain ⟨ms2, rfl, hstamp, hstring⟩ := openMembers_numbers.mp hms
    obtain ⟨s, after, hs, htext, htail⟩ := members_string_inv hstring blank_space hkey
    obtain ⟨t, ht, hstands⟩ := hpath.at (by decide) (by decide)
      (List.mem_append_right _ htail.mem)
    obtain rfl := Value.string.inj ht
    exact ⟨hstamp, (stands_last hstands htext).2⟩
  · intro h
    obtain ⟨hstamp, hplain⟩ := h
    have hstands := hplain.stands hp
    have hread : ∀ ms, Derives (.members ms) (openMembers oCall filepath)
        ↔ ms = openRead oCall filepath := by
      intro ms
      rw [openMembers_read hstands.chars, and_iff_right hstamp]
    have hkeys : ∀ k ∈ (openRead oCall filepath).map Prod.fst, Unquoted k ∧ Printable k := by
      show ∀ k ∈ [ascii "time_stamp", ascii "flag", ascii "filepath"], _
      decide
    have hnodup : ((openRead oCall filepath).map Prod.fst).Nodup := by
      show [ascii "time_stamp", ascii "flag", ascii "filepath"].Nodup
      decide
    refine readsAs_of hopen hread ⟨?_, ?_⟩
    · exact hasMember_of hkeys hnodup (by simp [openRead]) ⟨_, rfl, numeralValue_intText _⟩
    · exact hasMember_of hkeys hnodup (by simp [openRead]) ⟨_, rfl, hstands⟩

end Open

/-- A text that gives back the fields of two exec calls gives back the same ones. -/
theorem ExecFaithful.same {eCall eCall' : ECallRecord} {cmdName cmdName' args args' text : Bytes}
    (h : ExecFaithful eCall cmdName args text) (h' : ExecFaithful eCall' cmdName' args' text) :
    eCall.pid = eCall'.pid ∧ eCall.ppid = eCall'.ppid ∧ cmdName = cmdName' ∧ args = args' := by
  obtain ⟨v, hv⟩ := h.1
  obtain ⟨ms, rfl, hpid, hppid, hcmd, hargs⟩ := h.2 v hv
  obtain ⟨ms', heq, hpid', hppid', hcmd', hargs'⟩ := h'.2 _ hv
  obtain rfl := Value.object.inj heq
  exact ⟨Int32.toInt_inj.mp (hpid.same_int hpid'), Int32.toInt_inj.mp (hppid.same_int hppid'),
    hcmd.same_text hcmd', hargs.same_text hargs'⟩

theorem OpenFaithful.same {oCall oCall' : OCallRecord} {filepath filepath' text : Bytes}
    (h : OpenFaithful oCall filepath text) (h' : OpenFaithful oCall' filepath' text) :
    oCall.flag = oCall'.flag ∧ filepath = filepath' := by
  obtain ⟨v, hv⟩ := h.1
  obtain ⟨ms, rfl, hflag, hpath⟩ := h.2 v hv
  obtain ⟨ms', heq, hflag', hpath'⟩ := h'.2 _ hv
  obtain rfl := Value.object.inj heq
  exact ⟨Int32.toInt_inj.mp (hflag.same_int hflag'), hpath.same_text hpath'⟩

/-- **JSON fields.**  The text that is appended for a record gives its fields back exactly if its
strings have neither quote nor backslash in them and the microseconds of its time stamp are not
negative; and two such records with the same text agree in these fields. -/
theorem json_fields_iff (mem : Allocator) (hmem : mem.Total) :
    (∀ (this : StringBuffer) (eCall : ECallRecord) (cmdName args : Bytes),
        eCall.cmdName = some cmdName → eCall.args = some args → Printable cmdName → Printable args →
        Appendable this (execJson eCall cmdName args).length →
        ∃ text this', dbExecCallToJsonstringb mem this eCall = .ok (0, this')
          ∧ this'.content = this.content ++ text
          ∧ (ExecFaithful eCall cmdName args text
              ↔ 0 ≤ eCall.timeStamp.tvUsec.toInt ∧ Unquoted cmdName ∧ Unquoted args))
    ∧ (∀ (this : StringBuffer) (oCall : OCallRecord) (filepath : Bytes),
        oCall.filepath = some filepath → Printable filepath →
        Appendable this (openJson oCall filepath).length →
        ∃ text this', dbOpenCallToJsonstringb mem this oCall = .ok (0, this')
          ∧ this'.content = this.content ++ text
          ∧ (OpenFaithful oCall filepath text
              ↔ 0 ≤ oCall.timeStamp.tvUsec.toInt ∧ Unquoted filepath))
    ∧ (∀ (eCall eCall' : ECallRecord) (cmdName cmdName' args args' text : Bytes),
        ExecFaithful eCall cmdName args text → ExecFaithful eCall' cmdName' args' text →
        eCall.pid = eCall'.pid ∧ eCall.ppid = eCall'.ppid ∧ cmdName = cmdName' ∧ args = args')
    ∧ ∀ (oCall oCall' : OCallRecord) (filepath filepath' text : Bytes),
        OpenFaithful oCall filepath text → OpenFaithful oCall' filepath' text →
        oCall.flag = oCall'.flag ∧ filepath = filepath' := by
  have hnul : ∀ {s : Bytes}, Printable s → (0 : UInt8) ∉ s := fun hs hm =>
    absurd (hs 0 hm) (by decide)
  refine ⟨?_, ?_, fun _ _ _ _ _ _ _ h h' => h.same h', fun _ _ _ _ _ h h' => h.same h'⟩
  · intro this eCall cmdName args hcmd hargs hc ha hroom
    have hready : Appendable this ((execJson eCall cmdName args).length + 0) := hroom
    obtain ⟨this', hok, hcontent, -⟩ := execJson_adds hmem hready hcmd hargs (hnul hc) (hnul ha)
    exact ⟨_, this', hok, hcontent, execFaithful_iff hc ha⟩
  · intro this oCall filepath hpath hp hroom
    have hready : Appendable this ((openJson oCall filepath).length + 0) := hroom
    obtain ⟨this', hok, hcontent, -⟩ := openJson_adds hmem hready hpath (hnul hp)
    exact ⟨_, this', hok, hcontent, openFaithful_iff hp⟩

/-- A call with these strings. -/
def stringsCall (cmdName args : Bytes) : ECallRecord :=
  { pid := 42, ppid := 21, parentEcall := ⟨⟨21, 21⟩, 21, 0⟩, timeStamp := ⟨42, 42⟩
    cmdName := some cmdName, args := some args, envArgs := none }

theorem json_fields_sample :
    ∃ text this', dbExecCallToJsonstringb (fun _ _ => some fun _ => 0) (sbInit 128)
        (stringsCall (ascii "answer") (ascii "to everything")) = .ok (0, this')
      ∧ this'.content = (sbInit 128).content ++ text
      ∧ ExecFaithful (stringsCall (ascii "answer") (ascii "to everything")) (ascii "answer")
          (ascii "to everything") text := by
  obtain ⟨hexec, -⟩ := json_fields_iff (fun _ _ => some fun _ => 0) (fun _ _ => rfl)
  obtain ⟨text, this', hok, hcontent, hiff⟩ := hexec (sbInit 128)
    (stringsCall (ascii "answer") (ascii "to everything")) (ascii "answer") (ascii "to everything")
    rfl rfl (by decide) (by decide)
    ⟨StringBuffer.wf_init (by omega) (by omega), StringBuffer.terminated_init (by omega), by decide⟩
  exact ⟨text, this', hok, hcontent, hiff.mpr (by decide)⟩

/-- Two calls with other strings and the same text: a quote in one string imitates the boundary of
the other. -/
theorem json_fields_ambiguous :
    ∃ (cmdName args cmdName' args' text : Bytes) (this' this'' : StringBuffer),
      Printable cmdName ∧ Printable args ∧ Printable cmdName' ∧ Printable args'
      ∧ dbExecCallToJsonstringb (fun _ _ => some fun _ => 0) (sbInit 128) (stringsCall cmdName args)
          = .ok (0, this')
      ∧ dbExecCallToJsonstringb (fun _ _ => some fun _ => 0) (sbInit 128) (stringsCall cmdName' args')
          = .ok (0, this'')
      ∧ this'.content = text ∧ this''.content = text ∧ cmdName ≠ cmdName' ∧ args ≠ args'
      ∧ ¬ ExecFaithful (stringsCall cmdName args) cmdName args text
      ∧ ¬ ExecFaithful (stringsCall cmdName' args') cmdName' args' text := by
  have hmem : Allocator.Total (fun _ _ => some fun _ => 0) := fun _ _ => rfl
  have hadds : ∀ c a : Bytes, (execJson (stringsCall c a) c a).length < 2 ^ 32 → (0 : UInt8) ∉ c →
      (0 : UInt8) ∉ a → Adds (sbInit 128) (execJson (stringsCall c a) c a) 0
        (dbExecCallToJsonstringb (fun _ _ => some fun _ => 0) (sbInit 128) (stringsCall c a)) := by
    intro c a hlen hc ha
    have hready : Appendable (sbInit 128) ((execJson (stringsCall c a) c a).length + 0) :=
      ⟨StringBuffer.wf_init (by omega) (by omega), StringBuffer.terminated_init (by omega), by
        show 0 + (execJson (stringsCall c a) c a).length < 2 ^ 32
        omega⟩
    exact execJson_adds hmem hready rfl rfl hc ha
  -- both give `"cmd": "a", "args": "b", "args": "c"`
  have hsame : execJson (stringsCall (ascii "a") (ascii "b\", \"args\": \"c")) (ascii "a")
        (ascii "b\", \"args\": \"c")
      = execJson (stringsCall (ascii "a\", \"args\": \"b") (ascii "c")) (ascii "a\", \"args\": \"b")
        (ascii "c") := by decide
  obtain ⟨this', hok, hcontent, -⟩ := hadds (ascii "a") (ascii "b\", \"args\": \"c") (by decide)
    (by decide) (by decide)
  obtain ⟨this'', hok', hcontent', -⟩ := hadds (ascii "a\", \"args\": \"b") (ascii "c") (by decide)
    (by decide) (by decide)
  refine ⟨_, _, _, _, _, this', this'', by decide, by decide, by decide, by decide, hok, hok',
    hcontent, ?_, by decide, by decide, ?_, ?_⟩
  · rw [hcontent', hsame]
  · intro h
    exact absurd ((execFaithful_iff (by decide) (by decide)).mp h).2.2 (by decide)
  · intro h
    replace h : ExecFaithful _ _ _ (execJson _ _ _) := hsame ▸ h
    exact absurd ((execFaithful_iff (by decide) (by decide)).mp h).2.1 (by decide)

end DirSurveiller
