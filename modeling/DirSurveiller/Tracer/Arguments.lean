/-
  DirSurveiller.Tracer.Arguments — what the script makes of the arguments of an exec.

  The probe of the kernel reads nine pointers: `arg1="ls" arg2="-l" arg3=(fault) …`, a fault for each
  that is not there.  The script takes the faults out and then turns what stands between two
  arguments into a blank; the quote behind the last argument is removed only at the end of the text,
  and the faults leave their blanks behind it.

    * `argsOf_line`        — the text that is printed for a list of arguments,
    * `args_faithful_iff`  — its JSON text gives it back exactly if no pointer was missing.
-/
import DirSurveiller.Database.JsonFields
import DirSurveiller.Lib.History
import DirSurveiller.Tracer.Script

namespace DirSurveiller

open CMachine Awk Fields Decimal Json

/-! ## §1. The line of an exec. -/

/-- The arguments from the `i`-th on, behind an argument that is still open. -/
def argsText : Nat → List Bytes → Bytes
  | _, [] => ascii "\""
  | i, a :: as => ascii "\" arg" ++ natText i ++ ascii "=\"" ++ a ++ argsText (i + 1) as

/-- `m` pointers that could not be read, from the `i`-th on. -/
def faultsText : Nat → Nat → Bytes
  | _, 0 => []
  | i, m + 1 => ascii " arg" ++ natText i ++ ascii "=(fault)" ++ faultsText (i + 1) m

/-- The line of an exec with the arguments `a :: as`, and `m` faults. -/
def execLine (head a : Bytes) (as : List Bytes) (m : Nat) : Bytes :=
  head ++ ascii " arg1=\"" ++ a ++ argsText 2 as ++ faultsText (2 + as.length) m

/-- An argument without quotes or parentheses that does not end like the name of the first one. -/
structure PlainArg (a : Bytes) : Prop where
  quote : (34 : UInt8) ∉ a
  paren : (40 : UInt8) ∉ a
  name : ¬ ascii "arg1=" <:+ a

/-- The beginning of the line, without quotes or faults. -/
structure PlainHead (head : Bytes) : Prop where
  quote : (34 : UInt8) ∉ head
  fault : ¬ ascii "(fault)" <:+: head

/-! ## §2. What does not stand in it. -/

theorem natText_isDigit {n : Nat} : ∀ b ∈ natText n, isDigit b = true := by
  intro b hb
  obtain ⟨hlo, hhi⟩ := natText_digit n b hb
  unfold isDigit
  rw [Bool.and_eq_true, decide_eq_true_iff, decide_eq_true_iff,
    UInt8.le_iff_toNat_le, UInt8.le_iff_toNat_le]
  exact ⟨hlo, hhi⟩

theorem notMem_natText {n : Nat} {b : UInt8} (hb : isDigit b = false) : b ∉ natText n :=
  fun h => absurd (natText_isDigit b h) (by rw [hb]; exact Bool.false_ne_true)

section Absent

variable {a head : Bytes} {as : List Bytes} {i m : Nat}

/-- A byte that is no digit and stands in none of the constant parts. -/
theorem notMem_faultsText {b : UInt8} (hb : b ∉ ascii " arg=(fault)") (hd : isDigit b = false) :
    b ∉ faultsText i m := by
  induction m generalizing i with
  | zero => exact List.not_mem_nil
  | succ m ih =>
      have h1 : b ∉ ascii " arg" := fun h => hb (List.mem_append_left (ascii "=(fault)") h)
      have h2 : b ∉ ascii "=(fault)" := fun h => hb (List.mem_append_right (ascii " arg") h)
      simp only [faultsText, List.mem_append, not_or]
      exact ⟨⟨⟨h1, notMem_natText hd⟩, h2⟩, ih⟩

theorem paren_notMem_argsText (h : ∀ b ∈ as, PlainArg b) : (40 : UInt8) ∉ argsText i as := by
  induction as generalizing i with
  | nil =>
      show (40 : UInt8) ∉ ascii "\""
      decide
  | cons b as ih =>
      obtain ⟨hb, has⟩ := List.forall_mem_cons.mp h
      simp only [argsText, List.mem_append, not_or]
      exact ⟨⟨⟨⟨by decide, notMem_natText (by decide)⟩, by decide⟩, hb.paren⟩, ih has⟩

/-- The name of a later argument is not that of the first one. -/
theorem arg1_not_suffix {u : Bytes} (hi : i ≠ 1) :
    ¬ ascii "arg1=" <:+ u ++ ascii " arg" ++ natText i ++ ascii "=" := by
  rintro ⟨l, hl⟩
  have hl' : (l ++ ascii "arg1") ++ [61] = (u ++ ascii " arg" ++ natText i) ++ [61] := by
    rw [List.append_assoc]
    exact hl
  have hname : (l ++ ascii "ar") ++ 103 :: [49] = (u ++ ascii " ar") ++ 103 :: natText i := by
    have := (List.append_inj' hl' rfl).1
    simp only [List.append_assoc] at this ⊢
    exact this
  obtain ⟨-, hnum⟩ := last_mark hname (by decide) (notMem_natText (by decide))
  have := congrArg textValue hnum
  rw [textValue_natText] at this
  exact hi this.symm

/-- Behind the first argument no argument is opened under its name. -/
theorem no_second_arg1 (ha : PlainArg a) (has : ∀ b ∈ as, PlainArg b) (hi : 2 ≤ i) {rest : Bytes}
    (hrest : (34 : UInt8) ∉ rest) : ¬ ascii "arg1=\"" <:+: a ++ argsText i as ++ rest := by
  have hname : (34 : UInt8) ∉ ascii "arg1=" := by decide
  show ¬ ascii "arg1=" ++ 34 :: [] <:+: _
  induction as generalizing a i with
  | nil =>
      rw [show a ++ argsText i [] ++ rest = a ++ 34 :: rest by rw [List.append_assoc]; rfl,
        infix_mark hname ha.quote]
      rintro (⟨h, -⟩ | h)
      · exact ha.name h
      · exact not_infix_of_mark hrest h
  | cons b as ih =>
      obtain ⟨hb, has⟩ := List.forall_mem_cons.mp has
      have hopen : (34 : UInt8) ∉ ascii " arg" ++ natText i ++ ascii "=" := by
        simp only [List.mem_append, not_or]
        exact ⟨⟨by decide, notMem_natText (by decide)⟩, by decide⟩
      rw [show a ++ argsText i (b :: as) ++ rest
          = a ++ 34 :: ((ascii " arg" ++ natText i ++ ascii "=") ++ 34 ::
              (b ++ argsText (i + 1) as ++ rest)) by
        rw [argsText]
        simp only [List.append_assoc]
        rfl, infix_mark hname ha.quote, infix_mark hname hopen]
      rintro (⟨h, -⟩ | ⟨h, -⟩ | h)
      · exact ha.name h
      · exact arg1_not_suffix (u := []) (by omega) h
      · exact ih hb has (by omega) h

/-- No fault is that of the first argument. -/
theorem no_first_fault {u : Bytes} (hu : (40 : UInt8) ∉ u) (hi : 2 ≤ i) :
    ¬ ascii "arg1=(fault)" <:+: u ++ faultsText i m := by
  have hname : (40 : UInt8) ∉ ascii "arg1=" := by decide
  have hsplit : ascii "arg1=(fault)" = ascii "arg1=" ++ 40 :: ascii "fault)" := rfl
  rw [hsplit]
  induction m generalizing u i with
  | zero =>
      rw [faultsText, List.append_nil]
      exact not_infix_of_mark hu
  | succ m ih =>
      have hopen : (40 : UInt8) ∉ u ++ ascii " arg" ++ natText i ++ ascii "=" := by
        simp only [List.mem_append, not_or]
        exact ⟨⟨⟨hu, by decide⟩, notMem_natText (by decide)⟩, by decide⟩
      rw [show u ++ faultsText i (m + 1) = (u ++ ascii " arg" ++ natText i ++ ascii "=")
          ++ 40 :: (ascii "fault)" ++ faultsText (i + 1) m) by
        rw [faultsText]
        simp only [List.append_assoc]
        rfl, infix_mark hname hopen]
      rintro (⟨h, -⟩ | h)
      · exact arg1_not_suffix (by omega) h
      · exact ih (by decide) (by omega) h

/-- There is a fault on the line iff a pointer could not be read. -/
theorem fault_occurs (hhead : PlainHead head) (ha : PlainArg a) (has : ∀ b ∈ as, PlainArg b) :
    (textPattern (ascii "(fault)")).occurs (execLine head a as m) = true ↔ m ≠ 0 := by
  have htext : (40 : UInt8) ∉ ascii "arg1=\"" ++ a ++ argsText 2 as := by
    simp only [List.mem_append, not_or]
    exact ⟨⟨by decide, ha.paren⟩, paren_notMem_argsText has⟩
  have hline : execLine head a as m
      = head ++ 32 :: ((ascii "arg1=\"" ++ a ++ argsText 2 as) ++ faultsText (2 + as.length) m) := by
    unfold execLine
    simp only [List.append_assoc]
    rfl
  rw [textPattern, text_occurs_iff, hline]
  constructor
  · rintro h rfl
    rcases infix_split (b := 32) (by decide) h with h | h
    · exact hhead.fault h
    · rw [faultsText, List.append_nil] at h
      exact htext (h.subset (by decide))
  · intro hm
    obtain ⟨m, rfl⟩ := Nat.exists_eq_succ_of_ne_zero hm
    rw [faultsText]
    exact ⟨head ++ 32 :: ((ascii "arg1=\"" ++ a ++ argsText 2 as) ++
      (ascii " arg" ++ natText (2 + as.length)
      ++ ascii "=")), faultsText (2 + as.length + 1) m, by simp [ascii]⟩

end Absent

/-! ## §3. The substitutions, one by one. -/

section Substitute

variable {a u s : Bytes} {as : List Bytes} {i m : Nat}

/-- A number between two texts is matched whole. -/
theorem numbered_longest {x y rest : Bytes} {c : UInt8} (hc : isDigit c = false) :
    longest false (literal x ++ .many isDigit :: literal (c :: y)) ((x ++ natText i ++ c :: y) ++ rest)
      = some (x ++ natText i ++ c :: y).length := by
  have htext : (x ++ natText i ++ c :: y) ++ rest = x ++ (natText i ++ ((c :: y) ++ rest)) := by
    simp only [List.append_assoc]
  have hnext : ∀ b r, (c :: y) ++ rest = b :: r → isDigit b = false := by
    intro b r h
    rw [← (List.cons.inj h).1]
    exact hc
  have hnone : ∀ b r, isDigit b = true → longest false (literal (c :: y)) (b :: r) = none := by
    intro b r hb
    rw [← List.append_nil (literal (c :: y))]
    refine longest_literal_none fun ⟨_, h⟩ => ?_
    rw [← (List.cons.inj h).1, hc] at hb
    cases hb
  have htail : longest false (literal (c :: y)) ((c :: y) ++ rest) = some (c :: y).length := by
    rw [← List.append_nil (literal (c :: y)), longest_literal]
    exact congrArg some (Nat.zero_add _)
  rw [htext, longest_literal, longest_run natText_isDigit hnext hnone, htail]
  simp only [Option.map_some, List.length_append]
  congr 1
  omega

/-- The faults leave the blanks before them. -/
theorem argFault_gsub (hu : (40 : UInt8) ∉ u) :
    argFault.gsub [] (u ++ faultsText i m) = u ++ List.replicate m 32 := by
  -- a match is a name without blanks, and a parenthesis
  have hmatch : ∀ {r : Bytes} {n : Nat}, longest argFault.atEnd argFault.items r = some n →
      ∃ x z, r = x ++ 40 :: z ∧ (40 : UInt8) ∉ x ∧ (32 : UInt8) ∉ x := by
    intro r n hn
    obtain ⟨⟨w, rest, rfl, hw, -, -⟩, -⟩ := longest_eq_some.mp hn
    obtain ⟨v, hv, rfl⟩ := mem_words_literal.mp hw
    obtain ⟨ds, y, rfl, hds, hy⟩ := mem_words_many.mp hv
    obtain rfl := mem_words_text.mp hy
    refine ⟨ascii "arg" ++ ds ++ ascii "=", ascii "fault)" ++ rest, by simp [ascii], ?_, ?_⟩
    · simp only [List.mem_append, not_or]
      exact ⟨⟨by decide, fun h => absurd (hds 40 h) (by decide)⟩, by decide⟩
    · simp only [List.mem_append, not_or]
      exact ⟨⟨by decide, fun h => absurd (hds 32 h) (by decide)⟩, by decide⟩
  induction m generalizing u i with
  | zero =>
      refine gsub_keep fun l b r hsplit => Option.eq_none_iff_forall_ne_some.mpr fun n hn => ?_
      obtain ⟨x, z, hx, -, -⟩ := hmatch hn
      refine hu (hsplit ▸ List.mem_append_right l ?_)
      rw [faultsText, List.append_nil] at hx
      rw [hx]
      simp
  | succ m ih =>
      have hname : (40 : UInt8) ∉ ascii "arg" ++ natText i ++ ascii "=" := by
        simp only [List.mem_append, not_or]
        exact ⟨⟨by decide, notMem_natText (by decide)⟩, by decide⟩
      have htext : u ++ faultsText i (m + 1)
          = (u ++ [32]) ++ ((ascii "arg" ++ natText i ++ ascii "=(fault)") ++
              ([] ++ faultsText (i + 1) m)) := by
        rw [faultsText]
        simp [ascii]
      have hkeep : ∀ l b r, u ++ [32] = l ++ b :: r → longest argFault.atEnd argFault.items
          (b :: (r ++ ((ascii "arg" ++ natText i ++ ascii "=(fault)") ++
            ([] ++ faultsText (i + 1) m)))) = none := by
        intro l b r hsplit
        refine Option.eq_none_iff_forall_ne_some.mpr fun n hn => ?_
        obtain ⟨x, z, hx, hparen, hblank⟩ := hmatch hn
        have hbr : (40 : UInt8) ∉ b :: r := fun h => by
          have : (40 : UInt8) ∈ u ++ [32] := hsplit ▸ List.mem_append_right l h
          rcases List.mem_append.mp this with h | h
          · exact hu h
          · exact absurd h (by decide)
        have hx' : (b :: r ++ (ascii "arg" ++ natText i ++ ascii "=")) ++
            40 :: (ascii "fault)" ++ faultsText (i + 1) m)
            = x ++ 40 :: z := by
          rw [← hx]
          simp [ascii]
        obtain ⟨rfl, -⟩ := first_mark hx' (by
          rw [List.mem_append, not_or]
          exact ⟨hbr, hname⟩) hparen
        -- the blank before the name would be in the match
        have hlast : (32 : UInt8) ∈ b :: r := by
          rcases History.concat_eq_split.mp hsplit with ⟨-, rfl, -⟩ | ⟨r', -, rfl⟩
          · exact List.mem_cons_self
          · simp
        exact hblank (List.mem_append_left _ hlast)
      rw [htext, gsub_keep hkeep, gsub_match (by simp [ascii]) (numbered_longest (by decide)),
        ih List.not_mem_nil]
      simp [List.replicate_succ]

/-- A match of what stands between two arguments begins with a quote and has another one. -/
theorem argBetween_none {b : UInt8} {r : Bytes} (h : b = 34 → (34 : UInt8) ∉ r) :
    longest argBetween.atEnd argBetween.items (b :: r) = none := by
  refine longest_eq_none.mpr (Set.eq_empty_iff_forall_notMem.mpr ?_)
  rintro n ⟨w, rest, hs, hw, -, -⟩
  obtain ⟨v, hv, rfl⟩ := mem_words_literal.mp hw
  obtain ⟨ds, y, rfl, -, hy⟩ := mem_words_many.mp hv
  obtain rfl := mem_words_text.mp hy
  obtain ⟨rfl, rfl⟩ := List.cons.inj (show b :: r
    = 34 :: (ascii " arg" ++ (ds ++ ascii "=\"") ++ rest) from hs)
  exact h rfl (by simp [ascii])

/-- The arguments, each with a blank before it. -/
def blanked (as : List Bytes) : Bytes := as.flatMap fun a => 32 :: a

/-- What stands between two arguments becomes a blank; the last quote stays. -/
theorem argBetween_gsub (ha : PlainArg a) (has : ∀ b ∈ as, PlainArg b) :
    argBetween.gsub (ascii " ") (a ++ (argsText i as ++ List.replicate m 32))
      = a ++ (blanked as ++ 34 :: List.replicate m 32) := by
  have hkeep : ∀ {a t : Bytes}, PlainArg a → argBetween.gsub (ascii " ") (a ++ t)
      = a ++ argBetween.gsub (ascii " ") t := by
    intro a t ha
    refine gsub_keep fun l b r hsplit => argBetween_none fun hb => ?_
    exact absurd (by rw [hsplit, hb]; simp) ha.quote
  induction as generalizing a i with
  | nil =>
      have hend : argBetween.gsub (ascii " ") (34 :: List.replicate m 32 ++ [])
          = 34 :: List.replicate m 32 ++ [] := by
        refine gsub_keep fun l b r hsplit => argBetween_none fun hb hmem => ?_
        have hr : (34 : UInt8) ∈ List.replicate m 32 := by
          cases l with
          | nil =>
              rw [(List.cons.inj hsplit).2]
              simpa using hmem
          | cons c l =>
              rw [(List.cons.inj hsplit).2, hb]
              simp
        exact absurd (List.eq_of_mem_replicate hr) (by decide)
      rw [List.append_nil] at hend
      rw [hkeep ha]
      exact congrArg (a ++ ·) hend
  | cons b as ih =>
      obtain ⟨hb, has⟩ := List.forall_mem_cons.mp has
      have htext : argsText i (b :: as) ++ List.replicate m 32
          = (ascii "\" arg" ++ natText i ++ ascii "=\"") ++ (b ++
              (argsText (i + 1) as ++ List.replicate m 32)) := by
        rw [argsText]
        simp only [List.append_assoc]
      rw [hkeep ha, htext, gsub_match (by simp [ascii]) (numbered_longest (by decide)), ih hb has]
      simp [blanked, ascii]

end Substitute

theorem intercalate_blanked (a : Bytes) (as : List Bytes) :
    [32].intercalate (a :: as) = a ++ blanked as := by
  induction as generalizing a with
  | nil =>
      rw [List.intercalate_singleton]
      exact (List.append_nil a).symm
  | cons b as ih =>
      rw [List.intercalate_cons_cons, ih]
      simp [blanked]

/-! ## §4. The text of the arguments. -/

section Line

variable {head a : Bytes} {as : List Bytes} {m : Nat}

/-- **What is printed for the arguments**: they are joined by blanks; if none was missing the script
tells that there may be more, and if some were, the last quote and a blank for each remain. -/
theorem argsOf_line (hhead : PlainHead head) (ha : PlainArg a) (has : ∀ b ∈ as, PlainArg b)
    (hne : a ≠ []) :
    argsOf (execLine head a as m) = if m = 0 then [32].intercalate (a :: as) ++ ascii " [...]"
      else [32].intercalate (a :: as) ++ 34 :: List.replicate m 32 := by
  have hquote : (34 : UInt8) ∉ faultsText (2 + as.length) m := notMem_faultsText (by decide) (by decide)
  have hlater := no_second_arg1 (i := 2) ha has (Nat.le_refl 2) hquote
  -- the first argument is there, and not empty
  have hempty : (textPattern (ascii "arg1=\"\"")).occurs (execLine head a as m) = false := by
    refine Bool.eq_false_of_not_eq_true fun hocc => ?_
    have hpiece : ascii "arg1=" ++ 34 :: [34] <:+: (head ++ ascii " arg1=")
        ++ 34 :: (a ++ argsText 2 as ++ faultsText (2 + as.length) m) := by
      have h := text_occurs_iff.mp hocc
      unfold execLine at h
      simp only [List.append_assoc] at h ⊢
      exact h
    rcases (infix_mark (by decide) (by
      rw [List.mem_append, not_or]
      exact ⟨hhead.quote, by decide⟩)).mp hpiece with ⟨-, r, hr⟩ | h
    · cases a with
      | nil => exact hne rfl
      | cons b a =>
          obtain ⟨rfl, -⟩ := List.cons.inj hr
          exact ha.quote List.mem_cons_self
    · refine hlater (List.IsInfix.trans ?_ h)
      exact (List.prefix_append (ascii "arg1=\"") [34]).isInfix
  have hfirst : ¬ ascii "arg1=(fault)" <:+: execLine head a as m := by
    have htext : (40 : UInt8) ∉ ascii "arg1=\"" ++ a ++ argsText 2 as := by
      simp only [List.mem_append, not_or]
      exact ⟨⟨by decide, ha.paren⟩, paren_notMem_argsText has⟩
    have hline : execLine head a as m
        = head ++ 32 :: ((ascii "arg1=\"" ++ a ++ argsText 2 as) ++ faultsText (2 + as.length) m) := by
      unfold execLine
      simp only [List.append_assoc]
      rfl
    rw [hline]
    intro h
    rcases infix_split (b := 32) (by decide) h with h | h
    · refine hhead.fault (List.IsInfix.trans ?_ h)
      exact (List.suffix_append (ascii "arg1=") (ascii "(fault)")).isInfix
    · exact no_first_fault htext (by omega) h
  -- the text behind the first name
  have hbehind : (throughPattern (ascii "arg1=\"")).sub [] (execLine head a as m)
      = (a ++ argsText 2 as) ++ faultsText (2 + as.length) m := by
    have hline : execLine head a as m = (head ++ [32]) ++ (ascii "arg1=\""
        ++ (a ++ argsText 2 as ++ faultsText (2 + as.length) m)) := by
      unfold execLine
      simp [ascii]
    rw [hline]
    refine sub_through (fun _ => rfl) (by decide) fun h => ?_
    have h' : ascii "arg1=" ++ 34 :: [] <:+: ascii "rg1="
        ++ 34 :: (a ++ argsText 2 as ++ faultsText (2 + as.length) m) := h
    rcases (infix_mark (by decide) (by decide)).mp h' with ⟨h, -⟩ | h
    · exact absurd h.length_le (by decide)
    · exact hlater h
  have hfaults : argFault.gsub [] ((a ++ argsText 2 as) ++ faultsText (2 + as.length) m)
      = a ++ (argsText 2 as ++ List.replicate m 32) := by
    rw [argFault_gsub (by
      rw [List.mem_append, not_or]
      exact ⟨ha.paren, paren_notMem_argsText has⟩), List.append_assoc]
  have hmissing := fault_occurs (m := m) hhead ha has
  unfold argsOf
  rw [hempty, if_neg Bool.false_ne_true]
  dsimp only
  rw [show (throughPattern (ascii "arg1=(fault)")).sub [] (execLine head a as m) = _ from
    sub_through_absent hfirst, hbehind, hfaults, argBetween_gsub ha has, intercalate_blanked]
  by_cases hm : m = 0
  · subst hm
    rw [if_neg (by rw [hmissing]; exact fun h => h rfl), if_pos rfl]
    have hlast : a ++ (blanked as ++ 34 :: List.replicate 0 32) = (a ++ blanked as) ++ ascii "\"" := by
      simp [ascii]
    rw [hlast, show endQuote.sub [] _ = a ++ blanked as ++ [] from sub_end, List.append_nil]
  · rw [if_pos (hmissing.mpr hm), if_neg hm]
    have habsent : ¬ ascii "\"" <:+ a ++ (blanked as ++ 34 :: List.replicate m 32) := by
      obtain ⟨m, rfl⟩ := Nat.exists_eq_succ_of_ne_zero hm
      rintro ⟨l, hl⟩
      have hl' : l ++ [34] = (a ++ (blanked as ++ 34 :: List.replicate m 32)) ++ [32] := by
        rw [List.append_assoc, List.append_assoc, List.cons_append, ← List.replicate_succ']
        exact hl
      exact absurd (List.singleton_inj.mp (List.append_inj' hl' rfl).2) (by decide)
    rw [show endQuote.sub [] _ = _ from sub_end_absent habsent, List.append_assoc]

/-- An argument that JSON would write as it is. -/
structure JsonArg (a : Bytes) : Prop extends PlainArg a where
  backslash : (92 : UInt8) ∉ a
  printable : Printable a

/-- The bytes of the joined arguments. -/
theorem mem_joined {b : UInt8} (h : b ∈ [32].intercalate (a :: as)) : b = 32 ∨ ∃ x ∈ a :: as, b ∈ x := by
  rw [intercalate_blanked, List.mem_append] at h
  rcases h with h | h
  · exact .inr ⟨a, List.mem_cons_self, h⟩
  · obtain ⟨x, hx, h⟩ := List.mem_flatMap.mp h
    exact (List.mem_cons.mp h).imp_right fun h => ⟨x, List.mem_cons_of_mem a hx, h⟩

/-- **What is printed for the arguments is given back by the JSON text** of their record exactly if none
of the nine pointers was missing: a quote that the script leaves behind ends the string early. -/
theorem args_faithful_iff {eCall : ECallRecord} {cmdName : Bytes} (hhead : PlainHead head)
    (hargs : ∀ b ∈ a :: as, JsonArg b) (hne : a ≠ []) (hcmd : Printable cmdName)
    (hplain : Unquoted cmdName)
    (hstamp : 0 ≤ eCall.timeStamp.tvUsec.toInt) :
    argsOf (execLine head a as m) = [32].intercalate (a :: as)
        ++ (if m = 0 then ascii " [...]" else 34 :: List.replicate m 32)
      ∧ (ExecFaithful eCall cmdName (argsOf (execLine head a as m))
          (execJson eCall cmdName (argsOf (execLine head a as m))) ↔ m = 0) := by
  obtain ⟨ha, has⟩ := List.forall_mem_cons.mp hargs
  have hline := argsOf_line (m := m) hhead ha.toPlainArg (fun b hb => (has b hb).toPlainArg) hne
  refine ⟨by rw [hline]; split <;> rfl, ?_⟩
  have hprint : Printable ([32].intercalate (a :: as)) := by
    intro b hb
    rcases mem_joined hb with rfl | ⟨x, hx, hb⟩
    · decide
    · exact (hargs x hx).printable b hb
  have hclean : ∀ c ∈ [(34 : UInt8), 92], c ∉ [32].intercalate (a :: as) := by
    intro c hc h
    rcases mem_joined h with rfl | ⟨x, hx, h⟩
    · exact absurd hc (by decide)
    · simp only [List.mem_cons, List.not_mem_nil, or_false] at hc
      rcases hc with rfl | rfl
      · exact (hargs x hx).quote h
      · exact (hargs x hx).backslash h
  rw [hline]
  split
  · next hm =>
      have hall : Printable ([32].intercalate (a :: as) ++ ascii " [...]") := by
        intro b hb
        rcases List.mem_append.mp hb with hb | hb
        · exact hprint b hb
        · exact (by decide : Printable (ascii " [...]")) b hb
      rw [execFaithful_iff hcmd hall]
      refine iff_of_true ⟨hstamp, hplain, ?_, ?_⟩ hm
      · rw [List.mem_append, not_or]
        exact ⟨hclean 34 (by decide), by decide⟩
      · rw [List.mem_append, not_or]
        exact ⟨hclean 92 (by decide), by decide⟩
  · next hm =>
      have hall : Printable ([32].intercalate (a :: as) ++ 34 :: List.replicate m 32) := by
        intro b hb
        rcases List.mem_append.mp hb with hb | hb
        · exact hprint b hb
        · rcases List.mem_cons.mp hb with rfl | hb
          · decide
          · rw [List.eq_of_mem_replicate hb]
            decide
      rw [execFaithful_iff hcmd hall]
      exact iff_of_false (fun h => h.2.2.1 (by simp)) hm

/-- `ls -l`, and seven pointers that could not be read. -/
theorem args_faithful_sample :
    argsOf (execLine (ascii "ls-7 0 1.0: kx:") (ascii "/bin/ls") [ascii "-l"] 7)
        = ascii "/bin/ls -l\"       "
      ∧ ¬ ExecFaithful (stringsCall (ascii "ls") []) (ascii "ls")
        (argsOf (execLine (ascii "ls-7 0 1.0: kx:") (ascii "/bin/ls") [ascii "-l"] 7))
        (execJson (stringsCall (ascii "ls") []) (ascii "ls")
          (argsOf (execLine (ascii "ls-7 0 1.0: kx:") (ascii "/bin/ls") [ascii "-l"] 7))) := by
  have hargs : ∀ b ∈ [ascii "/bin/ls", ascii "-l"], JsonArg b := by
    refine List.forall_mem_cons.mpr ⟨⟨⟨by decide, by decide, by decide⟩, by decide, by decide⟩, ?_⟩
    exact List.forall_mem_singleton.mpr ⟨⟨by decide, by decide, by decide⟩, by decide, by decide⟩
  have hhead : PlainHead (ascii "ls-7 0 1.0: kx:") := ⟨by decide, by decide⟩
  have hcmd : Printable (ascii "ls") := by decide
  have hstamp : 0 ≤ (stringsCall (ascii "ls") []).timeStamp.tvUsec.toInt := by decide
  obtain ⟨htext, hiff⟩ := args_faithful_iff (m := 7) hhead hargs (by decide) hcmd (by decide) hstamp
  refine ⟨htext.trans (by decide), ?_⟩
  rw [hiff]
  decide

end Line

end DirSurveiller
