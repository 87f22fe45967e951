/-
  DirSurveiller.Lib.Fields — splitting a symbol stream into lines of fields, one symbol at a time.

  Two symbols are special: `sep` ends a field, `eol` ends a line.  A line is delivered as a record
  when it has exactly `n` fields and is dropped otherwise.  `feed` consumes one symbol and `feedAll`
  a list of them, so feeding a stream in pieces is feeding it whole: any program that simulates
  `feed` symbol by symbol cannot depend on where its input is cut.

  Main results:
    * `feedAll_encode`    — the encoding of a record list is delivered record by record,
    * `feedAll_malformed` — a line with the wrong number of fields leaves no trace,
    * `feedAll_cur`       — what is pending is what follows the last special symbol.
-/
import Mathlib.Data.List.DropRight

namespace Fields

variable {β : Type*} [DecidableEq β]

/-! ## §1. The cursor and its step. -/

/-- The line read so far (finished fields and the pending one) and the records delivered. -/
structure Cursor (β : Type*) where
  fields : List (List β)
  cur : List β
  out : List (List (List β))

/-- At the start of a line, with `out` delivered. -/
def lineStart (out : List (List (List β))) : Cursor β := ⟨[], [], out⟩

/-- Consume one symbol. -/
def feed (sep eol : β) (n : Nat) (c : Cursor β) (b : β) : Cursor β :=
  if b = eol then
    lineStart (if c.fields.length + 1 = n then c.out ++ [c.fields ++ [c.cur]] else c.out)
  else if b = sep then { c with fields := c.fields ++ [c.cur], cur := [] }
  else { c with cur := c.cur ++ [b] }

/-- Consume a list of symbols. -/
def feedAll (sep eol : β) (n : Nat) (c : Cursor β) (bs : List β) : Cursor β :=
  bs.foldl (feed sep eol n) c

/-- A record as it stands on the wire: the fields joined by `sep`, ended by `eol`. -/
def encode (sep eol : β) (record : List (List β)) : List β :=
  [sep].intercalate record ++ [eol]

/-- A symbol that is neither special. -/
def Plain (sep eol b : β) : Prop := b ≠ sep ∧ b ≠ eol

instance (sep eol b : β) : Decidable (Plain sep eol b) := by unfold Plain; infer_instance

section Rules

variable {sep eol : β} {n : Nat}

omit [DecidableEq β] in
/-- The symbols of an encoding: the special ones, and those of the fields. -/
theorem mem_encode {record : List (List β)} {b : β} (h : b ∈ encode sep eol record) :
    b = sep ∨ b = eol ∨ ∃ f ∈ record, b ∈ f := by
  have hjoin : ∀ fields : List (List β), b ∈ [sep].intercalate fields →
      b = sep ∨ ∃ f ∈ fields, b ∈ f := by
    intro fields
    induction fields with
    | nil => intro h; simp at h
    | cons f fields ih =>
        intro h
        cases fields with
        | nil => exact Or.inr ⟨f, by simp, by simpa using h⟩
        | cons g fields =>
            rw [List.intercalate_cons_cons, List.mem_append, List.mem_append] at h
            rcases h with (h | h) | h
            · exact Or.inr ⟨f, by simp, h⟩
            · exact Or.inl (List.mem_singleton.mp h)
            · exact (ih h).imp_right fun ⟨x, hx, hb⟩ => ⟨x, List.mem_cons_of_mem f hx, hb⟩
  rcases List.mem_append.mp h with h | h
  · exact (hjoin record h).imp_right Or.inr
  · exact Or.inr (Or.inl (List.mem_singleton.mp h))

@[simp] theorem feedAll_nil (c : Cursor β) : feedAll sep eol n c [] = c := rfl

@[simp] theorem feedAll_cons (c : Cursor β) (b : β) (bs : List β) :
    feedAll sep eol n c (b :: bs) = feedAll sep eol n (feed sep eol n c b) bs := rfl

theorem feedAll_append (c : Cursor β) (as bs : List β) :
    feedAll sep eol n c (as ++ bs) = feedAll sep eol n (feedAll sep eol n c as) bs :=
  List.foldl_append

theorem feed_eol (c : Cursor β) : feed sep eol n c eol
    = lineStart (if c.fields.length + 1 = n then c.out ++ [c.fields ++ [c.cur]] else c.out) := by
  simp [feed]

theorem feed_sep (h : sep ≠ eol) (c : Cursor β) :
    feed sep eol n c sep = { c with fields := c.fields ++ [c.cur], cur := [] } := by
  simp [feed, h]

theorem feed_plain (c : Cursor β) {b : β} (h : Plain sep eol b) :
    feed sep eol n c b = { c with cur := c.cur ++ [b] } := by
  simp [feed, h.1, h.2]

/-- What is finished stays finished. -/
theorem feedAll_out (c : Cursor β) (bs : List β) : c.out <+: (feedAll sep eol n c bs).out := by
  induction bs generalizing c with
  | nil => exact List.prefix_rfl
  | cons b bs ih =>
      refine List.IsPrefix.trans ?_ (ih (feed sep eol n c b))
      unfold feed
      split
      · show c.out <+: if _ then _ else _
        split
        · exact List.prefix_append _ _
        · exact List.prefix_rfl
      · split <;> exact List.prefix_rfl

/-- Plain symbols only lengthen the pending field. -/
theorem feedAll_plain (c : Cursor β) {bs : List β} (h : ∀ b ∈ bs, Plain sep eol b) :
    feedAll sep eol n c bs = { c with cur := c.cur ++ bs } := by
  induction bs generalizing c with
  | nil => simp
  | cons b bs ih =>
      rw [feedAll_cons, feed_plain c (h b (by simp)), ih _ fun x hx => h x (by simp [hx])]
      simp

/-! ## §2. Well-formed and malformed lines. -/

/-- A list of plain fields joined by `sep` is read back field by field. -/
theorem feedAll_intercalate (h : sep ≠ eol) :
    ∀ (record : List (List β)) (done : List (List β)) (out : List (List (List β))),
      record ≠ [] → (∀ f ∈ record, ∀ b ∈ f, Plain sep eol b) →
      ∃ init last, record = init ++ [last] ∧
        feedAll sep eol n ⟨done, [], out⟩ ([sep].intercalate record)
          = ⟨done ++ init, last, out⟩ := by
  intro record
  induction record with
  | nil => intro _ _ hne; exact absurd rfl hne
  | cons f record ih =>
      intro done out _ hplain
      have hf : ∀ b ∈ f, Plain sep eol b := hplain f (by simp)
      cases record with
      | nil =>
          refine ⟨[], f, rfl, ?_⟩
          rw [List.intercalate_singleton, feedAll_plain _ hf]
          simp
      | cons g record =>
          obtain ⟨init, last, heq, hfeed⟩ := ih (done ++ [f]) out (by simp)
            fun x hx => hplain x (by simp only [List.mem_cons] at hx ⊢; exact Or.inr hx)
          refine ⟨f :: init, last, by rw [heq]; rfl, ?_⟩
          rw [List.intercalate_cons_cons, List.append_assoc, feedAll_append, feedAll_plain _ hf,
            feedAll_append]
          simp only [List.nil_append, feedAll_cons, feedAll_nil, feed_sep h]
          rw [hfeed]
          simp

/-- **A record on the wire is delivered**, and the cursor is back at the start of a line. -/
theorem feedAll_encode_one (h : sep ≠ eol) {record : List (List β)} (hlen : record.length = n)
    (hn : 0 < n) (hplain : ∀ f ∈ record, ∀ b ∈ f, Plain sep eol b) (out : List (List (List β))) :
    feedAll sep eol n (lineStart out) (encode sep eol record) = lineStart (out ++ [record]) := by
  have hne : record ≠ [] := by
    rintro rfl
    simp at hlen
    omega
  obtain ⟨init, last, heq, hfeed⟩ := feedAll_intercalate (n := n) h record [] out hne hplain
  have hinit : init.length + 1 = n := by
    rw [← hlen, heq]
    simp
  rw [encode, feedAll_append, lineStart, hfeed]
  simp [feed_eol, hinit, heq]

theorem feedAll_encode (h : sep ≠ eol) (hn : 0 < n) {records : List (List (List β))}
    (hrec : ∀ r ∈ records, r.length = n ∧ ∀ f ∈ r, ∀ b ∈ f, Plain sep eol b)
    (out : List (List (List β))) :
    feedAll sep eol n (lineStart out) (records.map (encode sep eol)).flatten
      = lineStart (out ++ records) := by
  induction records generalizing out with
  | nil => simp
  | cons r records ih =>
      obtain ⟨hlen, hplain⟩ := hrec r (by simp)
      rw [List.map_cons, List.flatten_cons, feedAll_append,
        feedAll_encode_one h hlen hn hplain out, ih (fun x hx => hrec x (by simp [hx]))]
      simp

/-- Within one line the finished fields are counted by the separators. -/
theorem feedAll_fields_length (h : sep ≠ eol) (c : Cursor β) {bs : List β} (hbs : eol ∉ bs) :
    (feedAll sep eol n c bs).fields.length = c.fields.length + bs.count sep
      ∧ (feedAll sep eol n c bs).out = c.out := by
  induction bs generalizing c with
  | nil => simp
  | cons b bs ih =>
      have heol : b ≠ eol := fun e => hbs (by simp [e])
      have hrest : eol ∉ bs := fun hm => hbs (by simp [hm])
      obtain ⟨hlen, hout⟩ := ih (feed sep eol n c b) hrest
      rw [feedAll_cons, hlen, hout]
      by_cases hsep : b = sep
      · subst hsep
        rw [feed_sep h]
        refine ⟨?_, rfl⟩
        simp only [List.length_append, List.length_singleton, List.count_cons_self]
        omega
      · rw [feed_plain c ⟨hsep, heol⟩]
        simp [List.count_cons_of_ne hsep]

/-- **A malformed line leaves no trace.** -/
theorem feedAll_malformed (h : sep ≠ eol) {line : List β} (heol : eol ∉ line)
    (hcount : line.count sep + 1 ≠ n) (out : List (List (List β))) :
    feedAll sep eol n (lineStart out) (line ++ [eol]) = lineStart out := by
  obtain ⟨hlen, hout⟩ := feedAll_fields_length (n := n) h (lineStart out) heol
  rw [feedAll_append, feedAll_cons, feedAll_nil, feed_eol, hlen, hout]
  simp only [lineStart, List.length_nil, Nat.zero_add, if_neg hcount]

/-! ## §3. What is pending. -/

/-- The pending field is what follows the last special symbol. -/
theorem feedAll_cur (c : Cursor β) (hc : ∀ b ∈ c.cur, Plain sep eol b) (bs : List β) :
    (feedAll sep eol n c bs).cur
      = (c.cur ++ bs).rtakeWhile fun b => decide (Plain sep eol b) := by
  induction bs using List.reverseRecOn with
  | nil =>
      rw [List.append_nil, feedAll_nil]
      exact (List.rtakeWhile_eq_self_iff.mpr fun b hb => decide_eq_true (hc b hb)).symm
  | append_singleton bs b ih =>
      rw [feedAll_append, feedAll_cons, feedAll_nil, ← List.append_assoc]
      by_cases hb : Plain sep eol b
      · rw [feed_plain _ hb, List.rtakeWhile_concat_pos _ _ _ (by simpa using hb), ← ih]
      · rw [List.rtakeWhile_concat_neg _ _ _ (by simpa using hb)]
        unfold feed
        split
        · rfl
        · split
          · rfl
          · next h1 h2 => exact absurd ⟨h2, h1⟩ hb

theorem feedAll_cur_plain (c : Cursor β) (hc : ∀ b ∈ c.cur, Plain sep eol b) (bs : List β) :
    ∀ b ∈ (feedAll sep eol n c bs).cur, Plain sep eol b := by
  intro b hb
  rw [feedAll_cur c hc] at hb
  simpa using List.mem_rtakeWhile_imp hb

/-- The finished fields of the line in progress are counted by its separators. -/
theorem feedAll_fields_count (h : sep ≠ eol) (out : List (List (List β))) (bs : List β) :
    (feedAll sep eol n (lineStart out) bs).fields.length
      = (bs.rtakeWhile fun b => decide (b ≠ eol)).count sep := by
  induction bs using List.reverseRecOn with
  | nil => simp [lineStart]
  | append_singleton bs b ih =>
      rw [feedAll_append, feedAll_cons, feedAll_nil]
      by_cases heol : b = eol
      · subst heol
        rw [feed_eol, List.rtakeWhile_concat_neg _ _ _ (by simp)]
        simp [lineStart]
      · rw [List.rtakeWhile_concat_pos _ _ _ (by simpa using heol)]
        by_cases hsep : b = sep
        · subst hsep
          rw [feed_sep heol]
          simp [ih]
        · rw [feed_plain _ ⟨hsep, heol⟩]
          simp [ih, hsep]

/-! ## §4. Conditions along a stream. -/

/-- `Q` holds of the cursor and the symbol whenever a symbol of the list is consumed. -/
def Along (sep eol : β) (n : Nat) (Q : Cursor β → β → Prop) : Cursor β → List β → Prop
  | _, [] => True
  | c, b :: bs => Q c b ∧ Along sep eol n Q (feed sep eol n c b) bs

/-- No line has too many separators so far, and every line ends with all its fields. -/
def Full (sep eol : β) (n : Nat) (c : Cursor β) (b : β) : Prop :=
  (b = eol → c.fields.length + 1 = n) ∧ (b = sep → c.fields.length + 1 < n)

/-- No line has too many separators so far. -/
def Bounded (sep : β) (n : Nat) (c : Cursor β) (b : β) : Prop :=
  b = sep → c.fields.length + 1 < n

theorem Along.mono {Q Q' : Cursor β → β → Prop} (hQ : ∀ c b, Q c b → Q' c b) {bs : List β} :
    ∀ {c : Cursor β}, Along sep eol n Q c bs → Along sep eol n Q' c bs := by
  induction bs with
  | nil => intro c h; exact h
  | cons b bs ih => intro c h; exact ⟨hQ c b h.1, ih h.2⟩

theorem along_append {Q : Cursor β → β → Prop} {as bs : List β} :
    ∀ {c : Cursor β}, Along sep eol n Q c (as ++ bs)
      ↔ Along sep eol n Q c as ∧ Along sep eol n Q (feedAll sep eol n c as) bs := by
  induction as with
  | nil => intro c; simp [Along]
  | cons a as ih =>
      intro c
      simp only [List.cons_append, Along, feedAll_cons, ih, and_assoc]

theorem along_iff {Q : Cursor β → β → Prop} {c : Cursor β} {bs : List β} :
    Along sep eol n Q c bs
      ↔ ∀ pre b post, bs = pre ++ b :: post → Q (feedAll sep eol n c pre) b := by
  constructor
  · rintro h pre b post rfl
    exact (along_append.mp h).2.1
  · intro h
    induction bs generalizing c with
    | nil => trivial
    | cons b bs ih =>
        exact ⟨h [] b bs rfl, ih fun pre x post heq => h (b :: pre) x post (by rw [heq]; rfl)⟩

theorem along_plain {Q : Cursor β → β → Prop} (hQ : ∀ c b, Plain sep eol b → Q c b)
    {bs : List β} (h : ∀ b ∈ bs, Plain sep eol b) (c : Cursor β) : Along sep eol n Q c bs :=
  along_iff.mpr fun pre b post heq => hQ _ b (h b (by simp [heq]))

omit [DecidableEq β] in
theorem full_of_plain (c : Cursor β) (b : β) (h : Plain sep eol b) : Full sep eol n c b :=
  ⟨fun e => absurd e h.2, fun e => absurd e h.1⟩

/-- The encoding of a record is full. -/
theorem along_encode_one (h : sep ≠ eol) :
    ∀ (record : List (List β)) (done : List (List β)) (out : List (List (List β))),
      record ≠ [] → done.length + record.length = n → (∀ f ∈ record, ∀ b ∈ f, Plain sep eol b) →
      Along sep eol n (Full sep eol n) ⟨done, [], out⟩ (encode sep eol record) := by
  intro record
  induction record with
  | nil => intro _ _ hne; exact absurd rfl hne
  | cons f record ih =>
      intro done out _ hlen hplain
      have hf : ∀ b ∈ f, Plain sep eol b := hplain f (by simp)
      cases record with
      | nil =>
          rw [encode, List.intercalate_singleton, along_append, feedAll_plain _ hf]
          refine ⟨along_plain full_of_plain hf _, ⟨fun _ => ?_, fun e => absurd e.symm h⟩, trivial⟩
          simpa using hlen
      | cons g record =>
          have hrest := ih (done ++ [f]) out (by simp) (by simp at hlen ⊢; omega)
            fun x hx => hplain x (by simp only [List.mem_cons] at hx ⊢; exact Or.inr hx)
          rw [encode, List.intercalate_cons_cons, List.append_assoc, List.append_assoc,
            along_append, feedAll_plain _ hf]
          refine ⟨along_plain full_of_plain hf _, ⟨fun e => absurd e h, fun _ => ?_⟩, ?_⟩
          · simp at hlen ⊢
            omega
          · rw [feed_sep h]
            simpa [encode] using hrest

theorem along_encode (h : sep ≠ eol) (hn : 0 < n) {records : List (List (List β))}
    (hrec : ∀ r ∈ records, r.length = n ∧ ∀ f ∈ r, ∀ b ∈ f, Plain sep eol b)
    (out : List (List (List β))) :
    Along sep eol n (Full sep eol n) (lineStart out) (records.map (encode sep eol)).flatten := by
  induction records generalizing out with
  | nil => trivial
  | cons r records ih =>
      obtain ⟨hlen, hplain⟩ := hrec r (by simp)
      have hne : r ≠ [] := by
        rintro rfl
        simp at hlen
        omega
      rw [List.map_cons, List.flatten_cons, along_append, feedAll_encode_one h hlen hn hplain out]
      exact ⟨along_encode_one h r [] out hne (by simpa using hlen) hplain,
        ih (fun x hx => hrec x (by simp [hx])) _⟩

/-- A line is full when it has the separators of `n` fields. -/
theorem along_line (h : sep ≠ eol) {line : List β} (heol : eol ∉ line) (out : List (List (List β))) :
    Along sep eol n (Full sep eol n) (lineStart out) (line ++ [eol]) ↔ line.count sep + 1 = n := by
  have hlen : ∀ pre, pre <+: line →
      (feedAll sep eol n (lineStart out) pre).fields.length = pre.count sep := by
    intro pre hpre
    rw [(feedAll_fields_length h _ fun hm => heol (hpre.subset hm)).1]
    simp [lineStart]
  constructor
  · intro hfull
    rw [← hlen line List.prefix_rfl]
    exact (along_iff.mp hfull line eol [] rfl).1 rfl
  · refine fun hcount => along_iff.mpr fun pre b post heq => ?_
    rcases List.eq_nil_or_concat post with rfl | ⟨post, last, rfl⟩
    · -- the end of the line
      obtain ⟨rfl, hb⟩ := List.append_inj' heq rfl
      obtain rfl := List.singleton_inj.mp hb
      rw [Full, hlen line List.prefix_rfl]
      exact ⟨fun _ => hcount, fun e => absurd e.symm h⟩
    · have hline : line = pre ++ b :: post := by
        have heq' : line ++ [eol] = (pre ++ b :: post) ++ [last] := by
          rw [heq]
          simp
        exact (List.append_inj' heq' rfl).1
      rw [Full, hlen pre (hline ▸ List.prefix_append _ _)]
      refine ⟨fun e => absurd (by simp [hline, e] : eol ∈ line) heol, ?_⟩
      rintro rfl
      rw [hline, List.count_append, List.count_cons_self] at hcount
      omega

/-- **Lines are full** when each of them has the separators of `n` fields. -/
theorem along_lines (h : sep ≠ eol) {lines : List (List β)} (heol : ∀ line ∈ lines, eol ∉ line)
    (out : List (List (List β))) :
    Along sep eol n (Full sep eol n) (lineStart out) (lines.map (· ++ [eol])).flatten
      ↔ ∀ line ∈ lines, line.count sep + 1 = n := by
  induction lines generalizing out with
  | nil => simp [Along]
  | cons line lines ih =>
      obtain ⟨out', hout⟩ : ∃ out',
        feedAll sep eol n (lineStart out) (line ++ [eol]) = lineStart out' := by
        rw [feedAll_append, feedAll_cons, feedAll_nil, feed_eol]
        exact ⟨_, rfl⟩
      rw [List.map_cons, List.flatten_cons, along_append, hout, List.forall_mem_cons,
        along_line h (heol line List.mem_cons_self),
        ih (fun l hl => heol l (List.mem_cons_of_mem line hl))]

omit [DecidableEq β] in
/-- A text does not reach over a symbol it does not have. -/
theorem infix_split {w f rest : List β} {b : β} (hb : b ∉ w) (h : w <:+: f ++ b :: rest) :
    w <:+: f ∨ w <:+: rest := by
  obtain ⟨l, r, heq⟩ := h
  rcases List.append_eq_append_iff.mp heq with ⟨a, hf, -⟩ | ⟨a, hlw, hrest⟩
  · exact .inl ⟨l, a, hf.symm⟩
  · cases a with
    | nil => exact .inl ⟨l, [], by rw [hlw, List.append_nil, List.append_nil]⟩
    | cons c a =>
        obtain ⟨rfl, rfl⟩ := List.cons.inj hrest
        rcases List.append_eq_append_iff.mp hlw with ⟨a', -, hw'⟩ | ⟨a', -, hbw⟩
        · exact absurd (by simp [hw'] : b ∈ w) hb
        · cases a' with
          | nil => exact absurd ((show b :: a = w from hbw) ▸ List.mem_cons_self) hb
          | cons c' a' =>
              obtain ⟨-, rfl⟩ := List.cons.inj hbw
              exact .inr ⟨a', r, rfl⟩

omit [DecidableEq β] in
/-- A run of plain symbols on the wire lies within a field. -/
theorem infix_encode {w : List β} (hw : ∀ x ∈ w, Plain sep eol x) (hne : w ≠ []) :
    ∀ {records : List (List (List β))}, w <:+: (records.map (encode sep eol)).flatten →
      ∃ r ∈ records, ∃ f ∈ r, w <:+: f := by
  have hsep : sep ∉ w := fun h => (hw sep h).1 rfl
  have heol : eol ∉ w := fun h => (hw eol h).2 rfl
  -- within one record, in front of what follows it
  have hone : ∀ (rest : List β) (record : List (List β)), w <:+: encode sep eol record ++ rest →
      (∃ f ∈ record, w <:+: f) ∨ w <:+: rest := by
    intro rest record
    induction record with
    | nil =>
        intro h
        rcases infix_split (f := []) heol h with h | h
        · exact absurd (List.infix_nil.mp h) hne
        · exact .inr h
    | cons f record ih =>
        intro h
        cases record with
        | nil =>
            rw [encode, List.intercalate_singleton, List.append_assoc] at h
            exact (infix_split heol h).imp_left fun h => ⟨f, List.mem_cons_self, h⟩
        | cons g record =>
            rw [encode, List.intercalate_cons_cons, List.append_assoc, List.append_assoc,
              List.append_assoc] at h
            rcases infix_split hsep h with h | h
            · exact .inl ⟨f, List.mem_cons_self, h⟩
            · rw [← List.append_assoc] at h
              exact (ih h).imp_left fun ⟨x, hx, h⟩ => ⟨x, List.mem_cons_of_mem f hx, h⟩
  intro records
  induction records with
  | nil => exact fun h => absurd (List.infix_nil.mp h) hne
  | cons r records ih =>
      intro h
      rw [List.map_cons, List.flatten_cons] at h
      rcases hone _ r h with ⟨f, hf, h⟩ | h
      · exact ⟨r, List.mem_cons_self, f, hf, h⟩
      · obtain ⟨r', hr', hf⟩ := ih h
        exact ⟨r', List.mem_cons_of_mem r hr', hf⟩

/-- Lines with fewer than `n` separators never have too many. -/
theorem along_bounded (h : sep ≠ eol) {bs : List β}
    (hlines : ∀ line, line <:+: bs → eol ∉ line → line.count sep < n)
    (out : List (List (List β))) :
    Along sep eol n (Bounded sep n) (lineStart out) bs := by
  refine along_iff.mpr fun pre b post heq hb => ?_
  subst hb
  obtain ⟨front, hfront⟩ := List.rtakeWhile_suffix (fun x => decide (x ≠ eol)) pre
  have hline := hlines ((pre.rtakeWhile fun x => decide (x ≠ eol)) ++ [b])
    ⟨front, post, by rw [heq, ← List.append_assoc, hfront]; simp⟩ ?_
  · rw [feedAll_fields_count h]
    simpa using hline
  · rw [List.mem_append, List.mem_singleton, not_or]
    exact ⟨fun hm => by simpa using List.mem_rtakeWhile_imp hm, fun e => h e.symm⟩

end Rules

end Fields
