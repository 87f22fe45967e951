/-
  DirSurveiller.Lib.Json — the grammar of JSON texts.

  One family of derivations over three nonterminals: values, the elements of an array, the members
  of an object.  Bytes from 128 on are taken as parts of characters.

  What is used of it: the last byte of a value is neither white space nor a comma, so an array never
  ends in a comma, and an array with an element has something between its brackets.
-/
import DirSurveiller.Lib.Decimal

namespace Json

abbrev Text := List UInt8

/-! ## §1. The grammar. -/

/-- What a text stands for; numbers and strings as they are written. -/
inductive Value where
  | null
  | bool (b : Bool)
  | number (text : Text)
  | string (chars : Text)
  | array (elements : List Value)
  | object (members : List (Text × Value))

/-- White space: space, tab, line feed, carriage return. -/
def IsBlank (b : UInt8) : Prop := b = 32 ∨ b = 9 ∨ b = 10 ∨ b = 13

instance (b : UInt8) : Decidable (IsBlank b) := inferInstanceAs (Decidable (_ ∨ _ ∨ _ ∨ _))

def Blank (w : Text) : Prop := ∀ b ∈ w, IsBlank b

instance (w : Text) : Decidable (Blank w) := inferInstanceAs (Decidable (∀ b ∈ w, IsBlank b))

/-- At least one digit. -/
def Digits (ds : Text) : Prop := ds ≠ [] ∧ ∀ b ∈ ds, Decimal.IsDigit b

/-- The part from the point on, if there is one. -/
def Fraction (t : Text) : Prop := t = [] ∨ ∃ ds, Digits ds ∧ t = 46 :: ds

/-- The part from the `e` on, if there is one. -/
def Exponent (t : Text) : Prop :=
  t = [] ∨ ∃ e sign ds, (e = 101 ∨ e = 69) ∧ (sign = [] ∨ sign = [43] ∨ sign = [45])
    ∧ Digits ds ∧ t = e :: sign ++ ds

/-- A number; its whole part begins with a zero only if it is zero. -/
structure IsNumber (t : Text) : Prop where
  parts : ∃ sign whole frac exp, t = sign ++ whole ++ frac ++ exp ∧ (sign = [] ∨ sign = [45])
    ∧ Digits whole ∧ (whole = [48] ∨ whole.head? ≠ some 48) ∧ Fraction frac ∧ Exponent exp

/-- `0`–`9`, `A`–`F`, `a`–`f` -/
def IsHex (b : UInt8) : Prop :=
  Decimal.IsDigit b ∨ (65 ≤ b.toNat ∧ b.toNat ≤ 70) ∨ (97 ≤ b.toNat ∧ b.toNat ≤ 102)

/-- What stands between the quotes of a string. -/
inductive Chars : Text → Prop where
  | nil : Chars []
  | plain {b : UInt8} {t : Text} : 32 ≤ b.toNat → b ≠ 34 → b ≠ 92 → Chars t → Chars (b :: t)
  | escape {b : UInt8} {t : Text} :
      b ∈ ([34, 92, 47, 98, 102, 110, 114, 116] : Text) → Chars t → Chars (92 :: b :: t)
  | code {b₁ b₂ b₃ b₄ : UInt8} {t : Text} : IsHex b₁ → IsHex b₂ → IsHex b₃ → IsHex b₄ → Chars t →
      Chars (92 :: 117 :: b₁ :: b₂ :: b₃ :: b₄ :: t)

inductive Nonterminal where
  | value (v : Value)
  | elements (vs : List Value)
  | members (ms : List (Text × Value))

/-- The productions. -/
inductive Derives : Nonterminal → Text → Prop where
  | null : Derives (.value .null) [110, 117, 108, 108]
  | true : Derives (.value (.bool .true)) [116, 114, 117, 101]
  | false : Derives (.value (.bool .false)) [102, 97, 108, 115, 101]
  | number {t : Text} : IsNumber t → Derives (.value (.number t)) t
  | string {t : Text} : Chars t → Derives (.value (.string t)) (34 :: t ++ [34])
  | emptyArray {w : Text} : Blank w → Derives (.value (.array [])) (91 :: w ++ [93])
  | array {vs : List Value} {t : Text} :
      Derives (.elements vs) t → Derives (.value (.array vs)) (91 :: t ++ [93])
  | emptyObject {w : Text} : Blank w → Derives (.value (.object [])) (123 :: w ++ [125])
  | object {ms : List (Text × Value)} {t : Text} :
      Derives (.members ms) t → Derives (.value (.object ms)) (123 :: t ++ [125])
  | lastElement {w w' t : Text} {v : Value} : Blank w → Derives (.value v) t → Blank w' →
      Derives (.elements [v]) (w ++ t ++ w')
  | element {w w' t rest : Text} {v : Value} {vs : List Value} :
      Blank w → Derives (.value v) t → Blank w' → Derives (.elements vs) rest →
      Derives (.elements (v :: vs)) (w ++ t ++ w' ++ 44 :: rest)
  | lastMember {w₁ w₂ w₃ w₄ k t : Text} {v : Value} :
      Blank w₁ → Blank w₂ → Blank w₃ → Blank w₄ → Chars k → Derives (.value v) t →
      Derives (.members [(k, v)]) (w₁ ++ 34 :: k ++ 34 :: w₂ ++ 58 :: w₃ ++ t ++ w₄)
  | member {w₁ w₂ w₃ w₄ k t rest : Text} {v : Value} {ms : List (Text × Value)} :
      Blank w₁ → Blank w₂ → Blank w₃ → Blank w₄ → Chars k → Derives (.value v) t →
      Derives (.members ms) rest →
      Derives (.members ((k, v) :: ms))
        (w₁ ++ 34 :: k ++ 34 :: w₂ ++ 58 :: w₃ ++ t ++ w₄ ++ 44 :: rest)

/-- The whole text is one value, with white space around it. -/
def Document (v : Value) (text : Text) : Prop :=
  ∃ w t w', Blank w ∧ Derives (.value v) t ∧ Blank w' ∧ text = w ++ t ++ w'

/-! ## §2. How a value ends. -/

/-- `t` ends in `b`, but for white space. -/
def EndsIn (t : Text) (b : UInt8) : Prop := ∃ front w, t = front ++ b :: w ∧ Blank w

section Ends

variable {t u w w' : Text} {b b' : UInt8}

theorem EndsIn.append (h : EndsIn t b) (hw : Blank w) (u : Text) : EndsIn (u ++ t ++ w) b := by
  obtain ⟨front, v, rfl, hv⟩ := h
  refine ⟨u ++ front, v ++ w, by simp, ?_⟩
  intro x hx
  rcases List.mem_append.mp hx with hx | hx
  · exact hv x hx
  · exact hw x hx

/-- What stands in front of the last byte that is not blank. -/
theorem split_last (hb : ¬ IsBlank b) (hb' : ¬ IsBlank b') (hw : Blank w) (hw' : Blank w')
    (h : t ++ b :: w = u ++ b' :: w') : t = u ∧ b = b' := by
  have hskip : ∀ (x v : Text) (c : UInt8), ¬ IsBlank c → Blank v →
      (x ++ c :: v).reverse.dropWhile (fun a => decide (IsBlank a)) = c :: x.reverse := by
    intro x v c hc hv
    have hrev : (x ++ c :: v).reverse = v.reverse ++ c :: x.reverse := by simp
    rw [hrev, List.dropWhile_append_of_pos]
    · rw [List.dropWhile_cons_of_neg (by simpa using hc)]
    · intro a ha
      simpa using hv a (List.mem_reverse.mp ha)
  have hcons := (hskip t w b hb hw).symm.trans (h ▸ hskip u w' b' hb' hw')
  injection hcons with hbyte hfront
  exact ⟨List.reverse_inj.mp hfront, hbyte⟩

theorem EndsIn.unique (h : EndsIn t b) (h' : EndsIn t b') (hb : ¬ IsBlank b) (hb' : ¬ IsBlank b') :
    b = b' := by
  obtain ⟨front, w, rfl, hw⟩ := h
  obtain ⟨front', w', heq, hw'⟩ := h'
  exact (split_last hb hb' hw hw' heq).2

theorem digit_ends {ds : Text} (h : Digits ds) (u : Text) :
    ∃ b, EndsIn (u ++ ds) b ∧ Decimal.IsDigit b := by
  refine ⟨ds.getLast h.1, ⟨u ++ ds.dropLast, [], ?_, by simp [Blank]⟩,
    h.2 _ (List.getLast_mem h.1)⟩
  rw [List.append_assoc, List.dropLast_concat_getLast]

theorem number_ends (h : IsNumber t) : ∃ b, EndsIn t b ∧ Decimal.IsDigit b := by
  obtain ⟨sign, whole, frac, exp, rfl, -, hwhole, -, hfrac, hexp⟩ := h.parts
  rcases hexp with rfl | ⟨e, s, ds, -, -, hds, rfl⟩
  · rcases hfrac with rfl | ⟨ds, hds, rfl⟩
    · rw [List.append_nil, List.append_nil]
      exact digit_ends hwhole sign
    · have := digit_ends hds (sign ++ whole ++ [46])
      simpa using this
  · have := digit_ends hds (sign ++ whole ++ frac ++ e :: s)
    simpa using this

theorem digit_solid (h : Decimal.IsDigit b) : ¬ IsBlank b ∧ b ≠ 44 := by
  obtain ⟨hlow, hhigh⟩ := h
  refine ⟨?_, fun e => by subst e; exact absurd hlow (by decide)⟩
  intro hb
  rcases hb with rfl | rfl | rfl | rfl <;> exact absurd hlow (by decide)

/-- **The last byte of a value** is neither blank nor a comma. -/
theorem value_ends {v : Value} (h : Derives (.value v) t) :
    ∃ b, EndsIn t b ∧ ¬ IsBlank b ∧ b ≠ 44 := by
  have hnil : Blank [] := by simp [Blank]
  cases h with
  | null => exact ⟨108, ⟨[110, 117, 108], [], rfl, hnil⟩, by decide, by decide⟩
  | true => exact ⟨101, ⟨[116, 114, 117], [], rfl, hnil⟩, by decide, by decide⟩
  | false => exact ⟨101, ⟨[102, 97, 108, 115], [], rfl, hnil⟩, by decide, by decide⟩
  | number h =>
      obtain ⟨b, hb, hdigit⟩ := number_ends h
      exact ⟨b, hb, digit_solid hdigit⟩
  | string h => exact ⟨34, ⟨_, [], rfl, hnil⟩, by decide, by decide⟩
  | emptyArray h => exact ⟨93, ⟨_, [], rfl, hnil⟩, by decide, by decide⟩
  | array h => exact ⟨93, ⟨_, [], rfl, hnil⟩, by decide, by decide⟩
  | emptyObject h => exact ⟨125, ⟨_, [], rfl, hnil⟩, by decide, by decide⟩
  | object h => exact ⟨125, ⟨_, [], rfl, hnil⟩, by decide, by decide⟩

/-- So is the last byte of the elements of an array. -/
theorem elements_end {n : Nonterminal} (h : Derives n t) :
    ∀ {vs : List Value}, n = .elements vs → ∃ b, EndsIn t b ∧ ¬ IsBlank b ∧ b ≠ 44 := by
  induction h with
  | lastElement hw hv hw' =>
      intro vs _
      obtain ⟨b, hb, hsolid⟩ := value_ends hv
      exact ⟨b, hb.append hw' _, hsolid⟩
  | @element w w' t rest v vs hw hv hw' hrest _ ih =>
      intro vs _
      obtain ⟨b, hb, hsolid⟩ := ih rfl
      have := hb.append (w := []) (by simp [Blank]) (w ++ t ++ w' ++ [44])
      exact ⟨b, by simpa using this, hsolid⟩
  | _ =>
      intro vs hn
      cases hn

end Ends

/-! ## §3. Arrays. -/

section Arrays

variable {front w w' : Text} {vs : List Value}

/-- What stands in front of the bracket that ends an array. -/
theorem document_array (h : Document (.array vs) (front ++ 93 :: w)) (hw : Blank w) :
    ∃ lead inner, Blank lead ∧ front = lead ++ 91 :: inner
      ∧ (vs = [] ∧ Blank inner ∨ Derives (.elements vs) inner) := by
  obtain ⟨lead, t, tail, hlead, ht, htail, heq⟩ := h
  have hsplit : ∀ inner : Text, t = 91 :: inner ++ [93] → front = lead ++ 91 :: inner := by
    intro inner hinner
    have hends : front ++ 93 :: w = (lead ++ 91 :: inner) ++ 93 :: tail := by
      rw [heq, hinner]
      simp
    exact (split_last (by decide) (by decide) hw htail hends).1
  cases ht with
  | emptyArray hblank => exact ⟨lead, _, hlead, hsplit _ rfl, .inl ⟨rfl, hblank⟩⟩
  | array helements => exact ⟨lead, _, hlead, hsplit _ rfl, .inr helements⟩

/-- **No array ends in a comma.** -/
theorem no_trailing_comma (hw : Blank w) (hw' : Blank w') :
    ¬ Document (.array vs) (front ++ 44 :: w ++ 93 :: w') := by
  intro h
  obtain ⟨lead, inner, hlead, hfront, hinner⟩ := document_array h hw'
  have hcomma : EndsIn (lead ++ 91 :: inner) 44 := ⟨front, w, hfront.symm, hw⟩
  rcases hinner with ⟨-, hblank⟩ | helements
  · -- nothing but white space behind the opening bracket
    have hopen : EndsIn (lead ++ 91 :: inner) 91 := ⟨lead, inner, rfl, hblank⟩
    exact absurd (hcomma.unique hopen (by decide) (by decide)) (by decide)
  · obtain ⟨b, hb, hblank, hne⟩ := elements_end helements rfl
    have := hb.append (w := []) (by simp [Blank]) (lead ++ [91])
    exact hne (EndsIn.unique (by simpa using this) hcomma hblank (by decide))

/-- An array with an element has more than a bracket in front of its last one. -/
theorem document_array_length (h : Document (.array vs) (front ++ 93 :: w)) (hw : Blank w)
    (hvs : vs ≠ []) : 2 ≤ front.length := by
  obtain ⟨lead, inner, -, hfront, ⟨rfl, -⟩ | helements⟩ := document_array h hw
  · exact absurd rfl hvs
  · obtain ⟨b, ⟨f, v, hinner, -⟩, -⟩ := elements_end helements rfl
    rw [hfront, hinner]
    simp only [List.length_append, List.length_cons]
    omega

theorem document_empty : Document (.array []) [91, 93, 10] :=
  ⟨[], [91, 93], [10], by simp [Blank], .emptyArray (w := []) (by simp [Blank]),
    by simp [Blank, IsBlank], rfl⟩

end Arrays

end Json
