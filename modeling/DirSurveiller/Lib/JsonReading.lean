/-
  DirSurveiller.Lib.JsonReading — a JSON text is read in one way.

  White space, numbers and strings are runs of bytes that end where they must, so the members of an
  object can be taken off its text one by one.  `Stands` says what the characters of a string stand
  for; an escape is longer than what it stands for.
-/
import DirSurveiller.Lib.Json

namespace Json

/-! ## §1. Runs of bytes. -/

section Runs

variable {t u x y : Text} {b c d : UInt8}

/-- A run ends at the first byte of another kind. -/
theorem span_unique {p : UInt8 → Prop} (ht : ∀ b ∈ t, p b) (hc : ¬ p c) (hd : ¬ p d) :
    ∀ {u : Text}, (∀ b ∈ u, p b) → t ++ c :: x = u ++ d :: y → t = u ∧ c = d ∧ x = y := by
  induction t with
  | nil =>
      intro u hu h
      cases u with
      | nil =>
          rw [List.nil_append, List.nil_append, List.cons.injEq] at h
          exact ⟨rfl, h⟩
      | cons a as =>
          rw [List.nil_append, List.cons_append, List.cons.injEq] at h
          exact absurd (hu a List.mem_cons_self) (h.1 ▸ hc)
  | cons b t ih =>
      intro u hu h
      cases u with
      | nil =>
          rw [List.nil_append, List.cons_append, List.cons.injEq] at h
          exact absurd (ht b List.mem_cons_self) (h.1 ▸ hd)
      | cons a as =>
          rw [List.cons_append, List.cons_append, List.cons.injEq] at h
          obtain ⟨htail, hrest⟩ := ih (fun b hb => ht b (List.mem_cons_of_mem _ hb))
            (fun b hb => hu b (List.mem_cons_of_mem _ hb)) h.2
          exact ⟨by rw [h.1, htail], hrest⟩

/-- The bytes a number is written with. -/
def NumberByte (b : UInt8) : Prop :=
  Decimal.IsDigit b ∨ b = 43 ∨ b = 45 ∨ b = 46 ∨ b = 69 ∨ b = 101

instance (b : UInt8) : Decidable (NumberByte b) :=
  inferInstanceAs (Decidable (_ ∨ _ ∨ _ ∨ _ ∨ _ ∨ _))

theorem IsNumber.bytes (h : IsNumber t) : ∀ b ∈ t, NumberByte b := by
  obtain ⟨sign, whole, frac, exp, rfl, hsign, hwhole, -, hfrac, hexp⟩ := h.parts
  have hdigits : ∀ {ds : Text}, Digits ds → ∀ b ∈ ds, NumberByte b := fun hds b hb =>
    .inl (hds.2 b hb)
  have hsignb : ∀ b ∈ sign, NumberByte b := by
    rcases hsign with rfl | rfl <;> simp [NumberByte]
  have hfracb : ∀ b ∈ frac, NumberByte b := by
    rcases hfrac with rfl | ⟨ds, hds, rfl⟩
    · simp
    · intro b hb
      rcases List.mem_cons.mp hb with rfl | hb
      · decide
      · exact hdigits hds b hb
  have hexpb : ∀ b ∈ exp, NumberByte b := by
    rcases hexp with rfl | ⟨e, s, ds, he, hs, hds, rfl⟩
    · simp
    · intro b hb
      rw [List.mem_append, List.mem_cons] at hb
      rcases hb with (rfl | hb) | hb
      · rcases he with rfl | rfl <;> decide
      · rcases hs with rfl | rfl | rfl
        · cases hb
        · rw [List.mem_singleton.mp hb]
          decide
        · rw [List.mem_singleton.mp hb]
          decide
      · exact hdigits hds b hb
  intro b hb
  rw [List.mem_append, List.mem_append, List.mem_append] at hb
  rcases hb with ((hb | hb) | hb) | hb
  · exact hsignb b hb
  · exact hdigits hwhole b hb
  · exact hfracb b hb
  · exact hexpb b hb

/-- **Behind the point of a number** stands a digit. -/
theorem IsNumber.fraction (h : IsNumber t) {u z : Text} (hu : (46 : UInt8) ∉ u)
    (heq : t = u ++ 46 :: c :: z) : Decimal.IsDigit c := by
  obtain ⟨sign, whole, frac, exp, hparts, hsign, hwhole, -, hfrac, hexp⟩ := h.parts
  have hpoint : ∀ {ds : Text}, Digits ds → (46 : UInt8) ∉ ds := fun hds hm =>
    absurd (hds.2 46 hm) (by decide)
  have hfront : (46 : UInt8) ∉ sign ++ whole := by
    rw [List.mem_append, not_or]
    refine ⟨?_, hpoint hwhole⟩
    rcases hsign with rfl | rfl <;> decide
  have hexp46 : (46 : UInt8) ∉ exp := by
    rcases hexp with rfl | ⟨e, s, ds, he, hs, hds, rfl⟩
    · exact List.not_mem_nil
    · rw [List.mem_append, List.mem_cons, not_or, not_or]
      refine ⟨⟨?_, ?_⟩, hpoint hds⟩
      · rcases he with rfl | rfl <;> decide
      · rcases hs with rfl | rfl | rfl <;> decide
  rcases hfrac with rfl | ⟨ds, hds, rfl⟩
  · have hmem : (46 : UInt8) ∈ sign ++ whole ++ [] ++ exp := by
      rw [← hparts, heq]
      simp
    rw [List.append_nil, List.mem_append] at hmem
    exact absurd hmem (not_or.mpr ⟨hfront, hexp46⟩)
  · -- the first point on either side is the same one
    have hsame : (sign ++ whole) ++ 46 :: (ds ++ exp) = u ++ 46 :: (c :: z) := by
      rw [← heq, hparts]
      simp
    have hne : ∀ {l : Text}, (46 : UInt8) ∉ l → ∀ b ∈ l, b ≠ 46 := fun hl b hb e => hl (e ▸ hb)
    obtain ⟨-, -, hrest⟩ := span_unique (p := (· ≠ 46)) (hne hfront) (by simp) (by simp) (hne hu) hsame
    obtain ⟨b, bs, hbs⟩ := List.exists_cons_of_ne_nil hds.1
    rw [hbs, List.cons_append, List.cons.injEq] at hrest
    rw [← hrest.1]
    exact hds.2 b (by rw [hbs]; exact List.mem_cons_self)

/-- A number begins with its sign or a digit. -/
theorem IsNumber.head (h : IsNumber t) : ∃ b rest, t = b :: rest ∧ (b = 45 ∨ Decimal.IsDigit b) := by
  obtain ⟨sign, whole, frac, exp, rfl, hsign, hwhole, -, -, -⟩ := h.parts
  rcases hsign with rfl | rfl
  · obtain ⟨b, bs, hbs⟩ := List.exists_cons_of_ne_nil hwhole.1
    refine ⟨b, bs ++ frac ++ exp, by rw [hbs]; simp, .inr (hwhole.2 b ?_)⟩
    rw [hbs]
    exact List.mem_cons_self
  · exact ⟨45, whole ++ frac ++ exp, by simp, .inl rfl⟩

/-- **A string ends at its first quote** that is not part of an escape. -/
theorem chars_unique {k : Text} (h : Chars k) :
    ∀ {k' : Text}, Chars k' → k ++ 34 :: x = k' ++ 34 :: y → k = k' ∧ x = y := by
  induction h with
  | nil =>
      intro k' h' heq
      cases h' with
      | nil =>
          rw [List.nil_append, List.nil_append, List.cons.injEq] at heq
          exact ⟨rfl, heq.2⟩
      | plain _ hq _ _ =>
          simp only [List.nil_append, List.cons_append, List.cons.injEq] at heq
          exact absurd heq.1.symm hq
      | escape _ _ =>
          simp only [List.nil_append, List.cons_append, List.cons.injEq] at heq
          exact absurd heq.1 (by decide)
      | code _ _ _ _ _ =>
          simp only [List.nil_append, List.cons_append, List.cons.injEq] at heq
          exact absurd heq.1 (by decide)
  | plain _ hq hb _ ih =>
      intro k' h' heq
      cases h' with
      | nil =>
          simp only [List.nil_append, List.cons_append, List.cons.injEq] at heq
          exact absurd heq.1 hq
      | plain _ _ _ ht =>
          simp only [List.cons_append, List.cons.injEq] at heq
          obtain ⟨htail, hrest⟩ := ih ht heq.2
          exact ⟨by rw [heq.1, htail], hrest⟩
      | escape _ _ =>
          simp only [List.cons_append, List.cons.injEq] at heq
          exact absurd heq.1 hb
      | code _ _ _ _ _ =>
          simp only [List.cons_append, List.cons.injEq] at heq
          exact absurd heq.1 hb
  | @escape e t he _ ih =>
      intro k' h' heq
      cases h' with
      | nil =>
          simp only [List.nil_append, List.cons_append, List.cons.injEq] at heq
          exact absurd heq.1 (by decide)
      | plain _ _ hb _ =>
          simp only [List.cons_append, List.cons.injEq] at heq
          exact absurd heq.1.symm hb
      | escape _ ht =>
          simp only [List.cons_append, List.cons.injEq, true_and] at heq
          obtain ⟨htail, hrest⟩ := ih ht heq.2
          exact ⟨by rw [heq.1, htail], hrest⟩
      | code _ _ _ _ _ =>
          -- `u` is the letter of a code, and of no other escape
          simp only [List.cons_append, List.cons.injEq, true_and] at heq
          rw [heq.1] at he
          exact absurd he (by decide)
  | @code b₁ b₂ b₃ b₄ t _ _ _ _ _ ih =>
      intro k' h' heq
      cases h' with
      | nil =>
          simp only [List.nil_append, List.cons_append, List.cons.injEq] at heq
          exact absurd heq.1 (by decide)
      | plain _ _ hb _ =>
          simp only [List.cons_append, List.cons.injEq] at heq
          exact absurd heq.1.symm hb
      | escape he _ =>
          simp only [List.cons_append, List.cons.injEq, true_and] at heq
          rw [← heq.1] at he
          exact absurd he (by decide)
      | code _ _ _ _ ht =>
          simp only [List.cons_append, List.cons.injEq, true_and] at heq
          obtain ⟨h1, h2, h3, h4, hrest⟩ := heq
          obtain ⟨htail, hrest⟩ := ih ht hrest
          exact ⟨by rw [h1, h2, h3, h4, htail], hrest⟩

end Runs

/-! ## §2. What a string stands for. -/

/-- The value of a hexadecimal digit. -/
def hexValue (b : UInt8) : Nat :=
  if b.toNat ≤ 57 then b.toNat - 48 else if b.toNat ≤ 70 then b.toNat - 55 else b.toNat - 87

/-- What four hexadecimal digits stand for. -/
def codeUnit (b₁ b₂ b₃ b₄ : UInt8) : Nat :=
  ((hexValue b₁ * 16 + hexValue b₂) * 16 + hexValue b₃) * 16 + hexValue b₄

def HighSurrogate (n : Nat) : Prop := 0xD800 ≤ n ∧ n < 0xDC00

def LowSurrogate (n : Nat) : Prop := 0xDC00 ≤ n ∧ n < 0xE000

/-- A character in UTF-8. -/
def utf8 (n : Nat) : Text :=
  if n < 0x80 then [UInt8.ofNat n]
  else if n < 0x800 then [UInt8.ofNat (0xC0 + n / 0x40), UInt8.ofNat (0x80 + n % 0x40)]
  else if n < 0x10000 then
    [UInt8.ofNat (0xE0 + n / 0x1000), UInt8.ofNat (0x80 + n / 0x40 % 0x40),
      UInt8.ofNat (0x80 + n % 0x40)]
  else
    [UInt8.ofNat (0xF0 + n / 0x40000), UInt8.ofNat (0x80 + n / 0x1000 % 0x40),
      UInt8.ofNat (0x80 + n / 0x40 % 0x40), UInt8.ofNat (0x80 + n % 0x40)]

/-- What the letter of an escape stands for. -/
def escaped (b : UInt8) : UInt8 :=
  if b = 98 then 8 else if b = 102 then 12 else if b = 110 then 10 else if b = 114 then 13
  else if b = 116 then 9 else b

/-- The bytes that the characters of a string stand for; half of a pair stands for nothing. -/
inductive Stands : Text → Text → Prop
  | nil : Stands [] []
  | plain {b : UInt8} {t s : Text} : 32 ≤ b.toNat → b ≠ 34 → b ≠ 92 → Stands t s →
      Stands (b :: t) (b :: s)
  | escape {b : UInt8} {t s : Text} : b ∈ ([34, 92, 47, 98, 102, 110, 114, 116] : Text) →
      Stands t s → Stands (92 :: b :: t) (escaped b :: s)
  | code {b₁ b₂ b₃ b₄ : UInt8} {t s : Text} : IsHex b₁ → IsHex b₂ → IsHex b₃ → IsHex b₄ →
      ¬ HighSurrogate (codeUnit b₁ b₂ b₃ b₄) → ¬ LowSurrogate (codeUnit b₁ b₂ b₃ b₄) →
      Stands t s → Stands (92 :: 117 :: b₁ :: b₂ :: b₃ :: b₄ :: t) (utf8 (codeUnit b₁ b₂ b₃ b₄) ++ s)
  | pair {b₁ b₂ b₃ b₄ c₁ c₂ c₃ c₄ : UInt8} {t s : Text} :
      IsHex b₁ → IsHex b₂ → IsHex b₃ → IsHex b₄ → IsHex c₁ → IsHex c₂ → IsHex c₃ → IsHex c₄ →
      HighSurrogate (codeUnit b₁ b₂ b₃ b₄) → LowSurrogate (codeUnit c₁ c₂ c₃ c₄) → Stands t s →
      Stands (92 :: 117 :: b₁ :: b₂ :: b₃ :: b₄ :: 92 :: 117 :: c₁ :: c₂ :: c₃ :: c₄ :: t)
        (utf8 (0x10000 + (codeUnit b₁ b₂ b₃ b₄ - 0xD800) * 0x400 + (codeUnit c₁ c₂ c₃ c₄ - 0xDC00))
          ++ s)

section Stands

variable {k s : Text}

theorem utf8_length (n : Nat) : (utf8 n).length ≤ 4 := by
  unfold utf8
  split
  · exact Nat.le_of_ble_eq_true rfl
  · split
    · exact Nat.le_of_ble_eq_true rfl
    · split <;> exact Nat.le_of_ble_eq_true rfl

/-- **Escapes are longer than what they stand for**: a string that stands for as many bytes as it is
written with has none. -/
theorem Stands.full (h : Stands k s) :
    s.length ≤ k.length ∧ (k.length ≤ s.length → k = s ∧ (34 : UInt8) ∉ k ∧ (92 : UInt8) ∉ k) := by
  induction h with
  | nil => exact ⟨Nat.le_refl _, fun _ => ⟨rfl, List.not_mem_nil, List.not_mem_nil⟩⟩
  | plain _ hq hb _ ih =>
      simp only [List.length_cons]
      refine ⟨by omega, fun hle => ?_⟩
      obtain ⟨heq, hquote, hback⟩ := ih.2 (by omega)
      exact ⟨by rw [heq], by simp [hquote, hq.symm], by simp [hback, hb.symm]⟩
  | escape _ _ ih =>
      simp only [List.length_cons]
      exact ⟨by omega, fun hle => by omega⟩
  | @code b₁ b₂ b₃ b₄ t s _ _ _ _ _ _ _ ih =>
      have hutf := utf8_length (codeUnit b₁ b₂ b₃ b₄)
      simp only [List.length_cons, List.length_append]
      exact ⟨by omega, fun hle => by omega⟩
  | @pair b₁ b₂ b₃ b₄ c₁ c₂ c₃ c₄ t s _ _ _ _ _ _ _ _ _ _ _ ih =>
      have hutf := utf8_length (0x10000 + (codeUnit b₁ b₂ b₃ b₄ - 0xD800) * 0x400
        + (codeUnit c₁ c₂ c₃ c₄ - 0xDC00))
      simp only [List.length_cons, List.length_append]
      exact ⟨by omega, fun hle => by omega⟩

/-- A string without escapes stands for itself. -/
theorem stands_plain (hprint : ∀ b ∈ s, 32 ≤ b.toNat) (hquote : (34 : UInt8) ∉ s)
    (hback : (92 : UInt8) ∉ s) : Stands s s := by
  induction s with
  | nil => exact .nil
  | cons b s ih =>
      simp only [List.mem_cons, not_or] at hquote hback
      exact .plain (hprint b List.mem_cons_self) (Ne.symm hquote.1) (Ne.symm hback.1)
        (ih (fun x hx => hprint x (List.mem_cons_of_mem _ hx)) hquote.2 hback.2)

/-- … and for nothing else. -/
theorem Stands.eq_of_plain (h : Stands k s) (hback : (92 : UInt8) ∉ k) : s = k := by
  induction h with
  | nil => rfl
  | plain _ _ _ _ ih =>
      rw [ih fun hm => hback (List.mem_cons_of_mem _ hm)]
  | escape | code | pair => exact absurd List.mem_cons_self hback

/-- **A string stands for one thing.** -/
theorem Stands.unique (h : Stands k s) : ∀ {s' : Text}, Stands k s' → s = s' := by
  have hletter : (117 : UInt8) ∉ ([34, 92, 47, 98, 102, 110, 114, 116] : Text) := by decide
  induction h with
  | nil =>
      intro s' h'
      cases h' with
      | nil => rfl
  | plain _ _ hb _ ih =>
      intro s' h'
      cases h' with
      | plain _ _ _ h' => rw [ih h']
      | escape | code | pair => exact absurd rfl hb
  | escape he _ ih =>
      intro s' h'
      cases h' with
      | plain _ _ hb _ => exact absurd rfl hb
      | escape _ h' => rw [ih h']
      | code | pair => exact absurd he hletter
  | code _ _ _ _ hhigh _ _ ih =>
      intro s' h'
      cases h' with
      | plain _ _ hb _ => exact absurd rfl hb
      | escape he _ => exact absurd he hletter
      | code _ _ _ _ _ _ h' => rw [ih h']
      | pair _ _ _ _ _ _ _ _ hhigh' _ _ => exact absurd hhigh' hhigh
  | pair _ _ _ _ _ _ _ _ hhigh _ _ ih =>
      intro s' h'
      cases h' with
      | plain _ _ hb _ => exact absurd rfl hb
      | escape he _ => exact absurd he hletter
      | code _ _ _ _ hhigh' _ _ => exact absurd hhigh hhigh'
      | pair _ _ _ _ _ _ _ _ _ _ h' => rw [ih h']

/-- A space at the end stands for itself. -/
theorem Stands.last_space (h : Stands k s) (hk : k.getLast? = some 32) : s.getLast? = some 32 := by
  -- in front of what follows an escape stands a byte of it, which is no space
  have hskip : ∀ {t s : Text} {b : UInt8} (u : Text), b ≠ 32 → (b :: t).getLast? = some 32 →
      (t.getLast? = some 32 → s.getLast? = some 32) → (u ++ s).getLast? = some 32 := by
    intro t s b u hb hlast ih
    rw [List.getLast?_cons] at hlast
    cases ht : t.getLast? with
    | none =>
        rw [ht] at hlast
        exact absurd (Option.some.inj hlast) hb
    | some c =>
        rw [ht] at hlast
        rw [List.getLast?_append, ih (by rw [ht]; exact hlast)]
        rfl
  have hhex : ∀ {b : UInt8}, IsHex b → b ≠ 32 := by
    intro b hb e
    subst e
    revert hb
    unfold IsHex Decimal.IsDigit
    decide
  induction h with
  | nil => exact hk
  | @plain b t s _ _ _ hs ih =>
      rw [List.getLast?_cons] at hk ⊢
      cases ht : t.getLast? with
      | none =>
          rw [List.getLast?_eq_none_iff] at ht
          subst ht
          rw [hs.eq_of_plain List.not_mem_nil]
          exact hk
      | some c =>
          rw [ht] at hk
          rw [ih (by rw [ht]; exact hk)]
          rfl
  | @escape b t s he _ ih =>
      rw [List.getLast?_cons_cons] at hk
      have hb : b ≠ 32 := by
        intro e
        subst e
        exact absurd he (by decide)
      exact hskip [escaped b] hb hk ih
  | code _ _ _ h4 _ _ _ ih =>
      simp only [List.getLast?_cons_cons] at hk
      exact hskip _ (hhex h4) hk ih
  | pair _ _ _ _ _ _ _ g4 _ _ _ ih =>
      simp only [List.getLast?_cons_cons] at hk
      exact hskip _ (hhex g4) hk ih

theorem Stands.chars (h : Stands k s) : Chars k := by
  induction h with
  | nil => exact .nil
  | plain h32 hq hb _ ih => exact .plain h32 hq hb ih
  | escape he _ ih => exact .escape he ih
  | code h1 h2 h3 h4 _ _ _ ih => exact .code h1 h2 h3 h4 ih
  | pair h1 h2 h3 h4 g1 g2 g3 g4 _ _ _ ih => exact .code h1 h2 h3 h4 (.code g1 g2 g3 g4 ih)

/-- **A quote within a string** stands behind a backslash. -/
theorem chars_quote (h : Chars k) : ∀ {u z : Text} {b : UInt8}, k = u ++ b :: 34 :: z → b = 92 := by
  have hopen : ∀ {z : Text}, ¬ Chars (34 :: z) := by
    intro z hz
    cases hz with
    | plain _ hq _ _ => exact hq rfl
  have hhex : ¬ IsHex 34 := by
    unfold IsHex Decimal.IsDigit
    decide
  induction h with
  | nil =>
      intro u z b heq
      simp at heq
  | plain _ _ _ ht ih =>
      intro u z b heq
      cases u with
      | nil =>
          simp only [List.nil_append, List.cons.injEq] at heq
          exact absurd (heq.2 ▸ ht) hopen
      | cons a u =>
          simp only [List.cons_append, List.cons.injEq] at heq
          exact ih heq.2
  | escape _ ht ih =>
      intro u z b heq
      match u with
      | [] =>
          simp only [List.nil_append, List.cons.injEq] at heq
          exact heq.1.symm
      | [a] =>
          simp only [List.cons_append, List.nil_append, List.cons.injEq] at heq
          exact absurd (heq.2.2 ▸ ht) hopen
      | a :: a' :: u =>
          simp only [List.cons_append, List.cons.injEq] at heq
          exact ih heq.2.2
  | code h1 h2 h3 h4 ht ih =>
      intro u z b heq
      match u with
      | [] =>
          simp only [List.nil_append, List.cons.injEq] at heq
          exact heq.1.symm
      | [_] =>
          simp only [List.cons_append, List.nil_append, List.cons.injEq] at heq
          exact absurd (heq.2.2.1 ▸ h1) hhex
      | [_, _] =>
          simp only [List.cons_append, List.nil_append, List.cons.injEq] at heq
          exact absurd (heq.2.2.2.1 ▸ h2) hhex
      | [_, _, _] =>
          simp only [List.cons_append, List.nil_append, List.cons.injEq] at heq
          exact absurd (heq.2.2.2.2.1 ▸ h3) hhex
      | [_, _, _, _] =>
          simp only [List.cons_append, List.nil_append, List.cons.injEq] at heq
          exact absurd (heq.2.2.2.2.2.1 ▸ h4) hhex
      | [_, _, _, _, _] =>
          simp only [List.cons_append, List.nil_append, List.cons.injEq] at heq
          exact absurd (heq.2.2.2.2.2.2 ▸ ht) hopen
      | _ :: _ :: _ :: _ :: _ :: _ :: u =>
          simp only [List.cons_append, List.cons.injEq] at heq
          exact ih heq.2.2.2.2.2.2

end Stands

/-! ## §3. The members of an object, one by one. -/

section Members

variable {ms : List (Text × Value)} {w k s t rest value : Text} {v : Value} {b : UInt8}

/-- A value begins with a byte that is not blank. -/
theorem value_begins (h : Derives (.value v) t) : ∃ b rest, t = b :: rest ∧ ¬ IsBlank b := by
  cases h with
  | null | true | false => exact ⟨_, _, rfl, by decide⟩
  | number h =>
      obtain ⟨b, rest, rfl, hb⟩ := h.head
      refine ⟨b, rest, rfl, ?_⟩
      rcases hb with rfl | hb
      · decide
      · exact (digit_solid hb).1
  | string | emptyArray | array | emptyObject | object => exact ⟨_, _, rfl, by decide⟩

/-- A member as it is written with one space behind the colon. -/
def field (w k value : Text) : Text := w ++ 34 :: (k ++ 34 :: 58 :: 32 :: value)

/-- What follows the value `v` of the member `k`: the end, or a comma and the other members. -/
def Tail (ms : List (Text × Value)) (k : Text) (v : Value) (tail : Text) : Prop :=
  (ms = [(k, v)] ∧ Blank tail)
  ∨ ∃ w rest ms', Blank w ∧ tail = w ++ 44 :: rest ∧ ms = (k, v) :: ms'
      ∧ Derives (.members ms') rest

theorem Tail.mem {tail : Text} (h : Tail ms k v tail) : (k, v) ∈ ms := by
  rcases h with ⟨rfl, -⟩ | ⟨w, rest, ms', -, -, rfl, -⟩
  · exact List.mem_cons_self
  · exact List.mem_cons_self

/-- The first member of a text that derives members. -/
theorem members_first (h : Derives (.members ms) t) :
    ∃ w₁ w₂ w₃ k u v tail, Blank w₁ ∧ Blank w₂ ∧ Blank w₃ ∧ Chars k ∧ Derives (.value v) u
      ∧ Tail ms k v tail
      ∧ t = w₁ ++ 34 :: (k ++ 34 :: (w₂ ++ 58 :: (w₃ ++ (u ++ tail)))) := by
  cases h with
  | lastMember h1 h2 h3 h4 hk hv =>
      exact ⟨_, _, _, _, _, _, _, h1, h2, h3, hk, hv, .inl ⟨rfl, h4⟩, by simp⟩
  | member h1 h2 h3 h4 hk hv hrest =>
      exact ⟨_, _, _, _, _, _, _, h1, h2, h3, hk, hv, .inr ⟨_, _, _, h4, rfl, rfl, hrest⟩,
        by simp⟩

/-- **A field is read as a member**: its key, and a value at the front of what follows. -/
theorem field_inv (h : Derives (.members ms) (field w k (b :: value))) (hw : Blank w)
    (hk : Chars k) (hb : ¬ IsBlank b) :
    ∃ u v tail, b :: value = u ++ tail ∧ Derives (.value v) u ∧ Tail ms k v tail := by
  obtain ⟨w₁, w₂, w₃, k', u, v, tail, h1, h2, h3, hk', hv, htail, heq⟩ := members_first h
  unfold field at heq
  obtain ⟨-, -, hkey⟩ := span_unique hw (by decide) (by decide) h1 heq
  obtain ⟨rfl, hcolon⟩ := chars_unique hk hk' hkey
  -- the colon stands at once behind the key, and the value behind one space
  have hnil : [] ++ 58 :: 32 :: b :: value = w₂ ++ 58 :: (w₃ ++ (u ++ tail)) := hcolon
  obtain ⟨-, -, hvalue⟩ := span_unique (p := IsBlank) (by simp) (by decide) (by decide) h2 hnil
  obtain ⟨c, u', rfl, hc⟩ := value_begins hv
  have hspace : [32] ++ b :: value = w₃ ++ c :: (u' ++ tail) := hvalue
  obtain ⟨-, hbc, hrest⟩ := span_unique (p := IsBlank) (by simp [IsBlank]) hb hc h3 hspace
  exact ⟨c :: u', v, tail, by rw [hbc, hrest]; rfl, hv, htail⟩

/-- **A field with a number**, in front of a comma. -/
theorem members_number (hw : Blank w) (hk : Chars k) (ht : ∀ b ∈ t, NumberByte b)
    (hhead : ∃ b u, t = b :: u ∧ (b = 45 ∨ Decimal.IsDigit b)) :
    Derives (.members ms) (field w k (t ++ 44 :: rest))
      ↔ ∃ ms', ms = (k, .number t) :: ms' ∧ IsNumber t ∧ Derives (.members ms') rest := by
  constructor
  · intro h
    obtain ⟨b, u, rfl, hb⟩ := hhead
    have hblank : ¬ IsBlank b := by
      rcases hb with rfl | hb
      · decide
      · exact (digit_solid hb).1
    obtain ⟨u', v, tail, heq, hv, htail⟩ := field_inv h hw hk hblank
    have hfirst : ∀ (c : UInt8) (cs : Text), u' = c :: cs → c = b := by
      intro c cs hc
      rw [hc, List.cons_append, List.cons.injEq] at heq
      exact heq.1.symm
    have hother : ∀ (c : UInt8), c = b → c ≠ 45 → ¬ Decimal.IsDigit c → False := by
      intro c hc hne hdigit
      rw [hc] at hne hdigit
      rcases hb with hb | hb
      · exact hne hb
      · exact hdigit hb
    cases hv with
    | number hnum =>
        -- the number ends where the bytes of a number end
        rcases htail with ⟨rfl, hend⟩ | ⟨w', rest', ms', hw', rfl, rfl, hrest⟩
        · have hcomma : (44 : UInt8) ∈ u' ++ tail := by
            rw [← heq]
            simp
          rcases List.mem_append.mp hcomma with hm | hm
          · exact absurd (hnum.bytes 44 hm) (by decide)
          · exact absurd (hend 44 hm) (by decide)
        · cases w' with
          | nil =>
              obtain ⟨rfl, -, rfl⟩ := span_unique ht (by decide) (by decide) hnum.bytes heq
              exact ⟨ms', rfl, hnum, hrest⟩
          | cons c cs =>
              have hc := hw' c List.mem_cons_self
              have hcb : ¬ NumberByte c := by
                rcases hc with rfl | rfl | rfl | rfl <;> decide
              obtain ⟨-, rfl, -⟩ := span_unique ht (by decide) hcb hnum.bytes heq
              exact absurd hc (by decide)
    | null => exact (hother 110 (hfirst _ _ rfl) (by decide) (by decide)).elim
    | true => exact (hother 116 (hfirst _ _ rfl) (by decide) (by decide)).elim
    | false => exact (hother 102 (hfirst _ _ rfl) (by decide) (by decide)).elim
    | string => exact (hother 34 (hfirst _ _ rfl) (by decide) (by decide)).elim
    | emptyArray | array => exact (hother 91 (hfirst _ _ rfl) (by decide) (by decide)).elim
    | emptyObject | object => exact (hother 123 (hfirst _ _ rfl) (by decide) (by decide)).elim
  · intro h
    obtain ⟨ms', rfl, hnum, hrest⟩ := h
    have hmember : Derives (.members ((k, .number t) :: ms'))
        (w ++ 34 :: k ++ 34 :: [] ++ 58 :: [32] ++ t ++ [] ++ 44 :: rest) :=
      .member hw (by simp [Blank]) (by simp [Blank, IsBlank]) (by simp [Blank]) hk (.number hnum) hrest
    unfold field
    simpa using hmember

/-- **A field with a string**: a string ends at a quote that is no part of it. -/
theorem members_string_inv (h : Derives (.members ms) (field w k (34 :: value))) (hw : Blank w)
    (hk : Chars k) : ∃ s after, Chars s ∧ value = s ++ 34 :: after ∧ Tail ms k (.string s) after := by
  obtain ⟨u, v, tail, heq, hv, htail⟩ := field_inv h hw hk (by decide)
  cases hv with
  | string hs =>
      refine ⟨_, tail, hs, ?_, htail⟩
      simpa using heq
  | number hnum =>
      obtain ⟨b, rest, rfl, hb⟩ := hnum.head
      simp only [List.cons_append, List.cons.injEq] at heq
      rw [← heq.1] at hb
      exact absurd hb (by decide)
  | null | true | false | emptyArray | array | emptyObject | object =>
      simp only [List.cons_append, List.cons.injEq] at heq
      exact absurd heq.1 (by decide)

/-- A field with a string, in front of a comma. -/
theorem members_string (hw : Blank w) (hk : Chars k) (hs : Chars s) :
    Derives (.members ms) (field w k (34 :: (s ++ 34 :: 44 :: rest)))
      ↔ ∃ ms', ms = (k, .string s) :: ms' ∧ Derives (.members ms') rest := by
  constructor
  · intro h
    obtain ⟨s', after, hs', heq, htail⟩ := members_string_inv h hw hk
    obtain ⟨rfl, rfl⟩ := chars_unique hs hs' heq
    rcases htail with ⟨-, hend⟩ | ⟨w', rest', ms', hw', heq, rfl, hrest⟩
    · exact absurd (hend 44 List.mem_cons_self) (by decide)
    · have hnil : [] ++ 44 :: rest = w' ++ 44 :: rest' := heq
      obtain ⟨-, -, rfl⟩ := span_unique (p := IsBlank) (by simp) (by decide) (by decide) hw' hnil
      exact ⟨ms', rfl, hrest⟩
  · intro h
    obtain ⟨ms', rfl, hrest⟩ := h
    have hmember : Derives (.members ((k, .string s) :: ms'))
        (w ++ 34 :: k ++ 34 :: [] ++ 58 :: [32] ++ (34 :: s ++ [34]) ++ [] ++ 44 :: rest) :=
      .member hw (by simp [Blank]) (by simp [Blank, IsBlank]) (by simp [Blank]) hk (.string hs) hrest
    unfold field
    simpa using hmember

/-- The last field, with a string. -/
theorem members_last (hw : Blank w) (hk : Chars k) (hs : Chars s) :
    Derives (.members ms) (field w k (34 :: (s ++ [34]))) ↔ ms = [(k, .string s)] := by
  constructor
  · intro h
    obtain ⟨s', after, hs', heq, htail⟩ := members_string_inv h hw hk
    obtain ⟨rfl, rfl⟩ := chars_unique hs hs' heq
    rcases htail with ⟨rfl, -⟩ | ⟨w', rest', ms', -, heq, -, -⟩
    · rfl
    · simp at heq
  · intro h
    subst h
    have hmember : Derives (.members [(k, .string s)])
        (w ++ 34 :: k ++ 34 :: [] ++ 58 :: [32] ++ (34 :: s ++ [34]) ++ []) :=
      .lastMember hw (by simp [Blank]) (by simp [Blank, IsBlank]) (by simp [Blank]) hk (.string hs)
    unfold field
    simpa using hmember

/-- An object is read by its members. -/
theorem object_iff (hb : ¬ IsBlank b) :
    Derives (.value v) (123 :: (b :: t) ++ [125])
      ↔ ∃ ms, v = .object ms ∧ Derives (.members ms) (b :: t) := by
  constructor
  · intro h
    generalize htext : 123 :: (b :: t) ++ [125] = text at h
    cases h with
    | object hms =>
        simp only [List.cons_append, List.cons.injEq, true_and] at htext
        rw [← List.cons_append] at htext
        rw [List.append_cancel_right htext]
        exact ⟨_, rfl, hms⟩
    | emptyObject hw =>
        simp only [List.cons_append, List.cons.injEq, true_and] at htext
        rw [← List.cons_append] at htext
        rw [← List.append_cancel_right htext] at hw
        exact absurd (hw b List.mem_cons_self) hb
    | number hnum =>
        obtain ⟨c, rest, rfl, hc⟩ := hnum.head
        simp only [List.cons_append, List.cons.injEq] at htext
        rw [← htext.1] at hc
        exact absurd hc (by decide)
    | null | true | false | string | emptyArray | array =>
        simp only [List.cons_append, List.cons.injEq] at htext
        exact absurd htext.1 (by decide)
  · intro h
    obtain ⟨ms, rfl, hms⟩ := h
    exact .object hms

end Members

end Json
