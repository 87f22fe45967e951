/-
  DirSurveiller.Lib.Decimal — numbers as decimal text.

  `natText` and `intText` are what `printf` writes for an unsigned and a signed number; `textValue`
  reads digits back, `numeralValue` a numeral with a fraction.  A number has one text, without
  leading zeros, so a count of millionths written behind a point stands for them only if it has
  six digits.
-/
import Mathlib.Data.FinEnum
import Mathlib.Data.Nat.Digits.Lemmas
import Mathlib.Data.List.TakeWhile
import Mathlib.Data.Rat.Defs
import Mathlib.Tactic.Linarith
import Mathlib.Tactic.FieldSimp

namespace Decimal

/-- The digit as a character. -/
def digitChar (d : Nat) : UInt8 := UInt8.ofNat (48 + d)

/-- `%lu` -/
def natText (n : Nat) : List UInt8 :=
  if n = 0 then [48] else (Nat.digits 10 n).reverse.map digitChar

/-- `%li` -/
def intText (z : Int) : List UInt8 :=
  if z < 0 then 45 :: natText z.natAbs else natText z.natAbs

/-- The value of a digit string. -/
def textValue (s : List UInt8) : Nat := s.foldl (fun n d => 10 * n + (d.toNat - 48)) 0

/-- `'0'` to `'9'` -/
def IsDigit (b : UInt8) : Prop := 48 ≤ b.toNat ∧ b.toNat ≤ 57

instance (b : UInt8) : Decidable (IsDigit b) := inferInstanceAs (Decidable (_ ∧ _))

/-! ## §1. Reading digits. -/

theorem textValue_foldl (s : List UInt8) (n : Nat) :
    s.foldl (fun n d => 10 * n + (d.toNat - 48)) n = n * 10 ^ s.length + textValue s := by
  unfold textValue
  induction s generalizing n with
  | nil => simp
  | cons d s ih =>
      rw [List.foldl_cons, List.foldl_cons, ih, ih (10 * 0 + _), List.length_cons, Nat.pow_succ]
      ring

theorem textValue_append (s t : List UInt8) :
    textValue (s ++ t) = textValue s * 10 ^ t.length + textValue t := by
  have h := textValue_foldl t (textValue s)
  unfold textValue at *
  rw [List.foldl_append, h]

@[simp] theorem textValue_nil : textValue [] = 0 := rfl

theorem textValue_lt {s : List UInt8} (h : ∀ b ∈ s, IsDigit b) : textValue s < 10 ^ s.length := by
  induction s using List.reverseRecOn with
  | nil => simp
  | append_singleton s d ih =>
      have hs := ih fun b hb => h b (by simp [hb])
      have hd := h d (by simp)
      have hone : textValue [d] = d.toNat - 48 := by simp [textValue]
      have hd2 := hd.2
      rw [textValue_append, hone, List.length_append, List.length_singleton, Nat.pow_succ]
      omega

/-! ## §2. Writing digits. -/

theorem digitChar_toNat {d : Nat} (h : d < 10) : (digitChar d).toNat = 48 + d := by
  unfold digitChar
  rw [UInt8.toNat_ofNat']
  omega

theorem natText_digit (n : Nat) : ∀ b ∈ natText n, IsDigit b := by
  intro b hb
  unfold natText at hb
  split at hb
  · rw [List.mem_singleton.mp hb]
    decide
  · obtain ⟨d, hd, rfl⟩ := List.mem_map.mp hb
    have hlt := Nat.digits_lt_base (by omega) (List.mem_reverse.mp hd)
    unfold IsDigit
    rw [digitChar_toNat hlt]
    omega

theorem natText_ne_nil (n : Nat) : natText n ≠ [] := by
  unfold natText
  split
  · simp
  · simp [Nat.digits_ne_nil_iff_ne_zero]
    assumption

/-- Digits in reverse order: the most significant digit is written first. -/
theorem textValue_digits : ∀ (ds : List Nat), (∀ d ∈ ds, d < 10) →
    textValue (ds.reverse.map digitChar) = Nat.ofDigits 10 ds := by
  intro ds
  induction ds with
  | nil => intro _; rfl
  | cons d ds ih =>
      intro h
      have hd := h d (by simp)
      have hone : textValue [digitChar d] = d := by
        unfold textValue
        rw [List.foldl_cons, List.foldl_nil, digitChar_toNat hd]
        omega
      rw [List.reverse_cons, List.map_append, textValue_append, ih fun x hx => h x (by simp [hx])]
      simp only [List.map_cons, List.map_nil, List.length_singleton, hone]
      rw [Nat.ofDigits_cons]
      ring

/-- **What is written is read back.** -/
theorem textValue_natText (n : Nat) : textValue (natText n) = n := by
  unfold natText
  split
  next h => rw [h]; rfl
  next =>
    rw [textValue_digits _ fun d hd => Nat.digits_lt_base (by omega) hd, Nat.ofDigits_digits]

/-- The text of a positive number does not begin with a zero. -/
theorem natText_head {n : Nat} (h : n ≠ 0) : (natText n).head? ≠ some 48 := by
  have hne : Nat.digits 10 n ≠ [] := Nat.digits_ne_nil_iff_ne_zero.mpr h
  have hlast := Nat.getLast_digit_ne_zero 10 h
  have hlt := Nat.digits_lt_base (b := 10) (by omega) (List.getLast_mem hne)
  unfold natText
  rw [if_neg h, List.head?_map, List.head?_reverse, List.getLast?_eq_some_getLast hne,
    Option.map_some]
  intro e
  have e := congrArg UInt8.toNat (Option.some.inj e)
  rw [digitChar_toNat hlt] at e
  have : (48 : UInt8).toNat = 48 := rfl
  omega

/-- The text of a number with `k` digits begins with one that is not zero. -/
theorem natText_length_eq {n k : Nat} (h : n ≠ 0) :
    (natText n).length = k + 1 ↔ 10 ^ k ≤ n ∧ n < 10 ^ (k + 1) := by
  unfold natText
  rw [if_neg h, List.length_map, List.length_reverse, Nat.length_digits 10 n (by omega) h,
    Nat.add_right_cancel_iff, Nat.log_eq_iff (.inr ⟨by omega, h⟩)]

theorem natText_length {n k : Nat} (hk : 0 < k) (h : n < 10 ^ k) : (natText n).length ≤ k := by
  unfold natText
  split
  · exact hk
  · rw [List.length_map, List.length_reverse]
    exact (Nat.digits_length_le_iff (by omega) n).mpr h

/-- A sign takes one byte more. -/
theorem intText_length {z : Int} {k : Nat} (hk : 0 < k) (h : z.natAbs < 10 ^ k) :
    (intText z).length ≤ k + 1 := by
  have hdigits := natText_length hk h
  unfold intText
  split
  · rw [List.length_cons]
    omega
  · omega

/-- A number consists of digits and at most a sign. -/
theorem intText_clean (z : Int) (b : UInt8) (hb : b ∈ intText z) : b = 45 ∨ IsDigit b := by
  unfold intText at hb
  split at hb
  · rcases List.mem_cons.mp hb with rfl | hb
    · exact .inl rfl
    · exact .inr (natText_digit _ b hb)
  · exact .inr (natText_digit _ b hb)

theorem intText_nul (z : Int) : (0 : UInt8) ∉ intText z := by
  intro h
  rcases intText_clean z 0 h with h | ⟨hlow, -⟩
  · exact absurd h (by decide)
  · exact absurd hlow (by decide)

/-! ## §3. Numerals. -/

/-- The value of digits, with or without a point and more digits behind it. -/
def unsignedValue (s : List UInt8) : Option Rat :=
  let whole := s.takeWhile fun b => decide (IsDigit b)
  if whole = [] then none
  else match s.dropWhile fun b => decide (IsDigit b) with
    | [] => some (textValue whole : Rat)
    | 46 :: frac =>
        if frac ≠ [] ∧ ∀ b ∈ frac, IsDigit b then
          some ((textValue whole : Rat) + textValue frac / 10 ^ frac.length)
        else none
    | _ => none

/-- The value of a numeral. -/
def numeralValue (s : List UInt8) : Option Rat :=
  match s with
  | 45 :: rest => (unsignedValue rest).map fun v => -v
  | rest => unsignedValue rest

theorem numeralValue_fraction {whole frac : List UInt8} (hw : whole ≠ [])
    (hwd : ∀ b ∈ whole, IsDigit b) (hf : frac ≠ []) (hfd : ∀ b ∈ frac, IsDigit b) :
    numeralValue (whole ++ 46 :: frac)
      = some ((textValue whole : Rat) + textValue frac / 10 ^ frac.length) := by
  have htake : (whole ++ 46 :: frac).takeWhile (fun b => decide (IsDigit b)) = whole := by
    rw [List.takeWhile_append_of_pos (by simpa using hwd), List.takeWhile_cons_of_neg (by decide),
      List.append_nil]
  have hdrop : (whole ++ 46 :: frac).dropWhile (fun b => decide (IsDigit b)) = 46 :: frac := by
    rw [List.dropWhile_append_of_pos (by simpa using hwd), List.dropWhile_cons_of_neg (by decide)]
  have hunsigned : unsignedValue (whole ++ 46 :: frac)
      = some ((textValue whole : Rat) + textValue frac / 10 ^ frac.length) := by
    unfold unsignedValue
    dsimp only
    rw [htake, hdrop, if_neg hw]
    exact if_pos ⟨hf, hfd⟩
  cases whole with
  | nil => exact absurd rfl hw
  | cons d ds =>
      have hd : d ≠ 45 := by
        intro e
        have := (hwd d (by simp)).1
        rw [e] at this
        exact absurd this (by decide)
      unfold numeralValue
      rw [← hunsigned]
      split
      next rest heq =>
        injection heq with h1
        exact absurd h1 hd
      next => rfl

/-- Millionths behind a point: right if there are none, or if they take six digits. -/
theorem millionths_iff {n u : Nat} (hu : u < 10 ^ 6) :
    numeralValue (natText n ++ 46 :: natText u) = some ((n : Rat) + u / 10 ^ 6)
      ↔ u = 0 ∨ 10 ^ 5 ≤ u := by
  rw [numeralValue_fraction (natText_ne_nil n) (natText_digit n) (natText_ne_nil u)
    (natText_digit u), textValue_natText, textValue_natText, Option.some.injEq]
  by_cases hzero : u = 0
  · subst hzero
    simp
  · have hlen := natText_length_eq (k := 5) hzero
    rw [or_iff_right hzero]
    constructor
    · intro heq
      have hfrac : (u : Rat) / 10 ^ (natText u).length = u / 10 ^ 6 := by linarith
      have hpos : (u : Rat) ≠ 0 := by exact_mod_cast hzero
      have hpow : (10 : Rat) ^ (natText u).length = 10 ^ 6 := by
        have h1 : (10 : Rat) ^ (natText u).length ≠ 0 := by positivity
        have h2 : (10 : Rat) ^ 6 ≠ 0 := by positivity
        rw [div_eq_div_iff h1 h2] at hfrac
        exact (mul_left_cancel₀ hpos hfrac).symm
      have hsix : (natText u).length = 6 := by
        have hnat : 10 ^ (natText u).length = 10 ^ 6 := by exact_mod_cast hpow
        exact Nat.pow_right_injective (by omega) hnat
      exact (hlen.mp hsix).1
    · intro hle
      rw [hlen.mpr ⟨hle, hu⟩]

/-- Six digits stand for at least 100000 exactly if the first is not a zero. -/
theorem six_digits {F : List UInt8} (hF : ∀ b ∈ F, IsDigit b) (hlen : F.length = 6) :
    textValue F < 10 ^ 6 ∧ (10 ^ 5 ≤ textValue F ↔ F.head? ≠ some 48) := by
  have hlt := textValue_lt hF
  rw [hlen] at hlt
  refine ⟨hlt, ?_⟩
  cases F with
  | nil => cases hlen
  | cons d ds =>
      have hds := textValue_lt fun b hb => hF b (List.mem_cons_of_mem d hb)
      have hd := hF d (by simp)
      have hone : textValue [d] = d.toNat - 48 := by
        unfold textValue
        rw [List.foldl_cons, List.foldl_nil]
        omega
      have hsplit : textValue (d :: ds) = (d.toNat - 48) * 10 ^ 5 + textValue ds := by
        rw [← List.singleton_append, textValue_append, hone]
        rw [List.length_cons] at hlen
        rw [show ds.length = 5 by omega]
      rw [List.length_cons] at hlen
      rw [show ds.length = 5 by omega] at hds
      have hhead : (d :: ds).head? ≠ some 48 ↔ d.toNat ≠ 48 := by
        rw [List.head?_cons, ne_eq, Option.some.injEq, ← UInt8.toNat_inj]
        rfl
      rw [hhead, hsplit]
      have hlow := hd.1
      constructor
      · intro hle heq
        rw [heq] at hle
        omega
      · intro hne
        have : 1 ≤ d.toNat - 48 := by omega
        omega

end Decimal
