/-
  DirSurveiller.Lib.Comparator — three-way comparators that are orders.

  A comparator answers with an integer whose sign says how two values compare, or it faults.  Whether
  it is an order is read off one fact: its sign is that of the order of two *ranks*, taken from a
  linear order.
-/
import Mathlib.Order.Lattice
import Mathlib.Order.Basic
import Mathlib.Order.Defs.LinearOrder

namespace Comparator

variable {α β ε : Type*}

/-- On valid values the comparator answers, and its sign orders them as their ranks. -/
structure Ranks [LinearOrder β] (valid : α → Prop) (rank : α → β) (comp : α → α → Except ε Int) :
    Prop where
  answers : ∀ a b, valid a → valid b → ∃ r, comp a b = .ok r
  lt : ∀ {a b r}, valid a → valid b → comp a b = .ok r → (r < 0 ↔ rank a < rank b)
  gt : ∀ {a b r}, valid a → valid b → comp a b = .ok r → (0 < r ↔ rank b < rank a)

/-- The laws a sorted container relies on. -/
structure TotalOrder (valid : α → Prop) (comp : α → α → Except ε Int) : Prop where
  answers : ∀ a b, valid a → valid b → ∃ r, comp a b = .ok r
  antisymm : ∀ {a b r r'}, valid a → valid b → comp a b = .ok r → comp b a = .ok r' →
    r'.sign = -r.sign
  trans : ∀ {a b c r r' r''}, valid a → valid b → valid c → comp a b = .ok r → comp b c = .ok r' →
    comp a c = .ok r'' → r ≤ 0 → r' ≤ 0 → r'' ≤ 0 ∧ (r'' = 0 → r = 0 ∧ r' = 0)
  total : ∀ {a b r r'}, valid a → valid b → comp a b = .ok r → comp b a = .ok r' → r ≤ 0 ∨ r' ≤ 0

section Ranks

variable [LinearOrder β] {valid : α → Prop} {rank : α → β} {comp : α → α → Except ε Int}
variable {a b c : α} {r r' r'' : Int}

theorem Ranks.le (h : Ranks valid rank comp) (ha : valid a) (hb : valid b) (hr : comp a b = .ok r) :
    r ≤ 0 ↔ rank a ≤ rank b := by
  have hgt := not_congr (h.gt ha hb hr)
  rw [Int.not_lt, not_lt] at hgt
  exact hgt

/-- The comparator answers zero for values of one rank, and no others. -/
theorem Ranks.eq_zero (h : Ranks valid rank comp) (ha : valid a) (hb : valid b)
    (hr : comp a b = .ok r) : r = 0 ↔ rank a = rank b := by
  have hlt := h.lt ha hb hr
  have hle := h.le ha hb hr
  constructor
  · intro hzero
    refine le_antisymm (hle.mp (by omega)) (not_lt.mp fun hlt' => ?_)
    have := hlt.mpr hlt'
    omega
  · intro hrank
    have hnot : ¬ r < 0 := by
      rw [hlt, hrank]
      exact lt_irrefl _
    have := hle.mpr (le_of_eq hrank)
    omega

/-- **A comparator that ranks is a total order.** -/
theorem Ranks.totalOrder (h : Ranks valid rank comp) : TotalOrder valid comp where
  answers := h.answers
  antisymm := by
    intro a b r r' ha hb hr hr'
    have hlt := (h.lt ha hb hr).trans (h.gt hb ha hr').symm
    have hgt := (h.gt ha hb hr).trans (h.lt hb ha hr').symm
    rcases Int.lt_trichotomy r 0 with hneg | hzero | hpos
    · rw [Int.sign_eq_neg_one_of_neg hneg, Int.sign_eq_one_of_pos (hlt.mp hneg)]
      rfl
    · have : r' = 0 := by omega
      rw [hzero, this]
      rfl
    · rw [Int.sign_eq_one_of_pos hpos, Int.sign_eq_neg_one_of_neg (hgt.mp hpos)]
  trans := by
    intro a b c r r' r'' ha hb hc hr hr' hr'' hle hle'
    rw [h.le ha hb hr] at hle
    rw [h.le hb hc hr'] at hle'
    refine ⟨(h.le ha hc hr'').mpr (le_trans hle hle'), fun hzero => ?_⟩
    have hrank := (h.eq_zero ha hc hr'').mp hzero
    rw [h.eq_zero ha hb hr, h.eq_zero hb hc hr']
    exact ⟨le_antisymm hle (hrank ▸ hle'), le_antisymm hle' (hrank ▸ hle)⟩
  total := by
    intro a b r r' ha hb hr hr'
    rw [h.le ha hb hr, h.le hb ha hr']
    exact le_total _ _

end Ranks

end Comparator
