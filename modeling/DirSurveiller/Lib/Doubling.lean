/-
  DirSurveiller.Lib.Doubling — blocks that grow by doubling.

  A block of `size` bytes that has to hold more than `n` doubles until `n < size`, one request to
  the allocator for each doubling.  `doublings` counts them, `firstRefused` is the first that the
  environment refuses.  Growing beyond `n` and then beyond `m` is growing beyond `m`.
-/
import Mathlib.Data.Nat.Size
import DirSurveiller.Lib.Memory

namespace Doubling

open CMachine

/-! ## §1. How often. -/

/-- How often `size` doubles until it exceeds `n`. -/
def doublings (size n : Nat) : Nat := (n / size).size

variable {size n m k : Nat}

theorem lt_doublings (hpos : 0 < size) : k < doublings size n ↔ size * 2 ^ k ≤ n := by
  unfold doublings
  rw [Nat.lt_size, Nat.le_div_iff_mul_le hpos, Nat.mul_comm]

/-- After that many doublings there is room. -/
theorem lt_doubled (hpos : 0 < size) : n < size * 2 ^ doublings size n := by
  by_contra h
  exact Nat.lt_irrefl _ ((lt_doublings hpos).mpr (Nat.le_of_not_lt h))

theorem doublings_eq_zero (h : n < size) : doublings size n = 0 := by
  unfold doublings
  rw [Nat.div_eq_of_lt h, Nat.size_zero]

theorem doublings_pos (hpos : 0 < size) (h : size ≤ n) : 0 < doublings size n := by
  rw [lt_doublings hpos, Nat.pow_zero, Nat.mul_one]
  exact h

/-- The last doubling was needed. -/
theorem doubled_le (hpos : 0 < size) (h : size ≤ n) : size * 2 ^ doublings size n ≤ 2 * n := by
  have hd := doublings_pos hpos h
  obtain ⟨j, hj⟩ : ∃ j, doublings size n = j + 1 := ⟨doublings size n - 1, by omega⟩
  have hlast : size * 2 ^ j ≤ n := (lt_doublings hpos).mp (by omega)
  calc size * 2 ^ doublings size n
      = 2 * (size * 2 ^ j) := by rw [hj, Nat.pow_succ', Nat.mul_left_comm]
    _ ≤ 2 * n := Nat.mul_le_mul_left 2 hlast

theorem doublings_mono (hpos : 0 < size) (h : n ≤ m) : doublings size n ≤ doublings size m := by
  by_contra hlt
  have hle := (lt_doublings hpos).mp (Nat.lt_of_not_le hlt)
  exact absurd ((lt_doublings hpos).mpr (Nat.le_trans hle h)) (Nat.lt_irrefl _)

/-- **Growing in two steps**: what was doubled already is not doubled again. -/
theorem doublings_add (hpos : 0 < size) (h : k ≤ doublings size n) :
    doublings size n = k + doublings (size * 2 ^ k) n := by
  have hpos' : 0 < size * 2 ^ k := Nat.mul_pos hpos (Nat.two_pow_pos k)
  have hsplit : ∀ j, k + j < doublings size n ↔ j < doublings (size * 2 ^ k) n := by
    intro j
    rw [lt_doublings hpos, lt_doublings hpos', Nat.pow_add, Nat.mul_assoc]
  have hlow := hsplit (doublings size n - k)
  have hhigh := hsplit (doublings (size * 2 ^ k) n)
  omega

/-- In a `size_t` the sizes do not wrap as long as twice the bound fits into it. -/
theorem doubled_lt (hpos : 0 < size) (hsize : size < 2 ^ 64) (hn : n < 2 ^ 63) :
    size * 2 ^ doublings size n < 2 ^ 64 := by
  rcases Nat.lt_or_ge n size with h | h
  · rw [doublings_eq_zero h, Nat.pow_zero, Nat.mul_one]
    exact hsize
  · have := doubled_le hpos h
    omega

/-- A `size_t` doubles at most 64 times. -/
theorem doublings_le (hpos : 0 < size) (hn : n < 2 ^ k) : doublings size n ≤ k := by
  by_contra hlt
  have hle := (lt_doublings hpos).mp (Nat.lt_of_not_le hlt)
  have hpow : 2 ^ k ≤ size * 2 ^ k := Nat.le_mul_of_pos_left _ hpos
  omega

/-! ## §2. Which requests are granted. -/

/-- One of the requests is refused; `call` is the number of the first of them. -/
def Refused (mem : Allocator) (call size n : Nat) : Prop :=
  ∃ k < doublings size n, mem (call + k) (size * 2 ^ (k + 1) % 2 ^ 64) = none

/-- The first of the requests that is refused. -/
def firstRefused (mem : Allocator) (call size n : Nat) : Option Nat :=
  (List.range (doublings size n)).find? fun k => (mem (call + k) (size * 2 ^ (k + 1) % 2 ^ 64)).isNone

section Requests

variable {mem : Allocator} {call : Nat}

theorem firstRefused_none : firstRefused mem call size n = none ↔ ¬ Refused mem call size n := by
  unfold firstRefused Refused
  rw [List.find?_range_eq_none]
  simp [Option.isSome_iff_ne_none]

theorem firstRefused_some : firstRefused mem call size n = some k ↔
    k < doublings size n ∧ mem (call + k) (size * 2 ^ (k + 1) % 2 ^ 64) = none
      ∧ ∀ j < k, (mem (call + j) (size * 2 ^ (j + 1) % 2 ^ 64)).isSome := by
  unfold firstRefused
  rw [List.find?_range_eq_some]
  simp only [Option.isNone_iff_eq_none, List.mem_range, Bool.not_eq_true', Option.isNone_eq_false_iff]
  exact ⟨fun h => ⟨h.2.1, h.1, h.2.2⟩, fun h => ⟨h.2.1, h.1, h.2.2⟩⟩

instance (mem : Allocator) (call size n : Nat) : Decidable (Refused mem call size n) :=
  decidable_of_iff (firstRefused mem call size n ≠ none) (by rw [ne_eq, firstRefused_none, not_not])

theorem Refused.exists_first (h : Refused mem call size n) :
    ∃ k, firstRefused mem call size n = some k := by
  rw [← Option.ne_none_iff_exists']
  intro hnone
  exact firstRefused_none.mp hnone h

theorem not_refused_total (hmem : mem.Total) : ¬ Refused mem call size n := by
  intro h
  obtain ⟨k, -, hk⟩ := h
  exact absurd (hmem (call + k) _) (by rw [hk]; decide)

theorem not_refused_of_lt (h : n < size) : ¬ Refused mem call size n := by
  intro hr
  obtain ⟨k, hk, -⟩ := hr
  rw [doublings_eq_zero h] at hk
  omega

theorem Refused.mono (hpos : 0 < size) (h : Refused mem call size n) (hle : n ≤ m) :
    Refused mem call size m := by
  obtain ⟨k, hk, hnone⟩ := h
  exact ⟨k, Nat.lt_of_lt_of_le hk (doublings_mono hpos hle), hnone⟩

/-- **Asking in two steps.**  Growing beyond `m` asks for what growing beyond `n` asks for, and
then for the rest. -/
theorem refused_add (hpos : 0 < size) (hle : n ≤ m) : Refused mem call size m ↔
    Refused mem call size n
      ∨ Refused mem (call + doublings size n) (size * 2 ^ doublings size n) m := by
  have hadd := doublings_add hpos (doublings_mono hpos hle)
  have hnext : ∀ j, size * 2 ^ (doublings size n + j + 1)
      = size * 2 ^ doublings size n * 2 ^ (j + 1) := by
    intro j
    rw [Nat.add_assoc, Nat.pow_add, Nat.mul_assoc]
  constructor
  · intro h
    obtain ⟨k, hk, hnone⟩ := h
    rcases Nat.lt_or_ge k (doublings size n) with hin | hout
    · exact .inl ⟨k, hin, hnone⟩
    · obtain ⟨j, rfl⟩ := Nat.exists_eq_add_of_le hout
      refine .inr ⟨j, by omega, ?_⟩
      rw [Nat.add_assoc, ← hnext]
      exact hnone
  · intro h
    rcases h with h | h
    · exact h.mono hpos hle
    · obtain ⟨j, hj, hnone⟩ := h
      refine ⟨doublings size n + j, by omega, ?_⟩
      rw [hnext, ← Nat.add_assoc]
      exact hnone

end Requests

end Doubling
