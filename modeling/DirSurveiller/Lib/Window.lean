/-
  DirSurveiller.Lib.Window — the occupied part of a circular buffer.

  A circular buffer of `n` cells keeps two counters that only ever grow; the cell of counter value
  `c` is `c % n`.  `window` lists the cells from the reading counter on.  The lemmas say what
  appending behind the window and dropping its first cell do, and that reducing the counters
  modulo a multiple of `n` does not move the window.  `Filled` says what each cell holds when a
  sequence has been stored into the cells in turn.
-/
import Mathlib.Data.List.Basic
import Mathlib.Data.Nat.ModEq
import Mathlib.Logic.Function.Basic

namespace Window

variable {α : Type*} {n : Nat}

/-- The `k` cells from counter value `r` on. -/
def window (buffer : Nat → α) (n r k : Nat) : List α :=
  (List.range k).map fun i => buffer ((r + i) % n)

@[simp] theorem window_length (buffer : Nat → α) (r k : Nat) :
    (window buffer n r k).length = k := by
  simp [window]

@[simp] theorem window_zero (buffer : Nat → α) (r : Nat) : window buffer n r 0 = [] := rfl

/-- Reducing the counter modulo a multiple of the capacity does not move the window. -/
theorem window_mod {M : Nat} (hM : n ∣ M) (buffer : Nat → α) (r k : Nat) :
    window buffer n (r % M) k = window buffer n r k := by
  unfold window
  refine List.map_congr_left fun i _ => ?_
  rw [Nat.add_mod (r % M), Nat.mod_mod_of_dvd r hM, ← Nat.add_mod]

/-- Dropping the first cell moves the reading counter up. -/
theorem window_succ (buffer : Nat → α) (r k : Nat) :
    window buffer n r (k + 1) = buffer (r % n) :: window buffer n (r + 1) k := by
  unfold window
  rw [List.range_succ_eq_map, List.map_cons, List.map_map, Nat.add_zero]
  congr 1
  refine List.map_congr_left fun i _ => ?_
  simp only [Function.comp]
  congr 2
  omega

/-- Two counter values less than one revolution apart use different cells. -/
theorem mod_ne_of_lt {r i j : Nat} (hij : i < j) (hj : j < i + n) : (r + i) % n ≠ (r + j) % n := by
  intro h
  have hdvd : n ∣ (r + j) - (r + i) := (Nat.modEq_iff_dvd' (by omega)).mp h
  have hle : n ≤ (r + j) - (r + i) := Nat.le_of_dvd (by omega) hdvd
  omega

/-- Writing the cell behind a window that leaves room appends to it. -/
theorem window_push {k : Nat} (hk : k < n) (buffer : Nat → α) (r : Nat) (a : α) :
    window (Function.update buffer ((r + k) % n) a) n r (k + 1) = window buffer n r k ++ [a] := by
  unfold window
  rw [List.range_succ, List.map_append, List.map_singleton, Function.update_self]
  congr 1
  refine List.map_congr_left fun i hi => ?_
  have hik : i < k := List.mem_range.mp hi
  exact Function.update_of_ne (mod_ne_of_lt hik (by omega)) _ _

/-- The first `k` of `xs` have been stored in turn into cells that were blank before: each cell holds
the last one that was stored into it. -/
structure Filled (buffer : Nat → α) (n : Nat) (blank : α) (xs : List α) (k : Nat) : Prop where
  kept : ∀ i < k, k ≤ i + n → xs[i]? = some (buffer (i % n))
  fresh : ∀ i < n, k ≤ i → buffer i = blank

section Filled

variable {buffer : Nat → α} {blank a : α} {xs : List α} {k : Nat}

theorem filled_nil (n : Nat) (blank : α) : Filled (fun _ => blank) n blank [] 0 :=
  ⟨fun i hi => absurd hi (Nat.not_lt_zero i), fun _ _ _ => rfl⟩

theorem Filled.append (h : Filled buffer n blank xs k) (hk : k ≤ xs.length) (ys : List α) :
    Filled buffer n blank (xs ++ ys) k := by
  refine ⟨fun i hi hn => ?_, h.fresh⟩
  rw [List.getElem?_append_left (by omega)]
  exact h.kept i hi hn

/-- The next one is stored. -/
theorem Filled.store (h : Filled buffer n blank xs k) (ha : xs[k]? = some a) :
    Filled (Function.update buffer (k % n) a) n blank xs (k + 1) := by
  constructor
  · intro i hi hn
    rcases Nat.lt_succ_iff_lt_or_eq.mp hi with hlt | rfl
    · -- the cells between have been stored into later
      have hne : i % n ≠ k % n := by
        have := mod_ne_of_lt (n := n) (r := i) (i := 0) (j := k - i) (by omega) (by omega)
        rwa [Nat.add_zero, Nat.add_sub_cancel' (Nat.le_of_lt hlt)] at this
      rw [Function.update_of_ne hne]
      exact h.kept i hlt (by omega)
    · rw [Function.update_self]
      exact ha
  · intro i hi hk
    have hne : i ≠ k % n := by
      rw [Nat.mod_eq_of_lt (by omega)]
      omega
    rw [Function.update_of_ne hne]
    exact h.fresh i hi (by omega)

end Filled

end Window
