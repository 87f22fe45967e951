/-
  DirSurveiller.Lib.Tally — counting what moves between lists.

  A thing that moves from one list to another leaves the sum of its counts alone.  Each lemma states
  the count after an update plus what left, as the count before plus what came, so that sums of them
  are linear arithmetic.
-/
import Mathlib.Algebra.BigOperators.Group.Finset.Piecewise
import Mathlib.Data.List.Count

namespace Tally

variable {α σ : Type*} [DecidableEq α]

/-- Taking one copy of `a` out. -/
theorem count_erase {l : List α} {a : α} (h : a ∈ l) (x : α) :
    (l.erase a).count x + [a].count x = l.count x := by
  rw [← List.count_append]
  refine List.Perm.count_eq ?_ x
  exact List.perm_append_comm.trans (List.perm_cons_erase h).symm

/-- Exchanging one element of the list behind a projection. -/
theorem count_filterMap_set (f : σ → Option α) {l : List σ} {k : Nat} {s : σ} (h : l[k]? = some s)
    (b : σ) (x : α) :
    ((l.set k b).filterMap f).count x + (f s).toList.count x
      = (l.filterMap f).count x + (f b).toList.count x := by
  obtain ⟨hk, rfl⟩ := List.getElem?_eq_some_iff.mp h
  have hcons : ∀ (a : σ) (m : List σ), (a :: m).filterMap f = (f a).toList ++ m.filterMap f := by
    intro a m
    rw [List.filterMap_cons]
    cases f a <;> rfl
  conv_rhs => rw [← List.take_append_drop k l, List.drop_eq_getElem_cons hk]
  rw [List.set_eq_take_append_cons_drop, if_pos hk]
  simp only [List.filterMap_append, hcons, List.count_append]
  omega

/-- Fewer elements satisfy `p` than `q`, where one of the list satisfies `q` only. -/
theorem countP_lt_of_mem {p q : σ → Bool} {l : List σ} {a : σ} (ha : a ∈ l)
    (hpq : ∀ x, p x = true → q x = true) (hqa : q a = true) (hpa : ¬ p a = true) :
    l.countP p < l.countP q := by
  obtain ⟨front, rest, rfl⟩ := List.append_of_mem ha
  have hfront := List.countP_mono_left (l := front) fun x _ => hpq x
  have hrest := List.countP_mono_left (l := rest) fun x _ => hpq x
  rw [List.countP_append, List.countP_append, List.countP_cons_of_neg hpa,
    List.countP_cons_of_pos hqa]
  omega

/-- **Sorting by owners**: things owned by numbers below `n` are those of the owners that satisfy `p`,
and those of each of the others. -/
theorem sum_count_owned {β : Type*} [DecidableEq β] {owned : List (ℕ × β)} {n : ℕ}
    (h : ∀ e ∈ owned, e.1 < n) (p : ℕ → Prop) [DecidablePred p] (x : β) :
    (∑ r ∈ Finset.range n,
        if p r then 0 else ((owned.filter fun e => e.1 = r).map Prod.snd).count x)
      + ((owned.filter fun e => p e.1).map Prod.snd).count x = (owned.map Prod.snd).count x := by
  induction owned with
  | nil => simp
  | cons e owned ih =>
      have hrest := ih fun e' he' => h e' (List.mem_cons_of_mem _ he')
      have he : e.1 ∈ Finset.range n := Finset.mem_range.mpr (h e List.mem_cons_self)
      -- the new thing counts for its owner only
      have hsum : (∑ r ∈ Finset.range n,
            if p r then 0 else (((e :: owned).filter fun e => e.1 = r).map Prod.snd).count x)
          = (∑ r ∈ Finset.range n,
              if p r then 0 else ((owned.filter fun e => e.1 = r).map Prod.snd).count x)
            + if p e.1 then 0 else [e.2].count x := by
        have hone : (if p e.1 then 0 else [e.2].count x)
            = ∑ r ∈ Finset.range n, if e.1 = r then (if p r then 0 else [e.2].count x) else 0 := by
          rw [Finset.sum_ite_eq, if_pos he]
        rw [hone, ← Finset.sum_add_distrib]
        refine Finset.sum_congr rfl fun r _ => ?_
        by_cases hr : e.1 = r
        · by_cases hp : p r
          · simp [hp]
          · simp [hr, hp, List.count_cons, List.count_nil]
        · simp [hr]
      have hall : ((e :: owned).map Prod.snd).count x
          = (owned.map Prod.snd).count x + [e.2].count x := by
        rw [List.map_cons, List.count_cons, List.count_cons, List.count_nil, Nat.zero_add]
      rw [hsum, hall, ← hrest]
      by_cases hp : p e.1
      · simp only [hp, if_true, Nat.add_zero, List.filter_cons, decide_true, List.map_cons,
          List.count_cons, List.count_nil]
        omega
      · simp only [hp, if_false, List.filter_cons, decide_false, Bool.false_eq_true, List.count_cons,
          List.count_nil]
        omega

end Tally
