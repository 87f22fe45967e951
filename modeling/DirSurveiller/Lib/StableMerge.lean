/-
  DirSurveiller.Lib.StableMerge — the merge of two lists, from its head.

  `List.merge` takes the head of the first list unless that of the second is strictly before it.  A
  program that merges two queues is compared with it step by step: the call it takes is the head of
  the merge of what is left (`merge_left`, `merge_right`).  What either list holds, the merge holds in
  the same order (`filterMap_merge_left`, `filterMap_merge_right`).
-/
import Mathlib.Data.List.Basic

namespace StableMerge

variable {α β : Type*} {le : α → α → Bool} {xs ys : List α}

/-- The head of the first list comes first, unless that of the second is before it. -/
theorem merge_left {x : α} (h : ∀ y ∈ ys.head?, le x y = true) :
    List.merge (x :: xs) ys le = x :: List.merge xs ys le := by
  cases ys with
  | nil => rw [List.merge_right, List.merge_right]
  | cons y ys => exact List.cons_merge_cons_pos le _ _ (h y rfl)

/-- The head of the second list comes first where it is before that of the first. -/
theorem merge_right {y : α} (h : ∀ x ∈ xs.head?, le x y = false) :
    List.merge xs (y :: ys) le = y :: List.merge xs ys le := by
  cases xs with
  | nil => rw [List.nil_merge, List.nil_merge]
  | cons x xs =>
      apply List.cons_merge_cons_neg
      rw [h x rfl]
      exact Bool.false_ne_true

/-- **Stability**: what `p` picks from the first list and not from the second keeps its order. -/
theorem filterMap_merge_left {p : α → Option β} (hys : ∀ y ∈ ys, p y = none) :
    (List.merge xs ys le).filterMap p = xs.filterMap p := by
  induction xs generalizing ys with
  | nil =>
      rw [List.nil_merge]
      exact List.filterMap_eq_nil_iff.mpr hys
  | cons x xs ihx =>
      induction ys with
      | nil => rw [List.merge_right]
      | cons y ys ihy =>
          rw [List.cons_merge_cons]
          split
          · rw [List.filterMap_cons, List.filterMap_cons, ihx hys]
          · rw [List.filterMap_cons_none (hys y List.mem_cons_self)]
            exact ihy fun z hz => hys z (List.mem_cons_of_mem _ hz)

theorem filterMap_merge_right {p : α → Option β} (hxs : ∀ x ∈ xs, p x = none) :
    (List.merge xs ys le).filterMap p = ys.filterMap p := by
  induction xs generalizing ys with
  | nil => rw [List.nil_merge]
  | cons x xs ihx =>
      induction ys with
      | nil =>
          rw [List.merge_right]
          exact List.filterMap_eq_nil_iff.mpr hxs
      | cons y ys ihy =>
          rw [List.cons_merge_cons]
          split
          · rw [List.filterMap_cons_none (hxs x List.mem_cons_self)]
            exact ihx fun z hz => hxs z (List.mem_cons_of_mem _ hz)
          · rw [List.filterMap_cons, List.filterMap_cons, ihy]

end StableMerge
