/-
  DirSurveiller.Lib.Marking — marking along a chain of successors.

  A node has at most one successor.  From a start, each successor is marked in turn, up to the first
  node that has none or whose successor is marked already.  The graph may have cycles: a chain that
  comes back finds its own marks.

    * `chain_step`        — what is left to mark once the first successor is marked.
    * `closed_after`      — marks that were closed under successors, except at the start, are closed
                            afterwards.
-/
import Mathlib.Data.List.Basic

namespace Marking

variable {α : Type*}

/-- `b` is reached from `a` over nodes that are not marked, itself included. -/
inductive Chain (next : α → Option α) (marked : α → Prop) (a : α) : α → Prop where
  | first {b : α} : next a = some b → ¬ marked b → Chain next marked a b
  | next {b c : α} : Chain next marked a b → next b = some c → ¬ marked c → Chain next marked a c

section Chain

variable {next : α → Option α} {marked : α → Prop} {a b c : α}

theorem Chain.unmarked (h : Chain next marked a b) : ¬ marked b := by
  cases h with
  | first _ hb => exact hb
  | next _ _ hb => exact hb

/-- Where the start has no successor, or a marked one, nothing is reached. -/
theorem chain_stop (h : ∀ b, next a = some b → marked b) : ¬ Chain next marked a c := by
  intro hc
  induction hc with
  | first hb hnot => exact hnot (h _ hb)
  | next _ _ _ ih => exact ih

/-- Chains over fewer nodes are chains. -/
theorem Chain.mono {marked' : α → Prop} (h : Chain next marked' a c)
    (hsub : ∀ x, marked x → marked' x) : Chain next marked a c := by
  induction h with
  | first hb hnot => exact .first hb fun hm => hnot (hsub _ hm)
  | next _ hc hnot ih => exact .next ih hc fun hm => hnot (hsub _ hm)

/-- A chain that goes on from its first node. -/
theorem Chain.cons (hb : next a = some b) (hnot : ¬ marked b) (h : Chain next marked b c) :
    Chain next marked a c := by
  induction h with
  | first hc hnc => exact .next (.first hb hnot) hc hnc
  | next _ hc hnc ih => exact .next ih hc hnc

/-- From a node it can be left for good: the last visit is the one that counts. -/
theorem Chain.leave (h : Chain next marked b c) :
    c = b ∨ Chain next (fun x => x = b ∨ marked x) b c := by
  induction h with
  | @first c hc hnot =>
      by_cases heq : c = b
      · exact .inl heq
      · exact .inr (.first hc fun hm => hm.elim heq hnot)
  | @next c d _ hd hnot ih =>
      by_cases heq : d = b
      · exact .inl heq
      · have hfresh : ¬ (d = b ∨ marked d) := fun hm => hm.elim heq hnot
        rcases ih with rfl | hchain
        · exact .inr (.first hd hfresh)
        · exact .inr (.next hchain hd hfresh)

/-- A chain begins with the successor of its start. -/
theorem Chain.uncons (h : Chain next marked a c) (hb : next a = some b) :
    c = b ∨ Chain next marked b c := by
  induction h with
  | first hc _ => exact .inl (Option.some.inj (hc.symm.trans hb))
  | next _ hd hnot ih =>
      rcases ih with rfl | hchain
      · exact .inr (.first hd hnot)
      · exact .inr (.next hchain hd hnot)

/-- **One step**: what is reached is the first successor, and what is reached from it once it is
marked. -/
theorem chain_step (hb : next a = some b) (hnot : ¬ marked b) :
    Chain next marked a c ↔ c = b ∨ Chain next (fun x => x = b ∨ marked x) b c := by
  constructor
  · intro h
    rcases h.uncons hb with rfl | hchain
    · exact .inl rfl
    · exact hchain.leave
  · intro h
    rcases h with rfl | hchain
    · exact .first hb hnot
    · exact .cons hb hnot (hchain.mono fun _ hm => .inr hm)

/-- **Closed afterwards**: with all that is reached from `a` marked, a marked node whose successor was
marked, unless it is `a`, has its successor marked; and so has `a`. -/
theorem closed_after {x y : α} (hclosed : marked x → x ≠ a → marked y)
    (hx : (marked x ∨ Chain next marked a x) ∨ x = a) (hy : next x = some y) :
    marked y ∨ Chain next marked a y := by
  by_cases hm : marked y
  · exact .inl hm
  · -- the successor is not marked, so it continues the chain
    by_cases hxa : x = a
    · rw [hxa] at hy
      exact .inr (.first hy hm)
    · rcases hx with (hx | hx) | hx
      · exact absurd (hclosed hx hxa) hm
      · exact .inr (.next hx hy hm)
      · exact absurd hx hxa

end Chain

end Marking
