/-
  DirSurveiller.Lib.Awk — matching, substitution and fields, as awk does them.

  A pattern is a row of items, each a class of symbols taken once or any number of times, and may be
  tied to the end of the text.  Its words are a `Language`, and a match is the longest one at the
  leftmost place where there is one: `longest` computes its length and `find` its place.

  Main results:
    * `longest_measures`    — `longest` is the greatest length of a match at the start of a text,
    * `find_eq_some`        — `find` delivers the leftmost of the longest matches,
    * `sub_of_found`, `gsub_match` — what a substitution makes of a text whose match is known,
    * `sub_through`         — a pattern that begins with `.*` takes the text up to the last match.
-/
import Mathlib.Computability.Language
import Mathlib.Order.Bounds.Image

namespace Awk

variable {α : Type*}

/-! ## §1. Patterns and their words. -/

/-- One symbol of a class, or any number of them. -/
inductive Item (α : Type*) where
  | one (p : α → Bool)
  | many (p : α → Bool)

/-- A regular expression without alternatives: a row of items, perhaps with `$` at its end. -/
structure Pattern (α : Type*) where
  items : List (Item α)
  atEnd : Bool

/-- The pattern that matches a text only. -/
def literal [DecidableEq α] (text : List α) : List (Item α) := text.map fun a => .one fun b => b = a

def Item.words : Item α → Language α
  | .one p => {w | ∃ a, p a = true ∧ w = [a]}
  | .many p => {w | ∀ a ∈ w, p a = true}

/-- The words that a row of items matches. -/
def words (items : List (Item α)) : Language α := (items.map Item.words).prod

/-- The lengths of the matches at the start of a text. -/
def lengths (atEnd : Bool) (items : List (Item α)) (s : List α) : Set Nat :=
  {n | ∃ w rest, s = w ++ rest ∧ w ∈ words items ∧ (atEnd = true → rest = []) ∧ w.length = n}

/-- The longest match of a run of a class and what follows it. -/
def longestRun (p : α → Bool) (next : List α → Option Nat) : List α → Option Nat
  | [] => next []
  | a :: s =>
      if p a then ((longestRun p next s).map (· + 1)).merge max (next (a :: s)) else next (a :: s)

/-- The length of the longest match at the start of a text. -/
def longest (atEnd : Bool) : List (Item α) → List α → Option Nat
  | [], s => if atEnd && !s.isEmpty then none else some 0
  | .one _ :: _, [] => none
  | .one p :: items, a :: s => if p a then (longest atEnd items s).map (· + 1) else none
  | .many p :: items, s => longestRun p (longest atEnd items) s

/-- The text before the leftmost match, the longest match there, and the text behind it. -/
def Pattern.find (pat : Pattern α) : List α → Option (List α × List α × List α)
  | [] => (longest pat.atEnd pat.items []).map fun _ => ([], [], [])
  | a :: s =>
      match longest pat.atEnd pat.items (a :: s) with
      | some n => some ([], (a :: s).take n, (a :: s).drop n)
      | none => (pat.find s).map fun found => (a :: found.1, found.2)

/-- `s ~ /pat/` -/
def Pattern.occurs (pat : Pattern α) (s : List α) : Bool := (pat.find s).isSome

/-- `sub(/pat/, new, s)` -/
def Pattern.sub (pat : Pattern α) (new s : List α) : List α :=
  match pat.find s with
  | some (before, _, after) => before ++ new ++ after
  | none => s

/-- The rest of a `gsub` with `skip` symbols of a match still to be left out. -/
def Pattern.gsubFrom (pat : Pattern α) (new : List α) : Nat → List α → List α
  | _, [] => []
  | skip + 1, _ :: s => pat.gsubFrom new skip s
  | 0, a :: s =>
      match longest pat.atEnd pat.items (a :: s) with
      | some (n + 1) => new ++ pat.gsubFrom new n s
      | _ => a :: pat.gsubFrom new 0 s

/-- `gsub(/pat/, new, s)`, for a pattern that does not match the empty text. -/
def Pattern.gsub (pat : Pattern α) (new s : List α) : List α := pat.gsubFrom new 0 s

/-- The fields of a record: what stands between blanks. -/
def fields (blank : α → Bool) (s : List α) : List (List α) :=
  (s.splitOnP blank).filter fun f => !f.isEmpty

/-! ## §2. The longest match. -/

theorem words_cons (item : Item α) (items : List (Item α)) :
    words (item :: items) = item.words * words items := List.prod_cons

theorem nil_mem_many (p : α → Bool) : [] ∈ (Item.many p).words := by
  intro b hb
  cases hb

section Lengths

variable {atEnd : Bool} {items : List (Item α)} {p : α → Bool} {a : α} {s : List α}

theorem lengths_nil : lengths atEnd [] s = {n | n = 0 ∧ (atEnd = true → s = [])} := by
  ext n
  constructor
  · rintro ⟨w, rest, rfl, hw, hend, rfl⟩
    obtain rfl : w = [] := hw
    exact ⟨rfl, hend⟩
  · rintro ⟨rfl, hend⟩
    exact ⟨[], s, rfl, rfl, hend, rfl⟩

theorem lengths_one_nil : lengths atEnd (.one p :: items) [] = ∅ := by
  rw [Set.eq_empty_iff_forall_notMem]
  rintro n ⟨w, rest, hs, hw, -, -⟩
  rw [words_cons, Language.mem_mul] at hw
  obtain ⟨_, ⟨b, -, rfl⟩, v, -, rfl⟩ := hw
  cases hs

theorem lengths_one_cons : lengths atEnd (.one p :: items) (a :: s)
    = if p a then (· + 1) '' lengths atEnd items s else ∅ := by
  ext n
  constructor
  · rintro ⟨w, rest, hs, hw, hend, rfl⟩
    rw [words_cons, Language.mem_mul] at hw
    obtain ⟨_, ⟨b, hb, rfl⟩, v, hv, rfl⟩ := hw
    obtain ⟨rfl, rfl⟩ := List.cons.inj hs
    rw [if_pos hb]
    exact ⟨v.length, ⟨v, rest, rfl, hv, hend, rfl⟩, rfl⟩
  · intro hn
    by_cases ha : p a = true
    · rw [if_pos ha] at hn
      obtain ⟨_, ⟨v, rest, rfl, hv, hend, rfl⟩, rfl⟩ := hn
      refine ⟨a :: v, rest, rfl, ?_, hend, rfl⟩
      rw [words_cons, Language.mem_mul]
      exact ⟨[a], ⟨a, ha, rfl⟩, v, hv, rfl⟩
    · rw [if_neg ha] at hn
      exact absurd hn (Set.notMem_empty n)

theorem lengths_many_nil : lengths atEnd (.many p :: items) [] = lengths atEnd items [] := by
  ext n
  constructor
  · rintro ⟨w, rest, hs, hw, hend, rfl⟩
    rw [words_cons, Language.mem_mul] at hw
    obtain ⟨u, -, v, hv, rfl⟩ := hw
    obtain ⟨huv, rfl⟩ := List.append_eq_nil_iff.mp hs.symm
    obtain ⟨rfl, rfl⟩ := List.append_eq_nil_iff.mp huv
    exact ⟨[], [], rfl, hv, hend, rfl⟩
  · rintro ⟨w, rest, hs, hw, hend, rfl⟩
    refine ⟨w, rest, hs, ?_, hend, rfl⟩
    rw [words_cons, Language.mem_mul]
    exact ⟨[], nil_mem_many p, w, hw, rfl⟩

/-- A run takes no symbol, or one and then a run. -/
theorem lengths_many_cons : lengths atEnd (.many p :: items) (a :: s)
    = (if p a then (· + 1) '' lengths atEnd (.many p :: items) s else ∅)
      ∪ lengths atEnd items (a :: s) := by
  ext n
  constructor
  · rintro ⟨w, rest, hs, hw, hend, rfl⟩
    rw [words_cons, Language.mem_mul] at hw
    obtain ⟨u, hu, v, hv, rfl⟩ := hw
    cases u with
    | nil => exact .inr ⟨v, rest, hs, hv, hend, rfl⟩
    | cons b u =>
        obtain ⟨rfl, rfl⟩ := List.cons.inj hs
        refine .inl ?_
        rw [if_pos (hu a (by simp))]
        refine ⟨(u ++ v).length, ⟨u ++ v, rest, rfl, ?_, hend, rfl⟩, rfl⟩
        rw [words_cons, Language.mem_mul]
        exact ⟨u, fun b hb => hu b (List.mem_cons_of_mem a hb), v, hv, rfl⟩
  · rintro (hn | hn)
    · by_cases ha : p a = true
      · rw [if_pos ha] at hn
        obtain ⟨_, ⟨w, rest, rfl, hw, hend, rfl⟩, rfl⟩ := hn
        rw [words_cons, Language.mem_mul] at hw
        obtain ⟨u, hu, v, hv, rfl⟩ := hw
        refine ⟨a :: (u ++ v), rest, rfl, ?_, hend, rfl⟩
        rw [words_cons, Language.mem_mul]
        exact ⟨a :: u, List.forall_mem_cons.mpr ⟨ha, hu⟩, v, hv, rfl⟩
      · rw [if_neg ha] at hn
        exact absurd hn (Set.notMem_empty n)
    · obtain ⟨w, rest, hs, hw, hend, rfl⟩ := hn
      refine ⟨w, rest, hs, ?_, hend, rfl⟩
      rw [words_cons, Language.mem_mul]
      exact ⟨[], nil_mem_many p, w, hw, rfl⟩

end Lengths

/-- The greatest element of a set of numbers, if it has one. -/
def Measures (o : Option Nat) (S : Set Nat) : Prop :=
  match o with
  | some n => IsGreatest S n
  | none => S = ∅

theorem Measures.succ {o : Option Nat} {S : Set Nat} (h : Measures o S) :
    Measures (o.map (· + 1)) ((· + 1) '' S) := by
  cases o with
  | none =>
      show (· + 1) '' S = ∅
      rw [show S = ∅ from h, Set.image_empty]
  | some n =>
      have hmono : Monotone (· + 1 : Nat → Nat) := fun m n hmn => Nat.succ_le_succ hmn
      exact hmono.map_isGreatest h

theorem Measures.union {o o' : Option Nat} {S S' : Set Nat} (h : Measures o S) (h' : Measures o' S') :
    Measures (o.merge max o') (S ∪ S') := by
  cases o with
  | none =>
      rw [show S = ∅ from h, Set.empty_union, Option.merge_none_left]
      exact h'
  | some n =>
      cases o' with
      | none =>
          rw [show S' = ∅ from h', Set.union_empty, Option.merge_none_right]
          exact h
      | some n' => exact IsGreatest.union h h'

/-- **`longest` measures the matches at the start of a text.** -/
theorem longest_measures (atEnd : Bool) (items : List (Item α)) :
    ∀ s, Measures (longest atEnd items s) (lengths atEnd items s) := by
  induction items with
  | nil =>
      intro s
      rw [lengths_nil]
      cases atEnd with
      | false => exact ⟨⟨rfl, fun h => by cases h⟩, fun n hn => le_of_eq hn.1⟩
      | true =>
          cases s with
          | nil => exact ⟨⟨rfl, fun _ => rfl⟩, fun n hn => le_of_eq hn.1⟩
          | cons a s =>
              exact Set.eq_empty_iff_forall_notMem.mpr fun n hn => by cases hn.2 rfl
  | cons item items ih =>
      cases item with
      | one p =>
          intro s
          cases s with
          | nil => exact lengths_one_nil
          | cons a s =>
              rw [lengths_one_cons, longest]
              split
              · exact (ih s).succ
              · rfl
      | many p =>
          -- along the text: a run that goes on, or what follows it
          intro s
          show Measures (longestRun p (longest atEnd items) s) _
          induction s with
          | nil =>
              rw [lengths_many_nil]
              exact ih []
          | cons a s ihs =>
              rw [lengths_many_cons, longestRun]
              split
              · exact ihs.succ.union (ih (a :: s))
              · rw [Set.empty_union]
                exact ih (a :: s)

theorem longest_eq_some {atEnd : Bool} {items : List (Item α)} {s : List α} {n : Nat} :
    longest atEnd items s = some n ↔ IsGreatest (lengths atEnd items s) n := by
  have h := longest_measures atEnd items s
  constructor
  · intro heq
    rw [heq] at h
    exact h
  · intro hn
    cases hm : longest atEnd items s with
    | none =>
        rw [hm] at h
        exact absurd ((show lengths atEnd items s = ∅ from h) ▸ hn.1) (Set.notMem_empty n)
    | some m =>
        rw [hm] at h
        rw [IsGreatest.unique h hn]

theorem longest_eq_none {atEnd : Bool} {items : List (Item α)} {s : List α} :
    longest atEnd items s = none ↔ lengths atEnd items s = ∅ := by
  have h := longest_measures atEnd items s
  constructor
  · intro heq
    rw [heq] at h
    exact h
  · intro hempty
    cases hm : longest atEnd items s with
    | none => rfl
    | some m =>
        rw [hm] at h
        exact absurd (hempty ▸ h.1) (Set.notMem_empty m)

/-! ## §3. The leftmost match. -/

/-- The leftmost of the longest matches: `found`, with `before` and `after` around it. -/
structure Found (pat : Pattern α) (s before found after : List α) : Prop where
  text : s = before ++ (found ++ after)
  longest : longest pat.atEnd pat.items (found ++ after) = some found.length
  first : ∀ l a r, before = l ++ a :: r →
    Awk.longest pat.atEnd pat.items (a :: (r ++ (found ++ after))) = none

theorem longest_le {atEnd : Bool} {items : List (Item α)} {s : List α} {n : Nat}
    (h : longest atEnd items s = some n) : n ≤ s.length := by
  obtain ⟨⟨w, rest, rfl, -, -, rfl⟩, -⟩ := longest_eq_some.mp h
  rw [List.length_append]
  exact Nat.le_add_right _ _

theorem Found.cons {pat : Pattern α} {s before found after : List α} {a : α}
    (hnone : Awk.longest pat.atEnd pat.items (a :: s) = none) :
    Found pat (a :: s) (a :: before) found after ↔ Found pat s before found after := by
  constructor
  · intro h
    refine ⟨(List.cons.inj h.text).2, h.longest, fun l b r hsplit => h.first (a :: l) b r ?_⟩
    rw [hsplit]
    rfl
  · intro h
    refine ⟨by rw [h.text]; rfl, h.longest, fun l b r hsplit => ?_⟩
    cases l with
    | nil =>
        obtain ⟨rfl, rfl⟩ := List.cons.inj hsplit
        rw [← h.text]
        exact hnone
    | cons c l => exact h.first l b r (List.cons.inj hsplit).2

/-- **`find` delivers the leftmost of the longest matches.** -/
theorem find_eq_some {pat : Pattern α} {s before found after : List α} :
    pat.find s = some (before, found, after) ↔ Found pat s before found after := by
  induction s generalizing before with
  | nil =>
      rw [Pattern.find]
      constructor
      · intro h
        obtain ⟨n, hn, heq⟩ := Option.map_eq_some_iff.mp h
        obtain ⟨rfl, rfl, rfl⟩ : [] = before ∧ [] = found ∧ [] = after := by
          simpa only [Prod.mk.injEq] using heq
        obtain rfl : n = 0 := Nat.le_zero.mp (longest_le hn)
        exact ⟨rfl, hn, fun l a r hsplit => by simp at hsplit⟩
      · intro h
        obtain ⟨rfl, hrest⟩ := List.append_eq_nil_iff.mp h.text.symm
        obtain ⟨rfl, rfl⟩ := List.append_eq_nil_iff.mp hrest
        have hlongest : Awk.longest pat.atEnd pat.items [] = some 0 := h.longest
        rw [hlongest]
        rfl
  | cons a s ih =>
      rw [Pattern.find]
      cases hlongest : Awk.longest pat.atEnd pat.items (a :: s) with
      | none =>
          show (pat.find s).map _ = _ ↔ _
          constructor
          · intro h
            obtain ⟨⟨before', found', after'⟩, hfind, heq⟩ := Option.map_eq_some_iff.mp h
            obtain ⟨rfl, rfl, rfl⟩ : a :: before' = before ∧ found' = found ∧ after' = after := by
              simpa only [Prod.mk.injEq] using heq
            exact (Found.cons hlongest).mpr (ih.mp hfind)
          · intro h
            cases before with
            | nil =>
                have htext : a :: s = found ++ after := h.text
                have := h.longest
                rw [← htext, hlongest] at this
                cases this
            | cons b before =>
                obtain ⟨rfl, -⟩ := List.cons.inj h.text
                rw [ih.mpr ((Found.cons hlongest).mp h)]
                rfl
      | some n =>
          show some _ = some _ ↔ _
          have hle := longest_le hlongest
          constructor
          · intro h
            obtain ⟨rfl, rfl, rfl⟩ :
                [] = before ∧ (a :: s).take n = found ∧ (a :: s).drop n = after := by
              simpa only [Option.some.injEq, Prod.mk.injEq] using h
            have htext : (a :: s).take n ++ (a :: s).drop n = a :: s := List.take_append_drop n _
            refine ⟨htext.symm, ?_, fun l b r hsplit => by simp at hsplit⟩
            rw [htext, hlongest, List.length_take, Nat.min_eq_left hle]
          · intro h
            cases before with
            | nil =>
                have htext : a :: s = found ++ after := h.text
                have hfound := h.longest
                rw [← htext, hlongest] at hfound
                rw [htext, Option.some.inj hfound, List.take_left, List.drop_left]
            | cons b before =>
                obtain ⟨rfl, hs⟩ := List.cons.inj h.text
                have := h.first [] a before rfl
                rw [show before ++ (found ++ after) = s from hs.symm, hlongest] at this
                cases this

theorem find_eq_none {pat : Pattern α} {s : List α} :
    pat.find s = none ↔ ∀ l r, s = l ++ r → longest pat.atEnd pat.items r = none := by
  induction s with
  | nil =>
      rw [Pattern.find, Option.map_eq_none_iff]
      constructor
      · intro h l r hsplit
        rw [(List.append_eq_nil_iff.mp hsplit.symm).2]
        exact h
      · exact fun h => h [] [] rfl
  | cons a s ih =>
      rw [Pattern.find]
      cases hlongest : longest pat.atEnd pat.items (a :: s) with
      | some n =>
          show some _ = none ↔ _
          constructor
          · intro h
            cases h
          · intro h
            exact absurd (hlongest.symm.trans (h [] (a :: s) rfl)) (by simp)
      | none =>
          show (pat.find s).map _ = none ↔ _
          rw [Option.map_eq_none_iff, ih]
          constructor
          · intro h l r hsplit
            cases l with
            | nil => exact (show r = a :: s from hsplit.symm) ▸ hlongest
            | cons b l => exact h l r (List.cons.inj hsplit).2
          · intro h l r hsplit
            exact h (a :: l) r (by rw [hsplit]; rfl)

/-- A pattern occurs where a word of it stands, at the end of the text if it is tied to it. -/
theorem occurs_iff {pat : Pattern α} {s : List α} : pat.occurs s = true
    ↔ ∃ l w r, s = l ++ (w ++ r) ∧ w ∈ words pat.items ∧ (pat.atEnd = true → r = []) := by
  have hnone : pat.occurs s = false ↔ _ := Option.isSome_eq_false_iff.trans
    (Option.isNone_iff_eq_none.trans find_eq_none)
  rw [← Bool.not_eq_false, hnone]
  push Not
  constructor
  · rintro ⟨l, t, rfl, ht⟩
    rw [ne_eq, longest_eq_none, ← ne_eq, ← Set.nonempty_iff_ne_empty] at ht
    obtain ⟨_, w, r, rfl, hw, hend, -⟩ := ht
    exact ⟨l, w, r, rfl, hw, hend⟩
  · rintro ⟨l, w, r, rfl, hw, hend⟩
    refine ⟨l, w ++ r, rfl, ?_⟩
    rw [ne_eq, longest_eq_none, ← ne_eq, ← Set.nonempty_iff_ne_empty]
    exact ⟨w.length, w, r, rfl, hw, hend, rfl⟩

/-! ## §4. What is left of a text. -/

section Bounds

variable {pat : Pattern α} {new s : List α} {b : α}

theorem mem_sub (h : b ∈ pat.sub new s) : b ∈ new ∨ b ∈ s := by
  unfold Pattern.sub at h
  split at h
  · next before found after hfind =>
      have hs := (find_eq_some.mp hfind).text
      rcases List.mem_append.mp h with h | h
      · rcases List.mem_append.mp h with h | h
        · exact .inr (by rw [hs]; exact List.mem_append_left _ h)
        · exact .inl h
      · exact .inr (by rw [hs]; exact List.mem_append_right _ (List.mem_append_right _ h))
  · exact .inr h

theorem length_sub_le : (pat.sub new s).length ≤ new.length + s.length := by
  unfold Pattern.sub
  split
  · next before found after hfind =>
      rw [(find_eq_some.mp hfind).text]
      simp only [List.length_append]
      omega
  · omega

theorem mem_gsubFrom :
    ∀ {s : List α} {skip : Nat}, b ∈ pat.gsubFrom new skip s → b ∈ new ∨ b ∈ s := by
  intro s
  induction s with
  | nil =>
      intro skip h
      cases skip <;> cases h
  | cons a s ih =>
      have hlater : ∀ {skip}, b ∈ pat.gsubFrom new skip s → b ∈ new ∨ b ∈ a :: s := fun h =>
        (ih h).imp_right (List.mem_cons_of_mem a)
      intro skip h
      cases skip with
      | succ skip => exact hlater h
      | zero =>
          rw [Pattern.gsubFrom] at h
          split at h
          · rcases List.mem_append.mp h with h | h
            · exact .inl h
            · exact hlater h
          · rcases List.mem_cons.mp h with rfl | h
            · exact .inr List.mem_cons_self
            · exact hlater h

theorem mem_gsub (h : b ∈ pat.gsub new s) : b ∈ new ∨ b ∈ s := mem_gsubFrom h

/-- With a replacement of one symbol at most a text does not grow. -/
theorem length_gsubFrom_le (hnew : new.length ≤ 1) :
    ∀ {s : List α} {skip : Nat}, (pat.gsubFrom new skip s).length ≤ s.length := by
  intro s
  induction s with
  | nil =>
      intro skip
      cases skip <;> exact Nat.le_refl 0
  | cons a s ih =>
      intro skip
      cases skip with
      | succ skip => exact Nat.le_succ_of_le ih
      | zero =>
          rw [Pattern.gsubFrom, List.length_cons]
          split
          · next n _ =>
              have := @ih n
              rw [List.length_append]
              omega
          · have := @ih 0
            rw [List.length_cons]
            omega

theorem length_gsub_le (hnew : new.length ≤ 1) : (pat.gsub new s).length ≤ s.length :=
  length_gsubFrom_le hnew

end Bounds

section Fields

variable {blank : α → Bool}

/-- A text is cut into pieces of it that are free of blanks. -/
theorem splitOnP_pieces (blank : α → Bool) (s : List α) : ∃ f fs, s.splitOnP blank = f :: fs ∧ f <+: s
    ∧ (∀ g ∈ fs, g <:+: s) ∧ ∀ g ∈ f :: fs, ∀ b ∈ g, blank b = false := by
  induction s with
  | nil => exact ⟨[], [], List.splitOnP_nil, List.prefix_rfl, by simp, by simp⟩
  | cons a s ih =>
      obtain ⟨f, fs, hsplit, hf, hfs, hfree⟩ := ih
      have hpiece : ∀ g, g <:+: s → g <:+: a :: s := fun g h => h.trans (List.suffix_cons a s).isInfix
      rw [List.splitOnP_cons_eq_if_modifyHead, hsplit]
      cases ha : blank a with
      | true =>
          refine ⟨[], f :: fs, by rw [if_pos rfl], List.nil_prefix, ?_, ?_⟩
          · exact List.forall_mem_cons.mpr ⟨hpiece f hf.isInfix, fun g hg => hpiece g (hfs g hg)⟩
          · exact List.forall_mem_cons.mpr ⟨fun b hb => (List.not_mem_nil hb).elim, hfree⟩
      | false =>
          refine ⟨a :: f, fs, by rw [if_neg (by decide)]; rfl, ?_, fun g hg => hpiece g (hfs g hg), ?_⟩
          · exact List.cons_prefix_cons.mpr ⟨rfl, hf⟩
          · obtain ⟨hfirst, hrest⟩ := List.forall_mem_cons.mp hfree
            exact List.forall_mem_cons.mpr ⟨List.forall_mem_cons.mpr ⟨ha, hfirst⟩, hrest⟩

/-- A field is a piece of the text, free of blanks and not empty. -/
theorem mem_fields {s f : List α} (h : f ∈ fields blank s) :
    f <:+: s ∧ f ≠ [] ∧ ∀ b ∈ f, blank b = false := by
  obtain ⟨g, gs, hsplit, hg, hgs, hfree⟩ := splitOnP_pieces blank s
  obtain ⟨hmem, hne⟩ := List.mem_filter.mp h
  rw [hsplit] at hmem
  refine ⟨?_, by simpa using hne, hfree f hmem⟩
  rcases List.mem_cons.mp hmem with rfl | hmem
  · exact hg.isInfix
  · exact hgs f hmem

theorem fields_append_blank {x y : List α} {b : α} (hb : blank b = true) :
    fields blank (x ++ b :: y) = fields blank x ++ fields blank y := by
  unfold fields
  rw [List.splitOnP_append_cons x y hb, List.filter_append]

theorem fields_word {w : List α} (hne : w ≠ []) (hw : ∀ b ∈ w, blank b = false) :
    fields blank w = [w] := by
  unfold fields
  rw [List.splitOnP_eq_singleton hw]
  cases w with
  | nil => exact absurd rfl hne
  | cons a w => rfl

end Fields

/-! ## §5. Literal texts and runs. -/

section Literals

variable [DecidableEq α] {atEnd : Bool} {items : List (Item α)} {t s w : List α} {p : α → Bool}

theorem literal_cons (a : α) (t : List α) : literal (a :: t) = .one (fun b => b = a) :: literal t := rfl

theorem mem_words_literal : w ∈ words (literal t ++ items) ↔ ∃ v ∈ words items, w = t ++ v := by
  induction t generalizing w with
  | nil => exact ⟨fun h => ⟨w, h, rfl⟩, fun ⟨v, hv, hw⟩ => (show w = v from hw) ▸ hv⟩
  | cons a t ih =>
      rw [literal_cons, List.cons_append, words_cons, Language.mem_mul]
      constructor
      · rintro ⟨_, ⟨b, hb, rfl⟩, u, hu, rfl⟩
        obtain ⟨v, hv, rfl⟩ := ih.mp hu
        obtain rfl := of_decide_eq_true hb
        exact ⟨v, hv, rfl⟩
      · rintro ⟨v, hv, rfl⟩
        exact ⟨[a], ⟨a, decide_eq_true rfl, rfl⟩, t ++ v, ih.mpr ⟨v, hv, rfl⟩, rfl⟩

theorem mem_words_text : w ∈ words (literal t) ↔ w = t := by
  rw [← List.append_nil (literal t), mem_words_literal]
  constructor
  · rintro ⟨v, hv, rfl⟩
    rw [show v = [] from hv, List.append_nil]
  · rintro rfl
    exact ⟨[], rfl, (List.append_nil w).symm⟩

omit [DecidableEq α] in
theorem mem_words_many : w ∈ words (.many p :: items)
    ↔ ∃ u v, w = u ++ v ∧ (∀ a ∈ u, p a = true) ∧ v ∈ words items := by
  rw [words_cons, Language.mem_mul]
  constructor
  · rintro ⟨u, hu, v, hv, rfl⟩
    exact ⟨u, v, rfl, hu, hv⟩
  · rintro ⟨u, v, rfl, hu, hv⟩
    exact ⟨u, hu, v, hv, rfl⟩

theorem longest_literal (s : List α) : longest atEnd (literal t ++ items) (t ++ s)
    = (longest atEnd items s).map (· + t.length) := by
  induction t with
  | nil =>
      show longest atEnd items s = _
      cases longest atEnd items s <;> rfl
  | cons a t ih =>
      rw [literal_cons, List.cons_append, List.cons_append, longest, if_pos (decide_eq_true rfl), ih]
      cases longest atEnd items s with
      | none => rfl
      | some n => exact congrArg some (Nat.add_assoc n t.length 1)

/-- Where a text does not stand no pattern that begins with it matches. -/
theorem longest_literal_none (h : ¬ t <+: s) : longest atEnd (literal t ++ items) s = none := by
  refine longest_eq_none.mpr (Set.eq_empty_iff_forall_notMem.mpr ?_)
  rintro n ⟨w, rest, rfl, hw, -, -⟩
  obtain ⟨v, -, rfl⟩ := mem_words_literal.mp hw
  exact h ⟨v ++ rest, (List.append_assoc _ _ _).symm⟩

omit [DecidableEq α] in
/-- A run goes to its end, if what follows does not begin within the class. -/
theorem longest_run {d : List α} (hd : ∀ a ∈ d, p a = true) (hs : ∀ a r, s = a :: r → p a = false)
    (hitems : ∀ a r, p a = true → longest atEnd items (a :: r) = none) :
    longest atEnd (.many p :: items) (d ++ s) = (longest atEnd items s).map (· + d.length) := by
  show longestRun p (longest atEnd items) (d ++ s) = _
  induction d with
  | nil =>
      cases s with
      | nil =>
          show longest atEnd items [] = _
          cases longest atEnd items [] <;> rfl
      | cons a r =>
          show longestRun p (longest atEnd items) (a :: r) = _
          rw [longestRun, if_neg (by rw [hs a r rfl]; exact Bool.false_ne_true)]
          cases longest atEnd items (a :: r) <;> rfl
  | cons a d ih =>
      obtain ⟨ha, hd⟩ := List.forall_mem_cons.mp hd
      rw [List.cons_append, longestRun, if_pos ha, ih hd, hitems a _ ha, Option.merge_none_right]
      cases longest atEnd items s with
      | none => rfl
      | some n => exact congrArg some (Nat.add_assoc n d.length 1)

omit [DecidableEq α] in
/-- A run at the end of a pattern goes as far as it can. -/
theorem longest_run_last {d : List α} (hd : ∀ a ∈ d, p a = true)
    (hs : ∀ a r, s = a :: r → p a = false) :
    longest false [.many p] (d ++ s) = some d.length := by
  show longestRun p (longest false []) (d ++ s) = _
  induction d with
  | nil =>
      cases s with
      | nil => rfl
      | cons a r =>
          show longestRun p (longest false []) (a :: r) = _
          rw [longestRun, if_neg (by rw [hs a r rfl]; exact Bool.false_ne_true)]
          rfl
  | cons a d ih =>
      obtain ⟨ha, hd⟩ := List.forall_mem_cons.mp hd
      rw [List.cons_append, longestRun, if_pos ha, ih hd]
      rfl

end Literals

/-! ## §6. Substitutions. -/

section Substitutions

variable {pat : Pattern α} {new s u w before found after : List α}

theorem sub_of_found (h : Found pat s before found after) :
    pat.sub new s = before ++ new ++ after := by
  unfold Pattern.sub
  rw [find_eq_some.mpr h]

theorem sub_of_absent (h : pat.occurs s = false) : pat.sub new s = s := by
  have hnone : pat.find s = none := Option.isNone_iff_eq_none.mp (Option.isSome_eq_false_iff.mp h)
  unfold Pattern.sub
  rw [hnone]

theorem gsubFrom_skip (s : List α) : pat.gsubFrom new w.length (w ++ s) = pat.gsubFrom new 0 s := by
  induction w with
  | nil => rfl
  | cons a w ih => exact ih

/-- A match is replaced, and the search goes on behind it. -/
theorem gsub_match (hw : w ≠ []) (h : longest pat.atEnd pat.items (w ++ s) = some w.length) :
    pat.gsub new (w ++ s) = new ++ pat.gsub new s := by
  cases w with
  | nil => exact absurd rfl hw
  | cons a w =>
      unfold Pattern.gsub
      have h' : longest pat.atEnd pat.items (a :: (w ++ s)) = some (w.length + 1) := h
      rw [List.cons_append, Pattern.gsubFrom, h']
      show new ++ pat.gsubFrom new w.length (w ++ s) = _
      rw [gsubFrom_skip]

/-- What begins no match is kept. -/
theorem gsub_keep (h : ∀ l a r, u = l ++ a :: r → longest pat.atEnd pat.items (a :: (r ++ s)) = none) :
    pat.gsub new (u ++ s) = u ++ pat.gsub new s := by
  induction u with
  | nil => rfl
  | cons a u ih =>
      have hrest := ih fun l b r hu => h (a :: l) b r (by rw [hu]; rfl)
      unfold Pattern.gsub at hrest ⊢
      rw [List.cons_append, Pattern.gsubFrom, h [] a u rfl]
      exact congrArg (a :: ·) hrest

variable [DecidableEq α] {t : List α}

theorem text_occurs_iff : (⟨literal t, false⟩ : Pattern α).occurs s = true ↔ t <:+: s := by
  rw [occurs_iff]
  constructor
  · rintro ⟨l, w, r, rfl, hw, -⟩
    obtain rfl := mem_words_text.mp hw
    exact ⟨l, r, List.append_assoc _ _ _⟩
  · rintro ⟨l, r, rfl⟩
    exact ⟨l, t, r, List.append_assoc _ _ _, mem_words_text.mpr rfl, fun h => by cases h⟩

/-- **Everything up to the last `t`.** -/
theorem sub_through {any : α → Bool} (hany : ∀ a, any a = true) {p q : List α} (ht : t ≠ [])
    (hlast : ¬ t <:+: t.tail ++ q) :
    (⟨.many any :: literal t, false⟩ : Pattern α).sub new (p ++ (t ++ q)) = new ++ q := by
  -- a match that ends later would hold a later `t`
  have hlongest : ∀ l r, p ++ (t ++ q) = l ++ (t ++ r) → l.length ≤ p.length := by
    intro l r h
    rcases List.append_eq_append_iff.mp h with ⟨c, rfl, hc⟩ | ⟨c, rfl, -⟩
    · cases c with
      | nil => rw [List.append_nil]
      | cons a c =>
          refine absurd ⟨c, r, ?_⟩ hlast
          cases t with
          | nil => exact absurd rfl ht
          | cons b t =>
              rw [List.append_assoc]
              exact (List.cons.inj hc).2.symm
    · rw [List.length_append]
      exact Nat.le_add_right _ _
  have hfound : Found ⟨.many any :: literal t, false⟩ (p ++ (t ++ q)) [] (p ++ t) q := by
    refine ⟨(List.append_assoc _ _ _).symm, longest_eq_some.mpr ⟨?_, ?_⟩, fun l a r h => by simp at h⟩
    · refine ⟨p ++ t, q, rfl, ?_, fun h => Bool.noConfusion h, rfl⟩
      exact mem_words_many.mpr ⟨p, t, rfl, fun a _ => hany a, mem_words_text.mpr rfl⟩
    · rintro n ⟨w, rest, hs, hw, -, rfl⟩
      obtain ⟨u, v, rfl, -, hv⟩ := mem_words_many.mp hw
      obtain rfl := mem_words_text.mp hv
      have := hlongest u rest (by rw [← List.append_assoc, hs, List.append_assoc])
      simp only [List.length_append]
      omega
  exact sub_of_found hfound

theorem sub_through_absent {any : α → Bool} (h : ¬ t <:+: s) :
    (⟨.many any :: literal t, false⟩ : Pattern α).sub new s = s := by
  refine sub_of_absent (Bool.eq_false_of_not_eq_true fun hocc => h ?_)
  obtain ⟨l, w, r, rfl, hw, -⟩ := occurs_iff.mp hocc
  obtain ⟨u, v, rfl, -, hv⟩ := mem_words_many.mp hw
  obtain rfl := mem_words_text.mp hv
  exact ⟨l ++ u, r, by simp only [List.append_assoc]⟩

/-- **A text at the end.** -/
theorem sub_end : (⟨literal t, true⟩ : Pattern α).sub new (s ++ t) = s ++ new := by
  have hfound : Found ⟨literal t, true⟩ (s ++ t) s t [] := by
    refine ⟨by rw [List.append_nil], longest_eq_some.mpr ⟨?_, ?_⟩, ?_⟩
    · exact ⟨t, [], rfl, mem_words_text.mpr rfl, fun _ => rfl, rfl⟩
    · rintro n ⟨w, rest, -, hw, -, rfl⟩
      rw [mem_words_text.mp hw]
    · rintro l a r -
      refine longest_eq_none.mpr (Set.eq_empty_iff_forall_notMem.mpr ?_)
      rintro n ⟨w, rest, hs, hw, hend, -⟩
      obtain rfl := hend rfl
      have hlen := congrArg List.length hs
      rw [mem_words_text.mp hw] at hlen
      simp only [List.length_cons, List.length_append, List.length_nil] at hlen
      omega
  rw [sub_of_found hfound, List.append_nil]

theorem sub_end_absent (h : ¬ t <:+ s) : (⟨literal t, true⟩ : Pattern α).sub new s = s := by
  refine sub_of_absent (Bool.eq_false_of_not_eq_true fun hocc => h ?_)
  obtain ⟨l, w, r, rfl, hw, hend⟩ := occurs_iff.mp hocc
  obtain rfl := hend rfl
  rw [mem_words_text.mp hw, List.append_nil]
  exact List.suffix_append _ _

end Substitutions

/-! ## §7. Marks. -/

/-- A text with a mark in it stands where that mark is. -/
theorem infix_mark {x y a rest : List α} {m : α} (hx : m ∉ x) (ha : m ∉ a) :
    x ++ m :: y <:+: a ++ m :: rest ↔ (x <:+ a ∧ y <+: rest) ∨ x ++ m :: y <:+: rest := by
  constructor
  · rintro ⟨l, r, heq⟩
    have heq' : l ++ (x ++ (m :: y ++ r)) = a ++ m :: rest := by simpa using heq
    rcases List.append_eq_append_iff.mp heq' with ⟨c, hac, hxc⟩ | ⟨c, hlc, hmc⟩
    · -- the text begins before the mark: it has its own mark there
      rcases List.append_eq_append_iff.mp hxc with ⟨d, hcd, hmd⟩ | ⟨d, hxd, hmd⟩
      · cases d with
        | nil =>
            obtain ⟨-, hrest⟩ := List.cons.inj hmd
            refine .inl ⟨⟨l, by rw [hac, hcd, List.append_nil]⟩, r, hrest⟩
        | cons e d =>
            obtain ⟨rfl, -⟩ := List.cons.inj hmd
            exact absurd (by rw [hac, hcd]; simp : m ∈ a) ha
      · cases d with
        | nil =>
            obtain ⟨-, hrest⟩ := List.cons.inj hmd
            refine .inl ⟨⟨l, by rw [hac, hxd, List.append_nil]⟩, r, hrest.symm⟩
        | cons e d =>
            obtain ⟨rfl, -⟩ := List.cons.inj hmd
            exact absurd (by rw [hxd]; simp : m ∈ x) hx
    · cases c with
      | nil =>
          -- at the mark, or not at all
          cases x with
          | nil =>
              obtain ⟨-, hrest⟩ := List.cons.inj (show m :: rest = m :: (y ++ r) from hmc)
              exact .inl ⟨List.nil_suffix, r, hrest.symm⟩
          | cons b x =>
              obtain ⟨rfl, -⟩ := List.cons.inj (show m :: rest = b :: (x ++ (m :: y ++ r)) from hmc)
              exact absurd List.mem_cons_self hx
      | cons b c =>
          obtain ⟨-, hrest⟩ := List.cons.inj (show m :: rest = b :: (c ++ (x ++ (m :: y ++ r))) from hmc)
          exact .inr ⟨c, r, by rw [hrest]; simp⟩
  · rintro (⟨⟨l, rfl⟩, ⟨r, rfl⟩⟩ | ⟨l, r, rfl⟩)
    · exact ⟨l, r, by simp⟩
    · exact ⟨a ++ m :: l, r, by simp⟩

/-- The first mark of a text. -/
theorem first_mark {x x' z z' : List α} {m : α} (h : x ++ m :: z = x' ++ m :: z')
    (hx : m ∉ x) (hx' : m ∉ x') :
    x = x' ∧ z = z' := by
  rcases List.append_eq_append_iff.mp h with ⟨c, rfl, hc⟩ | ⟨c, rfl, hc⟩
  · cases c with
    | nil => exact ⟨(List.append_nil x).symm, (List.cons.inj hc).2⟩
    | cons b c =>
        obtain ⟨rfl, -⟩ := List.cons.inj hc
        exact absurd (by simp) hx'
  · cases c with
    | nil => exact ⟨List.append_nil x', (List.cons.inj hc).2.symm⟩
    | cons b c =>
        obtain ⟨rfl, -⟩ := List.cons.inj hc
        exact absurd (by simp) hx

/-- The last mark of a text. -/
theorem last_mark {x x' z z' : List α} {m : α} (h : x ++ m :: z = x' ++ m :: z')
    (hz : m ∉ z) (hz' : m ∉ z') :
    x = x' ∧ z = z' := by
  have hrev : z.reverse ++ m :: x.reverse = z'.reverse ++ m :: x'.reverse := by
    have := congrArg List.reverse h
    simpa using this
  obtain ⟨hzz, hxx⟩ := first_mark hrev (by simpa using hz) (by simpa using hz')
  exact ⟨List.reverse_injective hxx, List.reverse_injective hzz⟩

theorem not_infix_of_mark {x y s : List α} {m : α} (hs : m ∉ s) : ¬ x ++ m :: y <:+: s :=
  fun h => hs (h.subset (by simp))

end Awk
