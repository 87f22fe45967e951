/-
  DirSurveiller.Lib.History — what a program remembers, read off the list of what has happened.

  A register holds what the last event that concerns it put there.  `lastSome` looks this up in the
  history, and `lastSome_getD_concat` says how the answer changes as the history goes on: a program
  that keeps the register need not look back.  `collect` goes through a history with each event's
  past at hand.
-/
import Mathlib.Data.List.Induction

namespace History

variable {ι β γ : Type*}

/-- An event of a history that goes on is the newest one, or one of those before it. -/
theorem concat_eq_split {past rest is : List ι} {i j : ι} : is ++ [j] = past ++ i :: rest
    ↔ (is = past ∧ j = i ∧ rest = []) ∨ ∃ rest', is = past ++ i :: rest' ∧ rest = rest' ++ [j] := by
  constructor
  · intro h
    cases rest using List.reverseRecOn with
    | nil =>
        obtain ⟨his, hij⟩ := List.append_inj' h rfl
        exact .inl ⟨his, List.singleton_inj.mp hij, rfl⟩
    | append_singleton rest x =>
        have h' : is ++ [j] = (past ++ i :: rest) ++ [x] := by
          rw [h, List.append_assoc]
          rfl
        obtain ⟨his, hjx⟩ := List.append_inj' h' rfl
        exact .inr ⟨rest, his, by rw [List.singleton_inj.mp hjx]⟩
  · rintro (⟨rfl, rfl, rfl⟩ | ⟨rest', rfl, rfl⟩)
    · rfl
    · rw [List.append_assoc]
      rfl

/-- What the last event that concerns a register put there. -/
def lastSome (f : ι → Option β) (is : List ι) : Option β := is.reverse.findSome? f

theorem lastSome_concat (f : ι → Option β) (is : List ι) (i : ι) :
    lastSome f (is ++ [i]) = (f i).or (lastSome f is) := by
  unfold lastSome
  rw [List.reverse_append, List.reverse_singleton, List.singleton_append, List.findSome?_cons]
  cases f i with
  | none => rfl
  | some v => rfl

theorem lastSome_eq_some {f : ι → Option β} {is : List ι} {v : β} : lastSome f is = some v
    ↔ ∃ past i rest, is = past ++ i :: rest ∧ f i = some v ∧ ∀ x ∈ rest, f x = none := by
  unfold lastSome
  rw [List.findSome?_eq_some_iff]
  constructor
  · rintro ⟨rest, i, past, his, hi, hrest⟩
    refine ⟨past.reverse, i, rest.reverse, ?_, hi, fun x hx => hrest x (List.mem_reverse.mp hx)⟩
    rw [← List.reverse_reverse is, his, List.reverse_append, List.reverse_cons, List.append_assoc]
    rfl
  · rintro ⟨past, i, rest, rfl, hi, hrest⟩
    refine ⟨rest.reverse, i, past.reverse, ?_, hi, fun x hx => hrest x (List.mem_reverse.mp hx)⟩
    rw [List.reverse_append, List.reverse_cons, List.append_assoc]
    rfl

/-- One more event: it says what the register holds, or the register keeps what it held. -/
theorem lastSome_getD_concat (f : ι → Option β) (is : List ι) (i : ι) (v : β) :
    (lastSome f (is ++ [i])).getD v = (f i).getD ((lastSome f is).getD v) := by
  rw [lastSome_concat]
  cases f i with
  | none => rfl
  | some w => rfl

/-- What `g` makes of each event, given those before it. -/
def collectFrom (g : List ι → ι → List γ) : List ι → List ι → List γ
  | _, [] => []
  | past, i :: is => g past i ++ collectFrom g (past ++ [i]) is

def collect (g : List ι → ι → List γ) (is : List ι) : List γ := collectFrom g [] is

theorem collectFrom_append (g : List ι → ι → List γ) (is js : List ι) : ∀ past,
    collectFrom g past (is ++ js) = collectFrom g past is ++ collectFrom g (past ++ is) js := by
  induction is with
  | nil =>
      intro past
      rw [List.append_nil]
      rfl
  | cons i is ih =>
      intro past
      show g past i ++ collectFrom g (past ++ [i]) (is ++ js) = (g past i ++ _) ++ _
      rw [ih, List.append_assoc, List.append_assoc]
      rfl

theorem collect_concat (g : List ι → ι → List γ) (is : List ι) (i : ι) :
    collect g (is ++ [i]) = collect g is ++ g is i := by
  unfold collect
  rw [collectFrom_append]
  show _ ++ (g ([] ++ is) i ++ []) = _
  rw [List.append_nil, List.nil_append]

theorem collect_congr {g g' : List ι → ι → List γ} {is : List ι}
    (h : ∀ past i rest, is = past ++ i :: rest → g past i = g' past i) :
    collect g is = collect g' is := by
  induction is using List.reverseRecOn with
  | nil => rfl
  | append_singleton is i ih =>
      rw [collect_concat, collect_concat, h is i [] rfl, ih fun past j rest his => ?_]
      refine h past j (rest ++ [i]) ?_
      rw [his, List.append_assoc]
      rfl

theorem mem_collect {g : List ι → ι → List γ} {is : List ι} {x : γ} :
    x ∈ collect g is ↔ ∃ past i rest, is = past ++ i :: rest ∧ x ∈ g past i := by
  induction is using List.reverseRecOn with
  | nil =>
      constructor
      · intro h
        cases h
      · rintro ⟨past, i, rest, h, -⟩
        simp at h
  | append_singleton is j ih =>
      rw [collect_concat, List.mem_append, ih]
      constructor
      · rintro (⟨past, i, rest, rfl, hx⟩ | hx)
        · exact ⟨past, i, rest ++ [j], by simp, hx⟩
        · exact ⟨is, j, [], rfl, hx⟩
      · rintro ⟨past, i, rest, h, hx⟩
        rcases concat_eq_split.mp h with ⟨rfl, rfl, -⟩ | ⟨rest', rfl, -⟩
        · exact .inr hx
        · exact .inl ⟨past, i, rest', rfl, hx⟩

end History
