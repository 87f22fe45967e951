/-
  DirSurveiller.Lib.Outcome — programs that either deliver a value or stop with a fault.

  A step of a program is a function into `Except ε`; a run is `List.foldlM` of the step over the
  list of things that happen.  This file has the inversion rules that take a successful run apart,
  the rules of pre- and postconditions (`Meets`), and the invariant rule for whole runs.  It knows
  nothing about what the programs do.
-/
import Mathlib.Data.List.Forall2
import Mathlib.Data.List.Induction

namespace Outcome

variable {ε ι : Type*} {α β σ : Type}

/-! ## §1. Taking a sequence of two computations apart. -/

@[simp] theorem pure_eq_ok (a : α) : (pure a : Except ε α) = .ok a := rfl

@[simp] theorem ok_bind (a : α) (f : α → Except ε β) : (Except.ok a >>= f) = f a := rfl

@[simp] theorem error_bind (e : ε) (f : α → Except ε β) :
    ((Except.error e : Except ε α) >>= f) = .error e := rfl

/-- A sequence delivers a value iff its head does and its tail does from there. -/
theorem bind_eq_ok {x : Except ε α} {f : α → Except ε β} {b : β} :
    (x >>= f) = .ok b ↔ ∃ a, x = .ok a ∧ f a = .ok b := by
  cases x with
  | error e => simp
  | ok a => simp

theorem map_ok {x : Except ε α} {f : α → β} {b : β} (h : x.map f = .ok b) :
    ∃ a, x = .ok a ∧ f a = b := by
  cases x with
  | error e => cases h
  | ok a => exact ⟨a, rfl, Except.ok.inj h⟩

theorem map_error {x : Except ε α} {f : α → β} {e : ε} (h : x.map f = .error e) : x = .error e := by
  cases x with
  | error e' => rw [Except.error.inj h]
  | ok a => cases h

theorem bind_ok {x : Except ε α} {f : α → Except ε β} {b : β} (h : (x >>= f) = .ok b) :
    ∃ a, x = .ok a ∧ f a = .ok b :=
  bind_eq_ok.mp h

/-- A sequence stops with `e` iff its head does, or its tail does after the head delivered. -/
theorem bind_eq_error {x : Except ε α} {f : α → Except ε β} {e : ε} :
    (x >>= f) = .error e ↔ x = .error e ∨ ∃ a, x = .ok a ∧ f a = .error e := by
  cases x with
  | error e' => simp
  | ok a => simp

/-- Doing the same with each element delivers what each of them delivers. -/
theorem mapM_eq_ok {f : α → Except ε β} : ∀ {l : List α} {bs : List β},
    l.mapM f = .ok bs ↔ List.Forall₂ (fun a b => f a = .ok b) l bs := by
  intro l
  induction l with
  | nil =>
      intro bs
      rw [List.mapM_nil, List.forall₂_nil_left_iff, pure_eq_ok, Except.ok.injEq]
      exact eq_comm
  | cons a l ih =>
      intro bs
      rw [List.mapM_cons, bind_eq_ok, List.forall₂_cons_left_iff]
      constructor
      · intro h
        obtain ⟨b, hb, h⟩ := h
        obtain ⟨rest, hrest, h⟩ := bind_eq_ok.mp h
        obtain rfl := Except.ok.inj h
        exact ⟨b, rest, hb, ih.mp hrest, rfl⟩
      · intro h
        obtain ⟨b, rest, hb, hrest, rfl⟩ := h
        exact ⟨b, hb, bind_eq_ok.mpr ⟨rest, ih.mpr hrest, rfl⟩⟩

/-- Where each element delivers something with `R`, doing the same with all of them delivers such
things. -/
theorem mapM_delivers {f : α → Except ε β} {R : α → β → Prop} : ∀ {l : List α},
    (∀ a ∈ l, ∃ b, f a = .ok b ∧ R a b) → ∃ bs, l.mapM f = .ok bs ∧ List.Forall₂ R l bs := by
  intro l
  induction l with
  | nil => intro _; exact ⟨[], rfl, .nil⟩
  | cons a l ih =>
      intro h
      obtain ⟨b, hb, hR⟩ := h a List.mem_cons_self
      obtain ⟨bs, hbs, hall⟩ := ih fun x hx => h x (List.mem_cons_of_mem _ hx)
      refine ⟨b :: bs, ?_, .cons hR hall⟩
      rw [List.mapM_cons, hb, ok_bind, hbs]
      rfl

/-- What is known of all that was delivered is known of what an element delivers. -/
theorem mapM_mem {f : α → Except ε β} {R : α → β → Prop} : ∀ {l : List α} {bs : List β},
    l.mapM f = .ok bs → List.Forall₂ R l bs → ∀ a ∈ l, ∃ b, f a = .ok b ∧ R a b := by
  intro l
  induction l with
  | nil => intro bs _ _ a ha; exact absurd ha List.not_mem_nil
  | cons x l ih =>
      intro bs hmap hall a ha
      cases mapM_eq_ok.mp hmap with
      | cons hx hrest =>
          cases hall with
          | cons hR hall =>
              rcases List.mem_cons.mp ha with rfl | ha
              · exact ⟨_, hx, hR⟩
              · exact ih (mapM_eq_ok.mpr hrest) hall a ha

/-! ## §2. Postconditions. -/

/-- The program delivers a value with `post`, or it stops with a fault that is `allowed`. -/
def Meets (allowed : ε → Prop) (m : Except ε α) (post : α → Prop) : Prop :=
  match m with
  | .ok a => post a
  | .error e => allowed e

section Meets

variable {allowed : ε → Prop} {m : Except ε α} {P Q : α → Prop}

@[simp] theorem meets_ok (a : α) : Meets allowed (.ok a) P ↔ P a := Iff.rfl

@[simp] theorem meets_error (e : ε) : Meets allowed (.error e : Except ε α) P ↔ allowed e := Iff.rfl

theorem Meets.post (h : Meets allowed m P) {a : α} (hm : m = .ok a) : P a := by
  rw [hm] at h
  exact h

theorem Meets.fault (h : Meets allowed m P) {e : ε} (hm : m = .error e) : allowed e := by
  rw [hm] at h
  exact h

theorem Meets.mono (h : Meets allowed m P) (hPQ : ∀ a, P a → Q a) : Meets allowed m Q := by
  cases m with
  | error e => exact h
  | ok a => exact hPQ a h

theorem Meets.weaken {allowed' : ε → Prop} (h : Meets allowed m P)
    (hsub : ∀ e, allowed e → allowed' e) : Meets allowed' m P := by
  cases m with
  | error e => exact hsub e h
  | ok a => exact h

/-- A stronger postcondition for the values that are delivered. -/
theorem Meets.of_ok (h : Meets allowed m P) (hQ : ∀ a, m = .ok a → Q a) : Meets allowed m Q := by
  cases m with
  | error e => exact h
  | ok a => exact hQ a rfl

/-- **Sequencing**: the postcondition of the head is the precondition of the tail. -/
theorem Meets.bind {f : α → Except ε β} {R : β → Prop} (h : Meets allowed m P)
    (hf : ∀ a, P a → Meets allowed (f a) R) : Meets allowed (m >>= f) R := by
  cases m with
  | error e => exact h
  | ok a => exact hf a h

/-- **The loop rule**: a postcondition of every round is one of the loop. -/
theorem Meets.foldlM {step : σ → ι → Except ε σ} {P : σ → Prop} :
    ∀ {is : List ι} {s : σ}, (∀ i ∈ is, ∀ s, P s → Meets allowed (step s i) P) → P s →
      Meets allowed (is.foldlM step s) P := by
  intro is
  induction is with
  | nil => intro s _ hs; exact hs
  | cons i is ih =>
      intro s hstep hs
      rw [List.foldlM_cons]
      exact (hstep i (by simp) s hs).bind fun s' hs' =>
        ih (fun j hj => hstep j (by simp [hj])) hs'

/-- **The counting loop**: an invariant that speaks of the rounds done. -/
theorem Meets.foldlM_range {step : σ → Nat → Except ε σ} {P : Nat → σ → Prop} {s : σ} :
    ∀ {n : Nat}, (∀ i < n, ∀ s, P i s → Meets allowed (step s i) (P (i + 1))) → P 0 s →
      Meets allowed ((List.range n).foldlM step s) (P n) := by
  intro n
  induction n with
  | zero => intro _ hs; exact hs
  | succ n ih =>
      intro hstep hs
      rw [List.range_succ, List.foldlM_append]
      refine (ih (fun i hi => hstep i (Nat.lt_succ_of_lt hi)) hs).bind fun s' hs' => ?_
      rw [List.foldlM_cons]
      exact (hstep n (Nat.lt_succ_self n) s' hs').bind fun _ hs'' => hs''

end Meets

/-- What the first program delivers, the second one delivers too. -/
def AtMost (m n : Except ε α) : Prop := ∀ a, m = .ok a → n = .ok a

section AtMost

theorem AtMost.refl (m : Except ε α) : AtMost m m := fun _ h => h

theorem AtMost.bind {m n : Except ε α} {f g : α → Except ε β} (h : AtMost m n)
    (hf : ∀ a, AtMost (f a) (g a)) : AtMost (m >>= f) (n >>= g) := by
  intro b hb
  obtain ⟨a, ha, hb⟩ := bind_ok hb
  rw [h a ha, ok_bind]
  exact hf a b hb

theorem AtMost.ite {p : Prop} [Decidable p] {m m' n n' : Except ε α} (h : AtMost m n)
    (h' : AtMost m' n') : AtMost (if p then m else m') (if p then n else n') := by
  split
  · exact h
  · exact h'

theorem AtMost.foldlM {step step' : σ → ι → Except ε σ} (h : ∀ s i, AtMost (step s i) (step' s i)) :
    ∀ (is : List ι) (s : σ), AtMost (is.foldlM step s) (is.foldlM step' s) := by
  intro is
  induction is with
  | nil => exact fun s => .refl _
  | cons i is ih =>
      intro s
      rw [List.foldlM_cons, List.foldlM_cons]
      exact (h s i).bind ih

end AtMost

/-! ## §3. Runs. -/

variable {step : σ → ι → Except ε σ}

/-- A run over `is ++ js` is a run over `is` followed by one over `js`. -/
theorem run_append {is js : List ι} {s s' : σ} :
    (is ++ js).foldlM step s = .ok s'
      ↔ ∃ m, is.foldlM step s = .ok m ∧ js.foldlM step m = .ok s' := by
  rw [List.foldlM_append]
  exact bind_eq_ok

theorem run_cons {i : ι} {is : List ι} {s s' : σ} :
    (i :: is).foldlM step s = .ok s'
      ↔ ∃ m, step s i = .ok m ∧ is.foldlM step m = .ok s' := by
  rw [List.foldlM_cons]
  exact bind_eq_ok

theorem run_nil {s s' : σ} : ([] : List ι).foldlM step s = .ok s' ↔ s = s' := by
  simp [pure, Except.pure]

theorem run_one {i : ι} {s s' : σ} : [i].foldlM step s = .ok s' ↔ step s i = .ok s' := by
  rw [run_cons]
  constructor
  · intro h
    obtain ⟨m, hm, hnil⟩ := h
    exact run_nil.mp hnil ▸ hm
  · intro h
    exact ⟨s', h, run_nil.mpr rfl⟩

theorem run_concat {is : List ι} {i : ι} {s s' : σ} :
    (is ++ [i]).foldlM step s = .ok s' ↔ ∃ m, is.foldlM step s = .ok m ∧ step m i = .ok s' := by
  rw [run_append]
  exact exists_congr fun m => and_congr_right fun _ => run_one

/-- **Induction along a run**: what holds at its start and is passed on by each step holds at its
end.  `P` may speak of the steps that have been taken. -/
theorem run_induction {s : σ} {P : List ι → σ → Prop} (hinit : P [] s)
    (hstep : ∀ is i m s', is.foldlM step s = .ok m → P is m → step m i = .ok s' →
      P (is ++ [i]) s') :
    ∀ {is : List ι} {s' : σ}, is.foldlM step s = .ok s' → P is s' := by
  intro is
  induction is using List.reverseRecOn with
  | nil =>
      intro s' h
      exact run_nil.mp h ▸ hinit
  | append_singleton is i ih =>
      intro s' h
      obtain ⟨m, hm, hi⟩ := run_concat.mp h
      exact hstep is i m s' hm (ih hm) hi

/-- **A run avoids a fault** iff each of its steps does, in the state in which it is taken. -/
theorem run_avoids_iff {e : ε} : ∀ {is : List ι} {s : σ},
    is.foldlM step s ≠ .error e ↔ ∀ pre i post m, is = pre ++ i :: post →
      pre.foldlM step s = .ok m → step m i ≠ .error e := by
  intro is
  induction is with
  | nil =>
      intro s
      constructor
      · intro _ pre i post m h
        cases pre <;> cases h
      · intro _ h
        cases h
  | cons j is ih =>
      intro s
      rw [List.foldlM_cons]
      constructor
      · intro hrun pre i post m his hpre
        cases pre with
        | nil =>
            cases his
            rw [run_nil] at hpre
            subst hpre
            intro hstep
            rw [hstep] at hrun
            exact hrun rfl
        | cons j' pre =>
            cases his
            rw [run_cons] at hpre
            obtain ⟨m', hm', hpre⟩ := hpre
            rw [hm', ok_bind] at hrun
            exact ih.mp hrun pre i post m rfl hpre
      · intro hall
        cases hj : step s j with
        | error e' =>
            have hhere := hall [] j is s rfl (run_nil.mpr rfl)
            rw [hj] at hhere
            exact hhere
        | ok m' =>
            rw [ok_bind]
            refine ih.mpr fun pre i post m his hpre => ?_
            refine hall (j :: pre) i post m (by rw [his]; rfl) ?_
            rw [run_cons]
            exact ⟨m', hj, hpre⟩

/-- A run stops with `e` iff one of its steps does. -/
theorem run_fault_iff {e : ε} {is : List ι} {s : σ} :
    is.foldlM step s = .error e ↔ ∃ pre i post m, is = pre ++ i :: post ∧
      pre.foldlM step s = .ok m ∧ step m i = .error e := by
  have h : ¬ is.foldlM step s ≠ .error e ↔ _ := not_congr run_avoids_iff
  push Not at h
  exact h

/-- **The rule for runs whose steps may stop**: what holds at the start and is passed on by each step
that can be reached holds at the end, unless the run stops as its steps may. -/
theorem Meets.run {allowed : ε → Prop} {s : σ} {is : List ι} {P : List ι → σ → Prop} (hinit : P [] s)
    (hstep : ∀ pre i post m, is = pre ++ i :: post → pre.foldlM step s = .ok m → P pre m →
      Meets allowed (step m i) (P (pre ++ [i]))) :
    Meets allowed (is.foldlM step s) (P is) := by
  induction is using List.reverseRecOn with
  | nil => exact hinit
  | append_singleton is i ih =>
      have hbefore : Meets allowed (is.foldlM step s) (P is) := by
        refine ih fun pre j post m hsplit => hstep pre j (post ++ [i]) m ?_
        rw [hsplit, List.append_assoc]
        rfl
      rw [List.foldlM_append]
      refine Meets.bind (hbefore.of_ok (Q := fun m => is.foldlM step s = .ok m ∧ P is m)
        fun m hm => ⟨hm, hbefore.post hm⟩) fun m hm => ?_
      show Meets allowed ([i].foldlM step m) _
      rw [List.foldlM_cons]
      refine Meets.bind (hstep is i [] m rfl hm.1 hm.2) fun m' hm' => ?_
      exact hm'

/-- Each step of the run of `is` from `s` satisfies `cond`. -/
def EachStep (step : σ → ι → Except ε σ) (s : σ) (is : List ι) (cond : σ → ι → σ → Prop) : Prop :=
  ∀ pre i post m m', is = pre ++ i :: post → pre.foldlM step s = .ok m → step m i = .ok m' →
    cond m i m'

/-- What is true of a run is true of what is left of it. -/
theorem EachStep.drop {cond : σ → ι → σ → Prop} {pre is : List ι} {s m : σ}
    (h : EachStep step s (pre ++ is) cond) (hpre : pre.foldlM step s = .ok m) :
    EachStep step m is cond := by
  intro pre' i post m' m'' his hpre' hstep
  refine h (pre ++ pre') i post m' m'' ?_ (run_append.mpr ⟨m, hpre, hpre'⟩) hstep
  rw [his, List.append_assoc]

/-- ... and of its beginning. -/
theorem EachStep.take {cond : σ → ι → σ → Prop} {is post : List ι} {s : σ}
    (h : EachStep step s (is ++ post) cond) : EachStep step s is cond := by
  intro pre i rest m m' his hpre hstep
  refine h pre i (rest ++ post) m m' ?_ hpre hstep
  rw [his, List.append_assoc]
  rfl

/-- One step more. -/
theorem EachStep.concat {cond : σ → ι → σ → Prop} {is : List ι} {i : ι} {s m m' : σ}
    (h : EachStep step s is cond) (hrun : is.foldlM step s = .ok m) (hi : step m i = .ok m')
    (hcond : cond m i m') : EachStep step s (is ++ [i]) cond := by
  intro pre j post x x' his hpre hstep
  rcases List.eq_nil_or_concat post with rfl | ⟨rest, k, rfl⟩
  · obtain ⟨rfl, hij⟩ := List.append_inj' his rfl
    obtain rfl := List.cons.inj hij |>.1
    obtain rfl := Except.ok.inj (hrun.symm.trans hpre)
    obtain rfl := Except.ok.inj (hi.symm.trans hstep)
    exact hcond
  · have hsplit : is = pre ++ j :: rest := by
      rw [List.concat_eq_append, ← List.cons_append, ← List.append_assoc] at his
      exact (List.append_inj' his rfl).1
    exact h pre j rest x x' hsplit hpre hstep

/-- **The invariant rule for runs whose steps satisfy a condition.** -/
theorem EachStep.invariant {P : σ → Prop} {cond : σ → ι → σ → Prop}
    (hstep : ∀ s i s', P s → cond s i s' → step s i = .ok s' → P s') :
    ∀ {is : List ι} {s s' : σ}, EachStep step s is cond → P s → is.foldlM step s = .ok s' → P s' := by
  intro is
  induction is with
  | nil =>
      intro s s' _ hs h
      rw [run_nil] at h
      exact h ▸ hs
  | cons i is ih =>
      intro s s' hcond hs h
      obtain ⟨m, hm, h⟩ := run_cons.mp h
      have hrest : EachStep step m is cond :=
        EachStep.drop hcond (run_one.mpr hm)
      exact ih hrest (hstep s i m hs (hcond [] i is s m rfl (run_nil.mpr rfl) hm) hm) h

/-- **The rule for what a run spends**: where each step of `own` takes one off `μ` and none adds to it,
so does the run. -/
theorem EachStep.spends {P : σ → Prop} {cond : σ → ι → σ → Prop} (μ : σ → Nat) (own : ι → Bool)
    (hstep : ∀ s i s', P s → cond s i s' → step s i = .ok s' →
      P s' ∧ μ s' ≤ μ s - if own i then 1 else 0) :
    ∀ {is : List ι} {s s' : σ}, EachStep step s is cond → P s → is.foldlM step s = .ok s' →
      P s' ∧ μ s' ≤ μ s - is.countP own := by
  intro is
  induction is with
  | nil =>
      intro s s' _ hs h
      rw [run_nil] at h
      exact h ▸ ⟨hs, Nat.le_refl _⟩
  | cons i is ih =>
      intro s s' hcond hs h
      obtain ⟨m, hm, h⟩ := run_cons.mp h
      obtain ⟨hP, hle⟩ := hstep s i m hs (hcond [] i is s m rfl (run_nil.mpr rfl) hm) hm
      obtain ⟨hP', hle'⟩ := ih (EachStep.drop hcond (run_one.mpr hm)) hP h
      refine ⟨hP', ?_⟩
      rw [List.countP_cons]
      omega

/-- The run comes to its end, and every state on the way is good. -/
def Stays (step : σ → ι → Except ε σ) (G : σ → Prop) (s : σ) (is : List ι) : Prop :=
  ∀ pre, pre <+: is → ∃ s', pre.foldlM step s = .ok s' ∧ G s'

section Stays

variable {I G : σ → Prop} {cond : σ → ι → Prop} {s : σ} {i : ι} {is : List ι}

theorem stays_nil : Stays step G s [] ↔ G s := by
  constructor
  · intro h
    obtain ⟨s', hrun, hG⟩ := h [] List.nil_prefix
    obtain rfl := run_nil.mp hrun
    exact hG
  · intro hG pre hpre
    obtain rfl := List.prefix_nil.mp hpre
    exact ⟨s, run_nil.mpr rfl, hG⟩

theorem stays_cons :
    Stays step G s (i :: is) ↔ G s ∧ ∃ m, step s i = .ok m ∧ Stays step G m is := by
  constructor
  · intro h
    refine ⟨stays_nil.mp fun pre hpre => h pre (hpre.trans List.nil_prefix), ?_⟩
    obtain ⟨s', hrun, -⟩ := h [i] (List.cons_prefix_cons.mpr ⟨rfl, List.nil_prefix⟩)
    obtain ⟨m, hm, -⟩ := run_cons.mp hrun
    refine ⟨m, hm, fun pre hpre => ?_⟩
    obtain ⟨s'', hrun', hG⟩ := h (i :: pre) (List.cons_prefix_cons.mpr ⟨rfl, hpre⟩)
    obtain ⟨m', hm', hrun'⟩ := run_cons.mp hrun'
    obtain rfl := Except.ok.inj (hm.symm.trans hm')
    exact ⟨s'', hrun', hG⟩
  · intro h pre hpre
    obtain ⟨hG, m, hm, hrest⟩ := h
    cases pre with
    | nil => exact ⟨s, run_nil.mpr rfl, hG⟩
    | cons j pre =>
        obtain ⟨rfl, htail⟩ := List.cons_prefix_cons.mp hpre
        obtain ⟨s', hrun, hG'⟩ := hrest pre htail
        exact ⟨s', run_cons.mpr ⟨m, hm, hrun⟩, hG'⟩

/-- **A run stays good** iff each of its steps meets a condition in the state in which it is taken,
where that condition decides, from a good state, whether the step leads to a good one.  `I` is what
every step from a good state keeps. -/
theorem run_stays_iff : ∀ {is : List ι} {s : σ},
    (∀ s i s', i ∈ is → I s → G s → step s i = .ok s' → I s') →
    (∀ s i, i ∈ is → I s → G s → ((∃ s', step s i = .ok s' ∧ G s') ↔ cond s i)) → I s → G s →
    (Stays step G s is
      ↔ ∀ pre i post m, is = pre ++ i :: post → pre.foldlM step s = .ok m → cond m i) := by
  intro is
  induction is with
  | nil =>
      intro s _ _ _ hG
      refine iff_of_true (stays_nil.mpr hG) fun pre i post m his => ?_
      exact absurd his.symm (List.append_ne_nil_of_right_ne_nil _ (List.cons_ne_nil _ _))
  | cons j is ih =>
      intro s hinv hstep hI hG
      have hrest := fun m hI' hG' => ih (s := m)
        (fun s i s' hi => hinv s i s' (List.mem_cons_of_mem _ hi))
        (fun s i hi => hstep s i (List.mem_cons_of_mem _ hi)) hI' hG'
      have hhere := hstep s j List.mem_cons_self hI hG
      rw [stays_cons]
      constructor
      · intro h pre i post x his hpre
        obtain ⟨-, m, hm, hstays⟩ := h
        have hGm : G m := by
          obtain ⟨s', hrun, hG'⟩ := hstays [] List.nil_prefix
          exact run_nil.mp hrun ▸ hG'
        cases pre with
        | nil =>
            cases his
            obtain rfl := run_nil.mp hpre
            exact hhere.mp ⟨m, hm, hGm⟩
        | cons j' pre =>
            cases his
            obtain ⟨m', hm', hpre⟩ := run_cons.mp hpre
            obtain rfl := Except.ok.inj (hm.symm.trans hm')
            have hIm := hinv s j m List.mem_cons_self hI hG hm
            exact (hrest m hIm hGm).mp hstays pre i post x rfl hpre
      · intro hall
        obtain ⟨m, hm, hGm⟩ := hhere.mpr (hall [] j is s rfl (run_nil.mpr rfl))
        have hIm := hinv s j m List.mem_cons_self hI hG hm
        refine ⟨hG, m, hm, (hrest m hIm hGm).mpr fun pre i post x his hpre => ?_⟩
        refine hall (j :: pre) i post x ?_ (run_cons.mpr ⟨m, hm, hpre⟩)
        rw [his]
        rfl

end Stays

/-- Whether each step of a run satisfies a condition on the state in which it is taken. -/
def checkEach (step : σ → ι → Except ε σ) (cond : σ → ι → Bool) : σ → List ι → Bool
  | _, [] => true
  | s, i :: is => cond s i &&
      match step s i with
      | .ok m => checkEach step cond m is
      | .error _ => true

theorem EachStep.of_check {cond : σ → ι → Bool} : ∀ {is : List ι} {s : σ},
    checkEach step cond s is = true → EachStep step s is fun m i _ => cond m i = true := by
  intro is
  induction is with
  | nil =>
      intro s _ pre i post m m' his
      exact absurd his.symm (List.append_ne_nil_of_right_ne_nil _ (List.cons_ne_nil _ _))
  | cons j is ih =>
      intro s hcheck pre i post m m' his hpre hstep
      obtain ⟨hhere, hrest⟩ := (Bool.and_eq_true _ _).mp hcheck
      cases pre with
      | nil =>
          obtain ⟨rfl, -⟩ := List.cons.inj his
          rw [List.foldlM_nil] at hpre
          obtain rfl := Except.ok.inj hpre
          exact hhere
      | cons j' pre =>
          obtain ⟨rfl, htail⟩ := List.cons.inj his
          obtain ⟨m1, hm1, hpre⟩ := run_cons.mp hpre
          rw [hm1] at hrest
          exact ih hrest pre i post m m' htail hpre hstep

end Outcome
