/-
  DirSurveiller.Lib.Strtok — cutting a C string into tokens.

  `strtok` works in place: it skips delimiters, takes what follows up to the next delimiter or to the
  end of the string, overwrites that delimiter with NUL, and remembers where it stopped.  The model
  is a function of the block and the position; it delivers the position of the token, the block it
  leaves, and the position to go on from.
-/
import Mathlib.Data.List.TakeWhile
import DirSurveiller.Lib.Outcome
import DirSurveiller.Lib.Memory

namespace CMachine

open Outcome

/-- The bytes of a string literal. -/
def ascii (s : String) : Bytes := s.toList.map fun c => UInt8.ofNat c.toNat

/-- `strtok(block + pos, delim)` with one delimiter; no token if the string ends before one begins. -/
def strtok (delim : UInt8) (block : Bytes) (pos : Nat) :
    Except Fault (Option Nat × Bytes × Nat) := do
  let start := pos + ((block.drop pos).takeWhile (· == delim)).length
  if (← load block start) = 0 then
    return (none, block, start)
  else
    let stop := start + ((block.drop start).takeWhile fun b => b != delim && b != 0).length
    if (← load block stop) = 0 then
      return (some start, block, stop)
    else
      return (some start, ← store block stop 0, stop + 1)

/-! ## §1. Strings that end. -/

section Tokens

variable {delim : UInt8} {block tok rest : Bytes} {pos : Nat}

theorem load_drop {b : UInt8} (h : block.drop pos = tok ++ b :: rest) :
    load block (pos + tok.length) = .ok b := by
  apply load_of_getElem?
  rw [← List.getElem?_drop, h, List.getElem?_append_right (Nat.le_refl _), Nat.sub_self]
  rfl

/-- What a token consists of. -/
structure IsToken (delim : UInt8) (tok : Bytes) : Prop where
  nonempty : tok ≠ []
  delim : delim ∉ tok
  nul : (0 : UInt8) ∉ tok

theorem takeWhile_token (h : IsToken delim tok) {b : UInt8} (hb : b = delim ∨ b = 0) :
    (tok ++ b :: rest).takeWhile (fun x => x != delim && x != 0) = tok := by
  rw [List.takeWhile_append_of_pos]
  · rcases hb with rfl | rfl <;> simp
  · intro x hx
    simp only [Bool.and_eq_true, bne_iff_ne]
    exact ⟨fun e => h.delim (e ▸ hx), fun e => h.nul (e ▸ hx)⟩

/-- At the beginning of a token no delimiter is skipped. -/
theorem takeWhile_delim (h : IsToken delim tok) :
    (tok ++ rest).takeWhile (· == delim) = [] := by
  cases tok with
  | nil => exact absurd rfl h.nonempty
  | cons a as =>
      rw [List.cons_append, List.takeWhile_cons_of_neg]
      simp only [beq_iff_eq]
      exact fun e => h.delim (by simp [e])

theorem load_token (h : IsToken delim tok) (hblock : block.drop pos = tok ++ rest) :
    ∃ b, load block pos = .ok b ∧ b ≠ 0 := by
  cases tok with
  | nil => exact absurd rfl h.nonempty
  | cons a as =>
      refine ⟨a, ?_, fun e => h.nul (by simp [e])⟩
      have hfront : block.drop pos = [] ++ a :: (as ++ rest) := by
        rw [hblock]
        rfl
      exact load_drop hfront

/-- A token followed by the delimiter. -/
theorem strtok_delimited (h : IsToken delim tok) (hd : delim ≠ 0)
    (hblock : block.drop pos = tok ++ delim :: rest) :
    strtok delim block pos
      = .ok (some pos, block.set (pos + tok.length) 0, pos + tok.length + 1) := by
  obtain ⟨b, hb, hb0⟩ := load_token h hblock
  have hlt : pos + tok.length < block.length := by
    have hlen := congrArg List.length hblock
    rw [List.length_drop, List.length_append, List.length_cons] at hlen
    omega
  unfold strtok
  simp only [hblock, takeWhile_delim h, List.length_nil, Nat.add_zero, hb, ok_bind, if_neg hb0,
    takeWhile_token h (.inl rfl), load_drop hblock, if_neg hd, store_ok hlt]
  rfl

/-- The last token of a string. -/
theorem strtok_last (h : IsToken delim tok) (hblock : block.drop pos = tok ++ 0 :: rest) :
    strtok delim block pos = .ok (some pos, block, pos + tok.length) := by
  obtain ⟨b, hb, hb0⟩ := load_token h hblock
  unfold strtok
  simp only [hblock, takeWhile_delim h, List.length_nil, Nat.add_zero, hb, ok_bind, if_neg hb0,
    takeWhile_token h (.inr rfl), load_drop hblock, if_true]
  rfl

/-- The block a delimited token leaves. -/
theorem set_delimited (hblock : block.drop pos = tok ++ delim :: rest) :
    (block.set (pos + tok.length) 0).drop pos = tok ++ 0 :: rest
      ∧ (block.set (pos + tok.length) 0).drop (pos + tok.length + 1) = rest := by
  have hfirst : (block.set (pos + tok.length) 0).drop pos = tok ++ 0 :: rest := by
    rw [List.drop_set, if_neg (by omega), hblock, show pos + tok.length - pos = tok.length by omega,
      List.set_append_right _ _ (Nat.le_refl _), Nat.sub_self, List.set_cons_zero]
  refine ⟨hfirst, ?_⟩
  rw [Nat.add_assoc, ← List.drop_drop, hfirst, ← List.drop_drop, List.drop_left]
  rfl

/-! ## §2. What a token cannot be. -/

theorem load_inv {b : UInt8} (h : load block pos = .ok b) : block[pos]? = some b := by
  unfold load at h
  split at h
  · cases h
    assumption
  · cases h

/-- Where a scan stops: the bytes it has passed, and the one it stopped at. -/
theorem takeWhile_stop {p : UInt8 → Bool} {s : Bytes} {c : UInt8}
    (hc : s[(s.takeWhile p).length]? = some c) : ∃ tail, s = s.takeWhile p ++ c :: tail := by
  have hsplit := List.takeWhile_append_dropWhile (p := p) (l := s)
  cases hdrop : s.dropWhile p with
  | nil =>
      rw [hdrop, List.append_nil] at hsplit
      rw [hsplit, List.getElem?_eq_none (Nat.le_refl _)] at hc
      cases hc
  | cons d tail =>
      rw [hdrop] at hsplit
      rw [← hsplit, List.getElem?_append_right (by rw [hsplit])] at hc
      rw [hsplit, Nat.sub_self] at hc
      cases hc
      exact ⟨tail, hsplit.symm⟩

/-- A token is followed by a byte that is NUL, or has been made NUL. -/
theorem strtok_inv {start next : Nat} {block' : Bytes}
    (h : strtok delim block pos = .ok (some start, block', next)) :
    ∃ tok c tail, block.drop start = tok ++ c :: tail ∧ delim ∉ tok ∧ (0 : UInt8) ∉ tok
      ∧ (c = 0 ∧ block' = block ∨ block' = block.set (start + tok.length) 0) := by
  unfold strtok at h
  obtain ⟨s, hs⟩ : ∃ s, pos + ((block.drop pos).takeWhile (· == delim)).length = s := ⟨_, rfl⟩
  simp only [hs] at h
  obtain ⟨b, -, h⟩ := bind_ok h
  by_cases hb : b = 0
  · rw [if_pos hb] at h
    cases h
  · rw [if_neg hb] at h
    obtain ⟨c, hc, h⟩ := bind_ok h
    have hget := load_inv hc
    rw [← List.getElem?_drop] at hget
    obtain ⟨tail, htail⟩ := takeWhile_stop hget
    have hclean : ∀ x ∈ (block.drop s).takeWhile (fun b => b != delim && b != 0),
        x ≠ delim ∧ x ≠ 0 := by
      intro x hx
      have := List.mem_takeWhile_imp hx
      simpa using this
    refine ⟨(block.drop s).takeWhile fun b => b != delim && b != 0, c, tail, ?_,
      fun hm => (hclean delim hm).1 rfl, fun hm => (hclean 0 hm).2 rfl, ?_⟩
    -- the token ends at the string's NUL, or at a delimiter that is overwritten
    · by_cases hc0 : c = 0
      · rw [if_pos hc0] at h
        cases h
        exact htail
      · rw [if_neg hc0] at h
        obtain ⟨block'', -, h⟩ := bind_ok h
        cases h
        exact htail
    · by_cases hc0 : c = 0
      · rw [if_pos hc0] at h
        cases h
        exact .inl ⟨hc0, rfl⟩
      · rw [if_neg hc0] at h
        obtain ⟨block'', hstore, h⟩ := bind_ok h
        cases h
        unfold store at hstore
        split at hstore
        · cases hstore
          exact .inr rfl
        · cases hstore

/-- **No token has the delimiter in it.** -/
theorem strtok_delim_notMem {start next : Nat} {block' tok : Bytes}
    (h : strtok delim block pos = .ok (some start, block', next))
    (htok : cstring (block'.drop start) = .ok tok) : delim ∉ tok := by
  obtain ⟨t, c, tail, hblock, hdelim, hnul, ⟨rfl, rfl⟩ | rfl⟩ := strtok_inv h
  · rw [hblock, cstring_terminated hnul] at htok
    cases htok
    exact hdelim
  · rw [(set_delimited hblock).1, cstring_terminated hnul] at htok
    cases htok
    exact hdelim

/-- A string that does not end within its block. -/
theorem strtok_unterminated (hblock : ∀ b ∈ block.drop pos, b ≠ delim ∧ b ≠ 0) :
    strtok delim block pos = .error .outOfRange := by
  have hall : (block.drop pos).takeWhile (fun b => b != delim && b != 0) = block.drop pos := by
    rw [List.takeWhile_eq_self_iff]
    intro b hb
    simpa using hblock b hb
  have hfault : load block (pos + (block.drop pos).length) = .error .outOfRange := by
    unfold load
    rw [List.getElem?_eq_none (by rw [List.length_drop]; omega)]
  have hskip : (block.drop pos).takeWhile (· == delim) = [] := by
    cases hb : block.drop pos with
    | nil => rfl
    | cons a as =>
        rw [List.takeWhile_cons_of_neg]
        simpa using (hblock a (by simp [hb])).1
  unfold strtok
  simp only [hskip, List.length_nil, Nat.add_zero, hall]
  cases hfirst : load block pos with
  | error e =>
      unfold load at hfirst
      split at hfirst
      · cases hfirst
      · cases hfirst
        rfl
  | ok b =>
      have hget := load_inv hfirst
      rw [← Nat.add_zero pos, ← List.getElem?_drop] at hget
      have hb := List.mem_of_getElem? hget
      rw [ok_bind]
      rw [if_neg (hblock b hb).2, hfault]
      rfl

/-! ## §3. The tokens of a string. -/

/-- The first token of a string, and what follows behind its delimiter. -/
def firstToken (delim : UInt8) (text : Bytes) : Option (Bytes × Bytes) :=
  let word := text.dropWhile (· == delim)
  if word = [] then none
  else some (word.takeWhile (· != delim), (word.dropWhile (· != delim)).drop 1)

/-- A string without a token consists of delimiters. -/
theorem firstToken_none : firstToken delim tok = none ↔ ∀ b ∈ tok, b = delim := by
  unfold firstToken
  dsimp only
  rw [ite_eq_left_iff]
  simp [List.dropWhile_eq_nil_iff]

/-- The string around its first token: only delimiters before it, and a delimiter or nothing
behind it. -/
theorem firstToken_some {text more : Bytes} (h : firstToken delim text = some (tok, more)) :
    ∃ seps, (∀ b ∈ seps, b = delim) ∧ tok ≠ [] ∧ delim ∉ tok
      ∧ (text = seps ++ tok ++ delim :: more ∨ (text = seps ++ tok ∧ more = [])) := by
  unfold firstToken at h
  dsimp only at h
  split at h
  next => cases h
  next hword =>
    obtain ⟨htok, hmore⟩ := Prod.mk.inj (Option.some.inj h)
    have hsplit := List.takeWhile_append_dropWhile (p := (· == delim)) (l := text)
    have hparts := List.takeWhile_append_dropWhile (p := (· != delim))
      (l := text.dropWhile (· == delim))
    refine ⟨text.takeWhile (· == delim), fun b hb => ?_, ?_, ?_, ?_⟩
    · simpa using List.mem_takeWhile_imp hb
    · -- the first byte behind the delimiters is none of them
      intro hnil
      obtain ⟨a, as, has⟩ := List.exists_cons_of_ne_nil hword
      have hhead := List.head_dropWhile_not (· == delim) hword
      simp only [has, List.head_cons] at hhead
      rw [← htok, has, List.takeWhile_cons_of_pos (by simpa using hhead)] at hnil
      cases hnil
    · intro hm
      rw [← htok] at hm
      simpa using List.mem_takeWhile_imp hm
    · rw [htok] at hparts
      cases hrest : (text.dropWhile (· == delim)).dropWhile (· != delim) with
      | nil =>
          rw [hrest] at hmore hparts
          rw [List.append_nil] at hparts
          rw [hparts]
          exact .inr ⟨hsplit.symm, hmore.symm⟩
      | cons a as =>
          have ha : a = delim := by
            have hne : (text.dropWhile (· == delim)).dropWhile (· != delim) ≠ [] := by
              rw [hrest]
              exact List.cons_ne_nil _ _
            have hhead := List.head_dropWhile_not (· != delim) hne
            simpa [hrest] using hhead
          rw [hrest, List.drop_one, List.tail_cons] at hmore
          have hword' : tok ++ delim :: more = text.dropWhile (· == delim) := by
            rw [← hparts, hrest, ha, hmore]
          left
          rw [List.append_assoc, hword']
          exact hsplit.symm

/-- A token at the front is the first one. -/
theorem firstToken_front (h : IsToken delim tok) (hrest : rest.takeWhile (· != delim) = []) :
    firstToken delim (tok ++ rest) = some (tok, rest.drop 1) := by
  have hclean : ∀ b ∈ tok, (b != delim) = true := by
    intro b hb
    rw [bne_iff_ne]
    exact fun e => h.delim (e ▸ hb)
  have hword : (tok ++ rest).dropWhile (· == delim) = tok ++ rest := by
    cases tok with
    | nil => exact absurd rfl h.nonempty
    | cons a as =>
        rw [List.cons_append, List.dropWhile_cons_of_neg]
        simpa using hclean a List.mem_cons_self
  have hsplit := List.takeWhile_append_dropWhile (p := (· != delim)) (l := rest)
  rw [hrest, List.nil_append] at hsplit
  unfold firstToken
  rw [hword, if_neg (List.append_ne_nil_of_left_ne_nil h.nonempty _)]
  rw [List.takeWhile_append_of_pos hclean, List.dropWhile_append_of_pos hclean, hrest, hsplit,
    List.append_nil]

theorem firstToken_delimited (h : IsToken delim tok) :
    firstToken delim (tok ++ delim :: rest) = some (tok, rest) := by
  apply firstToken_front h
  rw [List.takeWhile_cons_of_neg]
  simp

theorem firstToken_last (h : IsToken delim tok) : firstToken delim tok = some (tok, []) := by
  have hfront : firstToken delim (tok ++ []) = some (tok, []) := firstToken_front h rfl
  rwa [List.append_nil] at hfront

/-- Delimiters before a token are skipped. -/
theorem strtok_skip {seps : Bytes} (hseps : ∀ b ∈ seps, b = delim)
    (hblock : block.drop pos = seps ++ rest) (hrest : rest.takeWhile (· == delim) = []) :
    strtok delim block pos = strtok delim block (pos + seps.length) := by
  have hskip : (block.drop pos).takeWhile (· == delim) = seps := by
    rw [hblock, List.takeWhile_append_of_pos (by simpa using hseps), hrest, List.append_nil]
  have hdrop : block.drop (pos + seps.length) = rest := by
    rw [← List.drop_drop, hblock, List.drop_left]
  unfold strtok
  simp only [hskip, hdrop, hrest, List.length_nil, Nat.add_zero]

/-- **`strtok` of a string without a token**: it stops at the end of the string. -/
theorem strtok_none {text : Bytes} (hd : delim ≠ 0) (h : firstToken delim text = none)
    (hblock : block.drop pos = text ++ 0 :: rest) :
    strtok delim block pos = .ok (none, block, pos + text.length) := by
  have hnul : (0 :: rest).takeWhile (· == delim) = [] := by
    rw [List.takeWhile_cons_of_neg]
    simpa using hd.symm
  rw [strtok_skip (firstToken_none.mp h) hblock hnul]
  have hdrop : block.drop (pos + text.length) = [] ++ 0 :: rest := by
    rw [← List.drop_drop, hblock, List.drop_left, List.nil_append]
  have hload : load block (pos + text.length + ([] : Bytes).length) = .ok 0 := load_drop hdrop
  unfold strtok
  rw [hdrop, List.nil_append, hnul]
  dsimp only
  rw [hload, ok_bind, if_pos rfl]
  rfl

/-- **`strtok` of a string with a token**: where it is found, and where the rest begins. -/
theorem strtok_some {text more : Bytes} (hd : delim ≠ 0) (hnul : (0 : UInt8) ∉ text)
    (h : firstToken delim text = some (tok, more)) (hblock : block.drop pos = text ++ 0 :: rest) :
    ∃ start block' next behind, strtok delim block pos = .ok (some start, block', next)
      ∧ (0 : UInt8) ∉ tok ∧ (0 : UInt8) ∉ more ∧ start + tok.length ≤ next
      ∧ block'.drop start = tok ++ 0 :: behind ∧ block'.drop next = more ++ 0 :: rest := by
  obtain ⟨seps, hseps, hne, hdelim, hshape⟩ := firstToken_some h
  rcases hshape with rfl | ⟨rfl, rfl⟩
  · simp only [List.mem_append, List.mem_cons, not_or] at hnul
    have htoken : IsToken delim tok := ⟨hne, hdelim, hnul.1.2⟩
    have hblock' : block.drop pos = seps ++ (tok ++ delim :: (more ++ 0 :: rest)) := by
      rw [hblock]
      simp
    have hdrop : block.drop (pos + seps.length) = tok ++ delim :: (more ++ 0 :: rest) := by
      rw [← List.drop_drop, hblock', List.drop_left]
    obtain ⟨hfront, hback⟩ := set_delimited hdrop
    refine ⟨_, _, _, _, ?_, hnul.1.2, hnul.2.2, Nat.le_succ _, hfront, hback⟩
    rw [strtok_skip hseps hblock' (takeWhile_delim htoken)]
    exact strtok_delimited htoken hd hdrop
  · simp only [List.mem_append, not_or] at hnul
    have htoken : IsToken delim tok := ⟨hne, hdelim, hnul.2⟩
    have hblock' : block.drop pos = seps ++ (tok ++ 0 :: rest) := by
      rw [hblock, List.append_assoc]
    have hdrop : block.drop (pos + seps.length) = tok ++ 0 :: rest := by
      rw [← List.drop_drop, hblock', List.drop_left]
    refine ⟨_, _, _, _, ?_, hnul.2, List.not_mem_nil, Nat.le_refl _, hdrop, ?_⟩
    · rw [strtok_skip hseps hblock' (takeWhile_delim htoken)]
      exact strtok_last htoken hdrop
    · rw [← List.drop_drop, hdrop, List.drop_left]
      rfl

/-- A call writes nothing before the position it begins at. -/
theorem strtok_writes {start : Option Nat} {next : Nat} {block' : Bytes}
    (h : strtok delim block pos = .ok (start, block', next)) :
    block' = block ∨ ∃ k, pos ≤ k ∧ block' = block.set k 0 := by
  unfold strtok at h
  dsimp only at h
  obtain ⟨b, -, h⟩ := bind_ok h
  split at h
  next =>
    cases h
    exact .inl rfl
  next =>
    obtain ⟨c, -, h⟩ := bind_ok h
    split at h
    next =>
      cases h
      exact .inl rfl
    next =>
      obtain ⟨block'', hstore, h⟩ := bind_ok h
      cases h
      unfold store at hstore
      split at hstore
      · cases hstore
        exact .inr ⟨_, by omega, rfl⟩
      · cases hstore

/-- A token that was found earlier is still there after a further call. -/
theorem strtok_keeps {start : Option Nat} {next p : Nat} {block' behind : Bytes}
    (h : strtok delim block pos = .ok (start, block', next)) (hnul : (0 : UInt8) ∉ tok)
    (hblock : block.drop p = tok ++ 0 :: behind) (hp : p + tok.length ≤ pos) :
    cstring (block'.drop p) = .ok tok := by
  rcases strtok_writes h with rfl | ⟨k, hk, rfl⟩
  · rw [hblock]
    exact cstring_terminated hnul
  · -- the NUL that is written stands at the end of the token, or behind it
    rw [List.drop_set, if_neg (by omega), hblock, List.set_append_right _ _ (by omega)]
    cases hj : k - p - tok.length with
    | zero =>
        rw [List.set_cons_zero]
        exact cstring_terminated hnul
    | succ j =>
        rw [List.set_cons_succ]
        exact cstring_terminated hnul

end Tokens

end CMachine
