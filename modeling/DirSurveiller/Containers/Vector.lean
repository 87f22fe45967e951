/-
  DirSurveiller.Containers.Vector — the vector of `containers.c`.

  A `vector` owns a block of pointers.  A full vector asks `realloc` for half as much again, once:
  the number of bytes is `size_elem*capacity*3/2`, the new capacity `capacity*3/2`, both computed in
  a `size_t` and each rounded for itself.  A capacity of 1 does not grow at all.

  Main result:
    * `vector_stays_iff` — for which initial lengths and how many appends the vector stays inside
      its block.
-/
import DirSurveiller.Lib.Codec
import DirSurveiller.Lib.Memory
import DirSurveiller.Lib.Outcome

namespace DirSurveiller

open CMachine Outcome

/-! ## §1. The code. -/

/-- A pointer in memory. -/
def codecPointer : Codec UInt64 :=
  Codec.ofNat 8 UInt64.toNat UInt64.ofNat (fun p => p.toNat_lt) (fun _ => UInt64.ofNat_toNat)

/-- `vector`; `elems` is the block, `reallocs` numbers the `realloc` calls. -/
structure CVector where
  elems : Bytes
  sizeElem : Nat
  capacity : Nat
  length : Nat
  reallocs : Nat
  deriving Repr, DecidableEq

/-- `vector_init`; `none` if it returns 1.  `calloc` refuses a product that no `size_t` holds. -/
def vectorInit (granted : Bool) (len sizeElem : Nat) : Option CVector :=
  if granted ∧ len * sizeElem < 2 ^ 64 then
    some
      { elems := List.replicate (len * sizeElem) 0
        sizeElem := sizeElem
        capacity := len
        length := 0
        reallocs := 0 }
  else none

/-- `this->elems[this->length] = elem; this->length++` -/
def putElem (this : CVector) (elem : UInt64) : Except Fault CVector := do
  let block ← memcpy this.elems (8 * this.length) (codecPointer.encode elem) 8
  return { this with elems := block, length := (this.length + 1) % 2 ^ 64 }

/-- `vector_append`: the first component is the returned value. -/
def vectorAppend (mem : Allocator) (this : CVector) (elem : UInt64) :
    Except Fault (Nat × CVector) :=
  if this.capacity < (this.length + 1) % 2 ^ 64 then
    match realloc mem this.reallocs this.elems
        (this.sizeElem * this.capacity % 2 ^ 64 * 3 % 2 ^ 64 / 2) with
    | none => .ok (1, { this with reallocs := this.reallocs + 1 })
    | some tmpElems => do
        let this ← putElem
          { this with
            elems := tmpElems
            capacity := this.capacity * 3 % 2 ^ 64 / 2
            reallocs := this.reallocs + 1 } elem
        return (0, this)
  else do
    let this ← putElem this elem
    return (0, this)

/-- `vector_get`: the returned value, and the element if it is 0. -/
def vectorGet (this : CVector) (pos : Nat) : Except Fault (Int × Option UInt64) :=
  if pos ≥ this.length then .ok (-1, none)
  else if 8 * pos + 8 ≤ this.elems.length then
    .ok (0, some (codecPointer.decode (this.elems.drop (8 * pos))))
  else .error .outOfRange

/-! ## §2. Runs. -/

/-- A call of `vector_append` or `vector_get`. -/
inductive VectorOp where
  | append (elem : UInt64)
  | get (pos : Nat)
  deriving Repr, DecidableEq

/-- One call, on the vector and on the list of what was appended. -/
def vectorStep (mem : Allocator) (st : CVector × List UInt64) :
    VectorOp → Except Fault (CVector × List UInt64)
  | .append elem => do
      let (_, this) ← vectorAppend mem st.1 elem
      return (this, st.2 ++ [elem])
  | .get pos => do
      let _ ← vectorGet st.1 pos
      return st

/-- How many elements the calls append. -/
def appends : List VectorOp → Nat
  | [] => 0
  | .append _ :: ops => appends ops + 1
  | .get _ :: ops => appends ops

/-- The vector is within its block, and every `vector_get` answers as the list does. -/
structure CVector.Holds (this : CVector) (elems : List UInt64) : Prop where
  room : this.length ≤ this.capacity
  block : 8 * this.capacity ≤ this.elems.length
  answers : ∀ pos, vectorGet this pos = .ok
    (match elems[pos]? with
      | some elem => (0, some elem)
      | none => (-1, none))

/-- The vector holds what was appended after every prefix of the run. -/
def StaysInside (mem : Allocator) (this : CVector) (ops : List VectorOp) : Prop :=
  Stays (vectorStep mem) (fun st => st.1.Holds st.2) (this, []) ops

/-- The capacity after `n` appends to a vector of initial length `len`, were nothing to wrap. -/
def capacityAfter (len : Nat) : Nat → Nat
  | 0 => len
  | n + 1 =>
      if capacityAfter len n < n + 1 then capacityAfter len n * 3 / 2 else capacityAfter len n

/-! ## §3. One append. -/

section Append

variable {mem : Allocator} {this this' : CVector} {elems : List UInt64} {elem : UInt64} {len n : Nat}

theorem le_capacityAfter (len n : Nat) : len ≤ capacityAfter len n := by
  induction n with
  | zero => exact Nat.le_refl len
  | succ n ih =>
      rw [capacityAfter]
      split <;> omega

/-- The vector is within its block, the pointers stand one behind the other, and the capacity is
the one this many appends make of the initial length. -/
structure CVector.Inside (len : Nat) (this : CVector) (elems : List UInt64) : Prop where
  sizeElem : this.sizeElem = 8
  length : this.length = elems.length
  room : elems.length ≤ this.capacity
  capacity : this.capacity = capacityAfter len elems.length
  block : 8 * this.capacity ≤ this.elems.length
  tight : this.elems.length ≤ 8 * this.capacity + 4
  small : this.elems.length < 2 ^ 64
  pointers : ∀ i e, elems[i]? = some e → Carries this.elems (8 * i) (codecPointer.encode e)

theorem encode_length (e : UInt64) : (codecPointer.encode e).length = 8 := codecPointer.length_encode e

/-- What is carried is read back. -/
theorem decode_carried {block : Bytes} {off : Nat} {e : UInt64}
    (h : Carries block off (codecPointer.encode e)) :
    off + 8 ≤ block.length ∧ codecPointer.decode (block.drop off) = e := by
  have hlen := h.length (by rw [← List.length_pos_iff, encode_length]; omega)
  rw [encode_length] at hlen
  obtain ⟨rest, hrest⟩ := h
  refine ⟨hlen, ?_⟩
  rw [← hrest]
  exact codecPointer.decode_encode e rest

theorem CVector.Inside.holds (h : this.Inside len elems) : this.Holds elems := by
  refine ⟨by rw [h.length]; exact h.room, h.block, fun pos => ?_⟩
  unfold vectorGet
  rw [h.length]
  rcases Nat.lt_or_ge pos elems.length with hin | hout
  · obtain ⟨hlen, hdecode⟩ := decode_carried (h.pointers pos _ (List.getElem?_eq_getElem hin))
    rw [if_neg (by omega), if_pos hlen, hdecode, List.getElem?_eq_getElem hin]
  · rw [if_pos hout, List.getElem?_eq_none hout]

/-- A vector that holds a list of `n` elements has length `n`. -/
theorem CVector.Holds.length_eq (h : this.Holds elems) : this.length = elems.length := by
  have hfirst := h.answers elems.length
  rw [List.getElem?_eq_none (Nat.le_refl _)] at hfirst
  have hlast := h.answers this.length
  unfold vectorGet at hfirst hlast
  rw [if_pos (Nat.le_refl _)] at hlast
  have hle : elems.length ≤ this.length := by
    by_contra hlt
    rw [List.getElem?_eq_getElem (Nat.lt_of_not_le hlt)] at hlast
    exact absurd hlast (by simp)
  have hge : this.length ≤ elems.length := by
    by_contra hlt
    rw [if_neg hlt] at hfirst
    split at hfirst
    · exact absurd hfirst (by simp)
    · exact absurd hfirst (by simp)
  omega

/-- The pointer is written into the first free place. -/
theorem putElem_spec (this : CVector) (elem : UInt64)
    (hlen : this.length = elems.length)
    (hroom : elems.length < this.capacity)
    (hblock : 8 * this.capacity ≤ this.elems.length) (hsmall : this.elems.length < 2 ^ 64)
    (hpointers : ∀ i e, elems[i]? = some e → Carries this.elems (8 * i) (codecPointer.encode e)) :
    ∃ block, putElem this elem = .ok { this with elems := block, length := elems.length + 1 }
      ∧ block.length = this.elems.length
      ∧ ∀ i e, (elems ++ [elem])[i]? = some e → Carries block (8 * i) (codecPointer.encode e) := by
  have hsize := encode_length elem
  have hfits : 8 * elems.length + (codecPointer.encode elem).length ≤ this.elems.length := by omega
  have hcopy : memcpy this.elems (8 * elems.length) (codecPointer.encode elem) 8
      = .ok (this.elems.take (8 * elems.length) ++ codecPointer.encode elem
          ++ this.elems.drop (8 * elems.length + (codecPointer.encode elem).length)) := by
    rw [memcpy_ok (Nat.le_of_eq hsize.symm) (by omega), List.take_of_length_le (Nat.le_of_eq hsize),
      hsize]
  refine ⟨this.elems.take (8 * elems.length) ++ codecPointer.encode elem
    ++ this.elems.drop (8 * elems.length + (codecPointer.encode elem).length), ?_, ?_, ?_⟩
  · unfold putElem
    rw [hlen, hcopy, ok_bind, Nat.mod_eq_of_lt (by omega)]
    rfl
  · rw [List.length_append, List.length_append, List.length_take, List.length_drop]
    omega
  · intro i e hi
    rcases Nat.lt_trichotomy i elems.length with hlt | rfl | hgt
    · rw [List.getElem?_append_left hlt] at hi
      have hsize' := encode_length e
      exact (hpointers i e hi).memcpy hfits (Agree.of_disjoint (.inl (by omega)))
    · rw [List.getElem?_append_right (Nat.le_refl _), Nat.sub_self] at hi
      obtain rfl := Option.some.inj hi
      exact memcpy_carries hfits
    · rw [List.getElem?_eq_none (by rw [List.length_append, List.length_singleton]; omega)] at hi
      cases hi

/-- An append to a vector that is not full. -/
theorem append_room (h : this.Inside len elems) (hroom : elems.length < this.capacity) :
    ∃ this', vectorAppend mem this elem = .ok (0, this') ∧ this'.Inside len (elems ++ [elem]) := by
  have hblock := h.block
  have hsmall := h.small
  have hcount : (elems ++ [elem]).length = elems.length + 1 := List.length_append
  obtain ⟨block, hput, hlen, hpointers⟩ :=
    putElem_spec this elem h.length hroom h.block h.small h.pointers
  refine ⟨{ this with elems := block, length := elems.length + 1 }, ?_,
    ⟨h.sizeElem, hcount.symm, ?_, ?_, ?_, ?_, ?_, hpointers⟩⟩
  · unfold vectorAppend
    rw [h.length, Nat.mod_eq_of_lt (by omega), if_neg (by omega), hput]
    rfl
  · rw [hcount]
    exact hroom
  · show this.capacity = _
    have hcap := h.capacity
    rw [hcount, capacityAfter, if_neg (by omega)]
    exact hcap
  · show 8 * this.capacity ≤ block.length
    omega
  · show block.length ≤ 8 * this.capacity + 4
    rw [hlen]
    exact h.tight
  · show block.length < 2 ^ 64
    omega

/-- What a block carries it carries when more follows. -/
theorem carries_grown {block extra s : Bytes} {off : Nat} (h : Carries block off s) (hs : s ≠ []) :
    Carries (block ++ extra) off s := by
  have hlen := h.length hs
  obtain ⟨rest, hrest⟩ := h
  refine ⟨rest ++ extra, ?_⟩
  rw [List.drop_append_of_le_length (by omega), ← hrest, List.append_assoc]

/-- An append to a full vector whose growth is large enough. -/
theorem append_full (hmem : mem.Total) (h : this.Inside len elems)
    (hfull : elems.length = this.capacity) (htwo : 2 ≤ this.capacity)
    (hfits : 24 * this.capacity < 2 ^ 64) :
    ∃ this', vectorAppend mem this elem = .ok (0, this') ∧ this'.Inside len (elems ++ [elem]) := by
  have hcap := h.capacity
  have htight := h.tight
  have hcount : (elems ++ [elem]).length = elems.length + 1 := List.length_append
  -- 24 times the capacity fits a `size_t`, so neither product of the request wraps
  have hbytes : this.sizeElem * this.capacity % 2 ^ 64 * 3 % 2 ^ 64 / 2 = 12 * this.capacity := by
    rw [h.sizeElem]
    omega
  have hnext : this.capacity * 3 % 2 ^ 64 / 2 = this.capacity * 3 / 2 := by omega
  obtain ⟨extra, hrealloc, hsize, -⟩ :=
    realloc_grow hmem this.reallocs (show this.elems.length ≤ 12 * this.capacity by omega)
  obtain ⟨block, hput, hlen, hpointers⟩ := putElem_spec
    { this with
      elems := this.elems ++ extra
      capacity := this.capacity * 3 / 2
      reallocs := this.reallocs + 1 }
    elem h.length (show elems.length < this.capacity * 3 / 2 by omega)
    (show 8 * (this.capacity * 3 / 2) ≤ (this.elems ++ extra).length by omega)
    (show (this.elems ++ extra).length < 2 ^ 64 by omega)
    (by
      intro i e hi
      refine carries_grown (h.pointers i e hi) ?_
      rw [← List.length_pos_iff, encode_length]
      omega)
  replace hlen : block.length = (this.elems ++ extra).length := hlen
  have hgrow : this.capacity < (this.length + 1) % 2 ^ 64 := by
    rw [h.length]
    omega
  refine ⟨{ this with
      elems := block
      capacity := this.capacity * 3 / 2
      length := elems.length + 1
      reallocs := this.reallocs + 1 }, ?_,
    ⟨h.sizeElem, hcount.symm, ?_, ?_, ?_, ?_, ?_, hpointers⟩⟩
  · unfold vectorAppend
    rw [if_pos hgrow, hbytes, hrealloc, hnext]
    show (do let v ← putElem _ elem; return (0, v)) = _
    rw [hput]
    rfl
  · show (elems ++ [elem]).length ≤ this.capacity * 3 / 2
    omega
  · show this.capacity * 3 / 2 = capacityAfter len (elems ++ [elem]).length
    rw [hcount, capacityAfter, if_pos (by omega), hcap]
  · show 8 * (this.capacity * 3 / 2) ≤ block.length
    omega
  · show block.length ≤ 8 * (this.capacity * 3 / 2) + 4
    omega
  · show block.length < 2 ^ 64
    omega

/-- What `putElem` makes of the numbers. -/
theorem putElem_numbers (hput : putElem this elem = .ok this') :
    this'.capacity = this.capacity ∧ this'.length = (this.length + 1) % 2 ^ 64
      ∧ this'.elems.length = this.elems.length := by
  unfold putElem at hput
  obtain ⟨block, hcopy, hput⟩ := bind_ok hput
  obtain rfl := Except.ok.inj hput
  refine ⟨rfl, rfl, ?_⟩
  unfold memcpy at hcopy
  split at hcopy
  next hfits =>
    obtain rfl := Except.ok.inj hcopy
    show List.length (_ ++ _ ++ _) = _
    rw [List.length_append, List.length_append, List.length_take, List.length_take,
      List.length_drop]
    omega
  next => cases hcopy

theorem realloc_length {block block' : Bytes} {call size : Nat}
    (h : realloc mem call block size = some block') : block'.length = size := by
  unfold realloc at h
  obtain ⟨fill, -, rfl⟩ := Option.map_eq_some_iff.mp h
  rw [List.length_append, List.length_take, List.length_map, List.length_range]
  omega

/-- **An append to a full vector whose growth is too small**: a capacity of 1 stays 1, and from
2^64 / 24 on the number of bytes wraps, but the capacity does not. -/
theorem append_full_breaks (h : this.Inside len elems) (hpos : 1 ≤ this.capacity)
    (hfull : elems.length = this.capacity)
    (hbad : ¬ (2 ≤ this.capacity ∧ 24 * this.capacity < 2 ^ 64)) {ret : Nat} {es : List UInt64}
    (hes : es.length = elems.length + 1)
    (happend : vectorAppend mem this elem = .ok (ret, this')) : ¬ this'.Holds es := by
  intro hholds
  have hblock := h.block
  have hsmall := h.small
  have hlength := hholds.length_eq
  have hroom := hholds.room
  have hwide := hholds.block
  have hgrow : this.capacity < (this.length + 1) % 2 ^ 64 := by
    rw [h.length]
    omega
  unfold vectorAppend at happend
  rw [if_pos hgrow, h.sizeElem] at happend
  split at happend
  · obtain rfl := (Prod.mk.inj (Except.ok.inj happend)).2
    have hsame : this.length = es.length := hlength
    rw [h.length] at hsame
    omega
  · next block hrealloc =>
    obtain ⟨v, hput, happend⟩ := bind_ok happend
    obtain rfl := (Prod.mk.inj (Except.ok.inj happend)).2
    obtain ⟨hcap, -, hlen⟩ := putElem_numbers hput
    have hbytes := realloc_length hrealloc
    replace hcap : v.capacity = this.capacity * 3 % 2 ^ 64 / 2 := hcap
    replace hlen : v.elems.length = block.length := hlen
    -- of the products only that of the byte count can wrap
    have height : 8 * this.capacity % 2 ^ 64 = 8 * this.capacity := Nat.mod_eq_of_lt (by omega)
    have hthree : this.capacity * 3 % 2 ^ 64 = this.capacity * 3 := Nat.mod_eq_of_lt (by omega)
    rw [height] at hbytes
    rw [hthree] at hcap
    omega

end Append

/-! ## §4. A whole run. -/

section Run

variable {mem : Allocator} {st : CVector × List UInt64} {elem : UInt64} {len : Nat}

/-- The growth that an append to a full vector of this capacity asks for is large enough. -/
def Grows (capacity : Nat) : Prop := 2 ≤ capacity ∧ 24 * capacity < 2 ^ 64

/-- **The step lemma**: a vector with room, or one that grows, stays inside its block. -/
theorem vectorStep_inside (elem : UInt64) (hmem : mem.Total) (h : st.1.Inside len st.2)
    (hgrows : capacityAfter len st.2.length = st.2.length → Grows st.2.length) :
    ∃ st', vectorStep mem st (.append elem) = .ok st' ∧ st'.1.Inside len st'.2
      ∧ st'.2.length = st.2.length + 1 := by
  have hcap := h.capacity
  have hcount : (st.2 ++ [elem]).length = st.2.length + 1 := List.length_append
  obtain ⟨this', happend, hinside⟩ : ∃ this', vectorAppend mem st.1 elem = .ok (0, this')
      ∧ this'.Inside len (st.2 ++ [elem]) := by
    rcases Nat.lt_or_eq_of_le h.room with hroom | hfull
    · exact append_room h hroom
    · obtain ⟨htwo, hfits⟩ := hgrows (by omega)
      exact append_full hmem h hfull (by omega) (by omega)
  refine ⟨(this', st.2 ++ [elem]), ?_, hinside, hcount⟩
  show (do let (_, this) ← vectorAppend mem st.1 elem; return (this, st.2 ++ [elem])) = _
  rw [happend]
  rfl

/-- A full vector that does not grow leaves its block with the next element. -/
theorem vectorStep_breaks (h : st.1.Inside len st.2) (hpos : 1 ≤ len)
    (hfull : capacityAfter len st.2.length = st.2.length) (hbad : ¬ Grows st.2.length)
    {st' : CVector × List UInt64} (hstep : vectorStep mem st (.append elem) = .ok st') :
    ¬ st'.1.Holds st'.2 := by
  have hcap := h.capacity
  have hle := le_capacityAfter len st.2.length
  obtain ⟨⟨ret, this'⟩, happend, hst⟩ := bind_ok hstep
  obtain rfl := Except.ok.inj hst
  refine append_full_breaks h (by omega) (by omega) ?_ List.length_append happend
  rw [hcap, hfull]
  exact hbad

/-- `vector_get` leaves the vector alone. -/
theorem vectorStep_get (h : st.1.Inside len st.2) (pos : Nat) :
    vectorStep mem st (.get pos) = .ok st := by
  show (do let _ ← vectorGet st.1 pos; return st) = _
  rw [h.holds.answers pos]
  rfl

/-- **The run lemma**, from any vector inside its block. -/
theorem vectorRun_iff (hmem : mem.Total) (hpos : 1 ≤ len) : ∀ (ops : List VectorOp)
    (st : CVector × List UInt64), st.1.Inside len st.2 →
    (Stays (vectorStep mem) (fun st => st.1.Holds st.2) st ops
      ↔ ∀ n, st.2.length ≤ n → n < st.2.length + appends ops → capacityAfter len n = n → Grows n) := by
  intro ops
  induction ops with
  | nil =>
      intro st h
      refine iff_of_true (stays_nil.mpr h.holds) fun n hge hlt => ?_
      exact absurd hlt (Nat.not_lt.mpr hge)
  | cons op ops ih =>
      intro st h
      rw [stays_cons]
      cases op with
      | get pos =>
          show _ ↔ ∀ n, st.2.length ≤ n → n < st.2.length + appends ops → _
          rw [← ih st h]
          constructor
          · intro hs
            obtain ⟨-, m, hm, hstays⟩ := hs
            rw [vectorStep_get h] at hm
            exact Except.ok.inj hm ▸ hstays
          · intro hstays
            exact ⟨h.holds, st, vectorStep_get h pos, hstays⟩
      | append elem =>
          show _ ↔ ∀ n, st.2.length ≤ n → n < st.2.length + (appends ops + 1) → _
          -- a growth that is too small shows in the state right behind it
          by_cases hgrows : capacityAfter len st.2.length = st.2.length → Grows st.2.length
          · obtain ⟨st', hstep, hinside, hcount⟩ := vectorStep_inside elem hmem h hgrows
            have hrest := ih st' hinside
            rw [hcount] at hrest
            constructor
            · intro hs n hge hlt hfull
              obtain ⟨-, m, hm, hstays⟩ := hs
              obtain rfl := Except.ok.inj (hstep.symm.trans hm)
              rcases Nat.eq_or_lt_of_le hge with rfl | hgt
              · exact hgrows hfull
              · exact hrest.mp hstays n hgt (by omega) hfull
            · intro hall
              exact ⟨h.holds, st', hstep, hrest.mpr fun n hge hlt => hall n (by omega) (by omega)⟩
          · rw [not_forall] at hgrows
            obtain ⟨hfull, hbad⟩ := hgrows
            refine iff_of_false (fun hs => ?_) fun hall =>
              hbad (hall _ (Nat.le_refl _) (by omega) hfull)
            obtain ⟨-, m, hm, hstays⟩ := hs
            obtain ⟨s', hrun, hholds⟩ := hstays [] List.nil_prefix
            obtain rfl := run_nil.mp hrun
            exact vectorStep_breaks h hpos hfull hbad hm hholds

/-- The vector `vector_init` delivers. -/
theorem vectorInit_inside {granted : Bool} {this : CVector}
    (hinit : vectorInit granted len 8 = some this) : this.Inside len [] := by
  unfold vectorInit at hinit
  split at hinit
  next hok =>
    obtain rfl := Option.some.inj hinit
    have hlen : (List.replicate (len * 8) (0 : UInt8)).length = len * 8 := List.length_replicate
    refine ⟨rfl, rfl, Nat.zero_le _, rfl, ?_, ?_, ?_, ?_⟩
    · show 8 * len ≤ (List.replicate (len * 8) (0 : UInt8)).length
      omega
    · show (List.replicate (len * 8) (0 : UInt8)).length ≤ 8 * len + 4
      omega
    · show (List.replicate (len * 8) (0 : UInt8)).length < 2 ^ 64
      omega
    · intro i e hi
      cases hi
  next => cases hinit

/-- **When the vector stays inside its block.**  With an initial length of 1 it takes one element;
with a larger one it takes as many as are appended, unless it is full at a length whose bytes,
times three, no `size_t` holds. -/
theorem vector_stays_iff (mem : Allocator) (hmem : mem.Total) {granted : Bool} (hpos : 1 ≤ len)
    {this : CVector} (hinit : vectorInit granted len 8 = some this) (ops : List VectorOp) :
    StaysInside mem this ops ↔ (2 ≤ len ∨ appends ops ≤ 1)
      ∧ ∀ n < appends ops, capacityAfter len n = n → 24 * n < 2 ^ 64 := by
  unfold StaysInside
  rw [vectorRun_iff hmem hpos ops (this, []) (vectorInit_inside hinit)]
  constructor
  · intro hall
    refine ⟨?_, fun n hlt hfull => (hall n (Nat.zero_le _) (by show n < 0 + appends ops; omega) hfull).2⟩
    by_contra hnot
    -- a vector of length 1 is full with one element, and does not grow
    obtain rfl : len = 1 := by omega
    have hone := hall 1 (Nat.zero_le _) (by show 1 < 0 + appends ops; omega) (by decide)
    exact absurd hone.1 (by decide)
  · intro hcond n _ hlt hfull
    obtain ⟨hlen, hfits⟩ := hcond
    replace hlt : n < 0 + appends ops := hlt
    have hle := le_capacityAfter len n
    exact ⟨by omega, hfits n (by omega) hfull⟩

/-- The vector of eight pointers that `db_full_Record_init` makes grows to twelve for the ninth. -/
theorem vector_stays_eight :
    StaysInside (fun _ _ => some fun _ => 170)
      { elems := List.replicate 64 0, sizeElem := 8, capacity := 8, length := 0, reallocs := 0 }
      [.append 1, .append 2, .append 3, .append 4, .append 5, .append 6, .append 7, .append 8,
        .append 9, .get 8, .append 10, .get 9] := by
  refine (vector_stays_iff _ (fun _ _ => rfl) (by decide)
    (show vectorInit true 8 8 = some _ from rfl) _).mpr ⟨.inl (by decide), fun n hn _ => ?_⟩
  replace hn : n < 10 := hn
  omega

/-- A vector of one pointer asks for twelve bytes when the second comes, and writes to sixteen. -/
theorem vector_one_breaks : ∃ this, vectorInit true 1 8 = some this
    ∧ ¬ StaysInside (fun _ _ => some fun _ => 0) this [.append 1, .append 2] := by
  refine ⟨_, rfl, fun h => ?_⟩
  obtain ⟨st, hrun, -⟩ := h _ (List.prefix_refl _)
  have hfault : [VectorOp.append 1, .append 2].foldlM (vectorStep fun _ _ => some fun _ => 0)
      ({ elems := List.replicate 8 0, sizeElem := 8, capacity := 1, length := 0, reallocs := 0 }, [])
      = .error .outOfRange := by rfl
  exact absurd (hfault.symm.trans hrun) (by simp)

end Run

end DirSurveiller
