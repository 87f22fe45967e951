/-
  DirSurveiller.Containers.Capacity — the string buffer under an allocator that may refuse.

  `sb_append` and `sb_appendl` ask `realloc` for twice the size until the new content fits.
  Whether an append takes place, and what size it leaves, depends on three numbers only: the size,
  the position and how many requests came before (`Capacity`).

    * `grow_steps` — the growth loop through `k` granted requests,
    * `append_declined`, `append_appended` and the same for `sb_appendl` — an append is declined
      with the content as it was, or the bytes stand behind it,
    * `deletehead_sound`, `flush_sound` — the two operations that do not grow,
    * `append_spec`, `appendl_spec` — the appends of an allocator that refuses nothing.
-/
import DirSurveiller.Containers.StringBuffer
import DirSurveiller.Lib.Doubling

namespace DirSurveiller

open CMachine Outcome Doubling

/-! ## §1. What an append depends on. -/

/-- The numbers of a string buffer. -/
structure Capacity where
  size : Nat
  endPos : Nat
  reallocs : Nat
  deriving Repr, DecidableEq

/-- An append of `len` bytes: whether it takes place, and the numbers behind it. -/
def Capacity.append (mem : Allocator) (c : Capacity) (len : Nat) : Bool × Capacity :=
  match firstRefused mem c.reallocs c.size (c.endPos + len) with
  | some k => (false, { c with size := c.size * 2 ^ k, reallocs := c.reallocs + k + 1 })
  | none =>
      (true,
        { size := c.size * 2 ^ doublings c.size (c.endPos + len)
          endPos := (c.endPos + len) % 2 ^ 32
          reallocs := c.reallocs + doublings c.size (c.endPos + len) })

namespace StringBuffer

def capacity (this : StringBuffer) : Capacity :=
  { size := this.size, endPos := this.endPos, reallocs := this.reallocs }

/-- The block has the recorded size, one byte of it is behind the content, and the numbers fit
their types. -/
structure Sound (this : StringBuffer) : Prop where
  length : this.string.length = this.size
  room : this.endPos < this.size
  small : this.size < 2 ^ 64
  position : this.endPos < 2 ^ 32

/-- One of the requests for `len` more bytes is refused. -/
def Refuses (mem : Allocator) (this : StringBuffer) (len : Nat) : Prop :=
  Refused mem this.reallocs this.size (this.endPos + len)

instance (mem : Allocator) (this : StringBuffer) (len : Nat) : Decidable (Refuses mem this len) :=
  inferInstanceAs (Decidable (Refused _ _ _ _))

/-- The byte at index `i` once the block is that large: the old one, or the one that came with the
request that added it. -/
def byteAt (mem : Allocator) (this : StringBuffer) (i : Nat) : Option UInt8 :=
  if i < this.size then this.string[i]?
  else (mem (this.reallocs + (doublings this.size i - 1))
    (this.size * 2 ^ doublings this.size i)).map fun fill => fill i

variable {mem : Allocator} {this g : StringBuffer} {len n k : Nat}

theorem append_of_refused (hk : firstRefused mem this.reallocs this.size (this.endPos + len) = some k) :
    this.capacity.append mem len
      = (false, ⟨this.size * 2 ^ k, this.endPos, this.reallocs + k + 1⟩) := by
  unfold Capacity.append
  show (match firstRefused mem this.reallocs this.size (this.endPos + len) with
    | some k => _
    | none => _) = _
  rw [hk]
  rfl

theorem append_of_granted (hr : ¬ this.Refuses mem len) : this.capacity.append mem len
    = (true, ⟨this.size * 2 ^ doublings this.size (this.endPos + len),
        (this.endPos + len) % 2 ^ 32,
        this.reallocs + doublings this.size (this.endPos + len)⟩) := by
  unfold Capacity.append
  show (match firstRefused mem this.reallocs this.size (this.endPos + len) with
    | some k => _
    | none => _) = _
  rw [firstRefused_none.mpr hr]
  rfl

theorem granted_of_not_refuses (hr : ¬ Refuses mem this len) :
    ∀ j < doublings this.size (this.endPos + len),
      (mem (this.reallocs + j) (this.size * 2 ^ (j + 1) % 2 ^ 64)).isSome := by
  intro j hj
  rw [Option.isSome_iff_ne_none]
  exact fun hnone => hr ⟨j, hj, hnone⟩

theorem Sound.pos (h : this.Sound) : 0 < this.size := Nat.lt_of_le_of_lt (Nat.zero_le _) h.room

theorem Sound.content_length (h : this.Sound) : this.content.length = this.endPos := by
  have hroom := h.room
  rw [content, List.length_take, h.length]
  omega

theorem sound_init {size : Nat} (hpos : 0 < size) (hsmall : size < 2 ^ 64) : (sbInit size).Sound :=
  ⟨by simp [sbInit], hpos, hsmall, by simp [sbInit]⟩

/-! ## §2. The growth loop. -/

/-- The buffer after `k` granted requests. -/
structure Grown (mem : Allocator) (this : StringBuffer) (k : Nat) (g : StringBuffer) : Prop where
  endPos : g.endPos = this.endPos
  size : g.size = this.size * 2 ^ k
  reallocs : g.reallocs = this.reallocs + k
  length : g.string.length = g.size
  bytes : ∀ i < g.size, g.string[i]? = byteAt mem this i

theorem Grown.refl (hlen : this.string.length = this.size) : Grown mem this 0 this := by
  refine ⟨rfl, by omega, rfl, hlen, ?_⟩
  intro i hi
  rw [byteAt, if_pos hi]

/-- The buffer after one granted request. -/
def doubled (this : StringBuffer) (fill : Nat → UInt8) : StringBuffer :=
  { this with
    string := this.string ++ (List.range this.size).map fun j => fill (this.size + j)
    size := this.size * 2
    reallocs := this.reallocs + 1 }

theorem doubled_length (hlen : this.string.length = this.size) (fill : Nat → UInt8) :
    (doubled this fill).string.length = (doubled this fill).size := by
  show (this.string ++ (List.range this.size).map fun j => fill (this.size + j)).length
    = this.size * 2
  rw [List.length_append, List.length_map, List.length_range]
  omega

/-- The bytes of the doubled block, and so of what is made of it. -/
theorem doubled_byteAt (hlen : this.string.length = this.size) (hpos : 0 < this.size)
    {fill : Nat → UInt8} (hfill : mem this.reallocs (this.size * 2) = some fill) (i : Nat) :
    byteAt mem (doubled this fill) i = byteAt mem this i := by
  rcases Nat.lt_or_ge i this.size with hold | hnew
  · have hin : i < (doubled this fill).size := by
      show i < this.size * 2
      omega
    rw [byteAt, if_pos hin, byteAt, if_pos hold]
    exact List.getElem?_append_left (by omega)
  · have hadd : doublings this.size i = 1 + doublings (this.size * 2) i :=
      doublings_add hpos (doublings_pos hpos hnew)
    rw [byteAt.eq_def mem this, if_neg (by omega), hadd]
    rcases Nat.lt_or_ge i (this.size * 2) with hin | hout
    · -- the request just made added this byte
      rw [byteAt, if_pos (show i < (doubled this fill).size from hin), doublings_eq_zero hin]
      show (this.string ++ (List.range this.size).map fun j => fill (this.size + j))[i]? = _
      rw [List.getElem?_append_right (by omega), hlen, List.getElem?_map,
        List.getElem?_range (by omega), Option.map_some, Nat.add_sub_cancel' hnew]
      show _ = (mem this.reallocs (this.size * 2)).map fun fill => fill i
      rw [hfill, Option.map_some]
    · have hmore : 0 < doublings (this.size * 2) i := doublings_pos (by omega) hout
      have hnot : ¬ i < (doubled this fill).size := Nat.not_lt.mpr hout
      rw [byteAt, if_neg hnot]
      show (mem (this.reallocs + 1 + (doublings (this.size * 2) i - 1))
        (this.size * 2 * 2 ^ doublings (this.size * 2) i)).map (fun fill => fill i) = _
      rw [Nat.pow_add, Nat.pow_one, Nat.mul_assoc,
        show this.reallocs + 1 + (doublings (this.size * 2) i - 1)
          = this.reallocs + (1 + doublings (this.size * 2) i - 1) by omega]

theorem Grown.of_doubled (hlen : this.string.length = this.size) (hpos : 0 < this.size)
    {fill : Nat → UInt8} (hfill : mem this.reallocs (this.size * 2) = some fill)
    (h : Grown mem (doubled this fill) k g) : Grown mem this (k + 1) g := by
  refine ⟨h.endPos, ?_, ?_, h.length, ?_⟩
  · rw [h.size]
    show this.size * 2 * 2 ^ k = _
    rw [Nat.pow_succ', Nat.mul_assoc]
  · rw [h.reallocs]
    show this.reallocs + 1 + k = _
    omega
  · intro i hi
    rw [h.bytes i hi, doubled_byteAt hlen hpos hfill]

/-- The loop ends where there is room. -/
theorem grow_stop (h : (this.endPos + len) % 2 ^ 64 < this.size) (rounds : Nat) :
    sbGrow mem len rounds this = .ok (true, this) := by
  cases rounds with
  | zero => rw [sbGrow, if_neg (by omega)]
  | succ rounds => rw [sbGrow, if_neg (by omega)]

/-- A refused request ends the loop. -/
theorem grow_refuse (h : this.size ≤ (this.endPos + len) % 2 ^ 64)
    (hnone : mem this.reallocs (this.size * 2 % 2 ^ 64) = none) (rounds : Nat) :
    sbGrow mem len (rounds + 1) this = .ok (false, { this with reallocs := this.reallocs + 1 }) := by
  rw [sbGrow, if_pos h, realloc, hnone, Option.map_none]

/-- A granted one doubles the block. -/
theorem grow_grant (hlen : this.string.length = this.size)
    (h : this.size ≤ (this.endPos + len) % 2 ^ 64) (hsmall : this.size * 2 < 2 ^ 64)
    {fill : Nat → UInt8} (hfill : mem this.reallocs (this.size * 2) = some fill) (rounds : Nat) :
    sbGrow mem len (rounds + 1) this = sbGrow mem len rounds (doubled this fill) := by
  rw [sbGrow, if_pos h, Nat.mod_eq_of_lt hsmall, realloc, hfill, Option.map_some,
    List.take_of_length_le (by omega), hlen, show this.size * 2 - this.size = this.size by omega]
  rfl

/-- **The growth loop, `k` rounds of it.** -/
theorem grow_steps (rounds : Nat) :
    ∀ (k : Nat) (this : StringBuffer), (this.endPos + len) % 2 ^ 64 = n →
      this.string.length = this.size → 0 < this.size → this.size * 2 ^ k < 2 ^ 64 →
      k ≤ doublings this.size n →
      (∀ j < k, (mem (this.reallocs + j) (this.size * 2 ^ (j + 1) % 2 ^ 64)).isSome) →
      ∃ g, Grown mem this k g ∧ sbGrow mem len (rounds + k) this = sbGrow mem len rounds g := by
  intro k
  -- the first round is taken off: what remains is a growth of the doubled buffer
  induction k with
  | zero => intro this _ hlen _ _ _ _; exact ⟨this, Grown.refl hlen, rfl⟩
  | succ k ih =>
      intro this hn hlen hpos hsmall hk hgrants
      have hpow : this.size * 2 ^ (k + 1) = this.size * 2 * 2 ^ k := by
        rw [Nat.pow_succ', Nat.mul_assoc]
      have hdouble : this.size * 2 < 2 ^ 64 := by
        have : this.size * 2 ≤ this.size * 2 * 2 ^ k := Nat.le_mul_of_pos_right _ (Nat.two_pow_pos k)
        omega
      have hfull : this.size ≤ n := by
        have := (lt_doublings hpos).mp (show 0 < doublings this.size n by omega)
        omega
      obtain ⟨fill, hfill⟩ := Option.isSome_iff_exists.mp (hgrants 0 (by omega))
      rw [Nat.zero_add, Nat.pow_one, Nat.add_zero, Nat.mod_eq_of_lt hdouble] at hfill
      have hadd : doublings this.size n = 1 + doublings (this.size * 2) n :=
        doublings_add hpos (doublings_pos hpos hfull)
      obtain ⟨g, hgrown, hgrow⟩ := ih (doubled this fill) hn (doubled_length hlen fill)
        (show 0 < this.size * 2 by omega) (show this.size * 2 * 2 ^ k < 2 ^ 64 by omega)
        (show k ≤ doublings (this.size * 2) n by omega)
        (by
          intro j hj
          have hsize : this.size * 2 ^ (j + 1 + 1) = this.size * 2 * 2 ^ (j + 1) := by
            rw [Nat.mul_assoc, ← Nat.pow_succ']
          have hnext := hgrants (j + 1) (by omega)
          rw [hsize, show this.reallocs + (j + 1) = this.reallocs + 1 + j by omega] at hnext
          exact hnext)
      refine ⟨g, Grown.of_doubled hlen hpos hfill hgrown, ?_⟩
      rw [← Nat.add_assoc, grow_grant hlen (by omega) hdouble hfill]
      exact hgrow

/-- The loop up to the first refused request. -/
theorem grow_refused (h : this.Sound) (hn : this.endPos + len < 2 ^ 64)
    (hk : firstRefused mem this.reallocs this.size (this.endPos + len) = some k) :
    ∃ g, Grown mem this k g
      ∧ sbGrow mem len 64 this = .ok (false, { g with reallocs := g.reallocs + 1 }) := by
  obtain ⟨hlt, hnone, hgrants⟩ := firstRefused_some.mp hk
  have hfull : this.size * 2 ^ k ≤ this.endPos + len := (lt_doublings h.pos).mp hlt
  have hmax : doublings this.size (this.endPos + len) ≤ 64 := doublings_le h.pos hn
  have hmod : (this.endPos + len) % 2 ^ 64 = this.endPos + len := Nat.mod_eq_of_lt hn
  obtain ⟨g, hgrown, hgrow⟩ := grow_steps (63 - k + 1) k this hmod h.length h.pos (by omega)
    (Nat.le_of_lt hlt) hgrants
  refine ⟨g, hgrown, ?_⟩
  rw [show 63 - k + 1 + k = 64 by omega] at hgrow
  rw [hgrow]
  refine grow_refuse ?_ ?_ _
  · rw [hgrown.endPos, hmod, hgrown.size]
    exact hfull
  · rw [hgrown.size, hgrown.reallocs, Nat.mul_assoc, ← Nat.pow_succ]
    exact hnone

/-- The loop whose requests are all granted. -/
theorem grow_granted (h : this.Sound) (hn : this.endPos + len < 2 ^ 63)
    (hr : ¬ Refuses mem this len) :
    ∃ g, Grown mem this (doublings this.size (this.endPos + len)) g ∧ this.endPos + len < g.size
      ∧ sbGrow mem len 64 this = .ok (true, g) := by
  have hmax : doublings this.size (this.endPos + len) ≤ 63 := doublings_le h.pos hn
  have hmod : (this.endPos + len) % 2 ^ 64 = this.endPos + len := Nat.mod_eq_of_lt (by omega)
  have hgrants := granted_of_not_refuses hr
  obtain ⟨g, hgrown, hgrow⟩ := grow_steps (64 - doublings this.size (this.endPos + len)) _ this
    hmod h.length h.pos (doubled_lt h.pos h.small hn) (Nat.le_refl _) hgrants
  have hroom : this.endPos + len < g.size := by
    rw [hgrown.size]
    exact lt_doubled h.pos
  refine ⟨g, hgrown, hroom, ?_⟩
  rw [show 64 - doublings this.size (this.endPos + len) + doublings this.size (this.endPos + len) = 64
    by omega] at hgrow
  rw [hgrow]
  refine grow_stop ?_ _
  rw [hgrown.endPos, hmod]
  exact hroom

/-- A block of no bytes is never large enough, and doubling does not help. -/
theorem grow_size_zero {grown : Bool} : ∀ (rounds : Nat) (this : StringBuffer), this.size = 0 →
    sbGrow mem len rounds this = .ok (grown, g) → grown = false ∧ g.size = 0 := by
  intro rounds
  induction rounds with
  | zero =>
      intro this hzero h
      rw [sbGrow, if_pos (by omega)] at h
      cases h
  | succ rounds ih =>
      intro this hzero h
      rw [sbGrow, if_pos (by omega)] at h
      split at h
      · cases h
        exact ⟨rfl, hzero⟩
      next block _ =>
        have hnext : this.size * 2 % 2 ^ 64 = 0 := by omega
        exact ih { this with
          string := block
          size := this.size * 2 % 2 ^ 64
          reallocs := this.reallocs + 1 } hnext h

/-- Where no request is refused on the way beyond 2^63, a size that is a power of two comes to 2^64,
which is 0 in a `size_t`. -/
theorem grow_wraps (h : this.Sound) {j : Nat} (hsize : this.size = 2 ^ j)
    (hlow : 2 ^ 63 ≤ this.endPos + len) (hhigh : this.endPos + len < 2 ^ 64)
    (hr : ¬ Refuses mem this len) {grown : Bool} (hgrow : sbGrow mem len 64 this = .ok (grown, g)) :
    grown = false ∧ g.size = 0 := by
  have hmod : (this.endPos + len) % 2 ^ 64 = this.endPos + len := Nat.mod_eq_of_lt hhigh
  have hgrants := granted_of_not_refuses hr
  have hj : j < 64 := by
    rw [← Nat.pow_lt_pow_iff_right (show 1 < 2 by decide), ← hsize]
    exact h.small
  -- the last size below the bound is 2^63
  have hlast : 63 - j < doublings this.size (this.endPos + len) := by
    rw [lt_doublings h.pos, hsize, ← Nat.pow_add, show j + (63 - j) = 63 by omega]
    exact hlow
  have hhalf : this.size * 2 ^ (63 - j) = 2 ^ 63 := by
    rw [hsize, ← Nat.pow_add, show j + (63 - j) = 63 by omega]
  obtain ⟨m, hgrown, hsteps⟩ := grow_steps (j + 1) (63 - j) this hmod h.length h.pos (by omega)
    (Nat.le_of_lt hlast) (fun i hi => hgrants i (by omega))
  have hsizem : m.size = 2 ^ 63 := hgrown.size.trans hhalf
  have hzero : m.size * 2 % 2 ^ 64 = 0 := by omega
  have hgrant := hgrants (63 - j) hlast
  rw [Nat.pow_succ, ← Nat.mul_assoc, hhalf, show 2 ^ 63 * 2 % 2 ^ 64 = 0 by decide] at hgrant
  obtain ⟨fill, hfill⟩ := Option.isSome_iff_exists.mp hgrant
  have hfull : (m.endPos + len) % 2 ^ 64 ≥ m.size := by
    rw [hgrown.endPos, hmod, hsizem]
    exact hlow
  rw [show j + 1 + (63 - j) = 64 by omega] at hsteps
  rw [hsteps, sbGrow, if_pos hfull, hzero, realloc, hgrown.reallocs, hfill] at hgrow
  exact grow_size_zero j _ rfl hgrow

theorem Grown.sound (hgrown : Grown mem this k g) (h : this.Sound)
    (hsmall : this.size * 2 ^ k < 2 ^ 64) : g.Sound := by
  have hle : this.size ≤ this.size * 2 ^ k := Nat.le_mul_of_pos_right _ (Nat.two_pow_pos k)
  refine ⟨hgrown.length, ?_, ?_, ?_⟩
  · rw [hgrown.endPos, hgrown.size]
    exact Nat.lt_of_lt_of_le h.room hle
  · rw [hgrown.size]
    exact hsmall
  · rw [hgrown.endPos]
    exact h.position

/-- Growing does not touch the old bytes. -/
theorem Grown.take (hgrown : Grown mem this k g) {m : Nat} (hm : m ≤ this.size) :
    g.string.take m = this.string.take m := by
  have hle : this.size ≤ g.size := by
    rw [hgrown.size]
    exact Nat.le_mul_of_pos_right _ (Nat.two_pow_pos k)
  apply List.ext_getElem?
  intro i
  rcases Nat.lt_or_ge i m with hi | hi
  · rw [List.getElem?_take_of_lt hi, List.getElem?_take_of_lt hi, hgrown.bytes i (by omega), byteAt,
      if_pos (by omega)]
  · rw [List.getElem?_take_eq_none hi, List.getElem?_take_eq_none hi]

/-! ## §3. The two append operations. -/

/-- The append did not take place: the old bytes are as they were. -/
structure Declined (mem : Allocator) (this : StringBuffer) (len : Nat) (g : StringBuffer) : Prop where
  sound : g.Sound
  old : g.string.take this.size = this.string
  endPos : g.endPos = this.endPos
  capacity : ((false, g.capacity) : Bool × Capacity) = this.capacity.append mem len

/-- The append took place: `s` stands behind the old content.  The position is a `u_int32_t`. -/
structure Appended (mem : Allocator) (this : StringBuffer) (s : Bytes) (g : StringBuffer) : Prop where
  sound : g.Sound
  text : g.string.take (this.endPos + s.length) = this.content ++ s
  endPos : g.endPos = (this.endPos + s.length) % 2 ^ 32
  capacity : ((true, g.capacity) : Bool × Capacity) = this.capacity.append mem s.length

theorem Declined.content (hg : Declined mem this len g) (h : this.Sound) :
    g.content = this.content := by
  have htake := congrArg (List.take this.endPos) hg.old
  rw [List.take_take, Nat.min_eq_left (Nat.le_of_lt h.room)] at htake
  unfold StringBuffer.content
  rw [hg.endPos]
  exact htake

theorem Appended.content_take {s : Bytes} (hg : Appended mem this s g) :
    g.content = (this.content ++ s).take g.endPos := by
  have hle : g.endPos ≤ this.endPos + s.length := by
    rw [hg.endPos]
    exact Nat.mod_le _ _
  rw [← hg.text, List.take_take, Nat.min_eq_left hle]
  rfl

theorem Appended.content {s : Bytes} (hg : Appended mem this s g) (h : this.Sound)
    (hsum : this.endPos + s.length < 2 ^ 32) : g.content = this.content ++ s := by
  have hfront : (this.content ++ s).length = this.endPos + s.length := by
    rw [List.length_append, h.content_length]
  rw [hg.content_take, hg.endPos, Nat.mod_eq_of_lt hsum, ← hfront, List.take_length]

/-- The size and the number of requests behind an append that took place. -/
theorem Appended.numbers {s : Bytes} (hg : Appended mem this s g) (hr : ¬ Refuses mem this s.length) :
    g.size = this.size * 2 ^ doublings this.size (this.endPos + s.length)
      ∧ g.reallocs = this.reallocs + doublings this.size (this.endPos + s.length) := by
  have hcap := hg.capacity
  rw [append_of_granted hr] at hcap
  have hnumbers := (Prod.mk.inj hcap).2
  exact ⟨congrArg Capacity.size hnumbers, congrArg Capacity.reallocs hnumbers⟩

/-- `sb_append` and `sb_appendl` where a request is refused. -/
theorem declined_of_grown (h : this.Sound) (hn : this.endPos + len < 2 ^ 64)
    (hr : Refuses mem this len) :
    ∃ g, sbGrow mem len 64 this = .ok (false, g) ∧ Declined mem this len g := by
  obtain ⟨k, hk⟩ := hr.exists_first
  obtain ⟨g, hgrown, hgrow⟩ := grow_refused h hn hk
  have hfull : this.size * 2 ^ k ≤ this.endPos + len :=
    (lt_doublings h.pos).mp (firstRefused_some.mp hk).1
  have hsound := hgrown.sound h (by omega)
  refine ⟨{ g with reallocs := g.reallocs + 1 }, hgrow,
    ⟨hsound.length, hsound.room, hsound.small, hsound.position⟩, ?_, hgrown.endPos, ?_⟩
  · show g.string.take this.size = this.string
    rw [hgrown.take (Nat.le_refl _), List.take_of_length_le (Nat.le_of_eq h.length)]
  · show (false, Capacity.mk g.size g.endPos (g.reallocs + 1)) = _
    rw [append_of_refused hk, hgrown.size, hgrown.endPos, hgrown.reallocs]

theorem appendl_declined (h : this.Sound) (hn : this.endPos + len < 2 ^ 64)
    (hr : Refuses mem this len) (string : Bytes) :
    ∃ g, sbAppendl mem this string len = .ok (1, g) ∧ Declined mem this len g := by
  obtain ⟨g, hgrow, hdeclined⟩ := declined_of_grown h hn hr
  refine ⟨g, ?_, hdeclined⟩
  unfold sbAppendl
  rw [hgrow]
  rfl

theorem append_declined (h : this.Sound) {s : Bytes} (hs : (0 : UInt8) ∉ s)
    (hn : this.endPos + s.length < 2 ^ 64) (hr : Refuses mem this s.length) (rest : Bytes) :
    ∃ g, sbAppend mem this (s ++ 0 :: rest) = .ok (1, g) ∧ Declined mem this s.length g := by
  obtain ⟨g, hgrow, hdeclined⟩ := declined_of_grown h hn hr
  refine ⟨g, ?_, hdeclined⟩
  unfold sbAppend
  rw [strlen_terminated hs, ok_bind, hgrow]
  rfl

/-- What the copy behind the growth loop leaves; `piece` is `s`, or `s` and its terminator. -/
theorem appended_of_grown (h : this.Sound) {s : Bytes} (tail : Bytes)
    (hn : this.endPos + s.length < 2 ^ 63)
    (hr : ¬ Refuses mem this s.length)
    (hgrown : Grown mem this (doublings this.size (this.endPos + s.length)) g)
    (hfits : this.endPos + (s ++ tail).length ≤ g.size) (hroom : this.endPos + s.length < g.size) :
    Appended mem this s
      { g with
        string := g.string.take this.endPos ++ (s ++ tail)
          ++ g.string.drop (this.endPos + (s ++ tail).length)
        endPos := (this.endPos + s.length) % 2 ^ 32 } := by
  have hsound := hgrown.sound h (doubled_lt h.pos h.small hn)
  have hlength := hgrown.length
  have hcontent : g.string.take this.endPos = this.content := hgrown.take (Nat.le_of_lt h.room)
  have hmod : (this.endPos + s.length) % 2 ^ 32 ≤ this.endPos + s.length := Nat.mod_le _ _
  refine ⟨⟨?_, ?_, hsound.small, Nat.mod_lt _ (by omega)⟩, ?_, rfl, ?_⟩
  · show (g.string.take this.endPos ++ (s ++ tail)
      ++ g.string.drop (this.endPos + (s ++ tail).length)).length = g.size
    rw [List.length_append, List.length_append, List.length_take, List.length_drop]
    omega
  · show (this.endPos + s.length) % 2 ^ 32 < g.size
    omega
  · show (g.string.take this.endPos ++ (s ++ tail)
      ++ g.string.drop (this.endPos + (s ++ tail).length)).take (this.endPos + s.length) = _
    have hfront : (this.content ++ s).length = this.endPos + s.length := by
      rw [List.length_append, h.content_length]
    rw [hcontent, ← List.append_assoc, List.append_assoc, ← hfront, List.take_left]
  · show (true, Capacity.mk g.size _ g.reallocs) = _
    rw [append_of_granted hr, hgrown.size, hgrown.reallocs]

/-- **`sb_appendl`** whose requests are granted: behind the bytes the block is as it was. -/
theorem appendl_appended (h : this.Sound) {s : Bytes} (hn : this.endPos + s.length < 2 ^ 63)
    (hr : ¬ Refuses mem this s.length) :
    ∃ g, sbAppendl mem this s s.length = .ok (0, g) ∧ Appended mem this s g
      ∧ this.endPos + s.length < g.size
      ∧ ∀ i < g.size, this.endPos + s.length ≤ i → g.string[i]? = byteAt mem this i := by
  obtain ⟨g, hgrown, hroom, hgrow⟩ := grow_granted h hn hr
  have hlength := hgrown.length
  have hcopy : memcpy g.string g.endPos s s.length
      = .ok (g.string.take this.endPos ++ (s ++ [])
          ++ g.string.drop (this.endPos + (s ++ []).length)) := by
    rw [memcpy_ok (Nat.le_refl _) (by rw [hgrown.endPos]; omega), List.take_length, hgrown.endPos,
      List.append_nil]
  refine ⟨_, ?_, appended_of_grown h [] hn hr hgrown ?_ hroom, hroom, ?_⟩
  · unfold sbAppendl
    rw [hgrow, ok_bind]
    dsimp only
    rw [if_pos rfl, hcopy, ok_bind, hgrown.endPos]
    rfl
  · rw [List.append_nil]
    omega
  · intro i hi hbehind
    show (g.string.take this.endPos ++ (s ++ [])
      ++ g.string.drop (this.endPos + (s ++ []).length))[i]? = _
    rw [List.append_nil, memcpy_getElem? (by omega), if_neg (by omega), hgrown.bytes i hi]

/-- **`sb_append`** whose requests are granted: a NUL stands behind the string. -/
theorem append_appended (h : this.Sound) {s : Bytes} (hs : (0 : UInt8) ∉ s)
    (hn : this.endPos + s.length < 2 ^ 63) (hr : ¬ Refuses mem this s.length) (rest : Bytes) :
    ∃ g, sbAppend mem this (s ++ 0 :: rest) = .ok (0, g) ∧ Appended mem this s g
      ∧ g.string[this.endPos + s.length]? = some 0 := by
  obtain ⟨g, hgrown, hroom, hgrow⟩ := grow_granted h hn hr
  have hlength := hgrown.length
  have hone : (s ++ [(0 : UInt8)]).length = s.length + 1 := by simp
  have hblock : (s ++ 0 :: rest).take (s.length + 1) = s ++ [0] := by
    rw [show s ++ 0 :: rest = (s ++ [0]) ++ rest by simp, ← hone, List.take_left]
  have hcopy : memcpy g.string g.endPos (s ++ 0 :: rest) (s.length + 1)
      = .ok (g.string.take this.endPos ++ (s ++ [0])
          ++ g.string.drop (this.endPos + (s ++ [0]).length)) := by
    rw [memcpy_ok (by simp) (by rw [hgrown.endPos]; omega), hblock, hgrown.endPos, hone]
  refine ⟨_, ?_, appended_of_grown h [0] hn hr hgrown ?_ hroom, ?_⟩
  · unfold sbAppend
    rw [strlen_terminated hs, ok_bind, hgrow, ok_bind]
    dsimp only
    rw [if_pos rfl, hcopy, ok_bind, hgrown.endPos]
    rfl
  · omega
  · show (g.string.take this.endPos ++ (s ++ [0])
      ++ g.string.drop (this.endPos + (s ++ [0]).length))[this.endPos + s.length]? = _
    rw [memcpy_getElem? (by omega), if_pos (by omega), Nat.add_sub_cancel_left]
    simp

/-! ## §4. The two operations that do not grow. -/

theorem Sound.inside (h : this.Sound) : this.endPos < this.string.length := by
  rw [h.length]
  exact h.room

/-- **`sb_deletehead`** moves the NUL with the content, or writes one. -/
theorem deletehead_sound (h : this.Sound) (len : Nat) (hfits : this.endPos + 1 < 2 ^ 32 ∨ len = 0) :
    ∃ g, sbDeletehead this len = .ok g ∧ g.Sound
      ∧ g.content = this.content.drop (min len this.content.length)
      ∧ g.string[g.endPos]? = some 0 ∧ g.size = this.size := by
  have hroom := h.room
  have hposition := h.position
  have hk : min len this.endPos ≤ this.endPos := Nat.min_le_right _ _
  refine ⟨_, deletehead_eq h.inside (hfits.imp_right fun h0 => ⟨h.position, h0⟩),
    ⟨?_, ?_, h.small, ?_⟩, ?_, withoutHead_nul h.inside hk, rfl⟩
  · rw [withoutHead_length h.inside hk]
    exact h.length
  · show this.endPos - min len this.endPos < this.size
    omega
  · show this.endPos - min len this.endPos < 2 ^ 32
    omega
  · rw [withoutHead_content h.inside hk, h.content_length]

/-- **`sb_flush`** writes NUL everywhere. -/
theorem flush_sound (h : this.Sound) :
    ∃ g, sbFlush this = .ok g ∧ g.Sound ∧ g.content = [] ∧ g.string[g.endPos]? = some 0 := by
  refine ⟨_, flush_eq h.length, ⟨List.length_replicate, h.pos, h.small, Nat.two_pow_pos 32⟩, rfl, ?_⟩
  show (List.replicate this.size (0 : UInt8))[0]? = some 0
  rw [List.getElem?_replicate, if_pos h.pos]

/-! ## §5. An allocator that refuses nothing. -/

theorem Wf.sound (h : this.Wf) (hend : this.endPos < 2 ^ 32) : this.Sound :=
  ⟨h.length, h.room, Nat.lt_of_le_of_lt h.small (by decide), hend⟩

/-- A position that fits its type keeps the size below 2^33. -/
theorem Wf.appended (h : this.Wf) {s : Bytes} (hg : Appended mem this s g)
    (hr : ¬ Refuses mem this s.length) (hsum : this.endPos + s.length < 2 ^ 32) : g.Wf := by
  refine ⟨hg.sound.length, hg.sound.room, ?_⟩
  rw [(hg.numbers hr).1]
  have hpos : 0 < this.size := Nat.lt_of_le_of_lt (Nat.zero_le _) h.room
  rcases Nat.lt_or_ge (this.endPos + s.length) this.size with hfits | hfull
  · rw [doublings_eq_zero hfits, Nat.pow_zero, Nat.mul_one]
    exact h.small
  · have hle := doubled_le hpos hfull
    omega

/-- **`sb_appendl`**: the bytes stand behind the old content; behind them the block is as it was,
or as `realloc` delivered it. -/
theorem appendl_spec (hmem : mem.Total) (h : this.Wf) (bytes : Bytes)
    (hsum : this.endPos + bytes.length < 2 ^ 32) :
    ∃ g, sbAppendl mem this bytes bytes.length = .ok (0, g) ∧ g.Wf ∧ this.size ≤ g.size
      ∧ g.endPos = this.endPos + bytes.length ∧ g.content = this.content ++ bytes
      ∧ ∀ i < g.size, g.endPos ≤ i → g.string[i]? = byteAt mem this i := by
  have hsound := h.sound (by omega)
  have hr : ¬ Refuses mem this bytes.length := not_refused_total hmem
  obtain ⟨g, hcall, hg, -, hbehind⟩ := appendl_appended hsound (by omega) hr
  have hend : g.endPos = this.endPos + bytes.length := by
    rw [hg.endPos, Nat.mod_eq_of_lt hsum]
  refine ⟨g, hcall, h.appended hg hr hsum, ?_, hend, hg.content hsound hsum, ?_⟩
  · rw [(hg.numbers hr).1]
    exact Nat.le_mul_of_pos_right _ (Nat.two_pow_pos _)
  · rw [hend]
    exact hbehind

/-- **`sb_append`**: the string stands behind the old content, and a NUL behind it. -/
theorem append_spec (hmem : mem.Total) (h : this.Wf) (hclean : (0 : UInt8) ∉ this.content)
    {s : Bytes} (rest : Bytes) (hs : (0 : UInt8) ∉ s) (hsum : this.endPos + s.length < 2 ^ 32) :
    ∃ g, sbAppend mem this (s ++ 0 :: rest) = .ok (0, g) ∧ g.Wf ∧ g.Terminated
      ∧ g.content = this.content ++ s := by
  have hsound := h.sound (by omega)
  have hr : ¬ Refuses mem this s.length := not_refused_total hmem
  obtain ⟨g, hcall, hg, hnul⟩ := append_appended hsound hs (by omega) hr rest
  have hcontent := hg.content hsound hsum
  refine ⟨g, hcall, h.appended hg hr hsum, ⟨?_, ?_⟩, hcontent⟩
  · rw [hcontent, List.mem_append, not_or]
    exact ⟨hclean, hs⟩
  · rw [hg.endPos, Nat.mod_eq_of_lt hsum]
    exact hnul

/-- A length up to `size` takes at most one doubling. -/
theorem byteAt_behind (h : this.Wf) (hlen : len ≤ this.size) :
    byteAt mem this (this.endPos + len) = byteBehind mem this len := by
  have hroom := h.room
  unfold byteAt byteBehind
  by_cases hfits : this.endPos + len < this.size
  · rw [if_pos hfits, if_pos hfits]
  · have hone : doublings this.size (this.endPos + len) = 1 := by
      rw [doublings_add (by omega) (doublings_pos (by omega) (Nat.not_lt.mp hfits)),
        doublings_eq_zero (by omega)]
    rw [if_neg hfits, if_neg hfits, hone, Nat.pow_one]
    rfl

/-- Every byte of a grown block is an old one, or came with a request. -/
theorem byteAt_satisfies {P : UInt8 → Prop} (hfills : mem.Fills P) (hold : ∀ b ∈ this.string, P b)
    {i : Nat} {b : UInt8} (hb : byteAt mem this i = some b) : P b := by
  unfold byteAt at hb
  split at hb
  · exact hold b (List.mem_of_getElem? hb)
  · obtain ⟨fill, hfill, rfl⟩ := Option.map_eq_some_iff.mp hb
    exact hfills _ _ fill hfill i

end StringBuffer

end DirSurveiller
