/-
  DirSurveiller.Containers.RingBuffer — the general ring buffer of `containers.c`.

  The three queues of the daemon are `g_ringBuffer`s of 1024 pointers.  The two counters are
  `u_int32_t` and are never reduced: the cell of a counter is its low ten bits, and the number of
  held pointers is the wrapped difference.  `held` is what the ring stands for; the spec lemmas
  say what each operation does to it, and `ring_refines_queue` that no sequence of operations can
  tell the ring from a queue of 1024 places.
-/
import DirSurveiller.Lib.Window
import DirSurveiller.Lib.Trace

/-! ## §1. The code. -/

namespace DirSurveiller

/-- `#define SIZE_RING 1024` -/
def SIZE_RING : UInt32 := 1024

/-- `g_ringBuffer`: the cells are pointers, `none` is `NULL`. -/
structure GRingBuffer (α : Type) where
  read : UInt32
  write : UInt32
  buffer : Nat → Option α

section Code

variable {α : Type}

/-- `calloc` zeroes the cells. -/
def gRingBufferInit : GRingBuffer α :=
  { read := 0, write := 0, buffer := fun _ => none }

def gRingBufferMask (val : UInt32) : UInt32 := val &&& (SIZE_RING - 1)

def gRingBufferSize (rb : GRingBuffer α) : UInt32 := rb.write - rb.read

def gRingBufferEmpty (rb : GRingBuffer α) : Bool := rb.read == rb.write

def gRingBufferFull (rb : GRingBuffer α) : Bool := gRingBufferSize rb == SIZE_RING

/-- The first component is the returned `ret`: set when the ring is full. -/
def gRingBufferWrite (rb : GRingBuffer α) (content : Option α) : Bool × GRingBuffer α :=
  let ret := gRingBufferFull rb
  if !ret then
    (ret, { rb with
      write := rb.write + 1
      buffer := Function.update rb.buffer (gRingBufferMask rb.write).toNat content })
  else (ret, rb)

/-- The last component is `*content` after the call: the target keeps its value when the ring
is empty. -/
def gRingBufferRead (rb : GRingBuffer α) (content : Option α) :
    Bool × GRingBuffer α × Option α :=
  let ret := gRingBufferEmpty rb
  if !ret then
    (ret, { rb with read := rb.read + 1 }, rb.buffer (gRingBufferMask rb.read).toNat)
  else (ret, rb, content)

end Code

/-! ## §2. What a ring holds. -/

namespace GRingBuffer

variable {α : Type}

/-- The number of held pointers. -/
def fill (rb : GRingBuffer α) : Nat := (gRingBufferSize rb).toNat

/-- The held pointers, oldest first. -/
def held (rb : GRingBuffer α) : List (Option α) :=
  Window.window rb.buffer 1024 rb.read.toNat rb.fill

/-- The counters are at most one revolution apart. -/
def Wf (rb : GRingBuffer α) : Prop := rb.fill ≤ 1024

@[simp] theorem held_length (rb : GRingBuffer α) : rb.held.length = rb.fill := by
  simp [held]

@[simp] theorem fill_init : (gRingBufferInit : GRingBuffer α).fill = 0 := by
  simp [fill, gRingBufferSize, gRingBufferInit]

theorem init_wf : (gRingBufferInit : GRingBuffer α).Wf := by
  rw [Wf, fill_init]
  omega

@[simp] theorem held_init : (gRingBufferInit : GRingBuffer α).held = [] := by
  rw [held, fill_init, Window.window_zero]

/-- The mask is the remainder modulo the number of cells. -/
theorem mask_toNat (val : UInt32) : (gRingBufferMask val).toNat = val.toNat % 1024 := by
  have h : (gRingBufferMask val).toNat = val.toNat &&& (2 ^ 10 - 1) := by
    simp [gRingBufferMask, SIZE_RING]
  rw [h, Nat.and_two_pow_sub_one_eq_mod]

theorem fill_eq (rb : GRingBuffer α) :
    rb.fill = (2 ^ 32 - rb.read.toNat + rb.write.toNat) % 2 ^ 32 := by
  simp [fill, gRingBufferSize, UInt32.toNat_sub]

theorem full_iff (rb : GRingBuffer α) : gRingBufferFull rb = true ↔ rb.fill = 1024 := by
  simp only [gRingBufferFull, beq_iff_eq, fill, ← UInt32.toNat_inj]
  rfl

theorem empty_iff (rb : GRingBuffer α) : gRingBufferEmpty rb = true ↔ rb.held = [] := by
  have hr := rb.read.toNat_lt
  have hw := rb.write.toNat_lt
  have hfill : rb.fill = 0 ↔ rb.read = rb.write := by
    rw [fill_eq, ← UInt32.toNat_inj]
    omega
  rw [gRingBufferEmpty, beq_iff_eq, ← hfill, ← List.length_eq_zero_iff, held_length]

theorem size_ne_zero_iff (rb : GRingBuffer α) : gRingBufferSize rb ≠ 0 ↔ rb.held ≠ [] := by
  rw [Ne, Ne, ← List.length_eq_zero_iff, held_length, fill, ← UInt32.toNat_inj]
  rfl

theorem held_toNat (rb : GRingBuffer α) : (gRingBufferSize rb).toNat = rb.held.length := by
  simp [fill]

/-! ## §3. The operations on what is held. -/

/-- A refused write leaves the ring alone. -/
theorem write_full {rb : GRingBuffer α} (h : rb.fill = 1024) (content : Option α) :
    gRingBufferWrite rb content = (true, rb) := by
  simp [gRingBufferWrite, (full_iff rb).mpr h]

private theorem write_cell (rb : GRingBuffer α) :
    (gRingBufferMask rb.write).toNat = (rb.read.toNat + rb.fill) % 1024 := by
  have hr := rb.read.toNat_lt
  have hw := rb.write.toNat_lt
  rw [mask_toNat, fill_eq]
  omega

/-- A write into a ring that has room appends. -/
theorem write_room {rb : GRingBuffer α} (h : rb.fill < 1024) (content : Option α) :
    (gRingBufferWrite rb content).1 = false
      ∧ (gRingBufferWrite rb content).2.held = rb.held ++ [content]
      ∧ (gRingBufferWrite rb content).2.fill = rb.fill + 1 := by
  have hfull : gRingBufferFull rb = false := by
    rw [Bool.eq_false_iff, Ne, full_iff]
    omega
  have hval : gRingBufferWrite rb content = (false, { rb with
      write := rb.write + 1
      buffer := Function.update rb.buffer (gRingBufferMask rb.write).toNat content }) := by
    simp [gRingBufferWrite, hfull]
  have hr := rb.read.toNat_lt
  have hw := rb.write.toNat_lt
  have hfill : (gRingBufferWrite rb content).2.fill = rb.fill + 1 := by
    rw [hval, fill_eq]
    rw [fill_eq] at h ⊢
    simp only [UInt32.toNat_add, UInt32.toNat_one]
    omega
  refine ⟨by rw [hval], ?_, hfill⟩
  rw [held, hfill, hval]
  show Window.window (Function.update rb.buffer _ content) 1024 rb.read.toNat (rb.fill + 1) = _
  rw [write_cell, Window.window_push h, held]

/-- The next value of a counter, as a natural number, up to whole revolutions. -/
private theorem window_next (buffer : Nat → Option α) (c : UInt32) (k : Nat) :
    Window.window buffer 1024 (c + 1).toNat k = Window.window buffer 1024 (c.toNat + 1) k := by
  rw [UInt32.toNat_add, UInt32.toNat_one]
  exact Window.window_mod (by decide) buffer _ k

/-- A read of an empty ring changes neither the ring nor the target. -/
theorem read_empty {rb : GRingBuffer α} (h : rb.held = []) (content : Option α) :
    gRingBufferRead rb content = (true, rb, content) := by
  simp [gRingBufferRead, (empty_iff rb).mpr h]

/-- A read of a non-empty ring takes the oldest pointer. -/
theorem read_cons {rb : GRingBuffer α} {p : Option α} {rest : List (Option α)}
    (h : rb.held = p :: rest) (content : Option α) :
    ∃ rb', gRingBufferRead rb content = (false, rb', p) ∧ rb'.held = rest
      ∧ rb'.fill + 1 = rb.fill := by
  have hempty : gRingBufferEmpty rb = false := by
    rw [Bool.eq_false_iff, Ne, empty_iff, h]
    simp
  have hr := rb.read.toNat_lt
  have hw := rb.write.toNat_lt
  have hpos : 0 < rb.fill := by
    rw [← held_length, h]
    simp
  obtain ⟨k, hk⟩ : ∃ k, rb.fill = k + 1 := ⟨rb.fill - 1, by omega⟩
  have hfill : fill ({ rb with read := rb.read + 1 } : GRingBuffer α) = k := by
    rw [fill_eq] at hk ⊢
    simp only [UInt32.toNat_add, UInt32.toNat_one]
    omega
  rw [held, hk, Window.window_succ, List.cons.injEq] at h
  refine ⟨{ rb with read := rb.read + 1 }, ?_, ?_, by omega⟩
  · simp [gRingBufferRead, hempty, mask_toNat, h.1]
  · rw [held, hfill, ← h.2]
    exact window_next rb.buffer rb.read k

theorem write_wf {rb : GRingBuffer α} (h : rb.Wf) (content : Option α) :
    (gRingBufferWrite rb content).2.Wf := by
  rcases Nat.lt_or_ge rb.fill 1024 with hlt | hge
  · have := (write_room hlt content).2.2
    unfold Wf
    omega
  · rw [write_full (Nat.le_antisymm h hge)]
    exact h

theorem read_wf {rb : GRingBuffer α} (h : rb.Wf) (content : Option α) :
    (gRingBufferRead rb content).2.1.Wf := by
  cases hheld : rb.held with
  | nil =>
      rw [read_empty hheld]
      exact h
  | cons p rest =>
      obtain ⟨rb', hread, -, hfill⟩ := read_cons hheld content
      rw [hread]
      unfold Wf at *
      show rb'.fill ≤ 1024
      omega

/-- What is held after a write, refused or not. -/
theorem write_held {rb : GRingBuffer α} (h : rb.Wf) (content : Option α) :
    (gRingBufferWrite rb content).2.held = (rb.held ++ [content]).take 1024 := by
  unfold Wf at h
  rcases Nat.lt_or_ge rb.fill 1024 with hlt | hge
  · rw [(write_room hlt content).2.1, List.take_of_length_le (by simp; omega)]
  · rw [write_full (Nat.le_antisymm h hge), List.take_append_of_le_length (by simp; omega),
      List.take_of_length_le (by simp; omega)]

/-- A write is refused, or it appends. -/
theorem write_cases {rb : GRingBuffer α} (h : rb.Wf) (content : Option α) :
    gRingBufferWrite rb content = (true, rb)
      ∨ ∃ rb', gRingBufferWrite rb content = (false, rb') ∧ rb'.Wf
        ∧ rb'.held = rb.held ++ [content] := by
  rcases Nat.lt_or_ge rb.fill 1024 with hlt | hge
  · obtain ⟨hfull, hheld, -⟩ := write_room hlt content
    exact .inr ⟨(gRingBufferWrite rb content).2, Prod.ext hfull rfl, write_wf h content, hheld⟩
  · exact .inl (write_full (Nat.le_antisymm h hge) content)

/-- What a ring without `NULL` holds first. -/
theorem held_cons {rb : GRingBuffer α} (hne : rb.held ≠ []) (hnone : none ∉ rb.held) :
    ∃ x rest, rb.held = some x :: rest := by
  cases hheld : rb.held with
  | nil => exact absurd hheld hne
  | cons p rest =>
      cases p with
      | none =>
          rw [hheld] at hnone
          exact absurd (List.mem_cons_self) hnone
      | some x => exact ⟨x, rest, rfl⟩

/-- A write leaves the cells of the held pointers as they are. -/
theorem write_keeps_cells {rb : GRingBuffer α} (h : rb.Wf) (content : Option α) {i : Nat}
    (hi : i < rb.fill) :
    (gRingBufferWrite rb content).2.buffer ((rb.read.toNat + i) % 1024)
      = rb.buffer ((rb.read.toNat + i) % 1024) := by
  unfold Wf at h
  rcases Nat.lt_or_ge rb.fill 1024 with hlt | hge
  · have hfull : gRingBufferFull rb = false := by
      rw [Bool.eq_false_iff, Ne, full_iff]
      omega
    simp only [gRingBufferWrite, hfull, Bool.not_false, if_true]
    -- the written cell is the one behind the last held pointer
    rw [write_cell]
    exact Function.update_of_ne (Window.mod_ne_of_lt hi (by omega)) _ _
  · rw [write_full (by omega)]

end GRingBuffer

/-! ## §4. Runs of operations. -/

/-- A call of `g_ringBuffer_write`, or one of `g_ringBuffer_read` with what `*content` was. -/
inductive RingOp (α : Type) where
  | write (content : Option α)
  | read (content : Option α)

/-- What a caller sees of a call: the returned value is not 0, what the target of a read holds, and
what `g_ringBuffer_size` answers next. -/
structure RingAnswer (α : Type) where
  ret : Bool
  content : Option α
  size : Nat
  deriving DecidableEq

section Runs

open Trace

variable {α : Type}

/-- One call on the ring. -/
def ringStep (rb : GRingBuffer α) : RingOp α → RingAnswer α × GRingBuffer α
  | .write content =>
      let (ret, rb) := gRingBufferWrite rb content
      (⟨ret, none, (gRingBufferSize rb).toNat⟩, rb)
  | .read content =>
      let (ret, rb, content) := gRingBufferRead rb content
      (⟨ret, content, (gRingBufferSize rb).toNat⟩, rb)

/-- The same call on a queue of `SIZE_RING` places. -/
def queueStep (q : List (Option α)) : RingOp α → RingAnswer α × List (Option α)
  | .write content =>
      if q.length < 1024 then (⟨false, none, q.length + 1⟩, q ++ [content])
      else (⟨true, none, q.length⟩, q)
  | .read content =>
      match q with
      | [] => (⟨true, content, 0⟩, [])
      | oldest :: rest => (⟨false, oldest, rest.length⟩, rest)

/-- The ring holds what the queue holds. -/
def RingHolds (rb : GRingBuffer α) (q : List (Option α)) : Prop := rb.Wf ∧ rb.held = q

theorem RingHolds.size {rb : GRingBuffer α} {q : List (Option α)} (h : RingHolds rb q) :
    (gRingBufferSize rb).toNat = q.length := by
  show rb.fill = q.length
  rw [← h.2, GRingBuffer.held_length]

/-- **One call**: ring and queue give the same answer and go on holding the same. -/
theorem ringStep_simulates (rb : GRingBuffer α) (q : List (Option α)) (op : RingOp α)
    (h : RingHolds rb q) :
    (ringStep rb op).1 = (queueStep q op).1 ∧ RingHolds (ringStep rb op).2 (queueStep q op).2 := by
  have hsize := h.size
  obtain ⟨hwf, hheld⟩ := h
  cases op with
  | write content =>
      have hwf' := GRingBuffer.write_wf hwf content
      -- ring and queue are full at the same time
      by_cases hroom : q.length < 1024
      · have hlt : rb.fill < 1024 := by
          show (gRingBufferSize rb).toNat < 1024
          omega
        obtain ⟨hret, hheld', hfill⟩ := GRingBuffer.write_room hlt content
        rw [hheld] at hheld'
        have hsize' := RingHolds.size ⟨hwf', hheld'⟩
        simp only [ringStep, queueStep, if_pos hroom, hret, hsize', List.length_append,
          List.length_singleton]
        exact ⟨trivial, hwf', hheld'⟩
      · have hfull : rb.fill = 1024 := by
          unfold GRingBuffer.Wf GRingBuffer.fill at *
          omega
        simp only [ringStep, queueStep, if_neg hroom, GRingBuffer.write_full hfull, hsize]
        exact ⟨trivial, hwf, hheld⟩
  | read content =>
      have hwf' := GRingBuffer.read_wf hwf content
      cases q with
      | nil =>
          simp only [ringStep, queueStep, GRingBuffer.read_empty hheld, hsize, List.length_nil]
          exact ⟨trivial, hwf, hheld⟩
      | cons oldest rest =>
          obtain ⟨rb', hread, hheld', -⟩ := GRingBuffer.read_cons hheld content
          rw [hread] at hwf'
          simp only [ringStep, queueStep, hread, RingHolds.size ⟨hwf', hheld'⟩]
          exact ⟨trivial, hwf', hheld'⟩

/-- What a caller can rely on in a state of the ring: it holds `q`, it says how much that is, it
takes one more unless it is full, and what it has not handed out yet stays in its cell. -/
structure RingIsQueue (rb : GRingBuffer α) (q : List (Option α)) : Prop where
  held : rb.held = q
  size : (gRingBufferSize rb).toNat = q.length
  bounded : q.length ≤ 1024
  accepts : ∀ content, q.length < 1024 →
    (gRingBufferWrite rb content).1 = false ∧ (gRingBufferWrite rb content).2.held = q ++ [content]
  refuses : ∀ content, q.length = 1024 → gRingBufferWrite rb content = (true, rb)
  delivers : ∀ content oldest rest, q = oldest :: rest →
    ∃ rb', gRingBufferRead rb content = (false, rb', oldest) ∧ rb'.held = rest
  starves : ∀ content, q = [] → gRingBufferRead rb content = (true, rb, content)
  unread : ∀ content i, i < q.length →
    (gRingBufferWrite rb content).2.buffer ((rb.read.toNat + i) % 1024)
      = rb.buffer ((rb.read.toNat + i) % 1024)

theorem RingHolds.isQueue {rb : GRingBuffer α} {q : List (Option α)} (h : RingHolds rb q) :
    RingIsQueue rb q := by
  have hsize := h.size
  have hfill : rb.fill = q.length := hsize
  obtain ⟨hwf, hheld⟩ := h
  refine ⟨hheld, hsize, by rw [← hfill]; exact hwf, ?_, ?_, ?_, ?_, ?_⟩
  · intro content hlt
    have hroom : rb.fill < 1024 := by omega
    obtain ⟨hret, hheld', -⟩ := GRingBuffer.write_room hroom content
    exact ⟨hret, by rw [hheld', hheld]⟩
  · intro content hfull
    exact GRingBuffer.write_full (by omega) content
  · intro content oldest rest hq
    obtain ⟨rb', hread, hheld', -⟩ := GRingBuffer.read_cons (hheld.trans hq) content
    exact ⟨rb', hread, hheld'⟩
  · intro content hq
    exact GRingBuffer.read_empty (hheld.trans hq) content
  · intro content i hi
    exact GRingBuffer.write_keeps_cells hwf content (by omega)

/-- **The ring buffer is a bounded queue**: from `g_ringBuffer_init` on, over any sequence of writes
and reads, the callers see what a queue of 1024 places would show them, however often the counters
wrap. -/
theorem ring_refines_queue (ops : List (RingOp α)) :
    (trace ringStep gRingBufferInit ops).1 = (trace queueStep [] ops).1
      ∧ RingIsQueue (trace ringStep gRingBufferInit ops).2 (trace queueStep [] ops).2 := by
  have hinit : RingHolds (gRingBufferInit : GRingBuffer α) [] :=
    ⟨GRingBuffer.init_wf, GRingBuffer.held_init⟩
  obtain ⟨hanswers, hholds⟩ := trace_simulates ringStep_simulates ops _ _ hinit
  exact ⟨hanswers, hholds.isQueue⟩

end Runs

end DirSurveiller
