/-
  DirSurveiller.Containers.SharedRing — one ring between two threads, one access at a time.

  `rb->buffer[g_ringBuffer_mask(rb->write++)] = content` increments the counter before it stores the
  pointer, and `*content = rb->buffer[g_ringBuffer_mask(rb->read++)]` gives the place back before it
  loads the pointer: the call of the mask stands between the two.  No lock is held.  So a cell can be
  loaded before its pointer has been stored, or after it has been filled again.

    * `SharedRing.write_uninterrupted`, `SharedRing.read_uninterrupted` — without interruption these
                                 are the calls of `Containers.RingBuffer`,
    * `SharedRing.Sound.turn`  — what every turn of a writer and a reader keeps,
    * `SharedRing.Sound.loads` — what a load finds, in time or not,
    * `shared_ring_iff`        — the reader is given what was written, in order, exactly if no load
                                 comes before the store of its pointer or after the next store into
                                 the same cell.

  The memory is sequentially consistent.
-/
import DirSurveiller.Containers.RingBuffer
import DirSurveiller.Lib.History

namespace DirSurveiller

open History Window

/-! ## §1. Two threads. -/

/-- Where the thread that writes is: it has found the ring not full, or it has incremented `write`. -/
inductive WriterPc (α : Type) where
  | idle
  | publish (content : Option α)
  | store (cell : Nat) (content : Option α)

/-- The pointer that has been counted and not been stored. -/
def WriterPc.unstored {α : Type} : WriterPc α → Nat
  | .store .. => 1
  | _ => 0

/-- Where the thread that reads is: it has found the ring not empty, or it has incremented `read`. -/
inductive ReaderPc where
  | idle
  | take
  | load (cell : Nat)

/-- The place that has been given back and not been loaded. -/
def ReaderPc.unloaded : ReaderPc → Nat
  | .load _ => 1
  | _ => 0

/-- The ring and its two threads.  `published` is what `write` has been incremented for and `loaded`
what the reader has been given; both are history. -/
structure SharedRing (α : Type) where
  ring : GRingBuffer α
  writer : WriterPc α
  reader : ReaderPc
  published : List (Option α)
  loaded : List (Option α)

/-- Whose turn it is; a writer that is idle has `content` to write. -/
inductive RingTurn (α : Type) where
  | writer (content : Option α)
  | reader

namespace SharedRing

section Code

variable {α : Type}

def initial : SharedRing α :=
  { ring := gRingBufferInit, writer := .idle, reader := .idle, published := [], loaded := [] }

/-- An access of `g_ringBuffer_write`; of the two counters that the test compares one is the writer's
own. -/
def writerTurn (s : SharedRing α) (content : Option α) : SharedRing α :=
  match s.writer with
  | .idle => if gRingBufferFull s.ring then s else { s with writer := .publish content }
  | .publish content =>
      { s with
        ring := { s.ring with write := s.ring.write + 1 }
        writer := .store (gRingBufferMask s.ring.write).toNat content
        published := s.published ++ [content] }
  | .store cell content =>
      { s with
        ring := { s.ring with buffer := Function.update s.ring.buffer cell content }
        writer := .idle }

/-- An access of `g_ringBuffer_read`. -/
def readerTurn (s : SharedRing α) : SharedRing α :=
  match s.reader with
  | .idle => if gRingBufferEmpty s.ring then s else { s with reader := .take }
  | .take =>
      { s with
        ring := { s.ring with read := s.ring.read + 1 }
        reader := .load (gRingBufferMask s.ring.read).toNat }
  | .load cell => { s with reader := .idle, loaded := s.loaded ++ [s.ring.buffer cell] }

def turn (s : SharedRing α) : RingTurn α → SharedRing α
  | .writer content => s.writerTurn content
  | .reader => s.readerTurn

/-- Any interleaving. -/
def run (turns : List (RingTurn α)) : SharedRing α := turns.foldl turn initial

/-- How many pointers have been stored. -/
def stored (s : SharedRing α) : Nat := s.published.length - s.writer.unstored

/-- How many places have been given back. -/
def taken (s : SharedRing α) : Nat := s.loaded.length + s.reader.unloaded

/-- The turn is a load that comes before the store of its pointer, or after the next store into the
same cell. -/
def Races (s : SharedRing α) : RingTurn α → Prop
  | .writer _ => False
  | .reader => (∃ cell, s.reader = .load cell)
      ∧ (s.stored ≤ s.loaded.length ∨ s.loaded.length + 1024 < s.stored)

/-- **Three accesses in a row** are a call of `g_ringBuffer_write`. -/
theorem write_uninterrupted {s : SharedRing α} (hidle : s.writer = .idle)
    (hroom : gRingBufferFull s.ring = false) (content : Option α) :
    ((s.writerTurn content).writerTurn content).writerTurn content
      = { s with
          ring := (gRingBufferWrite s.ring content).2, published := s.published ++ [content] } := by
  simp [writerTurn, gRingBufferWrite, hidle, hroom]

/-- ... and of `g_ringBuffer_read`. -/
theorem read_uninterrupted {s : SharedRing α} (hidle : s.reader = .idle)
    (hheld : gRingBufferEmpty s.ring = false) (content : Option α) :
    s.readerTurn.readerTurn.readerTurn
      = { s with
          ring := (gRingBufferRead s.ring content).2.1
          loaded := s.loaded ++ [(gRingBufferRead s.ring content).2.2] } := by
  simp [readerTurn, gRingBufferRead, hidle, hheld]

end Code

/-! ## §2. What every interleaving keeps. -/

section Sound

variable {α : Type} {s : SharedRing α} {c : Option α} {cell : Nat}

/-- What the writer knows, by where it is. -/
def WriterKnows (published : List (Option α)) (taken : Nat) : WriterPc α → Prop
  | .idle => True
  | .publish _ => published.length < taken + 1024
  | .store cell content => ∃ k, published.length = k + 1 ∧ published[k]? = some content
      ∧ cell = k % 1024

/-- What the reader knows. -/
def ReaderKnows (published loaded : Nat) : ReaderPc → Prop
  | .idle => True
  | .take => loaded < published
  | .load cell => cell = loaded % 1024

/-- The counters count what the histories hold, and a cell holds what was last stored into it. -/
structure Sound (s : SharedRing α) : Prop where
  write : s.ring.write = UInt32.ofNat s.published.length
  read : s.ring.read = UInt32.ofNat s.taken
  le : s.taken ≤ s.published.length
  bounded : s.published.length ≤ s.taken + 1024
  writer : WriterKnows s.published s.taken s.writer
  reader : ReaderKnows s.published.length s.loaded.length s.reader
  cells : Filled s.ring.buffer 1024 none s.published s.stored

theorem initial_sound : (initial : SharedRing α).Sound :=
  ⟨rfl, rfl, Nat.le_refl _, Nat.zero_le _, trivial, trivial, filled_nil 1024 none⟩

/-- The cell of a counter. -/
theorem mask_ofNat (n : Nat) : (gRingBufferMask (UInt32.ofNat n)).toNat = n % 1024 := by
  rw [GRingBuffer.mask_toNat, UInt32.toNat_ofNat']
  exact Nat.mod_mod_of_dvd n (by decide)

theorem ofNat_succ (n : Nat) : UInt32.ofNat n + 1 = UInt32.ofNat (n + 1) := by
  rw [← UInt32.toNat_inj, UInt32.toNat_add, UInt32.toNat_ofNat', UInt32.toNat_ofNat', UInt32.toNat_one]
  omega

theorem Sound.fill (h : s.Sound) : s.ring.fill = s.published.length - s.taken := by
  have hle := h.le
  have hbounded := h.bounded
  rw [GRingBuffer.fill_eq, h.write, h.read, UInt32.toNat_ofNat', UInt32.toNat_ofNat']
  omega

/-- The writer that finds the ring not full has room, whatever the reader does meanwhile. -/
theorem Sound.tested (h : s.Sound) (hfull : gRingBufferFull s.ring = false) (hpc : s.writer = .idle) :
    Sound { s with writer := .publish c } := by
  have hroom : s.ring.fill ≠ 1024 := fun hfill => by
    rw [(GRingBuffer.full_iff _).mpr hfill] at hfull
    cases hfull
  have hfill := h.fill
  have hbounded := h.bounded
  have hcells := h.cells
  unfold stored at hcells
  rw [hpc] at hcells
  refine ⟨h.write, h.read, h.le, h.bounded, ?_, h.reader, hcells⟩
  show s.published.length < s.taken + 1024
  omega

/-- The pointer is counted, and not yet stored. -/
theorem Sound.publish (h : s.Sound) (hpc : s.writer = .publish c) :
    Sound { s with
      ring := { s.ring with write := s.ring.write + 1 }
      writer := .store (gRingBufferMask s.ring.write).toNat c
      published := s.published ++ [c] } := by
  have hroom := h.writer
  rw [hpc] at hroom
  replace hroom : s.published.length < s.taken + 1024 := hroom
  have hcells := h.cells
  unfold stored at hcells
  rw [hpc] at hcells
  have hlen : (s.published ++ [c]).length = s.published.length + 1 := List.length_append
  have hle := h.le
  refine ⟨?_, h.read, ?_, ?_, ⟨s.published.length, hlen, List.getElem?_concat_length, ?_⟩, ?_, ?_⟩
  · show s.ring.write + 1 = UInt32.ofNat (s.published ++ [c]).length
    rw [h.write, ofNat_succ, hlen]
  · show s.taken ≤ (s.published ++ [c]).length
    omega
  · show (s.published ++ [c]).length ≤ s.taken + 1024
    omega
  · rw [h.write, mask_ofNat]
  · show ReaderKnows (s.published ++ [c]).length s.loaded.length s.reader
    have hreader := h.reader
    cases hr : s.reader with
    | idle => trivial
    | take =>
        rw [hr] at hreader
        rw [hlen]
        exact Nat.lt_succ_of_lt hreader
    | load cell =>
        rw [hr] at hreader
        exact hreader
  · show Filled s.ring.buffer 1024 none (s.published ++ [c]) ((s.published ++ [c]).length - 1)
    rw [hlen]
    exact hcells.append (Nat.le_refl _) [c]

/-- The pointer is stored. -/
theorem Sound.store (h : s.Sound) (hpc : s.writer = .store cell c) :
    Sound { s with
      ring := { s.ring with buffer := Function.update s.ring.buffer cell c }, writer := .idle } := by
  have hknows := h.writer
  rw [hpc] at hknows
  obtain ⟨k, hlen, hcontent, rfl⟩ := hknows
  have hcells := h.cells
  unfold stored at hcells
  rw [hpc, hlen] at hcells
  refine ⟨h.write, h.read, h.le, h.bounded, trivial, h.reader, ?_⟩
  show Filled (Function.update s.ring.buffer (k % 1024) c) 1024 none s.published s.published.length
  rw [hlen]
  exact hcells.store hcontent

/-- The reader that finds the ring not empty finds it so, whatever the writer does meanwhile. -/
theorem Sound.looked (h : s.Sound) (hheld : gRingBufferEmpty s.ring = false) (hpc : s.reader = .idle) :
    Sound { s with reader := .take } := by
  have hne : s.ring.held ≠ [] := fun hnil => by
    rw [(GRingBuffer.empty_iff _).mpr hnil] at hheld
    cases hheld
  have hpos := List.length_pos_iff.mpr hne
  rw [GRingBuffer.held_length, h.fill] at hpos
  have htaken : s.taken = s.loaded.length := by
    unfold taken
    rw [hpc]
    rfl
  have hread := h.read
  have hle := h.le
  have hbounded := h.bounded
  have hwriter := h.writer
  rw [htaken] at hread hle hbounded hwriter hpos
  refine ⟨h.write, hread, hle, hbounded, hwriter, ?_, h.cells⟩
  show s.loaded.length < s.published.length
  omega

/-- The place is given back, and not yet loaded. -/
theorem Sound.take (h : s.Sound) (hpc : s.reader = .take) :
    Sound { s with
      ring := { s.ring with read := s.ring.read + 1 }
      reader := .load (gRingBufferMask s.ring.read).toNat } := by
  have htaken : s.taken = s.loaded.length := by
    unfold taken
    rw [hpc]
    rfl
  have hheld := h.reader
  rw [hpc] at hheld
  replace hheld : s.loaded.length < s.published.length := hheld
  have hread := h.read
  have hbounded := h.bounded
  have hwriter := h.writer
  rw [htaken] at hread hbounded hwriter
  refine ⟨h.write, ?_, hheld, ?_, ?_, ?_, h.cells⟩
  · show s.ring.read + 1 = UInt32.ofNat (s.loaded.length + 1)
    rw [hread, ofNat_succ]
  · show s.published.length ≤ s.loaded.length + 1 + 1024
    omega
  · show WriterKnows s.published (s.loaded.length + 1) s.writer
    cases hw : s.writer with
    | idle => trivial
    | publish c =>
        rw [hw] at hwriter
        replace hwriter : s.published.length < s.loaded.length + 1024 := hwriter
        show s.published.length < s.loaded.length + 1 + 1024
        omega
    | store cell c =>
        rw [hw] at hwriter
        exact hwriter
  · show (gRingBufferMask s.ring.read).toNat = s.loaded.length % 1024
    rw [hread, mask_ofNat]

/-- The cell is loaded. -/
theorem Sound.load (h : s.Sound) (hpc : s.reader = .load cell) :
    Sound { s with reader := .idle, loaded := s.loaded ++ [s.ring.buffer cell] } := by
  have htaken : s.taken = (s.loaded ++ [s.ring.buffer cell]).length := by
    unfold taken
    rw [hpc, List.length_append]
    rfl
  have hread := h.read
  have hle := h.le
  have hbounded := h.bounded
  have hwriter := h.writer
  rw [htaken] at hread hle hbounded hwriter
  exact ⟨h.write, hread, hle, hbounded, hwriter, trivial, h.cells⟩

/-- **A turn of either thread.** -/
theorem Sound.turn (h : s.Sound) (t : RingTurn α) : (s.turn t).Sound := by
  cases t with
  | writer content =>
      show (s.writerTurn content).Sound
      unfold SharedRing.writerTurn
      cases hpc : s.writer with
      | idle =>
          dsimp only
          split
          · exact h
          · next hnot => exact h.tested (Bool.eq_false_iff.mpr hnot) hpc
      | publish c => exact h.publish hpc
      | store cell c => exact h.store hpc
  | reader =>
      show s.readerTurn.Sound
      unfold SharedRing.readerTurn
      cases hpc : s.reader with
      | idle =>
          dsimp only
          split
          · exact h
          · next hnot => exact h.looked (Bool.eq_false_iff.mpr hnot) hpc
      | take => exact h.take hpc
      | load cell => exact h.load hpc

/-- **The run lemma.** -/
theorem run_sound (turns : List (RingTurn α)) : (run turns).Sound := by
  induction turns using List.reverseRecOn with
  | nil => exact initial_sound
  | append_singleton turns t ih =>
      rw [run, List.foldl_append]
      exact ih.turn t

end Sound

/-! ## §3. What is loaded. -/

section Load

variable {α : Type} {s : SharedRing α} {cell : Nat}

/-- **What a load finds**: in time, the pointer it is for; before the store of that one, the pointer 1024
places before it, or `NULL` if there is none; and after the next store, the pointer 1024 places behind
it. -/
theorem Sound.loads (h : s.Sound) (hpc : s.reader = .load cell) :
    (s.loaded.length < s.stored → s.stored ≤ s.loaded.length + 1024 →
      s.published[s.loaded.length]? = some (s.ring.buffer cell))
    ∧ (s.stored ≤ s.loaded.length → (s.loaded.length < 1024 → s.ring.buffer cell = none)
      ∧ (1024 ≤ s.loaded.length →
        s.published[s.loaded.length - 1024]? = some (s.ring.buffer cell)))
    ∧ (s.loaded.length + 1024 < s.stored →
      s.published[s.loaded.length + 1024]? = some (s.ring.buffer cell)) := by
  have hknows := h.reader
  rw [hpc] at hknows
  obtain rfl : cell = s.loaded.length % 1024 := hknows
  have htaken : s.taken = s.loaded.length + 1 := by
    unfold taken
    rw [hpc]
    rfl
  have hle := h.le
  have hbounded := h.bounded
  have hone : s.writer.unstored ≤ 1 := by
    unfold WriterPc.unstored
    split <;> decide
  have hstored : s.stored = s.published.length - s.writer.unstored := rfl
  refine ⟨h.cells.kept _, fun hstale => ⟨fun hfirst => ?_, fun hlater => ?_⟩, fun hrefilled => ?_⟩
  · rw [Nat.mod_eq_of_lt hfirst]
    exact h.cells.fresh _ hfirst hstale
  · have hkept := h.cells.kept (s.loaded.length - 1024) (by omega) (by omega)
    rwa [show (s.loaded.length - 1024) % 1024 = s.loaded.length % 1024 by omega] at hkept
  · have hkept := h.cells.kept (s.loaded.length + 1024) hrefilled (by omega)
    rwa [Nat.add_mod_right] at hkept

/-- A load in time, of a list of different pointers, and no other gives the pointer it is for. -/
theorem Sound.load_iff (h : s.Sound) (hpc : s.reader = .load cell) (hdistinct : s.published.Nodup)
    (hnull : none ∉ s.published) :
    s.published[s.loaded.length]? = some (s.ring.buffer cell) ↔ ¬ s.Races .reader := by
  obtain ⟨hintime, hstale, hrefilled⟩ := h.loads hpc
  -- a pointer of another place is another pointer
  have hother : ∀ i, i ≠ s.loaded.length → s.published[i]? = some (s.ring.buffer cell) →
      s.published[s.loaded.length]? ≠ some (s.ring.buffer cell) := by
    intro i hi hat heq
    obtain ⟨hlt, -⟩ := List.getElem?_eq_some_iff.mp hat
    exact hi ((List.getElem?_inj hlt hdistinct).mp (hat.trans heq.symm))
  constructor
  · rintro heq ⟨-, hrace | hrace⟩
    · rcases Nat.lt_or_ge s.loaded.length 1024 with hfirst | hlater
      · rw [(hstale hrace).1 hfirst] at heq
        exact hnull (List.mem_of_getElem? heq)
      · exact hother (s.loaded.length - 1024) (by omega) ((hstale hrace).2 hlater) heq
    · exact hother (s.loaded.length + 1024) (by omega) (hrefilled hrace) heq
  · intro hnot
    refine hintime ?_ ?_
    · by_contra hrace
      exact hnot ⟨⟨cell, hpc⟩, .inl (Nat.le_of_not_lt hrace)⟩
    · by_contra hrace
      exact hnot ⟨⟨cell, hpc⟩, .inr (Nat.lt_of_not_le hrace)⟩

/-- What a turn adds to the two histories. -/
theorem turn_cases (s : SharedRing α) (t : RingTurn α) :
    (¬ s.Races t ∧ (s.turn t).loaded = s.loaded
        ∧ ∃ new, (s.turn t).published = s.published ++ new)
      ∨ ∃ cell, t = .reader ∧ s.reader = .load cell
        ∧ (s.turn t).loaded = s.loaded ++ [s.ring.buffer cell]
        ∧ (s.turn t).published = s.published := by
  cases t with
  | writer content =>
      refine .inl ⟨id, ?_⟩
      show (s.writerTurn content).loaded = _ ∧ ∃ new, (s.writerTurn content).published = _
      unfold writerTurn
      cases s.writer with
      | idle =>
          dsimp only
          split <;> exact ⟨rfl, [], (List.append_nil _).symm⟩
      | publish c => exact ⟨rfl, [c], rfl⟩
      | store cell c => exact ⟨rfl, [], (List.append_nil _).symm⟩
  | reader =>
      cases hpc : s.reader with
      | load cell =>
          refine .inr ⟨cell, rfl, rfl, ?_⟩
          show s.readerTurn.loaded = _ ∧ s.readerTurn.published = _
          unfold readerTurn
          rw [hpc]
          exact ⟨rfl, rfl⟩
      | idle | take =>
          refine .inl ⟨?_, ?_⟩
          · rintro ⟨⟨cell, hload⟩, -⟩
            rw [hpc] at hload
            cases hload
          · show s.readerTurn.loaded = _ ∧ ∃ new, s.readerTurn.published = _
            unfold readerTurn
            rw [hpc]
            dsimp only
            first
              | exact ⟨rfl, [], (List.append_nil _).symm⟩
              | split <;> exact ⟨rfl, [], (List.append_nil _).symm⟩

end Load

end SharedRing

/-! ## §4. Runs. -/

section Runs

open SharedRing

variable {α : Type}

/-- A list with one more element is the beginning of another. -/
theorem concat_prefix_iff {β : Type} {l l' : List β} {x : β} :
    l ++ [x] <+: l' ↔ l <+: l' ∧ l'[l.length]? = some x := by
  constructor
  · rintro ⟨rest, rfl⟩
    refine ⟨⟨x :: rest, by simp⟩, ?_⟩
    rw [List.append_assoc, List.getElem?_append_right (Nat.le_refl _), Nat.sub_self]
    rfl
  · rintro ⟨⟨rest, rfl⟩, hx⟩
    rw [List.getElem?_append_right (Nat.le_refl _), Nat.sub_self] at hx
    cases rest with
    | nil => cases hx
    | cons y rest =>
        obtain rfl := Option.some.inj hx
        exact ⟨rest, by simp⟩

/-- **When the reader is given what was written.**  For pointers that are all different and none of them
`NULL`, what the reader has loaded is the beginning of what the writer has published iff no load came
before the store of its pointer or after the next store into the same cell. -/
theorem shared_ring_iff {turns : List (RingTurn α)} (hdistinct : (run turns).published.Nodup)
    (hnull : none ∉ (run turns).published) :
    (run turns).loaded <+: (run turns).published ↔
      ∀ pre t post, turns = pre ++ t :: post → ¬ (run pre).Races t := by
  induction turns using List.reverseRecOn with
  | nil =>
      refine iff_of_true List.prefix_rfl fun pre t post hsplit => ?_
      exact absurd hsplit.symm (List.append_ne_nil_of_right_ne_nil _ (List.cons_ne_nil _ _))
  | append_singleton turns t ih =>
      have hlast : run (turns ++ [t]) = (run turns).turn t := List.foldl_concat ..
      have hsound := run_sound turns
      have hsplits : (∀ pre u post, turns ++ [t] = pre ++ u :: post → ¬ (run pre).Races u)
          ↔ (∀ pre u post, turns = pre ++ u :: post → ¬ (run pre).Races u)
            ∧ ¬ (run turns).Races t := by
        constructor
        · intro h
          exact ⟨fun pre u post hsplit => h pre u (post ++ [t]) (by rw [hsplit]; simp),
            h turns t [] rfl⟩
        · rintro ⟨hbefore, hthen⟩ pre u post hsplit
          rcases concat_eq_split.mp hsplit with ⟨rfl, rfl, -⟩ | ⟨rest, hrest, -⟩
          · exact hthen
          · exact hbefore pre u rest hrest
      rw [hsplits]
      rw [hlast] at hdistinct hnull ⊢
      rcases turn_cases (run turns) t with ⟨hno, hloaded, new, hnew⟩ | ⟨cell, rfl, hpc, hloaded, hsame⟩
      · -- nothing is loaded
        rw [hnew] at hdistinct hnull
        rw [List.mem_append, not_or] at hnull
        rw [hloaded, hnew, ← ih (List.nodup_append.mp hdistinct).1 hnull.1]
        have hshort : (run turns).loaded.length ≤ (run turns).published.length :=
          Nat.le_trans (Nat.le_add_right _ _) hsound.le
        exact ⟨fun h => ⟨List.prefix_of_prefix_length_le h (List.prefix_append _ _) hshort, hno⟩,
          fun h => h.1.trans (List.prefix_append _ _)⟩
      · rw [hsame] at hdistinct hnull
        rw [hloaded, hsame, concat_prefix_iff, ih hdistinct hnull,
          hsound.load_iff hpc hdistinct hnull]

/-- The writer has counted its first pointer and is interrupted; the reader is given `NULL`. -/
theorem shared_ring_overtaken :
    ¬ (run [.writer (some 7), .writer none, .reader, .reader, .reader] : SharedRing Nat).loaded
      <+: (run [.writer (some 7), .writer none, .reader, .reader, .reader]).published := by
  have hpublished : (run [.writer (some 7), .writer none, .reader, .reader, .reader]
      : SharedRing Nat).published = [some 7] := by decide
  rw [shared_ring_iff (by rw [hpublished]; decide) (by rw [hpublished]; decide)]
  intro h
  refine h [.writer (some 7), .writer none, .reader, .reader] .reader [] rfl ⟨⟨0, rfl⟩, .inl ?_⟩
  decide

end Runs

end DirSurveiller
