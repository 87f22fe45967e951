/-
  DirSurveiller.Index.Ledger — who owns which call object.

  A `Ledger` is the daemon seen as a set of places: the process index, the dispatch queue, what a
  function holds in its hand, what is still outside in the parser queues, and what has been
  destroyed.  An `Arrival` brings a parsed object in, or takes it over from the queue it came
  through.  A `Work` is one thing the functions of the index and of the dispatch do: an object
  passes from one place to the next, the contents of an object change, or a dummy is made.

  `Sound` is the invariant: no object is in two places, the entry of a pid belongs to that pid, and
  the buffer of a call holds what has been attached to it.  Every arrival and every work keeps it,
  so a function is shown sound by naming the works it does.
-/
import Mathlib.Logic.Relation
import DirSurveiller.Lib.Tally
import DirSurveiller.Index.Procindex

namespace DirSurveiller

open CMachine

/-! ## §1. Places and moves. -/

/-- The places of call objects.  `hand` also keeps what the code has lost track of. -/
structure Ledger where
  heap : Heap
  procs : Procindex
  queue : List (Option ExecRef)
  hand : List ExecRef
  openHand : List OpenRef
  outside : List ExecRef
  openOutside : List OpenRef

/-- The open calls that have been attached to a call, oldest first. -/
def Heap.bufferOf (h : Heap) (r : ExecRef) : List OpenRef :=
  (h.attached.filter fun p => p.1 = r).map Prod.snd

/-- The buffer has room for two more pointers and is as long as recorded. -/
structure Room (c : ExecCall) : Prop where
  length : c.callBuff.length = c.callBuffSize
  room : c.callNum + 2 ≤ c.callBuffSize
  small : c.callBuffSize ≤ 2 ^ 33

/-- A call as its constructor leaves it. -/
structure Fresh (c : ExecCall) : Prop where
  callNum : c.callNum = 0
  room : Room c
  cmdName : Text c.cmdName
  args : Text c.args

/-- The strings of an open call. -/
def OpenText (c : OpenCall) : Prop := Text c.filepath ∧ Text c.cmdName

/-- `c'` is `c` but for data that the ledger does not speak of. -/
structure Similar (c c' : ExecCall) : Prop where
  identity : c'.identity = c.identity
  callNum : c'.callNum = c.callNum
  buffer : ∀ os, Heap.Buffer c os → Heap.Buffer c' os
  room : Room c → Room c'
  tracked : c.tracked = true → c'.tracked = true

/-- `c'` is `c` with `o` appended to the buffer. -/
structure Appended (c : ExecCall) (o : OpenRef) (c' : ExecCall) : Prop where
  identity : c'.identity = c.identity
  callNum : c'.callNum = c.callNum + 1
  buffer : ∀ os, Heap.Buffer c os → Heap.Buffer c' (os ++ [o])
  room : Room c'
  tracked : c'.tracked = true

theorem Similar.pid {c c' : ExecCall} (h : Similar c c') : c'.pid = c.pid :=
  congrArg Identity.pid h.identity

theorem Appended.pid {c c' : ExecCall} {o : OpenRef} (h : Appended c o c') : c'.pid = c.pid :=
  congrArg Identity.pid h.identity

/-- How parsed objects come in. -/
inductive Arrival : Ledger → Ledger → Prop where
  | receive {l : Ledger} {c : ExecCall} :
      Fresh c → Arrival l { l with
        heap := l.heap.mallocExec false c, outside := l.outside ++ [l.heap.nextExec] }
  | receiveOpen {l : Ledger} {c : OpenCall} :
      OpenText c → Arrival l { l with
        heap := l.heap.mallocOpen c, openOutside := l.openOutside ++ [l.heap.nextOpen] }
  | create {l : Ledger} {c : ExecCall} :
      Fresh c → Arrival l { l with
        heap := l.heap.mallocExec false c, hand := l.heap.nextExec :: l.hand }
  | createOpen {l : Ledger} {c : OpenCall} :
      OpenText c → Arrival l { l with
        heap := l.heap.mallocOpen c, openHand := l.heap.nextOpen :: l.openHand }
  | pop {l : Ledger} {r : ExecRef} {outside : List ExecRef} :
      l.outside = r :: outside → Arrival l { l with outside := outside, hand := r :: l.hand }
  | popOpen {l : Ledger} {o : OpenRef} {outside : List OpenRef} :
      l.openOutside = o :: outside →
      Arrival l { l with openOutside := outside, openHand := o :: l.openHand }

/-- What the functions of the index and of the dispatch do. -/
inductive Work : Ledger → Ledger → Prop where
  | extend {l : Ledger} {t : Procindex} :
      l.procs.Extends t → t.Sane → Work l { l with procs := t }
  | dummy {l : Ledger} {c : ExecCall} :
      Fresh c → c.timeStamp = ⟨0, 0⟩ → Work l { l with
        heap := l.heap.mallocExec true c, hand := l.heap.nextExec :: l.hand }
  | put {l : Ledger} {r : ExecRef} {c : ExecCall} {k : Nat} :
      r ∈ l.hand → l.heap.execs r = some c → 0 ≤ c.pid.toInt → c.pid.toInt + 1 = k →
      l.procs.procs[k]? = some .null →
      Work l { l with
        procs := l.procs.withSlot k (.proc r), hand := l.hand.erase r }
  | change {l : Ledger} {r : ExecRef} {c c' : ExecCall} :
      l.heap.execs r = some c → Similar c c' → Work l { l with heap := l.heap.setExec r c' }
  | attach {l : Ledger} {r : ExecRef} {c c' : ExecCall} {o : OpenRef} {oc : OpenCall} :
      o ∈ l.openHand → l.heap.execs r = some c → l.heap.opens o = some oc → oc.pid = c.pid →
      Appended c o c' →
      Work l { l with
        heap := (l.heap.setExec r c').noteAttached r o
        openHand := l.openHand.erase o }
  | remove {l : Ledger} {r : ExecRef} {k : Nat} :
      l.procs.procs[k]? = some (.proc r) →
      Work l { l with
        procs := l.procs.withSlot k .null, hand := r :: l.hand }
  | enqueue {l : Ledger} {r : ExecRef} :
      r ∈ l.hand → Work l { l with queue := l.queue ++ [some r], hand := l.hand.erase r }
  | dequeue {l : Ledger} {r : ExecRef} {q : List (Option ExecRef)} :
      l.queue = some r :: q → Work l { l with queue := q, hand := r :: l.hand }
  | destroy {l : Ledger} {r : ExecRef} {c : ExecCall} :
      r ∈ l.hand → l.heap.execs r = some c →
      Work l { l with
        heap := l.heap.release r (l.heap.bufferOf r), hand := l.hand.erase r }

/-- Any amount of work. -/
abbrev Works : Ledger → Ledger → Prop := Relation.ReflTransGen Work

/-! ## §2. The invariant. -/

namespace Ledger

/-- How often an `execCall` object is somewhere. -/
def tally (l : Ledger) (r : ExecRef) : Nat :=
  l.outside.count r + l.hand.count r + l.procs.entries.count r + l.queue.count (some r)
    + l.heap.freedExecs.count r

/-- How often an `openCall` object is somewhere: not attached yet, or attached, or destroyed with
the call it was attached to. -/
def openTally (l : Ledger) (o : OpenRef) : Nat :=
  l.openOutside.count o + l.openHand.count o + (l.heap.attached.map Prod.snd).count o

/-- The objects: every address given out and not destroyed holds one, and it is sound. -/
structure Objects (h : Heap) : Prop where
  execs : ∀ r, h.execs r = none ↔ h.nextExec ≤ r ∨ r ∈ h.freedExecs
  opens : ∀ o, h.opens o = none ↔ h.nextOpen ≤ o ∨ o ∈ h.freedOpens
  freed : ∀ o, h.freedOpens.count o
    = ((h.attached.filter fun p => p.1 ∈ h.freedExecs).map Prod.snd).count o
  owners : ∀ p ∈ h.attached, p.1 < h.nextExec
  room : ∀ r c, h.execs r = some c → Room c
  buffer : ∀ r c, h.execs r = some c → Heap.Buffer c (h.bufferOf r)
  tracked : ∀ r c, h.execs r = some c → 0 < c.callNum → c.tracked = true
  pid : ∀ r c, h.execs r = some c → ∀ o ∈ h.bufferOf r, ∃ oc, h.opens o = some oc ∧ oc.pid = c.pid
  births : h.births.length = h.nextExec
  dummies : ∀ b ∈ h.births, b.1 = true → b.2.timeStamp = ⟨0, 0⟩
  born : ∀ r c, h.execs r = some c → ∃ d, h.births[r]? = some (d, c.identity)
  texts : ∀ b ∈ h.births, Text b.2.cmdName ∧ Text b.2.args
  openTexts : ∀ o c, h.opens o = some c → OpenText c

/-- The table: `procs[pid+1]` belongs to `pid`, and `procs[0]` to nobody. -/
structure Table (h : Heap) (t : Procindex) : Prop where
  sane : t.Sane
  zero : t.procs[0]? = some .null
  pid : ∀ (k : Nat) r, t.procs[k]? = some (.proc r) → ∃ c, h.execs r = some c ∧ c.pid.toInt + 1 = k

/-- **The invariant**: every object is in one place at most. -/
structure Sound (l : Ledger) : Prop where
  once : ∀ r, l.tally r ≤ 1
  openOnce : ∀ o, l.openTally o ≤ 1
  known : ∀ r, 0 < l.tally r → r < l.heap.nextExec
  openKnown : ∀ o, 0 < l.openTally o → o < l.heap.nextOpen
  queue : none ∉ l.queue
  objects : Objects l.heap
  table : Table l.heap l.procs

/-! ## §3. What the invariant says about one object. -/

variable {l : Ledger} {r : ExecRef} {o : OpenRef}

/-- An object that is somewhere but not destroyed is live. -/
theorem Sound.live (h : l.Sound)
    (hr : 0 < l.outside.count r + l.hand.count r + l.procs.entries.count r + l.queue.count (some r)) :
    ∃ c, l.heap.execs r = some c := by
  have honce := h.once r
  unfold tally at honce
  have hknown : r < l.heap.nextExec := h.known r (by unfold tally; omega)
  rw [← Option.isSome_iff_exists, ← Option.ne_none_iff_isSome, Ne, h.objects.execs, not_or]
  refine ⟨Nat.not_le_of_lt hknown, fun hfreed => ?_⟩
  have := List.count_pos_iff.mpr hfreed
  omega

theorem Sound.hand_live (h : l.Sound) (hr : r ∈ l.hand) : ∃ c, l.heap.execs r = some c := by
  have := List.count_pos_iff.mpr hr
  exact h.live (by omega)

theorem Sound.entry_live (h : l.Sound) {k : Nat} (hk : l.procs.procs[k]? = some (.proc r)) :
    ∃ c, l.heap.execs r = some c ∧ c.pid.toInt + 1 = k :=
  h.table.pid k r hk

theorem Sound.queue_live (h : l.Sound) (hr : some r ∈ l.queue) : ∃ c, l.heap.execs r = some c := by
  have := List.count_pos_iff.mpr hr
  exact h.live (by omega)

/-- An open call that has not been attached is live. -/
theorem Sound.open_live (h : l.Sound) (ho : 0 < l.openOutside.count o + l.openHand.count o) :
    ∃ c, l.heap.opens o = some c := by
  have honce := h.openOnce o
  unfold openTally at honce
  have hknown : o < l.heap.nextOpen := h.openKnown o (by unfold openTally; omega)
  rw [← Option.isSome_iff_exists, ← Option.ne_none_iff_isSome, Ne, h.objects.opens, not_or]
  refine ⟨Nat.not_le_of_lt hknown, fun hfreed => ?_⟩
  have hpos := List.count_pos_iff.mpr hfreed
  have hle : l.heap.freedOpens.count o ≤ (l.heap.attached.map Prod.snd).count o := by
    rw [h.objects.freed]
    exact (List.filter_sublist.map Prod.snd).count_le o
  omega

theorem Sound.openHand_live (h : l.Sound) (ho : o ∈ l.openHand) :
    ∃ c, l.heap.opens o = some c := by
  have := List.count_pos_iff.mpr ho
  exact h.open_live (by omega)

/-- What has been attached to a call is attached once. -/
theorem Sound.buffer_nodup (h : l.Sound) (r : ExecRef) : (l.heap.bufferOf r).Nodup := by
  refine List.nodup_iff_count.mpr fun o => ?_
  have honce := h.openOnce o
  have hle : (l.heap.bufferOf r).count o ≤ (l.heap.attached.map Prod.snd).count o :=
    (List.filter_sublist.map Prod.snd).count_le o
  unfold openTally at honce
  omega

/-- The destruction of a call in hand succeeds. -/
theorem Sound.destroy_ok (h : l.Sound) {c : ExecCall} (hc : l.heap.execs r = some c) :
    l.heap.execCallDestroy r = .ok (l.heap.release r (l.heap.bufferOf r)) :=
  Heap.execCallDestroy_ok hc (h.objects.buffer r c hc) (h.buffer_nodup r) fun o ho =>
    let ⟨oc, hoc, _⟩ := h.objects.pid r c hc o ho
    Option.isSome_iff_exists.mpr ⟨oc, hoc⟩

/-! ## §4. The objects after each change of the heap. -/

section HeapChanges

variable {h : Heap} {c c' : ExecCall} {oc : OpenCall}

/-- Giving out an address. -/
theorem Objects.mallocExec (hobj : Objects h) (hc : Fresh c) (hfreed : h.nextExec ∉ h.freedExecs)
    {dummy : Bool} (hdummy : dummy = true → c.timeStamp = ⟨0, 0⟩) :
    Objects (h.mallocExec dummy c) := by
  -- no open call has been attached to an address that is given out only now
  have hnone : h.bufferOf h.nextExec = [] := by
    rw [Heap.bufferOf, List.map_eq_nil_iff, List.filter_eq_nil_iff]
    intro p hp
    have := hobj.owners p hp
    simpa using Nat.ne_of_lt this
  refine ⟨fun x => ?_, hobj.opens, hobj.freed, fun p hp => Nat.lt_succ_of_lt (hobj.owners p hp),
    ?_, ?_, ?_, ?_, ?_, ?_, ?_, ?_, hobj.openTexts⟩
  · show Function.update h.execs h.nextExec (some c) x = none ↔ h.nextExec + 1 ≤ x ∨ x ∈ h.freedExecs
    by_cases hx : x = h.nextExec
    · subst hx
      simp [hfreed]
    · rw [Function.update_of_ne hx, hobj.execs]
      have : h.nextExec + 1 ≤ x ↔ h.nextExec ≤ x := by
        constructor
        · exact Nat.le_of_succ_le
        · exact fun hle => Nat.lt_of_le_of_ne hle (Ne.symm hx)
      rw [this]
  · intro x d hd
    rcases Heap.update_eq_some hd with ⟨-, ⟨⟩⟩ | ⟨-, hd⟩
    · exact hc.room
    · exact hobj.room x d hd
  · intro x d hd
    rcases Heap.update_eq_some hd with ⟨rfl, ⟨⟩⟩ | ⟨-, hd⟩
    · show Heap.Buffer c (h.bufferOf h.nextExec)
      rw [hnone, Heap.Buffer, hc.callNum]
      exact ⟨by simp, Nat.zero_le _⟩
    · exact hobj.buffer x d hd
  · intro x d hd hpos
    rcases Heap.update_eq_some hd with ⟨-, ⟨⟩⟩ | ⟨-, hd⟩
    · rw [hc.callNum] at hpos
      exact absurd hpos (Nat.lt_irrefl 0)
    · exact hobj.tracked x d hd hpos
  · intro x d hd o ho
    rcases Heap.update_eq_some hd with ⟨rfl, ⟨⟩⟩ | ⟨-, hd⟩
    · rw [show (h.mallocExec dummy c).bufferOf h.nextExec = [] from hnone] at ho
      cases ho
    · exact hobj.pid x d hd o ho
  · show (h.births ++ [(dummy, c.identity)]).length = h.nextExec + 1
    rw [List.length_append, hobj.births]
    rfl
  · intro b hb hb'
    rcases List.mem_append.mp hb with hb | hb
    · exact hobj.dummies b hb hb'
    · rw [List.mem_singleton.mp hb] at hb' ⊢
      exact hdummy hb'
  · intro x d hd
    show ∃ b, (h.births ++ [(dummy, c.identity)])[x]? = some (b, d.identity)
    rcases Heap.update_eq_some hd with ⟨rfl, ⟨⟩⟩ | ⟨-, hd⟩
    · exact ⟨dummy, by rw [← hobj.births, List.getElem?_concat_length]⟩
    · obtain ⟨b, hb⟩ := hobj.born x d hd
      exact ⟨b, by rw [List.getElem?_append_left (List.getElem?_eq_some_iff.mp hb).1, hb]⟩
  · intro b hb
    rcases List.mem_append.mp hb with hb | hb
    · exact hobj.texts b hb
    · rw [List.mem_singleton.mp hb]
      exact ⟨hc.cmdName, hc.args⟩

theorem Objects.mallocOpen (hobj : Objects h) (hoc : OpenText oc)
    (hfreed : h.nextOpen ∉ h.freedOpens) : Objects (h.mallocOpen oc) := by
  refine ⟨hobj.execs, fun x => ?_, hobj.freed, hobj.owners, hobj.room, hobj.buffer, hobj.tracked,
    ?_, hobj.births, hobj.dummies, hobj.born, hobj.texts, ?_⟩
  · show Function.update h.opens h.nextOpen (some oc) x = none ↔ h.nextOpen + 1 ≤ x ∨ x ∈ h.freedOpens
    by_cases hx : x = h.nextOpen
    · subst hx
      simp [hfreed]
    · rw [Function.update_of_ne hx, hobj.opens]
      have : h.nextOpen + 1 ≤ x ↔ h.nextOpen ≤ x := by
        constructor
        · exact Nat.le_of_succ_le
        · exact fun hle => Nat.lt_of_le_of_ne hle (Ne.symm hx)
      rw [this]
  · intro r d hd o ho
    obtain ⟨oc', hoc', hpid⟩ := hobj.pid r d hd o ho
    have hx : o ≠ h.nextOpen := by
      rintro rfl
      have hnone := (hobj.opens h.nextOpen).mpr (Or.inl (Nat.le_refl _))
      rw [hoc'] at hnone
      cases hnone
    exact ⟨oc', by rw [Heap.mallocOpen_opens, Function.update_of_ne hx]; exact hoc', hpid⟩
  · intro o d hd
    rcases Heap.update_eq_some hd with ⟨-, ⟨⟩⟩ | ⟨-, hd⟩
    · exact hoc
    · exact hobj.openTexts o d hd

/-- Changing the contents of a call. -/
theorem Objects.setExec (hobj : Objects h) (hc : h.execs r = some c) (hsim : Similar c c') :
    Objects (h.setExec r c') := by
  refine ⟨fun x => ?_, hobj.opens, hobj.freed, hobj.owners, ?_, ?_, ?_, ?_, hobj.births,
    hobj.dummies, ?_, hobj.texts, hobj.openTexts⟩
  · by_cases hx : x = r
    · subst hx
      have := hobj.execs x
      rw [hc] at this
      simpa using this
    · rw [Heap.setExec_execs, Function.update_of_ne hx]
      exact hobj.execs x
  · intro x d hd
    rcases Heap.update_eq_some hd with ⟨-, ⟨⟩⟩ | ⟨-, hd⟩
    · exact hsim.room (hobj.room r c hc)
    · exact hobj.room x d hd
  · intro x d hd
    rcases Heap.update_eq_some hd with ⟨rfl, ⟨⟩⟩ | ⟨-, hd⟩
    · exact hsim.buffer _ (hobj.buffer x c hc)
    · exact hobj.buffer x d hd
  · intro x d hd hpos
    rcases Heap.update_eq_some hd with ⟨-, ⟨⟩⟩ | ⟨-, hd⟩
    · rw [hsim.callNum] at hpos
      exact hsim.tracked (hobj.tracked r c hc hpos)
    · exact hobj.tracked x d hd hpos
  · intro x d hd o ho
    rcases Heap.update_eq_some hd with ⟨rfl, ⟨⟩⟩ | ⟨-, hd⟩
    · rw [hsim.pid]
      exact hobj.pid x c hc o ho
    · exact hobj.pid x d hd o ho
  · intro x d hd
    rcases Heap.update_eq_some hd with ⟨rfl, ⟨⟩⟩ | ⟨-, hd⟩
    · rw [hsim.identity]
      exact hobj.born x c hc
    · exact hobj.born x d hd

theorem bufferOf_attach (x : ExecRef) :
    ((h.setExec r c').noteAttached r o).bufferOf x
      = if x = r then h.bufferOf x ++ [o] else h.bufferOf x := by
  unfold Heap.bufferOf
  rw [Heap.noteAttached_attached, Heap.setExec_attached, List.filter_append, List.map_append]
  split
  next hx => simp [hx]
  next hx => simp [Ne.symm hx]

/-- Attaching an open call to a call. -/
theorem Objects.attach (hobj : Objects h) (hc : h.execs r = some c) (ho : h.opens o = some oc)
    (hpid : oc.pid = c.pid) (happ : Appended c o c') :
    Objects ((h.setExec r c').noteAttached r o) := by
  -- the target is live, so the freed open calls are the same as before
  have hlive : ¬ (h.nextExec ≤ r ∨ r ∈ h.freedExecs) := by
    rw [← hobj.execs, hc]
    simp
  refine ⟨fun x => ?_, hobj.opens, fun x => ?_, ?_, ?_, ?_, ?_, ?_, hobj.births, hobj.dummies, ?_,
    hobj.texts, hobj.openTexts⟩
  · by_cases hx : x = r
    · subst hx
      have := hobj.execs x
      rw [hc] at this
      simpa using this
    · show Function.update h.execs r (some c') x = none ↔ _
      rw [Function.update_of_ne hx]
      exact hobj.execs x
  · show h.freedOpens.count x
      = (((h.attached ++ [(r, o)]).filter fun p => p.1 ∈ h.freedExecs).map Prod.snd).count x
    rw [hobj.freed, List.filter_append]
    have hr : r ∉ h.freedExecs := fun hm => hlive (Or.inr hm)
    simp [hr]
  · intro p hp
    rcases List.mem_append.mp hp with hp | hp
    · exact hobj.owners p hp
    · rw [List.mem_singleton.mp hp]
      exact Nat.lt_of_not_le fun hle => hlive (Or.inl hle)
  · intro x d hd
    rcases Heap.update_eq_some hd with ⟨-, ⟨⟩⟩ | ⟨-, hd⟩
    · exact happ.room
    · exact hobj.room x d hd
  · intro x d hd
    rw [bufferOf_attach]
    rcases Heap.update_eq_some hd with ⟨rfl, ⟨⟩⟩ | ⟨hx, hd⟩
    · rw [if_pos rfl]
      exact happ.buffer _ (hobj.buffer x c hc)
    · rw [if_neg hx]
      exact hobj.buffer x d hd
  · intro x d hd hpos
    rcases Heap.update_eq_some hd with ⟨-, ⟨⟩⟩ | ⟨-, hd⟩
    · exact happ.tracked
    · exact hobj.tracked x d hd hpos
  · intro x d hd y hy
    rw [bufferOf_attach] at hy
    rcases Heap.update_eq_some hd with ⟨rfl, ⟨⟩⟩ | ⟨hx, hd⟩
    · rw [if_pos rfl] at hy
      rw [happ.pid]
      rcases List.mem_append.mp hy with hy | hy
      · exact hobj.pid x c hc y hy
      · rw [List.mem_singleton.mp hy]
        exact ⟨oc, ho, hpid⟩
    · rw [if_neg hx] at hy
      exact hobj.pid x d hd y hy
  · intro x d hd
    rcases Heap.update_eq_some hd with ⟨rfl, ⟨⟩⟩ | ⟨-, hd⟩
    · rw [happ.identity]
      exact hobj.born x c hc
    · exact hobj.born x d hd

/-- The attachments of two different calls are counted separately. -/
theorem bufferOf_count_add {x : ExecRef} (hx : x ≠ r) (y : OpenRef) :
    (h.bufferOf x).count y + (h.bufferOf r).count y ≤ (h.attached.map Prod.snd).count y := by
  unfold Heap.bufferOf
  induction h.attached with
  | nil => simp
  | cons p ps ih =>
      by_cases h1 : p.1 = x
      · have h2 : p.1 ≠ r := by rw [h1]; exact hx
        simp only [List.filter_cons, h1, decide_true, if_true, List.map_cons, List.count_cons, hx,
          decide_false, Bool.false_eq_true, if_false]
        omega
      · by_cases h2 : p.1 = r
        · simp only [List.filter_cons, h2, decide_true, if_true, List.map_cons, List.count_cons,
            Ne.symm hx, decide_false, Bool.false_eq_true, if_false]
          omega
        · simp only [List.filter_cons, h1, h2, decide_false, Bool.false_eq_true, if_false,
            List.map_cons, List.count_cons]
          omega

/-- What has been destroyed once `r` goes as well. -/
theorem freed_release (hr : r ∉ h.freedExecs) (y : OpenRef) :
    ((h.attached.filter fun p => p.1 ∈ h.freedExecs ++ [r]).map Prod.snd).count y
      = ((h.attached.filter fun p => p.1 ∈ h.freedExecs).map Prod.snd).count y
        + (h.bufferOf r).count y := by
  unfold Heap.bufferOf
  induction h.attached with
  | nil => simp
  | cons p ps ih =>
      by_cases h1 : p.1 = r
      · simp only [List.filter_cons, h1, List.mem_append, List.mem_singleton, or_true, decide_true,
          if_true, hr, decide_false, Bool.false_eq_true, if_false, List.map_cons, List.count_cons]
        simp only [List.mem_append, List.mem_singleton] at ih
        omega
      · by_cases h2 : p.1 ∈ h.freedExecs
        · simp only [List.filter_cons, h1, h2, List.mem_append, List.mem_singleton, true_or,
            decide_true, if_true, decide_false, Bool.false_eq_true, if_false, List.map_cons,
            List.count_cons]
          simp only [List.mem_append, List.mem_singleton] at ih
          omega
        · simp only [List.filter_cons, h1, h2, List.mem_append, List.mem_singleton, or_false,
            decide_false, Bool.false_eq_true, if_false]
          simp only [List.mem_append, List.mem_singleton] at ih
          omega

/-- Destroying a call with its buffer. -/
theorem Objects.release (hobj : Objects h) (hc : h.execs r = some c)
    (honce : ∀ y, (h.attached.map Prod.snd).count y ≤ 1) :
    Objects (h.release r (h.bufferOf r)) := by
  have hlive : ¬ (h.nextExec ≤ r ∨ r ∈ h.freedExecs) := by
    rw [← hobj.execs, hc]
    simp
  have hcases : ∀ x d, (h.release r (h.bufferOf r)).execs x = some d →
      x ≠ r ∧ h.execs x = some d := by
    intro x d hd
    rcases Heap.update_eq_some hd with ⟨-, ⟨⟩⟩ | hd
    exact hd
  refine ⟨fun x => ?_, fun y => ?_, fun y => ?_, hobj.owners, ?_, ?_, ?_, ?_, hobj.births,
    hobj.dummies, ?_, hobj.texts, ?_⟩
  · show Function.update h.execs r none x = none ↔ h.nextExec ≤ x ∨ x ∈ h.freedExecs ++ [r]
    by_cases hx : x = r
    · simp [hx]
    · rw [Function.update_of_ne hx, hobj.execs]
      simp [hx]
  · show (if y ∈ h.bufferOf r then none else h.opens y) = none
      ↔ h.nextOpen ≤ y ∨ y ∈ h.freedOpens ++ h.bufferOf r
    by_cases hy : y ∈ h.bufferOf r
    · simp [hy]
    · rw [if_neg hy, hobj.opens]
      simp [hy]
  · show (h.freedOpens ++ h.bufferOf r).count y
      = ((h.attached.filter fun p => p.1 ∈ h.freedExecs ++ [r]).map Prod.snd).count y
    rw [freed_release (fun hm => hlive (Or.inr hm)), List.count_append, hobj.freed]
  · intro x d hd
    exact hobj.room x d (hcases x d hd).2
  · intro x d hd
    exact hobj.buffer x d (hcases x d hd).2
  · intro x d hd
    exact hobj.tracked x d (hcases x d hd).2
  · intro x d hd y hy
    obtain ⟨hx, hd⟩ := hcases x d hd
    obtain ⟨oc, hoc, hpid⟩ := hobj.pid x d hd y hy
    refine ⟨oc, ?_, hpid⟩
    -- an open call in another buffer is not in this one, and so is not freed with it
    have hpos : 0 < (h.bufferOf x).count y := List.count_pos_iff.mpr hy
    have hsum := bufferOf_count_add (h := h) hx y
    have hle := honce y
    have hnot : y ∉ h.bufferOf r := fun hm => by
      have := List.count_pos_iff.mpr hm
      omega
    show (if y ∈ h.bufferOf r then none else h.opens y) = some oc
    rw [if_neg hnot]
    exact hoc
  · intro x d hd
    exact hobj.born x d (hcases x d hd).2
  · intro y d hd
    replace hd : (if y ∈ h.bufferOf r then none else h.opens y) = some d := hd
    split at hd
    · cases hd
    · exact hobj.openTexts y d hd

end HeapChanges

/-! ## §5. The table after each change. -/

section TableChanges

variable {h h' : Heap} {t : Procindex} {c : ExecCall} {k : Nat}

theorem Table.extend {t' : Procindex} (htab : Table h t) (hext : t.Extends t') (hsane : t'.Sane) :
    Table h t' :=
  ⟨hsane, hext.get htab.zero, fun k r hk => htab.pid k r (hext.proc hk)⟩

/-- The entries keep their pids. -/
theorem Table.heap (htab : Table h t)
    (hpid : ∀ x c, h.execs x = some c → x ∈ t.entries →
      ∃ c', h'.execs x = some c' ∧ c'.pid = c.pid) : Table h' t := by
  refine ⟨htab.sane, htab.zero, fun k r hk => ?_⟩
  obtain ⟨c, hc, hpidc⟩ := htab.pid k r hk
  obtain ⟨c', hc', hpid'⟩ := hpid r c hc (Procindex.mem_entries.mpr ⟨k, hk⟩)
  exact ⟨c', hc', by rw [hpid']; exact hpidc⟩

theorem Table.put (htab : Table h t) (hc : h.execs r = some c) (h0 : 0 ≤ c.pid.toInt)
    (hk : c.pid.toInt + 1 = k) : Table h (t.withSlot k (.proc r)) := by
  refine ⟨htab.sane.withSlot k _, ?_, fun j x hj => ?_⟩
  · show (t.procs.set k (.proc r))[0]? = some .null
    rw [List.getElem?_set_ne (by omega)]
    exact htab.zero
  · rcases Procindex.withSlot_proc hj with ⟨rfl, rfl⟩ | ⟨-, hold⟩
    · exact ⟨c, hc, hk⟩
    · exact htab.pid j x hold

theorem Table.remove (htab : Table h t) : Table h (t.withSlot k .null) := by
  refine ⟨htab.sane.withSlot k _, ?_, fun j x hj => ?_⟩
  · show (t.procs.set k .null)[0]? = some .null
    rw [List.getElem?_set]
    split
    next hk0 =>
      rw [if_pos]
      rw [hk0]
      exact (List.getElem?_eq_some_iff.mp htab.zero).1
    next => exact htab.zero
  · exact htab.pid j x (Procindex.withSlot_null.mp hj).2

end TableChanges

/-- Exchanging the slot `k` of the table. -/
theorem entries_set_count {t : Procindex} {k : Nat} {s : Slot} (hk : t.procs[k]? = some s) (s' : Slot)
    (x : ExecRef) :
    (t.withSlot k s').entries.count x + s.call.toList.count x
      = t.entries.count x + s'.call.toList.count x :=
  Tally.count_filterMap_set Slot.call hk s' x

/-! ## §6. Every move keeps the invariant. -/

variable {l' : Ledger}

/-- A move that leaves the heap alone and every object in one place. -/
theorem Sound.rearrange (h : l.Sound) (hheap : l'.heap = l.heap)
    (htally : ∀ x, l'.tally x = l.tally x) (hopen : ∀ y, l'.openTally y = l.openTally y)
    (hqueue : none ∉ l'.queue) (htable : Table l.heap l'.procs) : l'.Sound := by
  refine ⟨fun x => ?_, fun y => ?_, fun x hx => ?_, fun y hy => ?_, hqueue, ?_, ?_⟩
  · rw [htally]
    exact h.once x
  · rw [hopen]
    exact h.openOnce y
  · rw [hheap]
    exact h.known x (by rwa [← htally])
  · rw [hheap]
    exact h.openKnown y (by rwa [← hopen])
  · rw [hheap]
    exact h.objects
  · rw [hheap]
    exact htable

/-- An address that has not been given out is nowhere. -/
theorem Sound.tally_next (h : l.Sound) : l.tally l.heap.nextExec = 0 :=
  Nat.eq_zero_of_not_pos fun hpos => absurd (h.known _ hpos) (Nat.lt_irrefl _)

theorem Sound.openTally_next (h : l.Sound) : l.openTally l.heap.nextOpen = 0 :=
  Nat.eq_zero_of_not_pos fun hpos => absurd (h.openKnown _ hpos) (Nat.lt_irrefl _)

theorem Sound.next_not_freed (h : l.Sound) : l.heap.nextExec ∉ l.heap.freedExecs := by
  intro hm
  have hpos := List.count_pos_iff.mpr hm
  have hzero := h.tally_next
  unfold tally at hzero
  omega

theorem Sound.nextOpen_not_freed (h : l.Sound) : l.heap.nextOpen ∉ l.heap.freedOpens := by
  intro hm
  have hpos := List.count_pos_iff.mpr hm
  have hzero := h.openTally_next
  have hle : l.heap.freedOpens.count l.heap.nextOpen
      ≤ (l.heap.attached.map Prod.snd).count l.heap.nextOpen := by
    rw [h.objects.freed]
    exact (List.filter_sublist.map Prod.snd).count_le _
  unfold openTally at hzero
  omega

/-- A new call at an address of its own, in one place. -/
theorem Sound.arrive (h : l.Sound) {c : ExecCall} (hc : Fresh c) {dummy : Bool}
    (hdummy : dummy = true → c.timeStamp = ⟨0, 0⟩)
    (hheap : l'.heap = l.heap.mallocExec dummy c)
    (htally : ∀ x, l'.tally x = l.tally x + [l.heap.nextExec].count x)
    (hopen : ∀ y, l'.openTally y = l.openTally y) (hqueue : l'.queue = l.queue)
    (hprocs : l'.procs = l.procs) : l'.Sound := by
  refine ⟨fun x => ?_, fun y => ?_, fun x hx => ?_, fun y hy => ?_,
    by rw [hqueue]; exact h.queue, ?_, ?_⟩
  · rw [htally, List.count_singleton]
    by_cases hx : l.heap.nextExec = x
    · rw [← hx, h.tally_next]
      simp
    · have := h.once x
      simp only [beq_iff_eq, if_neg hx]
      omega
  · rw [hopen]
    exact h.openOnce y
  · rw [hheap]
    show x < l.heap.nextExec + 1
    rw [htally, List.count_singleton] at hx
    by_cases hne : l.heap.nextExec = x
    · rw [← hne]
      exact Nat.lt_succ_self _
    · simp only [beq_iff_eq, if_neg hne] at hx
      exact Nat.lt_succ_of_lt (h.known x hx)
  · rw [hheap]
    exact h.openKnown y (by rwa [← hopen])
  · rw [hheap]
    exact h.objects.mallocExec hc h.next_not_freed hdummy
  · rw [hheap, hprocs]
    -- the entries of the table are older than the new address
    refine h.table.heap fun x d hd _ => ⟨d, ?_, rfl⟩
    have hne : x ≠ l.heap.nextExec := by
      rintro rfl
      have hnone := (h.objects.execs l.heap.nextExec).mpr (Or.inl (Nat.le_refl _))
      rw [hd] at hnone
      cases hnone
    show Function.update l.heap.execs l.heap.nextExec (some c) x = some d
    rw [Function.update_of_ne hne]
    exact hd

/-- A new open call at an address of its own, in one place. -/
theorem Sound.arriveOpen (h : l.Sound) {c : OpenCall} (hc : OpenText c)
    (hheap : l'.heap = l.heap.mallocOpen c)
    (htally : ∀ y, l'.openTally y = l.openTally y + [l.heap.nextOpen].count y)
    (hexecs : ∀ x, l'.tally x = l.tally x) (hqueue : l'.queue = l.queue)
    (hprocs : l'.procs = l.procs) : l'.Sound := by
  refine ⟨fun x => ?_, fun y => ?_, fun x hx => ?_, fun y hy => ?_, by rw [hqueue]; exact h.queue,
    by rw [hheap]; exact h.objects.mallocOpen hc h.nextOpen_not_freed, 
    by rw [hheap, hprocs]; exact ⟨h.table.sane, h.table.zero, h.table.pid⟩⟩
  · rw [hexecs]
    exact h.once x
  · rw [htally, List.count_singleton]
    by_cases hy : l.heap.nextOpen = y
    · rw [← hy, h.openTally_next]
      simp
    · have := h.openOnce y
      simp only [beq_iff_eq, if_neg hy]
      omega
  · rw [hheap]
    exact h.known x (by rwa [← hexecs])
  · rw [hheap]
    show y < l.heap.nextOpen + 1
    rw [htally, List.count_singleton] at hy
    by_cases hne : l.heap.nextOpen = y
    · rw [← hne]
      exact Nat.lt_succ_self _
    · simp only [beq_iff_eq, if_neg hne] at hy
      exact Nat.lt_succ_of_lt (h.openKnown y hy)

/-- An open call in hand goes into the buffer of a call. -/
theorem Sound.attach (h : l.Sound) {c c' : ExecCall} {oc : OpenCall} (ho : o ∈ l.openHand)
    (hc : l.heap.execs r = some c) (hoc : l.heap.opens o = some oc) (hpid : oc.pid = c.pid)
    (happ : Appended c o c') :
    Sound { l with
      heap := (l.heap.setExec r c').noteAttached r o
      openHand := l.openHand.erase o } := by
  have htally : ∀ y, l.openOutside.count y + (l.openHand.erase o).count y
      + ((l.heap.attached ++ [(r, o)]).map Prod.snd).count y = l.openTally y := by
    intro y
    have hhand := Tally.count_erase ho y
    rw [List.map_append, List.count_append]
    unfold openTally
    show _ + _ + (_ + [o].count y) = _
    omega
  refine ⟨h.once, fun y => Nat.le_trans (Nat.le_of_eq (htally y)) (h.openOnce y), h.known,
    fun y hy => h.openKnown y (Nat.lt_of_lt_of_le hy (Nat.le_of_eq (htally y))), h.queue,
    h.objects.attach hc hoc hpid happ, ?_⟩
  refine h.table.heap fun x d hd _ => ?_
  show ∃ d', Function.update l.heap.execs r (some c') x = some d' ∧ d'.pid = d.pid
  by_cases hx : x = r
  · subst hx
    rw [hc] at hd
    cases hd
    exact ⟨c', Function.update_self _ _ _, happ.pid⟩
  · exact ⟨d, by rw [Function.update_of_ne hx]; exact hd, rfl⟩

/-- A call in hand is destroyed, and its buffer with it. -/
theorem Sound.destroy (h : l.Sound) {c : ExecCall} (hr : r ∈ l.hand)
    (hc : l.heap.execs r = some c) :
    Sound { l with
      heap := l.heap.release r (l.heap.bufferOf r), hand := l.hand.erase r } := by
  have htally : ∀ x, l.outside.count x + (l.hand.erase r).count x + l.procs.entries.count x
      + l.queue.count (some x) + (l.heap.freedExecs ++ [r]).count x = l.tally x := by
    intro x
    have hhand := Tally.count_erase hr x
    rw [List.count_append]
    unfold tally
    omega
  have honce : ∀ y, (l.heap.attached.map Prod.snd).count y ≤ 1 := fun y => by
    have := h.openOnce y
    unfold openTally at this
    omega
  refine ⟨fun x => Nat.le_trans (Nat.le_of_eq (htally x)) (h.once x), h.openOnce,
    fun x hx => h.known x (Nat.lt_of_lt_of_le hx (Nat.le_of_eq (htally x))), h.openKnown, h.queue,
    h.objects.release hc honce, ?_⟩
  refine h.table.heap fun x d hd hentry => ⟨d, ?_, rfl⟩
  -- the call in hand is not an entry
  have hne : x ≠ r := by
    rintro rfl
    have hx := h.once x
    have hpos := List.count_pos_iff.mpr hr
    have hpos' := List.count_pos_iff.mpr hentry
    unfold tally at hx
    omega
  rw [Heap.release_execs, Function.update_of_ne hne]
  exact hd

/-- A new call in hand. -/
theorem tally_create (l : Ledger) (x : ExecRef) :
    l.outside.count x + (l.heap.nextExec :: l.hand).count x + l.procs.entries.count x
      + l.queue.count (some x) + l.heap.freedExecs.count x
      = l.tally x + [l.heap.nextExec].count x := by
  rw [← List.singleton_append, List.count_append]
  unfold tally
  omega

end Ledger

open Ledger in
/-- **Every arrival keeps the invariant.** -/
theorem Arrival.sound {l l' : Ledger} (ha : Arrival l l') (h : l.Sound) : l'.Sound := by
  cases ha with
  | @receive c hc =>
      refine h.arrive hc (fun hd => Bool.noConfusion hd) rfl (fun x => ?_) (fun _ => rfl) rfl rfl
      show (l.outside ++ [l.heap.nextExec]).count x + l.hand.count x + _ + _ + _ = _
      rw [List.count_append]
      unfold tally
      show _ + l.procs.entries.count x + l.queue.count (some x) + l.heap.freedExecs.count x = _
      omega
  | receiveOpen hc =>
      refine h.arriveOpen hc rfl (fun y => ?_) (fun _ => rfl) rfl rfl
      show (l.openOutside ++ [l.heap.nextOpen]).count y + l.openHand.count y
        + (l.heap.attached.map Prod.snd).count y = l.openTally y + [l.heap.nextOpen].count y
      rw [List.count_append]
      unfold openTally
      omega
  | @create c hc =>
      refine h.arrive hc (fun hd => Bool.noConfusion hd) rfl (fun x => ?_) (fun _ => rfl) rfl rfl
      exact tally_create l x
  | createOpen hc =>
      refine h.arriveOpen hc rfl (fun y => ?_) (fun _ => rfl) rfl rfl
      show l.openOutside.count y + (l.heap.nextOpen :: l.openHand).count y
        + (l.heap.attached.map Prod.snd).count y = l.openTally y + [l.heap.nextOpen].count y
      rw [← List.singleton_append, List.count_append]
      unfold openTally
      omega
  | @pop r outside hout =>
      refine h.rearrange rfl (fun x => ?_) (fun _ => rfl) h.queue h.table
      show outside.count x + (r :: l.hand).count x + l.procs.entries.count x
        + l.queue.count (some x) + l.heap.freedExecs.count x = l.tally x
      unfold tally
      rw [hout, ← List.singleton_append, List.count_append, ← List.singleton_append (l := outside),
        List.count_append]
      omega
  | @popOpen o outside hout =>
      refine h.rearrange rfl (fun _ => rfl) (fun y => ?_) h.queue h.table
      show outside.count y + (o :: l.openHand).count y + (l.heap.attached.map Prod.snd).count y
        = l.openTally y
      unfold openTally
      rw [hout, ← List.singleton_append, List.count_append, ← List.singleton_append (l := outside),
        List.count_append]
      omega

open Ledger in
/-- **Every work keeps the invariant.** -/
theorem Work.sound {l l' : Ledger} (hw : Work l l') (h : l.Sound) : l'.Sound := by
  -- most works move one address from one place to another, and the tallies stay as they are
  cases hw with
  | extend hext hsane =>
      refine h.rearrange rfl (fun x => ?_) (fun _ => rfl) h.queue (h.table.extend hext hsane)
      show l.outside.count x + l.hand.count x + _ + _ + _ = _
      rw [hext.entries]
      rfl
  | @dummy c hc ht =>
      refine h.arrive hc (fun _ => ht) rfl (fun x => ?_) (fun _ => rfl) rfl rfl
      exact tally_create l x
  | @put r c k hr hc h0 hpid hk =>
      refine h.rearrange rfl (fun x => ?_) (fun _ => rfl) h.queue (h.table.put hc h0 hpid)
      have hhand := Tally.count_erase hr x
      have hslots := entries_set_count hk (.proc r) x
      simp only [Slot.call, Option.toList_none, Option.toList_some, List.count_nil] at hslots
      unfold tally
      show l.outside.count x + (l.hand.erase r).count x
        + (l.procs.withSlot k (.proc r)).entries.count x
        + l.queue.count (some x) + l.heap.freedExecs.count x = _
      omega
  | @change r c c' hc hsim =>
      refine ⟨h.once, h.openOnce, h.known, h.openKnown, h.queue, h.objects.setExec hc hsim, ?_⟩
      refine h.table.heap fun x d hd _ => ?_
      by_cases hx : x = r
      · subst hx
        rw [hc] at hd
        cases hd
        exact ⟨c', by simp, hsim.pid⟩
      · exact ⟨d, by simpa [hx] using hd, rfl⟩
  | attach ho hc hoc hpid happ => exact h.attach ho hc hoc hpid happ
  | @remove r k hk =>
      refine h.rearrange rfl (fun x => ?_) (fun _ => rfl) h.queue h.table.remove
      have hslots := entries_set_count hk .null x
      simp only [Slot.call, Option.toList_none, Option.toList_some, List.count_nil] at hslots
      unfold tally
      show l.outside.count x + (r :: l.hand).count x
        + (l.procs.withSlot k .null).entries.count x
        + l.queue.count (some x) + l.heap.freedExecs.count x = _
      rw [← List.singleton_append, List.count_append]
      omega
  | @enqueue r hr =>
      refine h.rearrange rfl (fun x => ?_) (fun _ => rfl) ?_ h.table
      · have hhand := Tally.count_erase hr x
        have hsome : [some r].count (some x) = [r].count x := by
          simp [List.count_singleton]
        unfold tally
        show l.outside.count x + (l.hand.erase r).count x + l.procs.entries.count x
          + (l.queue ++ [some r]).count (some x) + l.heap.freedExecs.count x = _
        rw [List.count_append]
        omega
      · show none ∉ l.queue ++ [some r]
        simpa using h.queue
  | @dequeue r q hq =>
      refine h.rearrange rfl (fun x => ?_) (fun _ => rfl) ?_ h.table
      · have hsome : [some r].count (some x) = [r].count x := by
          simp [List.count_singleton]
        unfold tally
        show l.outside.count x + (r :: l.hand).count x + l.procs.entries.count x
          + q.count (some x) + l.heap.freedExecs.count x = _
        rw [hq, ← List.singleton_append, List.count_append, ← List.singleton_append (l := q),
          List.count_append]
        omega
      · intro hm
        exact h.queue (by rw [hq]; exact List.mem_cons_of_mem _ hm)
  | destroy hr hc => exact h.destroy hr hc

/-! ## §7. Whole sequences of works. -/

/-- The calls that were parsed, as they were made. -/
def Heap.real (h : Heap) : List Identity := (h.births.filter fun b => !b.1).map Prod.snd

/-- What no work of the main thread touches. -/
structure Framed (l l' : Ledger) : Prop where
  outside : l'.outside = l.outside
  openOutside : l'.openOutside = l.openOutside
  real : l'.heap.real = l.heap.real
  births : l.heap.births <+: l'.heap.births
  freed : l.heap.freedExecs <+: l'.heap.freedExecs
  links : l'.heap.links = l.heap.links

theorem Framed.refl (l : Ledger) : Framed l l :=
  ⟨rfl, rfl, rfl, List.prefix_rfl, List.prefix_rfl, rfl⟩

theorem Framed.trans {l l' l'' : Ledger} (h : Framed l l') (h' : Framed l' l'') : Framed l l'' :=
  ⟨h'.outside.trans h.outside, h'.openOutside.trans h.openOutside, h'.real.trans h.real,
    h.births.trans h'.births, h.freed.trans h'.freed, h'.links.trans h.links⟩

theorem Work.framed {l l' : Ledger} (hw : Work l l') : Framed l l' := by
  cases hw with
  | @dummy c hc ht =>
      refine ⟨rfl, rfl, ?_, List.prefix_append _ _, List.prefix_rfl, rfl⟩
      show ((l.heap.births ++ [(true, c.identity)]).filter _).map _ = _
      simp [Heap.real]
  | destroy => exact ⟨rfl, rfl, rfl, List.prefix_rfl, List.prefix_append _ _, rfl⟩
  | _ => exact ⟨rfl, rfl, rfl, List.prefix_rfl, List.prefix_rfl, rfl⟩

theorem Works.sound {l l' : Ledger} (hw : Works l l') (h : l.Sound) : l'.Sound := by
  induction hw with
  | refl => exact h
  | tail _ hw ih => exact hw.sound ih

theorem Works.framed {l l' : Ledger} (hw : Works l l') : Framed l l' := by
  induction hw with
  | refl => exact .refl _
  | tail _ hw ih => exact ih.trans hw.framed

/-- No work gives an address out twice, and none makes an open call. -/
theorem Works.next_le {l l' : Ledger} (hw : Works l l') (hs : l.Sound) :
    l.heap.nextExec ≤ l'.heap.nextExec := by
  rw [← hs.objects.births, ← (hw.sound hs).objects.births]
  exact hw.framed.births.length_le

theorem Works.nextOpen {l l' : Ledger} (hw : Works l l') : l'.heap.nextOpen = l.heap.nextOpen := by
  induction hw with
  | refl => rfl
  | tail _ hwork ih =>
      rw [← ih]
      cases hwork with
      | _ => rfl

/-- No work changes an open call: it is as it was, or gone. -/
theorem Works.opens {l l' : Ledger} (hw : Works l l') {o : OpenRef} {c : OpenCall}
    (ho : l'.heap.opens o = some c) : l.heap.opens o = some c := by
  induction hw with
  | refl => exact ho
  | tail _ hwork ih =>
      apply ih
      cases hwork with
      | @destroy r d hr hd =>
          replace ho : (if o ∈ Heap.bufferOf _ r then none else _) = some c := ho
          split at ho
          · cases ho
          · exact ho
      | _ => exact ho

end DirSurveiller
