/-
  DirSurveiller.Daemon.Ownership — where a call object can be while the daemon runs.

  The places are counted in the containers themselves: the cells of the rings, the variables of
  `main`, the slots of the index, the buffers of the calls that still exist, and what has been
  destroyed.

  Main result:
    * `single_owner` — in every state of every interleaving each object is in one of the places at
      most, and once there; and whatever happens next, no destroyed object is used.
-/
import DirSurveiller.Daemon.Merge

namespace DirSurveiller

open CMachine Outcome

/-! ## §1. The buffers of the calls that exist. -/

namespace Heap

/-- How often `o` is in the buffer of the call at `r`. -/
def inBuffer (h : Heap) (o : OpenRef) (r : ExecRef) : Nat :=
  match h.execs r with
  | some c => (c.callBuff.take c.callNum).count (some o)
  | none => 0

/-- How often `o` is in a buffer. -/
def buffered (h : Heap) (o : OpenRef) : Nat := ∑ r ∈ Finset.range h.nextExec, h.inBuffer o r

end Heap

section Buffers

variable {h : Heap}

/-- A live call has in its buffer what was attached to it, a destroyed one has nothing. -/
theorem Ledger.Objects.inBuffer (hobj : Ledger.Objects h) (o : OpenRef) {r : ExecRef}
    (hr : r < h.nextExec) :
    h.inBuffer o r = if r ∈ h.freedExecs then 0 else (h.bufferOf r).count o := by
  unfold Heap.inBuffer
  cases hc : h.execs r with
  | none =>
      rcases (hobj.execs r).mp hc with hout | hfreed
      · exact absurd hr (Nat.not_lt.mpr hout)
      · rw [if_pos hfreed]
  | some c =>
      have hlive : r ∉ h.freedExecs := fun hfreed => by
        have hnone := (hobj.execs r).mpr (.inr hfreed)
        rw [hnone] at hc
        cases hc
      rw [if_neg hlive]
      show (c.callBuff.take c.callNum).count (some o) = _
      rw [(hobj.buffer r c hc).1]
      exact List.count_map_of_injective _ _ (Option.some_injective _) _

/-- What has been attached is in a buffer, or it has been destroyed with one. -/
theorem Ledger.Objects.buffered_add_freed (hobj : Ledger.Objects h) (o : OpenRef) :
    h.buffered o + h.freedOpens.count o = (h.attached.map Prod.snd).count o := by
  have hsum : h.buffered o
      = ∑ r ∈ Finset.range h.nextExec, if r ∈ h.freedExecs then 0 else (h.bufferOf r).count o :=
    Finset.sum_congr rfl fun r hr => hobj.inBuffer o (Finset.mem_range.mp hr)
  rw [hsum, hobj.freed o]
  exact Tally.sum_count_owned hobj.owners (fun r => r ∈ h.freedExecs) o

end Buffers

/-! ## §2. The places. -/

namespace Daemon

/-- How often an `execCall` object is somewhere. -/
def execPlaces (d : Daemon) (r : ExecRef) : Nat :=
  d.surv.commandQueue.held.count (some r) + d.pendingExec.count r + d.surv.procs.entries.count r
    + d.surv.dispatchQueue.held.count (some r) + d.surv.heap.freedExecs.count r

/-- How often an `openCall` object is somewhere. -/
def openPlaces (d : Daemon) (o : OpenRef) : Nat :=
  d.surv.openQueue.held.count (some o) + d.pendingOpen.count o + d.surv.heap.buffered o
    + d.surv.heap.freedOpens.count o

end Daemon

section Places

variable {d : Daemon} {execs : List ExecRef} {opens : List OpenRef}

/-- What is pending is in hand. -/
theorem count_pending_le {α : Type} [DecidableEq α] {pending : Bool} {temp : Option α}
    {l hand : List α} (hp : Daemon.Pending pending temp l) (h : ∀ x ∈ l, x ∈ hand) (y : α) :
    l.count y ≤ hand.count y := by
  cases hp with
  | idle => exact Nat.zero_le _
  | held x =>
      have hx := List.count_pos_iff.mpr (h x (List.mem_singleton.mpr rfl))
      rw [List.count_singleton]
      split
      · next heq =>
          rw [← eq_of_beq heq]
          exact hx
      · exact Nat.zero_le _

theorem count_held {α : Type} [DecidableEq α] {l : List (Option α)} (x : α) :
    (l.filterMap id).count x = l.count (some x) := by
  induction l with
  | nil => rfl
  | cons p l ih =>
      cases p with
      | none => simpa using ih
      | some y =>
          show (y :: l.filterMap id).count x = (some y :: l).count (some x)
          rw [List.count_cons, List.count_cons, ih]
          simp

theorem Daemon.Invariant.execPlaces_le (h : d.Invariant) (r : ExecRef) : d.execPlaces r ≤ 1 := by
  obtain ⟨execs, opens, hd, hexecs, hopens⟩ := h.holding
  obtain ⟨hand, openHand, hinv, hhand, -⟩ := hd.owned
  have honce := hinv.sound.once r
  have hpend := count_pending_le hexecs hhand r
  rw [hexecs.eq] at hpend
  have hqueue := count_held (l := d.surv.commandQueue.held) r
  unfold Ledger.tally Surveiller.ledger at honce
  unfold Daemon.execPlaces Daemon.pendingExec
  dsimp only at honce
  omega

theorem Daemon.Invariant.openPlaces_le (h : d.Invariant) (o : OpenRef) : d.openPlaces o ≤ 1 := by
  obtain ⟨execs, opens, hd, hexecs, hopens⟩ := h.holding
  obtain ⟨hand, openHand, hinv, -, hopen⟩ := hd.owned
  have honce := hinv.sound.openOnce o
  have hpend := count_pending_le hopens hopen o
  rw [hopens.eq] at hpend
  have hqueue := count_held (l := d.surv.openQueue.held) o
  have hbuffers : d.surv.heap.buffered o + d.surv.heap.freedOpens.count o
      = (d.surv.heap.attached.map Prod.snd).count o := hinv.sound.objects.buffered_add_freed o
  unfold Ledger.openTally Surveiller.ledger at honce
  unfold Daemon.openPlaces Daemon.pendingOpen
  dsimp only at honce
  omega

end Places

/-! ## §3. Every interleaving. -/

/-- **Single ownership**: no double destroy and no use after destroy. -/
theorem single_owner {getMaxPID ownPID : Int} {bootTime : UInt32} {s : Surveiller} {d : Daemon}
    (h0 : survInit getMaxPID ownPID bootTime = .ok (some s)) {acts : List Act}
    (hrun : (Daemon.initial s).run acts = .ok d) :
    (∀ r, d.execPlaces r ≤ 1) ∧ (∀ o, d.openPlaces o ≤ 1)
      ∧ (∀ r, (d.surv.dispatched.map Prod.fst).count r ≤ d.surv.heap.freedExecs.count r)
      ∧ ∀ a, d.act a ≠ .error .useAfterFree := by
  have h := ((Daemon.initial_invariant h0).run acts).post hrun
  obtain ⟨execs, opens, hd, -⟩ := h.holding
  obtain ⟨hand, openHand, hinv, -⟩ := hd.owned
  refine ⟨h.execPlaces_le, h.openPlaces_le, hinv.once, fun a hfault => ?_⟩
  have htolerated := (h.act a).fault hfault
  exact htolerated

/-- An execCall and an openCall are merged with a second execCall, all three go to the index, the
shutdown flushes it: the first execCall is archived, the second one destroyed. -/
def dispatchedRun : List Act :=
  [.writeExec (.blank 1 9 ⟨1, 0⟩), .writeOpen (.blank 1 ⟨2, 0⟩), .writeExec (.blank 1 9 ⟨3, 0⟩)]
    ++ List.replicate 17 (.main .granting) ++ [.shutDown] ++ List.replicate 10 (.main .granting)

theorem single_owner_sample :
    ∃ s d, survInit 10 1 0 = .ok (some s) ∧ (Daemon.initial s).run dispatchedRun = .ok d
      ∧ d.surv.dispatched.map Prod.fst = [0] ∧ d.surv.heap.freedExecs = [1, 0]
      ∧ d.surv.heap.freedOpens = [0]
      ∧ d.execPlaces 0 ≤ 1 ∧ d.execPlaces 1 ≤ 1 ∧ d.openPlaces 0 ≤ 1
      ∧ d.act (.main .granting) ≠ .error .useAfterFree := by
  have h0 : survInit 10 1 0 = .ok (some (.initial ⟨List.replicate 4 .null, 4, 10⟩ 0)) := by rfl
  obtain ⟨d, hrun, hdispatched, hfreed, hfreedOpens⟩ : ∃ d,
      (Daemon.initial (.initial ⟨List.replicate 4 .null, 4, 10⟩ 0)).run dispatchedRun = .ok d
        ∧ d.surv.dispatched.map Prod.fst = [0] ∧ d.surv.heap.freedExecs = [1, 0]
        ∧ d.surv.heap.freedOpens = [0] :=
    ⟨_, by rfl, by rfl, by rfl, by rfl⟩
  obtain ⟨hexecs, hopens, -, hfault⟩ := single_owner h0 hrun
  exact ⟨_, d, h0, hrun, hdispatched, hfreed, hfreedOpens, hexecs 0, hexecs 1, hopens 0, hfault _⟩

end DirSurveiller
