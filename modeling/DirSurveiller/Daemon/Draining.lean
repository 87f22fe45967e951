/-
  DirSurveiller.Daemon.Draining — runs of the event loop in which no parser writes.

  A step leads from one place of the loop to the next; what it finds out about a queue on the way stays
  true while nothing is written into it.  With that every step of a run hands over the next call of one
  merge, fixed where the run begins.

    * `Daemon.mainStep_goes` — where a step leads;
    * `Daemon.Draining.handing` — the calls are handed over in the order of the merge.
-/
import DirSurveiller.Daemon.Handover

namespace DirSurveiller

open CMachine Outcome StableMerge

/-! ## §1. Where the main thread goes. -/

namespace Daemon

/-- From one place of the loop to the next, with what is found out on the way. -/
inductive Goes (d d' : Daemon) : Prop
  | top : d.pc = .top → d'.pc = (if d.compMode then .merge else .sizeExec) → d'.dead = d.dead →
      d'.compMode = d.compMode → Goes d d'
  | hands : d.pc.hands = true → d'.pc = .hasNext ∨ d'.pc = .testShutting → d'.dead = d.dead →
      Goes d d'
  | next : d.pc = .hasNext → d'.pc = .readNext → d'.dead = d.dead → Goes d d'
  | other : d.pc = .hasNext → d'.pc = .handOther → d'.dead = d.dead →
      (d'.ecallFirst = true → d'.surv.commandQueue.held = []) →
      (d'.ecallFirst = false → d'.surv.openQueue.held = []) → Goes d d'
  | readNext : d.pc = .readNext → d'.pc = .testShutting → d'.dead = d.dead → Goes d d'
  | sizeExec : d.pc = .sizeExec → d'.pc = .sizeOpen → d'.dead = d.dead →
      (d'.readyCalls = false → d'.surv.commandQueue.held = []) → Goes d d'
  | both : d.pc = .sizeOpen → d'.pc = .readBothExec → d'.dead = d.dead → Goes d d'
  | openOnly : d.pc = .sizeOpen → d'.pc = .readOpen → d'.dead = d.dead → d'.surv = d.surv →
      d.readyCalls = false → Goes d d'
  | execOnly : d.pc = .sizeOpen → d'.pc = .readExec → d'.dead = d.dead →
      d'.surv.openQueue.held = [] → Goes d d'
  | neither : d.pc = .sizeOpen → d'.pc = .testShutting → d'.dead = d.dead →
      d.surv.openQueue.held = [] → d.readyCalls = false → Goes d d'
  | readBothExec : d.pc = .readBothExec → d'.pc = .readBothOpen → d'.dead = d.dead → Goes d d'
  | readBothOpen : d.pc = .readBothOpen → d'.pc = .top → d'.compMode = true → d'.dead = d.dead →
      Goes d d'
  | shutting : d.pc = .testShutting → d'.pc = .testOpenSocket → d'.dead = d.dead → Goes d d'
  | openSocket : d.pc = .testOpenSocket → d'.pc = .testExecSocket → d'.dead = d.dead → Goes d d'
  | execSocket : d.pc = .testExecSocket → d'.pc = .testOpenQueue → d'.dead = d.dead →
      d'.surv = d.surv → d'.compMode = d.compMode →
      d.surv.processingExeccallSocket ≠ .running → Goes d d'
  | openQueue : d.pc = .testOpenQueue → d'.pc = .testCommandQueue → d'.dead = d.dead →
      d'.surv = d.surv → d'.compMode = d.compMode → d.surv.openQueue.held = [] → Goes d d'
  | commandQueue : d.pc = .testCommandQueue → d'.pc = .flush → d'.dead = true →
      d'.compMode = d.compMode → d.surv.commandQueue.held = [] → Goes d d'
  | stays : (d.pc = .testShutting ∨ d.pc = .testOpenSocket ∨ d.pc = .testExecSocket
        ∨ (d.pc = .testOpenQueue ∧ d.surv.openQueue.held ≠ [])
        ∨ (d.pc = .testCommandQueue ∧ d.surv.commandQueue.held ≠ [])) →
      d'.pc = .dispatch → (d.dead = false → d'.dead = false) → Goes d d'
  | flush : d.pc = .flush → d'.pc = .dispatch → d'.dead = d.dead → d'.compMode = d.compMode →
      Goes d d'
  | dispatch : d.pc = .dispatch → d'.pc = (if d.dead then .done else .top) → d'.dead = d.dead →
      d'.compMode = d.compMode → Goes d d'
  | done : d.pc = .done → d'.pc = .done → d'.compMode = d.compMode → Goes d d'

section Goes

variable {d d' : Daemon} {env : MainEnv}

/-- Handing a call over moves nothing else. -/
theorem handOver_dead {exec : Bool} (hrun : d.handOver env exec = .ok d') : d'.dead = d.dead := by
  unfold handOver at hrun
  split at hrun
  · unfold addExecCall at hrun
    split at hrun
    · cases hrun
    · obtain ⟨p, -, hrun⟩ := bind_ok hrun
      cases hrun
      rfl
  · unfold opencallAdd at hrun
    split at hrun
    · cases hrun
    · obtain ⟨p, -, hrun⟩ := bind_ok hrun
      cases hrun
      rfl

theorem add_dead (hrun : d.add env = .ok d') : d'.dead = d.dead := by
  unfold add at hrun
  split at hrun
  · cases hrun
  · obtain ⟨p, -, hrun⟩ := bind_ok hrun
    cases hrun
    rfl

theorem goes_hasNext (hpc : d.pc = .hasNext) (hrun : d.mainStep env = .ok d') :
    d.Goes d' := by
  rw [Daemon.mainStep, hpc] at hrun
  dsimp only at hrun
  split at hrun
  next =>
    cases hrun
    exact .next hpc rfl rfl
  next hnone =>
    cases hrun
    -- the queue of the call handed over is empty
    refine .other hpc rfl rfl ?_ ?_
    · intro hfirst
      by_contra hne
      exact hnone (.inl ⟨hfirst, (GRingBuffer.size_ne_zero_iff _).mpr hne⟩)
    · intro hfirst
      replace hfirst : d.ecallFirst = false := hfirst
      by_contra hne
      apply hnone
      rw [hfirst]
      exact .inr ⟨Bool.false_ne_true, (GRingBuffer.size_ne_zero_iff _).mpr hne⟩

theorem goes_sizeOpen (hpc : d.pc = .sizeOpen) (hrun : d.mainStep env = .ok d') : d.Goes d' := by
  rw [Daemon.mainStep, hpc] at hrun
  dsimp only at hrun
  by_cases hsize : gRingBufferSize d.surv.openQueue ≠ 0
  · rw [if_pos hsize] at hrun
    cases hready : d.readyCalls with
    | true =>
        rw [hready] at hrun
        cases hrun
        exact .both hpc rfl rfl
    | false =>
        rw [hready] at hrun
        cases hrun
        exact .openOnly hpc rfl rfl rfl hready
  · rw [if_neg hsize] at hrun
    have hempty : d.surv.openQueue.held = [] := by
      by_contra hne
      exact hsize ((GRingBuffer.size_ne_zero_iff _).mpr hne)
    cases hready : d.readyCalls with
    | true =>
        rw [hready] at hrun
        cases hrun
        exact .execOnly hpc rfl rfl hempty
    | false =>
        rw [hready] at hrun
        cases hrun
        exact .neither hpc rfl rfl hempty hready

/-- The four places at which a call is handed over. -/
theorem goes_hands (hhands : d.pc.hands = true) (hrun : d.mainStep env = .ok d') : d.Goes d' := by
  cases hpc : d.pc with
  | merge =>
      rw [Daemon.mainStep, hpc] at hrun
      obtain ⟨first, -, hrun⟩ := bind_ok hrun
      obtain ⟨d1, hd1, hrun⟩ := bind_ok hrun
      cases hrun
      have hdead := handOver_dead hd1
      exact .hands hhands (.inl rfl) hdead
  | handOther =>
      rw [Daemon.mainStep, hpc] at hrun
      obtain ⟨d1, hd1, hrun⟩ := bind_ok hrun
      cases hrun
      have hdead := handOver_dead hd1
      exact .hands hhands (.inr rfl) hdead
  | readOpen =>
      rw [Daemon.mainStep, hpc] at hrun
      obtain ⟨d1, hd1, hrun⟩ := bind_ok hrun
      cases hrun
      have hdead := handOver_dead (show d.readOpen.handOver env false = .ok d1 from hd1)
      exact .hands hhands (.inr rfl) hdead
  | readExec =>
      rw [Daemon.mainStep, hpc] at hrun
      obtain ⟨d1, hd1, hrun⟩ := bind_ok hrun
      cases hrun
      have hdead := add_dead hd1
      exact .hands hhands (.inr rfl) hdead
  | _ =>
      rw [hpc] at hhands
      cases hhands

/-- The three flags of the exit test. -/
theorem goes_flags (hpc : d.pc = .testShutting ∨ d.pc = .testOpenSocket ∨ d.pc = .testExecSocket)
    (hrun : d.mainStep env = .ok d') : d.Goes d' := by
  rcases hpc with hpc | hpc | hpc
  · rw [Daemon.mainStep, hpc] at hrun
    cases hrun
    cases hpass : d.surv.shuttingDown with
    | true => exact .shutting hpc rfl rfl
    | false => exact .stays (.inl hpc) rfl id
  · rw [Daemon.mainStep, hpc] at hrun
    cases hrun
    by_cases hpass : d.surv.processingOpencallSocket ≠ .running
    · rw [decide_eq_true hpass]
      exact .openSocket hpc rfl rfl
    · rw [decide_eq_false hpass]
      exact .stays (.inr (.inl hpc)) rfl id
  · rw [Daemon.mainStep, hpc] at hrun
    cases hrun
    by_cases hpass : d.surv.processingExeccallSocket ≠ .running
    · rw [decide_eq_true hpass]
      exact .execSocket hpc rfl rfl rfl rfl hpass
    · rw [decide_eq_false hpass]
      exact .stays (.inr (.inr (.inl hpc))) rfl id

/-- And the two queues it looks at; only the last of the five tests ends the loop. -/
theorem goes_queues (hpc : d.pc = .testOpenQueue ∨ d.pc = .testCommandQueue)
    (hrun : d.mainStep env = .ok d') : d.Goes d' := by
  rcases hpc with hpc | hpc
  · rw [Daemon.mainStep, hpc] at hrun
    cases hrun
    cases hempty : gRingBufferEmpty d.surv.openQueue with
    | true => exact .openQueue hpc rfl rfl rfl rfl ((GRingBuffer.empty_iff _).mp hempty)
    | false =>
        refine .stays (.inr (.inr (.inr (.inl ⟨hpc, ?_⟩)))) rfl id
        intro hheld
        rw [(GRingBuffer.empty_iff _).mpr hheld] at hempty
        cases hempty
  · rw [Daemon.mainStep, hpc] at hrun
    cases hrun
    cases hempty : gRingBufferEmpty d.surv.commandQueue with
    | true => exact .commandQueue hpc rfl rfl rfl ((GRingBuffer.empty_iff _).mp hempty)
    | false =>
        refine .stays (.inr (.inr (.inr (.inr ⟨hpc, ?_⟩)))) rfl fun _ => rfl
        intro hheld
        rw [(GRingBuffer.empty_iff _).mpr hheld] at hempty
        cases hempty

/-- **Where a step leads.** -/
theorem mainStep_goes (hrun : d.mainStep env = .ok d') : d.Goes d' := by
  cases hpc : d.pc with
  | hasNext => exact goes_hasNext hpc hrun
  | sizeOpen => exact goes_sizeOpen hpc hrun
  | merge | handOther | readOpen | readExec => exact goes_hands (by rw [hpc]; rfl) hrun
  | testShutting | testOpenSocket | testExecSocket => exact goes_flags (by simp [hpc]) hrun
  | testOpenQueue | testCommandQueue => exact goes_queues (by simp [hpc]) hrun
  | top =>
      rw [Daemon.mainStep, hpc] at hrun
      obtain ⟨surv, -, hrun⟩ := bind_ok hrun
      cases hrun
      exact .top hpc rfl rfl rfl
  | readNext =>
      rw [Daemon.mainStep, hpc] at hrun
      cases hrun
      refine .readNext hpc rfl ?_
      cases d.ecallFirst <;> rfl
  | sizeExec =>
      rw [Daemon.mainStep, hpc] at hrun
      cases hrun
      -- no call is ready only where the size was zero
      refine .sizeExec hpc rfl rfl ?_
      intro hready
      by_contra hne
      have hsize := (GRingBuffer.size_ne_zero_iff _).mpr hne
      simp [hsize] at hready
  | readBothExec =>
      rw [Daemon.mainStep, hpc] at hrun
      cases hrun
      exact .readBothExec hpc rfl rfl
  | readBothOpen =>
      rw [Daemon.mainStep, hpc] at hrun
      cases hrun
      exact .readBothOpen hpc rfl rfl rfl
  | flush =>
      rw [Daemon.mainStep, hpc] at hrun
      obtain ⟨surv, -, hrun⟩ := bind_ok hrun
      cases hrun
      exact .flush hpc rfl rfl rfl
  | dispatch =>
      rw [Daemon.mainStep, hpc] at hrun
      obtain ⟨surv, -, hrun⟩ := bind_ok hrun
      cases hrun
      exact .dispatch hpc rfl rfl rfl
  | done =>
      rw [Daemon.mainStep, hpc] at hrun
      cases hrun
      exact .done hpc hpc rfl

theorem foreseen_of (hpc : d.pc ∉ [Pc.handOther, .sizeOpen, .readOpen, .readExec,
    .testCommandQueue]) : d.Foreseen := by
  unfold Foreseen
  split <;> simp_all

/-- What has been found out stays true, while no parser writes. -/
theorem Goes.foreseen (h : d.Goes d') (hf : d.Foreseen) : d'.Foreseen := by
  cases h with
  | top _ hpc' =>
      apply foreseen_of
      rw [hpc']
      cases d.compMode <;> decide
  | hands _ hpc' =>
      apply foreseen_of
      rcases hpc' with hpc' | hpc' <;> rw [hpc'] <;> decide
  | other _ hpc' _ hexec hopen =>
      unfold Foreseen
      rw [hpc']
      exact ⟨hexec, hopen⟩
  | sizeExec _ hpc' _ hempty =>
      unfold Foreseen
      rw [hpc']
      exact hempty
  | openOnly hpc hpc' _ hsurv hready =>
      -- the size of the exec queue was zero, and nobody has written to it since
      unfold Foreseen at hf ⊢
      rw [hpc] at hf
      rw [hpc', hsurv]
      exact hf hready
  | execOnly _ hpc' _ hempty =>
      unfold Foreseen
      rw [hpc']
      exact hempty
  | openQueue _ hpc' _ hsurv _ hempty =>
      unfold Foreseen
      rw [hpc', hsurv]
      exact hempty
  | dispatch _ hpc' =>
      apply foreseen_of
      rw [hpc']
      cases d.dead <;> decide
  | next _ hpc' | readNext _ hpc' | both _ hpc' | neither _ hpc' | readBothExec _ hpc'
  | readBothOpen _ hpc' | shutting _ hpc' | openSocket _ hpc' | execSocket _ hpc'
  | commandQueue _ hpc' | stays _ hpc' | flush _ hpc' | done _ hpc' =>
      apply foreseen_of
      rw [hpc']
      decide

end Goes

end Daemon

/-! ## §2. Runs without parsers. -/

/-- No parser writes. -/
def Act.Quiet : Act → Prop
  | .writeExec _ => False
  | .writeOpen _ => False
  | _ => True

/-- A step of the main thread. -/
def Act.isMain : Act → Bool
  | .main _ => true
  | _ => false

namespace Daemon

/-- The loop begins: no call is pending, and none has been seen in the command queue. -/
structure Begins (d : Daemon) : Prop where
  pc : d.pc = .top
  dead : d.dead = false
  compMode : d.compMode = false
  readyCalls : d.readyCalls = false

/-- From `d0` to `d` no call has been accepted. -/
structure Draining (d0 d : Daemon) : Prop where
  invariant : d.Invariant
  foreseen : d.Foreseen
  acceptedExecs : d.acceptedExecs = d0.acceptedExecs
  acceptedOpens : d.acceptedOpens = d0.acceptedOpens
  handedExecs : d0.handedExecs.length ≤ d.handedExecs.length
  kept : Unaltered d0.surv d.surv

/-- What is left of the merge of what was left at `d0`. -/
def mergeLeft (d0 d : Daemon) : List QueuedCall := d0.surv.merged d.execsLeft d.opensLeft

/-- From `d` to `d'` the next calls of the merge are handed over. -/
def Advances (d0 d d' : Daemon) : Prop := d0.mergeLeft d = d.handedSince d' ++ d0.mergeLeft d'

section Run

variable {d0 d d' : Daemon} {a : Act}

theorem mergeLeft_length (d0 d : Daemon) : (d0.mergeLeft d).length = d.left := by
  unfold mergeLeft Surveiller.merged left
  rw [List.length_merge, List.length_map, List.length_map]

theorem Advances.left (h : Advances d0 d d') : d.left = (d.handedSince d').length + d'.left := by
  rw [← mergeLeft_length d0 d, ← mergeLeft_length d0 d', ← List.length_append]
  exact congrArg List.length h

theorem Begins.draining (h0 : d0.Invariant) (hb : d0.Begins) : Draining d0 d0 := by
  refine ⟨h0, foreseen_of ?_, rfl, rfl, Nat.le_refl _, .of_heap rfl⟩
  rw [hb.pc]
  decide

/-- The time stamps that are compared are those at the beginning. -/
theorem Draining.notAfter_eq (h : Draining d0 d) (h0 : d0.Invariant) {e : ExecRef} {o : OpenRef}
    (he : e ∈ d.execsLeft) (ho : o ∈ d.opensLeft) :
    d.surv.notAfter (.exec e) (.opened o) = d0.surv.notAfter (.exec e) (.opened o) := by
  have he0 : e ∈ d0.execsLeft := by
    unfold execsLeft at he ⊢
    rw [h.acceptedExecs] at he
    exact List.drop_subset_drop_left _ h.handedExecs he
  obtain ⟨hand, openHand, c, hinv, hc⟩ := h.invariant.execsLeft_live he
  obtain ⟨hand0, openHand0, c0, hinv0, hc0⟩ := h0.execsLeft_live he0
  obtain ⟨oc, hoc⟩ := h.invariant.opensLeft_live ho
  unfold Surveiller.notAfter
  rw [h.kept.exec_stamp hinv0 hinv hc0 hc, h.kept.open_stamp hoc]

/-- An execCall is handed over. -/
theorem Draining.advances_exec (h : Draining d0 d) (h0 : d0.Invariant) {e : ExecRef}
    {rest : List ExecRef} (haccepted : d'.acceptedExecs = d.acceptedExecs)
    (hopens : d'.acceptedOpens = d.acceptedOpens) (hleft : d.execsLeft = e :: rest)
    (hhanded : d'.handedExecs = d.handedExecs ++ [e]) (hsame : d'.handedOpens = d.handedOpens)
    (hfirst : ∀ o ∈ d.opensLeft.head?, d.surv.notAfter (.exec e) (.opened o) = true) :
    Advances d0 d d' := by
  have hrest : d'.execsLeft = rest := by
    unfold execsLeft at hleft ⊢
    rw [haccepted, hhanded, List.length_append, List.length_singleton, ← List.tail_drop, hleft]
    rfl
  have hopensLeft : d'.opensLeft = d.opensLeft := by
    unfold opensLeft
    rw [hopens, hsame]
  have hsince : d.handedSince d' = [.exec e] := by
    unfold handedSince
    rw [hhanded, hsame, List.drop_left, List.drop_length]
    rfl
  unfold Advances mergeLeft Surveiller.merged
  rw [hsince, hrest, hopensLeft, hleft]
  -- the head is the execCall, for no openCall that is left is earlier
  apply merge_left
  intro y hy
  rw [List.head?_map] at hy
  obtain ⟨o, ho, rfl⟩ := Option.map_eq_some_iff.mp hy
  rw [← h.notAfter_eq h0 (by rw [hleft]; exact List.mem_cons_self) (List.mem_of_mem_head? ho)]
  exact hfirst o ho

/-- An openCall is handed over. -/
theorem Draining.advances_opened (h : Draining d0 d) (h0 : d0.Invariant) {o : OpenRef}
    {rest : List OpenRef} (haccepted : d'.acceptedExecs = d.acceptedExecs)
    (hopens : d'.acceptedOpens = d.acceptedOpens) (hleft : d.opensLeft = o :: rest)
    (hhanded : d'.handedOpens = d.handedOpens ++ [o]) (hsame : d'.handedExecs = d.handedExecs)
    (hfirst : ∀ e ∈ d.execsLeft.head?, d.surv.notAfter (.exec e) (.opened o) = false) :
    Advances d0 d d' := by
  have hrest : d'.opensLeft = rest := by
    unfold opensLeft at hleft ⊢
    rw [hopens, hhanded, List.length_append, List.length_singleton, ← List.tail_drop, hleft]
    rfl
  have hexecsLeft : d'.execsLeft = d.execsLeft := by
    unfold execsLeft
    rw [haccepted, hsame]
  have hsince : d.handedSince d' = [.opened o] := by
    unfold handedSince
    rw [hhanded, hsame, List.drop_left, List.drop_length]
    rfl
  unfold Advances mergeLeft Surveiller.merged
  rw [hsince, hrest, hexecsLeft, hleft]
  -- the head is the openCall, for it is strictly earlier
  apply merge_right
  intro x hx
  rw [List.head?_map] at hx
  obtain ⟨e, he, rfl⟩ := Option.map_eq_some_iff.mp hx
  rw [← h.notAfter_eq h0 (List.mem_of_mem_head? he) (by rw [hleft]; exact List.mem_cons_self)]
  exact hfirst e he

/-- Nothing is handed over. -/
theorem advances_nothing (haccepted : d'.acceptedExecs = d.acceptedExecs)
    (hopens : d'.acceptedOpens = d.acceptedOpens) (hexecs : d'.handedExecs = d.handedExecs)
    (hsame : d'.handedOpens = d.handedOpens) : d.handedSince d' = [] ∧ Advances d0 d d' := by
  have hsince : d.handedSince d' = [] := by
    unfold handedSince
    rw [hexecs, hsame, List.drop_length, List.drop_length]
    rfl
  refine ⟨hsince, ?_⟩
  unfold Advances mergeLeft execsLeft opensLeft
  rw [hsince, haccepted, hopens, hexecs, hsame]
  rfl

/-- **A step of the main thread** hands over the next call of the merge, at the places where it hands
over one. -/
theorem Draining.mainStep {env : MainEnv} (h : Draining d0 d) (h0 : d0.Invariant)
    (hrun : d.mainStep env = .ok d') :
    Draining d0 d' ∧ Advances d0 d d'
      ∧ (d.handedSince d').length = if d.pc.hands then 1 else 0 := by
  have hstep := h.invariant.stepped hrun
  have hdraining : d.handedExecs.length ≤ d'.handedExecs.length → Draining d0 d' := by
    intro hle
    exact ⟨(h.invariant.mainStep env).post hrun, (mainStep_goes hrun).foreseen h.foreseen,
      hstep.acceptedExecs.trans h.acceptedExecs, hstep.acceptedOpens.trans h.acceptedOpens,
      Nat.le_trans h.handedExecs hle, h.kept.trans hstep.kept⟩
  cases hstep.hands with
  | nothing hpc hexecs hopens =>
      obtain ⟨hsince, hadvances⟩ :=
        advances_nothing hstep.acceptedExecs hstep.acceptedOpens hexecs hopens
      refine ⟨hdraining (Nat.le_of_eq (by rw [hexecs])), hadvances, ?_⟩
      rw [hpc, hsince]
      rfl
  | @exec e rest hpc hleft hexecs hopens hfirst =>
      have hadvances := h.advances_exec h0 hstep.acceptedExecs hstep.acceptedOpens hleft hexecs
        hopens (hfirst h.foreseen)
      refine ⟨hdraining (by rw [hexecs, List.length_append]; omega), hadvances, ?_⟩
      unfold handedSince
      rw [hpc, hexecs, hopens, List.drop_left, List.drop_length]
      rfl
  | @opened o rest hpc hleft hopens hexecs hfirst =>
      have hadvances := h.advances_opened h0 hstep.acceptedExecs hstep.acceptedOpens hleft hopens
        hexecs (hfirst h.foreseen)
      refine ⟨hdraining (Nat.le_of_eq (by rw [hexecs])), hadvances, ?_⟩
      unfold handedSince
      rw [hpc, hexecs, hopens, List.drop_left, List.drop_length]
      rfl

/-- Nothing but flags has changed. -/
def Flagged (d d' : Daemon) : Prop :=
  ∃ shutting execSocket openSocket, d' = { d with surv := { d.surv with
    shuttingDown := shutting, processingExeccallSocket := execSocket
    processingOpencallSocket := openSocket } }

/-- What happens besides the main thread, while no parser writes. -/
theorem act_flagged (hquiet : a.Quiet) (hmain : a.isMain = false) (hact : d.act a = .ok d') :
    Flagged d d' := by
  cases a with
  | main => cases hmain
  | writeExec => exact hquiet.elim
  | writeOpen => exact hquiet.elim
  | execSocket phase =>
      cases hact
      exact ⟨_, _, _, rfl⟩
  | openSocket phase =>
      cases hact
      exact ⟨_, _, _, rfl⟩
  | shutDown =>
      cases hact
      exact ⟨_, _, _, rfl⟩

theorem Draining.flagged (h : Draining d0 d) (hf : Flagged d d') :
    Draining d0 d' ∧ Advances d0 d d' ∧ d.handedSince d' = [] := by
  obtain ⟨shutting, execSocket, openSocket, rfl⟩ := hf
  have hnothing : _ ∧ Advances d0 d { d with surv := { d.surv with
      shuttingDown := shutting, processingExeccallSocket := execSocket
      processingOpencallSocket := openSocket } } := advances_nothing rfl rfl rfl rfl
  exact ⟨⟨h.invariant.flags _ _ _, h.foreseen, h.acceptedExecs, h.acceptedOpens, h.handedExecs,
    h.kept.trans (.of_heap rfl)⟩, hnothing.2, hnothing.1⟩

/-- **The calls are handed over in the order of the merge**, whatever becomes of the flags. -/
theorem Draining.handing (h0 : d0.Invariant) : ∀ {acts : List Act} {d d' : Daemon}
    {l : List QueuedCall}, Draining d0 d → (∀ a ∈ acts, a.Quiet) → d.handing acts = .ok (l, d') →
      Draining d0 d' ∧ d0.mergeLeft d = l ++ d0.mergeLeft d' := by
  intro acts
  induction acts with
  | nil =>
      intro d d' l h _ hrun
      cases hrun
      exact ⟨h, rfl⟩
  | cons a acts ih =>
      intro d d' l h hquiet hrun
      obtain ⟨m, hact, hrun⟩ := bind_ok hrun
      obtain ⟨⟨later, last⟩, hlater, hrun⟩ := bind_ok hrun
      cases hrun
      -- only the main thread hands calls over
      have hstep : Draining d0 m ∧ Advances d0 d m := by
        cases hmain : a.isMain with
        | true =>
            cases a with
            | main env => exact ⟨(h.mainStep h0 hact).1, (h.mainStep h0 hact).2.1⟩
            | _ => cases hmain
        | false =>
            have hf := act_flagged (hquiet a List.mem_cons_self) hmain hact
            exact ⟨(h.flagged hf).1, (h.flagged hf).2.1⟩
      obtain ⟨hlast, horder⟩ := ih hstep.1 (fun x hx => hquiet x (List.mem_cons_of_mem _ hx)) hlater
      refine ⟨hlast, ?_⟩
      rw [show d0.mergeLeft d = _ from hstep.2, horder, List.append_assoc]

theorem handing_run : ∀ {acts : List Act} {d d' : Daemon} {l : List QueuedCall},
    d.handing acts = .ok (l, d') → d.run acts = .ok d' := by
  intro acts
  induction acts with
  | nil =>
      intro d d' l hrun
      cases hrun
      rfl
  | cons a acts ih =>
      intro d d' l hrun
      obtain ⟨m, hact, hrun⟩ := bind_ok hrun
      obtain ⟨⟨later, last⟩, hlater, hrun⟩ := bind_ok hrun
      cases hrun
      exact run_cons.mpr ⟨m, hact, ih hlater⟩

end Run

end Daemon

end DirSurveiller
