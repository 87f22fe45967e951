/-
  DirSurveiller.Daemon.Shutdown — what is lost when the event loop leaves.

  `dead` is computed from the flags and the queues, in the order of the source.  An `ExitTest` takes
  the main thread from the first of the five tests to the state in which all of them have passed and
  `surv_flush_procindex` is next.

  Main result:
    * `exit_complete_iff` — then every accepted event has been handed to the index iff the test began
      with `compMode` cleared and no parser has written to its queue after the queue was tested.  A
      parser that had started before the test never does.
-/
import DirSurveiller.Daemon.Merge

namespace DirSurveiller

open CMachine Outcome

/-! ## §1. The exit test. -/

/-- How many of the tests are behind the main thread, and one more; 0 where it does not test. -/
def Pc.exitStage : Pc → Nat
  | .testShutting => 1
  | .testOpenSocket => 2
  | .testExecSocket => 3
  | .testOpenQueue => 4
  | .testCommandQueue => 5
  | .flush => 6
  | _ => 0

/-- From `d`, where an exit test begins, to `d'`, where it has succeeded. -/
structure ExitTest (d : Daemon) (acts : List Act) (d' : Daemon) : Prop where
  begins : d.pc = .testShutting
  run : d.run acts = .ok d'
  succeeds : d'.pc = .flush
  once : EachStep Daemon.act d acts fun _ _ m => m.pc ≠ .testShutting

/-- A parser writes to its queue after the queue has been tested. -/
def Act.Late (d : Daemon) : Act → Prop
  | .writeExec _ => 6 ≤ d.pc.exitStage
  | .writeOpen _ => 5 ≤ d.pc.exitStage
  | _ => False

/-- The order in which a parser goes through its phases. -/
def ParserPhase.rank : ParserPhase → Nat
  | .notStarted => 0
  | .running => 1
  | .exited => 2

/-- A parser writes only while its flag is set, and never sets it again after clearing it. -/
def Act.Disciplined (d : Daemon) : Act → Prop
  | .writeExec _ => d.surv.processingExeccallSocket = .running
  | .writeOpen _ => d.surv.processingOpencallSocket = .running
  | .execSocket phase => d.surv.processingExeccallSocket.rank ≤ phase.rank
  | .openSocket phase => d.surv.processingOpencallSocket.rank ≤ phase.rank
  | _ => True

instance (d : Daemon) : (a : Act) → Decidable (a.Disciplined d)
  | .writeExec _ => inferInstanceAs (Decidable (d.surv.processingExeccallSocket = .running))
  | .writeOpen _ => inferInstanceAs (Decidable (d.surv.processingOpencallSocket = .running))
  | .execSocket phase =>
      inferInstanceAs (Decidable (d.surv.processingExeccallSocket.rank ≤ phase.rank))
  | .openSocket phase =>
      inferInstanceAs (Decidable (d.surv.processingOpencallSocket.rank ≤ phase.rank))
  | .main _ | .shutDown => inferInstanceAs (Decidable True)

section Exit

variable {d d' m : Daemon} {env : MainEnv} {acts : List Act}

/-- A test has passed. -/
structure Tested (d d' : Daemon) : Prop where
  stage : d'.pc.exitStage = d.pc.exitStage + 1
  first : 1 ≤ d.pc.exitStage
  surv : d'.surv = d.surv
  compMode : d'.compMode = d.compMode
  openSocket : d.pc.exitStage = 2 → d.surv.processingOpencallSocket ≠ .running
  execSocket : d.pc.exitStage = 3 → d.surv.processingExeccallSocket ≠ .running
  openQueue : d.pc.exitStage = 4 → d.surv.openQueue.held = []
  commandQueue : d.pc.exitStage = 5 → d.surv.commandQueue.held = []

theorem Daemon.test_passed {passed : Bool} {next : Pc}
    (h : 2 ≤ (d.test passed next).pc.exitStage) :
    passed = true ∧ (d.test passed next).pc = next := by
  cases passed with
  | true => exact ⟨rfl, rfl⟩
  | false =>
      have hzero : (d.test false next).pc.exitStage = 0 := rfl
      omega

/-- From the other places the main thread comes to the first test at most. -/
theorem Daemon.mainStep_stage_le (h : d.mainStep env = .ok d')
    (hpc : d.pc.exitStage = 0 ∨ d.pc.exitStage = 6) : d'.pc.exitStage ≤ 1 := by
  rw [Daemon.mainStep] at h
  cases hd : d.pc with
  | testShutting | testOpenSocket | testExecSocket | testOpenQueue | testCommandQueue =>
      -- the tests are the places that have been excluded
      rw [hd] at hpc
      exact absurd hpc (by decide)
  | top =>
      rw [hd] at h
      obtain ⟨surv, -, h⟩ := bind_ok h
      obtain rfl := Except.ok.inj h
      show (if d.compMode = true then Pc.merge else .sizeExec).exitStage ≤ 1
      split <;> decide
  | merge =>
      rw [hd] at h
      obtain ⟨first, -, h⟩ := bind_ok h
      obtain ⟨d1, -, h⟩ := bind_ok h
      obtain rfl := Except.ok.inj h
      exact Nat.zero_le 1
  | hasNext =>
      rw [hd] at h
      obtain rfl := Except.ok.inj h
      dsimp only
      split <;> decide
  | handOther =>
      rw [hd] at h
      obtain ⟨d1, -, h⟩ := bind_ok h
      obtain rfl := Except.ok.inj h
      exact Nat.le_refl 1
  | sizeOpen =>
      rw [hd] at h
      obtain rfl := Except.ok.inj h
      dsimp only
      split <;> split <;> decide
  | readOpen | readExec =>
      rw [hd] at h
      obtain ⟨d1, -, h⟩ := bind_ok h
      obtain rfl := Except.ok.inj h
      exact Nat.le_refl 1
  | readNext =>
      rw [hd] at h
      obtain rfl := Except.ok.inj h
      exact Nat.le_refl 1
  | sizeExec | readBothExec | readBothOpen =>
      rw [hd] at h
      obtain rfl := Except.ok.inj h
      exact Nat.zero_le 1
  | flush =>
      rw [hd] at h
      obtain ⟨surv, -, h⟩ := bind_ok h
      obtain rfl := Except.ok.inj h
      exact Nat.zero_le 1
  | dispatch =>
      rw [hd] at h
      obtain ⟨surv, -, h⟩ := bind_ok h
      obtain rfl := Except.ok.inj h
      show (if d.dead = true then Pc.done else .top).exitStage ≤ 1
      split <;> decide
  | done =>
      rw [hd] at h
      obtain rfl := Except.ok.inj h
      rw [hd]
      exact Nat.zero_le 1

/-- Only from one test does the main thread come to the next. -/
theorem Daemon.mainStep_tested (h : d.mainStep env = .ok d') (hstage : 2 ≤ d'.pc.exitStage) :
    Tested d d' := by
  have hlow : ¬ (d.pc.exitStage = 0 ∨ d.pc.exitStage = 6) := fun hpc => by
    have hle := Daemon.mainStep_stage_le h hpc
    omega
  rw [Daemon.mainStep] at h
  cases hpc : d.pc with
  | testShutting | testOpenSocket | testExecSocket | testOpenQueue | testCommandQueue =>
      rw [hpc] at h
      obtain rfl := Except.ok.inj h
      obtain ⟨hpassed, hnext⟩ := Daemon.test_passed hstage
      refine ⟨?_, ?_, rfl, rfl, ?_, ?_, ?_, ?_⟩
      · show (d.test _ _).pc.exitStage = _
        rw [hnext, hpc]
        rfl
      · rw [hpc]
        decide
      -- one of the four is what this test has looked at
      all_goals
        intro hs
        rw [hpc] at hs
        first
          | exact absurd hs (by decide)
          | exact of_decide_eq_true hpassed
          | exact (GRingBuffer.empty_iff _).mp hpassed
  | top | merge | hasNext | readNext | handOther | sizeExec | sizeOpen | readBothExec | readBothOpen
  | readOpen | readExec | flush | dispatch | done =>
      rw [hpc] at hlow
      exact absurd (by decide) hlow

/-! ## §2. Beside the test. -/

/-- What another thread leaves as it was. -/
structure Aside (d : Daemon) (a : Act) (d' : Daemon) : Prop where
  beside : Beside d d'
  openSocket : d'.surv.processingOpencallSocket
    = match a with | .openSocket phase => phase | _ => d.surv.processingOpencallSocket
  execSocket : d'.surv.processingExeccallSocket
    = match a with | .execSocket phase => phase | _ => d.surv.processingExeccallSocket
  openQueue : (∀ o, a ≠ .writeOpen o) → d'.surv.openQueue = d.surv.openQueue
  commandQueue : (∀ e, a ≠ .writeExec e) → d'.surv.commandQueue = d.surv.commandQueue

theorem Daemon.writeExec_aside (h : d.Invariant) (e : ExecEvent) :
    Aside d (.writeExec e) (d.writeExec e) := by
  obtain ⟨execs, opens, hd, -⟩ := h.holding
  obtain ⟨hand, openHand, hinv, -⟩ := hd.owned
  have hsurv : (d.writeExec e).surv.processingOpencallSocket = d.surv.processingOpencallSocket
      ∧ (d.writeExec e).surv.processingExeccallSocket = d.surv.processingExeccallSocket
      ∧ (d.writeExec e).surv.openQueue = d.surv.openQueue := by
    unfold Daemon.writeExec
    split
    split <;> exact ⟨rfl, rfl, rfl⟩
  exact ⟨d.writeExec_beside hinv.commandWf e, hsurv.1, hsurv.2.1, fun _ => hsurv.2.2,
    fun hne => absurd rfl (hne e)⟩

theorem Daemon.writeOpen_aside (h : d.Invariant) (o : OpenEvent) :
    Aside d (.writeOpen o) (d.writeOpen o) := by
  obtain ⟨execs, opens, hd, -⟩ := h.holding
  obtain ⟨hand, openHand, hinv, -⟩ := hd.owned
  have hsurv : (d.writeOpen o).surv.processingOpencallSocket = d.surv.processingOpencallSocket
      ∧ (d.writeOpen o).surv.processingExeccallSocket = d.surv.processingExeccallSocket
      ∧ (d.writeOpen o).surv.commandQueue = d.surv.commandQueue := by
    unfold Daemon.writeOpen
    split
    split <;> exact ⟨rfl, rfl, rfl⟩
  exact ⟨d.writeOpen_beside hinv.openWf o, hsurv.1, hsurv.2.1, fun hne => absurd rfl (hne o),
    fun _ => hsurv.2.2⟩

/-- What happens while the main thread does not begin another exit test: it passes one of the tests,
it is elsewhere, or it waits. -/
theorem Daemon.act_cases (h : d.Invariant) {a : Act} (hact : d.act a = .ok d')
    (hpc : d'.pc ≠ .testShutting) :
    Tested d d' ∨ d'.pc.exitStage = 0 ∨ Aside d a d' := by
  cases a with
  | main env =>
      by_cases hstage : 2 ≤ d'.pc.exitStage
      · exact .inl (Daemon.mainStep_tested hact hstage)
      · refine .inr (.inl ?_)
        revert hpc hstage
        cases d'.pc <;> simp [Pc.exitStage]
  | writeExec e =>
      obtain rfl := Except.ok.inj hact
      exact .inr (.inr (d.writeExec_aside h e))
  | writeOpen o =>
      obtain rfl := Except.ok.inj hact
      exact .inr (.inr (d.writeOpen_aside h o))
  | execSocket phase =>
      obtain rfl := Except.ok.inj hact
      exact .inr (.inr ⟨⟨rfl, rfl, rfl, rfl, rfl, rfl, id, id⟩, rfl, rfl, fun _ => rfl, fun _ => rfl⟩)
  | openSocket phase =>
      obtain rfl := Except.ok.inj hact
      exact .inr (.inr ⟨⟨rfl, rfl, rfl, rfl, rfl, rfl, id, id⟩, rfl, rfl, fun _ => rfl, fun _ => rfl⟩)
  | shutDown =>
      obtain rfl := Except.ok.inj hact
      exact .inr (.inr ⟨⟨rfl, rfl, rfl, rfl, rfl, rfl, id, id⟩, rfl, rfl, fun _ => rfl, fun _ => rfl⟩)

/-! ## §3. What holds at each of the tests. -/

/-- `compMode` does not change, and the queues that have been tested are empty. -/
structure Emptied (comp : Bool) (d : Daemon) : Prop where
  compMode : 1 ≤ d.pc.exitStage → d.compMode = comp
  openQueue : 5 ≤ d.pc.exitStage → d.surv.openQueue.held = []
  commandQueue : 6 ≤ d.pc.exitStage → d.surv.commandQueue.held = []

theorem Emptied.act {comp : Bool} {a : Act} (h : Emptied comp d) (hinv : d.Invariant)
    (hact : d.act a = .ok d') (hpc : d'.pc ≠ .testShutting) (hlate : ¬ a.Late d) :
    Emptied comp d' := by
  rcases Daemon.act_cases hinv hact hpc with htest | hzero | haside
  · have hstage := htest.stage
    refine ⟨fun _ => ?_, fun h5 => ?_, fun h6 => ?_⟩
    · rw [htest.compMode]
      exact h.compMode htest.first
    · rw [htest.surv]
      by_cases h4 : d.pc.exitStage = 4
      · exact htest.openQueue h4
      · exact h.openQueue (by omega)
    · rw [htest.surv]
      by_cases h5 : d.pc.exitStage = 5
      · exact htest.commandQueue h5
      · exact h.commandQueue (by omega)
  · refine ⟨fun h1 => ?_, fun h5 => ?_, fun h6 => ?_⟩ <;> omega
  · have hb := haside.beside
    have hstage : d'.pc.exitStage = d.pc.exitStage := by rw [hb.pc]
    refine ⟨fun h1 => ?_, fun h5 => ?_, fun h6 => ?_⟩
    · rw [hb.compMode]
      exact h.compMode (by omega)
    · rw [haside.openQueue fun o ha => hlate (by rw [ha]; show 5 ≤ d.pc.exitStage; omega)]
      exact h.openQueue (by omega)
    · rw [haside.commandQueue fun e ha => hlate (by rw [ha]; show 6 ≤ d.pc.exitStage; omega)]
      exact h.commandQueue (by omega)

/-- Something has been written to a queue after its test. -/
def Filled (d : Daemon) : Prop :=
  2 ≤ d.pc.exitStage → d.surv.openQueue.held ≠ [] ∨ d.surv.commandQueue.held ≠ []

theorem Filled.act {a : Act} (h : Filled d) (hinv : d.Invariant) (hd : d.pc ≠ .testShutting)
    (hact : d.act a = .ok d') (hpc : d'.pc ≠ .testShutting) : Filled d' := by
  intro hstage'
  rcases Daemon.act_cases hinv hact hpc with htest | hzero | haside
  · have hstage := htest.stage
    have hfirst := htest.first
    have hne : d.pc.exitStage ≠ 1 := fun h1 => hd (by revert h1; cases d.pc <;> simp [Pc.exitStage])
    rw [htest.surv]
    exact h (by omega)
  · omega
  · have hb := haside.beside
    rw [hb.pc] at hstage'
    exact (h hstage').imp hb.opens hb.command

/-- After a write a queue is not empty, whether it was refused or not. -/
theorem Daemon.late_filled {a : Act} (hinv : d.Invariant) (hlate : a.Late d)
    (hact : d.act a = .ok d') : Filled d' := by
  obtain ⟨execs, opens, hd, -⟩ := hinv.holding
  obtain ⟨hand, openHand, hs, -⟩ := hd.owned
  cases a with
  | writeExec e =>
      obtain rfl := Except.ok.inj hact
      intro _
      -- a refused write finds the queue full, a granted one adds to it
      refine .inr ?_
      unfold Daemon.writeExec
      have hne : (gRingBufferWrite d.surv.commandQueue (some d.surv.heap.nextExec)).2.held ≠ [] := by
        rw [GRingBuffer.write_held hs.commandWf]
        simp
      rcases GRingBuffer.write_cases hs.commandWf (some d.surv.heap.nextExec) with
        hrefused | ⟨queue, hwrite, -⟩
      · rw [hrefused] at hne ⊢
        exact hne
      · rw [hwrite] at hne ⊢
        exact hne
  | writeOpen o =>
      obtain rfl := Except.ok.inj hact
      intro _
      refine .inl ?_
      unfold Daemon.writeOpen
      have hne : (gRingBufferWrite d.surv.openQueue (some d.surv.heap.nextOpen)).2.held ≠ [] := by
        rw [GRingBuffer.write_held hs.openWf]
        simp
      rcases GRingBuffer.write_cases hs.openWf (some d.surv.heap.nextOpen) with
        hrefused | ⟨queue, hwrite, -⟩
      · rw [hrefused] at hne ⊢
        exact hne
      · rw [hwrite] at hne ⊢
        exact hne
  | main | execSocket | openSocket | shutDown => exact hlate.elim

/-- Parsers that had started have exited once their flags have been tested. -/
structure Stopped (d : Daemon) : Prop where
  started : 1 ≤ d.pc.exitStage → d.surv.processingOpencallSocket ≠ .notStarted
    ∧ d.surv.processingExeccallSocket ≠ .notStarted
  openSocket : 3 ≤ d.pc.exitStage → d.surv.processingOpencallSocket = .exited
  execSocket : 4 ≤ d.pc.exitStage → d.surv.processingExeccallSocket = .exited

theorem ParserPhase.exited_of {p : ParserPhase} (hs : p ≠ .notStarted) (hr : p ≠ .running) :
    p = .exited := by
  cases p with
  | notStarted => exact absurd rfl hs
  | running => exact absurd rfl hr
  | exited => rfl

theorem ParserPhase.started_of {p q : ParserPhase} (hs : p ≠ .notStarted) (h : p.rank ≤ q.rank) :
    q ≠ .notStarted := by
  intro hq
  subst hq
  revert hs h
  cases p <;> decide

theorem ParserPhase.exited_le {q : ParserPhase} (h : ParserPhase.exited.rank ≤ q.rank) :
    q = .exited := by
  revert h
  cases q <;> decide

/-- What a disciplined thread makes of a phase. -/
theorem Aside.phases {a : Act} (h : Aside d a d') (hdisc : a.Disciplined d) :
    d.surv.processingOpencallSocket.rank ≤ d'.surv.processingOpencallSocket.rank
      ∧ d.surv.processingExeccallSocket.rank ≤ d'.surv.processingExeccallSocket.rank := by
  rw [h.openSocket, h.execSocket]
  cases a with
  | openSocket phase => exact ⟨hdisc, Nat.le_refl _⟩
  | execSocket phase => exact ⟨Nat.le_refl _, hdisc⟩
  | main | writeExec | writeOpen | shutDown => exact ⟨Nat.le_refl _, Nat.le_refl _⟩

theorem Stopped.act {a : Act} (h : Stopped d) (hinv : d.Invariant) (hact : d.act a = .ok d')
    (hpc : d'.pc ≠ .testShutting) (hdisc : a.Disciplined d) : Stopped d' := by
  rcases Daemon.act_cases hinv hact hpc with htest | hzero | haside
  · have hstage := htest.stage
    have hstarted := h.started htest.first
    refine ⟨fun _ => ?_, fun h3 => ?_, fun h4 => ?_⟩
    · rw [htest.surv]
      exact hstarted
    · rw [htest.surv]
      by_cases h2 : d.pc.exitStage = 2
      · exact ParserPhase.exited_of hstarted.1 (htest.openSocket h2)
      · exact h.openSocket (by omega)
    · rw [htest.surv]
      by_cases h3 : d.pc.exitStage = 3
      · exact ParserPhase.exited_of hstarted.2 (htest.execSocket h3)
      · exact h.execSocket (by omega)
  · refine ⟨fun h1 => ?_, fun h3 => ?_, fun h4 => ?_⟩ <;> omega
  · obtain ⟨hopen, hexec⟩ := haside.phases hdisc
    have hstage : d'.pc.exitStage = d.pc.exitStage := by rw [haside.beside.pc]
    refine ⟨fun h1 => ?_, fun h3 => ?_, fun h4 => ?_⟩
    · obtain ⟨hso, hse⟩ := h.started (by omega)
      exact ⟨ParserPhase.started_of hso hopen, ParserPhase.started_of hse hexec⟩
    · rw [h.openSocket (by omega)] at hopen
      exact ParserPhase.exited_le hopen
    · rw [h.execSocket (by omega)] at hexec
      exact ParserPhase.exited_le hexec

/-- A parser that has exited does not write. -/
theorem Stopped.not_late {a : Act} (h : Stopped d) (hdisc : a.Disciplined d) : ¬ a.Late d := by
  intro hlate
  cases a with
  | writeExec e =>
      replace hlate : 6 ≤ d.pc.exitStage := hlate
      replace hdisc : d.surv.processingExeccallSocket = .running := hdisc
      rw [h.execSocket (by omega)] at hdisc
      cases hdisc
  | writeOpen o =>
      replace hlate : 5 ≤ d.pc.exitStage := hlate
      replace hdisc : d.surv.processingOpencallSocket = .running := hdisc
      rw [h.openSocket (by omega)] at hdisc
      cases hdisc
  | main | execSocket | openSocket | shutDown => exact hlate

/-! ## §4. The exit. -/

theorem Daemon.Invariant.act_ok {a : Act} (h : d.Invariant) (hact : d.act a = .ok d') :
    d'.Invariant :=
  (h.act a).post hact

/-- At the exit the queues are empty if nothing was written to them after their tests. -/
theorem ExitTest.emptied (hexit : ExitTest d acts d') (h : d.Invariant)
    (hlate : EachStep Daemon.act d acts fun m a _ => ¬ a.Late m) :
    d'.compMode = d.compMode ∧ d'.surv.openQueue.held = [] ∧ d'.surv.commandQueue.held = [] := by
  have hboth : EachStep Daemon.act d acts fun m a m' =>
      m'.pc ≠ .testShutting ∧ ¬ a.Late m := fun pre a post m m' hacts hpre hact =>
    ⟨hexit.once pre a post m m' hacts hpre hact, hlate pre a post m m' hacts hpre hact⟩
  have hbegin : Emptied d.compMode d := by
    refine ⟨fun _ => rfl, fun h5 => ?_, fun h6 => ?_⟩
    · rw [hexit.begins] at h5
      exact absurd h5 (by decide)
    · rw [hexit.begins] at h6
      exact absurd h6 (by decide)
  obtain ⟨-, hend⟩ := EachStep.invariant (P := fun m => m.Invariant ∧ Emptied d.compMode m)
    (fun m a m' hm hc hact => ⟨hm.1.act_ok hact, hm.2.act hm.1 hact hc.1 hc.2⟩) hboth ⟨h, hbegin⟩
    hexit.run
  have hstage : d'.pc.exitStage = 6 := by
    rw [hexit.succeeds]
    rfl
  exact ⟨hend.compMode (by omega), hend.openQueue (by omega), hend.commandQueue (by omega)⟩

/-- A write after a test is still queued at the exit. -/
theorem ExitTest.filled (hexit : ExitTest d acts d') (h : d.Invariant)
    (hlate : ¬ EachStep Daemon.act d acts fun m a _ => ¬ a.Late m) :
    d'.surv.openQueue.held ≠ [] ∨ d'.surv.commandQueue.held ≠ [] := by
  unfold EachStep at hlate
  push Not at hlate
  obtain ⟨pre, a, post, m, m', hacts, hpre, hact, ha⟩ := hlate
  have hm : m.Invariant := (h.run pre).post hpre
  have hrun := hexit.run
  rw [hacts] at hrun
  obtain ⟨m1, hm1, hrun⟩ := run_append.mp hrun
  obtain rfl := Except.ok.inj (hpre.symm.trans hm1)
  obtain ⟨m2, hm2, hrun⟩ := run_cons.mp hrun
  obtain rfl := Except.ok.inj (hact.symm.trans hm2)
  have honce : EachStep Daemon.act m' post fun _ _ x => x.pc ≠ .testShutting := by
    have hfull := hexit.once
    rw [hacts, List.append_cons] at hfull
    exact hfull.drop (run_concat.mpr ⟨m, hpre, hact⟩)
  have hpc := hexit.once pre a post m m' hacts hpre hact
  obtain ⟨-, -, hend⟩ := EachStep.invariant
    (P := fun x => x.Invariant ∧ x.pc ≠ .testShutting ∧ Filled x)
    (fun x b x' hx hc hb => ⟨hx.1.act_ok hb, hc, hx.2.2.act hx.1 hx.2.1 hb hc⟩) honce
    ⟨hm.act_ok hact, hpc, Daemon.late_filled hm ha hact⟩ hrun
  refine hend ?_
  rw [hexit.succeeds]
  decide

/-- Parsers that had started before the test do not write after the test of their queue. -/
theorem ExitTest.not_late (hexit : ExitTest d acts d') (h : d.Invariant)
    (hdisc : EachStep Daemon.act d acts fun m a _ => a.Disciplined m)
    (hopen : d.surv.processingOpencallSocket ≠ .notStarted)
    (hexec : d.surv.processingExeccallSocket ≠ .notStarted) :
    EachStep Daemon.act d acts fun m a _ => ¬ a.Late m := by
  intro pre a post m m' hacts hpre hact
  have hboth : EachStep Daemon.act d pre fun m a m' => m'.pc ≠ .testShutting ∧ a.Disciplined m := by
    intro pre' b post' x x' hpre' hx hb
    have hsplit : acts = pre' ++ b :: (post' ++ a :: post) := by
      rw [hacts, hpre']
      simp
    exact ⟨hexit.once _ _ _ _ _ hsplit hx hb, hdisc _ _ _ _ _ hsplit hx hb⟩
  have hbegin : Stopped d := by
    refine ⟨fun _ => ⟨hopen, hexec⟩, fun h3 => ?_, fun h4 => ?_⟩
    · rw [hexit.begins] at h3
      exact absurd h3 (by decide)
    · rw [hexit.begins] at h4
      exact absurd h4 (by decide)
  obtain ⟨-, hend⟩ := EachStep.invariant (P := fun m => m.Invariant ∧ Stopped m)
    (fun x b x' hx hc hb => ⟨hx.1.act_ok hb, hx.2.act hx.1 hb hc.1 hc.2⟩) hboth ⟨h, hbegin⟩ hpre
  exact hend.not_late (hdisc pre a post m m' hacts hpre hact)

/-- Every accepted event has been handed to the index. -/
def Daemon.HandedAll (d : Daemon) : Prop :=
  d.handedExecs = d.acceptedExecs ∧ d.handedOpens = d.acceptedOpens

theorem Flow.all_iff {α : Type} {accepted handed pending : List α} {queue : List (Option α)}
    (h : Flow accepted handed pending queue) : handed = accepted ↔ pending = [] ∧ queue = [] := by
  have hlen := congrArg List.length h
  simp only [List.length_append, List.length_map] at hlen
  constructor
  · intro heq
    rw [heq] at hlen
    refine ⟨List.length_eq_zero_iff.mp ?_, List.length_eq_zero_iff.mp ?_⟩ <;> omega
  · intro hboth
    unfold Flow at h
    rw [hboth.1, hboth.2, List.append_nil, List.append_nil] at h
    exact (List.map_injective_iff.mpr (Option.some_injective α) h).symm

/-- Outside of the two branches everything is handed over iff `compMode` is not set and the queues are
empty. -/
theorem Daemon.Invariant.handedAll_iff (h : d.Invariant) (hpc : d.pc.closing = true) :
    d.HandedAll ↔ d.compMode = false ∧ d.surv.openQueue.held = []
      ∧ d.surv.commandQueue.held = [] := by
  obtain ⟨hexec, hopen⟩ := d.pending_closing hpc
  obtain ⟨execs, opens, hd, hexecs, hopens⟩ := h.holds hexec hopen
  unfold Daemon.HandedAll
  rw [hd.execFlow.all_iff, hd.openFlow.all_iff]
  cases hcomp : d.compMode with
  | true =>
      rw [hcomp] at hexecs
      obtain ⟨e, -, rfl⟩ := hexecs.of_true
      constructor
      · exact fun hall => absurd hall.1.1 (List.cons_ne_nil _ _)
      · exact fun hall => absurd hall.1 (by decide)
  | false =>
      rw [hcomp] at hexecs hopens
      rw [hexecs.of_false, hopens.of_false]
      constructor
      · exact fun hall => ⟨rfl, hall.2.2, hall.1.2⟩
      · exact fun hall => ⟨⟨rfl, hall.2.2⟩, rfl, hall.2.1⟩

/-- **What is lost at the end of an exit test.** -/
theorem ExitTest.complete_iff (hexit : ExitTest d acts d') (h : d.Invariant)
    (hdisc : EachStep Daemon.act d acts fun m a _ => a.Disciplined m) :
    (d'.HandedAll ↔ d.compMode = false ∧ EachStep Daemon.act d acts fun m a _ => ¬ a.Late m)
    ∧ (d.surv.processingOpencallSocket ≠ .notStarted →
        d.surv.processingExeccallSocket ≠ .notStarted →
        (d'.HandedAll ↔ d.compMode = false)) := by
  have h' := (h.run acts).post hexit.run
  have hiff : d'.HandedAll
      ↔ d.compMode = false ∧ EachStep Daemon.act d acts fun m a _ => ¬ a.Late m := by
    rw [h'.handedAll_iff (by rw [hexit.succeeds]; rfl)]
    by_cases hlate : EachStep Daemon.act d acts fun m a _ => ¬ a.Late m
    · obtain ⟨hcomp, hopen, hcommand⟩ := hexit.emptied h hlate
      rw [hcomp]
      exact ⟨fun hall => ⟨hall.1, hlate⟩, fun hall => ⟨hall.1, hopen, hcommand⟩⟩
    · refine ⟨fun hall => ?_, fun hall => absurd hall.2 hlate⟩
      rcases hexit.filled h hlate with hopen | hcommand
      · exact absurd hall.2.1 hopen
      · exact absurd hall.2.2 hcommand
  refine ⟨hiff, fun hopen hexec => ?_⟩
  rw [hiff]
  exact ⟨fun hall => hall.1, fun hcomp => ⟨hcomp, hexit.not_late h hdisc hopen hexec⟩⟩

/-- A run that comes into the exit test has begun it. -/
theorem Daemon.Invariant.exit_begins (h : d.Invariant) (hd : d.pc.exitStage = 0) :
    ∀ {m : Daemon}, d.run acts = .ok m → 1 ≤ m.pc.exitStage →
      ∃ before after x, acts = before ++ after ∧ d.run before = .ok x ∧ x.pc = .testShutting
        ∧ x.run after = .ok m ∧ EachStep Daemon.act x after fun _ _ y => y.pc ≠ .testShutting := by
  induction acts using List.reverseRecOn with
  | nil =>
      intro m hrun hstage
      obtain rfl := run_nil.mp hrun
      omega
  | append_singleton acts a ih =>
      intro m hrun hstage
      obtain ⟨m1, hm1, hact⟩ := run_concat.mp hrun
      by_cases hpc : m.pc = .testShutting
      · -- the last of the beginnings
        refine ⟨acts ++ [a], [], m, (List.append_nil _).symm, hrun, hpc, run_nil.mpr rfl, ?_⟩
        intro pre b post x x' hnil
        exact absurd hnil.symm (List.append_ne_nil_of_right_ne_nil _ (List.cons_ne_nil _ _))
      · have hinv : m1.Invariant := (h.run acts).post hm1
        have hstage1 : 1 ≤ m1.pc.exitStage := by
          rcases Daemon.act_cases hinv hact hpc with htest | hzero | haside
          · exact htest.first
          · omega
          · rw [← haside.beside.pc]
            exact hstage
        obtain ⟨before, after, x, hacts, hbefore, hx, hafter, honce⟩ := ih hm1 hstage1
        refine ⟨before, after ++ [a], x, ?_, hbefore, hx, ?_, honce.concat hafter hact hpc⟩
        · rw [hacts, List.append_assoc]
        · exact run_concat.mpr ⟨m1, hafter, hact⟩

end Exit

/-- **What is lost at shutdown**: `d` is where the exit test begins that succeeds. -/
theorem exit_complete_iff {getMaxPID ownPID : Int} {bootTime : UInt32} {s : Surveiller}
    (h0 : survInit getMaxPID ownPID bootTime = .ok (some s)) {acts : List Act} {d' : Daemon}
    (hrun : (Daemon.initial s).run acts = .ok d') (hflush : d'.pc = .flush)
    (hdisc : EachStep Daemon.act (Daemon.initial s) acts fun m a _ => a.Disciplined m) :
    ∃ before after d, acts = before ++ after ∧ (Daemon.initial s).run before = .ok d
      ∧ ExitTest d after d'
      ∧ (d'.HandedAll ↔ d.compMode = false ∧ EachStep Daemon.act d after fun m a _ => ¬ a.Late m)
      ∧ (d.surv.processingOpencallSocket ≠ .notStarted →
          d.surv.processingExeccallSocket ≠ .notStarted →
          (d'.HandedAll ↔ d.compMode = false)) := by
  have hinit := Daemon.initial_invariant h0
  obtain ⟨before, after, d, hacts, hbefore, hd, hafter, honce⟩ :=
    hinit.exit_begins rfl hrun (by rw [hflush]; decide)
  have hexit : ExitTest d after d' := ⟨hd, hafter, hflush, honce⟩
  have hrest : EachStep Daemon.act d after fun m a _ => a.Disciplined m := by
    rw [hacts] at hdisc
    exact hdisc.drop hbefore
  exact ⟨before, after, d, hacts, hbefore, hexit,
    hexit.complete_iff ((hinit.run before).post hbefore) hrest⟩

/-- An execCall and an openCall are merged, and the execCall behind them is handed over with them; then
both parsers exit, the daemon is told to shut down, and the main thread takes three steps to the exit
test and five through it. -/
def mergedShutdown : List Act :=
  [.execSocket .running, .openSocket .running,
      .writeExec (.blank 1 9 ⟨1, 0⟩), .writeOpen (.blank 1 ⟨2, 0⟩), .writeExec (.blank 1 9 ⟨3, 0⟩)]
    ++ List.replicate 17 (.main .granting) ++ [.execSocket .exited, .openSocket .exited, .shutDown]
    ++ List.replicate 8 (.main .granting)

theorem exit_complete_sample :
    ∃ s d', survInit 10 1 0 = .ok (some s) ∧ (Daemon.initial s).run mergedShutdown = .ok d'
      ∧ d'.handedExecs = [0, 1] ∧ d'.handedOpens = [0]
      ∧ ∃ before after d, mergedShutdown = before ++ after ∧ ExitTest d after d'
        ∧ (d'.HandedAll
          ↔ d.compMode = false ∧ EachStep Daemon.act d after fun m a _ => ¬ a.Late m) := by
  have h0 : survInit 10 1 0 = .ok (some (.initial ⟨List.replicate 4 .null, 4, 10⟩ 0)) := by rfl
  obtain ⟨d', hrun, hflush, hexecs, hopens⟩ : ∃ d',
      (Daemon.initial (.initial ⟨List.replicate 4 .null, 4, 10⟩ 0)).run mergedShutdown = .ok d'
        ∧ d'.pc = .flush ∧ d'.handedExecs = [0, 1] ∧ d'.handedOpens = [0] :=
    ⟨_, by rfl, by rfl, by rfl, by rfl⟩
  have hdisc : EachStep Daemon.act (Daemon.initial (.initial ⟨List.replicate 4 .null, 4, 10⟩ 0))
      mergedShutdown fun m a _ => decide (a.Disciplined m) = true := EachStep.of_check (by rfl)
  obtain ⟨before, after, d, hacts, -, hexit, hiff, -⟩ := exit_complete_iff h0 hrun hflush
    fun pre a post m m' hsplit hpre hact =>
      of_decide_eq_true (hdisc pre a post m m' hsplit hpre hact)
  exact ⟨_, d', h0, hrun, hexecs, hopens, before, after, d, hacts, hexit, hiff⟩

/-- An execCall and an openCall are merged, a second execCall comes in time to be the next one, and
then both parsers exit and the daemon is told to shut down. -/
def overtakenShutdown : List Act :=
  [.execSocket .running, .openSocket .running] ++ enterMerge ++ [.writeExec (.blank 1 9 ⟨3, 0⟩)]
    ++ List.replicate 4 (.main .granting) ++ [.execSocket .exited, .openSocket .exited, .shutDown]
    ++ List.replicate 5 (.main .granting)

/-- **The loop leaves in `compMode`**: the second execCall and the openCall are never handed over. -/
theorem pending_calls_lost :
    ∃ s d', survInit 10 1 0 = .ok (some s) ∧ (Daemon.initial s).run overtakenShutdown = .ok d'
      ∧ EachStep Daemon.act (Daemon.initial s) overtakenShutdown
          (fun m a _ => decide (a.Disciplined m) = true)
      ∧ d'.pc = .flush ∧ d'.surv.processingExeccallSocket = .exited
      ∧ d'.surv.processingOpencallSocket = .exited ∧ d'.compMode = true ∧ ¬ d'.HandedAll := by
  have h0 : survInit 10 1 0 = .ok (some (.initial ⟨List.replicate 4 .null, 4, 10⟩ 0)) := by rfl
  obtain ⟨d', hrun, hflush, hexec, hopen, hcomp, hhanded, haccepted⟩ : ∃ d',
      (Daemon.initial (.initial ⟨List.replicate 4 .null, 4, 10⟩ 0)).run overtakenShutdown = .ok d'
        ∧ d'.pc = .flush ∧ d'.surv.processingExeccallSocket = .exited
        ∧ d'.surv.processingOpencallSocket = .exited ∧ d'.compMode = true
        ∧ d'.handedExecs = [0] ∧ d'.acceptedExecs = [0, 1] :=
    ⟨_, by rfl, by rfl, by rfl, by rfl, by rfl, by rfl, by rfl⟩
  refine ⟨_, d', h0, hrun, EachStep.of_check (by rfl), hflush, hexec, hopen, hcomp, fun hall => ?_⟩
  have heq := hall.1
  rw [hhanded, haccepted] at heq
  exact absurd heq (by decide)

end DirSurveiller
