/-
  DirSurveiller.Daemon.SortedMerge — the order in which the event loop empties two queues.

  While no parser writes, the calls in the two queues are handed over in the order of their stable merge.
  Whether the loop comes to the end of it depends on the exit test: it looks at the queues, and not at
  the two calls that the merge has taken from them.

  Main result:
    * `sorted_merge_iff` — the runs that hand over all calls in the order of the stable merge.
-/
import DirSurveiller.Daemon.Draining

namespace DirSurveiller

open CMachine Outcome

/-! ## §1. The end of the merge. -/

namespace Daemon

/-- The main thread reads the last of the three flags of the exit test, and finds that all of them
allow it to leave, with both queues empty and two calls pending. -/
structure Overtaken (d : Daemon) : Prop where
  pc : d.pc = .testExecSocket
  compMode : d.compMode = true
  command : d.surv.commandQueue.held = []
  opens : d.surv.openQueue.held = []
  socket : d.surv.processingExeccallSocket ≠ .running

/-- How many steps there are at most to the next hand-over, while calls are left and the loop is not
left. -/
def dist (d : Daemon) : Nat :=
  match d.pc, d.compMode with
  | .top, true => 1
  | .readBothOpen, _ => 2
  | .readBothExec, _ => 3
  | .sizeOpen, _ => 4
  | .sizeExec, _ => 5
  | .top, false => 6
  | .dispatch, _ => 7
  | .flush, _ => 8
  | .testCommandQueue, _ => 9
  | .testOpenQueue, _ => 10
  | .testExecSocket, _ => 11
  | .testOpenSocket, _ => 12
  | .testShutting, _ => 13
  | .readNext, _ => 14
  | .hasNext, _ => 15
  | _, _ => 0

/-- The loop goes on: the exit test has not succeeded, nor will it with the two calls of the merge
pending. -/
structure Underway (d : Daemon) : Prop where
  dead : d.dead = false
  flush : d.pc ≠ .flush
  done : d.pc ≠ .done
  exit : d.pc = .testOpenQueue ∨ d.pc = .testCommandQueue → d.compMode = true →
    d.surv.commandQueue.held = [] → d.surv.openQueue.held ≠ []

/-- The exit test has succeeded with the two calls of the merge pending, or is bound to. -/
def Doomed (d : Daemon) : Prop :=
  d.compMode = true ∧
    match d.pc with
    | .testOpenQueue => d.surv.openQueue.held = [] ∧ d.surv.commandQueue.held = []
    | .testCommandQueue => d.surv.commandQueue.held = []
    | .flush | .dispatch => d.dead = true
    | .done => True
    | _ => False

section End

variable {d d' : Daemon} {a : Act}

theorem dist_le (d : Daemon) : d.dist ≤ 15 := by
  unfold dist
  split <;> omega

theorem Underway.of_pc (hdead : d.dead = false)
    (hpc : d.pc ∉ [Pc.flush, .done, .testOpenQueue, .testCommandQueue]) : d.Underway := by
  simp only [List.mem_cons, List.not_mem_nil, or_false, not_or] at hpc
  refine ⟨hdead, hpc.1, hpc.2.1, ?_⟩
  intro htest
  rcases htest with htest | htest
  · exact absurd htest hpc.2.2.1
  · exact absurd htest hpc.2.2.2

/-- Outside of the merge, with empty queues, nothing is left. -/
theorem Invariant.left_zero (h : d.Invariant) (hcomp : d.compMode = false)
    (hpc : d.pc ∉ [Pc.hasNext, .readNext, .handOther, .readBothOpen])
    (hcommand : d.surv.commandQueue.held = []) (hopens : d.surv.openQueue.held = []) :
    d.left = 0 := by
  have hexec := h.execsLeft_idle ((d.execPending_eq hpc).trans hcomp)
  have hopen := h.opensLeft_idle
    ((d.openPending_eq fun hin => hpc (by simp at hin ⊢; tauto)).trans hcomp)
  rw [hcommand, List.map_eq_nil_iff] at hexec
  rw [hopens, List.map_eq_nil_iff] at hopen
  unfold left
  rw [hexec, hopen]
  rfl

/-- **A step comes closer** to the next hand-over, or hands a call over. -/
theorem Goes.closer (hg : d.Goes d') (h : d.Invariant) (hf : d.Foreseen) (hu : d.Underway)
    (hleft : d.left ≠ 0) (hnot : ¬ d.Overtaken) :
    d'.Underway ∧ (d.pc.hands = false → d'.dist < d.dist) := by
  cases hg with
  | top hpc hpc' hdead hcomp =>
      refine ⟨.of_pc (hdead.trans hu.dead) (by rw [hpc']; cases d.compMode <;> decide), fun _ => ?_⟩
      unfold dist
      rw [hpc, hpc', hcomp]
      cases d.compMode <;> decide
  | hands hpc hpc' hdead =>
      refine ⟨.of_pc (hdead.trans hu.dead) ?_, fun hno => ?_⟩
      · rcases hpc' with hpc' | hpc' <;> rw [hpc'] <;> decide
      · rw [hpc] at hno
        cases hno
  | next hpc hpc' hdead | other hpc hpc' hdead | readNext hpc hpc' hdead | sizeExec hpc hpc' hdead
  | both hpc hpc' hdead | openOnly hpc hpc' hdead | execOnly hpc hpc' hdead
  | readBothExec hpc hpc' hdead | shutting hpc hpc' hdead | openSocket hpc hpc' hdead =>
      refine ⟨.of_pc (hdead.trans hu.dead) (by rw [hpc']; decide), fun _ => ?_⟩
      unfold dist
      rw [hpc, hpc']
      exact Nat.le_of_ble_eq_true rfl
  | neither hpc hpc' hdead hopens hready =>
      -- both queues have been found empty
      unfold Foreseen at hf
      rw [hpc] at hf
      have hloc := h.located
      rw [Located, hpc] at hloc
      exact absurd (h.left_zero hloc.1 (by rw [hpc]; decide) (hf hready) hopens) hleft
  | readBothOpen hpc hpc' hcomp hdead =>
      refine ⟨.of_pc (hdead.trans hu.dead) (by rw [hpc']; decide), fun _ => ?_⟩
      unfold dist
      rw [hpc, hpc', hcomp]
      exact Nat.le_of_ble_eq_true rfl
  | execSocket hpc hpc' hdead hsurv hcomp hsocket =>
      constructor
      · refine ⟨hdead.trans hu.dead, by rw [hpc']; decide, by rw [hpc']; decide, ?_⟩
        rw [hcomp, hsurv]
        -- with two calls pending and both queues empty, this is the step that is excluded
        intro _ hmerging hcommand hopens
        exact hnot ⟨hpc, hmerging, hcommand, hopens, hsocket⟩
      · intro _
        unfold dist
        rw [hpc, hpc']
        exact Nat.le_of_ble_eq_true rfl
  | openQueue hpc hpc' hdead hsurv hcomp hopens =>
      constructor
      · refine ⟨hdead.trans hu.dead, by rw [hpc']; decide, by rw [hpc']; decide, ?_⟩
        rw [hcomp, hsurv]
        intro _
        exact hu.exit (.inl hpc)
      · intro _
        unfold dist
        rw [hpc, hpc']
        exact Nat.le_of_ble_eq_true rfl
  | commandQueue hpc hpc' hdead hcomp hcommand =>
      unfold Foreseen at hf
      rw [hpc] at hf
      -- the test succeeds: in the merge it could not, and outside of it nothing would be left
      cases hmerging : d.compMode with
      | true => exact absurd hf (hu.exit (.inr hpc) hmerging hcommand)
      | false => exact absurd (h.left_zero hmerging (by rw [hpc]; decide) hcommand hf) hleft
  | stays hpc hpc' hdead =>
      refine ⟨.of_pc (hdead hu.dead) (by rw [hpc']; decide), fun _ => ?_⟩
      unfold dist
      rw [hpc']
      rcases hpc with hpc | hpc | hpc | ⟨hpc, -⟩ | ⟨hpc, -⟩ <;> rw [hpc] <;>
        exact Nat.le_of_ble_eq_true rfl
  | flush hpc => exact absurd hpc hu.flush
  | dispatch hpc hpc' hdead hcomp =>
      rw [hu.dead] at hpc'
      replace hpc' : d'.pc = .top := hpc'
      refine ⟨.of_pc (hdead.trans hu.dead) (by rw [hpc']; decide), fun _ => ?_⟩
      unfold dist
      rw [hpc, hpc']
      cases d'.compMode <;> exact Nat.le_of_ble_eq_true rfl
  | done hpc => exact absurd hpc hu.done

/-- What is bound to be lost stays so. -/
theorem Goes.doomed (hg : d.Goes d') (h : d.Doomed) : d'.Doomed := by
  obtain ⟨hcomp, hplace⟩ := h
  -- only behind the last flag of the exit test is a daemon doomed: the other places are excluded
  cases hg with
  | hands hpc =>
      cases hd : d.pc <;> rw [hd] at hpc hplace <;> first | exact hplace.elim | cases hpc
  | top hpc | next hpc | other hpc | readNext hpc | sizeExec hpc | both hpc | openOnly hpc
  | execOnly hpc | neither hpc | readBothExec hpc | readBothOpen hpc | shutting hpc
  | openSocket hpc | execSocket hpc =>
      rw [hpc] at hplace
      exact hplace.elim
  | openQueue hpc hpc' _ hsurv hsame =>
      rw [hpc] at hplace
      refine ⟨hsame.trans hcomp, ?_⟩
      rw [hpc', hsurv]
      exact hplace.2
  | commandQueue hpc hpc' hdead hsame =>
      refine ⟨hsame.trans hcomp, ?_⟩
      rw [hpc']
      exact hdead
  | stays hpc =>
      rcases hpc with hpc | hpc | hpc | ⟨hpc, hne⟩ | ⟨hpc, hne⟩ <;> rw [hpc] at hplace
      · exact hplace.elim
      · exact hplace.elim
      · exact hplace.elim
      · exact absurd hplace.1 hne
      · exact absurd hplace hne
  | flush hpc hpc' hdead hsame =>
      rw [hpc] at hplace
      refine ⟨hsame.trans hcomp, ?_⟩
      rw [hpc']
      exact hdead.trans hplace
  | dispatch hpc hpc' hdead hsame =>
      rw [hpc] at hplace
      replace hplace : d.dead = true := hplace
      refine ⟨hsame.trans hcomp, ?_⟩
      rw [hpc', hplace]
      trivial
  | done hpc hpc' hsame =>
      refine ⟨hsame.trans hcomp, ?_⟩
      rw [hpc']
      trivial

/-- **The slip**: the last flag of the exit test is read, and two calls are lost. -/
theorem Overtaken.doomed {env : MainEnv} (h : d.Overtaken) (hrun : d.mainStep env = .ok d') :
    d'.Doomed := by
  rw [Daemon.mainStep, h.pc] at hrun
  cases hrun
  rw [decide_eq_true h.socket]
  exact ⟨h.compMode, h.opens, h.command⟩

theorem Flagged.doomed (hf : Flagged d d') (h : d.Doomed) : d'.Doomed := by
  obtain ⟨shutting, execSocket, openSocket, rfl⟩ := hf
  exact h

theorem Flagged.underway (hf : Flagged d d') (hu : d.Underway) :
    d'.Underway ∧ d'.dist = d.dist := by
  obtain ⟨shutting, execSocket, openSocket, rfl⟩ := hf
  exact ⟨⟨hu.dead, hu.flush, hu.done, hu.exit⟩, rfl⟩

/-- Two calls are never handed over. -/
theorem Doomed.left_ne_zero (h : d.Doomed) (hinv : d.Invariant) : d.left ≠ 0 := by
  obtain ⟨hcomp, hplace⟩ := h
  have hpc : d.pc ∉ [Pc.hasNext, .readNext, .handOther, .readBothOpen] := by
    intro hin
    cases hd : d.pc <;> rw [hd] at hin hplace <;>
      first
        | exact hplace.elim
        | exact absurd hin (by decide)
  obtain ⟨e, rest, -, hleft, -⟩ := hinv.execsLeft_pending ((d.execPending_eq hpc).trans hcomp)
  unfold left
  rw [hleft, List.length_cons]
  omega

/-- What is lost stays lost. -/
theorem Doomed.run {acts : List Act} (h : d.Doomed) (hquiet : ∀ a ∈ acts, a.Quiet)
    (hrun : d.run acts = .ok d') : d'.Doomed := by
  have hcond : EachStep Daemon.act d acts fun _ a _ => a.Quiet := by
    intro pre a post m m' hacts _ _
    exact hquiet a (by rw [hacts]; simp)
  refine EachStep.invariant ?_ hcond h hrun
  intro m a m' hm hq hact
  cases hmain : a.isMain with
  | true =>
      cases a with
      | main env => exact (mainStep_goes hact).doomed hm
      | _ => cases hmain
  | false => exact (act_flagged hq hmain hact).doomed hm

/-- The main thread does not step where it is overtaken. -/
def NeverOvertaken (d : Daemon) (acts : List Act) : Prop :=
  EachStep Daemon.act d acts fun m a _ => a.isMain = true → ¬ m.Overtaken

/-- **Progress**: every step of the main thread is paid for, by a hand-over or by coming closer to
one. -/
theorem Draining.progress {d0 : Daemon} (h0 : d0.Invariant) : ∀ {acts : List Act} {d d' : Daemon}
    {l : List QueuedCall}, Draining d0 d → d.Underway → (∀ a ∈ acts, a.Quiet) →
      d.NeverOvertaken acts → d.handing acts = .ok (l, d') →
      d'.left = 0 ∨ acts.countP Act.isMain + (16 * d'.left + d'.dist) ≤ 16 * d.left + d.dist := by
  intro acts
  induction acts with
  | nil =>
      intro d d' l _ _ _ _ hrun
      cases hrun
      exact .inr (by rw [List.countP_nil]; omega)
  | cons a acts ih =>
      intro d d' l h hu hquiet hnever hrun
      have hall := h.handing h0 hquiet hrun
      have hshort : d'.left ≤ d.left := by
        rw [← mergeLeft_length d0 d, ← mergeLeft_length d0 d', hall.2, List.length_append]
        omega
      -- once nothing is left, nothing comes back
      by_cases hzero : d.left = 0
      · exact .inl (by omega)
      obtain ⟨m, hact, hrun⟩ := bind_ok hrun
      obtain ⟨⟨later, last⟩, hlater, hrun⟩ := bind_ok hrun
      cases hrun
      have hrest : m.NeverOvertaken acts :=
        EachStep.drop (show EachStep Daemon.act d ([a] ++ acts) _ from hnever)
          (run_one.mpr hact)
      have hquiet' : ∀ x ∈ acts, x.Quiet := fun x hx => hquiet x (List.mem_cons_of_mem _ hx)
      cases hmain : a.isMain with
      | true =>
          rw [List.countP_cons_of_pos hmain]
          have hnot := hnever [] a acts d m rfl (run_nil.mpr rfl) hact hmain
          cases a with
          | main env =>
              obtain ⟨hm, hadvances, hsince⟩ := h.mainStep h0 hact
              have hleft := hadvances.left
              obtain ⟨hum, hcloser⟩ := (mainStep_goes hact).closer h.invariant h.foreseen hu hzero hnot
              -- a hand-over pays sixteen, and the distance is less than that
              have hpaid : 16 * m.left + m.dist + 1 ≤ 16 * d.left + d.dist := by
                cases hhands : d.pc.hands with
                | true =>
                    rw [hhands] at hsince
                    replace hsince : (d.handedSince m).length = 1 := hsince
                    have hfar := m.dist_le
                    omega
                | false =>
                    have hlt := hcloser hhands
                    omega
              rcases ih hm hum hquiet' hrest hlater with hdone | hbound
              · exact .inl hdone
              · exact .inr (by omega)
          | _ => cases hmain
      | false =>
          rw [List.countP_cons_of_neg (by rw [hmain]; decide)]
          have hf := act_flagged (hquiet a List.mem_cons_self) hmain hact
          obtain ⟨hm, hadvances, hsince⟩ := h.flagged hf
          have hleft := hadvances.left
          rw [hsince] at hleft
          obtain ⟨hum, hdist⟩ := hf.underway hu
          replace hleft : d.left = m.left := hleft.trans (Nat.zero_add _)
          rw [hleft, ← hdist]
          exact ih hm hum hquiet' hrest hlater

end End

end Daemon

/-! ## §2. The runs that drain both queues. -/

/-- **The two queues are drained in the order of their stable merge** iff the main thread is never
overtaken. -/
theorem sorted_merge_iff {getMaxPID ownPID : Int} {bootTime : UInt32} {s : Surveiller}
    (h0 : survInit getMaxPID ownPID bootTime = .ok (some s)) {before : List Act} {d : Daemon}
    (hbefore : (Daemon.initial s).run before = .ok d) (hbegins : d.Begins)
    {execs : List ExecRef} {opens : List OpenRef}
    (hexecs : d.surv.commandQueue.held = execs.map some)
    (hopens : d.surv.openQueue.held = opens.map some)
    (hsorted : (execs.map QueuedCall.exec).Pairwise fun a b => d.surv.notAfter a b = true)
    (hsortedOpen : (opens.map QueuedCall.opened).Pairwise fun a b => d.surv.notAfter a b = true)
    {acts : List Act} (hquiet : ∀ a ∈ acts, a.Quiet)
    (hlong : 16 * (execs.length + opens.length + 1) ≤ acts.countP Act.isMain)
    {handed : List QueuedCall} {d' : Daemon} (hrun : d.handing acts = .ok (handed, d')) :
    HandsMerged d.surv execs opens handed ↔ d.NeverOvertaken acts := by
  have hinv := ((Daemon.initial_invariant h0).run before).post hbefore
  have hstart := hbegins.draining hinv
  obtain ⟨hend, horder⟩ := hstart.handing hinv hquiet hrun
  -- nothing is pending at the beginning
  have hexecsLeft : d.execsLeft = execs := by
    have hidle := hinv.execsLeft_idle ((d.execPending_eq (by rw [hbegins.pc]; decide)).trans
      hbegins.compMode)
    rw [hexecs] at hidle
    exact List.map_injective_iff.mpr (Option.some_injective _) hidle
  have hopensLeft : d.opensLeft = opens := by
    have hidle := hinv.opensLeft_idle ((d.openPending_eq (by rw [hbegins.pc]; decide)).trans
      hbegins.compMode)
    rw [hopens] at hidle
    exact List.map_injective_iff.mpr (Option.some_injective _) hidle
  have hmerge : d.mergeLeft d = d.surv.merged execs opens := by
    unfold Daemon.mergeLeft
    rw [hexecsLeft, hopensLeft]
  rw [hmerge] at horder
  have hlength := Daemon.mergeLeft_length d d'
  constructor
  · intro hhands pre a post m m' hacts hpre hact hmain hovertaken
    have hnil : d.mergeLeft d' = [] := by
      rw [hhands.merge] at horder
      exact List.self_eq_append_right.mp horder
    rw [hnil] at hlength
    -- an overtaken step would have left two calls behind
    have hrest : m'.run post = .ok d' := by
      have hall := Daemon.handing_run hrun
      rw [hacts, Daemon.run, run_append] at hall
      obtain ⟨x, hx, hall⟩ := hall
      rw [run_cons] at hall
      obtain ⟨y, hy, hall⟩ := hall
      have hsame : m = x := Except.ok.inj (hpre.symm.trans hx)
      subst hsame
      have hsame : m' = y := Except.ok.inj (hact.symm.trans hy)
      subst hsame
      exact hall
    have hdoomed : m'.Doomed := by
      cases a with
      | main env => exact hovertaken.doomed hact
      | _ => cases hmain
    have hlost := hdoomed.run (fun x hx => hquiet x (by rw [hacts]; simp [hx])) hrest
    exact hlost.left_ne_zero hend.invariant hlength.symm
  · intro hnever
    have hunder : d.Underway := .of_pc hbegins.dead (by rw [hbegins.pc]; decide)
    have hleft : d.left = execs.length + opens.length := by
      unfold Daemon.left
      rw [hexecsLeft, hopensLeft]
    have hdist := d.dist_le
    have hzero : d'.left = 0 := by
      rcases hstart.progress hinv hunder hquiet hnever hrun with hdone | hbound
      · exact hdone
      · omega
    rw [hzero] at hlength
    rw [List.length_eq_zero_iff.mp hlength, List.append_nil] at horder
    rw [← horder]
    exact Surveiller.merged_sorted hsorted hsortedOpen

/-- Two execCalls and an openCall wait, and both parsers have exited. -/
def threeCalls (first second third : Timeval) : List Act :=
  [.execSocket .running, .openSocket .running, .writeExec (.blank 1 9 first),
    .writeExec (.blank 2 9 second), .writeOpen (.blank 1 third), .execSocket .exited,
    .openSocket .exited]

/-- The openCall is between the two execCalls, and nobody shuts the daemon down. -/
theorem sorted_merge_sample :
    ∃ s d handed d', survInit 10 1 0 = .ok (some s)
      ∧ (Daemon.initial s).run (threeCalls ⟨1, 0⟩ ⟨3, 0⟩ ⟨2, 0⟩) = .ok d
      ∧ d.handing (List.replicate 64 (.main .granting)) = .ok (handed, d')
      ∧ handed = [.exec 0, .opened 0, .exec 1]
      ∧ (HandsMerged d.surv [0, 1] [0] handed
        ↔ d.NeverOvertaken (List.replicate 64 (.main .granting))) := by
  have h0 : survInit 10 1 0 = .ok (some (.initial ⟨List.replicate 4 .null, 4, 10⟩ 0)) := by rfl
  obtain ⟨d, hbefore, hpc, hdead, hcomp, hready, hcommand, hopens, hfirst, hsecond⟩ : ∃ d,
      (Daemon.initial (.initial ⟨List.replicate 4 .null, 4, 10⟩ 0)).run
        (threeCalls ⟨1, 0⟩ ⟨3, 0⟩ ⟨2, 0⟩) = .ok d
        ∧ d.pc = .top ∧ d.dead = false ∧ d.compMode = false ∧ d.readyCalls = false
        ∧ d.surv.commandQueue.held = [some 0, some 1] ∧ d.surv.openQueue.held = [some 0]
        ∧ d.surv.notAfter (.exec 0) (.exec 1) = true
        ∧ ∃ d', d.handing (List.replicate 64 (.main .granting))
          = .ok ([.exec 0, .opened 0, .exec 1], d') :=
    ⟨_, by rfl, by rfl, by rfl, by rfl, by rfl, by rfl, by rfl, by rfl, _, by rfl⟩
  obtain ⟨d', hrun⟩ := hsecond
  replace hcommand : d.surv.commandQueue.held = [0, 1].map some := hcommand
  replace hopens : d.surv.openQueue.held = [0].map some := hopens
  refine ⟨_, d, _, d', h0, hbefore, hrun, rfl, sorted_merge_iff h0 hbefore
    ⟨hpc, hdead, hcomp, hready⟩ hcommand hopens ?_ (List.pairwise_singleton _ _) ?_ ?_ hrun⟩
  · exact List.pairwise_pair.mpr hfirst
  · intro a ha
    rw [List.eq_of_mem_replicate ha]
    trivial
  · exact Nat.le_of_ble_eq_true rfl

/-- **The last two calls are lost**: the openCall is the last, and the daemon is told to shut down. -/
theorem sorted_merge_lost :
    ∃ s d handed d', survInit 10 1 0 = .ok (some s)
      ∧ (Daemon.initial s).run (threeCalls ⟨1, 0⟩ ⟨2, 0⟩ ⟨3, 0⟩ ++ [.shutDown]) = .ok d
      ∧ d.Begins ∧ d.surv.commandQueue.held = [some 0, some 1]
      ∧ d.surv.openQueue.held = [some 0] ∧ d.surv.notAfter (.exec 0) (.exec 1) = true
      ∧ d.handing (List.replicate 64 (.main .granting)) = .ok (handed, d')
      ∧ d'.pc = .done ∧ ¬ HandsMerged d.surv [0, 1] [0] handed := by
  have h0 : survInit 10 1 0 = .ok (some (.initial ⟨List.replicate 4 .null, 4, 10⟩ 0)) := by rfl
  obtain ⟨d, hbefore, hbegins, hcommand, hopens, hsorted, d', hrun, hdone⟩ : ∃ d,
      (Daemon.initial (.initial ⟨List.replicate 4 .null, 4, 10⟩ 0)).run
        (threeCalls ⟨1, 0⟩ ⟨2, 0⟩ ⟨3, 0⟩ ++ [.shutDown]) = .ok d
        ∧ d.Begins ∧ d.surv.commandQueue.held = [some 0, some 1]
        ∧ d.surv.openQueue.held = [some 0] ∧ d.surv.notAfter (.exec 0) (.exec 1) = true
        ∧ ∃ d', d.handing (List.replicate 64 (.main .granting)) = .ok ([.exec 0], d')
          ∧ d'.pc = .done :=
    ⟨_, by rfl, ⟨by rfl, by rfl, by rfl, by rfl⟩, by rfl, by rfl, by rfl, _, by rfl, by rfl⟩
  refine ⟨_, d, _, d', h0, hbefore, hbegins, hcommand, hopens, hsorted, hrun, hdone, ?_⟩
  intro hhands
  have hexecs := hhands.execs
  exact absurd hexecs (by decide)

end DirSurveiller
