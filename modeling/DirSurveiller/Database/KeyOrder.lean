/-
  DirSurveiller.Database.KeyOrder — the comparator of the exec database is a total order.

  Berkeley DB keeps the exec calls in a B-tree whose keys `db_execCall_KeyComp` compares, and it may
  hand it an empty key.  The pid of a stored key has passed the range check of `procindex_add`.

    * `keyComp_totalOrder` — empty keys first, the others by time stamp and pid, padding ignored.
-/
import Mathlib
import DirSurveiller.Database.Records
import DirSurveiller.Index.Procindex
import DirSurveiller.Lib.Comparator

namespace DirSurveiller

open CMachine Outcome

/-! ## §1. The comparator. -/

/-- `db_execCall_KeyComp`; `none` is a key of size 0.  The difference of the pids is an `int`. -/
def dbExecCallKeyCompDbt (key1 key2 : Option DbECallKey) : Except Fault Int :=
  match key2 with
  | none => .ok (if key1.isSome then 1 else 0)
  | some eCallKey2 =>
      match key1 with
      | none => .ok (-1)
      | some eCallKey1 =>
          let ret : Int := (if timercmpLt eCallKey2.timeStamp eCallKey1.timeStamp then 1 else 0)
            - (if timercmpLt eCallKey1.timeStamp eCallKey2.timeStamp then 1 else 0)
          if ret = 0 then toInt (eCallKey1.pid.toInt - eCallKey2.pid.toInt) else .ok ret

/-- A key with a pid from 0 to `pid_max`, or an empty one. -/
def ValidKey (pidMax : Int32) (key : Option DbECallKey) : Prop :=
  ∀ eCallKey, key = some eCallKey → 0 ≤ eCallKey.pid.toInt ∧ eCallKey.pid.toInt ≤ pidMax.toInt

/-- Seconds, microseconds, pid. -/
def DbECallKey.rank (key : DbECallKey) : ℤ ×ₗ ℤ ×ₗ ℤ :=
  toLex (key.timeStamp.tvSec.toInt, toLex (key.timeStamp.tvUsec.toInt, key.pid.toInt))

/-- Empty keys stand below all others. -/
def keyRank : Option DbECallKey → WithBot (ℤ ×ₗ ℤ ×ₗ ℤ)
  | none => ⊥
  | some key => (key.rank : WithBot (ℤ ×ₗ ℤ ×ₗ ℤ))

/-! ## §2. Its sign. -/

section Sign

variable {key1 key2 : DbECallKey}

/-- Ranks compare field by field. -/
theorem rank_lt_iff :
    key1.rank < key2.rank ↔ key1.timeStamp.tvSec.toInt < key2.timeStamp.tvSec.toInt
      ∨ key1.timeStamp.tvSec.toInt = key2.timeStamp.tvSec.toInt
        ∧ (key1.timeStamp.tvUsec.toInt < key2.timeStamp.tvUsec.toInt
          ∨ key1.timeStamp.tvUsec.toInt = key2.timeStamp.tvUsec.toInt
            ∧ key1.pid.toInt < key2.pid.toInt) := by
  unfold DbECallKey.rank
  rw [Prod.Lex.toLex_lt_toLex]
  dsimp only
  rw [Prod.Lex.toLex_lt_toLex]

theorem rank_eq_iff :
    key1.rank = key2.rank ↔ key1.timeStamp = key2.timeStamp ∧ key1.pid = key2.pid := by
  obtain ⟨⟨s1, u1⟩, p1, d1⟩ := key1
  obtain ⟨⟨s2, u2⟩, p2, d2⟩ := key2
  unfold DbECallKey.rank
  simp only [EmbeddingLike.apply_eq_iff_eq, Prod.mk.injEq, Int64.toInt_inj, Int32.toInt_inj,
    Timeval.mk.injEq, and_assoc]

/-- The sign of the comparator is the order of the ranks. -/
theorem keyComp_sign :
    (dbExecCallKeyComp key1 key2 < 0 ↔ key1.rank < key2.rank)
      ∧ (0 < dbExecCallKeyComp key1 key2 ↔ key2.rank < key1.rank) := by
  obtain ⟨⟨s1, u1⟩, p1, d1⟩ := key1
  obtain ⟨⟨s2, u2⟩, p2, d2⟩ := key2
  rw [rank_lt_iff, rank_lt_iff]
  simp only [dbExecCallKeyComp, timercmpLt, Int64.lt_iff_toInt_lt, ← Int64.toInt_inj]
  grind

/-- Between pids in range the difference is an `int`, and the comparator is the one the lookups
use. -/
theorem keyCompDbt_some (h1 : 0 ≤ key1.pid.toInt) (h2 : 0 ≤ key2.pid.toInt) :
    dbExecCallKeyCompDbt (some key1) (some key2) = .ok (dbExecCallKeyComp key1 key2) := by
  have hmax : Int32.maxValue.toInt = 2147483647 := rfl
  have hle1 := key1.pid.toInt_le
  have hle2 := key2.pid.toInt_le
  have hint : toInt (key1.pid.toInt - key2.pid.toInt) = .ok (key1.pid.toInt - key2.pid.toInt) := by
    rw [toInt_eq_ok]
    exact ⟨rfl, by omega, by omega⟩
  unfold dbExecCallKeyCompDbt dbExecCallKeyComp
  dsimp only
  rw [hint]
  exact (apply_ite Except.ok _ _ _).symm

end Sign

/-- **The comparator ranks** keys by `keyRank`. -/
theorem keyComp_ranks (pidMax : Int32) :
    Comparator.Ranks (ValidKey pidMax) keyRank dbExecCallKeyCompDbt where
  answers := by
    intro key1 key2 h1 h2
    cases key2 with
    | none => exact ⟨_, rfl⟩
    | some k2 =>
        cases key1 with
        | none => exact ⟨_, rfl⟩
        | some k1 => exact ⟨_, keyCompDbt_some (h1 k1 rfl).1 (h2 k2 rfl).1⟩
  lt := by
    intro key1 key2 r h1 h2 hr
    cases key2 with
    | none =>
        -- nothing stands below the empty key
        have hpos : 0 ≤ r := by
          rw [← Except.ok.inj hr]
          split <;> decide
        show r < 0 ↔ keyRank key1 < ⊥
        simp only [not_lt_bot, iff_false]
        omega
    | some k2 =>
        cases key1 with
        | none =>
            rw [← Except.ok.inj hr]
            exact iff_of_true (by decide) (WithBot.bot_lt_coe _)
        | some k1 =>
            rw [keyCompDbt_some (h1 k1 rfl).1 (h2 k2 rfl).1] at hr
            rw [← Except.ok.inj hr, keyComp_sign.1]
            exact WithBot.coe_lt_coe.symm
  gt := by
    intro key1 key2 r h1 h2 hr
    cases key1 with
    | none =>
        -- the comparator answers 0 or -1
        have hneg : r ≤ 0 := by
          cases key2 with
          | none => exact le_of_eq (Except.ok.inj hr).symm
          | some k2 =>
              rw [← Except.ok.inj hr]
              decide
        show 0 < r ↔ keyRank key2 < ⊥
        simp only [not_lt_bot, iff_false]
        omega
    | some k1 =>
        cases key2 with
        | none =>
            have hone : (1 : Int) = r := Except.ok.inj hr
            rw [← hone]
            exact iff_of_true (by decide) (WithBot.bot_lt_coe _)
        | some k2 =>
            rw [keyCompDbt_some (h1 k1 rfl).1 (h2 k2 rfl).1] at hr
            rw [← Except.ok.inj hr, keyComp_sign.2]
            exact WithBot.coe_lt_coe.symm

/-- The two keys are empty, or have the same time stamp and pid. -/
def KeysEqual (key1 key2 : Option DbECallKey) : Prop :=
  (key1 = none ∧ key2 = none) ∨ ∃ k1 k2, key1 = some k1 ∧ key2 = some k2
    ∧ k1.timeStamp = k2.timeStamp ∧ k1.pid = k2.pid

/-- An empty key before one that is not; otherwise by seconds, then microseconds, then pid. -/
def KeyBefore (key1 key2 : Option DbECallKey) : Prop :=
  (key1 = none ∧ key2 ≠ none) ∨ ∃ k1 k2, key1 = some k1 ∧ key2 = some k2
    ∧ (k1.timeStamp.tvSec < k2.timeStamp.tvSec
      ∨ k1.timeStamp.tvSec = k2.timeStamp.tvSec
        ∧ (k1.timeStamp.tvUsec < k2.timeStamp.tvUsec
          ∨ k1.timeStamp.tvUsec = k2.timeStamp.tvUsec ∧ k1.pid < k2.pid))

theorem keyRank_eq_iff {key1 key2 : Option DbECallKey} :
    keyRank key1 = keyRank key2 ↔ KeysEqual key1 key2 := by
  unfold KeysEqual
  cases key1 with
  | none =>
      cases key2 with
      | none => exact iff_of_true rfl (.inl ⟨rfl, rfl⟩)
      | some k2 => exact iff_of_false (WithBot.bot_ne_coe) (by simp)
  | some k1 =>
      cases key2 with
      | none => exact iff_of_false (WithBot.coe_ne_bot) (by simp)
      | some k2 =>
          show (k1.rank : WithBot (ℤ ×ₗ ℤ ×ₗ ℤ)) = k2.rank ↔ _
          rw [WithBot.coe_inj, rank_eq_iff]
          simp

theorem keyRank_lt_iff {key1 key2 : Option DbECallKey} :
    keyRank key1 < keyRank key2 ↔ KeyBefore key1 key2 := by
  unfold KeyBefore
  cases key2 with
  | none =>
      show keyRank key1 < ⊥ ↔ _
      simp
  | some k2 =>
      cases key1 with
      | none => exact iff_of_true (WithBot.bot_lt_coe _) (by simp)
      | some k1 =>
          show (k1.rank : WithBot (ℤ ×ₗ ℤ ×ₗ ℤ)) < k2.rank ↔ _
          rw [WithBot.coe_lt_coe, rank_lt_iff]
          simp [Int64.lt_iff_toInt_lt, Int32.lt_iff_toInt_lt, Int64.toInt_inj]

/-- **The exec key comparator is a total order**: no subtraction overflows, the laws hold for any
keys, empty keys sort first and the others lexicographically. -/
theorem keyComp_totalOrder (pidMax : Int32) :
    Comparator.TotalOrder (ValidKey pidMax) dbExecCallKeyCompDbt
    ∧ ∀ {key1 key2 : Option DbECallKey} {r : Int}, ValidKey pidMax key1 → ValidKey pidMax key2 →
        dbExecCallKeyCompDbt key1 key2 = .ok r →
        (r = 0 ↔ KeysEqual key1 key2) ∧ (r < 0 ↔ KeyBefore key1 key2)
          ∧ (0 < r ↔ KeyBefore key2 key1) := by
  have hranks := keyComp_ranks pidMax
  refine ⟨hranks.totalOrder, ?_⟩
  intro key1 key2 r h1 h2 hr
  rw [hranks.eq_zero h1 h2 hr, hranks.lt h1 h2 hr, hranks.gt h1 h2 hr]
  exact ⟨keyRank_eq_iff, keyRank_lt_iff, keyRank_lt_iff⟩

/-- Two processes of one second, 7 and 9: the padding does not count. -/
theorem keyComp_totalOrder_sample :
    dbExecCallKeyCompDbt (some ⟨⟨5, 0⟩, 7, 3⟩) (some ⟨⟨5, 0⟩, 9, 1⟩) = .ok (-2)
      ∧ KeyBefore (some ⟨⟨5, 0⟩, 7, 3⟩) (some ⟨⟨5, 0⟩, 9, 1⟩)
      ∧ ¬ KeysEqual (some ⟨⟨5, 0⟩, 7, 3⟩) (some ⟨⟨5, 0⟩, 9, 1⟩) := by
  have hvalid : ∀ pid : Int32, 0 ≤ pid.toInt → pid.toInt ≤ 10 → ∀ padding : UInt32,
      ValidKey 10 (some ⟨⟨5, 0⟩, pid, padding⟩) := by
    intro pid h0 h1 padding key hkey
    cases hkey
    exact ⟨h0, h1⟩
  have hrun : dbExecCallKeyCompDbt (some ⟨⟨5, 0⟩, 7, 3⟩) (some ⟨⟨5, 0⟩, 9, 1⟩) = .ok (-2) := rfl
  obtain ⟨hequal, hbefore, -⟩ := (keyComp_totalOrder 10).2 (hvalid 7 (by decide) (by decide) 3)
    (hvalid 9 (by decide) (by decide) 1) hrun
  exact ⟨hrun, hbefore.mp (by decide), fun h => absurd (hequal.mpr h) (by decide)⟩

end DirSurveiller
