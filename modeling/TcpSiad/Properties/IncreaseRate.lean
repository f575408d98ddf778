import TcpSiad.Model.Execution

/-! The increase rate `alpha`. Every entry point leaves it at least one, so line 287 never divides
by zero. A congestion event sets it to the climb to `incthresh` over the delay in milliseconds
(line 511), not over the epoch length, and the climb itself never wraps. -/
namespace TcpSiad

open TcpSocketState

variable {s s' : TcpSiad} {tcb tcb' : TcpSocketState} {cwnd ssthresh k v : BitVec 32} {c : Call}

/-- Line 511 cannot give a zero `alpha`: the quotient is at most the 32-bit numerator, so the
truncation to 32 bits keeps the floor of one. -/
theorem one_le_setWidth_stdMax_one (x : BitVec 32) (d : BitVec 64) :
    1 ≤ (stdMax 1 (x.setWidth 64 / d)).setWidth 32 := by
  have hq : (x.setWidth 64 / d).toNat < 2 ^ 32 := by
    rw [BitVec.toNat_udiv, BitVec.toNat_setWidth, Nat.mod_eq_of_lt (by omega)]
    exact lt_of_le_of_lt (Nat.div_le_self _ _) x.isLt
  rw [BitVec.le_def, BitVec.toNat_setWidth, toNat_stdMax, Nat.mod_eq_of_lt (max_lt (by decide) hq)]
  simp

theorem increaseWindow_alpha_pos (h : s.increaseWindow tcb k = .ok (s', tcb')) : 1 ≤ s'.alpha := by
  obtain ⟨cwnd, ssthresh, hAdj, -⟩ := s.increaseWindow_ok h
  rcases adjustWindow_ok _ hAdj with ⟨-, hDec⟩ | ⟨-, r, hr, hEq⟩
  · exact (additionalDecrease_ok _ hDec).2.1
  · cases hEq; exact (regularIncrease_ok _ hr).2.1

/-- What a congestion event sets `alpha` to: the climb from the new threshold to `incthresh`
over `curr_delay`, at least one. -/
theorem getSsThreshSegments_alpha (h : s.getSsThreshSegments cwnd ssthresh = .ok (s', v)) :
    s'.alpha = (stdMax 1 ((s'.incthresh - v).setWidth 64 / s'.currDelay)).setWidth 32 := by
  obtain ⟨_, _, _, q, -, -, -, hq, hEq⟩ := getSsThreshSegments_ok _ h
  obtain ⟨-, rfl⟩ := divide_eq_ok.mp hq
  simp only [Prod.mk.injEq] at hEq
  obtain ⟨rfl, rfl⟩ := hEq
  rfl

/-- After one 50 ms sample from the constructor's state, a congestion event at 1000 segments
sets `incthresh` to 1990 and the threshold to 1000, with an epoch of 20 round trips; the epoch's
rate is 49 segments per round trip, but line 511 divides by the 50 ms delay and leaves 19. -/
theorem getSsThresh_alpha_below_epoch_rate :
    Reachable (init 0 10) ((init 0 10).pktsAcked (ofSegments 1000 0) 50) ∧
    ∃ s' v, ((init 0 10).pktsAcked (ofSegments 1000 0) 50).getSsThresh (ofSegments 1000 0) =
        .ok (s', v) ∧
      s'.alpha < (s'.incthresh - v) / s'.currNumRtt :=
  ⟨.step (.pktsAcked _ 50) .refl rfl, _, _, rfl, by decide⟩

theorem getSsThresh_alpha_pos (h : s.getSsThresh tcb = .ok (s', v)) : 1 ≤ s'.alpha := by
  obtain ⟨_, -, hSeg⟩ := s.getSsThresh_ok h
  rw [getSsThreshSegments_alpha hSeg]
  exact one_le_setWidth_stdMax_one _ _

/-! ### The target of the next epoch -/

theorem le_increaseThreshold (p c t : BitVec 32) : t ≤ increaseThreshold p c t := by
  unfold increaseThreshold
  split
  · rw [BitVec.le_def, toNat_stdMax]; exact le_max_right _ _
  · exact BitVec.le_refl t

/-- Below `2^31`, `cwndMax + trend` with `trend = cwndMax - prev_max_cwnd` is `2 * cwndMax -
prev_max_cwnd` without wrap, and the test `prev_max_cwnd < 2 * cwndMax` is the test on naturals. -/
theorem toNat_increaseThreshold {p c t : BitVec 32} (hFit : c.toNat < 2 ^ 31) :
    (increaseThreshold p c t).toNat =
      if p.toNat < 2 * c.toNat then max (2 * c.toNat - p.toNat) t.toNat else t.toNat := by
  have h2c : (2 * c).toNat = 2 * c.toNat := by
    rw [BitVec.toNat_mul, Nat.mod_eq_of_lt (by simp; omega)]; rfl
  unfold increaseThreshold
  by_cases hp : p.toNat < 2 * c.toNat
  · rw [if_pos (show p < 2 * c by rw [BitVec.lt_def, h2c]; exact hp), if_pos hp, toNat_stdMax]
    congr 1
    bv_omega
  · rw [if_neg (show ¬p < 2 * c by rw [BitVec.lt_def, h2c]; exact hp), if_neg hp]

/-- Every congestion event leaves the next epoch's target `incthresh` at or above the threshold it
returns, so the climb `incthresh - ssthreshNew` of line 511 does not wrap; and while the
backdated window `cwndMax`, kept as `prev_max_cwnd`, is below `2^31`, the target is the linear
extrapolation `2 * cwndMax - prev_max_cwnd` of the last two backdated windows when that is
positive and above the threshold, and the threshold otherwise. -/
theorem getSsThreshSegments_incthresh (h : s.getSsThreshSegments cwnd ssthresh = .ok (s', v)) :
    v ≤ s'.incthresh ∧ (s'.prevMaxCwnd.toNat < 2 ^ 31 →
      s'.incthresh.toNat =
        if s.prevMaxCwnd.toNat < 2 * s'.prevMaxCwnd.toNat then
          max (2 * s'.prevMaxCwnd.toNat - s.prevMaxCwnd.toNat) v.toNat
        else v.toNat) := by
  obtain ⟨_, _, _, _, -, -, -, -, hEq⟩ := getSsThreshSegments_ok _ h
  simp only [Prod.mk.injEq] at hEq
  obtain ⟨rfl, rfl⟩ := hEq
  exact ⟨le_increaseThreshold _ _ _, toNat_increaseThreshold⟩

/-- After the constructor's `prev_max_cwnd` of 10 segments, a congestion event at 1000 segments
sets the target to `2 * 1000 - 10 = 1990`. -/
theorem getSsThreshSegments_incthresh_extrapolates :
    ∃ s' v, ((init 0 10).pktsAcked (ofSegments 1000 0) 50).getSsThreshSegments 1000 0 =
        .ok (s', v) ∧ s'.incthresh = 1990 ∧
      (v ≤ s'.incthresh ∧ (s'.prevMaxCwnd.toNat < 2 ^ 31 →
        s'.incthresh.toNat =
          if ((init 0 10).pktsAcked (ofSegments 1000 0) 50).prevMaxCwnd.toNat <
              2 * s'.prevMaxCwnd.toNat then
            max (2 * s'.prevMaxCwnd.toNat -
              ((init 0 10).pktsAcked (ofSegments 1000 0) 50).prevMaxCwnd.toNat) v.toNat
          else v.toNat)) :=
  ⟨_, _, rfl, rfl, @getSsThreshSegments_incthresh _ _ 1000 0 _ rfl⟩

/-- No entry point lowers `alpha` below one. -/
theorem step_alpha_pos (hAlpha : 1 ≤ s.alpha) (h : s.step c = .ok s') : 1 ≤ s'.alpha :=
  step_preserves (fun _ _ _ h => by simpa using h)
    (fun _ _ _ _ _ _ hw => increaseWindow_alpha_pos hw)
    (fun _ _ _ _ _ hg => getSsThresh_alpha_pos hg) (fun _ _ h => by simpa using h) hAlpha h

/-- From a start with `alpha ≥ 1`, every reachable state has `alpha ≥ 1`, and its
`IncreaseWindow` never divides by zero at line 287, whatever the arguments. -/
theorem alpha_pos_of_reachable {start : TcpSiad} (hStart : 1 ≤ start.alpha)
    (hr : Reachable start s) :
    1 ≤ s.alpha ∧ ∀ tcb k, s.increaseWindow tcb k ≠ .error (.divByZero 287) := by
  have hAlpha : 1 ≤ s.alpha := hr.induct_inv hStart fun _ _ _ => step_alpha_pos
  refine ⟨hAlpha, fun tcb k h => ?_⟩
  rcases s.increaseWindow_error_cases h with h | h | ⟨hZero, -⟩ | ⟨-, h⟩
  · exact absurd h (by decide)
  · exact absurd h (by decide)
  · exact absurd hZero (by bv_omega)
  · exact absurd h (by decide)

/-- After a 50 ms sample, a congestion event at 1000 segments sets `alpha` to 19 at line 511. -/
theorem alpha_pos_of_reachable_run :
    ∃ s, (init 0 10).run [.pktsAcked (ofSegments 1000 0) 50, .getSsThresh (ofSegments 1000 0)] =
        .ok s ∧ s.alpha = 19 ∧
      1 ≤ s.alpha ∧ ∀ tcb k, s.increaseWindow tcb k ≠ .error (.divByZero 287) :=
  ⟨_, rfl, rfl, alpha_pos_of_reachable (by decide) (@Reachable.run (init 0 10) _ _
    [.pktsAcked (ofSegments 1000 0) 50, .getSsThresh (ofSegments 1000 0)] .refl rfl)⟩

end TcpSiad
