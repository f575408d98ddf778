import TcpSiad.Model.Execution

/-! Backdating and the threshold of a congestion event. Four of the five backdating cases stay at
or below the window; the last, `cwnd - alpha`, can wrap, and the wrapped value becomes the
threshold. Two events in a row agree before any increase of the epoch, and can differ after one. -/
namespace TcpSiad

open TcpSocketState

variable {s s₁ : TcpSiad} {tcb : TcpSocketState} {cwnd ssthresh cwndMax scaled v : BitVec 32}

/-! ### The backdated window and the threshold -/

/-- The backdated window is at most `cwnd`, except in the last case when `alpha` exceeds a window
above the threshold and at most `incthresh`: there `cwnd - alpha` wraps. -/
theorem backdate_le (h : s.backdate cwnd ssthresh = .ok cwndMax)
    (hNoWrap : ¬(s.increasePerformed = true ∧ ssthresh < cwnd ∧ cwnd ≤ s.incthresh ∧
      cwnd < s.alpha)) :
    cwndMax ≤ cwnd := by
  unfold backdate at h
  by_cases hp : s.increasePerformed
  · rw [if_pos hp] at h
    by_cases c1 : s.alpha = 1 ∧ cwnd ≥ s.incthresh ∧ s.incthresh > ssthresh
    · rw [if_pos c1] at h
      obtain ⟨q, hq, rfl⟩ := map_eq_ok.mp h
      obtain ⟨-, rfl⟩ := divide_eq_ok.mp hq
      have hClimb := sub_le_self_of_le (BitVec.le_def.mpr (Nat.le_of_lt c1.2.2))
      exact sub_le_self_of_le (BitVec.le_trans udiv_le_self (BitVec.le_trans hClimb c1.2.1))
    rw [if_neg c1] at h
    by_cases c2 : s.alpha ≥ cwnd / 2 ∧ cwnd > s.incthresh
    · rw [if_pos c2] at h; cases h; exact sub_le_self_of_le udiv_le_self
    rw [if_neg c2] at h
    by_cases c3 : s.alpha ≥ cwnd ∧ cwnd ≤ ssthresh
    · rw [if_pos c3] at h; cases h; exact udiv_le_self
    rw [if_neg c3] at h
    have h2 := @udiv_le_self _ cwnd 2
    have h4 := @udiv_le_self _ s.alpha 2
    generalize cwnd / 2 = half at *
    generalize s.alpha / 2 = halfAlpha at *
    by_cases c4 : (cwnd > s.incthresh ∨ cwnd < ssthresh) ∧ s.alpha ≠ 1
    · rw [if_pos c4] at h; cases h; bv_omega
    · rw [if_neg c4] at h; cases h; simp only [hp, true_and] at hNoWrap; bv_omega
  · rw [if_neg hp] at h; cases h; exact BitVec.le_refl _

/-- Where `min_delay ≤ curr_delay`, the scaling of lines 453-467 never raises the window. -/
theorem scaleWindow_le (hRatio : s.minDelay ≤ s.currDelay)
    (h : s.scaleWindow cwndMax = .ok scaled) : scaled ≤ cwndMax := by
  unfold scaleWindow at h
  split at h
  · obtain ⟨q, hq, rfl⟩ := map_eq_ok.mp h
    obtain ⟨-, rfl⟩ := divide_eq_ok.mp hq
    exact BitVec.le_def.mpr (toNat_delayScaled_le hRatio cwndMax)
  · cases h; exact udiv_le_self

/-- The threshold a congestion event returns is at least two segments; where `min_delay ≤
curr_delay` and the last backdating case does not wrap, it is at most the larger of two and the
window. -/
theorem getSsThreshSegments_threshold_le (hRatio : s.minDelay ≤ s.currDelay)
    (hNoWrap : ¬(s.increasePerformed = true ∧ ssthresh < cwnd ∧ cwnd ≤ s.incthresh ∧
      cwnd < s.alpha))
    (h : s.getSsThreshSegments cwnd ssthresh = .ok (s₁, v)) :
    2 ≤ v.toNat ∧ v.toNat ≤ max 2 cwnd.toNat := by
  obtain ⟨cwndMax, scaled, _, _, hBack, hScale, -, -, hEq⟩ := getSsThreshSegments_ok _ h
  obtain ⟨-, rfl⟩ := Prod.mk.inj hEq
  have hMax := BitVec.le_def.mp (backdate_le hBack hNoWrap)
  have hRatio' : s.detectDrift.minDelay ≤ s.detectDrift.currDelay :=
    BitVec.le_trans driftDetection_minDelay_le hRatio
  have hScaled := BitVec.le_def.mp (scaleWindow_le hRatio' hScale)
  rw [toNat_atLeast, show minCwnd.toNat = 2 from rfl]
  omega

theorem getSsThreshSegments_threshold_le_run :
    let s := { init 0 10 with isStart := false, alpha := 6, increasePerformed := true }
    (init 0 10).run [.increaseWindow (ofSegments 5 0) 1] = .ok s ∧ s.minDelay ≤ s.currDelay ∧
      ¬(s.increasePerformed = true ∧ (30 : BitVec 32) < 20 ∧ 20 ≤ s.incthresh ∧ 20 < s.alpha) ∧
      ∃ s₁ v, s.getSsThreshSegments 20 30 = .ok (s₁, v) ∧
        2 ≤ v.toNat ∧ v.toNat ≤ max 2 (20 : BitVec 32).toNat := by
  intro s
  exact ⟨rfl, by decide, by decide, _, _, rfl,
    @getSsThreshSegments_threshold_le s _ 20 30 _ (by decide) (by decide) rfl⟩

/-- A regular increase from the constructor's state raises `alpha` to six; a congestion event at
a window of five segments over a threshold of four then takes the last backdating case, where
`cwnd - alpha` wraps to `2^32 - 1`. That value becomes `prev_max_cwnd`, and half of it,
2147483647 segments, the threshold, with no delay measured yet. -/
theorem init_run_backdate_wraps :
    ∃ s, (init 0 10).run [.increaseWindow (ofSegments 5 0) 1] = .ok s ∧
      s.minDelay ≤ s.currDelay ∧
      ∃ s₁, s.getSsThresh (ofSegments 5 4) = .ok (s₁, 2147483647) ∧ s₁.prevMaxCwnd = 4294967295 :=
  ⟨_, rfl, by decide, _, rfl, rfl⟩

/-! ### Two congestion events in a row -/

/-- Without an increase since the epoch began, a second congestion event on the same socket state
returns the first one's threshold and leaves its `prev_max_cwnd`. The second drift detection
cannot move `min_delay` again, so the scaling and the epoch length read the same values. -/
theorem getSsThresh_twice_same_threshold (hFresh : s.increasePerformed = false)
    (h : s.getSsThresh tcb = .ok (s₁, v)) :
    ∃ s₂, s₁.getSsThresh tcb = .ok (s₂, v) ∧ s₂.prevMaxCwnd = s₁.prevMaxCwnd := by
  obtain ⟨vSeg, rfl, hSeg⟩ := s.getSsThresh_ok h
  obtain ⟨cwndMax, scaled, n, q, hBack, hScale, hNum, hq, hEq⟩ := getSsThreshSegments_ok _ hSeg
  obtain ⟨hs₁, rfl⟩ := Prod.mk.inj hEq
  replace hs₁ : s₁ = _ := hs₁
  rw [backdate_of_not_increasePerformed _ hFresh] at hBack
  cases hBack
  have hMin : s₁.detectDrift.minDelay = s.detectDrift.minDelay := by
    rw [detectDrift_detectDrift_minDelay s s₁ (by rw [hs₁]) (by rw [hs₁]) (by rw [hs₁])
      (by rw [hs₁]), hs₁]
  have hCurr : s₁.detectDrift.currDelay = s.detectDrift.currDelay := by rw [hs₁]; rfl
  have hSeg' : s₁.getSsThreshSegments tcb.getCwndInSegments tcb.getSsThreshInSegments = _ :=
    getSsThreshSegments_of_parts s₁
      (backdate_of_not_increasePerformed _ (by rw [hs₁]; exact hFresh))
      ((scaleWindow_congr _ hMin hCurr _).trans hScale)
      ((numRtt_congr _ (by rw [hs₁]; rfl) (by rw [hs₁]; rfl) hMin hCurr).trans hNum)
      (divide_of_ne_zero (by rw [hs₁]; exact (divide_eq_ok.mp hq).1))
  exact ⟨_, getSsThresh_of_segments _ hSeg', by rw [hs₁]⟩

theorem getSsThresh_twice_same_threshold_init :
    ∃ s₁ v, (init 0 10).getSsThresh (ofSegments 20 30) = .ok (s₁, v) ∧
      ∃ s₂, s₁.getSsThresh (ofSegments 20 30) = .ok (s₂, v) ∧ s₂.prevMaxCwnd = s₁.prevMaxCwnd :=
  ⟨_, _, rfl, @getSsThresh_twice_same_threshold (init 0 10) _ _ _ rfl rfl⟩

/-- After the regular increase that raises `alpha` to six, two congestion events at a window of
20 segments over a threshold of 30 return 8 and then 9 segments, and leave `prev_max_cwnd` at 17
and then 19: the first takes back half of `alpha`, three segments, and sets `alpha` to one, so
the second takes back a single segment. -/
theorem init_run_getSsThresh_twice_differs :
    ∃ s, (init 0 10).run [.increaseWindow (ofSegments 5 0) 1] = .ok s ∧
      ∃ s₁ s₂, s.getSsThresh (ofSegments 20 30) = .ok (s₁, 8) ∧
        s₁.getSsThresh (ofSegments 20 30) = .ok (s₂, 9) ∧
        s₁.prevMaxCwnd = 17 ∧ s₂.prevMaxCwnd = 19 :=
  ⟨_, rfl, _, _, rfl, rfl, rfl, rfl⟩

end TcpSiad
