import TcpSiad.Model.Execution

/-! The delay ratio `min_delay / curr_delay` of the additional decrease. Only the promotion branch
of `PktsAcked` raises `min_delay`, and a run without it keeps the ratio at most one, which bounds
the window; with it a run reaches a ratio above one. -/
namespace TcpSiad

open TcpSocketState

variable {s s' : TcpSiad} {tcb tcb' : TcpSocketState} {cwnd ssthresh k v : BitVec 32}
  {rtt : BitVec 64} {c : Call}

/-! ### `min_delay` stays at or below the last sample -/

/-- `IncreaseWindow` keeps the three delays. -/
theorem increaseWindow_delays (h : s.increaseWindow tcb k = .ok (s', tcb')) :
    s'.minDelay = s.minDelay ∧ s'.prevDelay = s.prevDelay ∧ s'.currDelay = s.currDelay := by
  rw [s.increaseWindow_frame h]
  exact ⟨rfl, rfl, rfl⟩

/-- A congestion event keeps `prev_delay` and `curr_delay`; its drift detection can only lower
`min_delay`. -/
theorem getSsThresh_delays (h : s.getSsThresh tcb = .ok (s', v)) :
    s'.minDelay ≤ s.minDelay ∧ s'.prevDelay = s.prevDelay ∧ s'.currDelay = s.currDelay := by
  rw [getSsThresh_frame _ h]
  exact ⟨driftDetection_minDelay_le, rfl, rfl⟩

theorem step_minDelay_le_prevDelay (hInv : s.minDelay ≤ s.prevDelay) (h : s.step c = .ok s') :
    s'.minDelay ≤ s'.prevDelay :=
  step_preserves (P := fun t => t.minDelay ≤ t.prevDelay)
    (fun _ _ _ _ => pktsAcked_minDelay_le_prevDelay _ _ _)
    (fun _ _ _ _ _ h hw => by
      obtain ⟨hMin, hPrev, -⟩ := increaseWindow_delays hw
      rwa [hMin, hPrev])
    (fun _ _ _ _ h hg => by
      obtain ⟨hMin, hPrev, -⟩ := getSsThresh_delays hg
      rw [hPrev]
      exact BitVec.le_trans hMin h)
    (fun _ _ h => by simpa using h) hInv h

/-- From the constructor's state, `min_delay ≤ prev_delay` in every reachable state. -/
theorem minDelay_le_prevDelay_of_reachable {configNumRtt cwnd : BitVec 32}
    (hr : Reachable (init configNumRtt cwnd) s) : s.minDelay ≤ s.prevDelay :=
  hr.induct_inv (BitVec.le_refl _) fun _ _ _ => step_minDelay_le_prevDelay

theorem minDelay_le_prevDelay_of_reachable_sample :
    ((init 0 10).pktsAcked (ofSegments 0 0) 10).minDelay ≤
      ((init 0 10).pktsAcked (ofSegments 0 0) 10).prevDelay :=
  minDelay_le_prevDelay_of_reachable (.step (.pktsAcked _ 10) .refl rfl)

/-! ### The promotion branch -/

/-- The call is a sample that takes the promotion branch of `PktsAcked` (lines 155-160): above
the all-time minimum, at or below the epoch's, with the window more than `alpha + 1` segments
above the threshold. -/
def Promotes (s : TcpSiad) : Call → Prop
  | .pktsAcked tcb rtt =>
    s.minDelay < rtt ∧ rtt ≤ s.currMinDelay ∧
      tcb.getCwndInSegments > tcb.getSsThreshInSegments + s.alpha + 1
  | _ => False

instance (s : TcpSiad) : (c : Call) → Decidable (s.Promotes c)
  | .pktsAcked _ _ => inferInstanceAs (Decidable (_ ∧ _ ∧ _))
  | .increaseWindow _ _ | .getSsThresh _ | .cwndEvent _ => inferInstanceAs (Decidable False)

/-- The states that runs from `start` reach when no sample takes the promotion branch. -/
inductive ReachableWithoutPromotion (start : TcpSiad) : TcpSiad → Prop where
  | refl : ReachableWithoutPromotion start start
  | step {s s' : TcpSiad} (c : Call) (prior : ReachableWithoutPromotion start s)
      (hNo : ¬s.Promotes c) (last : s.step c = .ok s') : ReachableWithoutPromotion start s'

/-- A sample that is not promoted never raises `min_delay`. -/
theorem pktsAcked_minDelay_le (hNo : ¬s.Promotes (.pktsAcked tcb rtt)) :
    (s.pktsAcked tcb rtt).minDelay ≤ s.minDelay := by
  simp only [pktsAcked]
  split_ifs with hLe hCurr hWindow
  · exact hLe
  · exact absurd ⟨BitVec.not_le.mp hLe, hCurr, hWindow⟩ hNo
  all_goals exact BitVec.le_refl _

theorem pktsAcked_minDelay_of_promotes (hP : s.Promotes (.pktsAcked tcb rtt)) :
    (s.pktsAcked tcb rtt).minDelay = rtt := by
  obtain ⟨hLt, hCurr, hWindow⟩ := hP
  simp only [pktsAcked, if_neg (BitVec.not_le.mpr hLt), if_pos hCurr, if_pos hWindow]

/-- A call raises `min_delay` exactly when it is a promoted sample: the drift correction of
`GetSsThresh` only ever lowers it. -/
theorem step_minDelay_lt_iff (h : s.step c = .ok s') :
    s.minDelay < s'.minDelay ↔ s.Promotes c := by
  cases c with
  | pktsAcked tcb rtt =>
      cases h
      by_cases hP : s.Promotes (.pktsAcked tcb rtt)
      · rw [pktsAcked_minDelay_of_promotes hP]
        exact iff_of_true hP.1 hP
      · exact iff_of_false (BitVec.not_lt.mpr (pktsAcked_minDelay_le hP)) hP
  | increaseWindow tcb k =>
      obtain ⟨⟨_, _⟩, hw, rfl⟩ := map_eq_ok.mp h
      rw [(increaseWindow_delays hw).1]
      exact iff_of_false (BitVec.lt_irrefl _) id
  | getSsThresh tcb =>
      obtain ⟨⟨_, _⟩, hg, rfl⟩ := map_eq_ok.mp h
      exact iff_of_false (BitVec.not_lt.mpr (getSsThresh_delays hg).1) id
  | cwndEvent e =>
      cases h
      rw [cwndEvent_minDelay]
      exact iff_of_false (BitVec.lt_irrefl _) id

theorem ReachableWithoutPromotion.minDelay_le {start : TcpSiad}
    (hr : ReachableWithoutPromotion start s) : s.minDelay ≤ start.minDelay := by
  induction hr with
  | refl => exact BitVec.le_refl _
  | step c _ hNo last ih =>
      exact BitVec.le_trans (BitVec.not_lt.mp (mt (step_minDelay_lt_iff last).mp hNo)) ih

/-- `min_delay` rises only through the promotion branch of `PktsAcked`: from any state, a call
raises it exactly when it is a promoted sample, so a run without one never ends above the
`min_delay` it started from. -/
theorem minDelay_rises_only_by_promotion :
    (∀ (s : TcpSiad) (c : Call) (s' : TcpSiad),
      s.step c = .ok s' → (s.minDelay < s'.minDelay ↔ s.Promotes c)) ∧
    ∀ start s : TcpSiad, ReachableWithoutPromotion start s → s.minDelay ≤ start.minDelay :=
  ⟨fun _ _ _ => step_minDelay_lt_iff, fun _ _ => ReachableWithoutPromotion.minDelay_le⟩

/-- In a fresh epoch over a minimum of 10 ms, a 20 ms sample at a window of 100 segments over a
threshold of zero is promoted, and `min_delay` rises. -/
theorem minDelay_rises_only_by_promotion_run :
    ∃ s, (init 0 10).run
        [.increaseWindow (ofSegments 5 0) 0, .getSsThresh (ofSegments 4000 0),
          .pktsAcked (ofSegments 0 0) 10, .cwndEvent .completeCwr] = .ok s ∧
      s.Promotes (.pktsAcked (ofSegments 100 0) 20) ∧
      s.minDelay < (s.pktsAcked (ofSegments 100 0) 20).minDelay := by
  refine ⟨_, rfl, by decide, ?_⟩
  refine (minDelay_rises_only_by_promotion.1 _ (.pktsAcked (ofSegments 100 0) 20) _ ?_).mpr
    (by decide)
  rfl

/-- A call other than a promoted sample keeps `min_delay ≤ curr_delay` where `min_delay ≤
prev_delay` holds too: the filtered delay is the smaller of the last two samples. -/
theorem step_minDelay_le_currDelay (hPrev : s.minDelay ≤ s.prevDelay)
    (hCurr : s.minDelay ≤ s.currDelay) (hNo : ¬s.Promotes c) (h : s.step c = .ok s') :
    s'.minDelay ≤ s'.currDelay := by
  cases c with
  | pktsAcked tcb rtt => cases h; exact pktsAcked_minDelay_le_currDelay _ _ _ hPrev hNo
  | increaseWindow tcb k =>
      obtain ⟨⟨_, _⟩, hw, rfl⟩ := map_eq_ok.mp h
      obtain ⟨hMin, -, hDelay⟩ := increaseWindow_delays hw
      rwa [hMin, hDelay]
  | getSsThresh tcb =>
      obtain ⟨⟨_, _⟩, hg, rfl⟩ := map_eq_ok.mp h
      obtain ⟨hMin, -, hDelay⟩ := getSsThresh_delays hg
      rw [hDelay]
      exact BitVec.le_trans hMin hCurr
  | cwndEvent e => cases h; simpa using hCurr

/-- From the constructor's state, a run in which no sample is promoted keeps the delay ratio
`min_delay / curr_delay` at most one. -/
theorem minDelay_le_currDelay_without_promotion {configNumRtt cwnd : BitVec 32}
    (hr : ReachableWithoutPromotion (init configNumRtt cwnd) s) : s.minDelay ≤ s.currDelay := by
  suffices s.minDelay ≤ s.prevDelay ∧ s.minDelay ≤ s.currDelay from this.2
  induction hr with
  | refl => exact ⟨BitVec.le_refl _, BitVec.le_refl _⟩
  | step c _ hNo last ih =>
      exact ⟨step_minDelay_le_prevDelay ih.1 last, step_minDelay_le_currDelay ih.1 ih.2 hNo last⟩

/-- The run that breaks the ratio, with its 20 ms sample taken at a window of zero segments: the
sample is not promoted, and `min_delay` stays at 10 ms. -/
theorem minDelay_le_currDelay_without_promotion_run :
    ∃ s, ReachableWithoutPromotion (init 0 10) s ∧ s.minDelay = 10 ∧ s.minDelay ≤ s.currDelay := by
  have hr : ReachableWithoutPromotion (init 0 10) _ :=
    .step (.pktsAcked (ofSegments 0 0) 20) (.step (.cwndEvent .completeCwr)
      (.step (.pktsAcked (ofSegments 0 0) 10) (.step (.getSsThresh (ofSegments 4000 0))
        (.step (.increaseWindow (ofSegments 5 0) 0) .refl (by decide) rfl) (by decide) rfl)
        (by decide) rfl) (by decide) rfl) (by decide) rfl
  exact ⟨_, hr, rfl, minDelay_le_currDelay_without_promotion hr⟩

/-! ### What a ratio of at most one gives -/

/-- Where `min_delay ≤ curr_delay` and `ssthresh + alpha + 2` does not wrap, an additional
decrease leaves a window, after the floor of line 352, below the window it entered with. -/
theorem additionalDecrease_cwnd_lt (hRatio : s.minDelay ≤ s.currDelay)
    (hWrap : ssthresh.toNat + s.alpha.toNat + 2 < 2 ^ 32)
    (hEnter : s.EntersAdditionalDecrease cwnd ssthresh) {s' : TcpSiad} {cwnd' ssthresh' : BitVec 32}
    (h : s.additionalDecrease ssthresh = .ok (s', cwnd', ssthresh')) :
    atLeast minCwnd cwnd' < cwnd := by
  have hLe := (additionalDecrease_ok _ h).2.2.2.2
  have hScaled := toNat_delayScaled_le hRatio ssthresh
  have hCwnd := hEnter.1
  rw [BitVec.lt_def, toNat_atLeast, show minCwnd.toNat = 2 from rfl]
  bv_omega

/-- Where `min_delay ≤ curr_delay` and the threshold `IncreaseWindow` reads plus `alpha + 2` does
not wrap, the window `cwnd'` it computes in segments, and writes back as
`cwnd' * segmentSize`, is at most the largest of the window it read, `snd_cwnd_clamp` and two
segments, and below the window read when it takes the additional decrease. -/
theorem increaseWindow_window_bounds (hRatio : s.minDelay ≤ s.currDelay)
    (hWrap : (s.prepare tcb).2.2.toNat + s.alpha.toNat + 2 < 2 ^ 32)
    (h : s.increaseWindow tcb k = .ok (s', tcb')) :
    ∃ cwnd' ssthresh',
      (s.prepare tcb).1.increaseWindowSegments (s.prepare tcb).2.1 (s.prepare tcb).2.2 k =
        .ok (s', cwnd', ssthresh') ∧
      tcb'.cWnd = cwnd' * tcb.segmentSize ∧
      cwnd'.toNat ≤ max tcb.getCwndInSegments.toNat (max s.sndCwndClamp.toNat 2) ∧
      (s.TakesAdditionalDecrease tcb → cwnd' < tcb.getCwndInSegments) := by
  obtain ⟨c, t, hAdj, rfl⟩ := s.increaseWindow_ok h
  obtain ⟨seen, -, hPrep⟩ := @prepare_fst s tcb
  refine ⟨atLeast minCwnd c, _, increaseWindowSegments_of_adjustWindow _ hAdj, rfl, ?_⟩
  rw [← @prepare_cwnd s tcb]
  rcases adjustWindow_ok _ hAdj with ⟨hEnter, hDec⟩ | ⟨hNot, r, hr, hEq⟩
  · have hRatio' : (s.prepare tcb).1.minDelay ≤ (s.prepare tcb).1.currDelay := by
      rw [hPrep]; exact hRatio
    have hWrap' : (s.prepare tcb).2.2.toNat + (s.prepare tcb).1.alpha.toNat + 2 < 2 ^ 32 := by
      rw [hPrep]; exact hWrap
    have hLt := additionalDecrease_cwnd_lt hRatio' hWrap' hEnter hDec
    refine ⟨?_, fun _ => hLt⟩
    rw [BitVec.lt_def] at hLt
    omega
  · refine ⟨?_, fun hTakes => absurd hTakes hNot⟩
    simp only [Prod.mk.injEq] at hEq
    obtain ⟨-, rfl, -⟩ := hEq
    rw [hPrep] at hr
    have hLe : r.cwnd.toNat ≤ max (s.prepare tcb).2.1.toNat s.sndCwndClamp.toNat :=
      (regularIncrease_ok _ hr).2.2.1
    rw [toNat_atLeast, show minCwnd.toNat = 2 from rfl]
    omega

theorem increaseWindow_window_bounds_run :
    ∃ s, (init 0 10).run
        [.increaseWindow (ofSegments 5 0) 0, .getSsThresh (ofSegments 4000 0),
          .pktsAcked (ofSegments 0 0) 10, .cwndEvent .completeCwr,
          .pktsAcked (ofSegments 0 0) 30] = .ok s ∧
      s.minDelay ≤ s.currDelay ∧
      (s.prepare (ofSegments 1004 1000)).2.2.toNat + s.alpha.toNat + 2 < 2 ^ 32 ∧
      ∃ s' tcb', s.increaseWindow (ofSegments 1004 1000) 0 = .ok (s', tcb') ∧
        ∃ cwnd' ssthresh',
          (s.prepare (ofSegments 1004 1000)).1.increaseWindowSegments
              (s.prepare (ofSegments 1004 1000)).2.1 (s.prepare (ofSegments 1004 1000)).2.2 0 =
            .ok (s', cwnd', ssthresh') ∧
          tcb'.cWnd = cwnd' * (ofSegments 1004 1000).segmentSize ∧
          cwnd'.toNat ≤
            max (ofSegments 1004 1000).getCwndInSegments.toNat (max s.sndCwndClamp.toNat 2) ∧
          (s.TakesAdditionalDecrease (ofSegments 1004 1000) →
            cwnd' < (ofSegments 1004 1000).getCwndInSegments) :=
  ⟨_, rfl, by decide, by decide, _, _, rfl,
    @increaseWindow_window_bounds _ _ _ _ 0 (by decide) (by decide) rfl⟩

/-- An epoch reset between two samples, then a promotion: the second sample, 20 ms, becomes
`min_delay` while `curr_delay` keeps the first, 10 ms. At a window of 1004 segments over a
threshold of 1000 the next `IncreaseWindow` takes the additional decrease, scales the threshold
by 20 / 10 and writes 1668 segments, above the window it read and above `snd_cwnd_clamp`. -/
theorem init_run_delay_ratio_above_one :
    ∃ s, (init 0 10).run
        [.increaseWindow (ofSegments 5 0) 0, .getSsThresh (ofSegments 4000 0),
          .pktsAcked (ofSegments 0 0) 10, .cwndEvent .completeCwr,
          .pktsAcked (ofSegments 100 0) 20, .cwndEvent .completeCwr] = .ok s ∧
      s.currDelay < s.minDelay ∧ s.TakesAdditionalDecrease (ofSegments 1004 1000) ∧
      ∃ s' tcb', s.increaseWindow (ofSegments 1004 1000) 0 = .ok (s', tcb') ∧ tcb'.cWnd = 1668 :=
  ⟨_, rfl, by decide, by decide, _, _, rfl, rfl⟩

/-! ### The promotion and the decrease thresholds agree -/

/-- `PktsAcked` promotes a sample at or below the epoch minimum once the window is more than
`alpha + 1` segments above the threshold, and `IncreaseWindow` decreases only more than
`alpha + 2` above it. So an additional decrease right after a sample, on the same socket state,
means the sample was above both the all-time and the epoch minimum. -/
theorem additionalDecrease_after_sample_above_minima (hStart : s.isStart = false)
    (hWrap : tcb.getSsThreshInSegments.toNat + s.alpha.toNat + 2 < 2 ^ 32)
    (hTakes : (s.pktsAcked tcb rtt).TakesAdditionalDecrease tcb) :
    s.minDelay < rtt ∧ s.currMinDelay < rtt := by
  obtain ⟨seen, hSeen, hPrep⟩ := @prepare_fst (s.pktsAcked tcb rtt) tcb
  obtain ⟨hCwnd, hFresh, -⟩ := hTakes
  rw [hPrep] at hCwnd hFresh
  rw [prepare_cwnd, prepare_ssthresh _ (by simpa using hStart)] at hCwnd
  dsimp only at hCwnd hFresh
  rw [pktsAcked_alpha] at hCwnd
  have hUnseen : (s.pktsAcked tcb rtt).minDelaySeen = false := by
    rcases hSeen with rfl | rfl
    · exact absurd hFresh (by decide)
    · exact hFresh
  constructor
  · by_contra hLe
    rw [pktsAcked_minDelaySeen_of_le s tcb rtt (by bv_omega)] at hUnseen
    exact absurd hUnseen (by decide)
  · by_contra hLe
    rw [pktsAcked_minDelaySeen_of_promote s tcb rtt (by bv_omega) (by bv_omega)] at hUnseen
    exact absurd hUnseen (by decide)

theorem additionalDecrease_after_sample_above_minima_run :
    ∃ s, (init 0 10).run
        [.increaseWindow (ofSegments 5 0) 0, .getSsThresh (ofSegments 4000 0),
          .pktsAcked (ofSegments 0 0) 10, .cwndEvent .completeCwr,
          .pktsAcked (ofSegments 0 0) 30] = .ok s ∧
      s.isStart = false ∧
      (ofSegments 1004 1000).getSsThreshInSegments.toNat + s.alpha.toNat + 2 < 2 ^ 32 ∧
      (s.pktsAcked (ofSegments 1004 1000) 40).TakesAdditionalDecrease (ofSegments 1004 1000) ∧
      s.minDelay < 40 ∧ s.currMinDelay < 40 :=
  ⟨_, rfl, rfl, by decide, by decide,
    @additionalDecrease_after_sample_above_minima _ (ofSegments 1004 1000) _ rfl (by decide)
      (by decide)⟩

end TcpSiad
