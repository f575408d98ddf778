import TcpSiad.Model.State

/-! The threshold estimator, `GetSsThresh`, called once per congestion event. It backdates the
window to one round trip before the event, watches the minimum delay for drift, and sets the new
threshold, the epoch length, the next epoch's target `incthresh` and its increase rate `alpha`. -/
namespace TcpSiad

variable (s : TcpSiad)

/-- Lines 371-416: `cwndMax`, the window one round trip before the event. After an increase the
amount `alpha` last added is taken back, read off the phase the window is in. -/
def backdate (cwnd ssthresh : BitVec 32) : Except Fault (BitVec 32) :=
  if s.increasePerformed then
    if s.alpha = 1 ∧ cwnd ≥ s.incthresh ∧ s.incthresh > ssthresh then
      (cwnd - ·) <$> divide 384 (s.incthresh - ssthresh) s.currNumRtt
    else if s.alpha ≥ cwnd / 2 ∧ cwnd > s.incthresh then pure (cwnd - cwnd / 3)
    else if s.alpha ≥ cwnd ∧ cwnd ≤ ssthresh then pure (cwnd / 2)
    else if (cwnd > s.incthresh ∨ cwnd < ssthresh) ∧ s.alpha ≠ 1 then pure (cwnd - s.alpha / 2)
    else pure (cwnd - s.alpha)
  else pure cwnd

/-- Lines 418-452 on `(min_delay, prev_min_delay1, prev_min_delay2, prev_min_delay3)`: drift
detection. A minimum below a recorded one clears the record; a larger one fills the next free
slot; a fourth increasing minimum is taken as measurement drift, and `min_delay` falls back to
the first recorded value. -/
def driftDetection (minDelay p1 p2 p3 : BitVec 64) :
    BitVec 64 × BitVec 64 × BitVec 64 × BitVec 64 :=
  if minDelay < p1 ∨ minDelay < p2 ∨ minDelay < p3 then (minDelay, 0, 0, 0)
  else if minDelay > p1 then
    if p1 = 0 then (minDelay, minDelay, p2, p3)
    else if p2 = 0 then (minDelay, p1, minDelay, p3)
    else if minDelay > p2 then
      if p3 = 0 then (minDelay, p1, p2, minDelay)
      else if minDelay > p3 then (p1, p1, 0, 0)
      else (minDelay, p1, p2, p3)
    else (minDelay, p1, p2, p3)
  else (minDelay, p1, p2, p3)

/-- The drift detection applied to the state's delay fields. -/
def detectDrift : TcpSiad :=
  let d := driftDetection s.minDelay s.prevMinDelay1 s.prevMinDelay2 s.prevMinDelay3
  { s with
    minDelay := d.1, prevMinDelay1 := d.2.1, prevMinDelay2 := d.2.2.1, prevMinDelay3 := d.2.2.2 }

/-- Lines 453-467: `cwndMax` scaled by `min_delay / curr_delay` when both delays are known, and
halved otherwise. -/
def scaleWindow (cwndMax : BitVec 32) : Except Fault (BitVec 32) :=
  if s.minDelay ≠ intMax ∧ s.currDelay ≠ 0 then
    (fun q => q.setWidth 32) <$> divide 459 (s.minDelay * cwndMax.setWidth 64) s.currDelay
  else pure (cwndMax / 2)

/-- Lines 476-496: the epoch length, by precedence a configured round-trip count, a configured
duration over the mean delay (at least `default_num_rtt`), or `default_num_rtt`. -/
def numRtt : Except Fault (BitVec 32) :=
  if s.configNumRtt ≠ 0 then pure s.configNumRtt
  else if s.configNumMs ≠ 0 ∧ s.minDelay ≠ intMax ∧ s.currDelay ≠ 0 then
    (fun q => stdMax (q.setWidth 32) defaultNumRtt) <$>
      divide 485 (s.configNumMs.setWidth 64) ((s.currDelay + s.minDelay) / 2)
  else pure defaultNumRtt

/-- Lines 497-509: the next epoch's target window, `cwndMax` plus its trend since the previous
event, or `ssthreshNew` when `prev_max_cwnd ≥ 2 * cwndMax`. The `int32_t trend` only meets
`uint32_t` operands, so its bits are all that count. -/
def increaseThreshold (prevMaxCwnd cwndMax ssthreshNew : BitVec 32) : BitVec 32 :=
  let trend := cwndMax - prevMaxCwnd
  if prevMaxCwnd < 2 * cwndMax then stdMax (cwndMax + trend) ssthreshNew else ssthreshNew

/-- `GetSsThresh` on window and threshold in segments: the new state and `ssthreshNew`. -/
def getSsThreshSegments (cwnd ssthresh : BitVec 32) : Except Fault (TcpSiad × BitVec 32) := do
  let s := { s with sndCwndCnt := 0 }
  let cwndMax ← s.backdate cwnd ssthresh
  let s := s.detectDrift
  let ssthreshNew := atLeast minCwnd (← s.scaleWindow cwndMax)
  let currNumRtt ← s.numRtt
  let incthresh := increaseThreshold s.prevMaxCwnd cwndMax ssthreshNew
  let q ← divide 511 ((incthresh - ssthreshNew).setWidth 64) s.currDelay
  let alpha := (stdMax 1 q).setWidth 32
  pure ({ s with currNumRtt, incthresh, alpha, prevMaxCwnd := cwndMax }, ssthreshNew)

/-- `GetSsThresh`: the new state and the threshold returned, `ssthreshNew` in bytes. -/
def getSsThresh (tcb : TcpSocketState) : Except Fault (TcpSiad × BitVec 32) := do
  let (s, ssthreshNew) ← s.getSsThreshSegments tcb.getCwndInSegments tcb.getSsThreshInSegments
  pure (s, ssthreshNew * tcb.segmentSize)

/-! ### Drift detection -/

variable {cwnd ssthresh : BitVec 32} {m p1 p2 p3 : BitVec 64}

/-- The drift correction of line 445 applies: all three slots are filled and below `min_delay`. -/
def DriftFires (minDelay p1 p2 p3 : BitVec 64) : Prop :=
  p1 ≠ 0 ∧ p2 ≠ 0 ∧ p3 ≠ 0 ∧ p1 < minDelay ∧ p2 < minDelay ∧ p3 < minDelay

instance (minDelay p1 p2 p3 : BitVec 64) : Decidable (DriftFires minDelay p1 p2 p3) :=
  inferInstanceAs (Decidable (_ ∧ _ ∧ _ ∧ _ ∧ _ ∧ _))

/-- The six outcomes of the drift detection, each with the slot conditions that select it. -/
theorem driftDetection_cases :
    ((m < p1 ∨ m < p2 ∨ m < p3) ∧ driftDetection m p1 p2 p3 = (m, 0, 0, 0)) ∨
    (p1 < m ∧ p1 = 0 ∧ driftDetection m p1 p2 p3 = (m, m, p2, p3)) ∨
    (p1 < m ∧ p1 ≠ 0 ∧ p2 = 0 ∧ driftDetection m p1 p2 p3 = (m, p1, m, p3)) ∨
    (p2 < m ∧ p1 ≠ 0 ∧ p2 ≠ 0 ∧ p3 = 0 ∧ driftDetection m p1 p2 p3 = (m, p1, p2, m)) ∨
    (DriftFires m p1 p2 p3 ∧ driftDetection m p1 p2 p3 = (p1, p1, 0, 0)) ∨
    (¬DriftFires m p1 p2 p3 ∧ driftDetection m p1 p2 p3 = (m, p1, p2, p3)) := by
  rw [driftDetection]
  by_cases c0 : m < p1 ∨ m < p2 ∨ m < p3
  · exact .inl ⟨c0, if_pos c0⟩
  rw [if_neg c0]
  by_cases c1 : m > p1
  · rw [if_pos c1]
    by_cases c2 : p1 = 0
    · exact .inr (.inl ⟨c1, c2, if_pos c2⟩)
    rw [if_neg c2]
    by_cases c3 : p2 = 0
    · exact .inr (.inr (.inl ⟨c1, c2, c3, if_pos c3⟩))
    rw [if_neg c3]
    by_cases c4 : m > p2
    · rw [if_pos c4]
      by_cases c5 : p3 = 0
      · exact .inr (.inr (.inr (.inl ⟨c4, c2, c3, c5, if_pos c5⟩)))
      rw [if_neg c5]
      by_cases c6 : m > p3
      · exact .inr (.inr (.inr (.inr (.inl ⟨⟨c2, c3, c5, c1, c4, c6⟩, if_pos c6⟩))))
      · exact .inr (.inr (.inr (.inr (.inr ⟨fun h => c6 h.2.2.2.2.2, if_neg c6⟩))))
    · exact .inr (.inr (.inr (.inr (.inr ⟨fun h => c4 h.2.2.2.2.1, if_neg c4⟩))))
  · exact .inr (.inr (.inr (.inr (.inr ⟨fun h => c1 h.2.2.2.1, if_neg c1⟩))))

/-- A firing drift correction puts `min_delay` back to the first slot and clears the others. -/
theorem driftDetection_of_driftFires (h : DriftFires m p1 p2 p3) :
    driftDetection m p1 p2 p3 = (p1, p1, 0, 0) := by
  rcases @driftDetection_cases m p1 p2 p3 with
    ⟨hLt, -⟩ | ⟨-, h0, -⟩ | ⟨-, -, h0, -⟩ | ⟨-, -, -, h0, -⟩ | ⟨-, hd⟩ | ⟨hNo, -⟩
  · obtain ⟨-, -, -, l1, l2, l3⟩ := h
    rcases hLt with hLt | hLt | hLt
    exacts [(BitVec.lt_asymm l1 hLt).elim, (BitVec.lt_asymm l2 hLt).elim,
      (BitVec.lt_asymm l3 hLt).elim]
  · exact absurd h0 h.1
  · exact absurd h0 h.2.1
  · exact absurd h0 h.2.2.1
  · exact hd
  · exact absurd h hNo

/-- Only a firing drift correction moves `min_delay`. -/
theorem driftDetection_minDelay (h : ¬DriftFires m p1 p2 p3) :
    (driftDetection m p1 p2 p3).1 = m := by
  rcases @driftDetection_cases m p1 p2 p3 with
    ⟨-, hd⟩ | ⟨-, -, hd⟩ | ⟨-, -, -, hd⟩ | ⟨-, -, -, -, hd⟩ | ⟨hf, -⟩ | ⟨-, hd⟩
  all_goals first | exact absurd hf h | rw [hd]

/-- Drift detection never raises `min_delay`. -/
theorem driftDetection_minDelay_le : (driftDetection m p1 p2 p3).1 ≤ m := by
  rcases @driftDetection_cases m p1 p2 p3 with
    ⟨-, hd⟩ | ⟨-, -, hd⟩ | ⟨-, -, -, hd⟩ | ⟨-, -, -, -, hd⟩ | ⟨hf, hd⟩ | ⟨-, hd⟩ <;> rw [hd]
  all_goals first | exact BitVec.le_refl _ | exact BitVec.le_def.mpr (Nat.le_of_lt hf.2.2.2.1)

/-- Drift detection leaves slots under which it cannot fire again at once. -/
theorem not_driftFires_driftDetection {m' p1' p2' p3' : BitVec 64}
    (h : driftDetection m p1 p2 p3 = (m', p1', p2', p3')) : ¬DriftFires m' p1' p2' p3' := by
  rcases @driftDetection_cases m p1 p2 p3 with
    ⟨-, hd⟩ | ⟨-, -, hd⟩ | ⟨-, -, -, hd⟩ | ⟨-, -, -, -, hd⟩ | ⟨-, hd⟩ | ⟨hf, hd⟩ <;>
    rw [hd] at h <;> simp only [Prod.mk.injEq] at h <;> obtain ⟨rfl, rfl, rfl, rfl⟩ := h
  all_goals first
    | exact hf
    | exact fun h => h.2.2.1 rfl
    | exact fun h => BitVec.lt_irrefl _ h.2.2.2.1
    | exact fun h => BitVec.lt_irrefl _ h.2.2.2.2.1
    | exact fun h => BitVec.lt_irrefl _ h.2.2.2.2.2

/-- A second drift detection right after a first one leaves `min_delay` where the first put it. -/
theorem detectDrift_detectDrift_minDelay (t : TcpSiad)
    (h1 : t.minDelay = s.detectDrift.minDelay) (h2 : t.prevMinDelay1 = s.detectDrift.prevMinDelay1)
    (h3 : t.prevMinDelay2 = s.detectDrift.prevMinDelay2)
    (h4 : t.prevMinDelay3 = s.detectDrift.prevMinDelay3) :
    t.detectDrift.minDelay = t.minDelay :=
  driftDetection_minDelay (by rw [h1, h2, h3, h4]; exact not_driftFires_driftDetection rfl)

/-! ### What a congestion event can do -/

/-- Without a configured `ConfigNumMs` the epoch length is `ConfigNumRtt` if set, else
`default_num_rtt`. -/
theorem numRtt_of_configNumMs_eq_zero (h : s.configNumMs = 0) :
    s.numRtt = pure (if s.configNumRtt = 0 then defaultNumRtt else s.configNumRtt) := by
  unfold numRtt
  by_cases h0 : s.configNumRtt = 0
  · rw [if_neg (not_not.mpr h0), if_neg fun hMs => hMs.1 h, if_pos h0]
  · rw [if_pos h0, if_neg h0]

/-- Everything a congestion event that does not fail can have done: it backdates the window,
runs the drift detection, and sets `snd_cwnd_cnt` to zero, `curr_num_rtt`, `incthresh`,
`alpha` and `prev_max_cwnd`; every other field is kept. -/
theorem getSsThreshSegments_ok {r : TcpSiad × BitVec 32}
    (h : s.getSsThreshSegments cwnd ssthresh = .ok r) :
    ∃ cwndMax scaled currNumRtt q,
      s.backdate cwnd ssthresh = .ok cwndMax ∧ s.detectDrift.scaleWindow cwndMax = .ok scaled ∧
      s.detectDrift.numRtt = .ok currNumRtt ∧
      divide 511 ((increaseThreshold s.prevMaxCwnd cwndMax (atLeast minCwnd scaled) -
        atLeast minCwnd scaled).setWidth 64) s.currDelay = .ok q ∧
      r = ({ s.detectDrift with
              sndCwndCnt := 0, currNumRtt
              incthresh := increaseThreshold s.prevMaxCwnd cwndMax (atLeast minCwnd scaled)
              alpha := (stdMax 1 q).setWidth 32, prevMaxCwnd := cwndMax },
            atLeast minCwnd scaled) := by
  simp only [getSsThreshSegments, bind_eq_ok, pure_eq_ok] at h
  obtain ⟨cwndMax, hBack, scaled, hScale, currNumRtt, hNum, q, hq, rfl⟩ := h
  exact ⟨cwndMax, scaled, currNumRtt, q, hBack, hScale, hNum, hq, rfl⟩

theorem getSsThresh_ok {tcb : TcpSocketState} {r : TcpSiad × BitVec 32}
    (h : s.getSsThresh tcb = .ok r) :
    ∃ ssthreshNew, r.2 = ssthreshNew * tcb.segmentSize ∧
      s.getSsThreshSegments tcb.getCwndInSegments tcb.getSsThreshInSegments =
        .ok (r.1, ssthreshNew) := by
  simp only [getSsThresh, bind_eq_ok, pure_eq_ok] at h
  obtain ⟨⟨s', v⟩, hSeg, rfl⟩ := h
  exact ⟨v, rfl, hSeg⟩

/-- A congestion event writes only `snd_cwnd_cnt`, `curr_num_rtt`, `incthresh`, `alpha` and
`prev_max_cwnd` over the drift detection's state. -/
theorem getSsThresh_frame {tcb : TcpSocketState} {s' : TcpSiad} {v : BitVec 32}
    (h : s.getSsThresh tcb = .ok (s', v)) :
    s' =
      { s.detectDrift with
        sndCwndCnt := 0, currNumRtt := s'.currNumRtt, incthresh := s'.incthresh
        alpha := s'.alpha, prevMaxCwnd := s'.prevMaxCwnd } := by
  obtain ⟨_, -, hSeg⟩ := s.getSsThresh_ok h
  obtain ⟨_, _, _, _, -, -, -, -, hEq⟩ := getSsThreshSegments_ok _ hSeg
  obtain ⟨rfl, -⟩ := Prod.mk.inj hEq
  rfl

/-- The backdating fails only in its first case, on a zero `curr_num_rtt` at line 384. -/
theorem backdate_error {e : Fault} (h : s.backdate cwnd ssthresh = .error e) :
    s.currNumRtt = 0 ∧ e = .divByZero 384 := by
  unfold backdate at h
  split at h
  · split at h
    · exact divide_eq_error.mp (map_eq_error.mp h)
    · split_ifs at h <;> exact absurd h pure_ne_error
  · exact absurd h pure_ne_error

/-- The division of line 459 is guarded by `curr_delay ≠ 0`: the scaling never fails. -/
theorem scaleWindow_ne_error {e : Fault} (cwndMax : BitVec 32) :
    s.scaleWindow cwndMax ≠ .error e := by
  unfold scaleWindow
  split
  · rename_i hGuard
    exact fun h => hGuard.2 (divide_eq_error.mp (map_eq_error.mp h)).1
  · exact pure_ne_error

/-- Line 485 fails only past its guard, with a configured `ConfigNumMs` and a nonzero
`curr_delay` whose mean with `min_delay`, `(curr_delay + min_delay) / 2`, is zero. -/
theorem numRtt_error {e : Fault} (h : s.numRtt = .error e) :
    s.configNumMs ≠ 0 ∧ s.currDelay ≠ 0 ∧ (s.currDelay + s.minDelay) / 2 = 0 ∧
      e = .divByZero 485 := by
  unfold numRtt at h
  split at h
  · exact absurd h pure_ne_error
  split at h
  · rename_i hGuard
    exact ⟨hGuard.1, hGuard.2.2, divide_eq_error.mp (map_eq_error.mp h)⟩
  · exact absurd h pure_ne_error

/-- A congestion event fails only at line 384, on a zero `curr_num_rtt`; at line 485, with a
configured `ConfigNumMs`, on a zero mean of `curr_delay` and the drift-corrected `min_delay`; or
at line 511, on a zero `curr_delay`. -/
theorem getSsThreshSegments_error {e : Fault} (h : s.getSsThreshSegments cwnd ssthresh = .error e) :
    (s.currNumRtt = 0 ∧ e = .divByZero 384) ∨
    (s.configNumMs ≠ 0 ∧ s.currDelay ≠ 0 ∧ (s.currDelay + s.detectDrift.minDelay) / 2 = 0 ∧
      e = .divByZero 485) ∨
    (s.currDelay = 0 ∧ e = .divByZero 511) := by
  simp only [getSsThreshSegments] at h
  rcases bind_eq_error.mp h with h | ⟨_, -, h⟩
  · exact .inl (backdate_error _ h)
  rcases bind_eq_error.mp h with h | ⟨_, -, h⟩
  · exact absurd h (scaleWindow_ne_error _ _)
  rcases bind_eq_error.mp h with h | ⟨_, -, h⟩
  · exact .inr (.inl (numRtt_error _ h))
  rcases bind_eq_error.mp h with h | ⟨_, -, h⟩
  · exact .inr (.inr (divide_eq_error.mp h))
  · exact absurd h pure_ne_error

/-- A congestion event with a nonzero epoch length and a zero `curr_delay` fails at line 511. -/
theorem getSsThreshSegments_of_currDelay_eq_zero (h0 : s.currNumRtt ≠ 0)
    (hDelay : s.currDelay = 0) :
    s.getSsThreshSegments cwnd ssthresh = .error (.divByZero 511) := by
  cases hg : s.getSsThreshSegments cwnd ssthresh with
  | ok r =>
      obtain ⟨_, _, _, _, -, -, -, hq, -⟩ := getSsThreshSegments_ok _ hg
      exact absurd hDelay (divide_eq_ok.mp hq).1
  | error e =>
      rcases getSsThreshSegments_error _ hg with ⟨h, -⟩ | ⟨-, h, -⟩ | ⟨-, rfl⟩
      · exact absurd h h0
      · exact absurd hDelay h
      · rfl

/-- `GetSsThresh` fails exactly where it does on window and threshold in segments. -/
theorem getSsThresh_error {tcb : TcpSocketState} {e : Fault} :
    s.getSsThresh tcb = .error e ↔
      s.getSsThreshSegments tcb.getCwndInSegments tcb.getSsThreshInSegments = .error e := by
  simp only [getSsThresh]
  constructor
  · intro h
    rcases bind_eq_error.mp h with h | ⟨_, -, h⟩
    · exact h
    · exact absurd h pure_ne_error
  · intro h; rw [h]; rfl

/-- Without an increase since the epoch began, the backdated window is the window. -/
theorem backdate_of_not_increasePerformed (h : s.increasePerformed = false) :
    s.backdate cwnd ssthresh = pure cwnd := by
  simp [backdate, h]

/-- The scaling reads only `min_delay` and `curr_delay`. -/
theorem scaleWindow_congr {t : TcpSiad} (hMin : t.minDelay = s.minDelay)
    (hCurr : t.currDelay = s.currDelay) (cwndMax : BitVec 32) :
    t.scaleWindow cwndMax = s.scaleWindow cwndMax := by
  simp only [scaleWindow, hMin, hCurr]

/-- The epoch length reads only the configured lengths and the delays. -/
theorem numRtt_congr {t : TcpSiad} (hRtt : t.configNumRtt = s.configNumRtt)
    (hMs : t.configNumMs = s.configNumMs) (hMin : t.minDelay = s.minDelay)
    (hCurr : t.currDelay = s.currDelay) : t.numRtt = s.numRtt := by
  simp only [numRtt, hRtt, hMs, hMin, hCurr]

/-- The converse of `getSsThreshSegments_ok`: each part succeeding makes the event succeed. -/
theorem getSsThreshSegments_of_parts {cwndMax scaled currNumRtt : BitVec 32} {q : BitVec 64}
    (hBack : s.backdate cwnd ssthresh = .ok cwndMax)
    (hScale : s.detectDrift.scaleWindow cwndMax = .ok scaled)
    (hNum : s.detectDrift.numRtt = .ok currNumRtt)
    (hq : divide 511 ((increaseThreshold s.prevMaxCwnd cwndMax (atLeast minCwnd scaled) -
        atLeast minCwnd scaled).setWidth 64) s.currDelay = .ok q) :
    s.getSsThreshSegments cwnd ssthresh =
      .ok ({ s.detectDrift with
              sndCwndCnt := 0, currNumRtt
              incthresh := increaseThreshold s.prevMaxCwnd cwndMax (atLeast minCwnd scaled)
              alpha := (stdMax 1 q).setWidth 32, prevMaxCwnd := cwndMax },
            atLeast minCwnd scaled) :=
  bind_eq_ok.mpr ⟨cwndMax, hBack, bind_eq_ok.mpr ⟨scaled, hScale,
    bind_eq_ok.mpr ⟨currNumRtt, hNum, bind_eq_ok.mpr ⟨q, hq, rfl⟩⟩⟩⟩

theorem getSsThresh_of_segments {tcb : TcpSocketState} {r : TcpSiad × BitVec 32}
    (h : s.getSsThreshSegments tcb.getCwndInSegments tcb.getSsThreshInSegments = .ok r) :
    s.getSsThresh tcb = .ok (r.1, r.2 * tcb.segmentSize) := by
  simp only [getSsThresh, h]; rfl

end TcpSiad
