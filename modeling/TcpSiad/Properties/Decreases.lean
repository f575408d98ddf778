import TcpSiad.Properties.Epoch

/-! The additional decreases of an epoch. `dec_cnt` counts them, so within an epoch a run takes
exactly the decreases `dec_cnt` gains, at most `curr_num_rtt - 1` from the constructor's state.
Once `min_delay_seen` is set the epoch takes no further decrease, and a decrease writes back a
window that the next call cannot decrease again. -/
namespace TcpSiad

open TcpSocketState

/-- The call is an `IncreaseWindow` that takes the additional decrease. -/
def Decreases (s : TcpSiad) : Call → Prop
  | .increaseWindow tcb _ => s.TakesAdditionalDecrease tcb
  | _ => False

instance (s : TcpSiad) : (c : Call) → Decidable (s.Decreases c)
  | .increaseWindow tcb _ => inferInstanceAs (Decidable (s.TakesAdditionalDecrease tcb))
  | .pktsAcked _ _ | .getSsThresh _ | .cwndEvent _ => inferInstanceAs (Decidable False)

/-- The additional decreases a run takes, call by call up to its first fault. -/
def additionalDecreases (s : TcpSiad) : List Call → Nat
  | [] => 0
  | c :: cs =>
    match s.step c with
    | .ok s' => (if s.Decreases c then 1 else 0) + additionalDecreases s' cs
    | .error _ => 0

variable {s s' t : TcpSiad} {c : Call} {cs : List Call} {n : BitVec 32}

theorem additionalDecreases_cons_of_ok (h : s.step c = .ok t) :
    additionalDecreases s (c :: cs) = (if s.Decreases c then 1 else 0) + additionalDecreases t cs :=
  by rw [additionalDecreases, h]

theorem additionalDecreases_cons_of_error {e : Fault} (h : s.step c = .error e) :
    additionalDecreases s (c :: cs) = 0 := by
  rw [additionalDecreases, h]

/-! ### One call -/

/-- Line 188 admits a decrease only below `curr_num_rtt - 1`. -/
theorem decCnt_lt_of_decreases (h : s.Decreases c) : s.decCnt < s.currNumRtt - 1 := by
  cases c with
  | increaseWindow tcb k =>
      obtain ⟨seen, -, hPrep⟩ := @prepare_fst s tcb
      have hLt := h.2.2
      rwa [hPrep] at hLt
  | pktsAcked | getSsThresh | cwndEvent => exact h.elim

/-- Outside `CA_EVENT_COMPLETE_CWR`, a call adds to `dec_cnt` exactly the decrease it takes. -/
theorem step_decCnt (hc : c ≠ .cwndEvent .completeCwr) (h : s.step c = .ok s') :
    s'.decCnt = if s.Decreases c then s.decCnt + 1 else s.decCnt := by
  cases c with
  | pktsAcked tcb rtt => cases h; simp [Decreases]
  | increaseWindow tcb k =>
      obtain ⟨⟨_, _⟩, hw, rfl⟩ := map_eq_ok.mp h
      exact s.increaseWindow_decCnt hw
  | getSsThresh tcb =>
      obtain ⟨⟨_, _⟩, hg, rfl⟩ := map_eq_ok.mp h
      simp [Decreases, (getSsThresh_epoch hg).2.2.1]
  | cwndEvent e =>
      cases h
      have he : e ≠ .completeCwr := fun he => hc (he ▸ rfl)
      simp [Decreases, cwndEvent_decCnt, he]

/-- The same as a count: the increment of a decrease does not wrap. -/
theorem step_decCnt_toNat (hc : c ≠ .cwndEvent .completeCwr) (h : s.step c = .ok s') :
    s'.decCnt.toNat = s.decCnt.toNat + if s.Decreases c then 1 else 0 := by
  rw [step_decCnt hc h]
  split
  · have hLt := decCnt_lt_of_decreases ‹_›
    bv_omega
  · rfl

/-- Once `min_delay_seen` is set, a call other than `CA_EVENT_COMPLETE_CWR` keeps it and takes no
additional decrease. -/
theorem step_minDelaySeen (hSeen : s.minDelaySeen = true) (hc : c ≠ .cwndEvent .completeCwr)
    (h : s.step c = .ok s') : s'.minDelaySeen = true ∧ ¬s.Decreases c := by
  cases c with
  | pktsAcked tcb rtt => cases h; exact ⟨pktsAcked_minDelaySeen _ _ _ hSeen, id⟩
  | increaseWindow tcb k =>
      obtain ⟨⟨_, _⟩, hw, rfl⟩ := map_eq_ok.mp h
      exact s.increaseWindow_minDelaySeen hSeen hw
  | getSsThresh tcb =>
      obtain ⟨⟨_, _⟩, hg, rfl⟩ := map_eq_ok.mp h
      rw [getSsThresh_frame _ hg]
      exact ⟨hSeen, id⟩
  | cwndEvent e =>
      cases h
      have he : e ≠ .completeCwr := fun he => hc (he ▸ rfl)
      rw [cwndEvent_minDelaySeen, if_neg he]
      exact ⟨hSeen, id⟩

/-! ### Between two decreases -/

/-- Line 187, "at least 1 RTT must elapse since last decrease": an `IncreaseWindow` that takes
the additional decrease computes a window `cw` and threshold `st` in segments, writes them back
in bytes, and a later `IncreaseWindow` from the state it leaves cannot decrease again if it
reads the same two values and `cw` is below `2^31`. -/
theorem increaseWindow_decrease_spaced {tcb tcb' : TcpSocketState} {k : BitVec 32}
    (hTake : s.TakesAdditionalDecrease tcb) (h : s.increaseWindow tcb k = .ok (s', tcb')) :
    ∃ cw st,
      (s.prepare tcb).1.increaseWindowSegments (s.prepare tcb).2.1 (s.prepare tcb).2.2 k =
        .ok (s', cw, st) ∧
      tcb'.cWnd = cw * tcb.segmentSize ∧ tcb'.ssThresh = st * tcb.segmentSize ∧
      (cw.toNat < 2 ^ 31 → ∀ tcb'' : TcpSocketState, tcb''.getCwndInSegments = cw →
        tcb''.getSsThreshInSegments = st → ¬s'.TakesAdditionalDecrease tcb'') := by
  obtain ⟨cwnd, ssthresh, hAdj, rfl⟩ := s.increaseWindow_ok h
  obtain ⟨-, hDec⟩ := (adjustWindow_ok _ hAdj).resolve_right fun hRegular => hRegular.1 hTake
  obtain ⟨seen, -, hPrep⟩ := @prepare_fst s tcb
  have hStarted : s'.isStart = false := by
    have hFrame : s' = _ := (additionalDecrease_ok _ hDec).1
    rw [hFrame, hPrep]
  refine ⟨_, _, increaseWindowSegments_of_adjustWindow _ hAdj, rfl, rfl,
    fun hFit tcb'' hCwnd hSsthresh hNext => ?_⟩
  have hGt := hNext.1
  obtain ⟨seen', -, hPrep'⟩ := @prepare_fst s' tcb''
  rw [prepare_cwnd, prepare_ssthresh _ hStarted, hCwnd, hSsthresh, hPrep'] at hGt
  exact additionalDecrease_written_back _ hDec hFit hGt

/-- In a fresh epoch after a sample of 30 ms over a minimum of 10 ms, a window of 1004 segments
above a threshold of 1000 takes a decrease to 612 segments, with the threshold at 611. -/
theorem increaseWindow_decrease_spaced_run :
    ∃ s s' tcb', Reachable (init 0 10) s ∧ s.TakesAdditionalDecrease (ofSegments 1004 1000) ∧
      s.increaseWindow (ofSegments 1004 1000) 0 = .ok (s', tcb') ∧ tcb'.cWnd = 612 ∧
      ∃ cw st,
        (s.prepare (ofSegments 1004 1000)).1.increaseWindowSegments
            (s.prepare (ofSegments 1004 1000)).2.1 (s.prepare (ofSegments 1004 1000)).2.2 0 =
          .ok (s', cw, st) ∧
        tcb'.cWnd = cw * (ofSegments 1004 1000).segmentSize ∧
        tcb'.ssThresh = st * (ofSegments 1004 1000).segmentSize ∧
        (cw.toNat < 2 ^ 31 → ∀ tcb'' : TcpSocketState, tcb''.getCwndInSegments = cw →
          tcb''.getSsThreshInSegments = st → ¬s'.TakesAdditionalDecrease tcb'') := by
  have hr := @Reachable.run (init 0 10) _ _
    [.increaseWindow (ofSegments 5 0) 0, .getSsThresh (ofSegments 4000 0),
      .pktsAcked (ofSegments 0 0) 10, .cwndEvent .completeCwr, .pktsAcked (ofSegments 0 0) 30]
    .refl rfl
  refine ⟨_, _, _, hr, ?take, rfl, rfl, @increaseWindow_decrease_spaced _ _ _ _ 0 ?take rfl⟩
  decide

/-! ### Over one epoch -/

/-- Under the epoch invariant, a run within one epoch takes at most `curr_num_rtt - 1 - dec_cnt`
additional decreases. -/
theorem additionalDecreases_le (hInv : EpochInv n s)
    (hEpoch : ∀ c ∈ cs, c ≠ .cwndEvent .completeCwr) :
    s.decCnt.toNat + additionalDecreases s cs ≤ s.currNumRtt.toNat - 1 := by
  induction cs generalizing s with
  | nil => exact hInv.decCnt_toNat_le
  | cons c cs ih =>
      cases hs : s.step c with
      | error e =>
          rw [additionalDecreases_cons_of_error hs]
          exact hInv.decCnt_toNat_le
      | ok t =>
          have hc := hEpoch c (.head cs)
          have hNext := ih (hInv.step hs) fun c' hc' => hEpoch c' (.tail c hc')
          have hNum : t.currNumRtt = s.currNumRtt :=
            (hInv.step hs).currNumRtt_eq.trans hInv.currNumRtt_eq.symm
          rw [hNum, step_decCnt_toNat hc hs] at hNext
          rw [additionalDecreases_cons_of_ok hs]
          omega

/-- A run within one epoch adds to `dec_cnt` exactly the additional decreases it takes. -/
theorem run_decCnt (hInv : EpochInv n s) (hEpoch : ∀ c ∈ cs, c ≠ .cwndEvent .completeCwr)
    (h : s.run cs = .ok s') : s'.decCnt.toNat = s.decCnt.toNat + additionalDecreases s cs := by
  induction cs generalizing s with
  | nil => cases h; rfl
  | cons c cs ih =>
      obtain ⟨t, hs, hRest⟩ := bind_eq_ok.mp h
      rw [additionalDecreases_cons_of_ok hs,
        ih (hInv.step hs) (fun c' hc' => hEpoch c' (.tail c hc')) hRest,
        step_decCnt_toNat (hEpoch c (.head cs)) hs]
      omega

/-- From the constructor's state, `dec_cnt` counts exactly the additional decreases since the
last `CA_EVENT_COMPLETE_CWR`: a run within one epoch adds to it the decreases it takes, and
these stop at `curr_num_rtt - 1 - dec_cnt`, whether or not the run ends in a fault. -/
theorem additionalDecreases_within_epoch {configNumRtt cwnd : BitVec 32}
    (hr : Reachable (init configNumRtt cwnd) s)
    (hEpoch : ∀ c ∈ cs, c ≠ .cwndEvent .completeCwr) :
    s.decCnt.toNat + additionalDecreases s cs ≤ s.currNumRtt.toNat - 1 ∧
    ∀ s', s.run cs = .ok s' → s'.decCnt.toNat = s.decCnt.toNat + additionalDecreases s cs :=
  ⟨additionalDecreases_le (epochInv_of_reachable hr) hEpoch,
    fun _ => run_decCnt (epochInv_of_reachable hr) hEpoch⟩

/-- A fresh epoch of the default twenty round trips, after a sample of 30 ms over a minimum of
10 ms: two windows far above the threshold take two decreases. -/
theorem additionalDecreases_within_epoch_run :
    ∃ s cs, Reachable (init 0 10) s ∧ (∀ c ∈ cs, c ≠ .cwndEvent .completeCwr) ∧
      additionalDecreases s cs = 2 ∧
      (s.decCnt.toNat + additionalDecreases s cs ≤ s.currNumRtt.toNat - 1 ∧
      ∀ s', s.run cs = .ok s' → s'.decCnt.toNat = s.decCnt.toNat + additionalDecreases s cs) := by
  have hr := @Reachable.run (init 0 10) _ _
    [.increaseWindow (ofSegments 5 0) 0, .getSsThresh (ofSegments 4000 0),
      .pktsAcked (ofSegments 0 0) 10, .cwndEvent .completeCwr, .pktsAcked (ofSegments 0 0) 30]
    .refl rfl
  have hEpoch : ∀ c ∈ [Call.increaseWindow (ofSegments 1004 1000) 0,
      .increaseWindow (ofSegments 3000 1000) 0], c ≠ .cwndEvent .completeCwr := by simp
  exact ⟨_, _, hr, hEpoch, rfl, additionalDecreases_within_epoch hr hEpoch⟩

/-- Once `min_delay_seen` is set, a run that does not end the epoch takes no additional decrease
and leaves `min_delay_seen` set and `dec_cnt` as it was. -/
theorem additionalDecreases_eq_zero_of_minDelaySeen (hSeen : s.minDelaySeen = true)
    (hEpoch : ∀ c ∈ cs, c ≠ .cwndEvent .completeCwr) :
    additionalDecreases s cs = 0 ∧
    ∀ s', s.run cs = .ok s' → s'.minDelaySeen = true ∧ s'.decCnt = s.decCnt := by
  induction cs generalizing s with
  | nil => exact ⟨rfl, fun _ h => by cases h; exact ⟨hSeen, rfl⟩⟩
  | cons c cs ih =>
      cases hs : s.step c with
      | error e =>
          refine ⟨additionalDecreases_cons_of_error hs, fun _ h => ?_⟩
          obtain ⟨_, ht, -⟩ := bind_eq_ok.mp h
          rw [hs] at ht
          cases ht
      | ok t =>
          have hc := hEpoch c (.head cs)
          obtain ⟨hSeen', hNo⟩ := step_minDelaySeen hSeen hc hs
          have hDec : t.decCnt = s.decCnt := by rw [step_decCnt hc hs, if_neg hNo]
          obtain ⟨hZero, hRun⟩ := ih hSeen' fun c' hc' => hEpoch c' (.tail c hc')
          refine ⟨by rw [additionalDecreases_cons_of_ok hs, if_neg hNo, hZero], fun s' h => ?_⟩
          obtain ⟨_, ht, hRest⟩ := bind_eq_ok.mp h
          rw [hs] at ht
          cases ht
          exact (hRun s' hRest).imp_right (·.trans hDec)

/-- The constructor sets `min_delay_seen`, so before the first `CA_EVENT_COMPLETE_CWR` no window,
however far above the threshold, takes an additional decrease. -/
theorem additionalDecreases_eq_zero_of_minDelaySeen_init :
    (init 0 10).minDelaySeen = true ∧
      (∀ c ∈ [Call.pktsAcked (ofSegments 0 0) 10, .increaseWindow (ofSegments 1004 1000) 0],
        c ≠ .cwndEvent .completeCwr) ∧
      (additionalDecreases (init 0 10)
          [.pktsAcked (ofSegments 0 0) 10, .increaseWindow (ofSegments 1004 1000) 0] = 0 ∧
      ∀ s', (init 0 10).run
          [.pktsAcked (ofSegments 0 0) 10, .increaseWindow (ofSegments 1004 1000) 0] = .ok s' →
        s'.minDelaySeen = true ∧ s'.decCnt = (init 0 10).decCnt) := by
  have hEpoch : ∀ c ∈ [Call.pktsAcked (ofSegments 0 0) 10,
      .increaseWindow (ofSegments 1004 1000) 0], c ≠ .cwndEvent .completeCwr := by simp
  exact ⟨rfl, hEpoch, additionalDecreases_eq_zero_of_minDelaySeen rfl hEpoch⟩

end TcpSiad
