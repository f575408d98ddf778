import TcpSiad.Model.Execution

/-! The epoch, from one `CA_EVENT_COMPLETE_CWR` to the next: `curr_num_rtt` is its length and
`dec_cnt` counts its additional decreases. From the constructor's state the length never changes
and `dec_cnt` stays at most `curr_num_rtt - 1`. -/
namespace TcpSiad

open TcpSocketState

variable {s s' : TcpSiad} {tcb tcb' : TcpSocketState} {k v n : BitVec 32} {c : Call}

/-! ### What each call does to the epoch -/

theorem increaseWindow_config (h : s.increaseWindow tcb k = .ok (s', tcb')) :
    s'.configNumRtt = s.configNumRtt ∧ s'.configNumMs = s.configNumMs := by
  rw [s.increaseWindow_frame h]
  exact ⟨rfl, rfl⟩

/-- `IncreaseWindow` either takes the regular increase, which keeps `dec_cnt` and refreshes the
epoch length from `ConfigNumRtt` (line 284), or an additional decrease, which line 188 admits
only below `curr_num_rtt - 1` and which counts one more. -/
theorem increaseWindow_epoch (h : s.increaseWindow tcb k = .ok (s', tcb')) :
    (s'.decCnt = s.decCnt ∧
      s'.currNumRtt = if s.configNumRtt ≠ 0 then s.configNumRtt else s.currNumRtt) ∨
    (s.decCnt < s.currNumRtt - 1 ∧ s'.decCnt = s.decCnt + 1 ∧ s'.currNumRtt = s.currNumRtt) := by
  obtain ⟨_, _, hAdj, -⟩ := s.increaseWindow_ok h
  obtain ⟨seen, -, hPrep⟩ := @prepare_fst s tcb
  rw [hPrep] at hAdj
  rcases adjustWindow_ok _ hAdj with ⟨hEnter, hDec⟩ | ⟨-, r, hr, hEq⟩
  · have hFrame : s' = _ := (additionalDecrease_ok _ hDec).1
    rw [hFrame]
    exact .inr ⟨hEnter.2.2, rfl, rfl⟩
  · obtain ⟨rfl, -⟩ := Prod.mk.inj hEq
    rw [(regularIncrease_ok _ hr).1]
    exact .inl ⟨rfl, rfl⟩

/-- A congestion event keeps the configured lengths and `dec_cnt`, and installs the epoch length
of lines 476-496. -/
theorem getSsThresh_epoch (h : s.getSsThresh tcb = .ok (s', v)) :
    s'.configNumRtt = s.configNumRtt ∧ s'.configNumMs = s.configNumMs ∧ s'.decCnt = s.decCnt ∧
      s.detectDrift.numRtt = .ok s'.currNumRtt := by
  obtain ⟨_, -, hSeg⟩ := s.getSsThresh_ok h
  obtain ⟨_, _, _, _, -, -, hNum, -, hEq⟩ := getSsThreshSegments_ok _ hSeg
  obtain ⟨rfl, -⟩ := Prod.mk.inj hEq
  exact ⟨rfl, rfl, rfl, hNum⟩

/-! ### The epoch from the constructor's state -/

/-- What the constructor `TcpSiad (configNumRtt, ·)` fixes about the epoch: the configured
lengths, the epoch length they give, and `dec_cnt` below it. -/
structure EpochInv (configNumRtt : BitVec 32) (t : TcpSiad) : Prop where
  configNumRtt_eq : t.configNumRtt = configNumRtt
  configNumMs_eq : t.configNumMs = 0
  currNumRtt_eq : t.currNumRtt = if configNumRtt = 0 then defaultNumRtt else configNumRtt
  decCnt_le : t.decCnt ≤ t.currNumRtt - 1

/-- A call that keeps the configured lengths and the epoch length, and either resets `dec_cnt`,
keeps it, or counts one more from below `curr_num_rtt - 1`, keeps the invariant. -/
theorem EpochInv.of_keep (hInv : EpochInv n s) (hRtt : s'.configNumRtt = s.configNumRtt)
    (hMs : s'.configNumMs = s.configNumMs) (hNum : s'.currNumRtt = s.currNumRtt)
    (hDec : s'.decCnt = 0 ∨ s'.decCnt = s.decCnt ∨
      (s.decCnt < s.currNumRtt - 1 ∧ s'.decCnt = s.decCnt + 1)) : EpochInv n s' := by
  obtain ⟨hRtt₀, hMs₀, hNum₀, hDec₀⟩ := hInv
  refine ⟨hRtt.trans hRtt₀, hMs.trans hMs₀, hNum.trans hNum₀, ?_⟩
  rw [hNum]
  rcases hDec with h | h | ⟨hLt, h⟩ <;> rw [h] <;> bv_omega

/-- Under the invariant the refresh of line 284 gives back the epoch length. -/
theorem EpochInv.refresh_eq (hInv : EpochInv n s) :
    (if s.configNumRtt ≠ 0 then s.configNumRtt else s.currNumRtt) = s.currNumRtt := by
  rw [hInv.currNumRtt_eq, hInv.configNumRtt_eq]
  by_cases h0 : n = 0
  · rw [if_neg (not_not.mpr h0), if_pos h0]
  · rw [if_pos h0, if_neg h0]

/-- Under the invariant a congestion event installs the epoch length the state already has. -/
theorem EpochInv.numRtt_eq (hInv : EpochInv n s) : s.detectDrift.numRtt = .ok s.currNumRtt := by
  rw [numRtt_of_configNumMs_eq_zero s.detectDrift hInv.configNumMs_eq, hInv.currNumRtt_eq]
  exact congrArg pure (by rw [← hInv.configNumRtt_eq]; rfl)

theorem EpochInv.currNumRtt_ne_zero (hInv : EpochInv n s) : s.currNumRtt ≠ 0 := by
  rw [hInv.currNumRtt_eq]
  split
  · decide
  · assumption

/-- `dec_cnt ≤ curr_num_rtt - 1` without wrap, as a count. -/
theorem EpochInv.decCnt_toNat_le (hInv : EpochInv n s) :
    s.decCnt.toNat ≤ s.currNumRtt.toNat - 1 := by
  have hNe := hInv.currNumRtt_ne_zero
  have hLe := hInv.decCnt_le
  bv_omega

theorem EpochInv.step (hInv : EpochInv n s) (h : s.step c = .ok s') : EpochInv n s' :=
  step_preserves (P := EpochInv n)
    (fun _ _ _ hInv => hInv.of_keep (by simp) (by simp) (by simp) (.inr (.inl (by simp))))
    (fun _ _ _ _ _ hInv hw => by
      obtain ⟨hRtt, hMs⟩ := increaseWindow_config hw
      rcases increaseWindow_epoch hw with ⟨hDec, hNum⟩ | ⟨hLt, hDec, hNum⟩
      · exact hInv.of_keep hRtt hMs (hNum.trans hInv.refresh_eq) (.inr (.inl hDec))
      · exact hInv.of_keep hRtt hMs hNum (.inr (.inr ⟨hLt, hDec⟩)))
    (fun _ _ _ _ hInv hg => by
      obtain ⟨hRtt, hMs, hDec, hNum⟩ := getSsThresh_epoch hg
      exact hInv.of_keep hRtt hMs (Except.ok.inj (hNum.symm.trans hInv.numRtt_eq))
        (.inr (.inl hDec)))
    (fun _ e hInv => hInv.of_keep (by simp) (by simp) (by simp) (by
      rw [cwndEvent_decCnt]
      split
      exacts [.inl rfl, .inr (.inl rfl)]))
    hInv h

theorem epochInv_of_reachable {configNumRtt cwnd : BitVec 32}
    (hr : Reachable (init configNumRtt cwnd) s) : EpochInv configNumRtt s :=
  hr.induct_inv ⟨rfl, rfl, rfl, by show (0 : BitVec 32) ≤ _; bv_omega⟩ fun _ _ _ => EpochInv.step

/-- From the constructor's state the epoch length never changes, and `dec_cnt` never exceeds
`curr_num_rtt - 1`. -/
theorem epoch_length_fixed_of_reachable {configNumRtt cwnd : BitVec 32}
    (hr : Reachable (init configNumRtt cwnd) s) :
    s.currNumRtt = (init configNumRtt cwnd).currNumRtt ∧ s.decCnt ≤ s.currNumRtt - 1 :=
  ⟨(epochInv_of_reachable hr).currNumRtt_eq, (epochInv_of_reachable hr).decCnt_le⟩

/-- After an additional decrease `dec_cnt` is one, within the default epoch of twenty. -/
theorem epoch_length_fixed_of_reachable_run :
    ∃ s, Reachable (init 0 10) s ∧ s.decCnt = 1 ∧
      s.currNumRtt = (init 0 10).currNumRtt ∧ s.decCnt ≤ s.currNumRtt - 1 := by
  have hr := @Reachable.run (init 0 10) _ _
    [.increaseWindow (ofSegments 5 0) 0, .getSsThresh (ofSegments 4000 0),
      .pktsAcked (ofSegments 0 0) 10, .cwndEvent .completeCwr, .pktsAcked (ofSegments 0 0) 30,
      .increaseWindow (ofSegments 1004 1000) 0] .refl rfl
  exact ⟨_, hr, rfl, epoch_length_fixed_of_reachable hr⟩

end TcpSiad
