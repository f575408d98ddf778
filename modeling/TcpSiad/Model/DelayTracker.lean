import TcpSiad.Model.State

/-! The delay tracker: `PktsAcked`, which filters round-trip samples and tracks the all-time and
per-epoch minimum delay, and `CwndEvent`, whose `CA_EVENT_COMPLETE_CWR` starts a new epoch. -/
namespace TcpSiad

variable (s : TcpSiad) (tcb : TcpSocketState) (rtt : BitVec 64) (e : TcpCAEvent)

/-- `PktsAcked`. `rtt` is `rtt.GetMilliSeconds ()`, the sample in whole milliseconds; the call's
`segmentsAcked` is not read. A sample at or below the epoch minimum but above the all-time one
replaces the all-time minimum once the window is more than `alpha + 1` above the threshold. -/
def pktsAcked : TcpSiad :=
  let filtered := { s with currDelay := stdMin rtt s.prevDelay, prevDelay := rtt }
  if rtt ≤ s.minDelay then
    { filtered with minDelay := rtt, currMinDelay := rtt, minDelaySeen := true }
  else if rtt ≤ s.currMinDelay then
    if tcb.getCwndInSegments > tcb.getSsThreshInSegments + s.alpha + 1 then
      { filtered with currMinDelay := rtt, minDelay := rtt, minDelaySeen := true }
    else
      { filtered with currMinDelay := rtt }
  else filtered

/-- `CwndEvent`: only the end of a window reduction does anything; it opens a new epoch. -/
def cwndEvent : TcpCAEvent → TcpSiad
  | .completeCwr =>
    { s with currMinDelay := intMax, decCnt := 0, minDelaySeen := false,
             increasePerformed := false }
  | _ => s

/-- `PktsAcked` writes only the two filtered delays, the two minima and `min_delay_seen`. -/
theorem pktsAcked_frame :
    s.pktsAcked tcb rtt =
      { s with
        currDelay := stdMin rtt s.prevDelay, prevDelay := rtt
        minDelay := (s.pktsAcked tcb rtt).minDelay
        currMinDelay := (s.pktsAcked tcb rtt).currMinDelay
        minDelaySeen := (s.pktsAcked tcb rtt).minDelaySeen } := by
  simp only [pktsAcked]; split_ifs <;> rfl

@[simp] theorem pktsAcked_currDelay : (s.pktsAcked tcb rtt).currDelay = stdMin rtt s.prevDelay := by
  rw [pktsAcked_frame]

@[simp] theorem pktsAcked_prevDelay : (s.pktsAcked tcb rtt).prevDelay = rtt := by
  rw [pktsAcked_frame]

@[simp] theorem pktsAcked_alpha : (s.pktsAcked tcb rtt).alpha = s.alpha := by
  rw [pktsAcked_frame]

@[simp] theorem pktsAcked_sndCwndCnt : (s.pktsAcked tcb rtt).sndCwndCnt = s.sndCwndCnt := by
  rw [pktsAcked_frame]

@[simp] theorem pktsAcked_currNumRtt : (s.pktsAcked tcb rtt).currNumRtt = s.currNumRtt := by
  rw [pktsAcked_frame]

@[simp] theorem pktsAcked_configNumRtt : (s.pktsAcked tcb rtt).configNumRtt = s.configNumRtt := by
  rw [pktsAcked_frame]

@[simp] theorem pktsAcked_isStart : (s.pktsAcked tcb rtt).isStart = s.isStart := by
  rw [pktsAcked_frame]

@[simp] theorem pktsAcked_configNumMs : (s.pktsAcked tcb rtt).configNumMs = s.configNumMs := by
  rw [pktsAcked_frame]

@[simp] theorem pktsAcked_prevMinDelay1 :
    (s.pktsAcked tcb rtt).prevMinDelay1 = s.prevMinDelay1 := by
  rw [pktsAcked_frame]

@[simp] theorem pktsAcked_prevMinDelay2 :
    (s.pktsAcked tcb rtt).prevMinDelay2 = s.prevMinDelay2 := by
  rw [pktsAcked_frame]

@[simp] theorem pktsAcked_prevMinDelay3 :
    (s.pktsAcked tcb rtt).prevMinDelay3 = s.prevMinDelay3 := by
  rw [pktsAcked_frame]

@[simp] theorem pktsAcked_decCnt : (s.pktsAcked tcb rtt).decCnt = s.decCnt := by
  rw [pktsAcked_frame]

@[simp] theorem cwndEvent_alpha : (s.cwndEvent e).alpha = s.alpha := by
  cases e <;> rfl

@[simp] theorem cwndEvent_sndCwndCnt : (s.cwndEvent e).sndCwndCnt = s.sndCwndCnt := by
  cases e <;> rfl

@[simp] theorem cwndEvent_currNumRtt : (s.cwndEvent e).currNumRtt = s.currNumRtt := by
  cases e <;> rfl

@[simp] theorem cwndEvent_configNumRtt : (s.cwndEvent e).configNumRtt = s.configNumRtt := by
  cases e <;> rfl

@[simp] theorem cwndEvent_configNumMs : (s.cwndEvent e).configNumMs = s.configNumMs := by
  cases e <;> rfl

@[simp] theorem cwndEvent_minDelay : (s.cwndEvent e).minDelay = s.minDelay := by
  cases e <;> rfl

@[simp] theorem cwndEvent_currDelay : (s.cwndEvent e).currDelay = s.currDelay := by
  cases e <;> rfl

@[simp] theorem cwndEvent_prevDelay : (s.cwndEvent e).prevDelay = s.prevDelay := by
  cases e <;> rfl

@[simp] theorem cwndEvent_prevMinDelay1 : (s.cwndEvent e).prevMinDelay1 = s.prevMinDelay1 := by
  cases e <;> rfl

@[simp] theorem cwndEvent_prevMinDelay2 : (s.cwndEvent e).prevMinDelay2 = s.prevMinDelay2 := by
  cases e <;> rfl

@[simp] theorem cwndEvent_prevMinDelay3 : (s.cwndEvent e).prevMinDelay3 = s.prevMinDelay3 := by
  cases e <;> rfl

/-- Only the end of a window reduction resets `dec_cnt`. -/
theorem cwndEvent_decCnt : (s.cwndEvent e).decCnt = if e = .completeCwr then 0 else s.decCnt := by
  cases e <;> rfl

/-- Only the end of a window reduction resets the epoch minimum, to `INT_MAX`. -/
theorem cwndEvent_currMinDelay :
    (s.cwndEvent e).currMinDelay = if e = .completeCwr then intMax else s.currMinDelay := by
  cases e <;> rfl

/-- Only the end of a window reduction clears `min_delay_seen`. -/
theorem cwndEvent_minDelaySeen :
    (s.cwndEvent e).minDelaySeen = if e = .completeCwr then false else s.minDelaySeen := by
  cases e <;> rfl

/-- `PktsAcked` never clears `min_delay_seen`. -/
theorem pktsAcked_minDelaySeen (h : s.minDelaySeen = true) :
    (s.pktsAcked tcb rtt).minDelaySeen = true := by
  simp only [pktsAcked]; split_ifs <;> first | rfl | exact h

/-- A sample at or below the all-time minimum always marks the minimum as seen. -/
theorem pktsAcked_minDelaySeen_of_le (h : rtt ≤ s.minDelay) :
    (s.pktsAcked tcb rtt).minDelaySeen = true := by
  simp [pktsAcked, h]

/-- A sample at or below the epoch minimum marks the minimum as seen whenever the window is more
than `alpha + 1` segments above the threshold. -/
theorem pktsAcked_minDelaySeen_of_promote (h : rtt ≤ s.currMinDelay)
    (hPromote : tcb.getCwndInSegments > tcb.getSsThreshInSegments + s.alpha + 1) :
    (s.pktsAcked tcb rtt).minDelaySeen = true := by
  simp only [pktsAcked]; split_ifs <;> simp_all

/-- Whatever the sample, `PktsAcked` leaves `min_delay` at or below it, and the sample becomes
`prev_delay`. -/
theorem pktsAcked_minDelay_le_prevDelay :
    (s.pktsAcked tcb rtt).minDelay ≤ (s.pktsAcked tcb rtt).prevDelay := by
  simp only [pktsAcked]
  split_ifs <;> first | exact BitVec.le_refl _ | (dsimp only; bv_omega)

/-- Outside the promotion branch, a sample leaves `min_delay ≤ curr_delay` wherever
`min_delay ≤ prev_delay` held before it. -/
theorem pktsAcked_minDelay_le_currDelay (hInv : s.minDelay ≤ s.prevDelay)
    (hNoPromote : ¬(s.minDelay < rtt ∧ rtt ≤ s.currMinDelay ∧
      tcb.getCwndInSegments > tcb.getSsThreshInSegments + s.alpha + 1)) :
    (s.pktsAcked tcb rtt).minDelay ≤ (s.pktsAcked tcb rtt).currDelay := by
  rw [pktsAcked_currDelay, BitVec.le_def, toNat_stdMin]
  simp only [pktsAcked]
  split_ifs <;> (dsimp only; bv_omega)

/-- Where the all-time minimum is at most the epoch's, a sample leaves the epoch minimum at the
smaller of the two. -/
theorem pktsAcked_currMinDelay (hInv : s.minDelay ≤ s.currMinDelay) :
    (s.pktsAcked tcb rtt).currMinDelay = stdMin rtt s.currMinDelay := by
  by_cases hCurr : rtt ≤ s.currMinDelay
  · rw [stdMin, if_neg (BitVec.not_lt.mpr hCurr)]
    simp only [pktsAcked, hCurr, if_true]
    split_ifs <;> rfl
  · have hMin : ¬rtt ≤ s.minDelay := fun h => hCurr (BitVec.le_trans h hInv)
    rw [stdMin, if_pos (BitVec.not_le.mp hCurr)]
    simp only [pktsAcked, if_neg hMin, if_neg hCurr]

/-- A sample keeps the all-time minimum at or below the epoch's. -/
theorem pktsAcked_minDelay_le_currMinDelay (hInv : s.minDelay ≤ s.currMinDelay) :
    (s.pktsAcked tcb rtt).minDelay ≤ (s.pktsAcked tcb rtt).currMinDelay := by
  simp only [pktsAcked]
  split_ifs with hMin
  · exact BitVec.le_refl rtt
  · exact BitVec.le_refl rtt
  · exact le_of_lt_word (BitVec.not_le.mp hMin)
  · exact hInv

end TcpSiad
