import TcpSiad.Properties.Drift

/-! The drift detector as its design states it: `recordMinimum` updates a list of recorded minima,
and `slotHistory` reads that list off the zero-padded slots `prev_min_delay1..3`. Over ordered
slots, lines 417-452 are that update, so every congestion event records the minimum as the
design does. -/
namespace TcpSiad

open TcpSocketState

/-- The drift detection of the design, over the recorded minima `hist`, oldest first. Returns the
new `min_delay` and the new record. -/
def recordMinimum (m : BitVec 64) (hist : List (BitVec 64)) : BitVec 64 × List (BitVec 64) :=
  if hist.any (m < ·) then (m, [])
  else if hist.getLastD 0 < m then
    if hist.length < 3 then (m, hist ++ [m]) else (hist.headD 0, [hist.headD 0])
  else (m, hist)

/-- The minima three slots record, oldest first: the filled slots before the first free one. -/
def slotHistory (p1 p2 p3 : BitVec 64) : List (BitVec 64) :=
  [p1, p2, p3].takeWhile (· ≠ 0)

/-- The minima a state records. -/
def recordedMinima (s : TcpSiad) : List (BitVec 64) :=
  slotHistory s.prevMinDelay1 s.prevMinDelay2 s.prevMinDelay3

/-- What a result of the drift detection means to the design: `min_delay` and the record. -/
def historyOf (d : BitVec 64 × BitVec 64 × BitVec 64 × BitVec 64) :
    BitVec 64 × List (BitVec 64) :=
  (d.1, slotHistory d.2.1 d.2.2.1 d.2.2.2)

variable {m p p1 p2 p3 : BitVec 64} {hist : List (BitVec 64)}

/-! ### Reading the slots -/

theorem slotHistory_zero : slotHistory 0 p2 p3 = [] := by
  simp [slotHistory]

theorem slotHistory_one (h1 : p1 ≠ 0) : slotHistory p1 0 p3 = [p1] := by
  simp only [slotHistory, List.takeWhile_cons, h1, ne_eq]; simp

theorem slotHistory_two (h1 : p1 ≠ 0) (h2 : p2 ≠ 0) : slotHistory p1 p2 0 = [p1, p2] := by
  simp only [slotHistory, List.takeWhile_cons, h1, h2, ne_eq]; simp

theorem slotHistory_three (h1 : p1 ≠ 0) (h2 : p2 ≠ 0) (h3 : p3 ≠ 0) :
    slotHistory p1 p2 p3 = [p1, p2, p3] := by
  simp only [slotHistory, List.takeWhile_cons, h1, h2, h3, ne_eq]; simp

/-- Ordered slots hold no, one, two or three increasing minima. -/
theorem SlotsOrdered.shape (h : SlotsOrdered p1 p2 p3) :
    (p1 = 0 ∧ p2 = 0 ∧ p3 = 0) ∨ (p1 ≠ 0 ∧ p2 = 0 ∧ p3 = 0) ∨
    (p1 ≠ 0 ∧ p2 ≠ 0 ∧ p3 = 0 ∧ p1 < p2) ∨
    (p1 ≠ 0 ∧ p2 ≠ 0 ∧ p3 ≠ 0 ∧ p1 < p2 ∧ p2 < p3) := by
  by_cases h1 : p1 = 0
  · exact .inl ⟨h1, h.free1 h1⟩
  by_cases h2 : p2 = 0
  · exact .inr (.inl ⟨h1, h2, h.free2 h2⟩)
  by_cases h3 : p3 = 0
  · exact .inr (.inr (.inl ⟨h1, h2, h3, h.lt12 h1 h2⟩))
  · exact .inr (.inr (.inr ⟨h1, h2, h3, h.lt12 h1 h2, h.lt23 h2 h3⟩))

/-! ### The design's update -/

theorem recordMinimum_of_lt (hp : p ∈ hist) (h : m < p) : recordMinimum m hist = (m, []) :=
  if_pos (List.any_eq_true.mpr ⟨p, hp, decide_eq_true h⟩)

theorem recordMinimum_of_le (h : ∀ p ∈ hist, p ≤ m) :
    recordMinimum m hist =
      if hist.getLastD 0 < m then
        if hist.length < 3 then (m, hist ++ [m]) else (hist.headD 0, [hist.headD 0])
      else (m, hist) := by
  refine if_neg fun hAny => ?_
  obtain ⟨p, hp, hLt⟩ := List.any_eq_true.mp hAny
  exact BitVec.not_lt.mpr (h p hp) (of_decide_eq_true hLt)

theorem recordMinimum_keep (h : ∀ p ∈ hist, p ≤ m) (hTop : ¬hist.getLastD 0 < m) :
    recordMinimum m hist = (m, hist) := by
  rw [recordMinimum_of_le h, if_neg hTop]

theorem recordMinimum_rise (h : ∀ p ∈ hist, p ≤ m) (hTop : hist.getLastD 0 < m)
    (hLen : hist.length < 3) : recordMinimum m hist = (m, hist ++ [m]) := by
  rw [recordMinimum_of_le h, if_pos hTop, if_pos hLen]

theorem recordMinimum_drift (h : ∀ p ∈ hist, p ≤ m) (hTop : hist.getLastD 0 < m)
    (hLen : ¬hist.length < 3) : recordMinimum m hist = (hist.headD 0, [hist.headD 0]) := by
  rw [recordMinimum_of_le h, if_pos hTop, if_neg hLen]

/-! ### The code's update, by the number of recorded minima -/

theorem historyOf_reset (h : m < p1 ∨ m < p2 ∨ m < p3) :
    historyOf (driftDetection m p1 p2 p3) = (m, []) := by
  rw [driftDetection, if_pos h]
  exact congrArg (Prod.mk m) slotHistory_zero

theorem historyOf_driftDetection_none :
    historyOf (driftDetection m 0 0 0) = recordMinimum m [] := by
  have hNo : ¬(m < 0 ∨ m < 0 ∨ m < 0) := by
    simp only [not_lt_zero_word, or_self, not_false_eq_true]
  rw [driftDetection, if_neg hNo]
  by_cases hm : 0 < m
  · rw [if_pos hm, if_pos rfl, recordMinimum_rise (by simp) hm (by simp)]
    exact congrArg (Prod.mk m) (slotHistory_one (ne_zero_of_gt hm))
  · rw [if_neg hm, recordMinimum_keep (by simp) hm]
    exact congrArg (Prod.mk m) slotHistory_zero

theorem historyOf_driftDetection_one (h1 : p1 ≠ 0) :
    historyOf (driftDetection m p1 0 0) = recordMinimum m [p1] := by
  rcases lt_or_eq_or_gt m p1 with hLt | rfl | hGt
  · rw [historyOf_reset (.inl hLt), recordMinimum_of_lt (List.mem_singleton_self p1) hLt]
  · have hNo : ¬(m < m ∨ m < 0 ∨ m < 0) := by
      simp only [not_lt_zero_word, BitVec.lt_irrefl, or_self, not_false_eq_true]
    rw [driftDetection, if_neg hNo, if_neg (BitVec.lt_irrefl m),
      recordMinimum_keep (by simp) (BitVec.lt_irrefl m)]
    exact congrArg (Prod.mk m) (slotHistory_one h1)
  · have hNo : ¬(m < p1 ∨ m < 0 ∨ m < 0) := by
      simp only [not_lt_zero_word, BitVec.lt_asymm hGt, or_self, not_false_eq_true]
    rw [driftDetection, if_neg hNo, if_pos hGt, if_neg h1, if_pos rfl,
      recordMinimum_rise (by simpa using le_of_lt_word hGt) hGt (by simp)]
    exact congrArg (Prod.mk m) (slotHistory_two h1 (ne_zero_of_gt hGt))

theorem historyOf_driftDetection_two (h1 : p1 ≠ 0) (h2 : p2 ≠ 0) (h12 : p1 < p2) :
    historyOf (driftDetection m p1 p2 0) = recordMinimum m [p1, p2] := by
  rcases lt_or_eq_or_gt m p2 with hLt | rfl | hGt
  · rw [historyOf_reset (.inr (.inl hLt)), recordMinimum_of_lt (by simp) hLt]
  · have hNo : ¬(m < p1 ∨ m < m ∨ m < 0) := by
      simp only [not_lt_zero_word, BitVec.lt_irrefl, BitVec.lt_asymm h12, or_self,
        not_false_eq_true]
    rw [driftDetection, if_neg hNo, if_pos h12, if_neg h1, if_neg h2,
      if_neg (BitVec.lt_irrefl m),
      recordMinimum_keep (by simpa using le_of_lt_word h12) (BitVec.lt_irrefl m)]
    exact congrArg (Prod.mk m) (slotHistory_two h1 h2)
  · have h1m := BitVec.lt_trans h12 hGt
    have hNo : ¬(m < p1 ∨ m < p2 ∨ m < 0) := by
      simp only [not_lt_zero_word, BitVec.lt_asymm h1m, BitVec.lt_asymm hGt, or_self,
        not_false_eq_true]
    rw [driftDetection, if_neg hNo, if_pos h1m, if_neg h1, if_neg h2, if_pos hGt, if_pos rfl,
      recordMinimum_rise (by simpa using ⟨le_of_lt_word h1m, le_of_lt_word hGt⟩) hGt (by simp)]
    exact congrArg (Prod.mk m) (slotHistory_three h1 h2 (ne_zero_of_gt hGt))

theorem historyOf_driftDetection_three (h1 : p1 ≠ 0) (h2 : p2 ≠ 0) (h3 : p3 ≠ 0)
    (h12 : p1 < p2) (h23 : p2 < p3) :
    historyOf (driftDetection m p1 p2 p3) = recordMinimum m [p1, p2, p3] := by
  rcases lt_or_eq_or_gt m p3 with hLt | rfl | hGt
  · rw [historyOf_reset (.inr (.inr hLt)), recordMinimum_of_lt (by simp) hLt]
  · have h1m := BitVec.lt_trans h12 h23
    have hNo : ¬(m < p1 ∨ m < p2 ∨ m < m) := by
      simp only [BitVec.lt_irrefl, BitVec.lt_asymm h1m, BitVec.lt_asymm h23, or_self,
        not_false_eq_true]
    rw [driftDetection, if_neg hNo, if_pos h1m, if_neg h1, if_neg h2, if_pos h23, if_neg h3,
      if_neg (BitVec.lt_irrefl m), recordMinimum_keep
        (by simpa using ⟨le_of_lt_word h1m, le_of_lt_word h23⟩) (BitVec.lt_irrefl m)]
    exact congrArg (Prod.mk m) (slotHistory_three h1 h2 h3)
  · have h2m := BitVec.lt_trans h23 hGt
    have h1m := BitVec.lt_trans h12 h2m
    have hNo : ¬(m < p1 ∨ m < p2 ∨ m < p3) := by
      simp only [BitVec.lt_asymm h1m, BitVec.lt_asymm h2m, BitVec.lt_asymm hGt, or_self,
        not_false_eq_true]
    rw [driftDetection, if_neg hNo, if_pos h1m, if_neg h1, if_neg h2, if_pos h2m, if_neg h3,
      if_pos hGt, recordMinimum_drift
        (by simpa using ⟨le_of_lt_word h1m, le_of_lt_word h2m, le_of_lt_word hGt⟩) hGt (by simp)]
    exact congrArg (Prod.mk p1) (slotHistory_one h1)

/-- Over ordered slots the code's drift detection is the design's: the slots it leaves record
what `recordMinimum` records, and it installs the same `min_delay`. -/
theorem driftDetection_refines (h : SlotsOrdered p1 p2 p3) :
    historyOf (driftDetection m p1 p2 p3) = recordMinimum m (slotHistory p1 p2 p3) := by
  rcases h.shape with ⟨rfl, rfl, rfl⟩ | ⟨h1, rfl, rfl⟩ | ⟨h1, h2, rfl, h12⟩ |
    ⟨h1, h2, h3, h12, h23⟩
  · rw [slotHistory_zero]; exact historyOf_driftDetection_none
  · rw [slotHistory_one h1]; exact historyOf_driftDetection_one h1
  · rw [slotHistory_two h1 h2]; exact historyOf_driftDetection_two h1 h2 h12
  · rw [slotHistory_three h1 h2 h3]; exact historyOf_driftDetection_three h1 h2 h3 h12 h23

/-! ### Over runs -/

variable {s s' : TcpSiad} {tcb : TcpSocketState} {v : BitVec 32}

/-- From the constructor's state or the attribute defaults, every congestion event updates
`min_delay` and the recorded minima as the design's drift detector does. -/
theorem getSsThresh_records_minimum {configNumRtt cwnd : BitVec 32}
    (hr : Reachable (init configNumRtt cwnd) s ∨ Reachable typeIdDefaults s)
    (h : s.getSsThresh tcb = .ok (s', v)) :
    (s'.minDelay, s'.recordedMinima) = recordMinimum s.minDelay s.recordedMinima := by
  have hSlots : SlotsOrdered s.prevMinDelay1 s.prevMinDelay2 s.prevMinDelay3 :=
    hr.elim (slotsOrdered_of_reachable (slotsOrdered_single 0))
      (slotsOrdered_of_reachable (slotsOrdered_single 0))
  rw [getSsThresh_frame _ h]
  exact driftDetection_refines hSlots

/-- After rising minima of 10, 20 and 30 ms and a sample of 40 ms, the congestion event takes
the drift branch: the record falls back to its first minimum. -/
theorem getSsThresh_records_minimum_run :
    ∃ s s' v, Reachable (init 0 10) s ∧ s.getSsThresh (ofSegments 100 0) = .ok (s', v) ∧
      s.recordedMinima = [10, 20, 30] ∧ s'.recordedMinima = [10] ∧
      (s'.minDelay, s'.recordedMinima) = recordMinimum s.minDelay s.recordedMinima := by
  have hr := @Reachable.run (init 0 10) _ _
    [.pktsAcked (ofSegments 0 0) 10, .getSsThresh (ofSegments 100 0), .cwndEvent .completeCwr,
      .pktsAcked (ofSegments 100000 0) 20, .getSsThresh (ofSegments 100 0),
      .cwndEvent .completeCwr, .pktsAcked (ofSegments 100000 0) 30,
      .getSsThresh (ofSegments 100 0), .cwndEvent .completeCwr,
      .pktsAcked (ofSegments 100000 0) 40] .refl rfl
  exact ⟨_, _, _, hr, rfl, rfl, rfl, getSsThresh_records_minimum (.inl hr) rfl⟩

end TcpSiad
